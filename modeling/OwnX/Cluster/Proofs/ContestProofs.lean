import OwnX.Cluster.Proofs.OriginProofs

/-!
# Proofs: where terms come from

A member comes to a later term by an election of its own, which takes the next one, or by a message. So
no term is entered without an election, and none is skipped.
-/

set_option linter.dupNamespace false

namespace OwnX.Cluster

/-! ## The terms of a step -/

namespace Standing

/-- A message that is heard takes the member to its term, or leaves it in the own one. -/
theorem own_hear (s : Standing) (nodesAlive : List String) (request : Bool) (flag : Flag)
    (m : NodeMsg) : (s.hear nodesAlive request flag m).own = s.own ∨
      (s.hear nodesAlive request flag m).own = m.term := by
  have hmax : max s.own m.term = s.own ∨ max s.own m.term = m.term :=
    (le_total s.own m.term).symm.imp max_eq_left max_eq_right
  cases request with
  | true =>
    cases flag with
    | sGetVote =>
      left
      show s.hearVote.own = s.own
      unfold hearVote
      split_ifs <;> rfl
    | sBroadcastLeader =>
      show (s.hearLeader m).own = _ ∨ (s.hearLeader m).own = _
      rw [hearLeader_eq]
      split_ifs
      · exact Or.inl rfl
      · rw [own_enter]
        exact hmax
      · rw [own_sign, own_enter]
        exact hmax
      · rw [own_enter]
        exact hmax
    | _ => exact Or.inl rfl
  | false =>
    show (s.hearAnswer nodesAlive flag m).own = _ ∨ (s.hearAnswer nodesAlive flag m).own = _
    unfold hearAnswer
    by_cases hnew : s.nodeLeader.isSome ∧ s.own < m.term
    · rw [if_pos hnew]
      exact Or.inl rfl
    · rw [if_neg hnew]
      have hrec : (s.record [m.nodeId, m.leaderId] m.term).own = s.own ∨
          (s.record [m.nodeId, m.leaderId] m.term).own = m.term := by
        rw [own_record]
        exact hmax
      cases flag with
      | rAskLeader =>
        simp only
        split_ifs
        · rw [own_sign]
          exact hrec
        · exact hrec
      | rLeader =>
        simp only
        split_ifs <;> exact hrec
      | _ => exact hrec

end Standing

namespace Cluster

variable {c c' : Cluster} {env : Env} {a : Action} {out : Out} {t : Int}

theorem getMyTerm_of_registry (h : c'.registry = c.registry) : c'.getMyTerm = c.getMyTerm := by
  unfold getMyTerm
  rw [getMyNode_of_registry h]

theorem getMyTerm_setNode {id : String} {n : Node} (h : n.term = (c.nodes id).term) :
    (c.setNode id n).getMyTerm = c.getMyTerm :=
  congrArg Standing.own (standing_setNode h)

theorem getMyTerm_onSessionClosed (id : String) :
    (c.onSessionClosed env id).getMyTerm = c.getMyTerm := by
  have hset : (c.setNode id { c.nodes id with nodeConnector := none }).getMyTerm = c.getMyTerm :=
    getMyTerm_setNode rfl
  unfold onSessionClosed
  simp only
  split_ifs <;> exact hset

theorem getMyTerm_becomeCandidate (t : Int) :
    (c.becomeCandidate env t).1.getMyTerm = c.getMyTerm := by
  unfold becomeCandidate
  split_ifs
  · exact getMyTerm_of_registry (registry_finishFight _)
  · exact getMyTerm_of_registry (registry_finishFight _)
  · refine (getMyTerm_of_registry (registry_voteLoop t)).trans ?_
    exact getMyTerm_setNode (c := c.setStatus .candidate) rfl
  · refine (getMyTerm_of_registry (registry_voteLoop t)).trans ?_
    exact getMyTerm_setNode rfl

/-- Only an election takes a member to another term in a step of its own. -/
theorem Acts.own_cases (h : Acts env c a c' out) :
    c'.getMyTerm = c.getMyTerm ∨ c'.getMyTerm ∈ c'.contests := by
  have hstanding : ∀ {c₁ c₂ : Cluster}, c₂.standing.own = c₁.standing.own →
      c₂.getMyTerm = c₁.getMyTerm := id
  cases h with
  | startUp =>
    left
    unfold Cluster.startUp
    split
    · exact getMyTerm_of_registry (registry_signLeader _)
    · split_ifs <;> rfl
  | close =>
    left
    apply hstanding
    rw [standing_close]
    split_ifs <;> rfl
  | connect h =>
    simp only [Cluster.connect, Option.ite_none_right_eq_some, Option.some.injEq] at h
    obtain ⟨-, rfl⟩ := h
    exact Or.inl rfl
  | assignConnector h =>
    obtain ⟨r, -, rfl⟩ := Option.map_eq_some_iff.mp h
    exact Or.inl (getMyTerm_setNode (c := { c with connecting := none }) rfl)
  | readFail => exact Or.inl rfl
  | readStop => exact Or.inl rfl
  | callback id pending => exact Or.inl (getMyTerm_onSessionClosed (c := c.setConns c.conns pending) id)
  | leads hready hl =>
    left
    apply hstanding
    rw [standing_prune registry_heartbeatLeader, standing_heartbeatLeader]
  | follows hready hl =>
    left
    apply hstanding
    rw [standing_prune registry_heartbeatFollower]
    exact getMyTerm_of_registry registry_heartbeatFollower
  | idle => exact Or.inl rfl
  | @fight f _ =>
    cases f with
    | start =>
      cases hpass : c.passesFlag (.act env (.fight .start)) with
      | false =>
        have hskip : (c.setFights (c.fights.erase .start)).startFight env = (_, []) :=
          startFight_skip hpass
        left
        show ((c.setFights (c.fights.erase .start)).startFight env).1.getMyTerm = _
        rw [hskip]
        rfl
      | true =>
        have hterm : ((c.setFights (c.fights.erase .start)).startFight env).1.getMyTerm =
            max c.getMyTerm c.nextTerm := getMyTerm_startFight hpass
        show ((c.setFights (c.fights.erase .start)).startFight env).1.getMyTerm = _ ∨
          ((c.setFights (c.fights.erase .start)).startFight env).1.getMyTerm ∈ _
        rw [hterm]
        by_cases hlater : c.getMyTerm < c.nextTerm
        · rw [max_eq_right hlater.le]
          exact Or.inr (contests_startFight (c := c.setFights (c.fights.erase .start)) env hpass hlater)
        · exact Or.inl (max_eq_left (not_lt.mp hlater))
    | online t => exact Or.inl (getMyTerm_of_registry (registry_waitOnline t))
    | askLeader t => exact Or.inl rfl
    | settle t =>
      exact Or.inl (getMyTerm_becomeCandidate (c := c.setFights (c.fights.erase (.settle t))) t)
    | vote t => exact Or.inl (getMyTerm_of_registry (registry_voteLoop t))
    | getVote t =>
      left
      apply hstanding
      rw [fightElection, standing_countVotes]
      rfl
    | confirm t => exact Or.inl (getMyTerm_of_registry registry_confirmLeader)

/-- An invocation that finds no later term gives the flag back. -/
theorem Acts.fighting_of_last (h : Acts env c a c' out) (hpass : c.passesFlag (.act env a) = true)
    (hnot : ¬ c.getMyTerm < c.nextTerm) : c'.fighting = false := by
  have ha : a = .fight .start := by
    by_contra hne
    rw [passesFlag_of_ne hne] at hpass
    cases hpass
  subst ha
  cases h with
  | fight =>
    show ((c.setFights (c.fights.erase .start)).startFight env).1.fighting = false
    have henter := startFight_enter (c := c.setFights (c.fights.erase .start)) env hpass
    rw [henter]
    refine (congrArg (fun r : Cluster × Out => r.1.fighting) (if_neg hnot)).trans ?_
    rfl

/-- A later term is the next one. -/
theorem nextTerm_of_later (hown : 0 ≤ c.getMyTerm) (hlater : c.getMyTerm < c.nextTerm) :
    c.nextTerm = c.getMyTerm + 1 := by
  have hfits : Fits 64 c.nextTerm := fits_wrap (by decide) _
  have hhigh := hfits.2
  exact nextTerm_of_lt hown (by omega)

/-- The term of an election is that of one that was fought before, or the next one. -/
theorem Acts.contests_cases (h : Acts env c a c' out) (hheld : ∃ u, c.HeldBy u)
    (hown : 0 ≤ c.getMyTerm) (ht : t ∈ c'.contests) : t ∈ c.contests ∨ t = c.getMyTerm + 1 := by
  obtain ⟨u, hu⟩ := hheld
  have hnew := h.heldBy hu
  split_ifs at hnew with hpass
  · right
    rw [hnew] at ht
    split_ifs at ht with hf
    · have hlater : c.getMyTerm < c.nextTerm := by
        by_contra hnot
        exact absurd hf (by rw [h.fighting_of_last hpass hnot]; simp)
      rw [List.mem_singleton.mp ht]
      exact nextTerm_of_later hown hlater
    · cases ht
  · left
    rw [hnew.1] at ht
    split_ifs at ht with hf
    · rw [hu, if_pos (hnew.2 hf)]
      exact ht
    · cases ht

/-! ## The terms of the messages -/

variable {m : String × Flag × NodeMsg}

theorem term_of_mem_waitOnline (hm : m ∈ (c.waitOnline env t).2) :
    m.2.2.term ∈ (c.waitOnline env t).1.contests := by
  unfold waitOnline at hm ⊢
  split_ifs at hm ⊢
  · cases hm
  · obtain ⟨-, -, hterm, -⟩ := mem_sendAndWait rfl hm
    rw [hterm]
    exact mem_contests (f := .askLeader t) (by simp) rfl
  · cases hm

theorem term_of_mem_voteLoop (hm : m ∈ (c.voteLoop env t).2) : m.2.2.term = c.getMyTerm := by
  unfold voteLoop at hm
  split_ifs at hm
  · cases hm
  · cases hm
  · cases hm
  · obtain ⟨-, -, hterm, -⟩ := mem_sendAndWait rfl hm
    exact hterm
  · cases hm

theorem term_of_mem_becomeCandidate (hm : m ∈ (c.becomeCandidate env t).2) :
    m.2.2.term = c.getMyTerm := by
  unfold becomeCandidate at hm
  split_ifs at hm
  · cases hm
  · cases hm
  · refine (term_of_mem_voteLoop hm).trans ?_
    exact getMyTerm_setNode (c := c.setStatus .candidate) rfl
  · exact (term_of_mem_voteLoop hm).trans (getMyTerm_setNode rfl)

theorem term_of_mem_startFight (hm : m ∈ (c.startFight env).2) :
    m.2.2.term ∈ (c.startFight env).1.contests := by
  unfold startFight at hm ⊢
  split_ifs at hm ⊢
  · cases hm
  · cases hm
  · cases hm
  · simp only at hm ⊢
    split_ifs at hm ⊢
    · exact term_of_mem_waitOnline hm
    · cases hm

/-- A message carries the own term, or that of an election the member fights. -/
theorem Acts.term_of_mem (h : Acts env c a c' out) (hm : m ∈ out) :
    m.2.2.term = c.getMyTerm ∨ m.2.2.term ∈ c'.contests := by
  cases h with
  | leads hready hlead =>
    obtain ⟨id, -, rfl⟩ := List.mem_map.mp hm
    exact Or.inl rfl
  | @fight f hf =>
    cases f with
    | start =>
      have hmem := term_of_mem_startFight (c := c.setFights (c.fights.erase .start)) hm
      exact Or.inr hmem
    | online t => exact Or.inr (term_of_mem_waitOnline hm)
    | askLeader t => cases hm
    | settle t =>
      have hterm := term_of_mem_becomeCandidate (c := c.setFights (c.fights.erase (.settle t))) hm
      exact Or.inl hterm
    | vote t =>
      have hterm := term_of_mem_voteLoop (c := c.setFights (c.fights.erase (.vote t))) hm
      exact Or.inl hterm
    | getVote t =>
      obtain ⟨-, -, -, hconfirm⟩ := mem_countVotes hm
      exact Or.inr (mem_contests hconfirm rfl)
    | confirm t => cases hm
  | _ => cases hm

theorem term_of_mem_onBroadcastLeader {m : NodeMsg} {r : Flag × NodeMsg}
    (hr : r ∈ (c.onBroadcastLeader env m).2) : r.2.term = (c.onBroadcastLeader env m).1.getMyTerm := by
  have hsign : (c.enterTerm env m).getMyTerm =
      ((c.enterTerm env m).signLeader m.leaderId).1.getMyTerm :=
    (getMyTerm_of_registry (registry_signLeader _)).symm
  unfold onBroadcastLeader at hr ⊢
  by_cases hlt : m.term < c.getMyTerm
  · rw [if_pos hlt] at hr ⊢
    cases List.mem_singleton.mp hr
    rfl
  · rw [if_neg hlt] at hr ⊢
    simp only at hr ⊢
    split_ifs at hr ⊢
    · rcases List.mem_cons.mp hr with rfl | hr
      · rfl
      · cases List.mem_singleton.mp hr
        rfl
    · cases List.mem_singleton.mp hr
      rfl
    · rcases List.mem_cons.mp hr with rfl | hr
      · exact hsign
      · cases List.mem_singleton.mp hr
        rfl
    · cases List.mem_singleton.mp hr
      rfl

/-- An answer carries the term of the request, or the own one. -/
theorem term_of_answer {flag : Flag} {m : NodeMsg} {r : Flag × NodeMsg} (hcoh : c.standing.Coherent)
    (hr : r ∈ (c.acceptorReceived env flag m).2) :
    r.2.term = m.term ∨ r.2.term = c.getMyTerm ∨
      r.2.term = (c.acceptorReceived env flag m).1.getMyTerm := by
  cases flag with
  | sAskLeader =>
    cases List.mem_singleton.mp hr
    right
    left
    show (c.answerAskLeader m).term = c.getMyTerm
    unfold answerAskLeader
    split
    · split_ifs
      · exact hcoh.leader _ (by assumption)
      · rfl
    · rfl
  | sGetVote =>
    cases List.mem_singleton.mp hr
    exact Or.inl rfl
  | sBroadcastLeader => exact Or.inr (Or.inr (term_of_mem_onBroadcastLeader hr))
  | _ => cases hr

end Cluster

/-! ## Every term has been contested -/

/-- The term `t` is the first one, or someone has fought an election in it. -/
def Elections.Entered (h : Elections) (t : Int) : Prop := t = 0 ∨ ∃ id, h.contested id t

theorem Elections.Entered.note {h : Elections} {t : Int} (ht : h.Entered t) (s : Network) :
    (h.note s).Entered t := by
  rcases ht with rfl | ⟨id, hid⟩
  · exact Or.inl rfl
  · exact Or.inr ⟨id, Or.inl hid⟩

/-- No member is in a term, and no message of one, that has not been contested; and an election is
fought in a term whose predecessor has been entered. -/
structure Contests (ids : List String) (s : Network) (h : Elections) : Prop where
  own : ∀ v, h.Entered (s.members v).getMyTerm
  packets : ∀ p ∈ s.packets, h.Entered p.msg.term
  fought : ∀ v, ∀ t ∈ (s.members v).contests, h.contested v t
  before : ∀ v t, h.contested v t → v ∈ ids ∧ h.Entered (t - 1)

namespace Contests

variable {ids : List String} {s s' : Network} {h : Elections}

/-- Members that are left alone keep their elections. -/
theorem contested_note (hc : Contests ids s h) {v : String}
    (hsame : ∀ u, u ≠ v → s'.members u = s.members u) {u : String} {t : Int}
    (hu : (h.note s').contested u t) : h.contested u t ∨ u = v ∧ t ∈ (s'.members v).contests := by
  rcases hu with hu | hu
  · exact Or.inl hu
  · by_cases he : u = v
    · rw [he] at hu
      exact Or.inr ⟨he, hu⟩
    · rw [hsame u he] at hu
      exact Or.inl (hc.fought u t hu)

theorem act {v : String} {env : Env} {a : Action} {c : Cluster} {out : Out} (hc : Contests ids s h)
    (hv : v ∈ ids) (hheld : ∃ t, (s.members v).HeldBy t) (hpos : 0 ≤ (s.members v).getMyTerm)
    (hacts : Cluster.Acts env (s.members v) a c out)
    (hs : s' = (s.setMember v c).send (Network.requests v out)) : Contests ids s' (h.note s') := by
  have hself : s'.members v = c := by simp [hs]
  have hother : ∀ u, u ≠ v → s'.members u = s.members u := fun u hu => by simp [hs, hu]
  have hown : (h.note s').Entered c.getMyTerm := by
    rcases hacts.own_cases with he | hmem
    · rw [he]
      exact (hc.own v).note s'
    · exact Or.inr ⟨v, Or.inr (by rw [hself]; exact hmem)⟩
  constructor
  case own =>
    intro u
    by_cases hu : u = v
    · rw [hu, hself]
      exact hown
    · rw [hother u hu]
      exact (hc.own u).note s'
  case packets =>
    intro p hp
    rw [hs, packets_send, Multiset.mem_add] at hp
    rcases hp with hp | hp
    · exact (hc.packets p hp).note s'
    · obtain ⟨m, hm, rfl⟩ := List.mem_map.mp hp
      rcases hacts.term_of_mem hm with hterm | hterm
      · show (h.note s').Entered m.2.2.term
        rw [hterm]
        exact (hc.own v).note s'
      · exact Or.inr ⟨v, Or.inr (by rw [hself]; exact hterm)⟩
  case fought => exact fun u t ht => Or.inr ht
  case before =>
    intro u t hu
    rcases hc.contested_note hother hu with hold | ⟨rfl, ht⟩
    · exact ⟨(hc.before u t hold).1, (hc.before u t hold).2.note s'⟩
    · refine ⟨hv, ?_⟩
      rw [hself] at ht
      rcases hacts.contests_cases hheld hpos ht with hbefore | hnext
      · exact (hc.before u t (hc.fought u t hbefore)).2.note s'
      · rw [hnext, Int.add_sub_cancel]
        exact (hc.own u).note s'

theorem receive {env : Env} {p : Packet}
    (hc : Contests ids { s with packets := p ::ₘ s.packets } h)
    (hcoh : (s.members p.dst).standing.Coherent) :
    Contests ids (s.handle env p) (h.note (s.handle env p)) := by
  have hp : h.Entered p.msg.term := hc.packets p (Multiset.mem_cons_self p s.packets)
  have hself : (s.handle env p).members p.dst =
      (s.members p.dst).receive env p.request p.flag p.msg := by
    unfold Network.handle Cluster.receive
    split_ifs <;> exact if_pos rfl
  have hother : ∀ u, u ≠ p.dst → (s.handle env p).members u = s.members u := by
    intro u hu
    unfold Network.handle
    split_ifs <;> exact if_neg hu
  have hown : h.Entered ((s.members p.dst).receive env p.request p.flag p.msg).getMyTerm := by
    have hstand := Cluster.standing_receive (s.members p.dst) env p.request p.flag p.msg
    show h.Entered (Cluster.standing _).own
    rw [hstand]
    rcases Standing.own_hear (s.members p.dst).standing (s.members p.dst).nodesAlive p.request p.flag
      p.msg with he | he
    · rw [he]
      exact hc.own p.dst
    · rw [he]
      exact hp
  have hfought : ∀ u, ∀ t ∈ ((s.handle env p).members u).contests, h.contested u t := by
    intro u t ht
    by_cases hu : u = p.dst
    · have hsame := Cluster.SameElections.of_workings
        (Cluster.workings_receive (s.members p.dst) env p.request p.flag p.msg)
      rw [hu, hself, (Prod.mk.inj hsame.arena).2] at ht
      rw [hu]
      exact hc.fought p.dst t ht
    · rw [hother u hu] at ht
      exact hc.fought u t ht
  have hkeep : ∀ {u t}, (h.note (s.handle env p)).contested u t → h.contested u t := by
    rintro u t (hu | hu)
    · exact hu
    · exact hfought u t hu
  constructor
  case own =>
    intro u
    by_cases hu : u = p.dst
    · rw [hu, hself]
      exact hown.note _
    · rw [hother u hu]
      exact (hc.own u).note _
  case packets =>
    intro q hq
    have hold : ∀ q ∈ s.packets, h.Entered q.msg.term :=
      fun q hq => hc.packets q (Multiset.mem_cons_of_mem hq)
    unfold Network.handle at hq
    split_ifs at hq with hreq
    · rw [packets_send, Multiset.mem_add] at hq
      rcases hq with hq | hq
      · exact (hold q hq).note _
      · obtain ⟨r, hr, rfl⟩ := List.mem_map.mp hq
        unfold Cluster.receive at hown
        rw [if_pos hreq] at hown
        show Elections.Entered _ r.2.term
        rcases Cluster.term_of_answer hcoh hr with he | he | he
        · rw [he]
          exact hp.note _
        · rw [he]
          exact (hc.own p.dst).note _
        · rw [he]
          exact hown.note _
    · exact (hold q hq).note _
  case fought => exact fun u t ht => Or.inr ht
  case before =>
    intro u t hu
    obtain ⟨hmem, hbefore⟩ := hc.before u t (hkeep hu)
    exact ⟨hmem, hbefore.note _⟩

/-- Every term up to one that has been entered has been contested. -/
theorem entered_below (hc : Contests ids s h) {u : Int} (hu : h.Entered u) {t : Int} (ht : 1 ≤ t)
    (hle : t ≤ u) : ∃ id ∈ ids, h.contested id t := by
  obtain ⟨n, rfl⟩ : ∃ n : Nat, u = t + n := ⟨(u - t).toNat, by omega⟩
  induction n with
  | zero =>
    rcases hu with hzero | ⟨id, hid⟩
    · omega
    · rw [Int.natCast_zero, Int.add_zero] at hid
      exact ⟨id, (hc.before id t hid).1, hid⟩
  | succ n ih =>
    rcases hu with hzero | ⟨id, hid⟩
    · omega
    · have hbefore := (hc.before id _ hid).2
      rw [show t + ((n + 1 : Nat) : Int) - 1 = t + n by omega] at hbefore
      exact ih hbefore (by omega)

end Contests

theorem contests_reachable {conf : Conf} {s : Network} {h : Elections}
    (hr : (electionMachine conf).Reachable (s, h)) : Contests conf.ids s h := by
  refine hr.invariant (fun x => Contests conf.ids x.1 x.2) ?_ ?_
  · rintro ⟨s, h⟩ ⟨⟨now, rfl⟩, rfl⟩
    constructor
    case own =>
      intro v
      obtain ⟨name, hname⟩ := (Cluster.fresh_create conf v now).nodes v
      left
      show ((Cluster.create conf v now).nodes (Cluster.create conf v now).nodeMy).term = 0
      rw [(Cluster.fresh_create conf v now).my, hname]
    case packets => exact fun p hp => absurd hp (Multiset.notMem_zero p)
    case fought =>
      intro v t ht
      unfold Cluster.contests at ht
      rw [show ((Network.initial conf now).members v).fights = [] from
        (Cluster.fresh_create conf v now).fights] at ht
      cases ht
    case before => exact fun v t hv => hv.elim
  · rintro ⟨s, h⟩ e ⟨s', h'⟩ hx hc - hs
    obtain ⟨s₁, hs₁, he⟩ := Option.map_eq_some_iff.mp hs
    cases he
    have hmember : ∀ v, (member conf v).Reachable (s.members v) :=
      fun v => member_reachable hx.forget v
    cases steps_of_step hs₁ with
    | act hid hacts =>
      exact hc.act hid (Cluster.attended_reachable (hmember _)).held (Cluster.getMyTerm_nonneg (hmember _))
        hacts rfl
    | receive s env p => exact hc.receive (coherent_reachable (hmember p.dst))

/-- No term is entered without an election, and none is skipped: a member in the term `u` is in a cluster
whose nodes have fought an election in every term from `1` to `u`. -/
theorem terms_were_contested {conf : Conf} {s : Network} {h : Elections}
    (hr : (electionMachine conf).Reachable (s, h)) {v : String} {t : Int} (ht : 1 ≤ t)
    (hle : t ≤ (s.members v).getMyTerm) : ∃ id ∈ conf.ids, h.contested id t := by
  have hc := contests_reachable hr
  exact hc.entered_below (hc.own v) ht hle

/-- The broadcast of `c:1` has taken `a:1` to the second term. -/
theorem terms_were_contested_overtaken :
    ∃ s h, (electionMachine threeNodes).Reachable (s, h) ∧ (s.members "a:1").getMyTerm = 2 ∧
      (∃ id ∈ threeNodes.ids, h.contested id 1) ∧ ∃ id ∈ threeNodes.ids, h.contested id 2 := by
  have hrun : ((network threeNodes).run (Network.initial threeNodes 0) overtakenElection).map
      (fun s => (s.members "a:1").getMyTerm) = some 2 := by
    decide
  obtain ⟨s, hr, hterm⟩ := Machine.observed_of_run hrun ⟨0, rfl⟩
  obtain ⟨h, hh⟩ := hr.withHistory ⟨fun _ _ => False, fun _ _ => False⟩ Elections.note
  have hfirst := terms_were_contested hh (v := "a:1") (t := 1) le_rfl (by omega)
  have hsecond := terms_were_contested hh (v := "a:1") (t := 2) (by omega) (by omega)
  exact ⟨s, h, hh, hterm, hfirst, hsecond⟩

end OwnX.Cluster
