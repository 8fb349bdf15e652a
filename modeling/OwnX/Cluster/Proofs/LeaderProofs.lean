import OwnX.Cluster.Proofs.MemberProofs
import OwnX.Cluster.Proofs.VoteProofs

/-!
# Proofs: one leader per term

A member takes a leader in three ways: it signs itself after an election, it is told by a broadcast,
or by the answer to a question. In each case the leader has won the votes of the member's own term,
and two members with the same term then have the same leader.
-/

set_option linter.dupNamespace false

namespace OwnX.Cluster

namespace Standing

/-- The leader has won the own term. `won l t` says that `l` has won the votes of the term `t`. -/
def Won (won : String → Int → Prop) (s : Standing) : Prop :=
  ∀ l, s.nodeLeader = some l → l ∈ s.nodesAll ∧ won l s.own

namespace Won

variable {won : String → Int → Prop} {s s' : Standing} {m : NodeMsg}

theorem of_none (h : s.nodeLeader = none) : s.Won won := by
  intro l hl
  cases h.symm.trans hl

/-- The member signs a node that has won the term the member is in. -/
theorem sign (h : s.Won won) (hcoh : s.Coherent) {id : String} (hid : id ∈ s.nodesAll)
    (hwon : s.term id = s.own → s.nodeLeader ≠ some id → won id s.own) : (s.sign id).Won won := by
  rw [hcoh.sign_eq]
  split_ifs with hnew
  · intro l hl
    cases hl
    exact ⟨hid, hwon hnew.1 hnew.2⟩
  · exact h

/-- A term is recorded. If it is a new one for a member with a leader, then the leader has won it. -/
theorem record (h : s.Won won) {ids : List String} {t : Int}
    (hlead : ∀ l, s.nodeLeader = some l → t ≤ s.own ∨ won l t) : (s.record ids t).Won won := by
  intro l hl
  obtain ⟨hall, hwon⟩ := h l hl
  refine ⟨hall, ?_⟩
  rw [own_record]
  rcases hlead l hl with hle | hnew
  · rw [max_eq_left hle]
    exact hwon
  · rcases le_total t s.own with hle | hle
    · rw [max_eq_left hle]
      exact hwon
    · rw [max_eq_right hle]
      exact hnew

/-! ## The messages -/

theorem hearVote (h : s.Won won) : s.hearVote.Won won := by
  unfold Standing.hearVote
  split_ifs
  · exact of_none rfl
  · exact h

theorem enter (h : s.Won won) (hwon : won m.leaderId m.term) : (s.enter m).Won won := by
  unfold Standing.enter
  split_ifs with hnew
  · exact of_none rfl
  · refine h.record fun l hl => ?_
    by_cases he : l = m.leaderId
    · rw [he]
      exact Or.inr hwon
    · left
      by_contra hgt
      exact hnew ⟨not_le.mp hgt, by simp [hl], by simp [hl, he]⟩

theorem hearLeader (h : s.Won won) (hcoh : s.Coherent) (hwon : won m.leaderId m.term) :
    (s.hearLeader m).Won won := by
  have henter : (s.enter m).Won won := h.enter hwon
  rw [hearLeader_eq]
  split_ifs with hlt hsame hall
  · exact h
  · exact henter
  · refine henter.sign (hcoh.enter m) hall fun _ _ => ?_
    rw [own_enter, max_eq_right (not_lt.mp hlt)]
    exact hwon
  · exact henter

/-- The answer to `msgSAskLeader` names a leader that has won the term of the message. The member may
have gone on to a later term, in which it must not know that leader. -/
theorem hearAnswer {nodesAlive : List String} {flag : Flag} (h : s.Won won) (hcoh : s.Coherent)
    (hwon : flag = .rAskLeader → m.leaderId ≠ "" → won m.leaderId m.term)
    (hstale : flag = .rAskLeader → m.leaderId ∈ nodesAlive → m.term < s.own →
      s.term m.leaderId = s.own → s.nodeLeader = some m.leaderId) :
    (s.hearAnswer nodesAlive flag m).Won won := by
  unfold Standing.hearAnswer
  by_cases hnew : s.nodeLeader.isSome ∧ s.own < m.term
  · rw [if_pos hnew]
    exact of_none rfl
  · rw [if_neg hnew]
    have hrec : (s.record [m.nodeId, m.leaderId] m.term).Won won := by
      refine h.record fun l hl => Or.inl ?_
      by_contra hlt
      exact hnew ⟨by simp [hl], not_le.mp hlt⟩
    cases flag with
    | rAskLeader =>
      simp only
      split_ifs with hid
      · refine hrec.sign (hcoh.note hnew _) hid.2.2 fun hterm hother => ?_
        rw [term_record_eq hcoh hid.2.2 (by simp)] at hterm
        rw [own_record]
        rcases le_or_gt s.own m.term with hle | hlt
        · rw [max_eq_right hle]
          exact hwon rfl hid.1
        · -- a message of an earlier term changes no term that has reached the own one
          have hcached : s.term m.leaderId = s.own := hterm.resolve_left (not_le.mpr hlt)
          exact absurd (hstale rfl hid.2.1 hlt hcached) hother
      · exact hrec
    | rLeader =>
      simp only
      split_ifs
      · exact of_none rfl
      · exact hrec
    | _ => exact hrec

theorem quiet (h : s.Won won) (hquiet : s.Quiet s') : s'.Won won := by
  cases hquiet with
  | keep => exact h
  | release => exact of_none rfl
  | contest hnone => exact of_none hnone
  | campaign hnone => exact of_none hnone
  | start => exact h
  | close => exact h

end Won

end Standing

namespace Cluster

/-- What a member knows of its leader. `won l t` says that `l` has won the votes of the term `t`. -/
structure Leads (won : String → Int → Prop) (c : Cluster) : Prop where
  model : c.model = .cluster
  cached : ∀ id, (c.nodes id).term ≤ c.getMyTerm
  leader : ∀ l, c.nodeLeader = some l →
    l ∈ c.nodesAll ∧ (c.nodes l).term = c.getMyTerm ∧ won l c.getMyTerm
  status : c.status = .leader → c.nodeLeader = some c.nodeMy
  confirm : ∀ t, .confirm t ∈ c.fights → won c.nodeMy t

namespace Leads

variable {won won' : String → Int → Prop} {c c' : Cluster} {env : Env} {m : NodeMsg}

theorem of_standing (hmodel : c.model = .cluster) (hcoh : c.standing.Coherent)
    (hwon : c.standing.Won won) (hconfirm : ∀ t, .confirm t ∈ c.fights → won c.nodeMy t) :
    Leads won c where
  model := hmodel
  cached := hcoh.terms
  leader := fun l hl => ⟨(hwon l hl).1, hcoh.leader l hl, (hwon l hl).2⟩
  status := hcoh.leads
  confirm := hconfirm

theorem toWon (h : Leads won c) : c.standing.Won won :=
  fun l hl => ⟨(h.leader l hl).1, (h.leader l hl).2.2⟩

theorem mono (h : Leads won c) (hle : ∀ l t, won l t → won' l t) : Leads won' c where
  model := h.model
  cached := h.cached
  leader := fun l hl => ⟨(h.leader l hl).1, (h.leader l hl).2.1, hle _ _ (h.leader l hl).2.2⟩
  status := h.status
  confirm := fun t ht => hle _ _ (h.confirm t ht)

/-- A step of its own. The election is won only by a member that has counted enough votes. -/
theorem act {a : Action} {out : Out} (h : Leads won c) (hcoh : c.standing.Coherent)
    (hacts : Acts env c a c' out) (hmy : c.nodeMy ∈ c.nodesAll)
    (hcount : ∀ t, ((c'.getAllNodeNames.length / 2 : Nat) : Int) < c'.getMyNode.getVoteCount t →
      won c.nodeMy t)
    (hsign : ∀ t, a = .fight (.confirm t) → confirmed c.returnWait.2 = true →
      c.nodeLeader ≠ some c.nodeMy → c.getMyTerm = t) : Leads won c' := by
  have hwon : c'.standing.Won won := by
    rcases hacts.stands with ⟨hsigns, he⟩ | ⟨-, hquiet⟩
    · rw [he]
      refine h.toWon.sign hcoh hmy fun _ hne => ?_
      cases a with
      | startUp => cases h.model.symm.trans hsigns
      | fight f =>
        cases f with
        | confirm t =>
          have hterm : c.getMyTerm = t := hsign t rfl hsigns hne
          show won c.nodeMy c.getMyTerm
          rw [hterm]
          exact h.confirm t hacts.mem_fights
        | _ => exact hsigns.elim
      | _ => exact hsigns.elim
    · exact h.toWon.quiet hquiet
  refine of_standing (hacts.model.trans h.model) (hcoh.moves hacts.moves) hwon fun t ht => ?_
  rw [hacts.ids.1]
  rcases hacts.confirm_mem ht with hold | hcounted
  · exact h.confirm t hold
  · exact hcount t hcounted

/-! ## The message handlers -/

theorem receive {request : Bool} {flag : Flag} (h : Leads won c) (hcoh : c.standing.Coherent)
    (hwon : (c.standing.hear c.nodesAlive request flag m).Won won) :
    Leads won (c.receive env request flag m) := by
  have hstand := standing_receive c env request flag m
  have hsame := SameElections.of_workings (workings_receive c env request flag m)
  refine of_standing (hsame.model.trans h.model) ?_ ?_ fun t ht => ?_
  · rw [hstand]
    exact hcoh.hear _ _ _ _
  · rw [hstand]
    exact hwon
  · have hinv : .confirm t ∈ (c.receive env request flag m).invocations :=
      mem_invocations.mpr ⟨ht, nofun⟩
    rw [hsame.invocations] at hinv
    rw [(ids_receive c env request flag m).1]
    exact h.confirm t (mem_invocations.mp hinv).1

/-- A broadcast names a leader that has won the term of the message. -/
theorem acceptorReceived {flag : Flag} (h : Leads won c) (hcoh : c.standing.Coherent)
    (hwon : flag = .sBroadcastLeader → won m.leaderId m.term) :
    Leads won (c.acceptorReceived env flag m).1 := by
  have hhear : (c.standing.hear c.nodesAlive true flag m).Won won := by
    cases flag with
    | sGetVote => exact h.toWon.hearVote
    | sBroadcastLeader => exact h.toWon.hearLeader hcoh (hwon rfl)
    | _ => exact h.toWon
  exact h.receive hcoh hhear

theorem answerAskLeader (h : Leads won c) (hne : (c.answerAskLeader m).leaderId ≠ "") :
    won (c.answerAskLeader m).leaderId (c.answerAskLeader m).term := by
  unfold Cluster.answerAskLeader at hne ⊢
  cases hl : c.nodeLeader with
  | none => simp [hl] at hne
  | some l =>
    obtain ⟨-, hterm, hwon⟩ := h.leader l hl
    simp only [hl] at hne ⊢
    split_ifs at hne ⊢
    · rw [← hterm] at hwon
      exact hwon
    · exact absurd rfl hne

/-- The answers of the acceptor that name a leader. -/
theorem acceptorReplies {flag : Flag} {r : Flag × NodeMsg} (h : Leads won c)
    (hr : r ∈ (c.acceptorReceived env flag m).2) (hflag : r.1 = .rAskLeader)
    (hne : r.2.leaderId ≠ "") : won r.2.leaderId r.2.term := by
  cases flag with
  | sAskLeader =>
    cases List.mem_singleton.mp hr
    exact h.answerAskLeader hne
  | sGetVote =>
    cases List.mem_singleton.mp hr
    cases hflag
  | sBroadcastLeader =>
    rcases (onBroadcastLeader_cases c env m).2 r hr with hf | hf
    · cases hf.symm.trans hflag
    · cases hf.symm.trans hflag
  | _ => cases hr

/-- An answer to `msgSAskLeader` names a leader that has won the term of the message, and is not
stale for a member that knows this leader in its own term. -/
theorem nodeReceived {flag : Flag} (h : Leads won c) (hcoh : c.standing.Coherent)
    (hwon : flag = .rAskLeader → m.leaderId ≠ "" → won m.leaderId m.term)
    (hstale : flag = .rAskLeader → m.leaderId ∈ c.nodesAlive → m.term < c.getMyTerm →
      (c.nodes m.leaderId).term = c.getMyTerm → c.nodeLeader = some m.leaderId) :
    Leads won (c.nodeReceived env flag m) := by
  have hhear : (c.standing.hear c.nodesAlive false flag m).Won won :=
    h.toWon.hearAnswer hcoh hwon hstale
  exact h.receive hcoh hhear

end Leads

end Cluster

/-! ## Agreement -/

/-- The node `l` has the votes of more than half of the nodes in the term `t`. -/
def HasWon (ids : List String) (h : Votes) (l : String) (t : Int) : Prop :=
  ids.length / 2 < support ids (fun u => h u t) l

/-- The leader that a message names has won the term of the message. -/
structure Packet.Truthful (won : String → Int → Prop) (p : Packet) : Prop where
  broadcast : p.request = true → p.flag = .sBroadcastLeader → won p.msg.leaderId p.msg.term
  answer : p.request = false → p.flag = .rAskLeader → p.msg.leaderId ≠ "" →
    won p.msg.leaderId p.msg.term

/-- Every leader that a member has or a message names has won its term. -/
structure Agreement (ids : List String) (s : Network) (h : Votes) : Prop where
  leads : ∀ v, (s.members v).Leads (HasWon ids h)
  packets : ∀ p ∈ s.packets, p.Truthful (HasWon ids h)

/-- The condition on a run. No heartbeat deletes a vote for the own term or a later one; a member
signs itself only in the term of the election it has won; and the answer that names the leader of an
earlier term does not reach a member that knows this leader in its own term. -/
def Timely (s : Network) : Event → Prop
  | .act id _ .heartbeat => (s.members id).isReady = true → (s.members id).getMyNode.PrunesBelow
  | .act id _ (.fight (.confirm t)) =>
    Cluster.confirmed (s.members id).returnWait.2 = true → (s.members id).nodeLeader ≠ some id →
      (s.members id).getMyTerm = t
  | .receive _ p =>
    p.request = false → p.flag = .rAskLeader → p.msg.leaderId ∈ (s.members p.dst).nodesAlive →
      p.msg.term < (s.members p.dst).getMyTerm →
      ((s.members p.dst).nodes p.msg.leaderId).term = (s.members p.dst).getMyTerm →
      (s.members p.dst).nodeLeader = some p.msg.leaderId
  | _ => True

instance (s : Network) (e : Event) : Decidable (Timely s e) := by
  unfold Timely
  split <;> infer_instance

variable {ids : List String} {s s' : Network} {h : Votes}

theorem Timely.prunesBelow {e : Event} (hok : Timely s e) : PrunesBelow s e := by
  cases e with
  | act id env a =>
    cases a with
    | heartbeat => exact hok
    | _ => trivial
  | receive env p => trivial

theorem HasWon.note {l : String} {t : Int} (hwon : HasWon ids h l t) (s : Network) :
    HasWon ids (h.note s) l t := by
  have hgrow : ∀ v b, h v t = some b → h.note s v t = some b := by
    intro v b hv
    unfold Votes.note
    rw [hv]
    rfl
  exact lt_of_lt_of_le hwon (support_mono ids hgrow l)

theorem Agreement.note (ha : Agreement ids s h) (s' : Network) : Agreement ids s (h.note s') where
  leads := fun v => (ha.leads v).mono fun _ _ hwon => hwon.note s'
  packets := fun p hp =>
    ⟨fun hreq hflag => ((ha.packets p hp).broadcast hreq hflag).note s',
      fun hreq hflag hne => ((ha.packets p hp).answer hreq hflag hne).note s'⟩

theorem Agreement.setMember {c : Cluster} (ha : Agreement ids s h) (v : String)
    (hc : c.Leads (HasWon ids h)) : Agreement ids (s.setMember v c) h where
  leads := members_ind (P := fun _ c => c.Leads (HasWon ids h)) (fun _ => rfl) hc fun u _ => ha.leads u
  packets := ha.packets

theorem Agreement.send {ps : List Packet} (ha : Agreement ids s h)
    (hps : ∀ p ∈ ps, p.Truthful (HasWon ids h)) : Agreement ids (s.send ps) h where
  leads := ha.leads
  packets := by
    intro p hp
    rw [packets_send, Multiset.mem_add] at hp
    rcases hp with hp | hp
    · exact ha.packets p hp
    · exact hps p hp

theorem agreement_act {v : String} {env : Env} {a : Action} {c : Cluster} {out : Out}
    (ha : Agreement ids s h) (hb : Ballots ids s h) (hcoh : (s.members v).standing.Coherent)
    (hv : v ∈ ids)
    (hacts : Cluster.Acts env (s.members v) a c out) (hok : Timely s (.act v env a))
    (hs : s' = (s.setMember v c).send (Network.requests v out)) (hb' : Ballots ids s' (h.note s')) :
    Agreement ids s' (h.note s') := by
  have hold := ha.note s'
  have hself : s'.members v = c := by simp [hs]
  have hmy : (s.members v).nodeMy = v := hb.my v
  have hc : c.Leads (HasWon ids (h.note s')) := by
    refine (hold.leads v).act hcoh hacts ?_ ?_ ?_
    · rw [hmy, hb.all v]
      exact hv
    · intro t hcount
      rw [hmy]
      rw [← hself] at hcount
      exact hb'.majority hcount
    · rintro t rfl hconf hne
      rw [hmy] at hne
      exact hok hconf hne
  have hsent : ∀ p ∈ Network.requests v out, p.Truthful (HasWon ids (h.note s')) := by
    intro p hp
    obtain ⟨m, hm, rfl⟩ := List.mem_map.mp hp
    refine ⟨fun _ hflag => ?_, fun hreq => by cases hreq⟩
    rcases (Cluster.acts_out hacts hm).2 with hf | hf | ⟨-, hl, hcase⟩
    · cases hf.symm.trans hflag
    · cases hf.symm.trans hflag
    · show HasWon ids (h.note s') m.2.2.leaderId m.2.2.term
      rw [hl]
      rcases hcase with ⟨hlead, hterm⟩ | hconf
      · have hleader := (hold.leads v).status hlead
        rw [hterm]
        exact ((hold.leads v).leader _ hleader).2.2
      · have hid : c.nodeMy = (s.members v).nodeMy := by rw [← hself, hb'.my v, hmy]
        rw [← hid]
        exact hc.confirm _ hconf
  have hnew := (hold.setMember v hc).send hsent
  rw [← hs] at hnew
  exact hnew

theorem agreement_receive {env : Env} {p : Packet}
    (ha : Agreement ids { s with packets := p ::ₘ s.packets } h)
    (hcoh : (s.members p.dst).standing.Coherent)
    (hok : Timely { s with packets := p ::ₘ s.packets } (.receive env p)) :
    Agreement ids (s.handle env p) (h.note (s.handle env p)) := by
  have hall := ha.note (s.handle env p)
  generalize h.note (s.handle env p) = h' at hall ⊢
  have hp : p.Truthful (HasWon ids h') := hall.packets p (Multiset.mem_cons_self p s.packets)
  have hold : Agreement ids s h' :=
    ⟨hall.leads, fun q hq => hall.packets q (Multiset.mem_cons_of_mem hq)⟩
  have hdst : (s.members p.dst).Leads (HasWon ids h') := hold.leads p.dst
  unfold Network.handle
  cases hreq : p.request with
  | true =>
    refine (hold.setMember p.dst (hdst.acceptorReceived hcoh (hp.broadcast hreq))).send fun q hq => ?_
    obtain ⟨r, hr, rfl⟩ := List.mem_map.mp hq
    exact ⟨fun hno => (by cases hno), fun _ hflag hne => hdst.acceptorReplies hr hflag hne⟩
  | false => exact hold.setMember p.dst (hdst.nodeReceived hcoh (hp.answer hreq) (hok hreq))

theorem agreement_step {e : Event} (ha : Agreement ids s h) (hb : Ballots ids s h)
    (hcoh : ∀ v, (s.members v).standing.Coherent) (hok : Timely s e)
    (hstep : Network.step ids s e = some s') (hb' : Ballots ids s' (h.note s')) :
    Agreement ids s' (h.note s') := by
  cases steps_of_step hstep with
  | act hid hacts => exact agreement_act ha hb (hcoh _) hid hacts hok rfl hb'
  | receive s env p => exact agreement_receive ha (hcoh p.dst) hok

theorem agreement_initial {conf : Conf} (hmodel : conf.model = "cluster") (now : Int) :
    Agreement conf.ids (Network.initial conf now) fun _ _ => none where
  leads := by
    intro v
    have hnew := Cluster.fresh_create conf v now
    rw [if_pos hmodel] at hnew
    refine .of_standing hnew.model (Cluster.coherent_create conf v now) ?_ fun t ht => ?_
    · exact .of_none hnew.leader
    · rw [show ((Network.initial conf now).members v).fights = [] from hnew.fights] at ht
      cases ht
  packets := fun p hp => absurd hp (Multiset.notMem_zero p)

theorem agreement_reachable {conf : Conf} (hmodel : conf.model = "cluster") (hnd : conf.ids.Nodup)
    {x : Network × Votes} (hr : (ballotMachine conf).ReachableWhen (fun y e => Timely y.1 e) x) :
    Agreement conf.ids x.1 x.2 := by
  have hballots : ∀ {x : Network × Votes},
      (ballotMachine conf).ReachableWhen (fun y e => Timely y.1 e) x → Ballots conf.ids x.1 x.2 :=
    fun hx => ballots_reachable hnd (fun _ _ _ hok _ => hok.prunesBelow) hx
  refine hr.invariant (fun x => Agreement conf.ids x.1 x.2) ?_ ?_
  · rintro ⟨s, h⟩ ⟨⟨now, rfl⟩, rfl⟩
    exact agreement_initial hmodel now
  · rintro ⟨s, h⟩ e ⟨s', h'⟩ hx ha hok hs
    have hb' := hballots (.step hx hok hs)
    obtain ⟨s₁, hs₁, he⟩ := Option.map_eq_some_iff.mp hs
    cases he
    have hcoh : ∀ v, (s.members v).standing.Coherent :=
      fun v => coherent_reachable (member_reachable hx.forget v)
    exact agreement_step ha (hballots hx) hcoh hok hs₁ hb'

/-- Members in the same term have the same leader, and at most one of them leads, in every run whose
steps are timely. -/
theorem leader_agreement {conf : Conf} (hmodel : conf.model = "cluster") (hnd : conf.ids.Nodup)
    {s : Network} (hr : (network conf).ReachableWhen Timely s) {x y : String}
    (hterm : (s.members x).getMyTerm = (s.members y).getMyTerm) :
    (∀ l l', (s.members x).nodeLeader = some l → (s.members y).nodeLeader = some l' → l = l') ∧
    ((s.members x).isLeader = true → (s.members y).isLeader = true → x = y) := by
  obtain ⟨h, hh⟩ := hr.withHistory (fun _ _ => none) Votes.note
  have hb : Ballots conf.ids s h :=
    ballots_reachable hnd (fun _ _ _ hok _ => hok.prunesBelow) hh
  have ha : Agreement conf.ids s h := agreement_reachable hmodel hnd hh
  have hsame : ∀ l l', (s.members x).nodeLeader = some l → (s.members y).nodeLeader = some l' →
      l = l' := by
    intro l l' hl hl'
    have hwon := ((ha.leads x).leader l hl).2.2
    have hwon' := ((ha.leads y).leader l' hl').2.2
    rw [hterm] at hwon
    exact majority_unique hwon hwon'
  refine ⟨hsame, fun hx hy => ?_⟩
  have hlx := (ha.leads x).status (of_decide_eq_true hx)
  have hly := (ha.leads y).status (of_decide_eq_true hy)
  have heq := hsame _ _ hlx hly
  rw [hb.my x, hb.my y] at heq
  exact heq

/-- The node `a:1` wins the first term, and `b:1` confirms it. -/
def firstReign : List Event :=
  firstElection ++ [hears "b:1" "a:1" 1 "u2", confirms "b:1" "a:1" 1 "u2",
    acts "a:1" "" (.fight (.confirm 1))]

theorem leader_agreement_first :
    ∃ s, (network threeNodes).ReachableWhen Timely s ∧
      (s.members "a:1").getMyTerm = 1 ∧ (s.members "b:1").getMyTerm = 1 ∧
      (s.members "a:1").isLeader = true ∧ ((s.members "b:1").isLeader = true → "a:1" = "b:1") ∧
      ∀ l, (s.members "b:1").nodeLeader = some l → "a:1" = l := by
  have hrun : (((network threeNodes).restrict Timely).run
      (Network.initial threeNodes 0) (starts threeNodes.ids ++ firstReign)).map (fun s =>
        ((s.members "a:1").getMyTerm, (s.members "b:1").getMyTerm, (s.members "a:1").isLeader,
          (s.members "a:1").nodeLeader)) = some (1, 1, true, some "a:1") := by
    decide
  obtain ⟨s, hr, he⟩ := Machine.observedWhen_of_run hrun ⟨0, rfl⟩
  simp only [Prod.mk.injEq] at he
  obtain ⟨hx, hy, hlead, hl⟩ := he
  have hagree := leader_agreement rfl (by decide) hr (hx.trans hy.symm)
  exact ⟨s, hr, hx, hy, hlead, hagree.2 hlead, fun l hb => hagree.1 _ l hl hb⟩

/-! ## The three ways to lose the agreement -/

/-- While `a:1` waits for the confirmation of the first term, `c:1` wins the second one, and its
broadcast takes `a:1` to that term. Then the confirmation arrives, and `a:1` signs itself. -/
def overtakenElection : List Event :=
  starts threeNodes.ids ++ connects "c:1" "a:1" ++ connects "c:1" "b:1" ++
    campaigns "c:1" 1 "v1" ++ [acts "c:1" "" (.fight (.getVote 1))] ++
    campaigns "c:1" 2 "v2" ++ votes "b:1" "c:1" 2 "v2" ++ firstElection ++
    [hears "b:1" "a:1" 1 "u2", acts "c:1" "v3" (.fight (.getVote 2)), hears "a:1" "c:1" 2 "v3",
      confirms "a:1" "c:1" 2 "v3", acts "c:1" "" (.fight (.confirm 2)),
      confirms "b:1" "a:1" 1 "u2", acts "a:1" "" (.fight (.confirm 1))]

theorem two_leaders_in_term :
    ∃ s, (network threeNodes).Reachable s ∧
      (s.members "a:1").isLeader = true ∧ (s.members "c:1").isLeader = true ∧
      (s.members "a:1").getMyTerm = 2 ∧ (s.members "c:1").getMyTerm = 2 := by
  have hrun : ((network threeNodes).run (Network.initial threeNodes 0) overtakenElection).map
      (fun s => ((s.members "a:1").isLeader, (s.members "c:1").isLeader,
        (s.members "a:1").getMyTerm, (s.members "c:1").getMyTerm)) = some (true, true, 2, 2) := by
    decide
  obtain ⟨s, hr, he⟩ := Machine.observed_of_run hrun ⟨0, rfl⟩
  simp only [Prod.mk.injEq] at he
  exact ⟨s, hr, he⟩

/-- The answer that names `a:1` as the leader of the first term reaches `c:1` when `c:1` leads the
second term and has the vote of `a:1` for it. -/
def staleAnswer : List Event :=
  starts threeNodes.ids ++ connects "c:1" "a:1" ++ connects "c:1" "b:1" ++ firstReign ++
    [acts "c:1" "ask" (.fight .start),
      receives ⟨"c:1", "b:1", true, .sAskLeader, { nodeId := "c:1", term := 1, reqId := "ask" }⟩,
      acts "c:1" "" (.fight (.askLeader 1)), acts "c:1" "v1" (.fight (.settle 1)),
      acts "c:1" "" (.fight (.getVote 1))] ++
    campaigns "c:1" 2 "v2" ++ votes "a:1" "c:1" 2 "v2" ++
    [acts "c:1" "v3" (.fight (.getVote 2)), hears "b:1" "c:1" 2 "v3", confirms "b:1" "c:1" 2 "v3",
      acts "c:1" "" (.fight (.confirm 2)),
      receives ⟨"b:1", "c:1", false, .rAskLeader,
        { nodeId := "b:1", term := 1, leaderId := "a:1", reqId := "ask" }⟩]

/-- The condition on the answers of earlier terms is needed. -/
theorem leaders_differ_after_staleAnswer :
    ∃ s, (network threeNodes).Reachable s ∧
      (s.members "c:1").nodeLeader = some "a:1" ∧ (s.members "b:1").nodeLeader = some "c:1" ∧
      (s.members "c:1").getMyTerm = 2 ∧ (s.members "b:1").getMyTerm = 2 := by
  have hrun : ((network threeNodes).run (Network.initial threeNodes 0) staleAnswer).map
      (fun s => ((s.members "c:1").nodeLeader, (s.members "b:1").nodeLeader,
        (s.members "c:1").getMyTerm, (s.members "b:1").getMyTerm)) =
      some (some "a:1", some "c:1", 2, 2) := by
    decide
  obtain ⟨s, hr, he⟩ := Machine.observed_of_run hrun ⟨0, rfl⟩
  simp only [Prod.mk.injEq] at he
  exact ⟨s, hr, he⟩

def fiveNodes : Conf where
  model := "cluster"
  nodeTimeout := 10
  nodes := [⟨"", "a", 1⟩, ⟨"", "b", 1⟩, ⟨"", "c", 1⟩, ⟨"", "d", 1⟩, ⟨"", "e", 1⟩]

/-- The node `e:1` gets the votes of `b:1` and `d:1` in the term `t`, and the answers are late. -/
def asksInVain (t : Int) : List Event :=
  let request : NodeMsg := { nodeId := "e:1", term := t, reqId := "w" }
  campaigns "e:1" t "w" ++
    [receives ⟨"e:1", "b:1", true, .sGetVote, request⟩,
      receives ⟨"e:1", "d:1", true, .sGetVote, request⟩, acts "e:1" "" (.fight (.getVote t))]

/-- The nodes `b:1` and `d:1` elect `a:1` in the first term. They vote in twenty terms more without
entering any of them, forget the first one, and elect `c:1` in it. -/
def forgottenVotes : List Event :=
  starts fiveNodes.ids ++
    ["a:1", "c:1", "e:1"].flatMap (fun id => connects id "b:1" ++ connects id "d:1") ++
    campaigns "a:1" 1 "u1" ++ votes "b:1" "a:1" 1 "u1" ++ votes "d:1" "a:1" 1 "u1" ++
    [acts "a:1" "u2" (.fight (.getVote 1)), hears "d:1" "a:1" 1 "u2", confirms "d:1" "a:1" 1 "u2",
      acts "a:1" "" (.fight (.confirm 1))] ++ campaigns "c:1" 1 "v1" ++
    (List.range 21).flatMap (fun k => asksInVain (k + 1)) ++
    [acts "b:1" "" .heartbeat, acts "d:1" "" .heartbeat] ++
    votes "b:1" "c:1" 1 "v1" ++ votes "d:1" "c:1" 1 "v1" ++
    [acts "c:1" "v2" (.fight (.getVote 1)), hears "b:1" "c:1" 1 "v2", confirms "b:1" "c:1" 1 "v2",
      acts "c:1" "" (.fight (.confirm 1))]

/-- The condition on the pruning is needed. -/
theorem two_leaders_after_forgottenVotes :
    ∃ s, (network fiveNodes).Reachable s ∧
      (s.members "a:1").isLeader = true ∧ (s.members "c:1").isLeader = true ∧
      (s.members "a:1").getMyTerm = 1 ∧ (s.members "c:1").getMyTerm = 1 := by
  have hrun : ((network fiveNodes).run (Network.initial fiveNodes 0) forgottenVotes).map
      (fun s => ((s.members "a:1").isLeader, (s.members "c:1").isLeader,
        (s.members "a:1").getMyTerm, (s.members "c:1").getMyTerm)) = some (true, true, 1, 1) := by
    decide +kernel
  obtain ⟨s, hr, he⟩ := Machine.observed_of_run hrun ⟨0, rfl⟩
  simp only [Prod.mk.injEq] at he
  exact ⟨s, hr, he⟩

end OwnX.Cluster
