import OwnX.Cluster.Proofs.ElectionProofs
import OwnX.Foundations.Proofs.MachineIntProofs
import OwnX.Cluster.Proofs.StandingProofs

/-!
# Proofs: a member under any messages

The standing of a member is coherent in every reachable state, and so an announcement of a leader is
accepted exactly when it is not stale. At most one invocation of `fightElection` is past the flag, and
each takes a later term than all before it, as long as there is one.
-/

set_option linter.dupNamespace false

namespace OwnX.Cluster

namespace Standing

variable {s s' : Standing}

/-! ## The own term does not fall -/

theorem own_sign (s : Standing) (id : String) : (s.sign id).own = s.own := by
  unfold sign
  split_ifs
  · rfl
  · split
    · rfl
    · split_ifs <;> rfl

theorem own_le_record (s : Standing) (ids : List String) (t : Int) : s.own ≤ (s.record ids t).own := by
  rw [own_record]
  exact le_max_left _ _

theorem Moves.own_le (h : s.Moves s') : s.own ≤ s'.own := by
  cases h with
  | signSelf => exact (own_sign s s.nodeMy).ge
  | contest => exact own_le_record s _ _
  | _ => exact le_rfl

theorem own_le_hear (s : Standing) (nodesAlive : List String) (request : Bool) (flag : Flag)
    (m : NodeMsg) : s.own ≤ (s.hear nodesAlive request flag m).own := by
  have hrec := own_le_record s [m.nodeId, m.leaderId] m.term
  unfold hear
  split_ifs
  · cases flag with
    | sGetVote =>
      unfold hearVote
      simp only
      split_ifs <;> exact le_rfl
    | sBroadcastLeader =>
      have henter : s.own ≤ (s.enter m).own := by
        rw [own_enter]
        exact le_max_left _ _
      simp only
      rw [hearLeader_eq]
      split_ifs
      · exact le_rfl
      · exact henter
      · rw [own_sign]
        exact henter
      · exact henter
    | _ => exact le_rfl
  · unfold hearAnswer
    by_cases hnew : s.nodeLeader.isSome ∧ s.own < m.term
    · rw [if_pos hnew]
      exact le_rfl
    · rw [if_neg hnew]
      cases flag with
      | rAskLeader =>
        simp only
        split_ifs
        · rw [own_sign]
          exact hrec
        · exact hrec
      | rLeader =>
        simp only
        split_ifs <;> exact hrec
      | _ => exact hrec

end Standing

namespace Cluster

variable {c c' : Cluster} {env : Env} {i : Input}

/-- What a step of a member is. -/
theorem step_cases (h : c.step i = some c') :
    (∃ env a out, i = .act env a ∧ Acts env c a c' out) ∨
    ∃ env request flag m, i = .receive env request flag m ∧ c' = c.receive env request flag m := by
  cases i with
  | act env a =>
    obtain ⟨r, hr, rfl⟩ := Option.map_eq_some_iff.mp h
    exact Or.inl ⟨env, a, r.2, rfl, acts_of_act hr⟩
  | receive env request flag m =>
    cases h
    exact Or.inr ⟨env, request, flag, m, rfl, rfl⟩

theorem coherent_create (conf : Conf) (my : String) (now : Int) :
    (create conf my now).standing.Coherent := by
  have hfresh := fresh_create conf my now
  have hterm : ∀ id, (create conf my now).standing.term id = 0 := by
    intro id
    obtain ⟨name, hname⟩ := hfresh.nodes id
    rw [standing_term, hname]
  have hnone : (create conf my now).standing.nodeLeader = none := hfresh.leader
  constructor
  case terms =>
    intro id
    unfold Standing.own
    rw [hterm, hterm]
  case leader =>
    intro l hl
    cases hnone.symm.trans hl
  case known =>
    intro l hl
    cases hnone.symm.trans hl
  case leads =>
    intro hl
    cases hfresh.status.symm.trans hl
  case self =>
    intro hl
    cases hnone.symm.trans hl
  case open_ => exact fun _ => hnone

theorem coherent_step (h : c.standing.Coherent) (hs : c.step i = some c') :
    c'.standing.Coherent := by
  rcases step_cases hs with ⟨env, a, out, -, hacts⟩ | ⟨env, request, flag, m, -, rfl⟩
  · exact h.moves hacts.moves
  · rw [standing_receive]
    exact h.hear _ _ _ _

theorem getMyTerm_le_step (hs : c.step i = some c') : c.getMyTerm ≤ c'.getMyTerm := by
  show c.standing.own ≤ c'.standing.own
  rcases step_cases hs with ⟨env, a, out, -, hacts⟩ | ⟨env, request, flag, m, -, rfl⟩
  · exact hacts.moves.own_le
  · rw [standing_receive]
    exact c.standing.own_le_hear _ _ _ _

end Cluster

open Cluster

variable {conf : Conf} {my : String} {c : Cluster}

/-- The standing of a member is coherent in every reachable state. -/
theorem coherent_reachable {ok : Cluster → Input → Prop} (h : (member conf my).ReachableWhen ok c) :
    c.standing.Coherent := by
  refine h.invariant (fun c => c.standing.Coherent) ?_ ?_
  · rintro c ⟨now, rfl⟩
    exact coherent_create conf my now
  · intro c i c' _ hc _ hs
    exact coherent_step hc hs

/-- No node is known in a later term than the own one, and the leader is of the own term. -/
theorem terms_coherent (h : (member conf my).Reachable c) :
    (∀ id ∈ c.nodesAll, (c.nodes id).term ≤ c.getMyTerm) ∧
      ∀ l, c.nodeLeader = some l → (c.nodes l).term = c.getMyTerm := by
  have hcoh := coherent_reachable h
  exact ⟨fun id _ => hcoh.terms id, fun l hl => hcoh.leader l hl⟩

def twoNodes : Conf where
  model := "cluster"
  nodeTimeout := 10
  nodes := [⟨"", "a", 1⟩, ⟨"", "b", 1⟩]

/-- A step of its own of the member, at the time `now`. -/
def does (now : Int) (a : Action) : Input :=
  .act { now := now, uuid := "", writeOk := fun _ => true } a

/-- The member has a request. -/
def asked (flag : Flag) (m : NodeMsg) : Input :=
  .receive { now := 0, uuid := "", writeOk := fun _ => true } true flag m

/-- The member has an answer. -/
def answered (flag : Flag) (m : NodeMsg) : Input :=
  .receive { now := 0, uuid := "", writeOk := fun _ => true } false flag m

/-- The node `b:1` announces itself as the leader of the term `t`. -/
def leaderB (t : Int) : Input := asked .sBroadcastLeader { nodeId := "b:1", term := t, leaderId := "b:1" }

theorem terms_coherent_follower :
    ∃ c, (member twoNodes "a:1").Reachable c ∧ c.nodeLeader = some "b:1" ∧ c.getMyTerm = 3 ∧
      (c.nodes "b:1").term = 3 := by
  have hrun : ((member twoNodes "a:1").run (create twoNodes "a:1" 0)
      [does 0 .startUp, does 0 (.fight .start), leaderB 3]).map
      (fun c => (c.nodeLeader, c.getMyTerm)) = some (some "b:1", 3) := by
    decide
  obtain ⟨c, hr, he⟩ := Machine.observed_of_run hrun ⟨0, rfl⟩
  obtain ⟨hl, hmy⟩ := Prod.mk.inj he
  have hterm := (terms_coherent hr).2 "b:1" hl
  exact ⟨c, hr, hl, hmy, hterm.trans hmy⟩

/-! ## The announcement of a leader -/

/-- An announcement that is not stale enters the term of the announced leader. -/
theorem Standing.Coherent.term_enter {s : Standing} (h : s.Coherent) {m : NodeMsg}
    (hid : m.leaderId ∈ s.nodesAll) (hterm : s.own ≤ m.term) :
    (s.enter m).own = m.term ∧ (s.enter m).term m.leaderId = m.term := by
  have hown : (s.enter m).own = m.term := by
    rw [Standing.own_enter]
    exact max_eq_right hterm
  refine ⟨hown, ?_⟩
  rw [← hown]
  unfold Standing.enter
  split_ifs
  · exact (Standing.term_record_eq h.release hid (by simp)).mpr (Or.inl hterm)
  · exact (Standing.term_record_eq h hid (by simp)).mpr (Or.inl hterm)

/-- A member that follows another node is a follower, unless it is closed. -/
theorem Standing.Coherent.follows {s : Standing} (h : s.Coherent) {l : String}
    (hl : s.nodeLeader = some l) (hne : l ≠ s.nodeMy) (hopen : s.status ≠ .closed) :
    s.status = .follower := by
  have hlead : s.status ≠ .leader := by
    intro hst
    exact hne (Option.some.inj (hl.symm.trans (h.leads hst)))
  have hsome : ¬ (s.status = .candidate ∨ s.status = .init) := by
    intro hst
    cases hl.symm.trans (h.open_ hst)
  cases hst : s.status with
  | follower => rfl
  | leader => exact absurd hst hlead
  | closed => exact absurd hst hopen
  | candidate => exact absurd (Or.inl hst) hsome
  | init => exact absurd (Or.inr hst) hsome

theorem Standing.status_enter {s : Standing} {m : NodeMsg} (h : (s.enter m).status = .closed) :
    s.status = .closed := by
  unfold Standing.enter at h
  split_ifs at h
  · cases h
  · exact h

/-- A member accepts every leader that is announced in its own term or a later one. -/
theorem Standing.Coherent.hearLeader_leads {s : Standing} (h : s.Coherent) {m : NodeMsg}
    (hid : m.leaderId ∈ s.nodesAll) (hterm : s.own ≤ m.term) :
    (s.hearLeader m).nodeLeader = some m.leaderId ∧ (s.hearLeader m).own = m.term ∧
      (s.hearLeader m).term m.leaderId = m.term ∧
      (m.leaderId ≠ s.nodeMy → s.status ≠ .closed → (s.hearLeader m).status = .follower) := by
  have henter := h.enter m
  obtain ⟨hown, hleader⟩ := h.term_enter hid hterm
  have hknown : m.leaderId ∈ (s.enter m).nodesAll := by
    unfold Standing.enter
    split_ifs
    · exact hid
    · exact hid
  have hmy : (s.enter m).nodeMy = s.nodeMy := by
    unfold Standing.enter
    split_ifs
    · rfl
    · rfl
  rw [Standing.hearLeader_eq, if_neg (not_lt.mpr hterm)]
  by_cases hl : (s.enter m).nodeLeader = some m.leaderId
  · rw [if_pos ⟨hl, hleader⟩]
    refine ⟨hl, hown, hleader, fun hne hopen => ?_⟩
    refine henter.follows hl (by rwa [hmy]) fun hclosed => ?_
    exact hopen (Standing.status_enter hclosed)
  · -- `signLeader` does not refuse: the node is of the own term now
    rw [if_neg fun hc => hl hc.1, if_pos hknown, henter.sign_eq,
      if_pos ⟨hleader.trans hown.symm, hl⟩]
    refine ⟨rfl, hown, hleader, fun hne _ => ?_⟩
    exact if_neg fun hc => hne (hc.symm.trans hmy)

theorem signLeader_accepts (h : c.standing.Coherent) {id : String}
    (hterm : (c.nodes id).term = c.getMyTerm) : (c.signLeader id).2 = true := by
  unfold signLeader
  rw [hterm]
  simp only [lt_irrefl, if_false]
  cases hl : c.nodeLeader with
  | none => rfl
  | some l =>
    have hlead : (c.nodes l).term = c.getMyTerm := h.leader l hl
    simp only [hlead, lt_irrefl, if_false]
    split_ifs
    · rfl
    · rfl

/-- The answers to an announcement that is not stale accept it. -/
theorem answers_onBroadcastLeader (h : c.standing.Coherent) (env : Env) {m : NodeMsg}
    (hid : m.leaderId ∈ c.nodesAll) (hterm : c.getMyTerm ≤ m.term) :
    ∀ r ∈ (c.onBroadcastLeader env m).2, r.2.success ≠ some false := by
  have hcoh : (c.enterTerm env m).standing.Coherent := by
    rw [standing_enterTerm]
    exact h.enter m
  have hsigns : ((c.enterTerm env m).signLeader m.leaderId).2 = true := by
    apply signLeader_accepts hcoh
    obtain ⟨hown, hleader⟩ := h.term_enter hid hterm
    rw [← standing_enterTerm c env] at hown hleader
    exact hleader.trans hown.symm
  intro r hr
  unfold onBroadcastLeader at hr
  rw [if_neg (not_lt.mpr hterm)] at hr
  simp only [hsigns] at hr
  split_ifs at hr
  all_goals simp only [List.mem_cons, List.not_mem_nil, or_false] at hr
  · rcases hr with rfl | rfl <;> simp [answerLeader]
  · rw [hr]
    simp
  · rcases hr with rfl | rfl <;> simp [answerLeader]
  · rw [hr]
    simp

/-- A stale announcement of a leader is refused and changes nothing. Any other one, of a node of the
configuration, is accepted: the member follows that leader in the announced term. -/
theorem announcement_accepted_iff (h : (member conf my).Reachable c) (env : Env) (m : NodeMsg)
    (hid : m.leaderId ∈ c.nodesAll) :
    let r := c.acceptorReceived env .sBroadcastLeader m
    (m.term < c.getMyTerm → r.1 = c ∧
      r.2 = [(.rLeader,
        { nodeId := c.nodeMy, term := c.getMyTerm, reqId := m.reqId, success := some false })]) ∧
    (c.getMyTerm ≤ m.term →
      (∀ answer ∈ r.2, answer.2.success ≠ some false) ∧ r.1.nodeLeader = some m.leaderId ∧
        r.1.getMyTerm = m.term ∧ (r.1.nodes m.leaderId).term = m.term ∧
        (m.leaderId ≠ c.nodeMy → c.status ≠ .closed → r.1.status = .follower)) := by
  have hcoh := coherent_reachable h
  refine ⟨fun hstale => ?_, fun hterm => ⟨answers_onBroadcastLeader hcoh env hid hterm, ?_⟩⟩
  · show (c.onBroadcastLeader env m).1 = c ∧ (c.onBroadcastLeader env m).2 = _
    unfold onBroadcastLeader
    rw [if_pos hstale]
    exact ⟨rfl, rfl⟩
  · have hstands : (c.onBroadcastLeader env m).1.standing = c.standing.hearLeader m :=
      standing_onBroadcastLeader m
    have hleads := hcoh.hearLeader_leads hid hterm
    rw [← hstands] at hleads
    exact hleads

/-- The member has entered the term `1` of its own election when the node `b:1` announces itself. -/
theorem announcement_accepted_iff_first :
    ∃ c, (member twoNodes "a:1").Reachable c ∧ c.getMyTerm = 1 ∧ "b:1" ∈ c.nodesAll ∧
      (c.acceptorReceived { now := 0, uuid := "", writeOk := fun _ => true } .sBroadcastLeader
        { nodeId := "b:1", term := 1, leaderId := "b:1" }).1.nodeLeader = some "b:1" := by
  have hrun : ((member twoNodes "a:1").run (create twoNodes "a:1" 0)
      [does 0 .startUp, does 0 (.fight .start)]).map
      (fun c => (c.getMyTerm, c.nodesAll)) = some (1, ["a:1", "b:1"]) := by
    decide
  obtain ⟨c, hr, he⟩ := Machine.observed_of_run hrun ⟨0, rfl⟩
  obtain ⟨hmy, hall⟩ := Prod.mk.inj he
  have hid : "b:1" ∈ c.nodesAll := by
    rw [show c.nodesAll = ["a:1", "b:1"] from hall]
    simp
  have haccept := announcement_accepted_iff hr { now := 0, uuid := "", writeOk := fun _ => true }
    { nodeId := "b:1", term := 1, leaderId := "b:1" } hid
  exact ⟨c, hr, hmy, hid, (haccept.2 hmy.le).2.1⟩

/-! ## The invocations of `fightElection` -/

theorem getMyTerm_nonneg (h : (member conf my).Reachable c) : 0 ≤ c.getMyTerm := by
  refine h.invariant (fun c => 0 ≤ c.getMyTerm) ?_ fun _ _ _ _ hle _ hs =>
    hle.trans (getMyTerm_le_step hs)
  rintro c ⟨now, rfl⟩
  have hfresh := fresh_create conf my now
  obtain ⟨name, hname⟩ := hfresh.nodes my
  unfold getMyTerm getMyNode
  rw [hfresh.my, hname]

/-- Below the last `int`, the next term is a later one. -/
theorem nextTerm_of_lt (hown : 0 ≤ c.getMyTerm) (hlt : c.getMyTerm < 2 ^ 63 - 1) :
    c.nextTerm = c.getMyTerm + 1 := by
  have hfits : Fits 64 (c.getMyTerm + 1) := ⟨by omega, by omega⟩
  exact wrap_of_fits (by decide) hfits

/-- The invocations of `fightElection` past the flag, and those that were. -/
structure Contested (c : Cluster) (log : List Int) : Prop where
  held : ∃ t, c.HeldBy t ∧ (c.fighting → log.getLast? = some t)
  passed : ∀ t ∈ log, t ≤ c.getMyTerm

theorem contested_create (conf : Conf) (my : String) (now : Int) :
    Contested (create conf my now) [] := by
  have hfresh := fresh_create conf my now
  refine ⟨⟨0, ?_, fun hf => ?_⟩, by simp⟩
  · unfold HeldBy contests
    rw [hfresh.fighting, hfresh.fights]
    rfl
  · cases hfresh.fighting.symm.trans hf

/-- The own term after an invocation of `fightElection` has passed the flag. -/
theorem getMyTerm_startFight {env : Env} (hpass : c.passesFlag (.act env (.fight .start)) = true) :
    (c.startFight env).1.getMyTerm = max c.getMyTerm c.nextTerm := by
  have hset := standing_setMyTerm (c := c.setFighting true) c.nextTerm
  show Standing.own (c.startFight env).1.standing = _
  rw [startFight_enter env hpass]
  split_ifs with hlater
  · rw [standing_waitOnline]
    refine (congrArg Standing.own hset).trans ?_
    rw [Standing.own_record]
    rfl
  · rw [standing_finishFight]
    exact (max_eq_left (not_lt.mp hlater)).symm

/-- An invocation that takes the next term is past the flag after its first stretch. -/
theorem contests_startFight (env : Env) (hpass : c.passesFlag (.act env (.fight .start)) = true)
    (hlater : c.getMyTerm < c.nextTerm) : c.nextTerm ∈ (c.startFight env).1.contests := by
  have hnone : c.nodeLeader = none := by
    simp only [passesFlag, Bool.and_eq_true, Option.isNone_iff_eq_none] at hpass
    exact hpass.1.2
  rw [startFight_enter env hpass, if_pos hlater]
  generalize hc : (c.setFighting true).setNode c.nodeMy _ = c₁
  have hfree : c₁.nodeLeader = none := by
    rw [← hc]
    exact hnone
  unfold waitOnline
  rw [if_neg (by simp [hfree])]
  split_ifs <;> simp [contests, Fight.term]

/-- An invocation passes the flag. -/
theorem Contested.enter {log : List Int} {env : Env} {c' : Cluster} {out : Out}
    (h : Contested c log) (hacts : Acts env c (.fight .start) c' out)
    (hpass : c.passesFlag (.act env (.fight .start)) = true) :
    Contested c' (log ++ [c.nextTerm]) := by
  obtain ⟨t, hheld, -⟩ := h.held
  have hnew := hacts.heldBy hheld
  rw [if_pos hpass] at hnew
  have hterm : c'.getMyTerm = max c.getMyTerm c.nextTerm := by
    cases hacts with
    | fight => exact getMyTerm_startFight (c := c.setFights (c.fights.erase .start)) hpass
  constructor
  case held => exact ⟨c.nextTerm, hnew, fun _ => by simp⟩
  case passed =>
    intro u hu
    rw [hterm]
    rcases List.mem_append.mp hu with hu | hu
    · exact (h.passed u hu).trans (le_max_left _ _)
    · rw [List.mem_singleton.mp hu]
      exact le_max_right _ _

theorem Contested.step {log : List Int} {i : Input} {c' : Cluster} (h : Contested c log)
    (hs : c.step i = some c') :
    Contested c' (if c.passesFlag i then log ++ [c.nextTerm] else log) := by
  have hmono := getMyTerm_le_step hs
  have hpassed : ∀ t ∈ log, t ≤ c'.getMyTerm := fun t ht => (h.passed t ht).trans hmono
  obtain ⟨t, hheld, hlast⟩ := h.held
  rcases step_cases hs with ⟨env, a, out, rfl, hacts⟩ | ⟨env, request, flag, m, rfl, rfl⟩
  · by_cases hpass : c.passesFlag (.act env a) = true
    · have ha : a = .fight .start := by
        by_contra hne
        rw [passesFlag_of_ne hne] at hpass
        cases hpass
      subst ha
      rw [if_pos hpass]
      exact h.enter hacts hpass
    · have hsame := hacts.heldBy hheld
      rw [if_neg hpass] at hsame ⊢
      exact ⟨⟨t, hsame.1, fun hfl => hlast (hsame.2 hfl)⟩, hpassed⟩
  · have hsame := SameElections.of_workings (workings_receive c env request flag m)
    refine ⟨⟨t, hsame.heldBy hheld, fun hfl => hlast ?_⟩, hpassed⟩
    rw [← hsame.fighting]
    exact hfl

theorem contested_reachable {log : List Int} (h : (memberContests conf my).Reachable (c, log)) :
    (member conf my).Reachable c ∧ Contested c log := by
  refine h.invariant (fun s => (member conf my).Reachable s.1 ∧ Contested s.1 s.2) ?_ ?_
  · rintro ⟨c, log⟩ ⟨⟨now, rfl⟩, rfl⟩
    exact ⟨.init ⟨now, rfl⟩, contested_create conf my now⟩
  · rintro ⟨c, log⟩ i s' _ ⟨hr, hc⟩ _ hs
    obtain ⟨c', hs', rfl⟩ := Option.map_eq_some_iff.mp hs
    exact ⟨hr.step trivial hs', hc.step hs'⟩

/-- As long as there is a later term, the elections are fought in rising terms. -/
theorem rising_reachable {log : List Int}
    (h : (memberContests conf my).ReachableWhen TermLeft (c, log)) : log.Pairwise (· < ·) := by
  refine h.invariant (fun s => s.2.Pairwise (· < ·)) ?_ ?_
  · rintro ⟨c, log⟩ ⟨-, rfl⟩
    exact List.Pairwise.nil
  · rintro ⟨c, log⟩ i s' hr hrising hleft hs
    obtain ⟨c', -, rfl⟩ := Option.map_eq_some_iff.mp hs
    obtain ⟨hmember, hcon⟩ := contested_reachable hr.reachable
    show (if c.passesFlag i = true then log ++ [c.nextTerm] else log).Pairwise (· < ·)
    split_ifs with hpass
    · have hnext := nextTerm_of_lt (getMyTerm_nonneg hmember) (hleft hpass)
      refine List.pairwise_append.mpr ⟨hrising, List.pairwise_singleton _ _, ?_⟩
      intro u hu v hv
      have hle := hcon.passed u hu
      rw [List.mem_singleton.mp hv]
      omega
    · exact hrising

/-- The roles of a member. The status and the leader agree, and at most one election is fought at a time.
The elections are fought in rising terms, in every run in which none begins in the last term. -/
theorem roles_coherent {log : List Int} (h : (memberContests conf my).Reachable (c, log)) :
    (c.status = .leader → c.nodeLeader = some c.nodeMy) ∧
    (c.status ≠ .closed → c.nodeLeader = some c.nodeMy → c.status = .leader) ∧
    (c.status = .candidate → c.nodeLeader = none) ∧
    c.contests.length ≤ 1 ∧ (∀ t ∈ c.contests, log.getLast? = some t) ∧
    ((memberContests conf my).ReachableWhen TermLeft (c, log) → log.Pairwise (· < ·)) := by
  obtain ⟨hr, hcon⟩ := contested_reachable h
  have hcoh := coherent_reachable hr
  obtain ⟨t, hheld, hlast⟩ := hcon.held
  refine ⟨hcoh.leads, ?_, fun hst => hcoh.open_ (Or.inl hst), ?_, ?_, rising_reachable⟩
  · intro hopen hl
    exact (hcoh.self hl).resolve_right hopen
  · rw [hheld]
    split_ifs <;> simp
  · intro u hu
    rw [hheld] at hu
    split_ifs at hu with hf
    · rw [List.mem_singleton.mp hu]
      exact hlast hf
    · cases hu

/-- The first election ends with the leader `b:1`. It is given up for a later term, and the second
election is fought in term `2`. -/
theorem roles_coherent_second :
    ∃ c log, (memberContests twoNodes "a:1").ReachableWhen TermLeft (c, log) ∧
      c.status = .candidate ∧ log = [1, 2] ∧ c.nodeLeader = none ∧ (∀ t ∈ c.contests, t = 2) ∧
      log.Pairwise (· < ·) := by
  have hrun : (((memberContests twoNodes "a:1").restrict TermLeft).run (create twoNodes "a:1" 0, [])
      [does 0 .startUp, does 0 (.fight .start), leaderB 1, does 0 (.fight (.online 1)),
        answered .ok { nodeId := "b:1", term := 2 }, does 9 .heartbeat, does 9 (.fight .start),
        does 9 (.connect "b:1"), does 9 .assignConnector, does 9 (.fight (.online 2)),
        does 9 (.fight (.askLeader 2)), does 9 (.fight (.settle 2))]).map
      (fun s => (s.1.status, s.2)) = some (.candidate, [1, 2]) := by
    decide
  obtain ⟨⟨c, log⟩, hr, he⟩ := Machine.observedWhen_of_run hrun ⟨⟨0, rfl⟩, rfl⟩
  obtain ⟨hst, hlog⟩ := Prod.mk.inj he
  obtain ⟨-, -, hcand, -, hlast, hrising⟩ := roles_coherent hr.reachable
  refine ⟨c, log, hr, hst, hlog, hcand hst, fun t ht => ?_, hrising hr⟩
  have hlast := hlast t ht
  rw [show log = [1, 2] from hlog] at hlast
  exact (Option.some.inj hlast).symm

/-- After the first election `b:1` announces itself in the last term. The member loses it, and fights its
second election in the first of all terms. -/
theorem terms_wrap_around :
    ∃ c log, (memberContests twoNodes "a:1").Reachable (c, log) ∧ ¬ log.Pairwise (· < ·) := by
  have hrun : ((memberContests twoNodes "a:1").run (create twoNodes "a:1" 0, [])
      [does 0 .startUp, does 0 (.fight .start), leaderB (2 ^ 63 - 1), does 0 (.fight (.online 1)),
        does 11 .heartbeat, does 11 (.fight .start)]).map Prod.snd = some [1, -2 ^ 63] := by
    decide
  obtain ⟨⟨c, log⟩, hr, hlog⟩ := Machine.observed_of_run hrun ⟨⟨0, rfl⟩, rfl⟩
  refine ⟨c, log, hr, ?_⟩
  rw [show log = [1, -2 ^ 63] from hlog]
  decide

end OwnX.Cluster
