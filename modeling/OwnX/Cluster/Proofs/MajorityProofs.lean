import OwnX.Cluster.Proofs.MemberProofs
import OwnX.Cluster.Proofs.VoteProofs

/-!
# Proofs: a leader sees a majority

At most one election goroutine is past the flag `fighting`, and it gives the flag back when it signs
the member as leader. The callback of a closed connection therefore finds a leader that is not
fighting, and makes it step down when the online nodes are no majority.
-/

set_option linter.dupNamespace false

namespace OwnX.Cluster

namespace Cluster

theorem hasMajority_iff {c : Cluster} :
    c.hasMajority = true ↔ c.nodesAll.length / 2 < c.nodesAlive.length + 1 := by
  simp [hasMajority, getAllNodeNames, getAliveNodeNames]

/-- The election goroutines that hold the flag. -/
def entered (c : Cluster) : Nat := c.fights.countP (· ≠ .start)

/-- The flag is held by the goroutine that has entered the election. A leader does not hold it, and
sees a majority unless the callback of a closed connection is still to come. -/
structure Sees (c : Cluster) : Prop where
  model : c.model = .cluster
  others : c.nodeMy ∉ c.nodesAlive
  flag : c.entered = c.fighting.toNat
  leader : c.status = .leader →
    c.fighting = false ∧ (c.hasMajority = true ∨ c.pendingClosed ≠ [])

/-- What a goroutine that has entered the election relies on: it is the only one, and its place in
`fights` is taken out. -/
structure Fighting (c : Cluster) : Prop where
  model : c.model = .cluster
  others : c.nodeMy ∉ c.nodesAlive
  flag : c.entered = 0
  fighting : c.fighting = true
  status : c.status ≠ .leader

variable {c c' : Cluster} {env : Env} {m : NodeMsg}

theorem entered_eq (c : Cluster) : c.entered = c.contests.length := by
  rw [length_contests]
  exact List.countP_eq_length_filter

theorem HeldBy.flag {t : Int} (h : c.HeldBy t) : c.entered = c.fighting.toNat := by
  rw [entered_eq, h]
  cases c.fighting <;> rfl

/-- The goroutine that holds the flag. -/
theorem Sees.held (h : c.Sees) : ∃ t, c.HeldBy t := by
  have hlen := h.flag
  rw [entered_eq] at hlen
  unfold HeldBy
  cases hf : c.fighting with
  | false =>
    rw [hf] at hlen
    exact ⟨0, List.length_eq_zero_iff.mp hlen⟩
  | true =>
    rw [hf] at hlen
    obtain ⟨t, ht⟩ := List.length_eq_one_iff.mp hlen
    exact ⟨t, ht⟩

/-- The goroutine that goes on is the only one in the election. -/
theorem Sees.fighting (h : c.Sees) {f : Fight} (hf : f ∈ c.fights) (hne : f ≠ .start) :
    (c.setFights (c.fights.erase f)).Fighting := by
  obtain ⟨t, hheld⟩ := h.held
  obtain ⟨-, halone⟩ := hheld.alone hf hne
  refine ⟨h.model, h.others, ?_, halone.fighting, fun hl => ?_⟩
  · rw [entered_eq, halone.contests]
    rfl
  · cases halone.fighting.symm.trans (h.leader hl).1

/-! ## What a member sees -/

/-- The step leaves the online nodes alone, and a callback to come is still to come. -/
structure SameSight (c c' : Cluster) : Prop where
  alive : c'.nodesAlive = c.nodesAlive
  pending : c.pendingClosed ≠ [] → c'.pendingClosed ≠ []

theorem SameSight.trans {c'' : Cluster} (h : SameSight c c') (h' : SameSight c' c'') :
    SameSight c c'' where
  alive := h'.alive.trans h.alive
  pending := fun hne => h'.pending (h.pending hne)

theorem SameSight.of_links (h : c'.links = c.links) : SameSight c c' where
  alive := congrArg Links.nodesAlive h
  pending := fun hne he => hne ((congrArg Links.pendingClosed h).symm.trans he)

theorem sameSight_closeConnector (id : String) : SameSight c (c.closeConnector id) := by
  unfold closeConnector
  split
  · exact ⟨rfl, fun _ => by simp [setConns]⟩
  · exact ⟨rfl, fun hne => hne⟩

theorem sameSight_close : SameSight c c.close := by
  unfold close
  split_ifs
  · exact ⟨rfl, fun hne => hne⟩
  · refine List.foldlRecOn (motive := SameSight c) _ _ ⟨rfl, fun hne => hne⟩ fun c' hc id _ => ?_
    exact (hc.trans (sameSight_closeConnector id)).trans ⟨rfl, fun hne => hne⟩

theorem sameSight_heartbeatFollower : SameSight c (c.heartbeatFollower env) := by
  unfold heartbeatFollower
  split
  · split_ifs
    · exact sameSight_closeConnector _
    · exact ⟨rfl, fun hne => hne⟩
    · exact ⟨rfl, fun hne => hne⟩
  · split_ifs
    · exact ⟨rfl, fun hne => hne⟩
    · exact ⟨rfl, fun hne => hne⟩

/-- Only a new connection and the callback of a closed one change who is online. -/
theorem Acts.sameSight {a : Action} {out : Out} (h : Acts env c a c' out)
    (hconnect : ∀ id, a ≠ .connect id) (hcallback : ∀ id, a ≠ .callback id) : SameSight c c' := by
  cases h with
  | startUp => exact .of_links (congrArg Workings.links workings_startUp)
  | close => exact sameSight_close
  | connect => exact absurd rfl (hconnect _)
  | assignConnector h =>
    obtain ⟨r, -, rfl⟩ := Option.map_eq_some_iff.mp h
    exact ⟨rfl, fun hne => hne⟩
  | readFail => exact ⟨rfl, fun _ => by simp [setConns]⟩
  | readStop => exact ⟨rfl, fun hne => hne⟩
  | callback => exact absurd rfl (hcallback _)
  | leads =>
    have hclosed : SameSight c (c.heartbeatLeader env).1 :=
      List.foldlRecOn (motive := SameSight c) _ _ ⟨rfl, fun hne => hne⟩ fun _ hc id _ =>
        hc.trans (sameSight_closeConnector id)
    exact hclosed.trans ⟨rfl, fun hne => hne⟩
  | follows => exact sameSight_heartbeatFollower.trans ⟨rfl, fun hne => hne⟩
  | idle => exact ⟨rfl, fun hne => hne⟩
  | @fight f _ => exact .of_links (links_fightElection (c.setFights (c.fights.erase f)) env f)

theorem SameSight.sees (h : SameSight c c') (hall : c'.nodesAll = c.nodesAll)
    (hsees : c.hasMajority = true ∨ c.pendingClosed ≠ []) :
    c'.hasMajority = true ∨ c'.pendingClosed ≠ [] := by
  rcases hsees with hmaj | hne
  · left
    rw [hasMajority_iff] at hmaj ⊢
    rw [hall, h.alive]
    exact hmaj
  · exact Or.inr (h.pending hne)

end Cluster

namespace Standing

variable {s s' : Standing} {m : NodeMsg}

/-! ## Who becomes the leader -/

theorem Quiet.leader (h : s.Quiet s') (hl : s'.status = .leader) : s.status = .leader := by
  cases h with
  | keep => exact hl
  | contest => exact hl
  | _ => cases hl

theorem sign_leader {id : String} (hid : id ≠ s.nodeMy) (hl : (s.sign id).status = .leader) :
    s.status = .leader := by
  have hlead : (s.lead id).status ≠ .leader := by
    unfold lead
    simp [hid.symm]
  unfold sign at hl
  split_ifs at hl
  · exact hl
  · split at hl
    · exact absurd hl hlead
    · split_ifs at hl
      · exact hl
      · exact hl
      · exact absurd hl hlead

theorem enter_leader (hl : (s.enter m).status = .leader) : s.status = .leader := by
  unfold enter at hl
  rw [record_status] at hl
  split_ifs at hl
  · cases hl
  · exact hl

/-- A message that names another node does not make the member the leader. -/
theorem hear_leader {nodesAlive : List String} {request : Bool} {flag : Flag}
    (hothers : s.nodeMy ∉ nodesAlive)
    (htold : request = true → flag = .sBroadcastLeader → m.leaderId ≠ s.nodeMy)
    (hl : (s.hear nodesAlive request flag m).status = .leader) : s.status = .leader := by
  unfold hear at hl
  split_ifs at hl with hreq
  · cases flag with
    | sGetVote =>
      simp only [hearVote] at hl
      split_ifs at hl with hlead
      · exact hlead
      · exact hl
    | sBroadcastLeader =>
      simp only [hearLeader_eq] at hl
      split_ifs at hl
      · exact hl
      · exact enter_leader hl
      · have hmy : (s.enter m).nodeMy = s.nodeMy := by
          unfold enter
          rw [record_nodeMy]
          split_ifs <;> rfl
        have hother : m.leaderId ≠ (s.enter m).nodeMy := by
          rw [hmy]
          exact htold hreq rfl
        exact enter_leader (sign_leader hother hl)
      · exact enter_leader hl
    | _ => exact hl
  · unfold hearAnswer at hl
    by_cases hnew : s.nodeLeader.isSome ∧ s.own < m.term
    · rw [if_pos hnew] at hl
      cases hl
    · rw [if_neg hnew] at hl
      cases flag with
      | rAskLeader =>
        simp only at hl
        split_ifs at hl with hid
        · have hother : m.leaderId ≠ (s.record [m.nodeId, m.leaderId] m.term).nodeMy :=
            fun he => hothers (he ▸ hid.2.1)
          have hrec := sign_leader hother hl
          exact hrec
        · exact hl
      | rLeader =>
        simp only at hl
        split_ifs at hl
        · cases hl
        · exact hl
      | _ => exact hl

end Standing

namespace Cluster

variable {c c' : Cluster} {env : Env} {m : NodeMsg}

/-! ## The steps of a member -/

namespace Sees

/-- A connection is opened: more nodes are online. -/
theorem connect {id : String} {out : Out} (h : c.Sees) (hacts : Acts env c (.connect id) c' out) :
    c'.Sees := by
  cases hacts with
  | connect hc =>
    simp only [Cluster.connect, Option.ite_none_right_eq_some, Option.some.injEq] at hc
    obtain ⟨⟨-, -, -, hne, -⟩, rfl⟩ := hc
    constructor
    case model => exact h.model
    case others =>
      show c.nodeMy ∉ if id ∈ c.nodesAlive then c.nodesAlive else c.nodesAlive ++ [id]
      split_ifs
      · exact h.others
      · rw [List.mem_append, List.mem_singleton]
        rintro (hmem | heq)
        · exact h.others hmem
        · exact hne heq.symm
    case flag => exact h.flag
    case leader =>
      intro hl
      refine ⟨(h.leader hl).1, (h.leader hl).2.imp_left fun hm => ?_⟩
      rw [hasMajority_iff] at hm ⊢
      show c.nodesAll.length / 2 <
        (if id ∈ c.nodesAlive then c.nodesAlive else c.nodesAlive ++ [id]).length + 1
      split_ifs
      · exact hm
      · rw [List.length_append]
        omega

/-- After the callback a leader sees a majority, whatever was pending before. -/
theorem onSessionClosed (h : c.Sees) (pending : List String) (id : String) :
    ((c.setConns c.conns pending).onSessionClosed env id).Sees := by
  have hmy : c.nodeMy ∉ c.nodesAlive.erase id := fun hmem => h.others (List.mem_of_mem_erase hmem)
  unfold Cluster.onSessionClosed
  simp only
  -- the member with the node taken off line, before the leadership is looked at
  generalize hc : ((c.setConns c.conns pending).setNode id _).setAlive _ = c₁
  have hmodel : c₁.model = .cluster := by
    rw [← hc]
    exact h.model
  have hothers : c₁.nodeMy ∉ c₁.nodesAlive := by
    rw [← hc]
    exact hmy
  have hflag : c₁.entered = c₁.fighting.toNat := by
    rw [← hc]
    exact h.flag
  have hfree : c₁.status = .leader → c₁.fighting = false := by
    rw [← hc]
    exact fun hl => (h.leader hl).1
  have hnext : (c₁.toNextTerm env.now).Sees := by
    refine ⟨hmodel, hothers, ?_, fun hl => by cases hl⟩
    have hsame := congrArg Workings.invocations (workings_toNextTerm (c := c₁) env.now)
    have hlen : (c₁.toNextTerm env.now).entered = c₁.entered := by
      rw [entered_eq, entered_eq, contests_eq, contests_eq]
      exact congrArg (fun l => (l.filterMap Fight.term).length) hsame
    rw [hlen]
    exact hflag
  split_ifs with hlead hclosed hmaj hclosed hfight
  · exact ⟨hmodel, hothers, hflag, fun hl => by cases hclosed.symm.trans hl⟩
  · exact hnext
  · exact ⟨hmodel, hothers, hflag, fun hl => ⟨hfree hl, Or.inl hmaj⟩⟩
  · exact ⟨hmodel, hothers, hflag, fun hl => by cases hclosed.symm.trans hl⟩
  · exact ⟨hmodel, hothers, hflag, fun hl => by cases hfight.symm.trans (hfree hl)⟩
  · exact hnext

/-- The other steps: the member signs itself and gives the flag back, or it has led before and no
invocation passes the flag. -/
theorem keep {a : Action} {out : Out} (h : c.Sees) (hacts : Acts env c a c' out)
    (hsight : SameSight c c')
    (hsign : ∀ t, a = .fight (.confirm t) → confirmed c.returnWait.2 = true →
      c.hasMajority = true ∨ c.pendingClosed ≠ []) : c'.Sees := by
  obtain ⟨t, hheld⟩ := h.held
  have hheld' := hacts.heldBy hheld
  obtain ⟨hmy, hall⟩ := hacts.ids
  constructor
  case model => exact hacts.model.trans h.model
  case others =>
    rw [hmy, hsight.alive]
    exact h.others
  case flag =>
    split_ifs at hheld'
    · exact hheld'.flag
    · exact hheld'.1.flag
  case leader =>
    intro hl
    rcases hacts.stands with ⟨hsigns, -⟩ | ⟨-, hquiet⟩
    · cases a with
      | startUp => cases h.model.symm.trans hsigns
      | fight f =>
        cases f with
        | confirm t =>
          have hfree : c'.fighting = false := by
            cases hacts with
            | fight => exact congrArg Workings.fighting workings_confirmLeader
          exact ⟨hfree, hsight.sees hall (hsign t rfl hsigns)⟩
        | _ => exact hsigns.elim
      | _ => exact hsigns.elim
    · have hlead : c.status = .leader := hquiet.leader hl
      obtain ⟨hfree, hsees⟩ := h.leader hlead
      refine ⟨?_, hsight.sees hall hsees⟩
      by_cases ha : ∀ f, a ≠ .fight f
      · exact (hacts.sameElections ha).fighting.trans hfree
      · push Not at ha
        obtain ⟨f, rfl⟩ := ha
        have hf := hacts.mem_fights
        by_cases hst : f = .start
        · -- a leader does not pass the flag
          subst hst
          have hpass : c.passesFlag (.act env (.fight .start)) = false := by
            simp [passesFlag, hlead]
          rw [hpass] at hheld'
          by_contra hfl
          have hbusy := hheld'.2 (Bool.eq_true_of_not_eq_false hfl)
          cases hfree.symm.trans hbusy
        · exact absurd hlead (h.fighting hf hst).status

theorem act {a : Action} {out : Out} (h : c.Sees) (hacts : Acts env c a c' out)
    (hsign : ∀ t, a = .fight (.confirm t) → confirmed c.returnWait.2 = true →
      c.hasMajority = true ∨ c.pendingClosed ≠ []) : c'.Sees := by
  by_cases hconnect : ∃ id, a = .connect id
  · obtain ⟨id, rfl⟩ := hconnect
    exact h.connect hacts
  by_cases hcallback : ∃ id, a = .callback id
  · obtain ⟨id, rfl⟩ := hcallback
    cases hacts with
    | callback id pending => exact h.onSessionClosed pending id
  · push Not at hconnect hcallback
    exact h.keep hacts (hacts.sameSight hconnect hcallback) hsign

/-- A member that is told of a leader is told of another node. -/
theorem receive {request : Bool} {flag : Flag} (h : c.Sees)
    (htold : request = true → flag = .sBroadcastLeader → m.leaderId ≠ c.nodeMy) :
    (c.receive env request flag m).Sees := by
  have hwork := workings_receive c env request flag m
  have hsame := SameElections.of_workings hwork
  have hsight := SameSight.of_links (congrArg Workings.links hwork)
  obtain ⟨hmy, hall⟩ := ids_receive c env request flag m
  obtain ⟨t, hheld⟩ := h.held
  constructor
  case model => exact hsame.model.trans h.model
  case others =>
    rw [hmy, hsight.alive]
    exact h.others
  case flag => exact (hsame.heldBy hheld).flag
  case leader =>
    intro hl
    have hst : (c.standing.hear c.nodesAlive request flag m).status = .leader :=
      (congrArg Standing.status (standing_receive c env request flag m)).symm.trans hl
    have hlead : c.status = .leader := Standing.hear_leader h.others htold hst
    obtain ⟨hfree, hsees⟩ := h.leader hlead
    exact ⟨hsame.fighting.trans hfree, hsight.sees hall hsees⟩

end Sees

end Cluster

/-! ## The members of the cluster -/

/-- Every member keeps its flag and its majority, and no member is told that it leads. -/
structure Majority (s : Network) : Prop where
  my : ∀ v, (s.members v).nodeMy = v
  sees : ∀ v, (s.members v).Sees
  told : ∀ p ∈ s.packets, p.request = true → p.flag = .sBroadcastLeader → p.msg.leaderId ≠ p.dst

/-- The condition on a run: when the answers to its broadcast confirm a member, it still sees a
majority, or the callback of a closed connection is to come. -/
def SignsInMajority (s : Network) : Event → Prop
  | .act id _ (.fight (.confirm _)) =>
    Cluster.confirmed (s.members id).returnWait.2 = true →
      (s.members id).hasMajority = true ∨ (s.members id).pendingClosed ≠ []
  | _ => True

instance (s : Network) (e : Event) : Decidable (SignsInMajority s e) := by
  rcases e with ⟨id, env, _ | _ | _ | _ | _ | _ | _ | _ | (_ | _ | _ | _ | _ | _ | term)⟩ | ⟨env, p⟩
  case act.fight.confirm => exact inferInstanceAs (Decidable (_ → _ ∨ _))
  all_goals exact inferInstanceAs (Decidable True)

variable {s s' : Network}

theorem Majority.setMember {c : Cluster} (h : Majority s) {v : String} (hmy : c.nodeMy = v)
    (hc : c.Sees) : Majority (s.setMember v c) where
  my := members_ind (P := fun u c => c.nodeMy = u) (fun _ => rfl) hmy fun u _ => h.my u
  sees := members_ind (P := fun _ c => c.Sees) (fun _ => rfl) hc fun u _ => h.sees u
  told := h.told

theorem Majority.send {ps : List Packet} (h : Majority s)
    (hps : ∀ p ∈ ps, p.request = true → p.flag = .sBroadcastLeader → p.msg.leaderId ≠ p.dst) :
    Majority (s.send ps) where
  my := h.my
  sees := h.sees
  told := by
    intro p hp
    rw [packets_send, Multiset.mem_add] at hp
    rcases hp with hp | hp
    · exact h.told p hp
    · exact hps p hp

theorem majority_act {v : String} {env : Env} {a : Action} {c : Cluster} {out : Out}
    (h : Majority s) (hacts : Cluster.Acts env (s.members v) a c out)
    (hok : SignsInMajority s (.act v env a)) :
    Majority ((s.setMember v c).send (Network.requests v out)) := by
  have hc : c.Sees := by
    refine (h.sees v).act hacts ?_
    rintro t rfl hconf
    exact hok hconf
  refine (h.setMember (hacts.ids.1.trans (h.my v)) hc).send fun p hp _ hflag => ?_
  obtain ⟨m, hm, rfl⟩ := List.mem_map.mp hp
  obtain ⟨⟨-, hto, -⟩, hf | hf | ⟨-, hl, -⟩⟩ := Cluster.acts_out hacts hm
  · cases hf.symm.trans hflag
  · cases hf.symm.trans hflag
  · show m.2.2.leaderId ≠ m.1
    rw [hl]
    exact hto.symm

theorem majority_receive {env : Env} {p : Packet}
    (h : Majority { s with packets := p ::ₘ s.packets }) : Majority (s.handle env p) := by
  have hold : Majority s :=
    ⟨h.my, h.sees, fun q hq => h.told q (Multiset.mem_cons_of_mem hq)⟩
  have hmy : (s.members p.dst).nodeMy = p.dst := h.my p.dst
  have hdst : (s.members p.dst).Sees := h.sees p.dst
  unfold Network.handle
  cases hreq : p.request with
  | true =>
    have htold : true = true → p.flag = .sBroadcastLeader →
        p.msg.leaderId ≠ (s.members p.dst).nodeMy := by
      rw [hmy]
      exact fun _ => h.told p (Multiset.mem_cons_self p s.packets) hreq
    have hc : ((s.members p.dst).acceptorReceived env p.flag p.msg).1.Sees := hdst.receive htold
    refine (hold.setMember ?_ hc).send fun q hq hno => ?_
    · rw [(Cluster.ids_acceptorReceived _ _).1, hmy]
    · obtain ⟨r, -, rfl⟩ := List.mem_map.mp hq
      cases hno
  | false =>
    have hc : ((s.members p.dst).receive env false p.flag p.msg).Sees :=
      hdst.receive fun hno => by cases hno
    refine hold.setMember ?_ hc
    rw [(Cluster.ids_nodeReceived _ _).1, hmy]

theorem majority_step {ids : List String} {e : Event} (h : Majority s) (hok : SignsInMajority s e)
    (hstep : Network.step ids s e = some s') : Majority s' := by
  cases steps_of_step hstep with
  | act hid hacts => exact majority_act h hacts hok
  | receive s env p => exact majority_receive h

theorem majority_initial {conf : Conf} (hmodel : conf.model = "cluster") (now : Int) :
    Majority (Network.initial conf now) where
  my := fun v => (Cluster.fresh_create conf v now).my
  sees := by
    intro v
    have hnew := Cluster.fresh_create conf v now
    rw [if_pos hmodel] at hnew
    constructor
    case model => exact hnew.model
    case others =>
      rw [show ((Network.initial conf now).members v).nodesAlive = [] from hnew.alive]
      exact List.not_mem_nil
    case flag =>
      show List.countP _ (Cluster.create conf v now).fights =
        (Cluster.create conf v now).fighting.toNat
      rw [hnew.fights, hnew.fighting]
      rfl
    case leader =>
      intro hl
      cases hnew.status.symm.trans hl
  told := fun p hp => absurd hp (Multiset.notMem_zero p)

/-- A leader with no callback to come sees more than half of the nodes, in every run in which a member
that is confirmed still does. -/
theorem leader_sees_majority {conf : Conf} (hmodel : conf.model = "cluster") {s : Network}
    (hr : (network conf).ReachableWhen SignsInMajority s) {v : String}
    (hpending : (s.members v).pendingClosed = []) (hlead : (s.members v).isLeader = true) :
    (s.members v).getAllNodeNames.length / 2 < (s.members v).getAliveNodeNames.length := by
  have hm : Majority s := by
    refine hr.invariant Majority ?_ ?_
    · rintro s ⟨now, rfl⟩
      exact majority_initial hmodel now
    · exact fun s e s' _ h hok hs => majority_step h hok hs
  have hsees := ((hm.sees v).leader (of_decide_eq_true hlead)).2
  rcases hsees with hmaj | hne
  · exact of_decide_eq_true hmaj
  · exact absurd hpending hne

theorem leader_sees_majority_first :
    ∃ s, (network threeNodes).ReachableWhen SignsInMajority s ∧
      (s.members "a:1").pendingClosed = [] ∧ (s.members "a:1").isLeader = true ∧
      (s.members "a:1").getAllNodeNames.length / 2 <
        (s.members "a:1").getAliveNodeNames.length := by
  have hrun : (((network threeNodes).restrict SignsInMajority).run (Network.initial threeNodes 0)
      (starts threeNodes.ids ++ firstElection ++ [hears "b:1" "a:1" 1 "u2",
        confirms "b:1" "a:1" 1 "u2", acts "a:1" "" (.fight (.confirm 1))])).map
      (fun s => ((s.members "a:1").pendingClosed, (s.members "a:1").isLeader)) =
      some ([], true) := by
    decide
  obtain ⟨s, hr, he⟩ := Machine.observedWhen_of_run hrun ⟨0, rfl⟩
  simp only [Prod.mk.injEq] at he
  exact ⟨s, hr, he.1, he.2, leader_sees_majority rfl hr he.1 he.2⟩

/-! ## A leader without a majority -/

/-- A member that is confirmed signs itself, whatever it sees. -/
theorem leads_without_majority {c : Cluster}
    (hleader : ∀ l, c.nodeLeader = some l → l ≠ c.nodeMy ∧ (c.nodes l).term ≤ c.getMyTerm)
    (hconf : Cluster.confirmed c.returnWait.2 = true) (hno : c.hasMajority = false) :
    c.confirmLeader.isLeader = true ∧ c.confirmLeader.fighting = false ∧
      c.confirmLeader.pendingClosed = c.pendingClosed ∧ c.confirmLeader.hasMajority = false := by
  have hsign : c.returnWait.1.signLeader c.nodeMy = (c.returnWait.1.setLeader c.nodeMy, true) := by
    rcases Cluster.signLeader_cases c.returnWait.1 c.nodeMy with ⟨-, hlt | ⟨l, hl, hlt⟩⟩ |
      ⟨-, -, hl⟩ | ⟨he, -⟩
    · exact absurd hlt (lt_irrefl _)
    · exact absurd hlt (not_lt.mpr (hleader l hl).2)
    · exact absurd rfl (hleader _ hl).1
    · exact he
  unfold Cluster.confirmLeader
  simp only [hconf, if_true, hsign]
  refine ⟨?_, rfl, rfl, hno⟩
  simp [Cluster.isLeader, Cluster.finishFight, Cluster.returnWait]

/-- While `a:1` still waits for the answer of `c:1`, both its connections close. Their callbacks find
that `a:1` is fighting and return. The wait times out, and the answer of `b:1` confirms `a:1`. -/
def lostDuringElection : List Event :=
  starts threeNodes.ids ++ connects "a:1" "c:1" ++ firstElection ++
    [hears "b:1" "a:1" 1 "u2", confirms "b:1" "a:1" 1 "u2", acts "a:1" "" (.readFail 0),
      acts "a:1" "" (.callback "c:1"), acts "a:1" "" (.readFail 1), acts "a:1" "" (.callback "b:1"),
      acts "a:1" "" (.fight (.confirm 1))]

theorem leader_sees_itself_only :
    ∃ s, (network threeNodes).Reachable s ∧
      (s.members "a:1").pendingClosed = [] ∧ (s.members "a:1").fighting = false ∧
      (s.members "a:1").isLeader = true ∧ (s.members "a:1").getAllNodeNames.length = 3 ∧
      (s.members "a:1").getAliveNodeNames.length = 1 := by
  have hrun : ((network threeNodes).run (Network.initial threeNodes 0) lostDuringElection).map
      (fun s => ((s.members "a:1").pendingClosed, (s.members "a:1").fighting,
        (s.members "a:1").isLeader, (s.members "a:1").getAllNodeNames.length,
        (s.members "a:1").getAliveNodeNames.length)) = some ([], false, true, 3, 1) := by
    decide
  obtain ⟨s, hr, he⟩ := Machine.observed_of_run hrun ⟨0, rfl⟩
  simp only [Prod.mk.injEq] at he
  exact ⟨s, hr, he⟩

end OwnX.Cluster
