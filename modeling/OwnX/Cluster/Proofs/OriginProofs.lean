import OwnX.Cluster.Proofs.ChannelProofs
import OwnX.Cluster.Proofs.LeaderProofs

/-!
# Proofs: where leaders come from

Whatever happens to a cluster, its members follow no one who has not been elected. Nothing is assumed
of the run: the votes may be forgotten and the answers may be late. What such a run can lose is that
the leader has been elected in the member's own term. A cluster of one node has no leader at all.
-/

set_option linter.dupNamespace false

namespace OwnX.Cluster

/-! ## The elections of a run -/

/-- The elections of a run: in which terms a member has fought one, and in which of them it has counted
the votes of more than half of the nodes. -/
structure Elections where
  contested : String → Int → Prop
  won : String → Int → Prop

/-- The member waits for the confirmation of its election in the term `t`, with the votes of more than
half of the nodes. -/
def Cluster.Wins (c : Cluster) (t : Int) : Prop :=
  .confirm t ∈ c.fights ∧ ((c.getAllNodeNames.length / 2 : Nat) : Int) < c.getMyNode.getVoteCount t

namespace Elections

/-- The elections so far, after a step into `s`. -/
def note (h : Elections) (s : Network) : Elections where
  contested := fun id t => h.contested id t ∨ t ∈ (s.members id).contests
  won := fun id t => h.won id t ∨ (s.members id).Wins t

/-- The member `id` has won an election in the term `t` or an earlier one. -/
def WonBy (h : Elections) (id : String) (t : Int) : Prop := ∃ u ≤ t, h.won id u

theorem WonBy.mono {h : Elections} {id : String} {t u : Int} (hwon : h.WonBy id t) (hle : t ≤ u) :
    h.WonBy id u := by
  obtain ⟨w, hw, hwon⟩ := hwon
  exact ⟨w, hw.trans hle, hwon⟩

theorem WonBy.note {h : Elections} {id : String} {t : Int} (hwon : h.WonBy id t) (s : Network) :
    (h.note s).WonBy id t := by
  obtain ⟨u, hu, hwon⟩ := hwon
  exact ⟨u, hu, Or.inl hwon⟩

end Elections

/-- The cluster of a configuration, with the elections so far. -/
def electionMachine (conf : Conf) : Machine (Network × Elections) Event :=
  (network conf).withHistory ⟨fun _ _ => False, fun _ _ => False⟩ Elections.note

/-- An election is not fought in a later term than the own one. -/
theorem contests_le {conf : Conf} {my : String} {c : Cluster} (hr : (member conf my).Reachable c)
    {t : Int} (ht : t ∈ c.contests) : t ≤ c.getMyTerm := by
  -- the run is carried along with the terms of its invocations
  have hlog : ∃ log, (memberContests conf my).Reachable (c, log) := by
    clear ht
    induction hr with
    | init h => exact ⟨[], .init ⟨h, rfl⟩⟩
    | @step c c' i _ _ hs ih =>
      obtain ⟨log, hlog⟩ := ih
      have hstep : (memberContests conf my).step (c, log) i =
          some (c', if c.passesFlag i then log ++ [c.nextTerm] else log) :=
        Option.map_eq_some_iff.mpr ⟨c', hs, rfl⟩
      exact ⟨_, hlog.step trivial hstep⟩
  obtain ⟨log, hlog⟩ := hlog
  have hcon := (contested_reachable hlog).2
  obtain ⟨u, hheld, hlast⟩ := hcon.held
  rw [hheld] at ht
  split_ifs at ht with hf
  · rw [List.mem_singleton.mp ht]
    exact hcon.passed u (List.mem_of_getLast? (hlast hf))
  · cases ht

theorem mem_contests {c : Cluster} {f : Fight} {t : Int} (hf : f ∈ c.fights) (ht : f.term = some t) :
    t ∈ c.contests :=
  List.mem_filterMap.mpr ⟨f, hf, ht⟩

/-! ## Who may become the leader in a step -/

namespace Standing

variable {s s' : Standing} {l : String} {m : NodeMsg}

theorem Quiet.leader_of {s s' : Standing} (h : s.Quiet s') (hl : s'.nodeLeader = some l) :
    s.nodeLeader = some l := by
  cases h with
  | release => cases hl
  | _ => exact hl

theorem leader_of_sign {id : String} (hl : (s.sign id).nodeLeader = some l) :
    s.nodeLeader = some l ∨ l = id := by
  have hlead : (s.lead id).nodeLeader = some l → l = id := fun h => (Option.some.inj h).symm
  unfold sign at hl
  split_ifs at hl
  · exact Or.inl hl
  · cases hn : s.nodeLeader with
    | none =>
      rw [hn] at hl
      exact Or.inr (hlead hl)
    | some k =>
      rw [hn] at hl
      simp only at hl
      split_ifs at hl
      · rw [← hn]
        exact Or.inl hl
      · rw [← hn]
        exact Or.inl hl
      · exact Or.inr (hlead hl)

theorem leader_of_enter (hl : (s.enter m).nodeLeader = some l) : s.nodeLeader = some l := by
  unfold enter at hl
  rw [record_nodeLeader] at hl
  split_ifs at hl
  · cases hl
  · exact hl

/-- The messages that name a leader. -/
def Names (request : Bool) (flag : Flag) (m : NodeMsg) : Prop :=
  request = true ∧ flag = .sBroadcastLeader ∨
    request = false ∧ flag = .rAskLeader ∧ m.leaderId ≠ ""

/-- A message that is heard leaves the leader, or gives it up, or names the new one, and the member is
then in the term of the message or a later one. -/
theorem leader_of_hear {nodesAlive : List String} {request : Bool} {flag : Flag}
    (hl : (s.hear nodesAlive request flag m).nodeLeader = some l) :
    s.nodeLeader = some l ∨
      l = m.leaderId ∧ Names request flag m ∧ m.term ≤ (s.hear nodesAlive request flag m).own := by
  cases request with
  | true =>
    cases flag with
    | sGetVote =>
      change s.hearVote.nodeLeader = some l at hl
      unfold hearVote at hl
      split_ifs at hl
      · cases hl
      · exact Or.inl hl
    | sBroadcastLeader =>
      change (s.hearLeader m).nodeLeader = some l at hl
      change _ ∨ l = m.leaderId ∧ _ ∧ m.term ≤ (s.hearLeader m).own
      rw [hearLeader_eq] at hl ⊢
      split_ifs at hl ⊢
      · exact Or.inl hl
      · exact Or.inl (leader_of_enter hl)
      · rcases leader_of_sign hl with hl | rfl
        · exact Or.inl (leader_of_enter hl)
        · refine Or.inr ⟨rfl, Or.inl ⟨rfl, rfl⟩, ?_⟩
          rw [own_sign, own_enter]
          exact le_max_right _ _
      · exact Or.inl (leader_of_enter hl)
    | _ => exact Or.inl hl
  | false =>
    change (s.hearAnswer nodesAlive flag m).nodeLeader = some l at hl
    change _ ∨ l = m.leaderId ∧ _ ∧ m.term ≤ (s.hearAnswer nodesAlive flag m).own
    unfold hearAnswer at hl ⊢
    by_cases hnew : s.nodeLeader.isSome ∧ s.own < m.term
    · rw [if_pos hnew] at hl
      cases hl
    · rw [if_neg hnew] at hl ⊢
      cases flag with
      | rAskLeader =>
        simp only at hl ⊢
        split_ifs at hl ⊢ with hid
        · rcases leader_of_sign hl with hl | rfl
          · exact Or.inl hl
          · refine Or.inr ⟨rfl, Or.inr ⟨rfl, rfl, hid.1⟩, ?_⟩
            rw [own_sign, own_record]
            exact le_max_right _ _
        · exact Or.inl hl
      | rLeader =>
        simp only at hl
        split_ifs at hl
        · cases hl
        · exact Or.inl hl
      | _ => exact Or.inl hl

end Standing

/-- An answer that names a leader names the own one, in its term. -/
theorem Cluster.leader_of_answer {c : Cluster} {env : Env} {flag : Flag} {m : NodeMsg}
    {r : Flag × NodeMsg} (hr : r ∈ (c.acceptorReceived env flag m).2) (hflag : r.1 = .rAskLeader)
    (hne : r.2.leaderId ≠ "") :
    c.nodeLeader = some r.2.leaderId ∧ r.2.term = (c.nodes r.2.leaderId).term := by
  cases flag with
  | sAskLeader =>
    cases List.mem_singleton.mp hr
    unfold answerAskLeader at hne ⊢
    cases hl : c.nodeLeader with
    | none => simp [hl] at hne
    | some l =>
      simp only [hl] at hne ⊢
      split_ifs at hne ⊢
      · exact ⟨rfl, rfl⟩
      · exact absurd rfl hne
  | sGetVote =>
    cases List.mem_singleton.mp hr
    cases hflag
  | sBroadcastLeader =>
    rcases (onBroadcastLeader_cases c env m).2 r hr with hf | hf
    · cases hf.symm.trans hflag
    · cases hf.symm.trans hflag
  | _ => cases hr

/-! ## Every leader has been elected -/

/-- Every leader that a member has or a message names has won an election, not later than in the term
in which it is named. -/
structure Legitimate (s : Network) (h : Elections) : Prop where
  leader : ∀ v l, (s.members v).nodeLeader = some l → h.WonBy l (s.members v).getMyTerm
  confirm : ∀ v t, .confirm t ∈ (s.members v).fights → h.won v t
  packets : ∀ p ∈ s.packets, p.Truthful h.WonBy

/-- What is known of every member in every run. -/
structure Sound (c : Cluster) (v : String) : Prop where
  model : c.model = .cluster
  my : c.nodeMy = v
  coherent : c.standing.Coherent
  contests : ∀ t ∈ c.contests, t ≤ c.getMyTerm

theorem sound_of_reachable {conf : Conf} (hmodel : conf.model = "cluster") {v : String} {c : Cluster}
    (hr : (member conf v).Reachable c) : Sound c v where
  model := by
    refine hr.invariant (fun c => c.model = .cluster) ?_ ?_
    · rintro c ⟨now, rfl⟩
      have hnew := Cluster.fresh_create conf v now
      rw [if_pos hmodel] at hnew
      exact hnew.model
    · intro c i c' _ hc _ hs
      rcases Cluster.step_cases hs with ⟨env, a, out, -, hacts⟩ | ⟨env, request, flag, m, -, rfl⟩
      · exact hacts.model.trans hc
      · have hsame := Cluster.SameElections.of_workings
          (Cluster.workings_receive c env request flag m)
        exact hsame.model.trans hc
  my := (Cluster.attended_reachable hr).my
  coherent := coherent_reachable hr
  contests := fun _ ht => contests_le hr ht

namespace Legitimate

variable {s s' : Network} {h : Elections}

theorem note (hl : Legitimate s h) (s' : Network) : Legitimate s (h.note s') where
  leader := fun v l hv => (hl.leader v l hv).note s'
  confirm := fun v t ht => Or.inl (hl.confirm v t ht)
  packets := fun p hp =>
    ⟨fun hreq hflag => ((hl.packets p hp).broadcast hreq hflag).note s',
      fun hreq hflag hne => ((hl.packets p hp).answer hreq hflag hne).note s'⟩

theorem send {ps : List Packet} (hl : Legitimate s h) (hps : ∀ p ∈ ps, p.Truthful h.WonBy) :
    Legitimate (s.send ps) h where
  leader := hl.leader
  confirm := hl.confirm
  packets := by
    intro p hp
    rw [packets_send, Multiset.mem_add] at hp
    rcases hp with hp | hp
    · exact hl.packets p hp
    · exact hps p hp

theorem setMember {c : Cluster} (hl : Legitimate s h) (v : String)
    (hleader : ∀ l, c.nodeLeader = some l → h.WonBy l c.getMyTerm)
    (hconfirm : ∀ t, .confirm t ∈ c.fights → h.won v t) : Legitimate (s.setMember v c) h where
  leader := members_ind (P := fun _ c => ∀ l, c.nodeLeader = some l → h.WonBy l c.getMyTerm)
    (fun _ => rfl) hleader fun u _ => hl.leader u
  confirm := members_ind (P := fun u c => ∀ t, .confirm t ∈ c.fights → h.won u t)
    (fun _ => rfl) hconfirm fun u _ => hl.confirm u
  packets := hl.packets

/-- A member that signs itself has won its election, in a term that is not later than the own one. -/
theorem won_of_signs {v : String} {env : Env} {a : Action} {c : Cluster} {out : Out}
    (hl : Legitimate s h) (hsound : Sound (s.members v) v)
    (hacts : Cluster.Acts env (s.members v) a c out) (hsigns : (s.members v).Signs a) :
    h.WonBy v (s.members v).getMyTerm := by
  cases a with
  | startUp => cases hsound.model.symm.trans hsigns
  | fight f =>
    cases f with
    | confirm t =>
      have hf := hacts.mem_fights
      exact ⟨t, hsound.contests t (mem_contests hf rfl), hl.confirm v t hf⟩
    | _ => exact hsigns.elim
  | _ => exact hsigns.elim

theorem act {v : String} {env : Env} {a : Action} {c : Cluster} {out : Out} (hl : Legitimate s h)
    (hsound : Sound (s.members v) v) (hacts : Cluster.Acts env (s.members v) a c out)
    (hs : s' = (s.setMember v c).send (Network.requests v out)) : Legitimate s' (h.note s') := by
  have hold := hl.note s'
  have hself : s'.members v = c := by simp [hs]
  have hown : (s.members v).getMyTerm ≤ c.getMyTerm := hacts.moves.own_le
  have hconfirm : ∀ t, .confirm t ∈ c.fights → (h.note s').won v t := by
    intro t ht
    rcases hacts.confirm_mem ht with hbefore | hcount
    · exact hold.confirm v t hbefore
    · refine Or.inr ?_
      rw [hself]
      exact ⟨ht, hcount⟩
  have hleader : ∀ l, c.nodeLeader = some l → (h.note s').WonBy l c.getMyTerm := by
    intro l hc
    have hstays : (s.members v).nodeLeader = some l → (h.note s').WonBy l c.getMyTerm :=
      fun hv => (hold.leader v l hv).mono hown
    rcases hacts.stands with ⟨hsigns, he⟩ | ⟨-, hquiet⟩
    · have hc : ((s.members v).standing.sign (s.members v).nodeMy).nodeLeader = some l := by
        rw [← he]
        exact hc
      rcases Standing.leader_of_sign hc with hv | rfl
      · exact hstays hv
      · rw [hsound.my]
        exact (hold.won_of_signs hsound hacts hsigns).mono hown
    · exact hstays (hquiet.leader_of hc)
  have hsent : ∀ p ∈ Network.requests v out, p.Truthful (h.note s').WonBy := by
    intro p hp
    obtain ⟨m, hm, rfl⟩ := List.mem_map.mp hp
    refine ⟨fun _ hflag => ?_, fun hreq => by cases hreq⟩
    rcases (Cluster.acts_out hacts hm).2 with hf | hf | ⟨-, hm, hcase⟩
    · cases hf.symm.trans hflag
    · cases hf.symm.trans hflag
    · show (h.note s').WonBy m.2.2.leaderId m.2.2.term
      rw [hm, hsound.my]
      rcases hcase with ⟨hlead, hterm⟩ | hconf
      · have hnode := hsound.coherent.leads hlead
        rw [Cluster.standing_nodeMy, hsound.my] at hnode
        rw [hterm]
        exact hold.leader v v hnode
      · exact ⟨_, le_rfl, hconfirm _ hconf⟩
  have hnew := (hold.setMember v hleader hconfirm).send hsent
  rw [← hs] at hnew
  exact hnew

theorem receive {env : Env} {p : Packet}
    (hl : Legitimate { s with packets := p ::ₘ s.packets } h)
    (hsound : Sound (s.members p.dst) p.dst) :
    Legitimate (s.handle env p) (h.note (s.handle env p)) := by
  have hall := hl.note (s.handle env p)
  generalize h.note (s.handle env p) = h' at hall ⊢
  have hp : p.Truthful h'.WonBy := hall.packets p (Multiset.mem_cons_self p s.packets)
  have hold : Legitimate s h' :=
    ⟨hall.leader, hall.confirm, fun q hq => hall.packets q (Multiset.mem_cons_of_mem hq)⟩
  -- the member after the message
  have hstand := Cluster.standing_receive (s.members p.dst) env p.request p.flag p.msg
  have hleader : ∀ l, ((s.members p.dst).receive env p.request p.flag p.msg).nodeLeader = some l →
      h'.WonBy l ((s.members p.dst).receive env p.request p.flag p.msg).getMyTerm := by
    intro l hc
    have hown : ((s.members p.dst).receive env p.request p.flag p.msg).getMyTerm =
        ((s.members p.dst).standing.hear (s.members p.dst).nodesAlive p.request p.flag p.msg).own := by
      rw [← hstand]
      rfl
    have hc : ((s.members p.dst).standing.hear (s.members p.dst).nodesAlive p.request p.flag
        p.msg).nodeLeader = some l := by
      rw [← hstand]
      exact hc
    rw [hown]
    rcases Standing.leader_of_hear hc with hv | ⟨rfl, hnames, hle⟩
    · exact (hold.leader p.dst l hv).mono (Standing.own_le_hear _ _ _ _ _)
    · rcases hnames with ⟨hreq, hflag⟩ | ⟨hreq, hflag, hne⟩
      · exact (hp.broadcast hreq hflag).mono hle
      · exact (hp.answer hreq hflag hne).mono hle
  have hsame := Cluster.SameElections.of_workings
    (Cluster.workings_receive (s.members p.dst) env p.request p.flag p.msg)
  have hconfirm : ∀ t, .confirm t ∈ ((s.members p.dst).receive env p.request p.flag p.msg).fights →
      h'.won p.dst t :=
    fun t ht => hold.confirm p.dst t ((hsame.mem_fights rfl).mp ht)
  unfold Network.handle
  unfold Cluster.receive at hleader hconfirm
  cases hreq : p.request with
  | true =>
    rw [hreq] at hleader hconfirm
    refine (hold.setMember p.dst hleader hconfirm).send fun q hq => ?_
    obtain ⟨r, hr, rfl⟩ := List.mem_map.mp hq
    refine ⟨fun hno => (by cases hno), fun _ hflag hne => ?_⟩
    obtain ⟨hnode, hterm⟩ := Cluster.leader_of_answer hr hflag hne
    have hown : ((s.members p.dst).nodes r.2.leaderId).term = (s.members p.dst).getMyTerm :=
      hsound.coherent.leader _ hnode
    show h'.WonBy r.2.leaderId r.2.term
    rw [hterm, hown]
    exact hold.leader p.dst _ hnode
  | false =>
    rw [hreq] at hleader hconfirm
    exact hold.setMember p.dst hleader hconfirm

end Legitimate

/-- Whoever a member follows has won an election: it has counted the votes of more than half of the
nodes, in the member's own term or an earlier one. -/
theorem leader_was_elected {conf : Conf} (hmodel : conf.model = "cluster") {s : Network}
    {h : Elections} (hr : (electionMachine conf).Reachable (s, h)) {v l : String}
    (hl : (s.members v).nodeLeader = some l) : ∃ t ≤ (s.members v).getMyTerm, h.won l t := by
  have hlegit : Legitimate s h := by
    refine hr.invariant (fun x => Legitimate x.1 x.2) ?_ ?_
    · rintro ⟨s, h⟩ ⟨⟨now, rfl⟩, rfl⟩
      constructor
      · intro v l hv
        cases (Cluster.fresh_create conf v now).leader.symm.trans hv
      · intro v t ht
        rw [show ((Network.initial conf now).members v).fights = [] from
          (Cluster.fresh_create conf v now).fights] at ht
        cases ht
      · exact fun p hp => absurd hp (Multiset.notMem_zero p)
    · rintro ⟨s, h⟩ e ⟨s', h'⟩ hx hlegit - hs
      obtain ⟨s₁, hs₁, he⟩ := Option.map_eq_some_iff.mp hs
      cases he
      have hsound : ∀ v, Sound (s.members v) v :=
        fun v => sound_of_reachable hmodel (member_reachable hx.forget v)
      cases steps_of_step hs₁ with
      | act hid hacts => exact hlegit.act (hsound _) hacts rfl
      | receive s env p => exact hlegit.receive (hsound p.dst)
  exact hlegit.leader v l hl

/-- The node `a:1` has won the first term, and leads in the second one. -/
theorem leader_was_elected_overtaken :
    ∃ s h, (electionMachine threeNodes).Reachable (s, h) ∧
      (s.members "a:1").nodeLeader = some "a:1" ∧ (s.members "a:1").getMyTerm = 2 ∧
      ∃ t ≤ 2, h.won "a:1" t := by
  have hrun : ((network threeNodes).run (Network.initial threeNodes 0) overtakenElection).map
      (fun s => ((s.members "a:1").nodeLeader, (s.members "a:1").getMyTerm)) =
        some (some "a:1", 2) := by
    decide
  obtain ⟨s, hr, he⟩ := Machine.observed_of_run hrun ⟨0, rfl⟩
  obtain ⟨hl, hterm⟩ := Prod.mk.inj he
  obtain ⟨h, hh⟩ := hr.withHistory ⟨fun _ _ => False, fun _ _ => False⟩ Elections.note
  have hwon := leader_was_elected rfl hh hl
  rw [hterm] at hwon
  exact ⟨s, h, hh, hl, hterm, hwon⟩

/-! ## A cluster of one node -/

/-- No message is in flight, and no one has an answer or a leader. -/
structure Silent (s : Network) : Prop where
  packets : s.packets = 0
  waits : ∀ v w, (s.members v).sendAndWaitChan = some w → w.nodeMsgList = []
  leader : ∀ v, (s.members v).nodeLeader = none

/-- A step that sends nothing and hears nothing finds no leader: the election waits for at least one
confirmation. -/
theorem Silent.act {s : Network} {v : String} {env : Env} {a : Action} {c : Cluster} (h : Silent s)
    (hsound : Sound (s.members v) v) (hatt : (s.members v).Attended v)
    (hacts : Cluster.Acts env (s.members v) a c []) : Silent (s.setMember v c) where
  packets := h.packets
  waits := by
    refine members_ind (P := fun _ c => ∀ w, c.sendAndWaitChan = some w → w.nodeMsgList = [])
      (fun _ => rfl) (fun w hw => ?_) fun u _ => h.waits u
    rcases hacts.call hatt hw with ⟨-, hopens⟩ | ⟨-, hold, -⟩
    · obtain ⟨senders, he⟩ := hopens.empty
      cases he
      rfl
    · exact h.waits v w hold
  leader := by
    refine members_ind (P := fun _ c => c.nodeLeader = none) (fun _ => rfl) ?_ fun u _ => h.leader u
    have hanswers : (s.members v).returnWait.2 = [] := by
      unfold Cluster.returnWait
      split
      · exact h.waits v _ (by assumption)
      · rfl
    have hsigns : ¬ (s.members v).Signs a := by
      intro hsigns
      cases a with
      | startUp => cases hsound.model.symm.trans hsigns
      | fight f =>
        cases f with
        | confirm t =>
          change Cluster.confirmed (s.members v).returnWait.2 = true at hsigns
          rw [hanswers] at hsigns
          cases hsigns
        | _ => exact hsigns
      | _ => exact hsigns
    rcases hacts.stands with ⟨hyes, -⟩ | ⟨-, hquiet⟩
    · exact absurd hyes hsigns
    · by_contra hsome
      obtain ⟨l, hl⟩ := Option.ne_none_iff_exists'.mp hsome
      cases (h.leader v).symm.trans (hquiet.leader_of hl)

theorem nodesAll_of_reachable {conf : Conf} (hnd : conf.ids.Nodup) {v : String} {c : Cluster}
    (hr : (member conf v).Reachable c) : c.nodesAll = conf.ids := by
  refine hr.invariant (fun c => c.nodesAll = conf.ids) ?_ ?_
  · rintro c ⟨now, rfl⟩
    exact Cluster.nodesAll_create hnd v now
  · intro c i c' _ hc _ hs
    rcases Cluster.step_cases hs with ⟨env, a, out, -, hacts⟩ | ⟨env, request, flag, m, -, rfl⟩
    · exact hacts.ids.2.trans hc
    · exact (Cluster.ids_receive c env request flag m).2.trans hc

/-- A cluster of one node never has a leader, however often the node votes for itself. -/
theorem lone_node_never_leads {conf : Conf} (hmodel : conf.model = "cluster") {n : NodeConf}
    (hone : conf.nodes = [n]) {s : Network} (hr : (network conf).Reachable s) :
    (s.members n.id).nodeLeader = none ∧ (s.members n.id).isLeader = false := by
  have hids : conf.ids = [n.id] := by
    unfold Conf.ids
    rw [hone]
    rfl
  have hnd : conf.ids.Nodup := by
    rw [hids]
    exact List.nodup_singleton _
  have hsilent : Silent s := by
    refine hr.invariant Silent ?_ ?_
    · rintro s ⟨now, rfl⟩
      refine ⟨rfl, fun v w hw => ?_, fun v => (Cluster.fresh_create conf v now).leader⟩
      cases (Cluster.nodup_create conf v now).2.symm.trans hw
    · intro s e s' hx h _ hs
      have hmember : ∀ v, (member conf v).Reachable (s.members v) := fun v => member_reachable hx v
      cases steps_of_step hs with
      | @act _ v env a c out hid hacts =>
        have hatt := Cluster.attended_reachable (hmember v)
        have hall := nodesAll_of_reachable hnd (hmember v)
        -- every message goes to another node, and there is none
        have hout : out = [] := by
          rw [List.eq_nil_iff_forall_not_mem]
          intro m hm
          obtain ⟨hto, hne, -⟩ := (Cluster.acts_out hacts hm).1
          rw [hids, List.mem_singleton] at hid
          rw [hall, hids, List.mem_singleton] at hto
          exact hne (hto.trans (hid.symm.trans hatt.my.symm))
        subst hout
        have hnew := h.act (sound_of_reachable hmodel (hmember v)) hatt hacts
        exact ⟨by simp [Network.requests, hnew.packets], hnew.waits, hnew.leader⟩
      | receive s env p => exact absurd h.packets (Multiset.cons_ne_zero)
  refine ⟨hsilent.leader n.id, ?_⟩
  have hcoh := coherent_reachable (member_reachable hr n.id)
  unfold Cluster.isLeader
  rw [decide_eq_false_iff_not]
  intro hlead
  cases (hsilent.leader n.id).symm.trans (hcoh.leads hlead)

/-- A configuration of one node. -/
def oneNode : Conf where
  model := "cluster"
  nodeTimeout := 10
  nodes := [⟨"", "a", 1⟩]

/-- The node has counted its vote, which is more than half of all, and fights the next election. -/
theorem lone_node_never_leads_voted :
    ∃ s, (network oneNode).Reachable s ∧ (s.members "a:1").getMyNode.getVoteCount 1 = 1 ∧
      (s.members "a:1").getMyTerm = 2 ∧ (s.members "a:1").nodeLeader = none := by
  have hrun : ((network oneNode).run (Network.initial oneNode 0)
      (starts oneNode.ids ++ campaigns "a:1" 1 "u1" ++ [acts "a:1" "u2" (.fight (.getVote 1)),
        acts "a:1" "" (.fight (.confirm 1)), acts "a:1" "ask" (.fight .start)])).map
      (fun s => ((s.members "a:1").getMyNode.getVoteCount 1, (s.members "a:1").getMyTerm)) =
        some (1, 2) := by
    decide
  obtain ⟨s, hr, he⟩ := Machine.observed_of_run hrun ⟨0, rfl⟩
  obtain ⟨hcount, hterm⟩ := Prod.mk.inj he
  exact ⟨s, hr, hcount, hterm, (lone_node_never_leads (n := ⟨"", "a", 1⟩) rfl rfl hr).1⟩

end OwnX.Cluster
