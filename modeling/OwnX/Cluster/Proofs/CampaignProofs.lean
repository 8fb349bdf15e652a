import OwnX.Cluster.Proofs.UpkeepProofs
import OwnX.Cluster.Proofs.MajorityProofs
import OwnX.Cluster.Proofs.OriginProofs
import OwnX.Foundations.Proofs.PossibilityProofs

/-!
# Proofs: what a member without a leader can do alone

A member that has no leader and sees a majority can bring its election to an end and start the next one,
as often as it takes: it gets into a term that is later than any it has heard of, and has not voted
there.
-/

set_option linter.dupNamespace false

namespace OwnX.Cluster

/-- A step that a member takes without the others: a turn of its heartbeat or a stretch of an election. -/
def OwnStep : Cluster → Input → Prop
  | _, .act _ .heartbeat => True
  | _, .act _ (.fight _) => True
  | _, _ => False

namespace Cluster

variable {c c₀ c' : Cluster} {env : Env} {conf : Conf} {my : String} {b t u : Int} {P : Cluster → Prop}

/-! ## The votes -/

/-- No vote is known for a term after `b`, neither the own one nor one for the member. -/
def VotesUpTo (c : Cluster) (b : Int) : Prop :=
  ∀ t, b < t → c.getMyNode.getVoteToNode t = "" ∧ c.getMyNode.getVoteCount t = 0

theorem VotesUpTo.mono (h : c.VotesUpTo b) {b' : Int} (hle : b ≤ b') : c.VotesUpTo b' :=
  fun t ht => h t (lt_of_le_of_lt hle ht)

theorem VotesUpTo.of_getMyNode (h : c.VotesUpTo b)
    (hcount : c'.getMyNode.voteCount = c.getMyNode.voteCount)
    (hnode : c'.getMyNode.voteNode = c.getMyNode.voteNode) : c'.VotesUpTo b := by
  intro t ht
  unfold Node.getVoteToNode Node.getVoteCount
  rw [hcount, hnode]
  exact h t ht

/-- The own vote for a term that is not after `b`. -/
theorem VotesUpTo.voteForMyself (h : c.VotesUpTo b) (hu : u ≤ b) : (c.voteForMyself u).VotesUpTo b := by
  intro t ht
  have hne : t ≠ u := by omega
  obtain ⟨hnode, hcount⟩ := h t ht
  have hvote : ((c.getMyNode.voteToNode u c.nodeMy).1.getVoteToNode t = "") ∧
      ((c.getMyNode.voteToNode u c.nodeMy).1.getVoteCount t = 0) := by
    rcases voteToNode_cases c.getMyNode u c.nodeMy with hr | ⟨-, hr⟩
    · rw [hr]
      exact ⟨hnode, hcount⟩
    · rw [hr]
      refine ⟨?_, hcount⟩
      rw [getVoteToNode_insert, if_neg hne]
      exact hnode
  unfold Cluster.voteForMyself
  simp only
  rw [getMyNode_setNode, if_pos rfl]
  split_ifs
  · refine ⟨hvote.1, ?_⟩
    rw [getVoteCount_addVoteCount, if_neg hne, add_zero]
    exact hvote.2
  · exact hvote

theorem VotesUpTo.prune (h : c.VotesUpTo b) : (c.setNode c.nodeMy c.getMyNode.prune).VotesUpTo b := by
  intro t ht
  obtain ⟨hnode, hcount⟩ := h t ht
  rw [getMyNode_setNode, if_pos rfl]
  unfold Node.getVoteToNode Node.getVoteCount Node.prune at *
  simp only [lookup_pruneVotes]
  constructor
  · split_ifs
    · rfl
    · exact hnode
  · split_ifs
    · rfl
    · exact hcount

/-! ## A member on its way -/

/-- What elections leave alone of a member. -/
def setting (c : Cluster) : String × List String × Links × Bool × Bool :=
  (c.nodeMy, c.nodesAll, c.links, c.holding, c.closeOnce)

theorem hasMajority_of_setting (h : c'.setting = c.setting) : c'.hasMajority = c.hasMajority := by
  simp only [setting, Prod.mk.injEq] at h
  obtain ⟨-, hall, hlinks, -, -⟩ := h
  have halive : c'.nodesAlive = c.nodesAlive := congrArg Links.nodesAlive hlinks
  rw [Bool.eq_iff_iff, hasMajority_iff, hasMajority_iff, hall, halive]

/-- The member has no leader in the term `t`. Nothing has happened to the connections of `c₀`, and no
vote is known for a term after `b`. -/
structure Seeks (c₀ : Cluster) (b t : Int) (c : Cluster) : Prop where
  setting : c.setting = c₀.setting
  term : c.getMyTerm = t
  leader : c.nodeLeader = none
  status : c.status = .candidate ∨ c.status = .follower
  votes : c.VotesUpTo b

namespace Seeks

theorem mono (h : Seeks c₀ b t c) {b' : Int} (hle : b ≤ b') : Seeks c₀ b' t c :=
  { h with votes := h.votes.mono hle }

theorem majority (h : Seeks c₀ b t c) (hmaj : c₀.hasMajority = true) : c.hasMajority = true :=
  (hasMajority_of_setting h.setting).trans hmaj

theorem ne_closed (h : Seeks c₀ b t c) : ¬ (c.status = .closed ∨ c.status = .leader) := by
  rcases h.status with hst | hst
  · rw [hst]
    simp
  · rw [hst]
    simp

theorem setFights (h : Seeks c₀ b t c) (fs : List Fight) : Seeks c₀ b t (c.setFights fs) :=
  ⟨h.setting, h.term, h.leader, h.status, h.votes⟩

theorem goFight (h : Seeks c₀ b t c) (f : Fight) : Seeks c₀ b t (c.goFight f) :=
  ⟨h.setting, h.term, h.leader, h.status, h.votes⟩

theorem setFighting (h : Seeks c₀ b t c) (x : Bool) : Seeks c₀ b t (c.setFighting x) :=
  ⟨h.setting, h.term, h.leader, h.status, h.votes⟩

theorem setWait (h : Seeks c₀ b t c) (w : Option Wait) : Seeks c₀ b t (c.setWait w) :=
  ⟨h.setting, h.term, h.leader, h.status, h.votes⟩

theorem sendAndWait (h : Seeks c₀ b t c) (flag : Flag) (data : NodeMsg) :
    Seeks c₀ b t (c.sendAndWait env flag data).1 := h.setWait _

theorem setting_setNode {n : Node} (hconn : n.nodeConnector = c.getMyNode.nodeConnector) :
    (c.setNode c.nodeMy n).setting = c.setting := by
  have hlinks : (c.setNode c.nodeMy n).links = c.links := links_setNode hconn
  unfold Cluster.setting
  rw [hlinks]
  rfl

/-- A write to the own record that keeps the connector and the term. -/
theorem setMyNode (h : Seeks c₀ b t c) {n : Node} (hconn : n.nodeConnector = c.getMyNode.nodeConnector)
    (hterm : n.term = c.getMyNode.term) (hvotes : (c.setNode c.nodeMy n).VotesUpTo b) :
    Seeks c₀ b t (c.setNode c.nodeMy n) where
  setting := (setting_setNode hconn).trans h.setting
  term := by
    unfold getMyTerm
    rw [getMyNode_setNode, if_pos rfl, hterm]
    exact h.term
  leader := h.leader
  status := h.status
  votes := hvotes

theorem voteForMyself (h : Seeks c₀ b t c) (hu : u ≤ b) : Seeks c₀ b t (c.voteForMyself u) := by
  have hvotes := h.votes.voteForMyself hu
  unfold Cluster.voteForMyself at hvotes ⊢
  refine h.setMyNode ?_ ?_ hvotes
  · split_ifs
    · exact nodeConnector_voteToNode _ _ _
    · exact nodeConnector_voteToNode _ _ _
  · split_ifs
    · exact term_voteToNode _ _ _
    · exact term_voteToNode _ _ _

theorem clear (h : Seeks c₀ b t c) : Seeks c₀ b t (c.setNode c.nodeMy c.getMyNode.clear) := by
  refine h.setMyNode rfl rfl (h.votes.of_getMyNode ?_ ?_)
  · rw [getMyNode_setNode, if_pos rfl]
    rfl
  · rw [getMyNode_setNode, if_pos rfl]
    rfl

end Seeks

/-- The member is about to start an election. -/
structure Poised (c₀ : Cluster) (b t : Int) (c : Cluster) : Prop where
  seeks : Seeks c₀ b t c
  fighting : c.fighting = false
  start : .start ∈ c.fights

/-- The election is over: the member leads, or is about to start the next one. -/
def Ended (c₀ : Cluster) (b t : Int) (c : Cluster) : Prop := c.isLeader = true ∨ Poised c₀ b t c

namespace Seeks

theorem ended_finishFight (h : Seeks c₀ b t c) : Ended c₀ b t (c.finishFight true) :=
  Or.inr ⟨(h.setFighting false).goFight .start, rfl, List.mem_append_right _ (List.mem_singleton_self _)⟩

/-- A member whose broadcast is confirmed signs itself, and leads. -/
theorem isLeader_confirmLeader (h : Seeks c₀ b t c) (hconf : confirmed c.returnWait.2 = true) :
    c.confirmLeader.isLeader = true := by
  have hsign : c.returnWait.1.signLeader c.nodeMy = (c.returnWait.1.setLeader c.nodeMy, true) := by
    have hown : (c.returnWait.1.nodes c.nodeMy).term = c.returnWait.1.getMyTerm := rfl
    have hnone : c.returnWait.1.nodeLeader = none := h.leader
    unfold signLeader
    simp only [hown, lt_irrefl, if_false]
    rw [hnone]
  have hst : ((c.returnWait.1.setLeader c.nodeMy).finishFight false).status = .leader := if_pos rfl
  unfold confirmLeader
  simp only
  rw [if_pos hconf, hsign]
  unfold isLeader
  rw [decide_eq_true_iff]
  exact hst

theorem ended_confirmLeader (h : Seeks c₀ b t c) : Ended c₀ b t c.confirmLeader := by
  by_cases hconf : confirmed c.returnWait.2 = true
  · exact Or.inl (h.isLeader_confirmLeader hconf)
  · have hfail : c.confirmLeader = c.returnWait.1.finishFight true := if_neg hconf
    rw [hfail]
    exact (h.setWait none).ended_finishFight

end Seeks

/-! ## The end of an election -/

/-- A blocked invocation goes on. -/
theorem canReach_fight {f : Fight} (hf : f ∈ c.fights) (env : Env)
    (h : (member conf my).CanReach OwnStep
      ((c.setFights (c.fights.erase f)).fightElection env f).1 P) :
    (member conf my).CanReach OwnStep c P := by
  have hs : (member conf my).step c (.act env (.fight f)) =
      some ((c.setFights (c.fights.erase f)).fightElection env f).1 := by
    show ((c.act env (.fight f)).map Prod.fst) = _
    rw [act, runFight, if_pos hf]
    rfl
  have hok : OwnStep c (.act env (.fight f)) := trivial
  exact .next hok hs h

/-- The invocation that has just been blocked goes on. -/
theorem canReach_goFight {f : Fight} (env : Env)
    (h : ∀ fs, (member conf my).CanReach OwnStep ((c.setFights fs).fightElection env f).1 P) :
    (member conf my).CanReach OwnStep (c.goFight f) P :=
  canReach_fight (List.mem_append_right _ (List.mem_singleton_self f)) env (h _)

/-- The surroundings of a step whose messages are all lost. -/
def unheard : Env where
  now := 0
  uuid := ""
  writeOk := fun _ => false

namespace Seeks

theorem canEnd_countVotes (h : Seeks c₀ b t c) (hu : u ≤ b) :
    (member conf my).CanReach OwnStep (c.countVotes env u).1 (Ended c₀ b t) := by
  have hself : Seeks c₀ b t (c.returnWait.1.voteForMyself u) := (h.setWait none).voteForMyself hu
  unfold countVotes
  simp only
  split_ifs
  · refine canReach_goFight unheard fun fs => .here ?_
    exact ((hself.sendAndWait _ _).setFights fs).ended_confirmLeader
  · exact .here hself.ended_finishFight

theorem canEnd_voteLoop (h : Seeks c₀ b t c) (hmaj : c₀.hasMajority = true) (hu : u ≤ b) :
    (member conf my).CanReach OwnStep (c.voteLoop env u).1 (Ended c₀ b t) := by
  unfold voteLoop
  rw [h.leader, h.majority hmaj]
  simp only [Option.isSome_none, Bool.false_eq_true, if_false, if_true]
  split_ifs
  · exact .here h.ended_finishFight
  · exact .here h.ended_finishFight
  · exact canReach_goFight unheard fun fs => ((h.sendAndWait _ _).setFights fs).canEnd_countVotes hu

theorem candidate (h : Seeks c₀ b t c) :
    Seeks c₀ b t (if c.status = .follower then c.setStatus .candidate else c) := by
  split_ifs
  · exact ⟨h.setting, h.term, h.leader, Or.inl rfl, h.votes⟩
  · exact h

theorem canEnd_becomeCandidate (h : Seeks c₀ b t c) (hmaj : c₀.hasMajority = true) (hu : u ≤ b) :
    (member conf my).CanReach OwnStep (c.becomeCandidate env u).1 (Ended c₀ b t) := by
  unfold becomeCandidate
  rw [h.leader, if_neg (by simp), if_neg h.ne_closed]
  exact h.candidate.clear.canEnd_voteLoop hmaj hu

theorem canEnd_waitOnline (h : Seeks c₀ b t c) (hmaj : c₀.hasMajority = true) (hu : u ≤ b) :
    (member conf my).CanReach OwnStep (c.waitOnline env u).1 (Ended c₀ b t) := by
  unfold waitOnline
  rw [h.leader, h.majority hmaj]
  simp only [Option.isSome_none, Bool.false_eq_true, if_false, if_true]
  refine canReach_goFight unheard fun fs => ?_
  refine canReach_goFight unheard fun fs' => ?_
  exact ((((h.sendAndWait _ _).setFights fs).setWait none).setFights fs').canEnd_becomeCandidate hmaj hu

/-- An invocation that is past the flag can come to its end. -/
theorem canEnd (h : Seeks c₀ b t c) (hmaj : c₀.hasMajority = true) {f : Fight} (hf : f ∈ c.fights)
    (hterm : f.term = some u) (hu : u ≤ b) :
    (member conf my).CanReach OwnStep c (Ended c₀ b t) := by
  refine canReach_fight hf unheard ?_
  have hrest : Seeks c₀ b t (c.setFights (c.fights.erase f)) := h.setFights _
  cases f with
  | start => cases hterm
  | online v =>
    cases hterm
    exact hrest.canEnd_waitOnline hmaj hu
  | askLeader v =>
    cases hterm
    refine canReach_goFight unheard fun fs => ?_
    exact ((hrest.setWait none).setFights fs).canEnd_becomeCandidate hmaj hu
  | settle v =>
    cases hterm
    exact hrest.canEnd_becomeCandidate hmaj hu
  | vote v =>
    cases hterm
    exact hrest.canEnd_voteLoop hmaj hu
  | getVote v =>
    cases hterm
    exact hrest.canEnd_countVotes hu
  | confirm v => exact .here hrest.ended_confirmLeader

end Seeks

/-! ## The next election -/

/-- The member enters the next term. -/
def enterNext (c : Cluster) : Cluster :=
  (c.setFighting true).setNode c.nodeMy (c.getMyNode.setTerm c.nextTerm).1

theorem getMyNode_enterNext : c.enterNext.getMyNode = (c.getMyNode.setTerm c.nextTerm).1 :=
  if_pos rfl

/-- The next term of a member that is in the term `t`, which is not the last one. -/
theorem Seeks.nextTerm_eq (h : Seeks c₀ b t c) (hpos : 0 ≤ t) (hleft : t < 2 ^ 63 - 1) :
    c.nextTerm = t + 1 := by
  rw [← h.term] at hpos hleft ⊢
  exact nextTerm_of_lt hpos hleft

theorem Seeks.enterNext (h : Seeks c₀ b t c) (hpos : 0 ≤ t) (hleft : t < 2 ^ 63 - 1) :
    Seeks c₀ b (t + 1) c.enterNext where
  setting := by
    have hset : c.enterNext.setting = (c.setFighting true).setting :=
      setting_setNode (c := c.setFighting true) (nodeConnector_setTerm _ _)
    exact hset.trans h.setting
  term := by
    have hmax := (setTerm_votes c.getMyNode c.nextTerm).2.2
    have hterm : c.getMyNode.term = t := h.term
    unfold getMyTerm
    rw [getMyNode_enterNext, hmax, h.nextTerm_eq hpos hleft, hterm]
    omega
  leader := h.leader
  status := h.status
  votes := by
    obtain ⟨hcount, hnode, -⟩ := setTerm_votes c.getMyNode c.nextTerm
    refine h.votes.of_getMyNode ?_ ?_
    · rw [getMyNode_enterNext]
      exact hcount
    · rw [getMyNode_enterNext]
      exact hnode

/-- An invocation that passes the flag goes on to its first loop. -/
theorem startFight_passes (h : Seeks c₀ b t c) (hfree : c.fighting = false) (hpos : 0 ≤ t)
    (hleft : t < 2 ^ 63 - 1) (env : Env) :
    c.startFight env = c.enterNext.waitOnline env (t + 1) := by
  have hpass : c.passesFlag (.act env (.fight .start)) = true := by
    have hopen := h.ne_closed
    simp only [not_or] at hopen
    simp [passesFlag, h.leader, hfree, hopen]
  have hnext := h.nextTerm_eq hpos hleft
  have hlater : c.getMyTerm < c.nextTerm := by
    rw [hnext, h.term]
    omega
  rw [startFight_enter env hpass, if_pos hlater, hnext, enterNext, hnext]

namespace Poised

/-- An election that fails takes the member to the next term. -/
theorem canEnd (h : Poised c₀ b t c) (hmaj : c₀.hasMajority = true) (hpos : 0 ≤ t)
    (hleft : t < 2 ^ 63 - 1) :
    (member conf my).CanReach OwnStep c (Ended c₀ (max b (t + 1)) (t + 1)) := by
  refine canReach_fight h.start unheard ?_
  have hrest : Seeks c₀ b t (c.setFights (c.fights.erase .start)) := h.seeks.setFights _
  have henter := hrest.enterNext hpos hleft
  show (member conf my).CanReach OwnStep ((c.setFights (c.fights.erase .start)).startFight unheard).1 _
  rw [startFight_passes hrest h.fighting hpos hleft]
  exact (henter.mono (le_max_left _ _)).canEnd_waitOnline hmaj (le_max_right _ _)

/-- Elections that fail take the member as far as one likes, up to the last term. -/
theorem canRise (hmaj : c₀.hasMajority = true) (h : Poised c₀ b t c) (hpos : 0 ≤ t) (n : Nat)
    (hleft : t + n ≤ 2 ^ 63 - 1) :
    (member conf my).CanReach OwnStep c (Ended c₀ (max b (t + n)) (t + n)) := by
  induction n with
  | zero =>
    refine .here (Or.inr ?_)
    have hseeks := h.seeks.mono (le_max_left b (t + (0 : Nat)))
    exact ⟨{ hseeks with term := by rw [hseeks.term]; simp }, h.fighting, h.start⟩
  | succ n ih =>
    rw [Int.natCast_succ] at hleft
    refine (ih (by omega)).bind fun c' _ hc' => ?_
    rcases hc' with hlead | hpoised
    · exact .here (Or.inl hlead)
    · refine (hpoised.canEnd hmaj (by omega) (by omega)).mono fun c'' hc'' => ?_
      have hterm : t + (n : Int) + 1 = t + ((n + 1 : Nat) : Int) := by push_cast; omega
      have hbound : max (max b (t + (n : Int))) (t + (n : Int) + 1) =
          max b (t + ((n + 1 : Nat) : Int)) := by
        omega
      rw [hterm] at hbound hc''
      rw [hbound] at hc''
      exact hc''

/-- The member asks for the leader, and hears nothing. -/
theorem canSettle (h : Poised c₀ b t c) (hmaj : c₀.hasMajority = true) (hpos : 0 ≤ t)
    (hleft : t < 2 ^ 63 - 1) :
    (member conf my).CanReach OwnStep c fun c' =>
      Seeks c₀ b (t + 1) c' ∧ .settle (t + 1) ∈ c'.fights := by
  refine canReach_fight h.start unheard ?_
  have hrest : Seeks c₀ b t (c.setFights (c.fights.erase .start)) := h.seeks.setFights _
  have henter := hrest.enterNext hpos hleft
  show (member conf my).CanReach OwnStep ((c.setFights (c.fights.erase .start)).startFight unheard).1 _
  rw [startFight_passes hrest h.fighting hpos hleft]
  unfold waitOnline
  rw [henter.leader, henter.majority hmaj]
  simp only [Option.isSome_none, Bool.false_eq_true, if_false, if_true]
  refine canReach_goFight unheard fun fs => .here ⟨?_, ?_⟩
  · exact (((henter.sendAndWait _ _).setFights fs).setWait none).goFight _
  · exact List.mem_append_right _ (List.mem_singleton_self _)

end Poised

/-! ## From any state without a leader -/

/-- The member has been started, and has not been closed. -/
def Running (c : Cluster) : Prop := c.holding = true ∧ c.closeOnce = false

theorem seeks_of_leaderless (hr : (member conf my).Reachable c) (hrun : c.Running)
    (hleader : c.nodeLeader = none) (hb : c.VotesUpTo b) : Seeks c b c.getMyTerm c where
  setting := rfl
  term := rfl
  leader := hleader
  status := by
    have hup := upkeep_reachable hr
    have hopen := hup.open_ hrun.2
    have hstarted := hup.started hrun.1
    cases hst : c.status with
    | candidate => exact Or.inl rfl
    | follower => exact Or.inr rfl
    | leader => cases hleader.symm.trans ((coherent_reachable hr).leads hst)
    | closed => exact absurd hst hopen
    | init => exact absurd hst hstarted
  votes := hb

/-- The tick of a member that has had no leader for too long. -/
theorem poised_heartbeat (h : Seeks c b t c) (hbeat : c.beating = true) (hfree : c.fighting = false) :
    ∃ env c', c.heartbeat env = some (c', []) ∧ Poised c b t c' := by
  have hready : c.isReady = true := by
    unfold isReady
    rcases h.status with hst | hst
    · rw [hst, hfree]
      rfl
    · rw [hst, hfree]
      rfl
  have hfollow : c.isLeader = false := by
    unfold isLeader
    rw [decide_eq_false_iff_not]
    exact fun hst => h.ne_closed (Or.inr hst)
  have htick : c.heartbeatFollower ⟨c.lostLeaderTime + 7, "", fun _ => false⟩ =
      c.toNextTerm (c.lostLeaderTime + 7) := by
    unfold heartbeatFollower
    rw [h.leader]
    exact if_pos (by simp only; omega)
  have hnext : Seeks c b t (c.toNextTerm (c.lostLeaderTime + 7)) :=
    ⟨h.setting, h.term, rfl, Or.inr rfl, h.votes⟩
  have hbeats : c.heartbeat ⟨c.lostLeaderTime + 7, "", fun _ => false⟩ =
      some ((c.toNextTerm (c.lostLeaderTime + 7)).setNode c.nodeMy c.getMyNode.prune, []) := by
    unfold heartbeat
    rw [if_pos hbeat, if_pos hready, hfollow, htick]
    rfl
  refine ⟨_, _, hbeats, ?_, hfree, List.mem_append_right _ (List.mem_singleton_self _)⟩
  exact hnext.setMyNode rfl rfl hnext.votes.prune

/-- A member without a leader can bring its election to an end, or start one. -/
theorem canEnd_of_leaderless (hr : (member conf my).Reachable c) (hrun : c.Running)
    (hleader : c.nodeLeader = none) (hmaj : c.hasMajority = true) (hb : c.VotesUpTo b)
    (hterm : c.getMyTerm ≤ b) :
    (member conf my).CanReach OwnStep c (Ended c b c.getMyTerm) := by
  have hseeks := seeks_of_leaderless hr hrun hleader hb
  cases hfree : c.fighting with
  | true =>
    -- the invocation that holds the flag is blocked somewhere
    obtain ⟨u, hheld⟩ := (attended_reachable hr).held
    unfold HeldBy at hheld
    rw [hfree, if_pos rfl] at hheld
    have hmem : u ∈ c.contests := by
      rw [hheld]
      exact List.mem_singleton_self u
    obtain ⟨f, hf, hfu⟩ := List.mem_filterMap.1 hmem
    exact hseeks.canEnd hmaj hf hfu ((contests_le hr hmem).trans hterm)
  | false =>
    obtain ⟨env, c', hbeat, hpoised⟩ :=
      poised_heartbeat hseeks ((upkeep_reachable hr).beats hrun.1 hrun.2) hfree
    have hs : (member conf my).step c (.act env .heartbeat) = some c' := by
      show ((c.act env .heartbeat).map Prod.fst) = _
      rw [act, hbeat]
      rfl
    have hok : OwnStep c (.act env .heartbeat) := trivial
    exact .next hok hs (.here (Or.inr hpoised))

/-- A member without a leader can get into a later term than `T` and be about to vote there, unless it
becomes the leader on the way. -/
theorem canCampaign (hr : (member conf my).Reachable c) (hrun : c.Running)
    (hleader : c.nodeLeader = none) (hmaj : c.hasMajority = true) {T : Int} (hb : c.VotesUpTo T)
    (hterm : c.getMyTerm ≤ T) (hleft : T < 2 ^ 63 - 1) :
    (member conf my).CanReach OwnStep c fun c' => c'.isLeader = true ∨
      Seeks c T (T + 1) c' ∧ .settle (T + 1) ∈ c'.fights := by
  have hpos : 0 ≤ c.getMyTerm := getMyTerm_nonneg hr
  refine (canEnd_of_leaderless hr hrun hleader hmaj hb hterm).bind fun c₁ _ h₁ => ?_
  rcases h₁ with hlead | hpoised
  · exact .here (Or.inl hlead)
  · -- far enough for the votes known
    obtain ⟨n, hn⟩ : ∃ n : Nat, T = c.getMyTerm + n := ⟨(T - c.getMyTerm).toNat, by omega⟩
    refine (hpoised.canRise hmaj hpos n (by omega)).bind fun c₂ _ h₂ => ?_
    rcases h₂ with hlead | hfar
    · exact .here (Or.inl hlead)
    · rw [← hn, max_self] at hfar
      exact (hfar.canSettle hmaj (by omega) hleft).mono fun c₃ h₃ => Or.inr h₃

end Cluster

end OwnX.Cluster
