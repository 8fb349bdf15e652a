import OwnX.Cluster.Links
import OwnX.Cluster.Proofs.ContactProofs

/-!
# Proofs: the goroutines of a member

What each step does to the invocations of `fightElection` and to the connections. A stretch of an
invocation that is past the flag blocks at a place that comes next, or gives the flag back, and leaves
the connections alone. No other step touches these invocations, and a message touches neither.
-/

set_option linter.dupNamespace false

namespace OwnX.Cluster

/-- The places at which an invocation of `fightElection` may block next. -/
def Fight.next : Fight → List Fight
  | .start => []
  | .online currentTerm => [.online currentTerm, .askLeader currentTerm]
  | .askLeader currentTerm => [.settle currentTerm]
  | .settle currentTerm => [.vote currentTerm, .getVote currentTerm]
  | .vote currentTerm => [.vote currentTerm, .getVote currentTerm]
  | .getVote currentTerm => [.confirm currentTerm]
  | .confirm _ => []

/-- An invocation keeps its term. -/
theorem Fight.term_of_mem_next {f g : Fight} (h : g ∈ f.next) : g.term = f.term ∧ g ≠ .start := by
  cases f <;> simp only [Fight.next, List.mem_cons, List.not_mem_nil, or_false] at h
  case online | settle | vote =>
    rcases h with rfl | rfl
    · exact ⟨rfl, nofun⟩
    · exact ⟨rfl, nofun⟩
  case askLeader | getVote =>
    subst h
    exact ⟨rfl, nofun⟩

/-- The goroutines of a member and its connections. -/
structure Workings where
  model : Model
  links : Links
  fighting : Bool
  /-- The invocations of `fightElection` that are past the flag. -/
  invocations : List Fight

namespace Cluster

variable {c c' : Cluster} {env : Env} {t : Int}

/-- The invocations of `fightElection` that are past the flag. -/
def invocations (c : Cluster) : List Fight := c.fights.filter (· ≠ .start)

def workings (c : Cluster) : Workings where
  model := c.model
  links := c.links
  fighting := c.fighting
  invocations := c.invocations

/-! ## The records of the nodes -/

theorem links_setNode_eq (c : Cluster) (id : String) (n : Node) :
    (c.setNode id n).links = c.links.setConnector id n.nodeConnector := by
  ext1
  case nodeConnector =>
    funext i
    show ((c.setNode id n).nodes i).nodeConnector = _
    rw [setNode_nodes]
    simp only [Links.setConnector_nodeConnector]
    split_ifs <;> rfl
  all_goals rfl

/-- A write that leaves the connector of the record. -/
theorem links_setNode {id : String} {n : Node} (h : n.nodeConnector = (c.nodes id).nodeConnector) :
    (c.setNode id n).links = c.links := by
  rw [links_setNode_eq, h]
  ext1
  case nodeConnector =>
    funext i
    simp only [Links.setConnector_nodeConnector]
    split_ifs with hi
    · rw [hi]
      rfl
    · rfl
  all_goals rfl

theorem workings_setNode {id : String} {n : Node}
    (h : n.nodeConnector = (c.nodes id).nodeConnector) : (c.setNode id n).workings = c.workings := by
  unfold workings
  rw [links_setNode h]
  rfl

theorem nodeConnector_setTerm (n : Node) (t : Int) :
    (n.setTerm t).1.nodeConnector = n.nodeConnector := by
  unfold Node.setTerm
  split_ifs <;> rfl

theorem nodeConnector_voteToNode (n : Node) (t : Int) (id : String) :
    (n.voteToNode t id).1.nodeConnector = n.nodeConnector := by
  rcases voteToNode_cases n t id with h | ⟨-, h⟩
  · rw [h]
  · rw [h]

/-! ## The messages -/

@[simp] theorem workings_signLeader (id : String) :
    (c.signLeader id).1.workings = c.workings := by
  rcases signLeader_cases c id with ⟨h, -⟩ | ⟨h, -⟩ | ⟨h, -⟩
  · rw [h]
  · rw [h]
  · rw [h]
    rfl

@[simp] theorem workings_deliver (m : NodeMsg) : (c.deliver m).workings = c.workings := by
  unfold deliver
  split
  · rfl
  · split_ifs <;> rfl

theorem workings_cacheNode (id : String) (t : Int) :
    (c.cacheNode env id t).workings = c.workings := by
  unfold cacheNode
  split_ifs
  · exact workings_setNode (nodeConnector_setTerm _ _)
  · rfl

theorem workings_recordMsg (m : NodeMsg) : (c.recordMsg env m).workings = c.workings := by
  unfold recordMsg
  simp only [workings_cacheNode]
  exact workings_setNode (nodeConnector_setTerm _ _)

theorem workings_enterTerm (m : NodeMsg) : (c.enterTerm env m).workings = c.workings := by
  unfold enterTerm
  rw [workings_recordMsg]
  split_ifs <;> rfl

theorem workings_acceptorReceived (c : Cluster) (env : Env) (flag : Flag) (m : NodeMsg) :
    (c.acceptorReceived env flag m).1.workings = c.workings := by
  cases flag with
  | sGetVote =>
    unfold acceptorReceived onGetVote
    simp only
    rw [workings_setNode]
    · split_ifs <;> rfl
    · exact nodeConnector_voteToNode _ _ _
  | sBroadcastLeader =>
    have henter : (c.enterTerm env m).workings = c.workings := workings_enterTerm m
    show (c.onBroadcastLeader env m).1.workings = c.workings
    rcases (onBroadcastLeader_cases c env m).1 with ⟨-, h⟩ | ⟨-, ⟨h, -⟩ | ⟨h, -⟩⟩
    · rw [h]
    · rw [h, henter]
    · rw [h, workings_signLeader, henter]
  | _ => rfl

theorem workings_nodeReceived (c : Cluster) (env : Env) (flag : Flag) (m : NodeMsg) :
    (c.nodeReceived env flag m).workings = c.workings := by
  have hrec : (c.recordMsg env m).workings = c.workings := workings_recordMsg m
  unfold nodeReceived
  split_ifs
  · rfl
  · cases flag with
    | rAskLeader =>
      show ((c.recordMsg env m).onAskLeaderReply m).workings = _
      rw [← hrec]
      unfold onAskLeaderReply
      simp only
      split_ifs <;> simp
    | rGetVote =>
      show ((c.recordMsg env m).onGetVoteReply m).workings = _
      rw [← hrec]
      unfold onGetVoteReply
      simp only [workings_deliver]
      split_ifs
      · exact workings_setNode rfl
      · rfl
    | rLeader =>
      show ((c.recordMsg env m).onLeaderReply env m).workings = _
      rw [← hrec]
      unfold onLeaderReply
      simp only [workings_deliver]
      split_ifs <;> rfl
    | _ => exact hrec

/-- A message leaves the elections and the connections alone. -/
theorem workings_receive (c : Cluster) (env : Env) (request : Bool) (flag : Flag) (m : NodeMsg) :
    (c.receive env request flag m).workings = c.workings := by
  unfold receive
  split_ifs
  · exact workings_acceptorReceived c env flag m
  · exact workings_nodeReceived c env flag m

theorem ids_receive (c : Cluster) (env : Env) (request : Bool) (flag : Flag) (m : NodeMsg) :
    (c.receive env request flag m).nodeMy = c.nodeMy ∧
      (c.receive env request flag m).nodesAll = c.nodesAll := by
  unfold receive
  split_ifs
  · exact ids_acceptorReceived flag m
  · exact ids_nodeReceived flag m

/-! ## The steps that are no election -/

/-- The step leaves the elections alone. -/
structure SameElections (c c' : Cluster) : Prop where
  model : c'.model = c.model
  fighting : c'.fighting = c.fighting
  invocations : c'.invocations = c.invocations

theorem SameElections.trans {c'' : Cluster} (h : SameElections c c') (h' : SameElections c' c'') :
    SameElections c c'' where
  model := h'.model.trans h.model
  fighting := h'.fighting.trans h.fighting
  invocations := h'.invocations.trans h.invocations

theorem SameElections.of_workings (h : c'.workings = c.workings) : SameElections c c' where
  model := congrArg Workings.model h
  fighting := congrArg Workings.fighting h
  invocations := congrArg Workings.invocations h

theorem workings_goFight_start (c : Cluster) : (c.goFight .start).workings = c.workings := by
  have hsame : (c.goFight .start).invocations = c.invocations := by
    unfold invocations
    rw [goFight_fights, List.filter_append]
    exact List.append_nil _
  unfold workings
  rw [hsame]
  rfl

@[simp] theorem workings_toNextTerm (now : Int) : (c.toNextTerm now).workings = c.workings :=
  workings_goFight_start (c.releaseLeader now)

theorem workings_startUp : c.startUp.workings = c.workings := by
  unfold startUp
  split
  · exact workings_signLeader _
  · split_ifs
    · rfl
    · exact workings_goFight_start _

theorem sameElections_closeConnector (id : String) : SameElections c (c.closeConnector id) := by
  unfold closeConnector
  split <;> exact ⟨rfl, rfl, rfl⟩

theorem sameElections_close : SameElections c c.close := by
  unfold close
  split_ifs
  · exact .of_workings rfl
  · refine List.foldlRecOn (motive := SameElections c) _ _ ⟨rfl, rfl, rfl⟩ fun c' hc id _ => ?_
    exact (hc.trans (sameElections_closeConnector id)).trans ⟨rfl, rfl, rfl⟩

theorem sameElections_heartbeatLeader : SameElections c (c.heartbeatLeader env).1 :=
  List.foldlRecOn (motive := SameElections c) _ _ ⟨rfl, rfl, rfl⟩ fun _ hc id _ =>
    hc.trans (sameElections_closeConnector id)

theorem sameElections_heartbeatFollower : SameElections c (c.heartbeatFollower env) := by
  unfold heartbeatFollower
  split
  · split_ifs
    · exact sameElections_closeConnector _
    · exact .of_workings (workings_toNextTerm _)
    · exact .of_workings rfl
  · split_ifs
    · exact .of_workings (workings_toNextTerm _)
    · exact .of_workings rfl

theorem sameElections_onSessionClosed (id : String) : SameElections c (c.onSessionClosed env id) := by
  unfold onSessionClosed
  simp only
  generalize hc : (c.setNode id _).setAlive _ = c₁
  have hset : SameElections c c₁ := by
    rw [← hc]
    exact ⟨rfl, rfl, rfl⟩
  have hnext : SameElections c (c₁.toNextTerm env.now) :=
    hset.trans (.of_workings (workings_toNextTerm _))
  split_ifs
  · exact hset
  · exact hnext
  · exact hset
  · exact hset
  · exact hset
  · exact hnext

/-- A step that is no stretch of `fightElection` leaves the elections alone. -/
theorem Acts.sameElections {a : Action} {out : Out} (h : Acts env c a c' out)
    (ha : ∀ f, a ≠ .fight f) : SameElections c c' := by
  cases h with
  | startUp => exact .of_workings workings_startUp
  | close => exact sameElections_close
  | connect h =>
    simp only [Cluster.connect, Option.ite_none_right_eq_some, Option.some.injEq] at h
    obtain ⟨-, rfl⟩ := h
    exact ⟨rfl, rfl, rfl⟩
  | assignConnector h =>
    obtain ⟨r, -, rfl⟩ := Option.map_eq_some_iff.mp h
    exact ⟨rfl, rfl, rfl⟩
  | readFail => exact ⟨rfl, rfl, rfl⟩
  | readStop => exact ⟨rfl, rfl, rfl⟩
  | callback id pending =>
    have hclosed : SameElections (c.setConns c.conns pending)
      ((c.setConns c.conns pending).onSessionClosed env id) := sameElections_onSessionClosed id
    exact ⟨hclosed.model, hclosed.fighting, hclosed.invocations⟩
  | leads => exact sameElections_heartbeatLeader.trans ⟨rfl, rfl, rfl⟩
  | follows => exact sameElections_heartbeatFollower.trans ⟨rfl, rfl, rfl⟩
  | idle => exact ⟨rfl, rfl, rfl⟩
  | fight => exact absurd rfl (ha _)

/-! ## The stretches of an election -/

/-- What a stretch leaves of its invocation: the flag is given back, or the invocation blocks at one
of the places. -/
def Leaves (c c' : Cluster) (places : List Fight) : Prop :=
  c'.workings = { c.workings with fighting := false } ∨
    ∃ f ∈ places, c'.workings = { c.workings with invocations := c.invocations ++ [f] }

theorem workings_goFight {f : Fight} (hf : f ≠ .start) :
    (c.goFight f).workings = { c.workings with invocations := c.invocations ++ [f] } := by
  have hmore : (c.goFight f).invocations = c.invocations ++ [f] := by
    unfold invocations
    rw [goFight_fights, List.filter_append]
    simp [hf]
  unfold workings
  rw [hmore]
  rfl

theorem workings_finishFight (b : Bool) :
    (c.finishFight b).workings = { c.workings with fighting := false } := by
  unfold finishFight
  simp only
  split_ifs
  · exact workings_goFight_start _
  · rfl

theorem leaves_finishFight (b : Bool) (places : List Fight) : c.Leaves (c.finishFight b) places :=
  Or.inl (workings_finishFight b)

theorem leaves_goFight {f : Fight} {places : List Fight} (hf : f ∈ places) (hne : f ≠ .start) :
    c.Leaves (c.goFight f) places :=
  Or.inr ⟨f, hf, workings_goFight hne⟩

theorem leaves_of_workings {c₁ : Cluster} {places : List Fight} (h : c₁.workings = c.workings)
    (hl : c₁.Leaves c' places) : c.Leaves c' places := by
  have hinv : c₁.invocations = c.invocations := congrArg Workings.invocations h
  unfold Leaves at hl
  rw [h, hinv] at hl
  exact hl

theorem leaves_waitOnline : c.Leaves (c.waitOnline env t).1 (Fight.online t).next := by
  unfold waitOnline
  split_ifs
  · exact leaves_finishFight _ _
  · exact leaves_goFight (by simp [Fight.next]) nofun
  · exact leaves_goFight (by simp [Fight.next]) nofun

theorem leaves_voteLoop : c.Leaves (c.voteLoop env t).1 (Fight.vote t).next := by
  unfold voteLoop
  split_ifs
  · exact leaves_finishFight _ _
  · exact leaves_finishFight _ _
  · exact leaves_finishFight _ _
  · exact leaves_goFight (by simp [Fight.next]) nofun
  · exact leaves_goFight (by simp [Fight.next]) nofun

theorem leaves_becomeCandidate : c.Leaves (c.becomeCandidate env t).1 (Fight.settle t).next := by
  unfold becomeCandidate
  split_ifs
  · exact leaves_finishFight _ _
  · exact leaves_finishFight _ _
  · refine leaves_of_workings ?_ leaves_voteLoop
    exact workings_setNode rfl
  · refine leaves_of_workings ?_ leaves_voteLoop
    exact workings_setNode rfl

theorem workings_voteForMyself (t : Int) : (c.voteForMyself t).workings = c.workings := by
  have hvote := nodeConnector_voteToNode c.getMyNode t c.nodeMy
  apply workings_setNode
  split_ifs
  · exact hvote
  · exact hvote

/-- An invocation waits for the confirmation only with enough votes. -/
theorem countVotes_cases (c : Cluster) (env : Env) (t : Int) :
    (c.countVotes env t).1.workings = { c.workings with fighting := false } ∨
    (c.countVotes env t).1.workings =
        { c.workings with invocations := c.invocations ++ [.confirm t] } ∧
      (((c.countVotes env t).1.getAllNodeNames.length / 2 : Nat) : Int) <
        (c.countVotes env t).1.getMyNode.getVoteCount t := by
  have hself : (c.returnWait.1.voteForMyself t).workings = c.workings := workings_voteForMyself t
  have hinv : (c.returnWait.1.voteForMyself t).invocations = c.invocations :=
    congrArg Workings.invocations hself
  unfold countVotes
  simp only
  split_ifs with hw
  · right
    simp only [wonVote, Bool.and_eq_true, decide_eq_true_eq] at hw
    refine ⟨?_, hw.1.1⟩
    refine (workings_goFight (f := .confirm t) nofun).trans ?_
    show ({ (c.returnWait.1.voteForMyself t).workings with
      invocations := (c.returnWait.1.voteForMyself t).invocations ++ _ } : Workings) = _
    rw [hself, hinv]
  · left
    rw [workings_finishFight, hself]

theorem workings_confirmLeader :
    c.confirmLeader.workings = { c.workings with fighting := false } := by
  unfold confirmLeader
  simp only
  split_ifs
  · rw [workings_finishFight, workings_signLeader]
    rfl
  · rw [workings_finishFight]
    rfl

/-- An invocation past the flag goes on. -/
theorem leaves_fightElection {f : Fight} (hf : f ≠ .start) :
    c.Leaves (c.fightElection env f).1 f.next := by
  cases f with
  | start => exact absurd rfl hf
  | online t => exact leaves_waitOnline
  | askLeader t => exact leaves_goFight (by simp [Fight.next]) nofun
  | settle t => exact leaves_becomeCandidate
  | vote t => exact leaves_voteLoop
  | getVote t =>
    rcases countVotes_cases c env t with h | ⟨h, -⟩
    · exact Or.inl h
    · exact Or.inr ⟨_, by simp [Fight.next], h⟩
  | confirm t => exact Or.inl workings_confirmLeader

theorem passesFlag_of_ne {a : Action} (ha : a ≠ .fight .start) :
    c.passesFlag (.act env a) = false := by
  cases a with
  | fight f =>
    cases f with
    | start => exact absurd rfl ha
    | _ => rfl
  | _ => rfl

/-- An invocation that does not pass the flag leaves the member as it is. -/
theorem startFight_skip (h : c.passesFlag (.act env (.fight .start)) = false) :
    c.startFight env = (c, []) := by
  simp only [passesFlag, Bool.and_eq_false_iff, Bool.not_eq_false', Bool.or_eq_true,
    decide_eq_true_eq, Option.isNone_eq_false_iff] at h
  unfold startFight
  rcases h with (hst | hl) | hf
  · rw [if_pos hst]
  · split_ifs <;> rfl
  · split_ifs <;> rfl

theorem setTerm_accepts {n : Node} {term : Int} : (n.setTerm term).2 = true ↔ n.term < term := by
  unfold Node.setTerm
  split_ifs with h
  · simp [h]
  · simpa using h

/-- An invocation that passes the flag takes the next term and goes on to its first loop. If the next term
is not a later one, it gives the flag back and starts another invocation. -/
theorem startFight_enter (env : Env) (h : c.passesFlag (.act env (.fight .start)) = true) :
    c.startFight env =
      if c.getMyTerm < c.nextTerm then
        ((c.setFighting true).setNode c.nodeMy
          (c.getMyNode.setTerm c.nextTerm).1).waitOnline env c.nextTerm
      else ((c.setFighting true).finishFight true, []) := by
  simp only [passesFlag, Bool.and_eq_true, Bool.not_eq_true', Bool.or_eq_false_iff,
    decide_eq_false_iff_not, Option.isNone_iff_eq_none] at h
  obtain ⟨⟨⟨hclosed, hleader⟩, hnone⟩, hflag⟩ := h
  unfold startFight
  rw [if_neg (by simp [hclosed, hleader]), if_neg (by simp [hnone]), if_neg (by simp [hflag])]
  show (if (c.getMyNode.setTerm c.nextTerm).2 then _ else _ : Cluster × Out) = _
  by_cases hlater : c.getMyTerm < c.nextTerm
  · rw [if_pos hlater, if_pos (setTerm_accepts.mpr hlater)]
    rfl
  · rw [if_neg hlater, if_neg fun hset => hlater (setTerm_accepts.mp hset)]

theorem leaves_startFight (h : c.passesFlag (.act env (.fight .start)) = true) :
    (c.setFighting true).Leaves (c.startFight env).1 (Fight.online c.nextTerm).next := by
  rw [startFight_enter env h]
  split_ifs
  · refine leaves_of_workings ?_ leaves_waitOnline
    exact workings_setNode (nodeConnector_setTerm _ _)
  · exact leaves_finishFight _ _

/-! ## A step of a member -/

theorem mem_invocations {f : Fight} : f ∈ c.invocations ↔ f ∈ c.fights ∧ f ≠ .start := by
  unfold invocations
  rw [List.mem_filter, decide_eq_true_iff]

theorem invocations_erase (c : Cluster) (f : Fight) :
    (c.setFights (c.fights.erase f)).invocations = c.invocations.erase f :=
  List.erase_filter.symm

theorem invocations_erase_start (c : Cluster) :
    (c.setFights (c.fights.erase .start)).invocations = c.invocations := by
  rw [invocations_erase]
  exact List.erase_of_not_mem fun hmem => (mem_invocations.mp hmem).2 rfl

theorem Leaves.model {places : List Fight} (h : c.Leaves c' places) : c'.model = c.model := by
  rcases h with h | ⟨f, -, h⟩
  · exact congrArg Workings.model h
  · exact congrArg Workings.model h

theorem Leaves.links {places : List Fight} (h : c.Leaves c' places) : c'.links = c.links := by
  rcases h with h | ⟨f, -, h⟩
  · exact congrArg Workings.links h
  · exact congrArg Workings.links h

theorem Leaves.mem {places : List Fight} {f : Fight} (h : c.Leaves c' places)
    (hf : f ∈ c'.invocations) : f ∈ c.invocations ∨ f ∈ places := by
  rcases h with h | ⟨g, hg, h⟩
  · rw [show c'.invocations = c.invocations from congrArg Workings.invocations h] at hf
    exact Or.inl hf
  · rw [show c'.invocations = c.invocations ++ [g] from congrArg Workings.invocations h,
      List.mem_append, List.mem_singleton] at hf
    rcases hf with hf | rfl
    · exact Or.inl hf
    · exact Or.inr hg

/-- What a stretch of `fightElection` does: an invocation at the start does not pass the flag, or
passes it and goes on to its first loop, and one past the flag goes on to the next place. -/
theorem fightElection_cases (c : Cluster) (env : Env) (f : Fight) :
    (f = .start ∧ c.passesFlag (.act env (.fight .start)) = false ∧
        (c.fightElection env f).1 = c) ∨
    (f = .start ∧ c.passesFlag (.act env (.fight .start)) = true ∧
        (c.setFighting true).Leaves (c.fightElection env f).1
          (Fight.online c.nextTerm).next) ∨
    (f ≠ .start ∧ c.Leaves (c.fightElection env f).1 f.next) := by
  by_cases hf : f = .start
  · subst hf
    cases hpass : c.passesFlag (.act env (.fight .start)) with
    | false => exact Or.inl ⟨rfl, rfl, congrArg Prod.fst (startFight_skip hpass)⟩
    | true => exact Or.inr (Or.inl ⟨rfl, rfl, leaves_startFight hpass⟩)
  · exact Or.inr (Or.inr ⟨hf, leaves_fightElection hf⟩)

/-- An election leaves the connections alone. -/
theorem links_fightElection (c : Cluster) (env : Env) (f : Fight) :
    (c.fightElection env f).1.links = c.links := by
  rcases fightElection_cases c env f with ⟨-, -, he⟩ | ⟨-, -, hl⟩ | ⟨-, hl⟩
  · rw [he]
  · exact hl.links
  · exact hl.links

theorem Acts.mem_fights {f : Fight} {out : Out} (h : Acts env c (.fight f) c' out) :
    f ∈ c.fights := by
  cases h with
  | fight hf => exact hf

theorem Acts.model {a : Action} {out : Out} (h : Acts env c a c' out) : c'.model = c.model := by
  by_cases ha : ∀ f, a ≠ .fight f
  · exact (h.sameElections ha).model
  · push Not at ha
    obtain ⟨f, rfl⟩ := ha
    cases h with
    | fight =>
      rcases fightElection_cases (c.setFights (c.fights.erase f)) env f with
        ⟨-, -, he⟩ | ⟨-, -, hl⟩ | ⟨-, hl⟩
      · rw [he]
        rfl
      · exact hl.model
      · exact hl.model

/-- An invocation that waits for the confirmation has waited before, or has just counted enough
votes. -/
theorem Acts.confirm_mem {a : Action} {out : Out} (h : Acts env c a c' out)
    (ht : .confirm t ∈ c'.fights) :
    .confirm t ∈ c.fights ∨
      ((c'.getAllNodeNames.length / 2 : Nat) : Int) < c'.getMyNode.getVoteCount t := by
  have hinv : .confirm t ∈ c'.invocations := mem_invocations.mpr ⟨ht, nofun⟩
  by_cases ha : ∀ f, a ≠ .fight f
  · rw [(h.sameElections ha).invocations] at hinv
    exact Or.inl (mem_invocations.mp hinv).1
  · push Not at ha
    obtain ⟨f, rfl⟩ := ha
    cases h with
    | fight =>
      -- what is left of the places is a place of the member before
      have hold : ∀ g ∈ (c.setFights (c.fights.erase f)).invocations, g ∈ c.fights := by
        intro g hg
        exact List.mem_of_mem_erase (mem_invocations.mp hg).1
      by_cases hf : f = .getVote t
      · subst hf
        rcases countVotes_cases (c.setFights (c.fights.erase (.getVote t))) env t with he | ⟨-, hcount⟩
        · have hl : (c.setFights (c.fights.erase (.getVote t))).Leaves
            ((c.setFights (c.fights.erase (.getVote t))).countVotes env t).1 [] := Or.inl he
          rcases hl.mem hinv with hmem | hmem
          · exact Or.inl (hold _ hmem)
          · cases hmem
        · exact Or.inr hcount
      · left
        rcases fightElection_cases (c.setFights (c.fights.erase f)) env f with
          ⟨-, -, he⟩ | ⟨-, -, hl⟩ | ⟨-, hl⟩
        · rw [he] at hinv
          exact hold _ hinv
        · rcases hl.mem hinv with hmem | hmem
          · exact hold _ hmem
          · simp [Fight.next] at hmem
        · rcases hl.mem hinv with hmem | hmem
          · exact hold _ hmem
          · cases f <;> simp [Fight.next] at hmem hf
            exact absurd hmem.symm hf

/-! ## Who holds the flag -/

theorem contests_eq (c : Cluster) : c.contests = c.invocations.filterMap Fight.term := by
  unfold contests invocations
  rw [List.filterMap_filter]
  congr 1
  funext f
  cases f <;> rfl

/-- The invocations past the flag have a term. -/
theorem length_contests (c : Cluster) : c.contests.length = c.invocations.length := by
  have hterm : ∀ f ∈ c.invocations, f.term.isSome := by
    intro f hf
    have hne : f ≠ .start := (mem_invocations.mp hf).2
    cases f with
    | start => exact absurd rfl hne
    | _ => rfl
  rw [contests_eq, List.length_filterMap_eq_countP, List.countP_eq_length]
  exact hterm

/-- The flag `fighting`, and the terms of the invocations that are past it. -/
def arena (c : Cluster) : Bool × List Int := (c.fighting, c.contests)

theorem SameElections.arena (h : SameElections c c') : c'.arena = c.arena := by
  unfold Cluster.arena
  rw [contests_eq, contests_eq, h.fighting, h.invocations]

/-- The invocation of the term `t` is the only one past the flag, or it has left and no one is. -/
def HeldBy (c : Cluster) (t : Int) : Prop := c.contests = if c.fighting then [t] else []

theorem SameElections.heldBy (h : SameElections c c') (hheld : c.HeldBy t) : c'.HeldBy t := by
  obtain ⟨hf, hc⟩ := Prod.mk.inj h.arena
  unfold HeldBy
  rw [hf, hc]
  exact hheld

/-- What an invocation past the flag relies on while it runs: its place in `fights` is taken out, and
there is no other. -/
structure Alone (c : Cluster) : Prop where
  fighting : c.fighting = true
  contests : c.contests = []

/-- An invocation that goes on is the one that holds the flag, and is alone. -/
theorem HeldBy.alone (h : c.HeldBy t) {f : Fight} (hf : f ∈ c.fights) (hne : f ≠ .start) :
    f.term = some t ∧ (c.setFights (c.fights.erase f)).Alone := by
  have hmem : f ∈ c.invocations := mem_invocations.mpr ⟨hf, hne⟩
  have hlen := length_contests c
  have hpos := List.length_pos_of_mem hmem
  have hflag : c.fighting = true := by
    by_contra hno
    rw [h, if_neg hno] at hlen
    exact absurd hlen.symm hpos.ne'
  rw [h, if_pos hflag] at hlen
  obtain ⟨g, hg⟩ := List.length_eq_one_iff.mp hlen.symm
  rw [hg, List.mem_singleton] at hmem
  subst hmem
  have hterm := contests_eq c
  rw [h, if_pos hflag, hg] at hterm
  refine ⟨?_, hflag, ?_⟩
  · cases hu : f.term with
    | none => simp [hu] at hterm
    | some u => simpa [hu, eq_comm] using hterm
  · rw [contests_eq, invocations_erase, hg]
    simp

/-- A stretch of the only invocation past the flag leaves it past the flag, or no one. -/
theorem Alone.leaves {places : List Fight} (h : c.Alone) (hl : c.Leaves c' places)
    (hterm : ∀ f ∈ places, f.term = some t) : c'.HeldBy t := by
  have hnil : c.invocations.filterMap Fight.term = [] := (contests_eq c).symm.trans h.contests
  unfold HeldBy
  rw [contests_eq]
  rcases hl with hl | ⟨f, hf, hl⟩
  · have hinv : c'.invocations = c.invocations := congrArg Workings.invocations hl
    have hfl : c'.fighting = false := congrArg Workings.fighting hl
    rw [hinv, hnil, hfl]
    rfl
  · have hinv : c'.invocations = c.invocations ++ [f] := congrArg Workings.invocations hl
    have hfl : c'.fighting = c.fighting := congrArg Workings.fighting hl
    rw [hinv, List.filterMap_append, hnil, hfl, h.fighting]
    simp [hterm f hf]

/-- Who holds the flag after a step: the invocation that passes it, or who held it before, unless that
one leaves. -/
theorem Acts.heldBy {a : Action} {out : Out} (h : Acts env c a c' out) (hheld : c.HeldBy t) :
    if c.passesFlag (.act env a) then c'.HeldBy c.nextTerm
    else c'.HeldBy t ∧ (c'.fighting → c.fighting) := by
  have hkeep : SameElections c c' → c'.HeldBy t ∧ (c'.fighting → c.fighting) := by
    intro hsame
    refine ⟨hsame.heldBy hheld, fun hf => ?_⟩
    rw [← hsame.fighting]
    exact hf
  by_cases ha : ∀ f, a ≠ .fight f
  · rw [passesFlag_of_ne (ha .start)]
    exact hkeep (h.sameElections ha)
  · push Not at ha
    obtain ⟨f, rfl⟩ := ha
    have hf := h.mem_fights
    cases h with
    | fight =>
      rcases fightElection_cases (c.setFights (c.fights.erase f)) env f with
        ⟨rfl, hpass, he⟩ | ⟨rfl, hpass, hl⟩ | ⟨hne, hl⟩
      · have hpass : c.passesFlag (.act env (.fight .start)) = false := hpass
        rw [hpass]
        apply hkeep
        rw [he]
        exact ⟨rfl, rfl, invocations_erase_start c⟩
      · have hpass : c.passesFlag (.act env (.fight .start)) = true := hpass
        have hfree : c.fighting = false := by
          simp only [passesFlag, Bool.and_eq_true, Bool.not_eq_true'] at hpass
          exact hpass.2
        have hnil : ((c.setFights (c.fights.erase .start)).setFighting true).contests = [] := by
          have hsame := congrArg (List.filterMap Fight.term) (invocations_erase_start c)
          rw [← contests_eq, ← contests_eq, hheld, hfree] at hsame
          exact hsame
        have halone : ((c.setFights (c.fights.erase .start)).setFighting true).Alone := ⟨rfl, hnil⟩
        rw [hpass]
        exact halone.leaves hl fun g hg => (Fight.term_of_mem_next hg).1
      · obtain ⟨hterm, halone⟩ := hheld.alone hf hne
        rw [passesFlag_of_ne fun he => hne (Action.fight.inj he)]
        refine ⟨halone.leaves hl fun g hg => ?_, fun _ => halone.fighting⟩
        rw [(Fight.term_of_mem_next hg).1]
        exact hterm

end Cluster

end OwnX.Cluster
