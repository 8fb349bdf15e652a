import OwnX.Cluster.Contact
import OwnX.Cluster.Proofs.NodeProofs

/-!
# Proofs: what the steps of a member leave alone

Most steps do not touch the vote tables, and none but the start of an election and the receipt of a
message raises the own term.
-/

set_option linter.dupNamespace false

namespace OwnX.Cluster

namespace Cluster

variable {c c' : Cluster} {env : Env}

/-! ## The registry of nodes -/

/-- Who the member is, and the records of the nodes. -/
def registry (c : Cluster) : String × List String × (String → Node) :=
  (c.nodeMy, c.nodesAll, c.nodes)

theorem nodeMy_of_registry (h : c'.registry = c.registry) : c'.nodeMy = c.nodeMy := congrArg Prod.fst h

theorem nodesAll_of_registry (h : c'.registry = c.registry) : c'.nodesAll = c.nodesAll :=
  congrArg (fun r => r.2.1) h

theorem nodes_of_registry (h : c'.registry = c.registry) : c'.nodes = c.nodes :=
  congrArg (fun r => r.2.2) h

theorem getMyNode_of_registry (h : c'.registry = c.registry) : c'.getMyNode = c.getMyNode := by
  unfold getMyNode
  rw [nodeMy_of_registry h, nodes_of_registry h]

/-- What `signLeader` does. -/
theorem signLeader_cases (c : Cluster) (id : String) :
    (c.signLeader id = (c, false) ∧
      ((c.nodes id).term < c.getMyTerm ∨
        ∃ l, c.nodeLeader = some l ∧ (c.nodes id).term < (c.nodes l).term)) ∨
    (c.signLeader id = (c, true) ∧ c.getMyTerm ≤ (c.nodes id).term ∧ c.nodeLeader = some id) ∨
    (c.signLeader id = (c.setLeader id, true) ∧ c.getMyTerm ≤ (c.nodes id).term) := by
  unfold signLeader
  by_cases hlt : (c.nodes id).term < c.getMyTerm
  · simp [hlt]
  · cases hl : c.nodeLeader with
    | none => simp [hlt, not_lt.mp hlt]
    | some l =>
      by_cases hlt' : (c.nodes id).term < (c.nodes l).term
      · simp [hlt, hlt']
      · by_cases he : l = id
        · subst he
          simp [hlt, not_lt.mp hlt]
        · simp [hlt, hlt', he, not_lt.mp hlt]

@[simp] theorem registry_releaseLeader (now : Int) : (c.releaseLeader now).registry = c.registry := rfl
@[simp] theorem registry_goFight (f : Fight) : (c.goFight f).registry = c.registry := rfl
@[simp] theorem registry_toNextTerm (now : Int) : (c.toNextTerm now).registry = c.registry := rfl
@[simp] theorem registry_returnWait : c.returnWait.1.registry = c.registry := rfl

@[simp] theorem registry_sendAndWait (flag : Flag) (data : NodeMsg) :
    (c.sendAndWait env flag data).1.registry = c.registry := rfl

@[simp] theorem registry_signLeader (id : String) : (c.signLeader id).1.registry = c.registry := by
  rcases signLeader_cases c id with ⟨h, -⟩ | ⟨h, -⟩ | ⟨h, -⟩
  · rw [h]
  · rw [h]
  · rw [h]
    rfl

@[simp] theorem registry_deliver (m : NodeMsg) : (c.deliver m).registry = c.registry := by
  unfold deliver
  split
  · rfl
  · split_ifs <;> rfl

@[simp] theorem registry_finishFight (b : Bool) : (c.finishFight b).registry = c.registry := by
  unfold finishFight
  split_ifs <;> rfl

@[simp] theorem registry_closeConnector (id : String) :
    (c.closeConnector id).registry = c.registry := by
  unfold closeConnector
  split <;> rfl

@[simp] theorem registry_waitOnline (t : Int) : (c.waitOnline env t).1.registry = c.registry := by
  unfold waitOnline
  split_ifs <;> simp

@[simp] theorem registry_voteLoop (t : Int) : (c.voteLoop env t).1.registry = c.registry := by
  unfold voteLoop
  split_ifs <;> simp

@[simp] theorem registry_confirmLeader : c.confirmLeader.registry = c.registry := by
  unfold confirmLeader
  simp only
  split_ifs <;> simp

@[simp] theorem registry_heartbeatLeader : (c.heartbeatLeader env).1.registry = c.registry := by
  unfold heartbeatLeader
  refine List.foldlRecOn (motive := fun c' => registry c' = c.registry) _ _ rfl ?_
  intro c' hc id _
  rw [registry_closeConnector, hc]

@[simp] theorem registry_heartbeatFollower : (c.heartbeatFollower env).registry = c.registry := by
  unfold heartbeatFollower
  split <;> split_ifs <;> simp

@[simp] theorem registry_onAskLeaderReply (m : NodeMsg) :
    (c.onAskLeaderReply m).registry = c.registry := by
  unfold onAskLeaderReply
  simp only
  split_ifs <;> simp

@[simp] theorem registry_onLeaderReply (m : NodeMsg) :
    (c.onLeaderReply env m).registry = c.registry := by
  unfold onLeaderReply
  simp only
  split_ifs <;> simp

/-! ## The vote tables -/

/-- The step leaves the vote tables alone, and the own term does not fall. -/
structure SameVotes (c c' : Cluster) : Prop where
  my : c'.nodeMy = c.nodeMy
  all : c'.nodesAll = c.nodesAll
  count : c'.getMyNode.voteCount = c.getMyNode.voteCount
  node : c'.getMyNode.voteNode = c.getMyNode.voteNode
  term : c.getMyTerm ≤ c'.getMyTerm

theorem SameVotes.of_registry (h : c'.registry = c.registry) : SameVotes c c' := by
  have hmy := getMyNode_of_registry h
  refine ⟨nodeMy_of_registry h, nodesAll_of_registry h, by rw [hmy], by rw [hmy], ?_⟩
  unfold getMyTerm
  rw [hmy]

theorem SameVotes.trans {c'' : Cluster} (h : SameVotes c c') (h' : SameVotes c' c'') :
    SameVotes c c'' where
  my := h'.my.trans h.my
  all := h'.all.trans h.all
  count := h'.count.trans h.count
  node := h'.node.trans h.node
  term := h.term.trans h'.term

theorem getMyNode_setNode (c : Cluster) (id : String) (n : Node) :
    (c.setNode id n).getMyNode = if c.nodeMy = id then n else c.getMyNode := rfl

theorem SameVotes.setNode {id : String} {n : Node} (hc : n.voteCount = (c.nodes id).voteCount)
    (hn : n.voteNode = (c.nodes id).voteNode) (ht : (c.nodes id).term ≤ n.term) :
    SameVotes c (c.setNode id n) := by
  by_cases hid : c.nodeMy = id
  · subst hid
    have hmy : (c.setNode c.nodeMy n).getMyNode = n := by rw [getMyNode_setNode, if_pos rfl]
    refine ⟨rfl, rfl, by rw [hmy, hc]; rfl, by rw [hmy, hn]; rfl, ?_⟩
    unfold getMyTerm
    rw [hmy]
    exact ht
  · have hmy : (c.setNode id n).getMyNode = c.getMyNode := by rw [getMyNode_setNode, if_neg hid]
    refine ⟨rfl, rfl, by rw [hmy], by rw [hmy], ?_⟩
    unfold getMyTerm
    rw [hmy]

theorem setTerm_votes (n : Node) (term : Int) :
    (n.setTerm term).1.voteCount = n.voteCount ∧ (n.setTerm term).1.voteNode = n.voteNode ∧
      (n.setTerm term).1.term = max n.term term := by
  unfold Node.setTerm
  split_ifs with h
  · exact ⟨rfl, rfl, (max_eq_left h).symm⟩
  · exact ⟨rfl, rfl, (max_eq_right (not_le.mp h).le).symm⟩

theorem sameVotes_cacheNode (id : String) (term : Int) : SameVotes c (c.cacheNode env id term) := by
  unfold cacheNode
  obtain ⟨hc, hn, ht⟩ := setTerm_votes (c.nodes id) term
  split_ifs
  · apply SameVotes.setNode
    · exact hc
    · exact hn
    · show _ ≤ ((c.nodes id).setTerm term).1.term
      rw [ht]
      exact le_max_left _ _
  · exact .of_registry rfl

theorem sameVotes_recordMsg (m : NodeMsg) : SameVotes c (c.recordMsg env m) := by
  unfold recordMsg
  obtain ⟨hc, hn, ht⟩ := setTerm_votes c.getMyNode m.term
  have hmy : SameVotes c (c.setNode c.nodeMy (c.getMyNode.setTerm m.term).1) := by
    apply SameVotes.setNode hc hn
    rw [ht]
    exact le_max_left _ _
  exact hmy.trans ((sameVotes_cacheNode _ _).trans (sameVotes_cacheNode _ _))

theorem sameVotes_startFight : SameVotes c (c.startFight env).1 := by
  unfold startFight
  split_ifs
  · exact .of_registry rfl
  · exact .of_registry rfl
  · exact .of_registry rfl
  · simp only
    obtain ⟨hc, hn, ht⟩ := setTerm_votes c.getMyNode c.nextTerm
    split_ifs
    · have hset : SameVotes (c.setFighting true) ((c.setFighting true).setNode c.nodeMy
          (c.getMyNode.setTerm c.nextTerm).1) := by
        apply SameVotes.setNode
        · exact hc
        · exact hn
        · rw [ht]
          exact le_max_left _ _
      refine SameVotes.trans ?_ (hset.trans (.of_registry (registry_waitOnline _)))
      exact .of_registry rfl
    · refine SameVotes.trans ?_ (.of_registry (registry_finishFight _))
      exact .of_registry rfl

theorem sameVotes_becomeCandidate (t : Int) : SameVotes c (c.becomeCandidate env t).1 := by
  unfold becomeCandidate
  split_ifs
  · exact .of_registry (registry_finishFight _)
  · exact .of_registry (registry_finishFight _)
  · refine SameVotes.trans ?_ (.of_registry (registry_voteLoop _))
    refine SameVotes.trans ?_ (.setNode rfl rfl le_rfl)
    exact .of_registry rfl
  · refine SameVotes.trans ?_ (.of_registry (registry_voteLoop _))
    exact .setNode rfl rfl le_rfl

theorem sameVotes_onSessionClosed (id : String) : SameVotes c (c.onSessionClosed env id) := by
  unfold onSessionClosed
  have hset : SameVotes c (c.setNode id { c.nodes id with nodeConnector := none }) :=
    .setNode rfl rfl le_rfl
  apply hset.trans
  simp only
  split_ifs <;> exact .of_registry rfl

theorem sameVotes_dropConnector (id : String) : SameVotes c (c.dropConnector id) := by
  have hreg : (c.closeConnector id).registry = c.registry := registry_closeConnector id
  have hnodes := nodes_of_registry hreg
  apply (SameVotes.of_registry hreg).trans
  apply SameVotes.setNode <;> rw [hnodes]

theorem sameVotes_close : SameVotes c c.close := by
  have hclosed : SameVotes c ({ c with closeOnce := true }.setStatus .closed) := .of_registry rfl
  unfold close
  split_ifs
  · exact .of_registry rfl
  · exact List.foldlRecOn _ _ hclosed fun c' hc id _ => hc.trans (sameVotes_dropConnector id)

theorem registry_setNode (h : c'.registry = c.registry) (id : String) (n : Node) :
    (c'.setNode id n).registry = (c.setNode id n).registry := by
  unfold registry
  simp only [setNode_nodeMy, setNode_nodesAll, nodeMy_of_registry h, nodesAll_of_registry h]
  unfold setNode
  rw [nodes_of_registry h]

theorem registry_voteForMyself (h : c'.registry = c.registry) (t : Int) :
    (c'.voteForMyself t).registry = (c.voteForMyself t).registry := by
  unfold voteForMyself
  rw [getMyNode_of_registry h, nodeMy_of_registry h]
  exact registry_setNode h _ _

theorem registry_countVotes (t : Int) :
    (c.countVotes env t).1.registry = (c.voteForMyself t).registry := by
  have hself : (c.returnWait.1.voteForMyself t).registry = (c.voteForMyself t).registry :=
    registry_voteForMyself registry_returnWait t
  unfold countVotes
  simp only
  split_ifs
  · exact hself
  · rw [registry_finishFight, hself]

/-! ## The created member -/

/-- A member that has not been started. -/
structure Fresh (c : Cluster) (model : Model) (my : String) : Prop where
  model : c.model = model
  my : c.nodeMy = my
  nodes : ∀ id, ∃ name, c.nodes id = { name := name }
  status : c.status = .init
  fighting : c.fighting = false
  leader : c.nodeLeader = none
  alive : c.nodesAlive = []
  fights : c.fights = []

variable {model : Model} {my : String} {nodes : List NodeConf}

theorem Fresh.storeNode (h : c.Fresh model my) (id name : String) :
    (c.storeNode id { name := name }).Fresh model my where
  model := h.model
  my := h.my
  nodes := by
    intro i
    show ∃ n, (if i = id then ({ name := name } : Node) else c.nodes i) = _
    split_ifs
    · exact ⟨name, rfl⟩
    · exact h.nodes i
  status := h.status
  fighting := h.fighting
  leader := h.leader
  alive := h.alive
  fights := h.fights

theorem Fresh.loadAllNodes (h : c.Fresh model my) : (c.loadAllNodes nodes).Fresh model my := by
  induction nodes generalizing c with
  | nil => exact h
  | cons n nodes ih => exact ih (h.storeNode _ _)

theorem fresh_create (conf : Conf) (my : String) (now : Int) :
    (create conf my now).Fresh (if conf.model = "cluster" then .cluster else .single) my :=
  Fresh.loadAllNodes ⟨rfl, rfl, fun _ => ⟨"", rfl⟩, rfl, rfl, rfl, rfl, rfl⟩

theorem nodesAll_loadAllNodes (hnd : (c.nodesAll ++ nodes.map NodeConf.id).Nodup) :
    (c.loadAllNodes nodes).nodesAll = c.nodesAll ++ nodes.map NodeConf.id := by
  induction nodes generalizing c with
  | nil => simp [loadAllNodes]
  | cons n nodes ih =>
    have hn : n.id ∉ c.nodesAll := by
      intro hmem
      exact (List.nodup_append.mp hnd).2.2 _ hmem _ (List.mem_cons_self ..) rfl
    have hstore : (c.storeNode n.id { name := if n.name = "" then n.ip else n.name }).nodesAll =
        c.nodesAll ++ [n.id] := if_neg hn
    rw [List.map_cons, List.append_cons, ← hstore] at hnd ⊢
    exact ih hnd

theorem nodesAll_create {conf : Conf} (hnd : (conf.nodes.map NodeConf.id).Nodup) (my : String)
    (now : Int) : (create conf my now).nodesAll = conf.nodes.map NodeConf.id :=
  nodesAll_loadAllNodes hnd

/-- The steps of a member. -/
inductive Acts (env : Env) : Cluster → Action → Cluster → Out → Prop where
  | startUp (c : Cluster) : Acts env c .startUp c.startUp []
  | close (c : Cluster) : Acts env c .close c.close []
  | connect {c c' : Cluster} {id : String} (h : c.connect id = some c') :
      Acts env c (.connect id) c' []
  | assignConnector {c c' : Cluster} (h : c.assignConnector = some c') :
      Acts env c .assignConnector c' []
  | readFail (c : Cluster) (k : Nat) (conns : List Conn) (id : String) :
      Acts env c (.readFail k) (c.setConns conns (c.pendingClosed ++ [id])) []
  | readStop (c : Cluster) (k : Nat) (conns : List Conn) :
      Acts env c (.readStop k) (c.setConns conns c.pendingClosed) []
  | callback (c : Cluster) (id : String) (pending : List String) :
      Acts env c (.callback id) ((c.setConns c.conns pending).onSessionClosed env id) []
  | leads {c : Cluster} (hready : c.isReady = true) (h : c.status = .leader) :
      Acts env c .heartbeat ((c.heartbeatLeader env).1.setNode c.nodeMy c.getMyNode.prune)
        (c.heartbeatLeader env).2
  | follows {c : Cluster} (hready : c.isReady = true) (h : c.status ≠ .leader) :
      Acts env c .heartbeat ((c.heartbeatFollower env).setNode c.nodeMy c.getMyNode.prune) []
  | idle (c : Cluster) (beating : Bool) : Acts env c .heartbeat { c with beating := beating } []
  | fight {c : Cluster} {f : Fight} (h : f ∈ c.fights) :
      Acts env c (.fight f) ((c.setFights (c.fights.erase f)).fightElection env f).1
        ((c.setFights (c.fights.erase f)).fightElection env f).2

theorem acts_of_act {a : Action} {out : Out} (h : c.act env a = some (c', out)) :
    Acts env c a c' out := by
  cases a with
  | startUp =>
    cases h
    exact .startUp c
  | close =>
    cases h
    exact .close c
  | connect id =>
    obtain ⟨c₁, h₁, he⟩ := Option.map_eq_some_iff.mp h
    cases he
    exact .connect h₁
  | assignConnector =>
    obtain ⟨c₁, h₁, he⟩ := Option.map_eq_some_iff.mp h
    cases he
    exact .assignConnector h₁
  | readFail k =>
    obtain ⟨c₁, h₁, he⟩ := Option.map_eq_some_iff.mp h
    cases he
    unfold readFail at h₁
    split at h₁
    · simp only [Option.ite_none_right_eq_some, Option.some.injEq] at h₁
      obtain ⟨-, rfl⟩ := h₁
      exact .readFail c k _ _
    · cases h₁
  | readStop k =>
    obtain ⟨c₁, h₁, he⟩ := Option.map_eq_some_iff.mp h
    cases he
    unfold readStop at h₁
    split at h₁
    · simp only [Option.ite_none_right_eq_some, Option.some.injEq] at h₁
      obtain ⟨-, rfl⟩ := h₁
      exact .readStop c k _
    · cases h₁
  | callback id =>
    obtain ⟨c₁, h₁, he⟩ := Option.map_eq_some_iff.mp h
    cases he
    simp only [runCallback, Option.ite_none_right_eq_some, Option.some.injEq] at h₁
    obtain ⟨-, rfl⟩ := h₁
    exact .callback c id _
  | heartbeat =>
    simp only [act, heartbeat, Option.ite_none_right_eq_some] at h
    obtain ⟨-, h⟩ := h
    by_cases hready : c.isReady = true
    · rw [if_pos hready] at h
      by_cases hl : c.status = .leader
      · have hmy : (c.heartbeatLeader env).1.getMyNode = c.getMyNode :=
          getMyNode_of_registry registry_heartbeatLeader
        simp only [isLeader, hl, decide_true, if_true, hmy, Option.some.injEq] at h
        cases h
        exact .leads hready hl
      · have hmy : (c.heartbeatFollower env).getMyNode = c.getMyNode :=
          getMyNode_of_registry registry_heartbeatFollower
        simp only [isLeader, hl, decide_false, Bool.false_eq_true, if_false, hmy,
          Option.some.injEq] at h
        cases h
        exact .follows hready hl
    · rw [if_neg hready] at h
      split_ifs at h
      · cases h
        exact .idle c false
      · cases h
        exact .idle c c.beating
  | fight f =>
    simp only [act, runFight, Option.ite_none_right_eq_some, Option.some.injEq] at h
    obtain ⟨hf, h⟩ := h
    rw [show c' = ((c.setFights (c.fights.erase f)).fightElection env f).1 by rw [h],
      show out = ((c.setFights (c.fights.erase f)).fightElection env f).2 by rw [h]]
    exact .fight hf

/-! ## What a step sends -/

/-- A message goes to another node and names its sender. -/
def Addressed (c : Cluster) (m : String × Flag × NodeMsg) : Prop :=
  m.1 ∈ c.nodesAll ∧ m.1 ≠ c.nodeMy ∧ m.2.2.nodeId = c.nodeMy

variable {m : String × Flag × NodeMsg}

theorem mem_sendAndWait {flag : Flag} {data : NodeMsg} (hid : data.nodeId = c.nodeMy)
    (hm : m ∈ (c.sendAndWait env flag data).2) :
    c.Addressed m ∧ m.2.1 = flag ∧ m.2.2.term = data.term ∧ m.2.2.leaderId = data.leaderId := by
  unfold sendAndWait at hm
  simp only [List.mem_map, List.mem_filter, Bool.and_eq_true, decide_eq_true_eq] at hm
  obtain ⟨id, ⟨hall, ⟨hne, -⟩, -⟩, rfl⟩ := hm
  exact ⟨⟨hall, hne, hid⟩, rfl, rfl, rfl⟩

theorem mem_waitOnline {t : Int} (hm : m ∈ (c.waitOnline env t).2) :
    c.Addressed m ∧ m.2.1 = .sAskLeader := by
  unfold waitOnline at hm
  split_ifs at hm
  · cases hm
  · obtain ⟨hto, hflag, -⟩ := mem_sendAndWait rfl hm
    exact ⟨hto, hflag⟩
  · cases hm

theorem mem_voteLoop {t : Int} (hm : m ∈ (c.voteLoop env t).2) :
    c.Addressed m ∧ m.2.1 = .sGetVote := by
  unfold voteLoop at hm
  split_ifs at hm
  · cases hm
  · cases hm
  · cases hm
  · obtain ⟨hto, hflag, -⟩ := mem_sendAndWait rfl hm
    exact ⟨hto, hflag⟩
  · cases hm

theorem mem_startFight (hm : m ∈ (c.startFight env).2) : c.Addressed m ∧ m.2.1 = .sAskLeader := by
  unfold startFight at hm
  split_ifs at hm
  · cases hm
  · cases hm
  · cases hm
  · simp only at hm
    split_ifs at hm
    · have hsent := mem_waitOnline hm
      exact hsent
    · cases hm

theorem mem_becomeCandidate {t : Int} (hm : m ∈ (c.becomeCandidate env t).2) :
    c.Addressed m ∧ m.2.1 = .sGetVote := by
  unfold becomeCandidate at hm
  split_ifs at hm
  · cases hm
  · cases hm
  · have hsent := mem_voteLoop hm
    exact hsent
  · have hsent := mem_voteLoop hm
    exact hsent

theorem mem_countVotes {t : Int} (hm : m ∈ (c.countVotes env t).2) :
    c.Addressed m ∧ m.2.1 = .sBroadcastLeader ∧ m.2.2.leaderId = c.nodeMy ∧
      .confirm m.2.2.term ∈ (c.countVotes env t).1.fights := by
  unfold countVotes at hm ⊢
  simp only at hm ⊢
  split_ifs at hm ⊢
  · obtain ⟨hto, hflag, hterm, hleader⟩ := mem_sendAndWait rfl hm
    refine ⟨hto, hflag, hleader, ?_⟩
    rw [hterm]
    simp
  · cases hm

/-- What a member sends. A broadcast announces the sender as leader, in its own term while it leads,
or in the term of an election that waits for the confirmation. -/
theorem acts_out {a : Action} {out : Out} (h : Acts env c a c' out) (hm : m ∈ out) :
    c.Addressed m ∧
      (m.2.1 = .sAskLeader ∨ m.2.1 = .sGetVote ∨
        m.2.1 = .sBroadcastLeader ∧ m.2.2.leaderId = c.nodeMy ∧
          (c.status = .leader ∧ m.2.2.term = c.getMyTerm ∨ .confirm m.2.2.term ∈ c'.fights)) := by
  cases h with
  | leads hready hlead =>
    simp only [heartbeatLeader, connected, List.mem_map, List.mem_filter, Bool.and_eq_true,
      decide_eq_true_eq] at hm
    obtain ⟨id, ⟨⟨hall, hne, -⟩, -⟩, rfl⟩ := hm
    exact ⟨⟨hall, hne, rfl⟩, Or.inr (Or.inr ⟨rfl, rfl, Or.inl ⟨hlead, rfl⟩⟩)⟩
  | @fight f hf =>
    cases f with
    | start =>
      obtain ⟨hto, hflag⟩ := mem_startFight hm
      exact ⟨hto, Or.inl hflag⟩
    | online t =>
      obtain ⟨hto, hflag⟩ := mem_waitOnline hm
      exact ⟨hto, Or.inl hflag⟩
    | askLeader t => cases hm
    | settle t =>
      obtain ⟨hto, hflag⟩ := mem_becomeCandidate hm
      exact ⟨hto, Or.inr (Or.inl hflag)⟩
    | vote t =>
      obtain ⟨hto, hflag⟩ := mem_voteLoop hm
      exact ⟨hto, Or.inr (Or.inl hflag)⟩
    | getVote t =>
      obtain ⟨hto, hflag, hleader, hconfirm⟩ := mem_countVotes hm
      exact ⟨hto, Or.inr (Or.inr ⟨hflag, hleader, Or.inr hconfirm⟩)⟩
    | confirm t => cases hm
  | _ => cases hm

/-! ## What a step does to the votes -/

/-- A member's own step leaves its votes alone, or is its vote for itself, or prunes. -/
theorem act_votes {a : Action} {out : Out} (h : Acts env c a c' out) :
    SameVotes c c' ∨
    (∃ t, a = .fight (.getVote t) ∧ c'.registry = (c.voteForMyself t).registry) ∨
    (a = .heartbeat ∧ c.isReady = true ∧
      c'.registry = (c.setNode c.nodeMy c.getMyNode.prune).registry) := by
  cases h with
  | startUp =>
    left
    unfold startUp
    split
    · exact .of_registry (registry_signLeader _)
    · split_ifs <;> exact .of_registry rfl
  | close => exact Or.inl sameVotes_close
  | connect h =>
    simp only [connect, Option.ite_none_right_eq_some, Option.some.injEq] at h
    obtain ⟨-, rfl⟩ := h
    exact Or.inl (.of_registry rfl)
  | assignConnector h =>
    obtain ⟨r, -, rfl⟩ := Option.map_eq_some_iff.mp h
    refine Or.inl (SameVotes.trans ?_ (.setNode rfl rfl le_rfl))
    exact .of_registry rfl
  | readFail => exact Or.inl (.of_registry rfl)
  | readStop => exact Or.inl (.of_registry rfl)
  | callback =>
    refine Or.inl (SameVotes.trans ?_ (sameVotes_onSessionClosed _))
    exact .of_registry rfl
  | leads hready =>
    exact Or.inr (Or.inr ⟨rfl, hready, registry_setNode registry_heartbeatLeader _ _⟩)
  | follows hready =>
    exact Or.inr (Or.inr ⟨rfl, hready, registry_setNode registry_heartbeatFollower _ _⟩)
  | idle => exact Or.inl (.of_registry rfl)
  | @fight f _ =>
    cases f with
    | start =>
      refine Or.inl (SameVotes.trans ?_ sameVotes_startFight)
      exact .of_registry rfl
    | online t => exact Or.inl (.of_registry (registry_waitOnline t))
    | askLeader t => exact Or.inl (.of_registry rfl)
    | settle t =>
      refine Or.inl (SameVotes.trans ?_ (sameVotes_becomeCandidate t))
      exact .of_registry rfl
    | vote t => exact Or.inl (.of_registry (registry_voteLoop t))
    | getVote t =>
      refine Or.inr (Or.inl ⟨t, rfl, ?_⟩)
      exact (registry_countVotes t).trans (registry_voteForMyself rfl t)
    | confirm t => exact Or.inl (.of_registry registry_confirmLeader)

/-- What a broadcast does to the member, and which answers it gets. -/
theorem onBroadcastLeader_cases (c : Cluster) (env : Env) (m : NodeMsg) :
    (m.term < c.getMyTerm ∧ (c.onBroadcastLeader env m).1 = c ∨
      c.getMyTerm ≤ m.term ∧
        ((c.onBroadcastLeader env m).1 = c.enterTerm env m ∧
          ((c.enterTerm env m).nodeLeader = some m.leaderId ∨
            m.leaderId ∉ (c.enterTerm env m).nodesAll) ∨
        (c.onBroadcastLeader env m).1 = ((c.enterTerm env m).signLeader m.leaderId).1 ∧
          m.leaderId ∈ (c.enterTerm env m).nodesAll)) ∧
    ∀ r ∈ (c.onBroadcastLeader env m).2, r.1 = .ok ∨ r.1 = .rLeader := by
  unfold onBroadcastLeader
  by_cases hlt : m.term < c.getMyTerm
  · simp [hlt, answerLeader]
  · simp only [hlt, if_false]
    split_ifs with hsame hflag hall
    · simp_all [answerLeader]
    · simp_all
    · simp_all [answerLeader]
    · simp_all

theorem sameVotes_enterTerm (m : NodeMsg) : SameVotes c (c.enterTerm env m) := by
  unfold enterTerm
  refine SameVotes.trans ?_ (sameVotes_recordMsg m)
  split_ifs <;> exact .of_registry rfl

theorem sameVotes_onBroadcastLeader (m : NodeMsg) : SameVotes c (c.onBroadcastLeader env m).1 := by
  rcases (onBroadcastLeader_cases c env m).1 with ⟨-, h⟩ | ⟨-, ⟨h, -⟩ | ⟨h, -⟩⟩
  · rw [h]
    exact .of_registry rfl
  · rw [h]
    exact sameVotes_enterTerm m
  · rw [h]
    exact (sameVotes_enterTerm m).trans (.of_registry (registry_signLeader _))

/-- A request leaves the votes alone, or is for a vote. -/
theorem acceptorReceived_votes (c : Cluster) (env : Env) (flag : Flag) (m : NodeMsg) :
    (SameVotes c (c.acceptorReceived env flag m).1 ∧
      ∀ r ∈ (c.acceptorReceived env flag m).2, r.1 ≠ .rGetVote) ∨
    (flag = .sGetVote ∧
      (c.acceptorReceived env flag m).1.registry =
        (c.setNode c.nodeMy (c.getMyNode.voteToNode m.term m.nodeId).1).registry ∧
      (c.acceptorReceived env flag m).2 = [(.rGetVote,
        { nodeId := c.nodeMy, term := m.term, reqId := m.reqId,
          success := some (c.getMyNode.voteToNode m.term m.nodeId).2 })]) := by
  cases flag with
  | sGetVote =>
    right
    refine ⟨rfl, ?_⟩
    unfold acceptorReceived onGetVote
    simp only
    split_ifs
    · exact ⟨registry_setNode (registry_releaseLeader _) _ _, rfl⟩
    · exact ⟨rfl, rfl⟩
  | sBroadcastLeader =>
    left
    refine ⟨sameVotes_onBroadcastLeader m, fun r hr => ?_⟩
    rcases (onBroadcastLeader_cases c env m).2 r hr with h | h <;> simp [h]
  | sAskLeader =>
    left
    exact ⟨.of_registry rfl, by simp [acceptorReceived]⟩
  | _ =>
    left
    exact ⟨.of_registry rfl, by simp [acceptorReceived]⟩

/-- An answer leaves the votes alone, or is a vote. -/
theorem nodeReceived_votes (c : Cluster) (env : Env) (flag : Flag) (m : NodeMsg) :
    SameVotes c (c.nodeReceived env flag m) ∨
    (flag = .rGetVote ∧ m.success = some true ∧ ∃ c₁, SameVotes c c₁ ∧
      (c.nodeReceived env flag m).registry =
        (c₁.setNode c₁.nodeMy (c₁.getMyNode.addVoteCount m.term)).registry) := by
  have hrec : SameVotes c (c.recordMsg env m) := sameVotes_recordMsg m
  unfold nodeReceived
  split_ifs
  · exact Or.inl (.of_registry rfl)
  · cases flag with
    | rGetVote =>
      unfold onGetVoteReply
      simp only
      split_ifs with hyes
      · exact Or.inr ⟨trivial, hyes, _, hrec, registry_deliver m⟩
      · exact Or.inl (hrec.trans (.of_registry (registry_deliver m)))
    | rAskLeader => exact Or.inl (hrec.trans (.of_registry (registry_onAskLeaderReply m)))
    | rLeader => exact Or.inl (hrec.trans (.of_registry (registry_onLeaderReply m)))
    | _ => exact Or.inl hrec

/-! ## The terms a message raises -/

theorem cacheNode_terms (c : Cluster) (env : Env) (id : String) (t : Int) :
    ∃ nodes, c.cacheNode env id t = { c with nodes := nodes } ∧
      ∀ i, (nodes i).term =
        if i ∈ c.nodesAll ∧ i = id then max (c.nodes i).term t else (c.nodes i).term := by
  unfold cacheNode
  split_ifs with hid
  · refine ⟨_, rfl, fun i => ?_⟩
    by_cases hi : i = id
    · subst hi
      simp only [if_true, hid, and_self]
      exact (setTerm_votes (c.nodes i) t).2.2
    · simp [hi]
  · refine ⟨c.nodes, rfl, fun i => ?_⟩
    rw [if_neg]
    rintro ⟨hi, rfl⟩
    exact hid hi

/-- A recorded message raises the own term, and the terms of the nodes it names. -/
theorem recordMsg_terms (c : Cluster) (env : Env) (m : NodeMsg) :
    ∃ nodes, c.recordMsg env m = { c with nodes := nodes } ∧
      ∀ i, (nodes i).term =
        if i = c.nodeMy ∨ i ∈ c.nodesAll ∧ (i = m.nodeId ∨ i = m.leaderId) then
          max (c.nodes i).term m.term
        else (c.nodes i).term := by
  have hset : ∀ i, ((c.setNode c.nodeMy (c.getMyNode.setTerm m.term).1).nodes i).term =
      if i = c.nodeMy then max (c.nodes i).term m.term else (c.nodes i).term := by
    intro i
    rw [setNode_nodes]
    split_ifs with hi
    · rw [hi]
      exact (setTerm_votes c.getMyNode m.term).2.2
    · rfl
  unfold recordMsg
  simp only
  obtain ⟨nodes₁, he₁, h₁⟩ := cacheNode_terms
    (c.setNode c.nodeMy (c.getMyNode.setTerm m.term).1) env m.nodeId m.term
  rw [he₁]
  obtain ⟨nodes₂, he₂, h₂⟩ := cacheNode_terms
    { c.setNode c.nodeMy (c.getMyNode.setTerm m.term).1 with nodes := nodes₁ } env m.leaderId m.term
  rw [he₂]
  refine ⟨nodes₂, rfl, fun i => ?_⟩
  rw [h₂]
  simp only [h₁, hset, setNode_nodesAll]
  by_cases hi : i = c.nodeMy
  · simp only [hi, true_or, if_true]
    split_ifs <;> omega
  · simp only [hi, false_or, if_false]
    by_cases hall : i ∈ c.nodesAll
    · simp only [hall, true_and]
      split_ifs <;> first | omega | tauto
    · simp [hall]

/-! ## The ids -/

theorem Acts.ids {a : Action} {out : Out} (h : Acts env c a c' out) :
    c'.nodeMy = c.nodeMy ∧ c'.nodesAll = c.nodesAll := by
  rcases act_votes h with hsame | ⟨t, -, hreg⟩ | ⟨-, -, hreg⟩
  · exact ⟨hsame.my, hsame.all⟩
  · exact ⟨congrArg Prod.fst hreg, congrArg (fun r => r.2.1) hreg⟩
  · exact ⟨congrArg Prod.fst hreg, congrArg (fun r => r.2.1) hreg⟩

theorem ids_acceptorReceived (flag : Flag) (m : NodeMsg) :
    (c.acceptorReceived env flag m).1.nodeMy = c.nodeMy ∧
      (c.acceptorReceived env flag m).1.nodesAll = c.nodesAll := by
  rcases acceptorReceived_votes c env flag m with ⟨hsame, -⟩ | ⟨-, hreg, -⟩
  · exact ⟨hsame.my, hsame.all⟩
  · exact ⟨congrArg Prod.fst hreg, congrArg (fun r => r.2.1) hreg⟩

theorem ids_nodeReceived (flag : Flag) (m : NodeMsg) :
    (c.nodeReceived env flag m).nodeMy = c.nodeMy ∧
      (c.nodeReceived env flag m).nodesAll = c.nodesAll := by
  rcases nodeReceived_votes c env flag m with hsame | ⟨-, -, c₁, hsame, hreg⟩
  · exact ⟨hsame.my, hsame.all⟩
  · exact ⟨(congrArg Prod.fst hreg).trans hsame.my,
      (congrArg (fun r => r.2.1) hreg).trans hsame.all⟩

end Cluster

end OwnX.Cluster
