import OwnX.Cluster.Proofs.ContactProofs
import OwnX.Cluster.Member

/-!
# Proofs: what a member knows of the silence of the others

The record of another node holds the time of the last message about it that was recorded, unless the member
has connected to the node since: `connectToNode` clears it, and the node then counts as never silent.
-/

set_option linter.dupNamespace false

namespace OwnX.Cluster

namespace Cluster

variable {c c' c'' : Cluster} {env : Env} {conf : Conf} {my : String}

/-! ## Steps without news -/

/-- The member after a step in which the other nodes have got these times. -/
structure HbTimes (c c' : Cluster) (times : String → Option Int) : Prop where
  my : c'.nodeMy = c.nodeMy
  hbTime : ∀ id, id ≠ c.nodeMy → (c'.nodes id).hbTime = times id

/-- The step leaves the `hbTime` of the other nodes alone. -/
abbrev SameHbTime (c c' : Cluster) : Prop := c.HbTimes c' fun id => (c.nodes id).hbTime

/-- A step that leaves the times alone may follow. -/
theorem HbTimes.trans {times : String → Option Int} (h : c.HbTimes c' times) (h' : c'.SameHbTime c'') :
    c.HbTimes c'' times where
  my := h'.my.trans h.my
  hbTime := by
    intro id hid
    rw [h'.hbTime id (h.my ▸ hid), h.hbTime id hid]

namespace SameHbTime

theorem of_registry (h : c'.registry = c.registry) : c.SameHbTime c' := by
  refine ⟨nodeMy_of_registry h, fun id _ => ?_⟩
  rw [nodes_of_registry h]

/-- A write to the own record. -/
theorem setMyNode (n : Node) : c.SameHbTime (c.setNode c.nodeMy n) := by
  refine ⟨rfl, fun id hid => ?_⟩
  rw [setNode_nodes, if_neg hid]

/-- A write to another field of a record. -/
theorem setNode {id : String} {n : Node} (h : n.hbTime = (c.nodes id).hbTime) :
    c.SameHbTime (c.setNode id n) := by
  refine ⟨rfl, fun i _ => ?_⟩
  rw [setNode_nodes]
  split_ifs with hi
  · rw [h, hi]
  · rfl

end SameHbTime

theorem sameHbTime_startUp : c.SameHbTime c.startUp := by
  unfold startUp
  split
  · exact .of_registry (registry_signLeader _)
  · split_ifs <;> exact .of_registry rfl

theorem sameHbTime_dropConnector (id : String) : c.SameHbTime (c.dropConnector id) := by
  have hreg : (c.closeConnector id).registry = c.registry := registry_closeConnector id
  apply (SameHbTime.of_registry hreg).trans
  apply SameHbTime.setNode
  rw [nodes_of_registry hreg]

theorem sameHbTime_close : c.SameHbTime c.close := by
  have hclosed : c.SameHbTime ({ c with closeOnce := true }.setStatus .closed) := .of_registry rfl
  unfold close
  split_ifs
  · exact .of_registry rfl
  · exact List.foldlRecOn _ _ hclosed fun _ hc id _ => hc.trans (sameHbTime_dropConnector id)

theorem sameHbTime_onSessionClosed (id : String) : c.SameHbTime (c.onSessionClosed env id) := by
  unfold onSessionClosed
  have hset : c.SameHbTime (c.setNode id { c.nodes id with nodeConnector := none }) := .setNode rfl
  apply hset.trans
  simp only
  split_ifs <;> exact .of_registry rfl

theorem sameHbTime_startFight : c.SameHbTime (c.startFight env).1 := by
  unfold startFight
  split_ifs
  · exact .of_registry rfl
  · exact .of_registry rfl
  · exact .of_registry rfl
  · have hflag : c.SameHbTime (c.setFighting true) := .of_registry rfl
    simp only
    split_ifs
    · exact hflag.trans ((SameHbTime.setMyNode _).trans (.of_registry (registry_waitOnline _)))
    · exact hflag.trans (.of_registry (registry_finishFight _))

theorem sameHbTime_becomeCandidate (t : Int) : c.SameHbTime (c.becomeCandidate env t).1 := by
  unfold becomeCandidate
  split_ifs
  · exact .of_registry (registry_finishFight _)
  · exact .of_registry (registry_finishFight _)
  · have hset : c.SameHbTime (c.setStatus .candidate) := .of_registry rfl
    exact hset.trans ((SameHbTime.setMyNode _).trans (.of_registry (registry_voteLoop _)))
  · exact (SameHbTime.setMyNode _).trans (.of_registry (registry_voteLoop _))

theorem sameHbTime_fightElection (f : Fight) : c.SameHbTime (c.fightElection env f).1 := by
  cases f with
  | start => exact sameHbTime_startFight
  | online t => exact .of_registry (registry_waitOnline t)
  | askLeader t => exact .of_registry rfl
  | settle t => exact sameHbTime_becomeCandidate t
  | vote t => exact .of_registry (registry_voteLoop t)
  | getVote t => exact (SameHbTime.setMyNode _).trans (.of_registry (registry_countVotes t))
  | confirm t => exact .of_registry registry_confirmLeader

/-- Of the member's own steps only a new connection changes what it knows of the silence of the others. -/
theorem Acts.sameHbTime {a : Action} {out : Out} (h : Acts env c a c' out) (ha : a ≠ .assignConnector) :
    c.SameHbTime c' := by
  cases h with
  | startUp => exact sameHbTime_startUp
  | close => exact sameHbTime_close
  | connect hc =>
    simp only [Cluster.connect, Option.ite_none_right_eq_some, Option.some.injEq] at hc
    obtain ⟨-, rfl⟩ := hc
    exact .of_registry rfl
  | assignConnector => exact absurd rfl ha
  | readFail => exact .of_registry rfl
  | readStop => exact .of_registry rfl
  | callback id pending =>
    have hset : c.SameHbTime (c.setConns c.conns pending) := .of_registry rfl
    exact hset.trans (sameHbTime_onSessionClosed id)
  | leads =>
    have hreg : (c.heartbeatLeader env).1.registry = c.registry := registry_heartbeatLeader
    exact (SameHbTime.setMyNode _).trans (.of_registry (registry_setNode hreg _ _))
  | follows =>
    have hreg : (c.heartbeatFollower env).registry = c.registry := registry_heartbeatFollower
    exact (SameHbTime.setMyNode _).trans (.of_registry (registry_setNode hreg _ _))
  | idle => exact .of_registry rfl
  | @fight f _ =>
    have hset : c.SameHbTime (c.setFights (c.fights.erase f)) := .of_registry rfl
    exact hset.trans (sameHbTime_fightElection f)

/-! ## Messages -/

theorem hbTime_cacheNode (id i : String) (t : Int) :
    ((c.cacheNode env id t).nodes i).hbTime =
      if i ∈ c.nodesAll ∧ i = id then some env.now else (c.nodes i).hbTime := by
  unfold cacheNode
  by_cases hi : i = id
  · subst hi
    split_ifs with hmem <;> simp_all [Node.updateHbTime]
  · split_ifs <;> simp_all

theorem nodesAll_cacheNode (id : String) (t : Int) : (c.cacheNode env id t).nodesAll = c.nodesAll := by
  unfold cacheNode
  split_ifs <;> rfl

/-- A message that is recorded gives the nodes it names the time of its receipt. -/
theorem hbTimes_recordMsg (c : Cluster) (env : Env) (m : NodeMsg) :
    c.HbTimes (c.recordMsg env m) fun id =>
      if id ∈ c.nodesAll ∧ (id = m.nodeId ∨ id = m.leaderId) then some env.now
      else (c.nodes id).hbTime := by
  refine ⟨(sameVotes_recordMsg m).my, fun id hid => ?_⟩
  unfold recordMsg
  simp only
  rw [hbTime_cacheNode, nodesAll_cacheNode, hbTime_cacheNode, setNode_nodesAll, setNode_nodes, if_neg hid]
  by_cases hall : id ∈ c.nodesAll
  · by_cases hleader : id = m.leaderId
    · rw [if_pos ⟨hall, hleader⟩, if_pos ⟨hall, Or.inr hleader⟩]
    · simp [hall, hleader]
  · simp [hall]

theorem cacheNode_releaseLeader (now : Int) (id : String) (t : Int) :
    (c.releaseLeader now).cacheNode env id t = (c.cacheNode env id t).releaseLeader now := by
  unfold cacheNode
  by_cases hall : id ∈ c.nodesAll
  · rw [if_pos hall]
    exact if_pos hall
  · rw [if_neg hall]
    exact if_neg hall

theorem recordMsg_releaseLeader (now : Int) (m : NodeMsg) :
    (c.releaseLeader now).recordMsg env m = (c.recordMsg env m).releaseLeader now := by
  unfold recordMsg
  simp only
  rw [← cacheNode_releaseLeader, ← cacheNode_releaseLeader]
  rfl

theorem registry_enterTerm (m : NodeMsg) : (c.enterTerm env m).registry = (c.recordMsg env m).registry := by
  unfold enterTerm
  simp only
  split_ifs
  · rw [recordMsg_releaseLeader, registry_releaseLeader]
  · rfl

/-- A broadcast that is not stale changes no other time than recording it does. -/
theorem sameHbTime_onBroadcastLeader {m : NodeMsg} (h : c.getMyTerm ≤ m.term) :
    (c.recordMsg env m).SameHbTime (c.onBroadcastLeader env m).1 := by
  apply SameHbTime.of_registry
  rcases (onBroadcastLeader_cases c env m).1 with ⟨hlt, -⟩ | ⟨-, ⟨he, -⟩ | ⟨he, -⟩⟩
  · exact absurd h (not_le.mpr hlt)
  · rw [he, registry_enterTerm]
  · rw [he, registry_signLeader, registry_enterTerm]

/-- The same for an answer that does not depose the leader. -/
theorem sameHbTime_nodeReceived {flag : Flag} {m : NodeMsg}
    (h : ¬ (c.nodeLeader.isSome = true ∧ c.getMyTerm < m.term)) :
    (c.recordMsg env m).SameHbTime (c.nodeReceived env flag m) := by
  unfold nodeReceived
  rw [if_neg h]
  generalize c.recordMsg env m = c₁
  cases flag with
  | rAskLeader => exact .of_registry (registry_onAskLeaderReply m)
  | rLeader => exact .of_registry (registry_onLeaderReply m)
  | rGetVote =>
    show c₁.SameHbTime (c₁.onGetVoteReply m)
    unfold onGetVoteReply
    simp only
    split_ifs
    · exact (SameHbTime.setMyNode _).trans (.of_registry (registry_deliver m))
    · exact .of_registry (registry_deliver m)
  | _ => exact .of_registry rfl

theorem sameHbTime_onGetVote (m : NodeMsg) : c.SameHbTime (c.onGetVote env m).1 := by
  unfold onGetVote
  simp only
  split_ifs
  · have hrelease : c.SameHbTime (c.releaseLeader env.now) := .of_registry rfl
    exact hrelease.trans (SameHbTime.setMyNode _)
  · exact SameHbTime.setMyNode _

/-- The times after a message. -/
theorem hbTimes_receive (request : Bool) (flag : Flag) (m : NodeMsg) :
    c.HbTimes (c.receive env request flag m)
      (c.hear (fun id => (c.nodes id).hbTime) (.receive env request flag m)) := by
  -- a message that is not recorded, and one that is
  have hold (h : c.records request flag m = false) :
      c.hear (fun id => (c.nodes id).hbTime) (.receive env request flag m) =
        fun id => (c.nodes id).hbTime := by
    funext id
    simp [hear, h]
  have hnew (h : c.records request flag m = true) :
      c.HbTimes (c.recordMsg env m)
        (c.hear (fun id => (c.nodes id).hbTime) (.receive env request flag m)) := by
    have hrec := c.hbTimes_recordMsg env m
    refine ⟨hrec.my, fun id hid => ?_⟩
    rw [hrec.hbTime id hid]
    simp [hear, h]
  cases request with
  | false =>
    show c.HbTimes (c.nodeReceived env flag m) _
    by_cases hdepose : c.nodeLeader.isSome = true ∧ c.getMyTerm < m.term
    · rw [hold (by simp [records, hdepose]), show c.nodeReceived env flag m = _ from if_pos hdepose]
      exact SameHbTime.of_registry rfl
    · refine (hnew ?_).trans (sameHbTime_nodeReceived hdepose)
      simp only [records, Bool.false_eq_true, if_false, Bool.not_eq_true', Bool.and_eq_false_imp]
      intro hsome
      simpa [hsome] using hdepose
  | true =>
    cases flag with
    | sBroadcastLeader =>
      show c.HbTimes (c.onBroadcastLeader env m).1 _
      by_cases hstale : m.term < c.getMyTerm
      · rw [hold (by simp [records, hstale]),
          show c.onBroadcastLeader env m = _ from if_pos hstale]
        exact SameHbTime.of_registry rfl
      · refine (hnew ?_).trans (sameHbTime_onBroadcastLeader (not_lt.mp hstale))
        simp [records, not_lt.mp hstale]
    | sGetVote =>
      rw [hold rfl]
      exact sameHbTime_onGetVote m
    | _ =>
      rw [hold rfl]
      exact SameHbTime.of_registry rfl

/-- A new connection to a node clears what was heard of it. -/
theorem hbTimes_assignConnector (h : c.assignConnector = some c') :
    c.HbTimes c' (c.hear (fun id => (c.nodes id).hbTime) (.act env .assignConnector)) := by
  obtain ⟨⟨peer, k⟩, hconn, rfl⟩ := Option.map_eq_some_iff.mp h
  refine ⟨rfl, fun id _ => ?_⟩
  show (if id = peer then _ else c.nodes id).hbTime = if c.connecting.map Prod.fst = some id then _ else _
  by_cases hp : id = peer
  · simp [hconn, hp, Node.clear]
  · have hne : ¬ peer = id := fun he => hp he.symm
    simp [hconn, hp, hne]

/-- The times after a step. -/
theorem hbTimes_step {i : Input} (hs : c.step i = some c') :
    c.HbTimes c' (c.hear (fun id => (c.nodes id).hbTime) i) := by
  cases i with
  | act env a =>
    obtain ⟨⟨c₁, out⟩, hact, rfl⟩ := Option.map_eq_some_iff.mp hs
    have hacts := acts_of_act hact
    cases a with
    | assignConnector =>
      cases hacts with
      | assignConnector h => exact hbTimes_assignConnector h
    | _ => exact hacts.sameHbTime nofun
  | receive env request flag m =>
    cases hs
    exact hbTimes_receive request flag m

/-! ## Whole runs -/

/-- The records of the other nodes hold the times at which they were last heard of. -/
def HeardOf (c : Cluster) (heard : String → Option Int) : Prop :=
  ∀ id, id ≠ c.nodeMy → (c.nodes id).hbTime = heard id

theorem HeardOf.step {heard : String → Option Int} {i : Input} (h : c.HeardOf heard)
    (hs : c.step i = some c') : c'.HeardOf (c.hear heard i) := by
  intro id hid
  have htimes := hbTimes_step hs
  rw [htimes.my] at hid
  rw [htimes.hbTime id hid]
  -- what is heard of a node depends on what was heard of that node only
  unfold hear
  split <;> simp only [h id hid]

theorem heardOf_reachable {heard : String → Option Int} (h : (memberHeard conf my).Reachable (c, heard)) :
    (member conf my).Reachable c ∧ c.HeardOf heard := by
  refine h.invariant (fun s => (member conf my).Reachable s.1 ∧ s.1.HeardOf s.2) ?_ ?_
  · rintro ⟨c, heard⟩ ⟨⟨now, rfl⟩, rfl⟩
    refine ⟨.init ⟨now, rfl⟩, fun id _ => ?_⟩
    obtain ⟨name, hname⟩ := (fresh_create conf my now).nodes id
    rw [hname]
  · rintro ⟨c, heard⟩ i s' _ ⟨hr, hh⟩ _ hs
    obtain ⟨c', hs', rfl⟩ := Option.map_eq_some_iff.mp hs
    exact ⟨hr.step trivial hs', hh.step hs'⟩

end Cluster

end OwnX.Cluster
