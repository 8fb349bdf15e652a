import OwnX.Cluster.Member

/-!
# The standing of a member

What a member takes itself for: its status, the leader it accepts, and the terms it has heard of. The
steps of a member act on its standing in few ways: it gives the leader up, it signs a leader, it
records the term of a message, it stands as a candidate, it starts or closes. Which of them happens
depends on the rest of the member, and what it does to the standing does not.
-/

set_option linter.dupNamespace false

namespace OwnX.Cluster

/-- The standing of a member. -/
structure Standing where
  status : Stat
  nodeLeader : Option String
  nodeMy : String
  nodesAll : List String
  term : String → Int

/-- The standing of a member in the state `c`. -/
@[simps]
def Cluster.standing (c : Cluster) : Standing where
  status := c.status
  nodeLeader := c.nodeLeader
  nodeMy := c.nodeMy
  nodesAll := c.nodesAll
  term := fun id => (c.nodes id).term

namespace Standing

/-- The own term. -/
def own (s : Standing) : Int := s.term s.nodeMy

/-- The status changes. -/
def become (s : Standing) (status : Stat) : Standing := { s with status := status }

/-- The leader is given up. -/
def release (s : Standing) : Standing := { s with nodeLeader := none, status := .follower }

/-- The leader `id` is accepted. -/
def lead (s : Standing) (id : String) : Standing :=
  { s with nodeLeader := some id, status := if s.nodeMy = id then .leader else .follower }

/-- The leader `id` is accepted, unless its term is over. -/
def sign (s : Standing) (id : String) : Standing :=
  if s.term id < s.own then s
  else
    match s.nodeLeader with
    | none => s.lead id
    | some l => if s.term id < s.term l then s else if l = id then s else s.lead id

/-- The term `t` is recorded for the member itself, and for those of the nodes `ids` it knows. -/
@[simps status nodeLeader nodeMy nodesAll]
def record (s : Standing) (ids : List String) (t : Int) : Standing :=
  { s with
    term := fun i =>
      if i = s.nodeMy ∨ i ∈ s.nodesAll ∧ i ∈ ids then max (s.term i) t else s.term i }

/-- A member has a vote request: it does not lead any more. -/
def hearVote (s : Standing) : Standing := if s.status = .leader then s.release else s

/-- A member hears of a leader. -/
def hearLeader (s : Standing) (m : NodeMsg) : Standing :=
  if m.term < s.own then s
  else
    let s :=
      if s.own < m.term ∧ s.nodeLeader.isSome ∧ s.nodeLeader ≠ some m.leaderId then s.release else s
    let s := s.record [m.nodeId, m.leaderId] m.term
    if s.nodeLeader = some m.leaderId ∧ s.term m.leaderId = m.term then s
    else if m.leaderId ∈ s.nodesAll then s.sign m.leaderId
    else s

/-- A member has an answer, while the nodes `nodesAlive` are online. -/
def hearAnswer (s : Standing) (nodesAlive : List String) (flag : Flag) (m : NodeMsg) : Standing :=
  if s.nodeLeader.isSome ∧ s.own < m.term then s.release
  else
    let s := s.record [m.nodeId, m.leaderId] m.term
    match flag with
    | .rAskLeader =>
      if m.leaderId ≠ "" ∧ m.leaderId ∈ nodesAlive ∧ m.leaderId ∈ s.nodesAll then s.sign m.leaderId
      else s
    | .rLeader => if m.success = some false ∧ s.nodeLeader = some s.nodeMy then s.release else s
    | _ => s

/-- A member has a message. -/
def hear (s : Standing) (nodesAlive : List String) (request : Bool) (flag : Flag) (m : NodeMsg) :
    Standing :=
  if request then
    match flag with
    | .sGetVote => s.hearVote
    | .sBroadcastLeader => s.hearLeader m
    | _ => s
  else s.hearAnswer nodesAlive flag m

/-- What the standing of a member may become in one step of its own. -/
inductive Moves (s : Standing) : Standing → Prop where
  | keep : Moves s s
  | release : Moves s s.release
  | signSelf : Moves s (s.sign s.nodeMy)
  /-- An election begins, in the next term. -/
  | contest (h : s.nodeLeader = none) : Moves s (s.record [] (wrap 64 (s.own + 1)))
  | campaign (h : s.nodeLeader = none) (hst : s.status = .follower) : Moves s (s.become .candidate)
  | start (h : s.status = .init) : Moves s (s.become .follower)
  | close : Moves s (s.become .closed)

/-- A coherent standing: no node is known in a later term than the own one, the leader is of the own
term, and the status says whether it is the member itself. -/
structure Coherent (s : Standing) : Prop where
  terms : ∀ id, s.term id ≤ s.own
  leader : ∀ l, s.nodeLeader = some l → s.term l = s.own
  known : ∀ l, s.nodeLeader = some l → l = s.nodeMy ∨ l ∈ s.nodesAll
  leads : s.status = .leader → s.nodeLeader = some s.nodeMy
  self : s.nodeLeader = some s.nodeMy → s.status = .leader ∨ s.status = .closed
  open_ : s.status = .candidate ∨ s.status = .init → s.nodeLeader = none

end Standing

end OwnX.Cluster
