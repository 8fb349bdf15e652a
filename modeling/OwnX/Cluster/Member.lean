import OwnX.Cluster.Contact

/-!
# One member on its own

A member that receives messages with any contents at any time, in any order with its own steps. What
holds here of every reachable state holds whatever the other members do, faulty ones included.
-/

set_option linter.dupNamespace false

namespace OwnX.Cluster

/-- What may happen to a member: a step of its own, or a message. A request comes to the acceptor, an
answer to the connection to a node. -/
inductive Input where
  | act (env : Env) (action : Action)
  | receive (env : Env) (request : Bool) (flag : Flag) (nodeMsg : NodeMsg)

/-- The member after a message. -/
def Cluster.receive (c : Cluster) (env : Env) (request : Bool) (flag : Flag) (nodeMsg : NodeMsg) :
    Cluster :=
  if request then (c.acceptorReceived env flag nodeMsg).1 else c.nodeReceived env flag nodeMsg

/-- One step of a member. -/
def Cluster.step (c : Cluster) : Input → Option Cluster
  | .act env action => (c.act env action).map Prod.fst
  | .receive env request flag nodeMsg => some (c.receive env request flag nodeMsg)

/-- The member `nodeMy` of a configuration. -/
def member (conf : Conf) (nodeMy : String) : Machine Cluster Input where
  init := fun c => ∃ now, c = Cluster.create conf nodeMy now
  step := Cluster.step

/-- The term `currentTerm` of an invocation of `fightElection` that is past the flag `fighting`. -/
def Fight.term : Fight → Option Int
  | .start => none
  | .online currentTerm => some currentTerm
  | .askLeader currentTerm => some currentTerm
  | .settle currentTerm => some currentTerm
  | .vote currentTerm => some currentTerm
  | .getVote currentTerm => some currentTerm
  | .confirm currentTerm => some currentTerm

/-- The terms of the invocations of `fightElection` that are past the flag. -/
def Cluster.contests (c : Cluster) : List Int := c.fights.filterMap Fight.term

/-- An invocation of `fightElection` passes the flag `fighting` in this step. -/
def Cluster.passesFlag (c : Cluster) : Input → Bool
  | .act _ (.fight .start) =>
    !(c.status = .closed || c.status = .leader) && c.nodeLeader.isNone && !c.fighting
  | _ => false

/-- The member with the terms of all invocations of `fightElection` that have passed the flag so far,
the earliest first. -/
def memberContests (conf : Conf) (nodeMy : String) : Machine (Cluster × List Int) Input where
  init := fun s => (member conf nodeMy).init s.1 ∧ s.2 = []
  step := fun s i =>
    (s.1.step i).map fun c =>
      (c, if s.1.passesFlag i then s.2 ++ [s.1.nextTerm] else s.2)

/-- An invocation that passes the flag finds the own term below the last `int`. -/
def TermLeft (s : Cluster × List Int) (i : Input) : Prop :=
  s.1.passesFlag i = true → s.1.getMyTerm < 2 ^ 63 - 1

instance (s : Cluster × List Int) (i : Input) : Decidable (TermLeft s i) :=
  inferInstanceAs (Decidable (_ → _))

/-- The handler of a message records what it says of the nodes it names: a broadcast that is not stale, and
an answer that does not depose the leader. -/
def Cluster.records (c : Cluster) (request : Bool) (flag : Flag) (nodeMsg : NodeMsg) : Bool :=
  if request then flag = .sBroadcastLeader && c.getMyTerm ≤ nodeMsg.term
  else !(c.nodeLeader.isSome && c.getMyTerm < nodeMsg.term)

/-- When the node was last heard of, after a step: a message that is recorded names it, and a new connection
to it starts from nothing. -/
def Cluster.hear (c : Cluster) (heard : String → Option Int) : Input → String → Option Int
  | .act _ .assignConnector, id => if c.connecting.map Prod.fst = some id then none else heard id
  | .act _ _, id => heard id
  | .receive env request flag nodeMsg, id =>
    if c.records request flag nodeMsg ∧ id ∈ c.nodesAll ∧
        (id = nodeMsg.nodeId ∨ id = nodeMsg.leaderId) then some env.now
    else heard id

/-- The member with the time at which each node was last heard of since it was last connected to. -/
def memberHeard (conf : Conf) (nodeMy : String) :
    Machine (Cluster × (String → Option Int)) Input where
  init := fun s => (member conf nodeMy).init s.1 ∧ s.2 = fun _ => none
  step := fun s i => (s.1.step i).map fun c => (c, s.1.hear s.2 i)

end OwnX.Cluster
