import OwnX.Cluster.Node
import Mathlib.Tactic.Simps.Basic

/-!
# A cluster member (`cluster/service.go`)

The state of one `Cluster`. The records of `nodesAll` are kept under their ids, and a `*Node` is such
an id: `nodeMy`, `nodeLeader` and the entries of `nodesAlive` point into `nodesAll`. The goroutines
the member runs are part of the state, each at the point where it blocks.

Left out are the logger, the metrics and the event channel, which no decision reads, and the registry
of published jobs. `findMyNode` looks at the host; here the own id is given.
-/

set_option linter.dupNamespace false

namespace OwnX.Cluster

/-- `configure.Model`, as `Create` normalises it. -/
inductive Model where
  | cluster
  | single
  deriving DecidableEq, Repr

/-- `NodeConf`. -/
structure NodeConf where
  name : String
  ip : String
  port : Int
  deriving DecidableEq, Repr

/-- The id `loadAllNodes` gives a node. -/
def NodeConf.id (n : NodeConf) : String := n.ip ++ ":" ++ toString n.port

/-- `Conf`. -/
structure Conf where
  model : String
  nodeTimeout : Int
  nodes : List NodeConf
  deriving DecidableEq, Repr

/-- Where a `fightElection` goroutine blocks; `term` is its `currentTerm`. -/
inductive Fight where
  /-- In the random sleep at its start. -/
  | start
  /-- In the sleep of the loop that waits for nodes to come online. -/
  | online (term : Int)
  /-- In `sendAndWait` with `msgSAskLeader`. -/
  | askLeader (term : Int)
  /-- In the short sleep after that. -/
  | settle (term : Int)
  /-- In the sleep of the vote loop. -/
  | vote (term : Int)
  /-- In `sendAndWait` with `msgSGetVote`. -/
  | getVote (term : Int)
  /-- In `sendAndWait` with `msgSBroadcastLeader`. -/
  | confirm (term : Int)
  deriving DecidableEq, Repr

/-- A running `sendAndWait`: its channel and its local variables. `done` is set when its loop has
ended and the goroutine has not gone on yet. -/
structure Wait where
  senderNodeMap : List String
  nodeMsgList : List NodeMsg := []
  done : Bool := false
  deriving DecidableEq, Repr

/-- A connection this member has opened. `closed` is `socket.closed`, and `reading` says that its
`readIo` goroutine is running. -/
structure Conn where
  peer : String
  closed : Bool := false
  reading : Bool := true
  deriving DecidableEq, Repr

/-- `Cluster`. -/
structure Cluster where
  model : Model
  nodeTimeout : Int
  nodesAll : List String
  nodes : String → Node
  nodesAlive : List String
  nodeMy : String
  nodeLeader : Option String
  lostLeaderTime : Int
  status : Stat
  fighting : Bool
  sendAndWaitChan : Option Wait
  /-- `closeOnce` has run. -/
  closeOnce : Bool
  /-- The `fightElection` goroutines. -/
  fights : List Fight
  /-- The `holdConnection` goroutine runs. -/
  holding : Bool
  /-- The `heartbeat` goroutine runs. -/
  beating : Bool
  /-- The connection that `connectToNode` has opened and not yet assigned. -/
  connecting : Option (String × Nat)
  conns : List Conn
  /-- The peers whose `OnSessionClosed` callback has been started and has not run. -/
  pendingClosed : List String

namespace Cluster

/-- A write to `status`. -/
@[simps status]
def setStatus (c : Cluster) (status : Stat) : Cluster := { c with status := status }

/-- A write to `fighting`. -/
@[simps status]
def setFighting (c : Cluster) (fighting : Bool) : Cluster := { c with fighting := fighting }

/-- A write to `sendAndWaitChan`. -/
@[simps nodeMy]
def setWait (c : Cluster) (w : Option Wait) : Cluster := { c with sendAndWaitChan := w }

/-- A write to the `fightElection` goroutines. -/
def setFights (c : Cluster) (fights : List Fight) : Cluster := { c with fights := fights }

/-- A write to `nodesAlive`. -/
def setAlive (c : Cluster) (ids : List String) : Cluster := { c with nodesAlive := ids }

/-- A write to the connections and their callbacks. -/
def setConns (c : Cluster) (conns : List Conn) (pendingClosed : List String) : Cluster :=
  { c with conns := conns, pendingClosed := pendingClosed }

/-- A write to one record of `nodesAll`. -/
@[simps nodesAll nodes nodeMy]
def setNode (c : Cluster) (id : String) (n : Node) : Cluster :=
  { c with nodes := fun i => if i = id then n else c.nodes i }

/-- `nodesAll.Store`. -/
def storeNode (c : Cluster) (id : String) (n : Node) : Cluster :=
  { c.setNode id n with nodesAll := if id ∈ c.nodesAll then c.nodesAll else c.nodesAll ++ [id] }

/-- `loadAllNodes`. -/
def loadAllNodes (c : Cluster) (nodes : List NodeConf) : Cluster :=
  nodes.foldl
    (fun c n => c.storeNode n.id { name := if n.name = "" then n.ip else n.name : Node }) c

/-- `Create`, with the own id as `findMyNode` finds it. -/
def create (conf : Conf) (nodeMy : String) (now : Int) : Cluster :=
  loadAllNodes
    { model := if conf.model = "cluster" then .cluster else .single
      nodeTimeout := if conf.nodeTimeout ≤ 0 then 10 else conf.nodeTimeout
      nodesAll := [], nodes := fun _ => {}, nodesAlive := [], nodeMy := nodeMy, nodeLeader := none
      lostLeaderTime := now, status := .init, fighting := false, sendAndWaitChan := none
      closeOnce := false, fights := [], holding := false, beating := false, connecting := none
      conns := [], pendingClosed := [] }
    conf.nodes

/-- `GetMyNode`. -/
def getMyNode (c : Cluster) : Node := c.nodes c.nodeMy

/-- `GetMyTerm`. -/
def getMyTerm (c : Cluster) : Int := c.getMyNode.term

/-- The term of the next election, `currentTerm++`: after the last `int` comes the first one. -/
def nextTerm (c : Cluster) : Int := wrap 64 (c.getMyTerm + 1)

/-- `IsClose`. -/
def isClose (c : Cluster) : Bool := c.status = .closed

/-- `IsReady`. -/
def isReady (c : Cluster) : Bool :=
  match c.status with
  | .leader | .candidate | .follower => !c.fighting
  | _ => false

/-- `IsLeader`. -/
def isLeader (c : Cluster) : Bool := c.status = .leader

/-- `GetAllNodeNames`. -/
def getAllNodeNames (c : Cluster) : List String := c.nodesAll.map fun id => (c.nodes id).name

/-- `GetAliveNodeNames`. -/
def getAliveNodeNames (c : Cluster) : List String :=
  c.getMyNode.name :: c.nodesAlive.map fun id => (c.nodes id).name

/-- The online nodes are more than half of all: the test of `fightElection` and `OnSessionClosed`. -/
def hasMajority (c : Cluster) : Bool :=
  c.getAllNodeNames.length / 2 < c.getAliveNodeNames.length

/-- The writes of `signLeader`. -/
@[simps status]
def setLeader (c : Cluster) (newLeaderNode : String) : Cluster :=
  { c with
    nodeLeader := some newLeaderNode
    status := if c.nodeMy = newLeaderNode then .leader else .follower }

/-- `signLeader`: the member after the call, and the result. -/
def signLeader (c : Cluster) (newLeaderNode : String) : Cluster × Bool :=
  let newTerm := (c.nodes newLeaderNode).term
  if newTerm < c.getMyTerm then (c, false)
  else
    match c.nodeLeader with
    | none => (c.setLeader newLeaderNode, true)
    | some l =>
      if newTerm < (c.nodes l).term then (c, false)
      else if l = newLeaderNode then (c, true)
      else (c.setLeader newLeaderNode, true)

/-- `releaseLeader`. -/
def releaseLeader (c : Cluster) (now : Int) : Cluster :=
  { c with nodeLeader := none, lostLeaderTime := now, status := .follower }

/-- `go cluster.fightElection()`. -/
@[simps fights]
def goFight (c : Cluster) (f : Fight) : Cluster := { c with fights := c.fights ++ [f] }

/-- `toNextTerm`. -/
def toNextTerm (c : Cluster) (now : Int) : Cluster := (c.releaseLeader now).goFight .start

/-- `Close` of the connector of a node: the callback is started, even if it was closed before. -/
def closeConnector (c : Cluster) (id : String) : Cluster :=
  match (c.nodes id).nodeConnector with
  | some k =>
    c.setConns (c.conns.modify k fun conn => { conn with closed := true }) (c.pendingClosed ++ [id])
  | none => c

/-- `StartUp`. -/
def startUp (c : Cluster) : Cluster :=
  match c.model with
  | .single => (c.signLeader c.nodeMy).1
  | .cluster =>
    if c.status ≠ .init then c
    else ({ c with holding := true, beating := true }.setStatus .follower).goFight .start

/-- `Close` of the connector of a node, which is then forgotten. -/
def dropConnector (c : Cluster) (id : String) : Cluster :=
  (c.closeConnector id).setNode id { c.nodes id with nodeConnector := none }

/-- `Close`. -/
def close (c : Cluster) : Cluster :=
  if c.closeOnce then c
  else c.nodesAll.foldl dropConnector ({ c with closeOnce := true }.setStatus .closed)

end Cluster

end OwnX.Cluster
