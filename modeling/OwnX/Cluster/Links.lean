import OwnX.Cluster.Member

/-!
# The connections of a member

What a member keeps of its connections to the other nodes: the connections themselves, the connector
stored for each node, the nodes it takes for online, the connection that `connectToNode` has opened
and not yet stored, and the callbacks still to run. Elections and messages leave all of it alone.
-/

set_option linter.dupNamespace false

namespace OwnX.Cluster

/-- The connections of a member and what it keeps of them. -/
@[ext]
structure Links where
  conns : List Conn
  pendingClosed : List String
  connecting : Option (String × Nat)
  nodesAlive : List String
  nodeConnector : String → Option Nat

/-- The connections of a member in the state `c`. -/
@[simps]
def Cluster.links (c : Cluster) : Links where
  conns := c.conns
  pendingClosed := c.pendingClosed
  connecting := c.connecting
  nodesAlive := c.nodesAlive
  nodeConnector := fun id => (c.nodes id).nodeConnector

namespace Links

/-- The number of the most recent connection to `id`. -/
def latest (l : Links) (id : String) : Option Nat :=
  ((l.conns.map Conn.peer).reverse.idxOf? id).map fun i => l.conns.length - 1 - i

/-- The most recent connection to `id` is open. -/
def isOpen (l : Links) (id : String) : Bool :=
  match l.latest id with
  | some k => (l.conns[k]?).any fun conn => !conn.closed
  | none => false

/-- The connector of one node is written. -/
@[simps]
def setConnector (l : Links) (id : String) (k : Option Nat) : Links :=
  { l with nodeConnector := fun i => if i = id then k else l.nodeConnector i }

/-- A connection to `id` is opened, and `id` is online. -/
@[simps]
def connect (l : Links) (id : String) : Links :=
  { l with
    connecting := some (id, l.conns.length)
    conns := l.conns ++ [{ peer := id }]
    nodesAlive := if id ∈ l.nodesAlive then l.nodesAlive else l.nodesAlive ++ [id] }

/-- The opened connection is stored. -/
def assign (l : Links) (id : String) (k : Nat) : Links :=
  { l with connecting := none }.setConnector id (some k)

/-- The connection `k` is changed, and callbacks are started. -/
@[simps]
def change (l : Links) (k : Nat) (f : Conn → Conn) (ids : List String) : Links :=
  { l with conns := l.conns.modify k f, pendingClosed := l.pendingClosed ++ ids }

/-- The connector stored for `id` is closed. -/
def closeConnector (l : Links) (id : String) : Links :=
  match l.nodeConnector id with
  | some k => l.change k (fun conn => { conn with closed := true }) [id]
  | none => l

/-- The connector stored for `id` is closed and forgotten. -/
def dropConnector (l : Links) (id : String) : Links := (l.closeConnector id).setConnector id none

/-- The callback of a closed connection to `id` runs. -/
def callback (l : Links) (id : String) : Links :=
  { l with
    pendingClosed := l.pendingClosed.erase id
    nodesAlive := l.nodesAlive.erase id }.setConnector id none

/-- What a step of a member does to its connections. The label is the node whose callback runs. -/
inductive Moves (l : Links) : Option String → Links → Prop where
  | keep : Moves l none l
  | connect {id : String} (h : l.connecting = none) (hid : l.nodeConnector id = none) :
      Moves l none (l.connect id)
  | assign {id : String} {k : Nat} (h : l.connecting = some (id, k)) : Moves l none (l.assign id k)
  | readFail {k : Nat} {conn : Conn} (h : l.conns[k]? = some conn) :
      Moves l none
        (l.change k (fun conn => { conn with closed := true, reading := false }) [conn.peer])
  | readStop (k : Nat) : Moves l none (l.change k (fun conn => { conn with reading := false }) [])
  | timeOut (ids : List String) : Moves l none (ids.foldl closeConnector l)
  | close (ids : List String) : Moves l none (ids.foldl dropConnector l)
  | callback {id : String} (h : id ∈ l.pendingClosed) : Moves l (some id) (l.callback id)

/-- The bookkeeping of the node `id` is right: a connector is stored exactly if the node is online,
and it is online exactly if the most recent connection to it is open. -/
def InStep (l : Links) (id : String) : Prop :=
  ((l.nodeConnector id).isSome ↔ id ∈ l.nodesAlive) ∧ (id ∈ l.nodesAlive ↔ l.isOpen id)

end Links

end OwnX.Cluster
