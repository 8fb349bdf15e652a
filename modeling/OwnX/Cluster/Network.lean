import OwnX.Cluster.Contact
import Mathlib.Data.Multiset.AddSub
import Mathlib.Data.Multiset.Filter

/-!
# The members of a cluster and their messages

The members are created from one configuration. A message in flight may be delivered at any time, in
any order, at most once, and perhaps never; no message is forged or changed.
-/

set_option linter.dupNamespace false

namespace OwnX.Cluster

/-- A message in flight. A request goes to the acceptor of `dst`, an answer to the connection that
`dst` has to `src`. -/
structure Packet where
  src : String
  dst : String
  request : Bool
  flag : Flag
  msg : NodeMsg
  deriving DecidableEq, Repr

/-- The members, by their ids, and the messages in flight. -/
structure Network where
  members : String → Cluster
  packets : Multiset Packet

/-- What may happen next. -/
inductive Event where
  /-- A member takes a step of its own. -/
  | act (id : String) (env : Env) (action : Action)
  /-- A message is received. -/
  | receive (env : Env) (p : Packet)

namespace Network

/-- A write to one member. -/
def setMember (s : Network) (id : String) (c : Cluster) : Network :=
  { s with members := fun i => if i = id then c else s.members i }

/-- Messages are sent. -/
def send (s : Network) (ps : List Packet) : Network := { s with packets := s.packets + ps }

/-- The requests a member sends. -/
def requests (id : String) (out : Out) : List Packet :=
  out.map fun m => { src := id, dst := m.1, request := true, flag := m.2.1, msg := m.2.2 }

/-- The answers a member writes to the session of a request. -/
def answers (p : Packet) (replies : List (Flag × NodeMsg)) : List Packet :=
  replies.map fun m => { src := p.dst, dst := p.src, request := false, flag := m.1, msg := m.2 }

/-- The message `p` is handled by the member it is for; it has been taken out of `s`. -/
def handle (s : Network) (env : Env) (p : Packet) : Network :=
  if p.request then
    let r := (s.members p.dst).acceptorReceived env p.flag p.msg
    (s.setMember p.dst r.1).send (answers p r.2)
  else s.setMember p.dst ((s.members p.dst).nodeReceived env p.flag p.msg)

/-- One step of the cluster whose members have the ids `ids`. -/
def step (ids : List String) (s : Network) : Event → Option Network
  | .act id env action =>
    if id ∈ ids then
      ((s.members id).act env action).map fun r => (s.setMember id r.1).send (requests id r.2)
    else none
  | .receive env p =>
    if p ∈ s.packets then some ({ s with packets := s.packets.erase p }.handle env p) else none

end Network

/-- The ids of the configured nodes. -/
def Conf.ids (conf : Conf) : List String := conf.nodes.map NodeConf.id

/-- The members before they are started. -/
def Network.initial (conf : Conf) (now : Int) : Network where
  members := fun id => Cluster.create conf id now
  packets := 0

/-- The cluster of a configuration. -/
def network (conf : Conf) : Machine Network Event where
  init := fun s => ∃ now, s = Network.initial conf now
  step := Network.step conf.ids

end OwnX.Cluster
