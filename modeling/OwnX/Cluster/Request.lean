import OwnX.Cluster.Network

/-!
# The calls of `sendAndWait` (`cluster/contact.go`)

The cluster together with the latest call of `sendAndWait` that each member has made. No step reads
this record.

All answers go to the one channel `sendAndWaitChan`, whatever request they answer. The loop of
`sendAndWait` takes every message from it.
-/

set_option linter.dupNamespace false

namespace OwnX.Cluster

/-- The places at which an invocation of `fightElection` waits in `sendAndWait`. -/
def Fight.waits : Fight → Bool
  | .askLeader _ => true
  | .getVote _ => true
  | .confirm _ => true
  | _ => false

/-- A call of `sendAndWait`. -/
structure Call where
  /-- The `ReqId` generated for it. -/
  reqId : String
  /-- The nodes its message was sent to. -/
  sent : List String
  deriving DecidableEq, Repr

/-- The messages answer the call: each carries its `ReqId` and comes from a node it was sent to, and no
two come from the same node. -/
structure Call.Answered (call : Call) (nodeMsgList : List NodeMsg) : Prop where
  own : ∀ m ∈ nodeMsgList, m.reqId = call.reqId ∧ m.nodeId ∈ call.sent
  once : (nodeMsgList.map NodeMsg.nodeId).Nodup

/-- A step from `c` to `c'` has called `sendAndWait`: an invocation waits there that did not before. -/
def Cluster.begins (c c' : Cluster) : Bool := c'.fights.any fun f => f.waits && !decide (f ∈ c.fights)

/-- The call of `sendAndWait` that a step makes. -/
def Cluster.callMade (c : Cluster) (env : Env) (a : Action) : Option Call :=
  (c.act env a).bind fun r =>
    if c.begins r.1 then some { reqId := env.uuid, sent := r.2.map Prod.fst } else none

/-- The other party of a message that belongs to a call of `id`: the node that is asked, or the node
whose answer a handler will send to `sendAndWaitChan`. -/
def Packet.party (id : String) (p : Packet) : Option String :=
  if p.request then (if p.src = id then some p.dst else none)
  else if p.dst = id ∧ p.flag ≠ .ok then some p.src
  else none

/-- The cluster and the latest call of each member. -/
structure Calls where
  net : Network
  calls : String → Option Call

namespace Calls

/-- The latest calls after an event. -/
def note (x : Calls) : Event → String → Option Call
  | .act id env a => fun i =>
    if i = id then ((x.net.members id).callMade env a).or (x.calls i) else x.calls i
  | .receive _ _ => x.calls

def step (ids : List String) (x : Calls) (e : Event) : Option Calls :=
  (Network.step ids x.net e).map fun net => { net := net, calls := x.note e }

/-- A member calls `sendAndWait` only when no request of its own and no answer to one is in flight. -/
def Drained (x : Calls) : Event → Prop
  | .act id env a =>
    ((x.net.members id).callMade env a).isSome → ∀ p ∈ x.net.packets, p.party id = none
  | .receive _ _ => True

instance (x : Calls) (e : Event) : Decidable (x.Drained e) :=
  match e with
  | .act _ _ _ => inferInstanceAs (Decidable (_ → _))
  | .receive _ _ => inferInstanceAs (Decidable True)

end Calls

/-- The cluster of a configuration, with the calls of its members. -/
def networkCalls (conf : Conf) : Machine Calls Event where
  init := fun x => (network conf).init x.net ∧ x.calls = fun _ => none
  step := Calls.step conf.ids

end OwnX.Cluster
