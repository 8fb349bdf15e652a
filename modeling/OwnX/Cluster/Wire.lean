import OwnX.Cluster.Network
import OwnX.Nio.Pipe

/-!
# The members of a cluster and their connections (`cluster/contact.go`, `nio/`)

The cluster at the level of bytes. A message is written as JSON in one frame to a connection, with the flag
byte of its kind. `readIo` at the other end reads what has arrived, in pieces of any size. No acceptor and no
connector of the cluster is `ordered`, so `OnMessageReceived` runs in a goroutine of its own for every frame
that is complete; these goroutines run in any order. A request is written to the connector stored for the
node; an answer goes to the session the request came from.

JSON is not modelled: what `json.Marshal` makes of a message and what `json.Unmarshal` reads are parameters.
-/

set_option linter.dupNamespace false

namespace OwnX.Cluster

open Nio (Bytes Body Pipe DefaultCodec Packages ReadEvent)

/-- The flag byte (`cluster/const.go`). A member sends no message without a name. -/
def Flag.byte : Flag → UInt8
  | .ok => 200
  | .sGetVote => 12
  | .sAskLeader => 13
  | .sBroadcastLeader => 14
  | .sPublishJob => 15
  | .rGetVote => 30
  | .rAskLeader => 32
  | .rLeader => 31
  | .other => 0

/-- The case of the `switch` on `message.Flag()`. -/
def Flag.ofByte (b : UInt8) : Flag :=
  if b = 200 then .ok
  else if b = 12 then .sGetVote
  else if b = 13 then .sAskLeader
  else if b = 14 then .sBroadcastLeader
  else if b = 15 then .sPublishJob
  else if b = 30 then .rGetVote
  else if b = 32 then .rAskLeader
  else if b = 31 then .rLeader
  else .other

/-- What the cluster uses of `encoding/json`. -/
structure Json where
  packages : Packages NodeMsg
  /-- `json.Unmarshal` into a `NodeMsg`; an error is dropped. -/
  unmarshal : Bytes → NodeMsg

/-- `getDefaultCodec(false)`: the codec of every acceptor and connector. -/
def Json.codec (json : Json) : DefaultCodec NodeMsg where
  packages := json.packages
  gzip := false

/-- `msg2node`. -/
def Json.msg2node (json : Json) (data : Option Bytes) : NodeMsg := json.unmarshal (data.getD [])

/-- The message fits a frame, and JSON reads back what it has written. -/
def Json.Carries (json : Json) (m : NodeMsg) : Prop :=
  Nio.Fits json.codec (some (.value m)) ∧ json.unmarshal (Nio.toByte json.packages (.value m)) = m

instance (json : Json) (m : NodeMsg) : Decidable (json.Carries m) := inferInstanceAs (Decidable (_ ∧ _))

/-- The connection with the number `k` of the member `client`, to the acceptor of `server`. -/
structure Line where
  client : String
  server : String
  k : Nat
  deriving DecidableEq, Repr

/-- The message that `flag` and `msg` make in one direction of a connection. -/
def Line.packet (l : Line) (request : Bool) (flag : Flag) (msg : NodeMsg) : Packet :=
  if request then { src := l.client, dst := l.server, request := true, flag := flag, msg := msg }
  else { src := l.server, dst := l.client, request := false, flag := flag, msg := msg }

/-- The members and their connections. The lane of `true` leads to the acceptor. -/
structure Wire where
  members : String → Cluster
  lanes : Line → Bool → Pipe

/-- What may happen next. -/
inductive WireEvent where
  /-- A member takes a step of its own. -/
  | act (id : String) (env : Env) (action : Action)
  /-- A write fails after `n` bytes. -/
  | fail (l : Line) (request : Bool) (flag : Flag) (msg : NodeMsg) (n : Nat)
  /-- A read returns `n` bytes. -/
  | read (l : Line) (request : Bool) (n : Nat)
  /-- A read returns nothing. -/
  | readEnds (l : Line) (request : Bool) (e : ReadEvent)
  /-- A goroutine of `OnMessageReceived` runs. -/
  | handle (l : Line) (request : Bool) (env : Env) (msg : Nio.Msg)

namespace Wire

/-- A write to one member. -/
def setMember (w : Wire) (id : String) (c : Cluster) : Wire :=
  { w with members := fun i => if i = id then c else w.members i }

/-- A write to one lane. -/
def setLane (w : Wire) (l : Line) (request : Bool) (lane : Pipe) : Wire :=
  { w with lanes := fun l' r => if l' = l ∧ r = request then lane else w.lanes l' r }

/-- `Session.Write`. -/
def write (json : Json) (w : Wire) (l : Line) (request : Bool) (flag : Flag) (msg : NodeMsg) : Wire :=
  w.setLane l request ((w.lanes l request).write json.codec flag.byte (some (.value msg)))

/-- `SendMessage` of the member `id` to the node `dst`, whose record is `n`. Without a connector it returns
an error. -/
def sendMessage (json : Json) (w : Wire) (id dst : String) (n : Node) (flag : Flag) (msg : NodeMsg) : Wire :=
  match n.nodeConnector with
  | some k => w.write json ⟨id, dst, k⟩ true flag msg
  | none => w

/-- The messages a step of the member `id` sends, whose state before it is `c`. -/
def sendMessages (json : Json) (w : Wire) (id : String) (c : Cluster) (out : Out) : Wire :=
  out.foldl (fun w m => w.sendMessage json id m.1 (c.nodes m.1) m.2.1 m.2.2) w

/-- The answers of a handler. -/
def writeAnswers (json : Json) (w : Wire) (l : Line) (replies : List (Flag × NodeMsg)) : Wire :=
  replies.foldl (fun w m => w.write json l false m.1 m.2) w

/-- `readIo` of a lane runs. At the end of an answer lane it is that of the member's own connection. -/
def canRead (w : Wire) (l : Line) (request : Bool) : Bool :=
  request || ((w.members l.client).conns[l.k]?).any fun conn => conn.reading

/-- `OnMessageReceived` of the acceptor or of the connection to a node. -/
def onMessageReceived (json : Json) (w : Wire) (l : Line) (request : Bool) (env : Env) (msg : Nio.Msg) :
    Wire :=
  let flag := Flag.ofByte msg.flag
  let nodeMsg := json.msg2node msg.data
  if request then
    let r := (w.members l.server).acceptorReceived env flag nodeMsg
    (w.setMember l.server r.1).writeAnswers json l r.2
  else w.setMember l.client ((w.members l.client).nodeReceived env flag nodeMsg)

/-- One step of the cluster whose members have the ids `ids`. -/
def step (json : Json) (ids : List String) (w : Wire) : WireEvent → Option Wire
  | .act id env action =>
    if id ∈ ids then
      ((w.members id).act env action).map fun r =>
        (w.setMember id r.1).sendMessages json id (w.members id) r.2
    else none
  | .fail l request flag msg n =>
    if n < (Nio.encode json.codec flag.byte (some (.value msg))).length then
      some (w.setLane l request ((w.lanes l request).fail json.codec flag.byte (some (.value msg)) n))
    else none
  | .read l request n =>
    if w.canRead l request then
      ((w.lanes l request).read json.codec false n).map fun p => w.setLane l request p
    else none
  | .readEnds l request e =>
    ((w.lanes l request).readEnds json.codec false e).map fun p => w.setLane l request p
  | .handle l request env msg =>
    ((w.lanes l request).receive msg).map fun p =>
      (w.setLane l request p).onMessageReceived json l request env msg

/-- The messages a step writes. -/
def written (json : Json) (w : Wire) : WireEvent → List NodeMsg
  | .act id env action => (((w.members id).act env action).map fun r => r.2.map fun m => m.2.2).getD []
  | .fail _ _ _ msg _ => [msg]
  | .handle l true env msg =>
    ((w.members l.server).acceptorReceived env (Flag.ofByte msg.flag) (json.msg2node msg.data)).2.map
      Prod.snd
  | _ => []

/-- JSON carries every message that a step writes. -/
def Carried (json : Json) (w : Wire) (e : WireEvent) : Prop := ∀ m ∈ w.written json e, json.Carries m

instance (json : Json) (w : Wire) (e : WireEvent) : Decidable (w.Carried json e) :=
  inferInstanceAs (Decidable (∀ _ ∈ _, _))

end Wire

/-- The cluster of a configuration, with its connections. -/
def wire (json : Json) (conf : Conf) : Machine Wire WireEvent where
  init := fun w => ∃ now, w = { members := fun id => Cluster.create conf id now, lanes := fun _ _ => {} }
  step := Wire.step json conf.ids

end OwnX.Cluster
