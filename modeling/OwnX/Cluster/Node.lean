import OwnX.Foundations.Machine
import OwnX.Foundations.MachineInt
import Mathlib.Data.List.AList
import Mathlib.Data.List.Sort

/-!
# A node's record and its votes (`cluster/node.go`, `cluster/const.go`)

A Go map is an association list; a nil map and an empty one read the same. A term is an `int`, and only
an election computes one; in a message it may be any integer. Counts are unbounded integers. A point in
time is its number of seconds, and the zero time is `none`.

The fields `ip` and `port` only serve to open a socket and are left out.
-/

namespace OwnX.Cluster

/-- `status`. `init` is the zero value, before `StartUp`. -/
inductive Stat where
  | init
  | leader
  | candidate
  | follower
  | closed
  deriving DecidableEq, Repr

/-- The flag byte of a frame; `other` is any value without a name. -/
inductive Flag where
  | ok
  | sGetVote
  | sAskLeader
  | sBroadcastLeader
  | sPublishJob
  | rGetVote
  | rAskLeader
  | rLeader
  | other
  deriving DecidableEq, Repr

/-- `NodeMsg`. A field that JSON leaves out reads as `""` or nil. -/
structure NodeMsg where
  nodeId : String
  term : Int
  leaderId : String := ""
  reqId : String := ""
  success : Option Bool := none
  flag : String := ""
  deriving DecidableEq, Repr

/-- `Node`. `nodeConnector` is the number of a connection. -/
structure Node where
  name : String := ""
  term : Int := 0
  voteCount : AList (fun _ : Int => Int) := ∅
  voteNode : AList (fun _ : Int => String) := ∅
  nodeConnector : Option Nat := none
  hbTime : Option Int := none
  deriving DecidableEq

namespace Node

/-- `clear`. -/
def clear (n : Node) : Node := { n with hbTime := none }

/-- `updateHbTime`. -/
def updateHbTime (n : Node) (now : Int) : Node := { n with hbTime := some now }

/-- `isTimeOut`. -/
def isTimeOut (n : Node) (now timeout : Int) : Bool :=
  match n.hbTime with
  | some lastTime => timeout < now - lastTime
  | none => false

/-- `getVoteCount`. -/
def getVoteCount (n : Node) (term : Int) : Int := (n.voteCount.lookup term).getD 0

/-- `addVoteCount`. -/
def addVoteCount (n : Node) (term : Int) : Node :=
  { n with voteCount := n.voteCount.insert term (n.getVoteCount term + 1) }

/-- `getVoteToNode`. -/
def getVoteToNode (n : Node) (term : Int) : String := (n.voteNode.lookup term).getD ""

/-- `voteToNode`: the node after the call, and the result. -/
def voteToNode (n : Node) (yourTerm : Int) (yourNodeId : String) : Node × Bool :=
  if n.getVoteToNode yourTerm = "" then
    if n.term ≤ yourTerm then
      ({ n with voteNode := n.voteNode.insert yourTerm yourNodeId }, true)
    else (n, false)
  else (n, false)

/-- `setTerm`: the node after the call, and the result. -/
def setTerm (n : Node) (newTerm : Int) : Node × Bool :=
  if newTerm ≤ n.term then (n, false) else ({ n with term := newTerm }, true)

end Node

/-- The keys a pruning pass of `heartbeat` deletes from a vote table: the ten smallest, if there are
more than twenty. -/
def prunedKeys {β : Int → Type} (m : AList β) : List Int :=
  if 20 < m.keys.length then (m.keys.insertionSort (· ≤ ·)).take 10 else []

/-- A pruning pass over one vote table. -/
def pruneVotes {β : Int → Type} (m : AList β) : AList β :=
  (prunedKeys m).foldl (fun m k => m.erase k) m

/-- The end of a `heartbeat` tick: both vote tables are pruned. -/
def Node.prune (n : Node) : Node :=
  { n with voteCount := pruneVotes n.voteCount, voteNode := pruneVotes n.voteNode }

/-! ## The votes of one node -/

/-- What may happen to the vote table of a node. -/
inductive VoteOp where
  | vote (term : Int) (nodeId : String)
  | setTerm (term : Int)
  | prune
  deriving DecidableEq, Repr

/-- A node under any sequence of calls, with the terms for which `voteToNode` has returned true. -/
def voteMachine : Machine (Node × List Int) VoteOp where
  init := fun s => s.2 = []
  step := fun s op =>
    match op with
    | .vote term nodeId =>
      let r := s.1.voteToNode term nodeId
      some (r.1, if r.2 then term :: s.2 else s.2)
    | .setTerm term => some ((s.1.setTerm term).1, s.2)
    | .prune => some (s.1.prune, s.2)

end OwnX.Cluster
