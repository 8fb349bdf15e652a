import Mathlib.Data.List.Dedup
import Mathlib.Logic.Function.Basic

/-!
# The node allocator (`task/node/allocator.go`)

The leader cuts a round into one partition per alive node and publishes the whole map. Every node
builds the tasks of its own partition, counts its batches as they finish, and tells the others when
the last one has. A node that finds every other partition done ends the round.

What a call of the allocator does outside its own fields is a list of effects: tasks put into the
worker, jobs published to the cluster, calls of the scheduler. The functions registered in the cluster
take an `interface{}`, which is a `Value` here.
-/

namespace OwnX.Task

/-- A node's share of a round. -/
structure Partition where
  nodeName : String
  startIndex : Int
  endIndex : Int
  sortBy : String
  round : Int
  roundDone : Bool := false
  batchCount : Int
  finBatchCount : Int := 0
  batchSize : Int
  deriving DecidableEq, Repr

/-- A `map[string]*task.Partition`. Each key has a partition of its own. -/
abbrev Partitions := String → Option Partition

/-- What decoding JSON into an `interface{}` yields. -/
inductive Untyped where
  | null
  | bool (b : Bool)
  | number (x : Float)
  | string (s : String)
  | array (l : List Untyped)
  | object (m : List (String × Untyped))

/-- The dynamic values of the `interface{}` that the registered functions take. -/
inductive Value where
  /-- A `map[string]*task.Partition`. -/
  | partitions (np : Partitions)
  /-- A `*task.Partition`. -/
  | partition (pt : Partition)
  /-- A `[]string`. -/
  | strings (l : List String)
  | untyped (u : Untyped)

/-- A `[]string` with the capacity of its array, which holds empty strings past the length. -/
structure Slice where
  elems : List String
  capacity : Nat
  length_le : elems.length ≤ capacity

theorem Slice.nil_length_le : ([] : List String).length ≤ 0 := Nat.le_refl 0

/-- The expression `s[lo:hi]`; `none` is the panic for bounds out of range. -/
def Slice.slice (s : Slice) (lo hi : Nat) : Option (List String) :=
  if lo ≤ hi ∧ hi ≤ s.capacity then
    some (((s.elems ++ List.replicate (s.capacity - s.elems.length) "").drop lo).take (hi - lo))
  else none

/-- What the allocator asks of `cluster.DefaultCluster`. -/
structure View where
  myName : String
  aliveNodeNames : List String
  aliveNodeIps : Slice

def Job.syncPartition : String := "task_node_sync_partition"

def Job.syncPartitionDone : String := "task_node_sync_partition_done"

def Job.manualCutInLine : String := "task_node_cut_in_line"

/-- A task in the worker: one that a build function made, or the `batchDoneTask` of a batch. -/
inductive Queued (T : Type) where
  | built (t : T)
  | batchDone (batchIndex : Nat)
  deriving DecidableEq, Repr

/-- What a call does outside the allocator. -/
inductive Effect (T : Type) where
  /-- `Worker.Put` is called with some tasks, and sends the first `sent` of them. -/
  | put (tasks : List (Queued T)) (sent : Nat)
  /-- `PublishJob`. -/
  | publishJob (jobName : String) (jobList : List (String × Value))
  /-- `DefaultScheduler.RoundDone`. -/
  | roundDone (round : Int)
  /-- The goroutine of `roundDoneTimeout`. -/
  | roundDoneTimeout (round : Int)

/-- An `Allocator` whose worker tasks are of type `T`. A build function that fails is `none`. -/
structure Allocator (T : Type) where
  nodePartition : Partitions := fun _ => none
  taskBuildFuncs : List (Int → List String → Option (List T)) := []
  cutInLineFuncs : List (List String → Option (List T)) := []
  /-- The number of buckets of `Worker`, which is one of `NewWorker`. -/
  buckets : Nat := 1
  buckets_pos : 0 < buckets := by exact Nat.one_pos
  /-- The `ID` of a task. -/
  taskID : T → Int := fun _ => 0

/-- Why a call does not return. -/
inductive Panic where
  /-- The bounds of a slice are out of range. -/
  | slice
  /-- An index is out of range. -/
  | index
  deriving DecidableEq, Repr

/-- What a call leaves behind: the allocator, its effects in order, the registered functions that it has
called, each by its number and with the list it was handed, and the panic that ends it. -/
structure Outcome (T : Type) where
  allocator : Allocator T
  effects : List (Effect T) := []
  handed : List (Nat × List String) := []
  panic : Option Panic := none

/-- The rest of a call, after a part that may have panicked. -/
def Outcome.andThen {T : Type} (o next : Outcome T) : Outcome T :=
  match o.panic with
  | some _ => o
  | none => { next with effects := o.effects ++ next.effects, handed := o.handed ++ next.handed }

/-- A job list that has the same data for every name; it is a map, so each name is there once. -/
def jobList (names : List String) (data : Value) : List (String × Value) :=
  names.dedup.map fun name => (name, data)

/-! ## Cutting a round -/

/-- The partition that `StartAlloc` makes for the `i`-th of `n` names. The end of the last one is
moved after its batches are counted. -/
def newPartition (n : Nat) (round : Int) (i : Nat) (name : String) : Partition :=
  let eachPartitionNodes : Int := n / n
  let startIndex : Int := 0 + eachPartitionNodes * i
  let endIndex : Int := eachPartitionNodes + eachPartitionNodes * i
  { nodeName := name
    startIndex
    endIndex := if i = n - 1 then n - 1 else endIndex
    sortBy := "created_at"
    round
    batchCount := (endIndex - startIndex) / 1000 +
      if (endIndex - startIndex) % 1000 > 0 then 1 else 0
    batchSize := 1000 }

/-- One turn of the loop of `StartAlloc`: the `i`-th name is stored with its partition. -/
def addPartition (n : Nat) (round : Int) (np : Partitions) (x : String × Nat) : Partitions :=
  Function.update np x.1 (some (newPartition n round x.2 x.1))

/-- The map that `StartAlloc` builds. -/
def roundPartitions (names : List String) (round : Int) : Partitions :=
  names.zipIdx.foldl (addPartition names.length round) fun _ => none

namespace Allocator

variable {T : Type}

/-- Cut the round and publish the map to every alive node. -/
def startAlloc (a : Allocator T) (view : View) (round : Int) : List (Effect T) :=
  let names := view.aliveNodeNames
  if a.taskBuildFuncs.isEmpty ∨ names.isEmpty then [.roundDoneTimeout round]
  else [.publishJob Job.syncPartition (jobList names (.partitions (roundPartitions names round))),
    .roundDoneTimeout round]

/-! ## A node's own batches -/

/-- `Put` finds a bucket for the task. The remainder of a negative `ID` may be negative, and then the
index is out of range. The `ID` of a `batchDoneTask` is the time. -/
def hasBucket (a : Allocator T) : Queued T → Bool
  | .built t => 0 ≤ (a.taskID t).tmod a.buckets
  | .batchDone _ => true

/-- `Worker.Put`. -/
def put (a : Allocator T) (tasks : List (Queued T)) : Outcome T :=
  let sent := (tasks.takeWhile a.hasBucket).length
  { allocator := a
    effects := [.put tasks sent]
    panic := if sent < tasks.length then some .index else none }

/-- The registered function with the number `k` is handed a list, and what it returns is put with the
tasks `behind`. If it fails, nothing is. -/
def callFunc (a : Allocator T) (nodeIPList : List String) (behind : List (Queued T)) (k : Nat)
    (f : List String → Option (List T)) : Outcome T :=
  match f nodeIPList with
  | none => { allocator := a, handed := [(k, nodeIPList)] }
  | some tasks => { a.put (tasks.map .built ++ behind) with handed := [(k, nodeIPList)] }

/-- The loop over registered functions, of which the first one left has the number `k`. -/
def callFuncs (a : Allocator T) (nodeIPList : List String) (behind : List (Queued T)) :
    Nat → List (List String → Option (List T)) → Outcome T
  | _, [] => { allocator := a }
  | k, f :: rest =>
    (a.callFunc nodeIPList behind k f).andThen (a.callFuncs nodeIPList behind (k + 1) rest)

/-- The turn of the loop of `roundRun` for one batch: the tasks of a build function are put with a
`batchDoneTask` behind them. -/
def buildBatch (a : Allocator T) (round : Int) (index : Nat) (nodeIPList : List String) : Outcome T :=
  if 0 < nodeIPList.length then
    a.callFuncs nodeIPList [.batchDone index] 0 (a.taskBuildFuncs.map fun f => f round)
  else { allocator := a }

/-- The loop of `roundRun` over the batch indices that are left. -/
def buildBatches (a : Allocator T) (view : View) (p : Partition) : List Nat → Outcome T
  | [] => { allocator := a }
  | index :: rest =>
    match view.aliveNodeIps.slice index (index + p.batchCount.toNat) with
    | none => { allocator := a, panic := some .slice }
    | some nodeIPList =>
      (a.buildBatch p.round index nodeIPList).andThen (a.buildBatches view p rest)

/-- Build the tasks of this node's partition. -/
def roundRun (a : Allocator T) (view : View) : Outcome T :=
  match a.nodePartition view.myName with
  | none => { allocator := a }
  | some p => a.buildBatches view p (List.range p.batchCount.toNat)

/-- Take over the map of a round. -/
def syncPartitions (a : Allocator T) (view : View) : Value → Outcome T
  | .partitions np => { a with nodePartition := np }.roundRun view
  | _ => { allocator := a }

/-! ## The end of a round -/

/-- Write a partition through its pointer. -/
def setPartition (a : Allocator T) (name : String) (p : Partition) : Allocator T :=
  { a with nodePartition := Function.update a.nodePartition name (some p) }

/-- The alive nodes that have a partition. -/
def intersectionNodeNames (a : Allocator T) (view : View) : List String :=
  view.aliveNodeNames.filter fun name => (a.nodePartition name).isSome

/-- No alive node with a partition is seen unfinished, this one apart. -/
def allAliveNodePartitionDone (a : Allocator T) (view : View) (myPartition : Partition) : Bool :=
  (a.intersectionNodeNames view).all fun name =>
    match a.nodePartition name with
    | none => true
    | some nodePart => myPartition.nodeName = name ∨ nodePart.roundDone

/-- The part of `partitionDone` under the lock: count a batch. It is the last one of the partition if
there is a partition in the result. -/
def countBatch (a : Allocator T) (myName : String) : Allocator T × Option Partition :=
  match a.nodePartition myName with
  | none => (a, none)
  | some p =>
    let counted := { p with finBatchCount := p.finBatchCount + 1 }
    if counted.finBatchCount < counted.batchCount then (a.setPartition myName counted, none)
    else
      let done := { counted with roundDone := true }
      (a.setPartition myName done, some done)

/-- What `partitionDone` does after the last batch, without the lock. `callRoundDone` tells the scheduler and
then sends on the channel `cancelRoundTimeout`, which is never made: nothing comes after it. -/
def finish (a : Allocator T) (view : View) (myPartition : Partition) : List (Effect T) :=
  let names := a.intersectionNodeNames view
  if names.isEmpty then [.roundDone myPartition.round]
  else if a.allAliveNodePartitionDone view myPartition then [.roundDone myPartition.round]
  else [.publishJob Job.syncPartitionDone (jobList names (.partition myPartition))]

/-- A `batchDoneTask` runs without a stop between its two parts. The index of the batch is only
printed. -/
def partitionDone (a : Allocator T) (view : View) : Outcome T :=
  let counted := a.countBatch view.myName
  { allocator := counted.1
    effects :=
      match counted.2 with
      | none => []
      | some myPartition => counted.1.finish view myPartition }

/-- Another node tells that its partition is done. -/
def syncPartitionDone (a : Allocator T) : Value → Outcome T
  | .partition pt =>
    match a.nodePartition pt.nodeName with
    | none => { allocator := a }
    | some partition =>
      { allocator := a.setPartition pt.nodeName { partition with roundDone := pt.roundDone } }
  | _ => { allocator := a }

/-! ## Cutting in line -/

def usingClusterThreshold : Nat := 1024

/-- The expression `l[lo:hi]` for bounds within the length. -/
def sliceOf (l : List String) (lo hi : Nat) : Option (List String) :=
  if lo ≤ hi ∧ hi ≤ l.length then some ((l.drop lo).take (hi - lo)) else none

/-- The batches of a long list. The last one ends before the last address. -/
def cutBatches (nodeIPList : List String) : Option (List (List String)) :=
  let batch := (nodeIPList.length + usingClusterThreshold - 1) / usingClusterThreshold
  (List.range batch).mapM fun i =>
    let start := i * usingClusterThreshold
    let stop := if i = batch - 1 then nodeIPList.length - 1 else start + usingClusterThreshold
    sliceOf nodeIPList start stop

/-- Publish the batches to the names in turn; a name without a batch is an index out of range. -/
def publishBatches (a : Allocator T) : List String → List (List String) → Outcome T
  | [], _ => { allocator := a }
  | _ :: _, [] => { allocator := a, panic := some .index }
  | name :: names, ipList :: batches =>
    { allocator := a
      effects := [.publishJob Job.manualCutInLine [(name, .strings ipList)]] : Outcome T }.andThen
      (a.publishBatches names batches)

/-- Run tasks for some addresses at once. -/
def cutInLine (a : Allocator T) (view : View) : Value → Outcome T
  | .strings nodeIPList =>
    if nodeIPList.isEmpty then { allocator := a }
    else if nodeIPList.length ≤ usingClusterThreshold then
      a.callFuncs nodeIPList [] 0 a.cutInLineFuncs
    else
      match cutBatches nodeIPList with
      | none => { allocator := a, panic := some .slice }
      | some batches => a.publishBatches view.aliveNodeNames batches
  | _ => { allocator := a }

end Allocator

end OwnX.Task
