import OwnX.Nio.Codec
import OwnX.Task.Allocator

/-!
# Publishing jobs (`cluster/publish.go`)

`PublishJob` hands the data of a job to a registered function: directly on the node itself, and on
another alive node through a frame whose body is the `JobInfo` as JSON. There `msg2job` decodes it into
a `JobInfo` again, whose data is what `encoding/json` yields for an `interface{}`.

The registry is the one of a node whose allocator has run `StartAfterInjected`.
-/

namespace OwnX.Task

/-- `JobInfo`. -/
structure JobInfo where
  name : String
  data : Value

/-- The flag of the frame that carries a job. -/
def msgSPublishJob : UInt8 := 15

/-- What `PublishJob` does with an entry of the job list. -/
inductive Delivery where
  /-- The job is for the node itself. -/
  | pushTask (job : JobInfo)
  /-- The job is sent to an alive node. -/
  | sendMessage (nodeName : String) (job : JobInfo)

/-- `PublishJob`. An entry for a node that is not alive is dropped. -/
def publishJob (view : View) (jobName : String) (jobList : List (String × Value)) : List Delivery :=
  jobList.filterMap fun entry =>
    if view.myName = entry.1 then some (.pushTask ⟨jobName, entry.2⟩)
    else if entry.1 ∈ view.aliveNodeNames then some (.sendMessage entry.1 ⟨jobName, entry.2⟩)
    else none

/-- `json.Unmarshal` into a `JobInfo`: its name, and what the data is decoded to. Errors are dropped,
so there always is a result. -/
abbrev Unmarshal := Nio.Bytes → String × Untyped

def msg2job (unmarshal : Unmarshal) (bs : Nio.Bytes) : JobInfo where
  name := (unmarshal bs).1
  data := .untyped (unmarshal bs).2

namespace Allocator

variable {T : Type}

/-- The functions that `StartAfterInjected` registers. -/
def taskRegistry (jobName : String) : Option (Allocator T → View → Value → Outcome T) :=
  if jobName = Job.syncPartition then some syncPartitions
  else if jobName = Job.syncPartitionDone then some fun a _ => a.syncPartitionDone
  else if jobName = Job.manualCutInLine then some cutInLine
  else none

/-- Call the function that is registered for the job. A panic of the function is recovered. -/
def pushTask (a : Allocator T) (view : View) (job : JobInfo) : Outcome T :=
  match taskRegistry job.name with
  | none => { allocator := a }
  | some f => f a view job.data

/-- What the frames that have arrived do: `onMessage` for `msgSPublishJob`. -/
def receiveJobs (a : Allocator T) (view : View) (unmarshal : Unmarshal) : List Nio.Msg → Outcome T
  | [] => { allocator := a }
  | m :: rest =>
    let now := if m.flag = msgSPublishJob then
      a.pushTask view (msg2job unmarshal (m.data.getD [])) else { allocator := a }
    let later := now.allocator.receiveJobs view unmarshal rest
    { later with
      effects := now.effects ++ later.effects
      handed := now.handed ++ later.handed
      panic := now.panic.or later.panic }

end Allocator

/-- A job as the allocator publishes it. -/
inductive Published where
  | syncPartition (np : Partitions)
  | syncPartitionDone (pt : Partition)
  | manualCutInLine (nodeIPList : List String)

namespace Published

variable {T : Type}

def job : Published → JobInfo
  | syncPartition np => ⟨Job.syncPartition, .partitions np⟩
  | syncPartitionDone pt => ⟨Job.syncPartitionDone, .partition pt⟩
  | manualCutInLine nodeIPList => ⟨Job.manualCutInLine, .strings nodeIPList⟩

/-- The registered function, called with the published value. -/
def direct (a : Allocator T) (view : View) : Published → Outcome T
  | syncPartition np => a.syncPartitions view (.partitions np)
  | syncPartitionDone pt => a.syncPartitionDone (.partition pt)
  | manualCutInLine nodeIPList => a.cutInLine view (.strings nodeIPList)

/-- The job, sent to the node in a frame of the codec `c`. -/
def remote (c : Nio.DefaultCodec JobInfo) (unmarshal : Unmarshal) (a : Allocator T) (view : View)
    (p : Published) : Outcome T :=
  a.pushTask view (msg2job unmarshal (Nio.toByte c.packages (.value p.job)))

/-- The tasks of the batch `index`, if it is cut in range: those of each build function that succeeds,
and a `batchDoneTask` behind them. -/
def batchTasks (a : Allocator T) (view : View) (p : Partition) (index : Nat) : List (Queued T) :=
  match view.aliveNodeIps.slice index (index + p.batchCount.toNat) with
  | none => []
  | some nodeIPList => a.taskBuildFuncs.flatMap fun f =>
      match f p.round nodeIPList with
      | none => []
      | some tasks => tasks.map .built ++ [.batchDone index]

/-- There are no tasks, or `Put` panics on the first of them. -/
def NothingSent (a : Allocator T) (tasks : List (Queued T)) : Prop :=
  ∀ t ∈ tasks.head?, a.hasBucket t = false

/-- The job would change nothing: the map is the node's own already and no task is sent for it, the flag
is as the node has it, or there is no address, or no task is sent for the addresses and no node to pass
them on to. -/
def Idempotent (a : Allocator T) (view : View) : Published → Prop
  | syncPartition np => a.nodePartition = np ∧ ∀ p ∈ np view.myName,
      NothingSent a ((List.range p.batchCount.toNat).flatMap (batchTasks a view p))
  | syncPartitionDone pt => ∀ q ∈ a.nodePartition pt.nodeName, q.roundDone = pt.roundDone
  | manualCutInLine nodeIPList => nodeIPList = [] ∨
      if nodeIPList.length ≤ Allocator.usingClusterThreshold then
        NothingSent a (a.cutInLineFuncs.flatMap fun f => ((f nodeIPList).getD []).map .built)
      else view.aliveNodeNames = []

end Published

/-- What an effect is to the worker, the cluster and the scheduler: of a `Put`, each task that is sent. -/
def Effect.seen {T : Type} : Effect T → List (Effect T)
  | .put tasks sent => (tasks.take sent).map fun t => .put [t] 1
  | e => [e]

/-- Two calls leave the same allocator, and have done the same outside it. -/
def Outcome.SameEffect {T : Type} (o o' : Outcome T) : Prop :=
  o.allocator = o'.allocator ∧ o.effects.flatMap Effect.seen = o'.effects.flatMap Effect.seen

end OwnX.Task
