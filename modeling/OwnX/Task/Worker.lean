import OwnX.Task.Rounds

/-!
# The worker (`task/worker.go`)

A worker has a number of unbuffered channels, its buckets, and `Start` runs two exec goroutines on each
of them. Both goroutines of a bucket receive from it; a task that fails and may be tried again is sent
back into the bucket by the goroutine that ran it, so only the other one can take it.

Built tasks are pointers: they are numbers here, and `Worker.task` has the fields that `exec` reads and
writes. A `batchDoneTask` is made for one `Put` and has no retries. The worker is the one of an
allocator of `newAllocator`, whose channel `cancelRoundTimeout` is never made. What the scheduler does
with a report is left open.

`workers` is a worker into which anything is put, and `histories` the same with what happened to each
task. `rounds` is a worker into which `roundRun` puts the tasks of round after round.
-/

namespace OwnX.Task

/-- The tasks that `Put` is called with, in order. -/
def Effect.tasks {T : Type} : Effect T → List (Queued T)
  | .put tasks _ => tasks
  | _ => []

/-- The task is a `batchDoneTask`. -/
def Queued.isBatchDone {T : Type} : Queued T → Bool
  | .built _ => false
  | .batchDone _ => true

/-- The fields of a `Task` that `exec` uses. -/
structure TaskInfo where
  needRetry : Bool := false
  retryTimes : Int := 0
  retryLimit : Int := 0
  deriving DecidableEq, Repr

/-- The task is sent back if it fails. -/
def TaskInfo.retries (info : TaskInfo) : Bool := info.needRetry && info.retryTimes < info.retryLimit

/-- How the function of a task ends. -/
inductive TaskResult where
  | ok
  | err
  | panic
  deriving DecidableEq, Repr

/-- Where an exec goroutine is. -/
inductive Exec where
  /-- It waits in its `select`. -/
  | select
  /-- It runs the function of a task. -/
  | running (t : Queued Nat)
  /-- It sends a failed task back into its bucket. -/
  | requeue (t : Nat)
  /-- It is in the second part of `partitionDone`, after the last batch of the partition. -/
  | ending (myPartition : Partition)
  /-- It has called `DefaultScheduler.RoundDone`, in `callRoundDone`. -/
  | roundDone (round : Int)
  /-- `RoundDone` sends on `roundDoneChan`. -/
  | sendName (round : Int)
  /-- It sends on `cancelRoundTimeout`. -/
  | cancelTimeout (round : Int)
  /-- It returned, or its task panicked. -/
  | stopped
  deriving DecidableEq, Repr

namespace Exec

/-- The goroutine is in a send of its own. -/
def sends : Exec → Bool
  | requeue _ | sendName _ | cancelTimeout _ => true
  | _ => false

/-- The task that the goroutine has to finish. -/
def held : Exec → Option (Queued Nat)
  | running t => some t
  | requeue t => some (.built t)
  | _ => none

end Exec

/-- The worker of an allocator. -/
structure Worker where
  /-- The length of `buckets`. -/
  buckets : Nat
  /-- The exec goroutines: those of bucket `i` have the numbers `2 * i` and `2 * i + 1`. -/
  execs : List Exec
  task : Nat → TaskInfo
  allocator : Allocator Nat
  myName : String
  /-- The tasks that have been run for the last time. No step reads it. -/
  finished : List (Queued Nat) := []

/-- What goes on in a worker. -/
inductive WorkerEvent where
  /-- `Put` sends a task with the given `ID`, and the goroutine `k` receives it. -/
  | put (id : Int) (t : Queued Nat) (k : Nat)
  /-- The task that goroutine `k` sends back is received. -/
  | requeue (k : Nat)
  /-- The built task of goroutine `k` ends. -/
  | finish (k : Nat) (r : TaskResult)
  /-- The `batchDoneTask` of goroutine `k` counts its batch. -/
  | batchDone (k : Nat)
  /-- The second part of `partitionDone`, with the alive nodes it sees. -/
  | conclude (k : Nat) (aliveNodeNames : List String)
  /-- `RoundDone` is through with its tests: it returns, or it sends the name. -/
  | roundDone (k : Nat) (accepted : Bool)
  /-- The scheduler receives the name. -/
  | nameReceived (k : Nat)
  /-- The allocator takes over the map of a round. -/
  | syncPartitions (np : Partitions)
  /-- The allocator hears of a partition. -/
  | syncPartitionDone (pt : Partition)
  /-- The goroutine `k` receives from `done`. -/
  | done (k : Nat)

/-- The task that is put in an event. -/
def WorkerEvent.taken : WorkerEvent → List (Queued Nat)
  | put _ t _ => [t]
  | _ => []

namespace Worker

/-- The number of buckets that `NewWorker` makes. -/
def bucketCount (parallelism : Int) : Nat := (if parallelism < 1 then 1024 else parallelism).toNat

theorem bucketCount_pos (parallelism : Int) : 0 < bucketCount parallelism := by
  unfold bucketCount
  split <;> omega

/-- `NewWorker` and `Start`, for an allocator with the worker. -/
def newWorker (parallelism : Int) (task : Nat → TaskInfo) (allocator : Allocator Nat)
    (myName : String) : Worker where
  buckets := bucketCount parallelism
  execs := List.replicate (2 * bucketCount parallelism) .select
  task := task
  allocator :=
    { allocator with buckets := bucketCount parallelism, buckets_pos := bucketCount_pos parallelism }
  myName := myName

/-- The other goroutine of the same bucket. -/
def sibling (k : Nat) : Nat := if k % 2 = 0 then k + 1 else k - 1

/-- The bucket that `Put` sends to. The index of a negative `ID` may be out of range, which is a
panic. -/
def pos (w : Worker) (id : Int) : Option Nat :=
  let pos := id.tmod w.buckets
  if 0 ≤ pos then some pos.toNat else none

def setExec (w : Worker) (k : Nat) (e : Exec) : Worker := { w with execs := w.execs.set k e }

/-- A task is run for the last time, and its goroutine goes on as `e`. -/
def finishAs (w : Worker) (k : Nat) (t : Queued Nat) (e : Exec) : Worker :=
  { w.setExec k e with finished := w.finished ++ [t] }

/-- The end of the built task `t` on goroutine `k`. -/
def finish (w : Worker) (k t : Nat) : TaskResult → Worker
  | .ok => w.finishAs k (.built t) .select
  | .err =>
    let info := w.task t
    if info.retries then
      { w.setExec k (.requeue t) with
        task := Function.update w.task t { info with retryTimes := info.retryTimes + 1 } }
    else w.finishAs k (.built t) .select
  | .panic => w.finishAs k (.built t) .stopped

/-- The `batchDoneTask` `t` on goroutine `k` counts its batch. -/
def batchDone (w : Worker) (k : Nat) (t : Queued Nat) : Worker :=
  let counted := w.allocator.countBatch w.myName
  { w with allocator := counted.1 }.finishAs k t
    (match counted.2 with
      | none => .select
      | some p => .ending p)

/-- `partitionDone` goes on after the last batch. What it publishes to the cluster is left out. -/
def conclude (w : Worker) (k : Nat) (p : Partition) (aliveNodeNames : List String) : Worker :=
  w.setExec k
    (match (w.allocator.finish (Nodes.view aliveNodeNames w.myName) p).flatMap Effect.calls with
      | [] => .select
      | round :: _ => .roundDone round)

def step (w : Worker) : WorkerEvent → Option Worker
  | .put id t k =>
    if w.pos id = some (k / 2) ∧ w.execs[k]? = some .select then
      some (w.setExec k (.running t))
    else none
  | .requeue k =>
    match w.execs[k]? with
    | some (.requeue t) =>
      -- The channel has no buffer: the send ends when the sibling receives.
      if w.execs[sibling k]? = some .select then
        some ((w.setExec k .select).setExec (sibling k) (.running (.built t)))
      else none
    | _ => none
  | .finish k r =>
    match w.execs[k]? with
    | some (.running (.built t)) => some (w.finish k t r)
    | _ => none
  | .batchDone k =>
    match w.execs[k]? with
    | some (.running (.batchDone index)) => some (w.batchDone k (.batchDone index))
    | _ => none
  | .conclude k aliveNodeNames =>
    match w.execs[k]? with
    | some (.ending p) => some (w.conclude k p aliveNodeNames)
    | _ => none
  | .roundDone k accepted =>
    match w.execs[k]? with
    | some (.roundDone round) =>
      some (w.setExec k (if accepted then .sendName round else .cancelTimeout round))
    | _ => none
  | .nameReceived k =>
    match w.execs[k]? with
    | some (.sendName round) => some (w.setExec k (.cancelTimeout round))
    | _ => none
  | .syncPartitions np => some { w with allocator := { w.allocator with nodePartition := np } }
  | .syncPartitionDone pt =>
    some { w with allocator := (w.allocator.syncPartitionDone (.partition pt)).allocator }
  | .done k =>
    if w.execs[k]? = some .select then some (w.setExec k .stopped) else none

/-- A started worker, into which any tasks are put. -/
def workers : Machine Worker WorkerEvent where
  init := fun w => ∃ parallelism task allocator myName,
    w = newWorker parallelism task allocator myName
  step := step

/-- The node's partition in the map of its allocator. -/
def own (w : Worker) : Option Partition := w.allocator.nodePartition w.myName

/-- The goroutine `k` is in a send of its own. -/
def sends (w : Worker) (k : Nat) : Bool := w.execs[k]?.any Exec.sends

/-- Both goroutines of a bucket are in a send of their own. -/
def Stuck (w : Worker) (i : Nat) : Prop := w.sends (2 * i) = true ∧ w.sends (2 * i + 1) = true

instance (w : Worker) (i : Nat) : Decidable (w.Stuck i) :=
  inferInstanceAs (Decidable (_ ∧ _))

/-- The goroutine may come to send while it handles its task. -/
def maySend (w : Worker) : Exec → Bool
  | .select | .stopped => false
  | .running (.built t) => (w.task t).retries
  | _ => true

/-- A task that may come to send is put only beside a goroutine that does not handle such a task. -/
def PutApart (w : Worker) : WorkerEvent → Prop
  | .put _ t k => w.maySend (.running t) = true → w.execs[sibling k]?.any w.maySend = false
  | _ => True

instance (w : Worker) (e : WorkerEvent) : Decidable (w.PutApart e) :=
  match e with
  | .put .. => inferInstanceAs (Decidable (_ → _))
  | .requeue _ | .finish .. | .batchDone _ | .conclude .. | .roundDone .. | .nameReceived _
  | .syncPartitions _ | .syncPartitionDone _ | .done _ => isTrue trivial

end Worker

/-- What happens to a built task: its function is called, and ends. -/
inductive Attempt where
  | start (t : Nat)
  | result (t : Nat) (r : TaskResult)
  deriving DecidableEq, Repr

/-- The attempts that an event begins or ends. -/
def Worker.attempts (w : Worker) : WorkerEvent → List Attempt
  | .put _ (.built t) _ => [.start t]
  | .requeue k =>
    match w.execs[k]? with
    | some (.requeue t) => [.start t]
    | _ => []
  | .finish k r =>
    match w.execs[k]? with
    | some (.running (.built t)) => [.result t r]
    | _ => []
  | _ => []

/-- A worker with its history. No step reads it. -/
structure TaskHistory where
  worker : Worker
  /-- The fields of the tasks when the worker starts. -/
  initial : Nat → TaskInfo
  /-- Everything that was put. -/
  taken : List (Queued Nat) := []
  log : List Attempt := []

namespace TaskHistory

def step (s : TaskHistory) (e : WorkerEvent) : Option TaskHistory :=
  (s.worker.step e).map fun worker =>
    { s with worker, taken := s.taken ++ e.taken, log := s.log ++ s.worker.attempts e }

/-- A started worker with the history of its tasks. -/
def histories : Machine TaskHistory WorkerEvent where
  init := fun s => Worker.workers.init s.worker ∧
    s = { worker := s.worker, initial := s.worker.task }
  step := step

/-- Each built task is put once. -/
def PutOnce (s : TaskHistory) : WorkerEvent → Prop
  | .put _ (.built t) _ => Queued.built t ∉ s.taken
  | _ => True

instance (s : TaskHistory) (e : WorkerEvent) : Decidable (s.PutOnce e) :=
  match e with
  | .put _ (.built t) _ => inferInstanceAs (Decidable (Queued.built t ∉ s.taken))
  | .put _ (.batchDone _) _ | .requeue _ | .finish .. | .batchDone _ | .conclude .. | .roundDone ..
  | .nameReceived _ | .syncPartitions _ | .syncPartitionDone _ | .done _ => isTrue trivial

end TaskHistory

/-- A worker during the rounds of its node. A goroutine of `syncPartitions` takes over the map of a round,
and then runs `roundRun`, which looks up the partition again. -/
structure RoundWorker where
  worker : Worker
  /-- The goroutines of `syncPartitions` that have not come to `roundRun`. -/
  starting : Nat := 0
  /-- What each call of `roundRun` has still to put, with the `ID`s. -/
  runs : List (List (Int × Queued Nat)) := []
  /-- Everything that was built for `Put` in all the rounds. No step reads it. -/
  tasks : List (Queued Nat) := []

inductive RoundWorkerEvent where
  /-- The map of a round is taken over. -/
  | syncPartitions (np : Partitions)
  /-- A call of `roundRun` looks up the partition and builds its tasks. -/
  | roundRun (aliveNodeNames : List String) (aliveNodeIps : Slice) (rest : List (Int × Queued Nat))
  /-- The call `j` of `roundRun` sends its next task, and the goroutine `k` receives it. -/
  | put (j k : Nat)
  /-- Anything else that goes on in the worker. -/
  | worker (e : WorkerEvent)

namespace RoundWorker

/-- A map as `StartAlloc` makes it: no batch of the node is counted. -/
def newMap (myName : String) (np : Partitions) : Bool :=
  (np myName).all fun p => p.finBatchCount == 0 && !p.roundDone

/-- A task has its own `ID`, a `batchDoneTask` has the time. -/
def hasID (a : Allocator Nat) : Int × Queued Nat → Bool
  | (id, .built t) => id == a.taskID t
  | (id, .batchDone _) => 0 ≤ id

/-- A task for which `Put` finds no bucket is never put, nor are those behind it. -/
def step (s : RoundWorker) : RoundWorkerEvent → Option RoundWorker
  | .syncPartitions np =>
    if newMap s.worker.myName np then
      (s.worker.step (.syncPartitions np)).map fun worker =>
        { s with worker, starting := s.starting + 1 }
    else none
  | .roundRun aliveNodeNames aliveNodeIps rest =>
    let view := Nodes.view aliveNodeNames s.worker.myName aliveNodeIps
    let tasks := (s.worker.allocator.roundRun view).effects.flatMap Effect.tasks
    if 0 < s.starting ∧ rest.map Prod.snd = tasks ∧ rest.all (hasID s.worker.allocator) then
      some { s with starting := s.starting - 1, runs := s.runs ++ [rest], tasks := s.tasks ++ tasks }
    else none
  | .put j k =>
    match s.runs[j]? with
    | some ((id, t) :: rest) =>
      (s.worker.step (.put id t k)).map fun worker => { s with worker, runs := s.runs.set j rest }
    | _ => none
  | .worker (.put ..) | .worker (.syncPartitions _) => none
  | .worker e => (s.worker.step e).map fun worker => { s with worker }

/-- A started worker over any number of rounds, with any functions registered. -/
def rounds : Machine RoundWorker RoundWorkerEvent where
  init := fun s => Worker.workers.init s.worker ∧ s.worker.own = none ∧ s = { worker := s.worker }
  step := step

/-- Every task that was built has been run for the last time, as often as it was built. -/
def AllFinished (s : RoundWorker) : Prop :=
  ∀ t, s.worker.finished.count (.built t) = s.tasks.count (.built t)

/-- No built task is with a goroutine or still to be put. -/
def drained (s : RoundWorker) : Bool :=
  s.worker.execs.all (fun x => x.held.all Queued.isBatchDone) &&
    s.runs.all fun run => run.all fun x => x.2.isBatchDone

/-- The `batchDoneTask`s that goroutines run. -/
def heldMarkers (s : RoundWorker) : Nat :=
  s.worker.execs.countP fun x => x.held.any Queued.isBatchDone

/-- The call `j` of `roundRun` comes to a `batchDoneTask`. -/
def putsMarker (s : RoundWorker) (j : Nat) : Bool :=
  match s.runs[j]? with
  | some (x :: _) => x.2.isBatchDone
  | _ => false

/-- A map is taken over when nothing of the rounds before is left, in the worker or to be put. A
`batchDoneTask` that brings those of its round up to `BatchCount`, or beyond it, is put when no built task
is left. -/
def Orderly (s : RoundWorker) : RoundWorkerEvent → Prop
  | .syncPartitions _ => s.starting = 0 ∧ (∀ run ∈ s.runs, run = []) ∧
      ∀ x ∈ s.worker.execs, x.held = none
  | .put j _ => s.putsMarker j = true → ∀ p ∈ s.worker.own,
      p.batchCount ≤ p.finBatchCount + s.heldMarkers + 1 → s.drained = true
  | .roundRun .. | .worker _ => True

instance (s : RoundWorker) (e : RoundWorkerEvent) : Decidable (s.Orderly e) :=
  match e with
  | .syncPartitions _ => inferInstanceAs (Decidable (_ ∧ _ ∧ _))
  | .put .. => inferInstanceAs (Decidable (_ → ∀ p ∈ s.worker.own, _))
  | .roundRun .. | .worker _ => isTrue trivial

end RoundWorker

end OwnX.Task
