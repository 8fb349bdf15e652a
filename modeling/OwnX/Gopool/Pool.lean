import OwnX.Foundations.Machine
import OwnX.Foundations.MachineInt
import Mathlib.Data.Multiset.Basic
import Mathlib.Data.Multiset.AddSub
import Mathlib.Data.Multiset.Count

/-!
# The goroutine pool (`gopool/pool.go`, `gopool/worker.go`)

Any number of pools share one `sync.Pool` of task objects. Every `CtxGo` call and every worker is a
thread; one step of a thread is a critical section of `taskLock` or one atomic load or add. Task
objects live in a heap, and a nil pointer is `none`.

`workerPool` is not modelled: a worker object is used by one worker only and holds nothing but its
pool. `taskCount` is a machine integer of 32 bits, which wraps around when more tasks are queued than it
can count. `workerCount` is an unbounded integer: it counts live goroutines, and `2 ^ 31` of them do not
fit into memory.
-/

namespace OwnX.Gopool

/-- What `CtxGo` is called with: a context and a function, each possibly nil. A function is named by
a number. -/
structure Job where
  ctx : Option Nat
  f : Option Nat
  deriving DecidableEq, Repr

/-- `task`, a node of the queue. -/
structure Task where
  job : Job
  next : Option Nat
  deriving DecidableEq, Repr

/-- A task object after `zero`, or as `newTask` makes it. -/
def Task.zero : Task := { job := { ctx := none, f := none }, next := none }

/-- `pool`. The last three fields are the history of the pool; no step reads them. -/
structure Pool where
  cap : Int
  scaleThreshold : Int
  taskHead : Option Nat := none
  taskTail : Option Nat := none
  workerCount : Int := 0
  taskCount : Int := 0
  /-- The tasks that entered the queue, in order. -/
  submitted : List Job := []
  /-- The tasks that left the queue, in order. -/
  taken : List Job := []
  /-- The tasks whose function has returned or panicked. -/
  finished : List Job := []
  deriving DecidableEq, Repr

/-- Where a `CtxGo` call is. -/
inductive CallerPc where
  /-- Before `taskPool.Get()`. -/
  | get
  /-- Before the critical section that enqueues the task object `t`. -/
  | enqueue (t : Nat)
  /-- Before `AddInt32(&p.taskCount, 1)`. -/
  | addTaskCount
  /-- Before `LoadInt32(&p.taskCount)`. -/
  | loadTaskCount
  /-- Before the first `p.WorkerCount()`. -/
  | loadWorkerCount
  /-- Before `LoadInt32(&p.cap)`, with the worker count that was loaded. -/
  | loadCap (workerCount : Int)
  /-- Before `p.WorkerCount() == 0`. -/
  | checkZero
  /-- Before `p.incrWorkerCount()`. -/
  | incrWorkerCount
  /-- Before `w.run()` starts the goroutine. -/
  | runWorker
  deriving DecidableEq, Repr

/-- Where a worker goroutine is. -/
inductive WorkerPc where
  /-- Before the critical section that dequeues. -/
  | take
  /-- In `t.f()`; `job` is what the object held when it was taken. -/
  | run (t : Nat) (job : Job)
  /-- Before `t.Recycle()`. -/
  | recycle (t : Nat)
  deriving DecidableEq, Repr

/-- A goroutine inside the pool code. -/
inductive Thread where
  | caller (p : Nat) (job : Job) (pc : CallerPc)
  | worker (p : Nat) (pc : WorkerPc)
  deriving DecidableEq, Repr

/-- The state of all pools. -/
structure World where
  heap : Nat → Task
  /-- The next address `newTask` allocates. -/
  nextAddr : Nat
  /-- The objects put back into `taskPool`. -/
  taskPool : Multiset Nat
  pools : Nat → Pool
  threads : Multiset Thread

namespace World

/-- A write to one task object. -/
def setTask (s : World) (t : Nat) (o : Task) : World :=
  { s with heap := fun a => if a = t then o else s.heap a }

/-- A write to one pool. -/
def setPool (s : World) (p : Nat) (q : Pool) : World :=
  { s with pools := fun p' => if p' = p then q else s.pools p' }

/-- A goroutine is added. -/
def spawn (s : World) (t : Thread) : World := { s with threads := t ::ₘ s.threads }

/-- `taskPool.Get()`: an object that was put back, or a new one; then its fields are set. -/
def getTask (s : World) (job : Job) : Option Nat → Option (World × Nat)
  | none =>
    some ({ s with nextAddr := s.nextAddr + 1 }.setTask s.nextAddr { Task.zero with job := job },
      s.nextAddr)
  | some t =>
    if t ∈ s.taskPool then
      some ({ s with taskPool := s.taskPool.erase t }.setTask t { s.heap t with job := job }, t)
    else none

/-- The critical section of `CtxGo`. `none` is the dereference of a nil `taskTail`. -/
def enqueue (s : World) (p : Nat) (job : Job) (t : Nat) : Option World :=
  let q := s.pools p
  let submitted := q.submitted ++ [job]
  match q.taskHead with
  | none => some (s.setPool p { q with taskHead := some t, taskTail := some t, submitted := submitted })
  | some _ =>
    q.taskTail.map fun tail =>
      (s.setTask tail { s.heap tail with next := some t }).setPool p
        { q with taskTail := some t, submitted := submitted }

/-- One step of a `CtxGo` call at `pc`; the goroutine itself has been taken out of `s`. `pick` is the
object `sync.Pool` hands out, if it hands out an old one. -/
def ctxGo (s : World) (p : Nat) (job : Job) (pick : Option Nat) : CallerPc → Option World
  | .get => (s.getTask job pick).map fun r => r.1.spawn (.caller p job (.enqueue r.2))
  | .enqueue t => (s.enqueue p job t).map fun s' => s'.spawn (.caller p job .addTaskCount)
  | .addTaskCount =>
    let q := s.pools p
    some ((s.setPool p { q with taskCount := wrap 32 (q.taskCount + 1) }).spawn (.caller p job .loadTaskCount))
  | .loadTaskCount =>
    if (s.pools p).scaleThreshold ≤ (s.pools p).taskCount then
      some (s.spawn (.caller p job .loadWorkerCount))
    else some (s.spawn (.caller p job .checkZero))
  | .loadWorkerCount => some (s.spawn (.caller p job (.loadCap (s.pools p).workerCount)))
  | .loadCap workerCount =>
    if workerCount < (s.pools p).cap then some (s.spawn (.caller p job .incrWorkerCount))
    else some (s.spawn (.caller p job .checkZero))
  | .checkZero =>
    if (s.pools p).workerCount = 0 then some (s.spawn (.caller p job .incrWorkerCount)) else some s
  | .incrWorkerCount =>
    let q := s.pools p
    some ((s.setPool p { q with workerCount := q.workerCount + 1 }).spawn (.caller p job .runWorker))
  | .runWorker => some (s.spawn (.worker p .take))

/-- `task.Recycle`: the object is zeroed and put back. -/
def recycle (s : World) (t : Nat) : World :=
  { s.setTask t Task.zero with taskPool := t ::ₘ s.taskPool }

/-- One step of a worker at `pc`; the goroutine itself has been taken out of `s`. A function that
panics is recovered from, so `t.f()` ends in the same place either way. -/
def workerRun (s : World) (p : Nat) : WorkerPc → Option World
  | .take =>
    let q := s.pools p
    match q.taskHead with
    | some t =>
      let job := (s.heap t).job
      some ((s.setPool p { q with
          taskHead := (s.heap t).next
          taskCount := wrap 32 (q.taskCount - 1)
          taken := q.taken ++ [job] }).spawn (.worker p (.run t job)))
    | none => some (s.setPool p { q with workerCount := q.workerCount - 1 })
  | .run t _ =>
    let q := s.pools p
    some ((s.setPool p { q with finished := q.finished ++ [(s.heap t).job] }).spawn
      (.worker p (.recycle t)))
  | .recycle t => some ((s.recycle t).spawn (.worker p .take))

end World

/-- What may happen next. -/
inductive Event where
  /-- A goroutine calls `CtxGo` on pool `p`. -/
  | call (p : Nat) (job : Job)
  /-- A `CtxGo` call takes its next step. -/
  | caller (p : Nat) (job : Job) (pc : CallerPc) (pick : Option Nat)
  /-- A worker takes its next step. -/
  | worker (p : Nat) (pc : WorkerPc)
  /-- `SetCap`. -/
  | setCap (p : Nat) (cap : Int)
  /-- The runtime drops an object of the `sync.Pool`. -/
  | drop (t : Nat)
  deriving DecidableEq, Repr

/-- The thread whose step an event is. -/
def Event.thread : Event → Option Thread
  | .caller p job pc _ => some (.caller p job pc)
  | .worker p pc => some (.worker p pc)
  | _ => none

/-- The state without one goroutine of the given kind; `none` if there is none. -/
def World.remove (s : World) (t : Thread) : Option World :=
  if t ∈ s.threads then some { s with threads := s.threads.erase t } else none

/-- One step of the system. -/
def World.step (s : World) : Event → Option World
  | .call p job => some (s.spawn (.caller p job .get))
  | .caller p job pc pick => (s.remove (.caller p job pc)).bind fun s => s.ctxGo p job pick pc
  | .worker p pc => (s.remove (.worker p pc)).bind fun s => s.workerRun p pc
  | .setCap p cap => some (s.setPool p { s.pools p with cap := cap })
  | .drop t =>
    if t ∈ s.taskPool then some { s with taskPool := s.taskPool.erase t } else none

/-- The state before any call: empty pools with any capacities and thresholds. -/
def initial (cap scaleThreshold : Nat → Int) : World where
  heap := fun _ => Task.zero
  nextAddr := 0
  taskPool := 0
  pools := fun p => { cap := cap p, scaleThreshold := scaleThreshold p }
  threads := 0

/-- The pools of the program, under any interleaving. -/
def machine : Machine World Event where
  init := fun s => ∃ cap scaleThreshold, s = initial cap scaleThreshold
  step := World.step

end OwnX.Gopool
