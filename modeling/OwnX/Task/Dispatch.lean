import OwnX.Task.Publish
import OwnX.Task.Worker

/-!
# The allocators of a cluster and the jobs between them

Each node has its allocator, and the scheduler of each node calls `StartAlloc`. `PublishJob` starts a
goroutine for a job of the node itself, with the value that is published, and sends a frame for a job of
another alive node. A goroutine runs at any later time and a frame arrives at any later time, or never;
what a node sees of the cluster may be different each time it looks.

`partitionDone` counts its batch under the lock, and does the rest later. `StartAlloc` leaves a goroutine
behind that reports the round when its time is over: it also waits on `cancelRoundTimeout`, which is never
made, so nothing stops it. The built tasks are those of `Worker`; here only what is put and the
`batchDoneTask`s are kept.
-/

namespace OwnX.Task

variable {T : Type}

/-- The lists that are handed to `Worker.Put`. -/
def Effect.puts : Effect T → List (List (Queued T))
  | .put tasks _ => [tasks]
  | _ => []

/-- The goroutines of `roundDoneTimeout`, each with its round. -/
def Effect.timeouts : Effect T → List Int
  | .roundDoneTimeout round => [round]
  | _ => []

/-- What becomes of the jobs that are published. -/
def Effect.deliveries (view : View) : Effect T → List Delivery
  | .publishJob jobName jobList => Task.publishJob view jobName jobList
  | _ => []

/-- The goroutine that `pushTask` starts. -/
def Delivery.pushed : Delivery → Option JobInfo
  | .pushTask job => some job
  | .sendMessage _ _ => none

/-- The message for another node. -/
def Delivery.sent : Delivery → Option (String × JobInfo)
  | .pushTask _ => none
  | .sendMessage nodeName job => some (nodeName, job)

/-! ## One node -/

/-- The allocator of a node with what it has under way. -/
structure Station (T : Type) where
  allocator : Allocator T
  /-- The goroutines of `pushTask` that have not run yet. -/
  pushed : List JobInfo := []
  /-- The `batchDoneTask`s in the worker. -/
  tasks : List Nat := []
  /-- The calls of `partitionDone` that have counted the last batch of their partition. -/
  ending : List Partition := []
  /-- The goroutines of `roundDoneTimeout` that wait. -/
  timeouts : List Int := []
  /-- The rounds for which `StartAlloc` was called, with the alive nodes it saw. No step reads it. -/
  started : List (Int × List String) := []
  /-- The lists that `CallFunc` was given here. No step reads it. -/
  asked : List (List String) := []
  /-- What was put into the worker. No step reads it. -/
  puts : List (List (Queued T)) := []
  /-- The rounds for which `callRoundDone` was called, with the alive nodes it saw. No step reads it. -/
  ended : List (Int × List String) := []
  /-- The rounds that `roundDoneTimeout` has reported to the scheduler. No step reads it. -/
  timedOut : List Int := []

/-- What goes on at a node. -/
inductive StationEvent where
  /-- The scheduler calls `StartAlloc`. -/
  | startAlloc (view : View) (round : Int)
  /-- Someone calls `CallFunc` to have some addresses cut in line at a node. -/
  | callFunc (view : View) (nodeName : String) (nodeIPList : List String)
  /-- The goroutine `k` runs the function that is registered for its job. -/
  | push (view : View) (k : Nat)
  /-- The `batchDoneTask` `k` counts its batch. -/
  | batchDone (k : Nat)
  /-- The call `k` of `partitionDone` goes on after the last batch. -/
  | conclude (view : View) (k : Nat)
  /-- The time of the goroutine `k` of `roundDoneTimeout` is over. -/
  | timeout (k : Nat)

/-- What the node sees, in the events in which it looks at the cluster. -/
def StationEvent.view : StationEvent → Option View
  | .startAlloc view _ | .callFunc view _ _ | .push view _ | .conclude view _ => some view
  | .batchDone _ | .timeout _ => none

namespace Station

/-- A call on the allocator is over: what it leaves at the node, and the messages for other nodes. -/
def settle (s : Station T) (view : View) (o : Outcome T) : Station T × List (String × JobInfo) :=
  let deliveries := o.effects.flatMap (Effect.deliveries view)
  ({ s with
      allocator := o.allocator
      pushed := s.pushed ++ deliveries.filterMap Delivery.pushed
      tasks := s.tasks ++ o.effects.flatMap Effect.markers
      timeouts := s.timeouts ++ o.effects.flatMap Effect.timeouts
      puts := s.puts ++ o.effects.flatMap Effect.puts
      ended := s.ended ++ (o.effects.flatMap Effect.calls).map (·, view.aliveNodeNames) },
    deliveries.filterMap Delivery.sent)

/-- The step of the node `myName`. -/
def step (myName : String) (s : Station T) (e : StationEvent) :
    Option (Station T × List (String × JobInfo)) :=
  if ∀ view ∈ e.view, view.myName = myName then
    match e with
    | .startAlloc view round =>
      some ({ s with started := s.started ++ [(round, view.aliveNodeNames)] }.settle view
        { allocator := s.allocator, effects := s.allocator.startAlloc view round })
    | .callFunc view nodeName nodeIPList =>
      some ({ s with asked := s.asked ++ [nodeIPList] }.settle view
        { allocator := s.allocator
          effects := [.publishJob Job.manualCutInLine [(nodeName, .strings nodeIPList)]] })
    | .push view k =>
      (s.pushed[k]?).map fun job =>
        { s with pushed := s.pushed.eraseIdx k }.settle view (s.allocator.pushTask view job)
    | .batchDone k =>
      (s.tasks[k]?).map fun _ =>
        let counted := s.allocator.countBatch myName
        ({ s with
            allocator := counted.1
            tasks := s.tasks.eraseIdx k
            ending := s.ending ++ counted.2.toList }, [])
    | .conclude view k =>
      (s.ending[k]?).map fun p =>
        { s with ending := s.ending.eraseIdx k }.settle view
          { allocator := s.allocator, effects := s.allocator.finish view p }
    | .timeout k =>
      (s.timeouts[k]?).map fun round =>
        ({ s with timeouts := s.timeouts.eraseIdx k, timedOut := s.timedOut ++ [round] }, [])
  else none

/-- An allocator of `newAllocator`, with any functions registered. -/
def Initial (s : Station T) : Prop :=
  (∀ name, s.allocator.nodePartition name = none) ∧ s = { allocator := s.allocator }

end Station

/-- A node without any others. -/
def station (T : Type) (myName : String) : Machine (Station T) StationEvent where
  init := Station.Initial
  step := fun s e => (s.step myName e).map Prod.fst

/-! ## The nodes of a cluster -/

/-- The nodes by their names, and the frames under way, each with the node it is for and its body. -/
structure Deployment (T : Type) where
  station : String → Station T
  frames : List (String × Nio.Bytes) := []

inductive DeploymentEvent where
  /-- Something goes on at a node. -/
  | act (name : String) (e : StationEvent)
  /-- The frame `k` is received. -/
  | receive (view : View) (k : Nat)

namespace Deployment

variable (c : Nio.DefaultCodec JobInfo) (unmarshal : Unmarshal)

/-- The node `name` is as `r` has it, and sends the messages. -/
def update (d : Deployment T) (name : String) (r : Station T × List (String × JobInfo)) :
    Deployment T where
  station := Function.update d.station name r.1
  frames := d.frames ++ r.2.map fun m => (m.1, Nio.toByte c.packages (.value m.2))

/-- One step. The goroutine that a frame starts is part of its receipt, which may be at any time. -/
def step (d : Deployment T) : DeploymentEvent → Option (Deployment T)
  | .act name e => ((d.station name).step name e).map (d.update c name)
  | .receive view k =>
    match d.frames[k]? with
    | none => none
    | some (name, body) =>
      if view.myName = name then
        some ({ d with frames := d.frames.eraseIdx k }.update c name
          ((d.station name).settle view
            ((d.station name).allocator.pushTask view (msg2job unmarshal body))))
      else none

end Deployment

/-- The nodes of a cluster, connected by frames of the codec `c`. -/
def deployment (T : Type) (c : Nio.DefaultCodec JobInfo) (unmarshal : Unmarshal) :
    Machine (Deployment T) DeploymentEvent where
  init := fun d => (∀ name, (d.station name).Initial) ∧ d.frames = []
  step := Deployment.step c unmarshal

end OwnX.Task
