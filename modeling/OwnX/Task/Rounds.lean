import OwnX.Task.Allocator
import OwnX.Foundations.Machine
import Mathlib.Data.Finset.Card
import Mathlib.Data.Multiset.Filter

/-!
# Rounds over several nodes

The allocators of the alive nodes, with the `batchDoneTask`s that wait in their workers and the
`SyncPartitionDone` messages that are under way. Tasks and messages are taken in any order, and a
message arrives as it was published.

In `oneRound` all nodes hold the map of one round, and a `batchDoneTask` runs as a whole. In `allRounds`
the maps of any number of rounds are installed by `syncPartitions`, each at most once on a node and in
any order. A round that `roundDoneTimeout` ends early leaves its tasks and messages behind. There a
`batchDoneTask` counts its batch under the lock, and what it does after the last batch of a partition it
does later, with the map that is there then.
-/

namespace OwnX.Task

/-- The partitions of a round as they are published: every entry names its node and the round, and
nothing of it is done. -/
structure Plan (round : Int) where
  partitions : Partitions
  nodeName_eq : ∀ name, ∀ p ∈ partitions name, p.nodeName = name
  round_eq : ∀ name, ∀ p ∈ partitions name, p.round = round
  fresh : ∀ name, ∀ p ∈ partitions name, p.roundDone = false ∧ p.finBatchCount = 0

/-- The partition of a node without its progress. -/
def Partition.reset (p : Partition) : Partition := { p with roundDone := false, finBatchCount := 0 }

/-- The `batchDoneTask` of a batch: its node, the round it was made for, and the batch. -/
abbrev Marker := String × Int × Nat

/-- The alive nodes of the cluster. -/
structure Nodes (T : Type) where
  allocator : String → Allocator T := fun _ => {}
  /-- The `batchDoneTask`s that `roundRun` makes and that have not run. -/
  tasks : Multiset Marker := 0
  /-- The calls of `partitionDone` that have counted the last batch of their partition, with the node of
  each. -/
  ending : Multiset (String × Partition) := 0
  /-- The `SyncPartitionDone` messages under way, with the node each is for. -/
  messages : Multiset (String × Partition) := 0
  /-- The calls of `callRoundDone`, with the node that made each. -/
  calls : List (String × Int) := []
  /-- The maps that were installed, by node and round. -/
  installed : Finset (String × Int) := ∅
  /-- The `batchDoneTask`s that ran. No step reads it. -/
  ran : Finset Marker := ∅

/-- The batches whose `batchDoneTask` is sent. -/
def Effect.markers {T : Type} : Effect T → List Nat
  | .put tasks sent => (tasks.take sent).filterMap fun
    | .built _ => none
    | .batchDone index => some index
  | _ => []

/-- The `SyncPartitionDone` messages that are published. -/
def Effect.messages {T : Type} : Effect T → List (String × Partition)
  | .publishJob jobName jobs =>
    if jobName = Job.syncPartitionDone then
      jobs.filterMap fun
        | (name, .partition pt) => some (name, pt)
        | _ => none
    else []
  | _ => []

/-- The rounds for which `callRoundDone` is called. The goroutine of `roundDoneTimeout` calls the scheduler
itself. -/
def Effect.calls {T : Type} : Effect T → List Int
  | .roundDone round => [round]
  | _ => []

namespace Nodes

variable {T : Type}

/-- What the node `name` sees of the cluster. -/
def view (names : List String) (name : String) (ips : Slice := ⟨[], 0, Slice.nil_length_le⟩) : View where
  myName := name
  aliveNodeNames := names
  aliveNodeIps := ips

/-- The nodes after a call on the allocator of `name`; the tasks it puts are for `round`. -/
def settle (s : Nodes T) (name : String) (round : Int) (o : Outcome T) : Nodes T :=
  { s with
    allocator := Function.update s.allocator name o.allocator
    tasks := s.tasks + Multiset.ofList ((o.effects.flatMap Effect.markers).map (name, round, ·))
    messages := s.messages + Multiset.ofList (o.effects.flatMap Effect.messages)
    calls := s.calls ++ (o.effects.flatMap Effect.calls).map (name, ·) }

/-- A `batchDoneTask` counts its batch. -/
def countTask (s : Nodes T) (t : Marker) : Nodes T :=
  let counted := (s.allocator t.1).countBatch t.1
  { s with
    allocator := Function.update s.allocator t.1 counted.1
    tasks := s.tasks.erase t
    ending := s.ending + Multiset.ofList (counted.2.toList.map (t.1, ·))
    ran := insert t s.ran }

/-- A call of `partitionDone` goes on after the last batch. -/
def conclude (names : List String) (s : Nodes T) (e : String × Partition) : Nodes T :=
  { s with ending := s.ending.erase e }.settle e.1 e.2.round
    { allocator := s.allocator e.1, effects := (s.allocator e.1).finish (view names e.1) e.2 }

/-- A `batchDoneTask` runs as a whole. -/
def runTask (names : List String) (s : Nodes T) (t : Marker) : Nodes T :=
  { s with tasks := s.tasks.erase t, ran := insert t s.ran }.settle t.1 t.2.1
    ((s.allocator t.1).partitionDone (view names t.1))

/-- A `SyncPartitionDone` arrives. -/
def deliver (s : Nodes T) (m : String × Partition) : Nodes T :=
  { s with messages := s.messages.erase m }.settle m.1 m.2.round
    ((s.allocator m.1).syncPartitionDone (.partition m.2))

/-- The map of a round is installed. -/
def install (names : List String) (s : Nodes T) (name : String) (round : Int) (np : Partitions)
    (ips : Slice) : Nodes T :=
  { s with installed := insert (name, round) s.installed }.settle name round
    ((s.allocator name).syncPartitions (view names name ips) (.partitions np))

/-- The partition of `other` in the map of the node `name`. -/
def sees (s : Nodes T) (name other : String) : Option Partition :=
  (s.allocator name).nodePartition other

/-- The node's partition in its own map. -/
def own (s : Nodes T) (name : String) : Option Partition := s.sees name name

/-- The node's own partition is `RoundDone`. -/
def roundDone (s : Nodes T) (name : String) : Bool := (s.own name).any Partition.roundDone

end Nodes

/-- What goes on while nodes hold their maps. -/
inductive Turn where
  | task (t : Marker)
  | deliver (m : String × Partition)

/-- What goes on over several rounds. -/
inductive RoundEvent where
  /-- The map of a round is installed on a node, while `GetAliveNodeIps` returns `ips`. -/
  | install (name : String) (round : Int) (ips : Slice)
  /-- A `batchDoneTask` counts its batch. -/
  | task (t : Marker)
  /-- A call of `partitionDone` goes on after the last batch. -/
  | conclude (e : String × Partition)
  /-- A `SyncPartitionDone` arrives. -/
  | deliver (m : String × Partition)

namespace Nodes

variable {T : Type}

def turn (names : List String) (s : Nodes T) : Turn → Option (Nodes T)
  | .task t => if t ∈ s.tasks then some (s.runTask names t) else none
  | .deliver m => if m ∈ s.messages then some (s.deliver m) else none

/-- The markers of a round: one for every batch of every node. -/
def roundMarkers (names : List String) {round : Int} (plan : Plan round) : List Marker :=
  names.flatMap fun name =>
    ((plan.partitions name).toList.flatMap fun p => List.range p.batchCount.toNat).map (name, round, ·)

/-- All alive nodes hold the map of a round and have yet to run one `batchDoneTask` for each batch. -/
structure Holding (names : List String) {round : Int} (plan : Plan round) (s : Nodes T) : Prop where
  nodePartition : ∀ name, (s.allocator name).nodePartition = plan.partitions
  tasks : s.tasks = Multiset.ofList (roundMarkers names plan)
  messages : s.messages = 0
  calls : s.calls = []

end Nodes

variable {T : Type}

/-- The nodes while they all hold the map of one round. -/
def oneRound (T : Type) (names : List String) {round : Int} (plan : Plan round) :
    Machine (Nodes T) Turn where
  init := Nodes.Holding names plan
  step := Nodes.turn names

/-- No map is installed, and nothing is under way. The build functions are arbitrary. -/
structure Nodes.Idle (s : Nodes T) : Prop where
  nodePartition : ∀ name other, (s.allocator name).nodePartition other = none
  tasks : s.tasks = 0
  ending : s.ending = 0
  messages : s.messages = 0
  calls : s.calls = []
  installed : s.installed = ∅
  ran : s.ran = ∅

/-- The nodes over any number of rounds. -/
def allRounds (T : Type) (names : List String) (plans : (round : Int) → Plan round) :
    Machine (Nodes T) RoundEvent where
  init := Nodes.Idle
  step := fun s e =>
    match e with
    | .install name round ips =>
      if name ∈ names ∧ (name, round) ∉ s.installed then
        some (s.install names name round (plans round).partitions ips)
      else none
    | .task t => if t ∈ s.tasks then some (s.countTask t) else none
    | .conclude e => if e ∈ s.ending then some (s.conclude names e) else none
    | .deliver m => if m ∈ s.messages then some (s.deliver m) else none

namespace Nodes

/-- All tasks of a batch are behind the node: a `batchDoneTask` of the batch ran, and none is left. -/
def finished (s : Nodes T) (t : Marker) : Prop := t ∈ s.ran ∧ t ∉ s.tasks

instance (s : Nodes T) (t : Marker) : Decidable (s.finished t) :=
  inferInstanceAs (Decidable (_ ∧ _))

/-- The node has finished all batches of its partition in a round, if it has one. -/
def finishedAll (s : Nodes T) {round : Int} (plan : Plan round) (name : String) : Prop :=
  ∀ p ∈ plan.partitions name, ∀ i < p.batchCount.toNat, s.finished (name, round, i)

instance (s : Nodes T) {round : Int} (plan : Plan round) (name : String) :
    Decidable (s.finishedAll plan name) :=
  inferInstanceAs (Decidable (∀ p ∈ plan.partitions name, _))

/-- The next `batchDoneTask` of the node is the one that makes its partition `RoundDone`. -/
def finishes (s : Nodes T) (name : String) : Bool :=
  (s.own name).any fun p => p.batchCount ≤ p.finBatchCount + 1

/-- A node that is the last to finish has no `SyncPartitionDone` coming to it. -/
def InformedLast (names : List String) (s : Nodes T) : Turn → Prop
  | .task t => s.finishes t.1 → (∀ name ∈ names, name ≠ t.1 → s.roundDone name) →
      ∀ m ∈ s.messages, m.1 ≠ t.1
  | .deliver _ => True

instance (names : List String) (s : Nodes T) (e : Turn) : Decidable (s.InformedLast names e) :=
  match e with
  | .task _ => inferInstanceAs (Decidable (_ → _ → _))
  | .deliver _ => inferInstanceAs (Decidable True)

/-- A completion is counted for the round it belongs to, or for a round that its node has finished
anyway: a `batchDoneTask` when it is the only one of its batch, a message by its `Round`. A node that has
counted the last batch of a round has the map of that round when it goes on, or sees in its map another
alive node that is not done. -/
def Credited (names : List String) (plans : (round : Int) → Plan round) (s : Nodes T) : RoundEvent → Prop
  | .install _ _ _ => True
  | .task t => ∀ p ∈ s.own t.1,
      (p.round = t.2.1 ∧ t ∉ s.ran ∧ s.tasks.count t = 1) ∨ s.finishedAll (plans p.round) t.1
  | .conclude e => (∃ p ∈ s.own e.1, p.round = e.2.round) ∨
      ∃ name ∈ names, name ≠ e.2.nodeName ∧ ∃ q ∈ s.sees e.1 name, q.roundDone = false
  | .deliver m => ∀ p ∈ s.sees m.1 m.2.nodeName,
      p.round = m.2.round ∨ s.finishedAll (plans p.round) m.2.nodeName

instance (names : List String) (plans : (round : Int) → Plan round) (s : Nodes T) (e : RoundEvent) :
    Decidable (s.Credited names plans e) :=
  match e with
  | .install _ _ _ => inferInstanceAs (Decidable True)
  | .task t => inferInstanceAs (Decidable (∀ p ∈ s.own t.1, _))
  | .conclude _ => inferInstanceAs (Decidable (_ ∨ _))
  | .deliver m => inferInstanceAs (Decidable (∀ p ∈ s.sees m.1 m.2.nodeName, _))

end Nodes

end OwnX.Task
