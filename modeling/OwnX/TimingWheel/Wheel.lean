import OwnX.Foundations.Machine
import OwnX.Foundations.MachineInt

/-!
# The timing wheel (`timing_wheel/timing_wheel.go`)

A wheel has 32 buckets. The slot of a timestamp is a tier (how many revolutions after the start) and
a bucket index; each bucket is a doubly linked list of tiers with their tasks. The list nodes live in
a heap, so that the pointer writes of `AddOnce` and of the tick loop are those of the source; an
address is a position in the heap, and a nil pointer is `none`.

The clock (`current.timestamp`, seconds) and the tiers are unbounded integers; what the clock and the
slots are in machine integers is stated at the end.
-/

namespace OwnX.TimingWheel

variable {α : Type}

/-- `defaultBucketLength`. -/
def defaultBucketLength : Int := 32

/-- `current`. -/
structure Current where
  timestamp : Int
  tier : Int := 0
  index : Int := 0
  deriving DecidableEq, Repr

/-- `TierIncr`. -/
def Current.tierIncr (c : Current) : Current := { c with tier := c.tier + 1, index := 0 }

/-- `Incr`. -/
def Current.incr (c : Current) : Current :=
  let c' : Current := { c with timestamp := c.timestamp + 1, index := c.index + 1 }
  if c'.index = defaultBucketLength then c'.tierIncr else c'

/-- `tierTask`, a node of a bucket list. -/
structure TierTask (α : Type) where
  tier : Int
  tasks : List α
  prev : Option Nat := none
  next : Option Nat := none
  deriving DecidableEq, Repr

/-- `timingWheel`, with the heap of its list nodes and the loop variable `i` of `Init`. -/
structure Wheel (α : Type) where
  current : Current
  buckets : List (Option Nat)
  heap : List (TierTask α)
  i : Nat
  deriving DecidableEq, Repr

/-- The wheel when `Init` starts its loop at the time `now`. -/
def init (now : Int) : Wheel α where
  current := { timestamp := now }
  buckets := List.replicate defaultBucketLength.toNat none
  heap := []
  i := 0

/-- The timestamp `AddOnce` works with: a past one is moved to the present. -/
def Current.effective (c : Current) (timestamp : Int) : Int :=
  if timestamp ≤ c.timestamp then c.timestamp else timestamp

/-- `taskTier` and `taskBucketIndex`, as `AddOnce` computes them. -/
def Current.slot (c : Current) (timestamp : Int) : Int × Int :=
  let taskRemainSec := c.effective timestamp - c.timestamp
  let taskTier := c.tier + taskRemainSec.tdiv defaultBucketLength
  let taskBucketIndex := c.index + taskRemainSec.tmod defaultBucketLength
  if defaultBucketLength ≤ taskBucketIndex then
    (taskTier + 1, taskBucketIndex.tmod defaultBucketLength)
  else (taskTier, taskBucketIndex)

/-- Linking a new node in front of `tierPointer`, behind its `prev`: `prev.next = &tierP` and
`tierPointer.prev = &tierP`. `none` is the dereference of a nil `prev`. -/
def insertBefore (heap : List (TierTask α)) (tierPointer : Nat) (node : TierTask α)
    (taskTier : Int) (task : α) : Option (List (TierTask α)) :=
  node.prev.bind fun prev =>
    heap[prev]?.map fun prevNode =>
      (heap.set prev { prevNode with next := some heap.length }).modify tierPointer
          (fun n => { n with prev := some heap.length }) ++
        [{ tier := taskTier, tasks := [task], prev := some prev, next := some tierPointer }]

/-- Linking a new node in behind `tierPointer`. The `prev` of the node after it is left alone. -/
def insertAfter (heap : List (TierTask α)) (tierPointer : Nat) (node : TierTask α)
    (taskTier : Int) (task : α) : List (TierTask α) :=
  heap.set tierPointer { node with next := some heap.length } ++
    [{ tier := taskTier, tasks := [task], prev := some tierPointer, next := node.next }]

/-- The loop of `AddOnce` over a bucket list, from the node `tierPointer` on. `none` is a nil pointer
dereference, or a list that does not end within `fuel` nodes. -/
def addLoop (taskTier : Int) (task : α) :
    Nat → List (TierTask α) → Option Nat → Option (List (TierTask α))
  | 0, _, _ => none
  | _ + 1, heap, none => some heap
  | fuel + 1, heap, some tierPointer =>
    heap[tierPointer]?.bind fun node =>
      if taskTier < node.tier then insertBefore heap tierPointer node taskTier task
      else if node.tier = taskTier then
        some (heap.set tierPointer { node with tasks := node.tasks ++ [task] })
      else if (node.next.bind (heap[·]?)).all fun n => taskTier < n.tier then
        some (insertAfter heap tierPointer node taskTier task)
      else addLoop taskTier task fuel heap node.next

/-- `AddOnce`. -/
def addOnce (w : Wheel α) (task : α) (timestamp : Int) : Option (Wheel α) :=
  let slot := w.current.slot timestamp
  if slot.2 < 0 then none
  else w.buckets[slot.2.toNat]?.bind fun tierList =>
    match tierList with
    | none =>
      some { w with
        buckets := w.buckets.set slot.2.toNat (some w.heap.length)
        heap := w.heap ++ [{ tier := slot.1, tasks := [task] }] }
    | some head =>
      (addLoop slot.1 task (w.heap.length + 1) w.heap (some head)).map fun heap =>
        { w with heap := heap }

/-- Unlinking the head of a bucket: the next node, if there is one, becomes the head. -/
def resetHead (heap : List (TierTask α)) : Option Nat → List (TierTask α)
  | none => heap
  | some next => heap.modify next fun n => { n with prev := none }

/-- One iteration of the inner loop of `Init`: the wheel and the tasks it runs. -/
def tick (w : Wheel α) : Option (Wheel α × List α) :=
  let current := w.current.incr
  let i := if w.i + 1 < defaultBucketLength.toNat then w.i + 1 else 0
  w.buckets[w.i]?.bind fun linkedList =>
    match linkedList with
    | none => some ({ w with current := current, i := i }, [])
    | some head =>
      w.heap[head]?.map fun node =>
        if current.tier = node.tier then
          ({ current := current, buckets := w.buckets.set w.i node.next,
             heap := resetHead w.heap node.next, i := i }, node.tasks)
        else ({ w with current := current, i := i }, [])

/-! ## The lists -/

/-- The nodes of a list with their addresses, along `next` from the node at an address. -/
def walk (heap : List (TierTask α)) : Nat → Option Nat → List (Nat × TierTask α)
  | 0, _ => []
  | _ + 1, none => []
  | fuel + 1, some a =>
    match heap[a]? with
    | none => []
    | some node => (a, node) :: walk heap fuel node.next

/-- The nodes of bucket `b`. No list is longer than the heap. -/
def Wheel.nodes (w : Wheel α) (b : Nat) : List (Nat × TierTask α) :=
  walk w.heap w.heap.length (w.buckets[b]?.join)

/-- The tiers of bucket `b` with their tasks. -/
def Wheel.bucket (w : Wheel α) (b : Nat) : List (Int × List α) :=
  (w.nodes b).map fun x => (x.2.tier, x.2.tasks)

/-- In every bucket the head has no `prev`, and each node is the `prev` of its `next`. -/
def Wheel.DoublyLinked (w : Wheel α) : Prop :=
  ∀ b < w.buckets.length,
    (∀ x ∈ (w.nodes b).head?, x.2.prev = none) ∧
    ∀ x ∈ w.nodes b, ∀ next ∈ x.2.next, ∀ node ∈ w.heap[next]?, node.prev = some x.1

instance (w : Wheel α) : Decidable w.DoublyLinked :=
  inferInstanceAs (Decidable (∀ b < w.buckets.length,
    (∀ x ∈ (w.nodes b).head?, x.2.prev = none) ∧
    ∀ x ∈ w.nodes b, ∀ next ∈ x.2.next, ∀ node ∈ w.heap[next]?, node.prev = some x.1))

/-! ## Runs -/

/-- The operations on a running wheel. -/
inductive Op (α : Type) where
  | addOnce (task : α) (timestamp : Int)
  | tick
  deriving DecidableEq, Repr

/-- What has happened so far: the task of each `AddOnce` call with the timestamp it was filed under,
and each execution of a task with the clock before its tick. -/
structure Log (α : Type) where
  added : List (α × Int) := []
  fired : List ((α × Nat) × Int) := []
  deriving DecidableEq, Repr

/-- One completed operation. The wheel does not look at its tasks; a task is stored with the number
of its `AddOnce` call, so that two calls with one task are told apart. -/
def step (s : Wheel (α × Nat) × Log α) : Op α → Option (Wheel (α × Nat) × Log α)
  | .addOnce task timestamp =>
    (addOnce s.1 (task, s.2.added.length) timestamp).map fun w =>
      (w, { s.2 with added := s.2.added ++ [(task, s.1.current.effective timestamp)] })
  | .tick =>
    (tick s.1).map fun r =>
      (r.1, { s.2 with fired := s.2.fired ++ r.2.map fun x => (x, s.1.current.timestamp) })

/-- The runs of a wheel started at the time `now`, in which every operation completes. -/
def machine (now : Int) : Machine (Wheel (α × Nat) × Log α) (Op α) where
  init := fun s => s = (init now, {})
  step := step

/-! ## Machine integers

The same computations in an arithmetic. The clock and the tiers are `int64`; an index is an `int`, of
`bits` bits. -/

/-- `TierIncr`. -/
def Current.tierIncrIn (A : Arithmetic) (c : Current) : Option Current :=
  (A 64 (c.tier + 1)).bind fun tier => some { c with tier := tier, index := 0 }

/-- `Incr`. -/
def Current.incrIn (A : Arithmetic) (bits : Nat) (c : Current) : Option Current :=
  (A 64 (c.timestamp + 1)).bind fun timestamp =>
    (A bits (c.index + 1)).bind fun index =>
      let c' : Current := { c with timestamp := timestamp, index := index }
      if c'.index = defaultBucketLength then c'.tierIncrIn A else some c'

/-- The clock that `Init` starts at the time `now`, after `n` calls of `Incr`. -/
def Current.afterIn (A : Arithmetic) (bits : Nat) (now : Int) : Nat → Option Current
  | 0 => some { timestamp := now }
  | n + 1 => (Current.afterIn A bits now n).bind fun c => c.incrIn A bits

/-- `taskTier` and `taskBucketIndex`, as `AddOnce` computes them. -/
def Current.slotIn (A : Arithmetic) (bits : Nat) (c : Current) (timestamp : Int) : Option (Int × Int) :=
  (A 64 (c.effective timestamp - c.timestamp)).bind fun taskRemainSec =>
    (A 64 (taskRemainSec.tdiv defaultBucketLength)).bind fun quotient =>
      (A 64 (c.tier + quotient)).bind fun taskTier =>
        (A 64 (taskRemainSec.tmod defaultBucketLength)).bind fun remainder =>
          -- the conversion to `int`
          (A bits remainder).bind fun remainder =>
            (A bits (c.index + remainder)).bind fun taskBucketIndex =>
              if defaultBucketLength ≤ taskBucketIndex then
                (A 64 (taskTier + 1)).bind fun taskTier =>
                  (A bits (taskBucketIndex.tmod defaultBucketLength)).bind fun taskBucketIndex =>
                    some (taskTier, taskBucketIndex)
              else some (taskTier, taskBucketIndex)

end OwnX.TimingWheel
