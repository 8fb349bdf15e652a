import OwnX.Basic.LinkedList
import OwnX.Foundations.Linearizability

/-!
# Clients of a linked list (`basic/linkedlist.go`)

Every operation takes the lock at its start and does all its work in one critical section, apart from
`AddBefore`: it compares the index with `size` before it takes the lock, and then either calls
`AddLast`, or takes the lock and inserts before the node at the index. Other clients may change the list
between the comparison and the critical section.
-/

namespace OwnX.Basic.LinkedList

variable {V : Type}

/-- Where a call is: at its start, or, for `AddBefore`, after its tests. -/
inductive Stage where
  | start
  | append
  | insert
  deriving DecidableEq, Repr

/-- The tests of `AddBefore`: the branch it takes; `none` is the error. -/
def addBeforeTest (this : LinkedList V) (index : Int) : Option Stage :=
  if index < 0 ∨ index > this.size then none
  else if index = this.size then some .append
  else some .insert

/-- `AddBefore` in its three places. -/
def addBeforeStep (this : LinkedList V) (index : Int) (v : Option V) :
    Stage → Option (LinkedList V × (Stage ⊕ Ret V))
  | .start =>
    match this.addBeforeTest index with
    | none => some (this, .inr (.error (some "linkedList.AddBefore: index out of range")))
    | some stage => some (this, .inl stage)
  | .append => (this.addLast v).map fun this => (this, .inr (.error none))
  | .insert => (this.addBeforeLocked index v).map fun r => (r.1, .inr (.error r.2))

/-- One atomic step of a call. -/
def callStep [BEq V] (this : LinkedList V) (op : Op V) (stage : Stage) :
    Option (LinkedList V × (Stage ⊕ Ret V)) :=
  match op with
  | .addBefore index v => this.addBeforeStep index v stage
  | op => (this.exec op).map fun r => (r.1, .inr r.2)

/-- The list as its clients share it. -/
def shared (V : Type) [BEq V] : SharedObject (LinkedList V) (Op V) Stage (Ret V) where
  init := {}
  start := .start
  step := callStep

/-- The answer of the tests of `AddBefore` still holds when it takes the lock. -/
def TestHolds (this : LinkedList V) (op : Op V) (stage : Stage) : Prop :=
  match op with
  | .addBefore index _ => stage = .start ∨ this.addBeforeTest index = some stage
  | _ => True

instance (this : LinkedList V) (op : Op V) (stage : Stage) : Decidable (this.TestHolds op stage) :=
  match op with
  | .addBefore _ _ => inferInstanceAs (Decidable (_ ∨ _))
  | .add _ | .addLast _ | .addFirst _ | .remove _ | .removeData _ | .removeUntil _ | .removeFirst
  | .removeLast | .clear | .get _ | .getFirst | .getLast | .size | .loop _ | .reverseLoop _ =>
    .isTrue trivial

end OwnX.Basic.LinkedList
