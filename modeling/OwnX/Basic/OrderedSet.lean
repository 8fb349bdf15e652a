import OwnX.Basic.OrderedMap
import OwnX.Foundations.Linearizability

/-!
# The ordered set (`basic/orderedset.go`)

An item gets a number when it is put into the set, and numbers are not used again. `index` maps the items
to their numbers, `store` maps the numbers to the items, in the order of the numbers.

`Add` and `Remove` look into `index` without the lock; `put` and `remove` are the sections under it.
Items are compared with the equality of Go, which need not be reflexive.
-/

namespace OwnX.Basic

/-- `OrderedSet`, empty as `NewOrderedSet` makes it. -/
structure OrderedSet (T : Type) [BEq T] where
  currentIndex : Int := 0
  index : GoMap T Int := {}
  store : OrderedMap Int T := {}

namespace OrderedSet

variable {T : Type} [BEq T]

def put (s : OrderedSet T) (item : T) : OrderedSet T where
  store := s.store.put s.currentIndex item
  index := s.index.set item s.currentIndex
  currentIndex := s.currentIndex + 1

/-- `remove`, the section of `Remove` under the lock. -/
def removeLocked (s : OrderedSet T) (index : Int) (item : T) : OrderedSet T :=
  { s with store := s.store.remove index, index := s.index.delete item }

def add (s : OrderedSet T) : List T → OrderedSet T
  | [] => s
  | item :: items => if (s.index.get? item).isSome then s.add items else (s.put item).add items

/-- `Remove`; the first item that is not found ends it. -/
def remove (s : OrderedSet T) : List T → OrderedSet T
  | [] => s
  | item :: items =>
    match s.index.get? item with
    | none => s
    | some index => (s.removeLocked index item).remove items

def contains (s : OrderedSet T) (items : List T) : Bool :=
  items.all fun item => (s.index.get? item).isSome

def empty (s : OrderedSet T) : Bool := s.store.empty

def values [Inhabited T] (s : OrderedSet T) : Option (List T) := s.store.values

def size (s : OrderedSet T) : Nat := s.store.size

/-! ## Sequences of calls -/

/-- The calls that change a set. -/
inductive Call (T : Type) where
  | add (items : List T)
  | remove (items : List T)

def call (s : OrderedSet T) : Call T → OrderedSet T
  | .add items => s.add items
  | .remove items => s.remove items

/-- The set after a sequence of calls. -/
def run (s : OrderedSet T) (calls : List (Call T)) : OrderedSet T := calls.foldl call s

/-- The items in the order of their latest insertion, after adding more. -/
def listAdd (l : List T) : List T → List T
  | [] => l
  | item :: items => if l.any (· == item) then listAdd l items else listAdd (l ++ [item]) items

/-- The items after removing some, up to the first that is not there. -/
def listRemove (l : List T) : List T → List T
  | [] => l
  | item :: items => if l.any (· == item) then listRemove (l.eraseP (· == item)) items else l

def listCall (l : List T) : Call T → List T
  | .add items => listAdd l items
  | .remove items => listRemove l items

/-- The items, in the order of their latest insertion, after a sequence of calls. -/
def listRun (l : List T) (calls : List (Call T)) : List T := calls.foldl listCall l

/-! ## Removal -/

/-- `s'` is `s` without the items, as far as `Contains` and `Values` show it. -/
structure Without [Inhabited T] (s s' : OrderedSet T) (items : List T) : Prop where
  gone : ∀ x ∈ items, s'.contains [x] = false
  kept : ∀ y, (∀ x ∈ items, (x == y) = false) → s'.contains [y] = s.contains [y]
  values : s'.values = s.values.map fun vs => vs.filter fun v => !items.any (v == ·)

/-- Behind an item that is absent, or that is in the list a second time, there is one that is present
and has not been in the list before. -/
def StopsShort (s : OrderedSet T) (items : List T) : Prop :=
  ∃ pre x post, items = pre ++ x :: post ∧ (s.contains [x] = false ∨ ∃ p ∈ pre, p == x) ∧
    ∃ y ∈ post, s.contains [y] = true ∧ ∀ p ∈ pre, (p == y) = false

/-! ## Clients of a set -/

/-- The operations of the clients. -/
inductive Op (T : Type) where
  | add (items : List T)
  | remove (items : List T)
  | contains (items : List T)

/-- What they return. -/
inductive Ret where
  | unit
  | bool (b : Bool)

/-- Where a call is: before the lookup of the next item, or after a lookup and before the lock. -/
inductive Stage (T : Type) where
  | start
  | next (rest : List T)
  | put (item : T) (rest : List T)
  | remove (index : Int) (item : T) (rest : List T)

/-- The lookup of `Add`. -/
def addNext (s : OrderedSet T) : List T → Stage T ⊕ Ret
  | [] => .inr .unit
  | item :: rest => .inl (if (s.index.get? item).isSome then .next rest else .put item rest)

/-- The lookup of `Remove`. -/
def removeNext (s : OrderedSet T) : List T → Stage T ⊕ Ret
  | [] => .inr .unit
  | item :: rest =>
    match s.index.get? item with
    | none => .inr .unit
    | some index => .inl (.remove index item rest)

/-- One atomic step of a call: a lookup, or a section under the lock. -/
def callStep (s : OrderedSet T) (op : Op T) (stage : Stage T) :
    Option (OrderedSet T × (Stage T ⊕ Ret)) :=
  match op, stage with
  | .add items, .start => some (s, s.addNext items)
  | .add _, .next rest => some (s, s.addNext rest)
  | .add _, .put item rest => some (s.put item, .inl (.next rest))
  | .remove items, .start => some (s, s.removeNext items)
  | .remove _, .next rest => some (s, s.removeNext rest)
  | .remove _, .remove index item rest => some (s.removeLocked index item, .inl (.next rest))
  | .contains items, .start => some (s, .inr (.bool (s.contains items)))
  | _, _ => none

/-- The set as its clients share it. -/
def shared (T : Type) [BEq T] : SharedObject (OrderedSet T) (Op T) (Stage T) Ret where
  init := {}
  start := .start
  step := callStep

/-- Under the lock the lookup still holds: an item that is put is absent, and an item that is removed has
the number that was found, if it is there. An item that is put is equal to itself. -/
def LookupHolds (s : OrderedSet T) (_ : Op T) : Stage T → Prop
  | .put item _ => item == item ∧ s.index.get? item = none
  | .remove index item _ => s.index.get? item = some index ∨ s.index.get? item = none
  | _ => True

instance (s : OrderedSet T) (op : Op T) (stage : Stage T) : Decidable (s.LookupHolds op stage) :=
  match stage with
  | .start | .next _ => .isTrue trivial
  | .put _ _ => inferInstanceAs (Decidable (_ ∧ _))
  | .remove _ _ _ => inferInstanceAs (Decidable (_ ∨ _))

end OrderedSet

end OwnX.Basic
