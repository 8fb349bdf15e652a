import OwnX.Foundations.GoMap
import OwnX.Foundations.Refinement

/-!
# The ordered map (`basic/orderedmap.go`)

`keys` holds the order and `store` the content. Every operation holds the lock throughout. Values are
`interface{}`, of which nil is the default: it is what `store` gives for a missing key. `Values` is
`none` when it indexes past the slice it has made.
-/

namespace OwnX.Basic

/-- `OrderedMap`, empty as `NewOrderedMap` makes it. -/
structure OrderedMap (K V : Type) [BEq K] where
  keys : List K := []
  store : GoMap K V := {}

namespace OrderedMap

variable {K V : Type} [BEq K]

def put (m : OrderedMap K V) (key : K) (value : V) : OrderedMap K V where
  keys := if (m.store.get? key).isSome then m.keys else m.keys ++ [key]
  store := m.store.set key value

def get [Inhabited V] (m : OrderedMap K V) (key : K) : V × Bool :=
  ((m.store.get? key).getD default, (m.store.get? key).isSome)

def remove (m : OrderedMap K V) (key : K) : OrderedMap K V :=
  if (m.store.get? key).isSome then
    { keys := m.keys.eraseP (· == key), store := m.store.delete key }
  else m

def size (m : OrderedMap K V) : Nat := m.store.size

def empty (m : OrderedMap K V) : Bool := m.store.size == 0

/-- The loop of `Values`: `values[i] = m.store[key]` for the keys from `i` on. -/
def fill [Inhabited V] (m : OrderedMap K V) : Nat → List K → List V → Option (List V)
  | _, [], values => some values
  | i, key :: keys, values =>
    if i < values.length then m.fill (i + 1) keys (values.set i (m.get key).1) else none

def values [Inhabited V] (m : OrderedMap K V) : Option (List V) :=
  m.fill 0 m.keys (List.replicate m.store.size default)

/-! ## The map as a data type -/

/-- The operations. -/
inductive Op (K V : Type) where
  | put (key : K) (value : V)
  | remove (key : K)
  | get (key : K)
  | size
  | empty
  | keys
  | values

/-- What an operation returns. -/
inductive Ret (K V : Type) where
  | unit
  | found (value : V) (found : Bool)
  | int (n : Nat)
  | bool (b : Bool)
  | keys (l : List K)
  | values (l : List V)

variable [Inhabited V]

def exec (m : OrderedMap K V) : Op K V → Option (OrderedMap K V × Ret K V)
  | .put key value => some (m.put key value, .unit)
  | .remove key => some (m.remove key, .unit)
  | .get key => some (m, .found (m.get key).1 (m.get key).2)
  | .size => some (m, .int m.size)
  | .empty => some (m, .bool m.empty)
  | .keys => some (m, .keys m.keys)
  | .values => m.values.map fun l => (m, .values l)

/-- The map as `NewOrderedMap` makes it, with its operations. -/
def dataType (K V : Type) [BEq K] [Inhabited V] : DataType (OrderedMap K V) (Op K V) (Ret K V) where
  init := {}
  exec := exec

/-! ## The association list it stands for

A key that is absent goes to the end, a key that is present keeps its place. -/

def assocPut (l : List (K × V)) (key : K) (value : V) : List (K × V) :=
  if (assocGet l key).isSome then assocReplace l key value else l ++ [(key, value)]

def assocRemove (l : List (K × V)) (key : K) : List (K × V) := l.eraseP fun e => e.1 == key

def execAssoc (l : List (K × V)) : Op K V → List (K × V) × Ret K V
  | .put key value => (assocPut l key value, .unit)
  | .remove key => (assocRemove l key, .unit)
  | .get key => (l, .found ((assocGet l key).getD default) (assocGet l key).isSome)
  | .size => (l, .int l.length)
  | .empty => (l, .bool l.isEmpty)
  | .keys => (l, .keys (l.map Prod.fst))
  | .values => (l, .values (l.map Prod.snd))

/-- Association lists with the operations, none of which goes wrong. -/
def assocType (K V : Type) [BEq K] [Inhabited V] : DataType (List (K × V)) (Op K V) (Ret K V) where
  init := []
  exec := fun l op => some (execAssoc l op)

/-! ## The time of insertion -/

/-- When the present keys were inserted, after one more operation at the time `t`. -/
def stamp (t : Nat) (time : K → Option Nat) : Op K V → K → Option Nat
  | .put key _, k => if key == k ∧ (time k).isNone then some t else time k
  | .remove key, k => if key == k then none else time k
  | _, k => time k

/-- When the present keys were inserted, after operations from the time `t` on. -/
def stampsFrom : Nat → (K → Option Nat) → List (Op K V) → K → Option Nat
  | _, time, [] => time
  | t, time, op :: ops => stampsFrom (t + 1) (stamp t time op) ops

/-- The time at which a key that is present was inserted, that is, put when it was absent: the number of
operations before that `Put`. -/
def insertedAt (ops : List (Op K V)) : K → Option Nat := stampsFrom 0 (fun _ => none) ops

end OrderedMap

end OwnX.Basic
