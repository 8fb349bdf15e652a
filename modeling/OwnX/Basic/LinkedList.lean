import OwnX.Foundations.Refinement
import Mathlib.Logic.Function.Basic

/-!
# The doubly linked list (`basic/linkedlist.go`)

The nodes live in a heap, and `first`, `last`, `prev` and `next` are addresses in it; nil is `none`. An
operation is `none` when it dereferences nil, or when a loop over the nodes does not end: such a loop
comes back to a node, so it takes more turns than there are nodes.

An `interface{}` is an `Option V`, where `none` is nil. Values are compared with the equality of Go,
which need not be reflexive and may hold of different values. Each operation holds the lock throughout,
apart from the tests at the start of `AddBefore`.
-/

namespace OwnX.Basic

/-- `node`. -/
structure Node (V : Type) where
  data : Option V := none
  prev : Option Nat := none
  next : Option Nat := none

/-- `LinkedList`, with the heap of its nodes; addresses from `fresh` on are unused. -/
structure LinkedList (V : Type) where
  size : Int := 0
  first : Option Nat := none
  last : Option Nat := none
  heap : Nat → Option (Node V) := fun _ => none
  fresh : Nat := 0

namespace LinkedList

variable {V : Type}

/-! ## Nodes -/

/-- Read through a pointer. -/
def deref (this : LinkedList V) (n : Option Nat) : Option (Node V) := n.bind this.heap

/-- Write to a node. -/
def update (this : LinkedList V) (a : Nat) (f : Node V → Node V) : Option (LinkedList V) :=
  (this.heap a).map fun n => { this with heap := Function.update this.heap a (some (f n)) }

/-- Clear the fields of a node. -/
def clearNode (this : LinkedList V) (a : Nat) : Option (LinkedList V) := this.update a fun _ => {}

/-- Make a new node; its address is `this.fresh`. -/
def alloc (this : LinkedList V) (n : Node V) : LinkedList V :=
  { this with heap := Function.update this.heap this.fresh (some n), fresh := this.fresh + 1 }

/-- `if p == nil { this.first = q } else { p.next = q }`, as every operation that changes a link to the
right has it. -/
def setNext (this : LinkedList V) (p q : Option Nat) : Option (LinkedList V) :=
  match p with
  | none => some { this with first := q }
  | some a => this.update a fun n => { n with next := q }

/-- `if q == nil { this.last = p } else { q.prev = p }`. -/
def setPrev (this : LinkedList V) (q p : Option Nat) : Option (LinkedList V) :=
  match q with
  | none => some { this with last := p }
  | some a => this.update a fun n => { n with prev := p }

/-- Follow a link `k` times. -/
def follow (this : LinkedList V) (link : Node V → Option Nat) : Nat → Option Nat → Option (Option Nat)
  | 0, n => some n
  | k + 1, n => (this.deref n).bind fun c => this.follow link k (link c)

/-- The node at an index, from the nearer end. -/
def getNode (this : LinkedList V) (no : Int) : Option (Option Nat) :=
  if no < this.size.tdiv 2 then this.follow Node.next no.toNat this.first
  else this.follow Node.prev (this.size - 1 - no).toNat this.last

/-- Take a node out of the list and return its data. -/
def deleteNode (this : LinkedList V) (n : Option Nat) : Option (LinkedList V × Option V) :=
  match n with
  | none => some (this, none)
  | some a => do
    let c ← this.heap a
    let this ← this.setNext c.prev c.next
    let this ← this.setPrev c.next c.prev
    let this ← this.clearNode a
    return ({ this with size := this.size - 1 }, c.data)

/-! ## Adding -/

def addLast (this : LinkedList V) (v : Option V) : Option (LinkedList V) := do
  let currentLastNode := this.last
  let new := some this.fresh
  let this := this.alloc { data := v, prev := currentLastNode, next := none }
  let this := { this with last := new }
  let this ← this.setNext currentLastNode new
  return { this with size := this.size + 1 }

def add (this : LinkedList V) (v : Option V) : Option (LinkedList V) := this.addLast v

def addFirst (this : LinkedList V) (v : Option V) : Option (LinkedList V) := do
  let currentFirstNode := this.first
  let new := some this.fresh
  let this := this.alloc { data := v, prev := none, next := currentFirstNode }
  let this := { this with first := new }
  let this ← this.setPrev currentFirstNode new
  return { this with size := this.size + 1 }

/-- The section of `AddBefore` under the lock, and the error it returns. -/
def addBeforeLocked (this : LinkedList V) (index : Int) (v : Option V) :
    Option (LinkedList V × Option String) := do
  match ← this.getNode index with
  | none => return (this, some ("item of '" ++ toString index ++ "' not found"))
  | some target =>
    let c ← this.heap target
    let new := some this.fresh
    let this := this.alloc { data := v, prev := c.prev, next := some target }
    let this ← this.update target fun n => { n with prev := new }
    let this ← this.setNext c.prev new
    return ({ this with size := this.size + 1 }, none)

def addBefore (this : LinkedList V) (index : Int) (v : Option V) :
    Option (LinkedList V × Option String) :=
  if index < 0 ∨ index > this.size then
    some (this, some "linkedList.AddBefore: index out of range")
  else if index = this.size then (this.addLast v).map (·, none)
  else this.addBeforeLocked index v

/-! ## Removing -/

def remove (this : LinkedList V) (index : Int) : Option (LinkedList V × Option V) :=
  if index < 0 ∨ index ≥ this.size then some (this, none)
  else (this.getNode index).bind this.deleteNode

/-- The first node from `n` on whose data passes the test. -/
def search (this : LinkedList V) (test : Option V → Bool) : Nat → Option Nat → Option (Option Nat)
  | _, none => some none
  | 0, some _ => none
  | fuel + 1, some a =>
    (this.heap a).bind fun c => if test c.data then some (some a) else this.search test fuel c.next

/-- The two loops of `RemoveData`: the first node with the data. -/
def findData [BEq V] (this : LinkedList V) (v : Option V) : Option (Option Nat) :=
  if v.isNone then this.search (fun d => d.isNone) this.fresh this.first
  else this.search (fun d => d == v) this.fresh this.first

def removeData [BEq V] (this : LinkedList V) (v : Option V) : Option (LinkedList V × Bool) :=
  (this.findData v).bind fun
    | none => some (this, false)
    | some a => (this.deleteNode (some a)).map fun r => (r.1, true)

/-- The loop of `RemoveUntil` from the node `n` on. -/
def removeUntilFrom (index : Int) : Nat → LinkedList V → Int → Option Nat → Option (LinkedList V)
  | _, this, _, none => some this
  | 0, _, _, some _ => none
  | fuel + 1, this, currentIndex, some a => do
    let c ← this.heap a
    let this ← this.clearNode a
    let this := { this with first := c.next, size := this.size - 1 }
    let this ← this.setPrev c.next none
    if currentIndex = index then return this
    else removeUntilFrom index fuel this (currentIndex + 1) c.next

def removeUntil (this : LinkedList V) (index : Int) : Option (LinkedList V × Option String) :=
  if index < 0 ∨ index ≥ this.size then
    some (this, some "linkedList.RemoveUntil: index out of range")
  else (removeUntilFrom index this.fresh this 0 this.first).map (·, none)

def removeFirst (this : LinkedList V) : Option (LinkedList V × Option V) :=
  match this.first with
  | none => some (this, none)
  | some a => do
    let c ← this.heap a
    let this := { this with first := c.next }
    let this ← this.setPrev c.next none
    let this ← this.clearNode a
    return ({ this with size := this.size - 1 }, c.data)

def removeLast (this : LinkedList V) : Option (LinkedList V × Option V) :=
  match this.last with
  | none => some (this, none)
  | some a => do
    let c ← this.heap a
    let this := { this with last := c.prev }
    let this ← this.setNext c.prev none
    let this ← this.clearNode a
    return ({ this with size := this.size - 1 }, c.data)

/-- The loop of `Clear` from the node `n` on. -/
def clearFrom : Nat → LinkedList V → Option Nat → Option (LinkedList V)
  | _, this, none => some this
  | 0, _, some _ => none
  | fuel + 1, this, some a => do
    let c ← this.heap a
    let this ← this.clearNode a
    clearFrom fuel this c.next

def clear (this : LinkedList V) : Option (LinkedList V) :=
  (clearFrom this.fresh this this.first).map fun this =>
    { this with first := none, last := none, size := 0 }

/-! ## Reading -/

/-- `GetFirst` and `GetLast`: the data of the node at an end, if there is one. -/
def dataOf (this : LinkedList V) (n : Option Nat) : Option (Option V) :=
  match n with
  | none => some none
  | some a => (this.heap a).map Node.data

def getFirst (this : LinkedList V) : Option (Option V) := this.dataOf this.first

def getLast (this : LinkedList V) : Option (Option V) := this.dataOf this.last

def get (this : LinkedList V) (index : Int) : Option (Option V) :=
  if index < 0 ∨ index ≥ this.size then some none
  else do
    let n ← this.getNode index
    let c ← this.deref n
    return c.data

/-- A callback, as a function of the calls made so far, the current one included: whether to go on. -/
abbrev Callback (V : Type) := List (Int × Option V) → Bool

/-- The loops of `Loop` and `ReverseLoop`: the calls of the callback, in order. -/
def visit (this : LinkedList V) (link : Node V → Option Nat) (step : Int) (callback : Callback V) :
    Nat → Int → List (Int × Option V) → Option Nat → Option (List (Int × Option V))
  | _, _, calls, none => some calls
  | 0, _, _, some _ => none
  | fuel + 1, index, calls, some a => do
    let c ← this.heap a
    let calls := calls ++ [(index, c.data)]
    if callback calls then this.visit link step callback fuel (index + step) calls (link c)
    else return calls

def loop (this : LinkedList V) (callback : Callback V) : Option (List (Int × Option V)) :=
  this.visit Node.next 1 callback this.fresh 0 [] this.first

def reverseLoop (this : LinkedList V) (callback : Callback V) : Option (List (Int × Option V)) :=
  this.visit Node.prev (-1) callback this.fresh (this.size - 1) [] this.last

/-! ## The list as a data type -/

/-- The operations. -/
inductive Op (V : Type) where
  | add (v : Option V)
  | addLast (v : Option V)
  | addFirst (v : Option V)
  | addBefore (index : Int) (v : Option V)
  | remove (index : Int)
  | removeData (v : Option V)
  | removeUntil (index : Int)
  | removeFirst
  | removeLast
  | clear
  | get (index : Int)
  | getFirst
  | getLast
  | size
  | loop (callback : Callback V)
  | reverseLoop (callback : Callback V)

/-- What an operation returns; a loop returns the calls it makes. -/
inductive Ret (V : Type) where
  | unit
  | value (v : Option V)
  | bool (b : Bool)
  | error (e : Option String)
  | int (n : Int)
  | calls (l : List (Int × Option V))
  deriving DecidableEq, Repr

def exec [BEq V] (this : LinkedList V) : Op V → Option (LinkedList V × Ret V)
  | .add v => (this.add v).map (·, .unit)
  | .addLast v => (this.addLast v).map (·, .unit)
  | .addFirst v => (this.addFirst v).map (·, .unit)
  | .addBefore index v => (this.addBefore index v).map fun r => (r.1, .error r.2)
  | .remove index => (this.remove index).map fun r => (r.1, .value r.2)
  | .removeData v => (this.removeData v).map fun r => (r.1, .bool r.2)
  | .removeUntil index => (this.removeUntil index).map fun r => (r.1, .error r.2)
  | .removeFirst => this.removeFirst.map fun r => (r.1, .value r.2)
  | .removeLast => this.removeLast.map fun r => (r.1, .value r.2)
  | .clear => this.clear.map (·, .unit)
  | .get index => (this.get index).map fun v => (this, .value v)
  | .getFirst => this.getFirst.map fun v => (this, .value v)
  | .getLast => this.getLast.map fun v => (this, .value v)
  | .size => some (this, .int this.size)
  | .loop callback => (this.loop callback).map fun l => (this, .calls l)
  | .reverseLoop callback => (this.reverseLoop callback).map fun l => (this, .calls l)

/-- The list as `NewLinkedList` makes it, with its operations. -/
def dataType (V : Type) [BEq V] : DataType (LinkedList V) (Op V) (Ret V) where
  init := {}
  exec := exec

/-! ## The sequence it stands for

The same operations on a plain list. -/

/-- The calls of a callback that is shown the elements of a list with their indices. -/
def visitList (step : Int) (callback : Callback V) :
    Int → List (Int × Option V) → List (Option V) → List (Int × Option V)
  | _, calls, [] => calls
  | index, calls, v :: l =>
    if callback (calls ++ [(index, v)]) then
      visitList step callback (index + step) (calls ++ [(index, v)]) l
    else calls ++ [(index, v)]

/-- The index is that of an element. -/
def InRange (l : List (Option V)) (index : Int) : Prop := 0 ≤ index ∧ index < l.length

instance (l : List (Option V)) (index : Int) : Decidable (InRange l index) :=
  inferInstanceAs (Decidable (_ ∧ _))

def execList [BEq V] (l : List (Option V)) : Op V → List (Option V) × Ret V
  | .add v => (l ++ [v], .unit)
  | .addLast v => (l ++ [v], .unit)
  | .addFirst v => (v :: l, .unit)
  | .addBefore index v =>
    if 0 ≤ index ∧ index ≤ l.length then
      (l.take index.toNat ++ v :: l.drop index.toNat, .error none)
    else (l, .error (some "linkedList.AddBefore: index out of range"))
  | .remove index =>
    if InRange l index then (l.eraseIdx index.toNat, .value (l.getD index.toNat none))
    else (l, .value none)
  | .removeData v => (l.eraseP (· == v), .bool (l.any (· == v)))
  | .removeUntil index =>
    if InRange l index then (l.drop (index.toNat + 1), .error none)
    else (l, .error (some "linkedList.RemoveUntil: index out of range"))
  | .removeFirst => (l.tail, .value (l.headD none))
  | .removeLast => (l.dropLast, .value (l.getLastD none))
  | .clear => ([], .unit)
  | .get index => (l, .value (if InRange l index then l.getD index.toNat none else none))
  | .getFirst => (l, .value (l.headD none))
  | .getLast => (l, .value (l.getLastD none))
  | .size => (l, .int l.length)
  | .loop callback => (l, .calls (visitList 1 callback 0 [] l))
  | .reverseLoop callback => (l, .calls (visitList (-1) callback (l.length - 1) [] l.reverse))

/-- Sequences with their operations, none of which goes wrong. -/
def listType (V : Type) [BEq V] : DataType (List (Option V)) (Op V) (Ret V) where
  init := []
  exec := fun l op => some (execList l op)

end LinkedList

end OwnX.Basic
