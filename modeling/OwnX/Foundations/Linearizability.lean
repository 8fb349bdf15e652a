import OwnX.Foundations.Machine
import OwnX.Foundations.Refinement

/-!
# Linearizability

Clients call the operations of a shared object at the same time. A call goes through atomic steps, each
of which moves it to another stage or gives its result, and the steps of different calls interleave in
any way. Every call has a number; a client that makes several calls one after another is a run in which
each of them is made after the one before has returned.

The calls are linearizable if there is an order of them in which a data type, one operation after
another, gives the same results, and in which a call that returned before another was made comes first.
-/

namespace OwnX

/-- A shared object with values `S`, whose operations `O` go through stages `L` to their results `R`. -/
structure SharedObject (S O L R : Type) where
  init : S
  /-- The stage in which every call begins. -/
  start : L
  /-- One atomic step of a call: the next stage, or the result. -/
  step : S → O → L → Option (S × (L ⊕ R))

/-- What the clients observe: calls that are made, and results that are returned. -/
inductive Observation (O R : Type) where
  | invoke (call : Nat) (op : O)
  | respond (call : Nat) (ret : R)

/-- A call in the order of a linearization. -/
structure Completed (O R : Type) where
  call : Nat
  op : O
  ret : R

/-- The data type `E`, carrying out the calls of `order` one after another, explains the history `h`
and ends in `x`. A call that has not returned may be in the order or not. -/
structure Linearization {X O R : Type} (E : DataType X O R) (h : List (Observation O R)) (x : X)
    (order : List (Completed O R)) : Prop where
  nodup : (order.map Completed.call).Nodup
  invoked : ∀ c ∈ order, .invoke c.call c.op ∈ h
  returned : ∀ k r, .respond k r ∈ h → ∃ op, ⟨k, op, r⟩ ∈ order
  run : E.run E.init (order.map Completed.op) = some (x, order.map Completed.ret)
  /-- A call that returned before another was made comes before it. -/
  respects : ∀ i j r op, [.respond i r, .invoke j op].Sublist h → j ∈ order.map Completed.call →
    [i, j].Sublist (order.map Completed.call)

/-- The history is that of some order of its calls, after which the data type has the value `x`. -/
def Linearizable {X O R : Type} (E : DataType X O R) (h : List (Observation O R)) (x : X) : Prop :=
  ∃ order, Linearization E h x order

/-- Where a call is. -/
inductive CallState (O L R : Type) where
  | running (op : O) (stage : L)
  | finished (op : O) (ret : R)
  | returned (op : O) (ret : R)

/-- The object, its calls by their numbers, and the history. -/
structure Clients (S O L R : Type) where
  object : S
  calls : List (CallState O L R) := []
  history : List (Observation O R) := []

inductive ClientEvent (O : Type) where
  /-- A client makes a call. -/
  | invoke (op : O)
  /-- A call takes its next step. -/
  | advance (call : Nat)
  /-- A call returns its result. -/
  | respond (call : Nat)

namespace SharedObject

variable {S O L R : Type}

/-- The state of a call after a step that gives `res`. -/
def after (op : O) : L ⊕ R → CallState O L R
  | .inl stage => .running op stage
  | .inr ret => .finished op ret

def clientStep (Ob : SharedObject S O L R) (s : Clients S O L R) :
    ClientEvent O → Option (Clients S O L R)
  | .invoke op => some { s with
      calls := s.calls ++ [.running op Ob.start]
      history := s.history ++ [.invoke s.calls.length op] }
  | .advance k =>
    match s.calls[k]? with
    | some (.running op stage) => (Ob.step s.object op stage).map fun y =>
        { s with object := y.1, calls := s.calls.set k (after op y.2) }
    | _ => none
  | .respond k =>
    match s.calls[k]? with
    | some (.finished op ret) => some { s with
        calls := s.calls.set k (.returned op ret)
        history := s.history ++ [.respond k ret] }
    | _ => none

/-- Any number of clients of the object. -/
def clients (Ob : SharedObject S O L R) : Machine (Clients S O L R) (ClientEvent O) where
  init := fun s => s = { object := Ob.init }
  step := Ob.clientStep

/-- A step of a call is taken only when it meets `fits`. -/
def Fitting (fits : S → O → L → Prop) (s : Clients S O L R) : ClientEvent O → Prop
  | .advance k =>
    match s.calls[k]? with
    | some (.running op stage) => fits s.object op stage
    | _ => True
  | _ => True

instance (fits : S → O → L → Prop) [∀ s op stage, Decidable (fits s op stage)] (s : Clients S O L R)
    (e : ClientEvent O) : Decidable (Fitting fits s e) :=
  match e with
  | .invoke _ => .isTrue trivial
  | .respond _ => .isTrue trivial
  | .advance k =>
    match h : s.calls[k]? with
    | some (.running op stage) =>
      decidable_of_iff (fits s.object op stage) (by simp only [Fitting, h])
    | some (.finished _ _) => .isTrue (by simp only [Fitting, h])
    | some (.returned _ _) => .isTrue (by simp only [Fitting, h])
    | none => .isTrue (by simp only [Fitting, h])

end SharedObject

end OwnX
