import OwnX.Foundations.Machine
import Mathlib.Logic.Function.Basic

/-!
# Duplicate suppression (`concurrency/singlefilgt.go`)

A `Group` runs at most one function for a key at a time. A `Do` or `DoChan` for a key that is in the
group's map joins the call there; otherwise it registers a call and runs its function. The sections
under `g.mu` are single steps, and so are the end of a function, the return of a `Do` and the receive
from a channel.

Calls, callers of `Do` and channels of `DoChan` are numbered in the order in which they come.
-/

namespace OwnX.Concurrency

/-- An `error` that is not nil. -/
inductive Err (V E : Type) where
  | ordinary (e : E)
  /-- A `*panicError`. Its stack is left out. -/
  | panicError (value : V)
  | errGoexit
  deriving DecidableEq, Repr

/-- How the function of a call ends. A nil value or error is `none`. -/
inductive FnResult (V E : Type) where
  | returns (val : Option V) (err : Option (Err V E))
  /-- It panics. `recover` returns nil after `panic(nil)`. -/
  | panics (value : Option V)
  /-- It calls `runtime.Goexit`. -/
  | goexit
  deriving DecidableEq, Repr

namespace FnResult

variable {V E : Type}

/-- What `doCall` leaves in `c.val`. -/
def val : FnResult V E → Option V
  | returns val _ => val
  | panics _ | goexit => none

/-- What `doCall` leaves in `c.err`. -/
def err : FnResult V E → Option (Err V E)
  | returns _ err => err
  | panics value => value.map .panicError
  | goexit => some .errGoexit

/-- The function returns. -/
def isReturn : FnResult V E → Bool
  | returns _ _ => true
  | panics _ | goexit => false

/-- The function returns with an error that is neither a `*panicError` nor `errGoexit`. -/
def isPlain : FnResult V E → Bool
  | returns _ none | returns _ (some (.ordinary _)) => true
  | _ => false

/-- The function calls `runtime.Goexit`. -/
def exits : FnResult V E → Bool
  | goexit => true
  | returns _ _ | panics _ => false

end FnResult

/-- A `call`. -/
structure Call (V E : Type) where
  key : String
  dups : Nat := 0
  chans : List Nat := []
  /-- How the function ended, if it has. -/
  fn : Option (FnResult V E) := none
  /-- `c.wg.Done()` was called. -/
  done : Bool := false
  deriving DecidableEq, Repr

namespace Call

variable {V E : Type}

def val (c : Call V E) : Option V := c.fn.bind FnResult.val

def err (c : Call V E) : Option (Err V E) := c.fn.bind FnResult.err

end Call

/-- A `Result`. -/
structure Result (V E : Type) where
  val : Option V
  err : Option (Err V E)
  shared : Bool
  deriving DecidableEq, Repr

/-- How a `Do` ends. -/
inductive Outcome (V E : Type) where
  | returned (r : Result V E)
  | panicked (value : V)
  /-- The goroutine exits. -/
  | exited
  deriving DecidableEq, Repr

/-- A caller of `Do`. -/
structure Caller (V E : Type) where
  call : Nat
  /-- The caller has joined the call. Otherwise it runs the function. -/
  joined : Bool
  outcome : Option (Outcome V E) := none
  deriving DecidableEq, Repr

/-- A channel that `DoChan` has made. It has room for one result. -/
structure Channel (V E : Type) where
  call : Nat
  buffer : Option (Result V E) := none
  received : List (Result V E) := []
  deriving DecidableEq, Repr

/-- Everything that was sent on the channel. -/
def Channel.sent {V E : Type} (x : Channel V E) : List (Result V E) := x.received ++ x.buffer.toList

/-- The sections under the mutex that add or remove an entry of the map. -/
inductive Logged where
  | registered (c : Nat)
  | forgot (key : String)
  | completed (c : Nat)
  deriving DecidableEq, Repr

/-- A `Group` with its calls and those who wait for them. -/
structure Group (V E : Type) where
  m : String → Option Nat := fun _ => none
  calls : List (Call V E) := []
  callers : List (Caller V E) := []
  channels : List (Channel V E) := []
  /-- The program has died from a panic that nobody recovers. -/
  crashed : Bool := false
  /-- No step reads it. -/
  log : List Logged := []

/-- What goes on in a group. -/
inductive GroupEvent (V E : Type) where
  /-- The section of a `Do`. -/
  | callDo (key : String)
  /-- The section of a `DoChan`. -/
  | callDoChan (key : String)
  /-- The function of call `c` ends. -/
  | fnEnds (c : Nat) (r : FnResult V E)
  /-- The section of `doCall` for the call `c`. -/
  | complete (c : Nat)
  /-- The `Do` of caller `i` ends. -/
  | doEnds (i : Nat)
  /-- A result is received from channel `ch`. -/
  | receive (ch : Nat)
  /-- `Forget`. -/
  | forget (key : String)

/-- Send a result on some channels. A channel that is full blocks the sender. -/
def sendAll {V E : Type} (r : Result V E) : List Nat → List (Channel V E) → Option (List (Channel V E))
  | [], channels => some channels
  | ch :: rest, channels =>
    match channels[ch]? with
    | some { buffer := none, .. } => sendAll r rest (channels.modify ch ({ · with buffer := some r }))
    | _ => none

namespace Group

variable {V E : Type}

/-- Register a call for a key that has no entry. -/
def register (g : Group V E) (c : Call V E) : Group V E :=
  { g with
    m := Function.update g.m c.key (some g.calls.length)
    calls := g.calls ++ [c]
    log := g.log ++ [.registered g.calls.length] }

/-- The section of `Do`. -/
def callDo (g : Group V E) (key : String) : Group V E :=
  match g.m key with
  | some c =>
    { g with
      calls := g.calls.modify c fun x => { x with dups := x.dups + 1 }
      callers := g.callers ++ [{ call := c, joined := true }] }
  | none =>
    { g.register { key } with
      callers := g.callers ++ [{ call := g.calls.length, joined := false }] }

/-- The section of `DoChan`. -/
def callDoChan (g : Group V E) (key : String) : Group V E :=
  match g.m key with
  | some c =>
    { g with
      calls := g.calls.modify c fun x =>
        { x with dups := x.dups + 1, chans := x.chans ++ [g.channels.length] }
      channels := g.channels ++ [{ call := c }] }
  | none =>
    { g.register { key, chans := [g.channels.length] } with
      channels := g.channels ++ [{ call := g.calls.length }] }

/-- `c.wg.Done()`, and the removal of the entry if it is still the one of the call. -/
def wgDone (g : Group V E) (c : Nat) (key : String) : Group V E :=
  { g with
    m := if g.m key = some c then Function.update g.m key none else g.m
    calls := g.calls.modify c ({ · with done := true })
    log := g.log ++ [.completed c] }

/-- The section of `doCall`. -/
def complete (g : Group V E) (c : Nat) (x : Call V E) : Option (Group V E) :=
  let g' := g.wgDone c x.key
  match x.err with
  | some (.panicError _) =>
    -- With channels the panic is raised in a goroutine of its own.
    some { g' with crashed := !x.chans.isEmpty }
  | some .errGoexit => some g'
  | some (.ordinary _) | none =>
    (sendAll ⟨x.val, x.err, 0 < x.dups⟩ x.chans g.channels).map fun channels => { g' with channels }

/-- How the `Do` of a caller ends when its call is done. -/
def outcome (x : Call V E) (joined : Bool) : Outcome V E :=
  match x.err with
  | some (.panicError value) => .panicked value
  | some .errGoexit =>
    -- The originator does not look at the error: it exits only if its function did.
    if joined || x.fn.any FnResult.exits then .exited
    else .returned ⟨x.val, x.err, 0 < x.dups⟩
  | some (.ordinary _) | none => .returned ⟨x.val, x.err, joined || 0 < x.dups⟩

/-- `Forget`. -/
def forget (g : Group V E) (key : String) : Group V E :=
  { g with m := Function.update g.m key none, log := g.log ++ [.forgot key] }

def step (g : Group V E) (e : GroupEvent V E) : Option (Group V E) :=
  if g.crashed then none
  else match e with
  | .callDo key => some (g.callDo key)
  | .callDoChan key => some (g.callDoChan key)
  | .fnEnds c r =>
    match g.calls[c]? with
    | some { fn := none, .. } => some { g with calls := g.calls.modify c ({ · with fn := some r }) }
    | _ => none
  | .complete c =>
    match g.calls[c]? with
    | some x => if x.fn.isSome ∧ x.done = false then g.complete c x else none
    | none => none
  | .doEnds i =>
    match g.callers[i]? with
    | some { call, joined, outcome := none } =>
      match g.calls[call]? with
      | some x =>
        if x.done then
          some { g with callers := g.callers.modify i ({ · with outcome := some (outcome x joined) }) }
        else none
      | none => none
    | _ => none
  | .receive ch =>
    match g.channels[ch]? with
    | some { buffer := some r, .. } =>
      some { g with
        channels := g.channels.modify ch fun x =>
          { x with buffer := none, received := x.received ++ [r] } }
    | _ => none
  | .forget key => some (g.forget key)

/-- A group that is used by any number of callers. -/
def flights (V E : Type) : Machine (Group V E) (GroupEvent V E) where
  init := fun g => g = {}
  step := step

/-- Every function that ends does so as `ok` says. -/
def Ends (ok : FnResult V E → Bool) (_ : Group V E) : GroupEvent V E → Prop
  | .fnEnds _ r => ok r = true
  | _ => True

instance (ok : FnResult V E → Bool) (g : Group V E) (e : GroupEvent V E) : Decidable (Ends ok g e) :=
  match e with
  | .fnEnds _ r => inferInstanceAs (Decidable (ok r = true))
  | .callDo _ | .callDoChan _ | .complete _ | .doEnds _ | .receive _ | .forget _ => isTrue trivial

/-- How many have called `Do` or `DoChan` and got the call `c`. -/
def callersOf (g : Group V E) (c : Nat) : Nat :=
  (g.callers.map Caller.call).count c + (g.channels.map Channel.call).count c

/-- What the callers of the call `c` are to get if its function returns `val` and `err`. -/
def resultOf (g : Group V E) (c : Nat) (val : Option V) (err : Option (Err V E)) : Result V E :=
  ⟨val, err, 1 < g.callersOf c⟩

/-- A `Group` does what it is for. -/
structure SingleFlight (g : Group V E) : Prop where
  /-- Of two calls for a key, the first was completed, or forgotten, before the second. -/
  apart : ∀ c₁ c₂ x₁ x₂, c₁ < c₂ → g.calls[c₁]? = some x₁ → g.calls[c₂]? = some x₂ →
    x₁.key = x₂.key →
      List.Sublist [.registered c₁, .completed c₁, .registered c₂] g.log ∨
      List.Sublist [.registered c₁, .forgot x₁.key, .registered c₂] g.log
  /-- A `Do` that has ended returned what the function of its call did. -/
  callers : ∀ y ∈ g.callers, ∀ o, y.outcome = some o → ∃ x val err, g.calls[y.call]? = some x ∧
    x.fn = some (.returns val err) ∧ o = .returned (g.resultOf y.call val err)
  /-- A channel gets what the function of its call returned, once, when the call is completed. -/
  channels : ∀ y ∈ g.channels, ∃ x, g.calls[y.call]? = some x ∧
    (x.done = false → y.sent = []) ∧
    (x.done = true → ∃ val err, x.fn = some (.returns val err) ∧ y.sent = [g.resultOf y.call val err])
  /-- A call whose function has ended can be completed. -/
  completes : ∀ (c : Nat) x, g.calls[c]? = some x → x.fn.isSome → x.done = false →
    (g.step (.complete c)).isSome
  /-- A `Do` whose call is completed can end. -/
  ends : ∀ (i : Nat) y x, g.callers[i]? = some y → y.outcome = none → g.calls[y.call]? = some x →
    x.done = true → (g.step (.doEnds i)).isSome
  /-- The completion of a call removes no other call. -/
  keeps : ∀ c g', g.step (.complete c) = some g' → ∀ key c', g.m key = some c' → c' ≠ c →
    g'.m key = some c'

end Group

end OwnX.Concurrency
