import Mathlib.Logic.Relation
import Mathlib.Data.List.Basic

/-!
# Machines driven by events

A machine is a set of initial states and a step function that reads the event chosen by the
environment: the interleaving, the clock, a lost message. An event that is not enabled in a state
has no step there.

The runs are those of *all* event sequences, so a fact about every reachable state is a fact about
every interleaving. Some facts hold only of the runs whose steps meet a condition on the state
before the step; `ReachableWhen` carries that condition along the run.
-/

namespace OwnX

/-- A machine with states `σ` that reads events `ε`. -/
structure Machine (σ ε : Type) where
  /-- The states a run may start in. -/
  init : σ → Prop
  /-- The step on an event; `none` when the event is not enabled. -/
  step : σ → ε → Option σ

namespace Machine

variable {σ ε η : Type}

/-- The state after a sequence of events, if each of them is enabled in its turn. -/
def run (M : Machine σ ε) : σ → List ε → Option σ
  | s, [] => some s
  | s, e :: es => (M.step s e).bind fun s' => M.run s' es

/-- The states reached by runs each of whose steps meets the condition `ok`. -/
inductive ReachableWhen (M : Machine σ ε) (ok : σ → ε → Prop) : σ → Prop where
  /-- A run without steps. -/
  | init {s : σ} (h : M.init s) : ReachableWhen M ok s
  /-- One more step, taken in a state that meets the condition. -/
  | step {s s' : σ} {e : ε} (h : ReachableWhen M ok s) (hok : ok s e)
      (hs : M.step s e = some s') : ReachableWhen M ok s'

/-- The states reached by any run. -/
abbrev Reachable (M : Machine σ ε) : σ → Prop := M.ReachableWhen fun _ _ => True

/-- The machine `M` without the steps that do not meet `ok`. -/
def restrict (M : Machine σ ε) (ok : σ → ε → Prop) [∀ s e, Decidable (ok s e)] : Machine σ ε where
  init := M.init
  step := fun s e => if ok s e then M.step s e else none

/-- The machine `M` when it starts in the state `s₀`. -/
def startIn (M : Machine σ ε) (s₀ : σ) : Machine σ ε where
  init := fun s => s = s₀
  step := M.step

/-- The machine `M` that also keeps a history: `upd h s` is the history after a step into `s`. No
step reads it. -/
def withHistory (M : Machine σ ε) (h₀ : η) (upd : η → σ → η) : Machine (σ × η) ε where
  init := fun x => M.init x.1 ∧ x.2 = h₀
  step := fun x e => (M.step x.1 e).map fun s' => (s', upd x.2 s')

end Machine

end OwnX
