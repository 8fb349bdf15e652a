import OwnX.Foundations.Machine

/-!
# What a machine can still do

A safety property says what no run does. Here is what some run does: from the state it is in, the machine
can get to a state of a given kind, by steps that meet a condition.
-/

namespace OwnX.Machine

variable {σ ε : Type}

/-- From `s`, a run each of whose steps meets `ok` gets to a state with `P`. -/
def CanReach (M : Machine σ ε) (ok : σ → ε → Prop) (s : σ) (P : σ → Prop) : Prop :=
  ∃ s', (M.startIn s).ReachableWhen ok s' ∧ P s'

end OwnX.Machine
