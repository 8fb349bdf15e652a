import Mathlib.Data.List.Count

/-!
# Majorities of a vote

Each voter of a list casts at most one vote. The support of a candidate is the number of voters that
cast theirs for it.
-/

namespace OwnX

variable {V B : Type} [DecidableEq B]

/-- How many of the voters cast their vote for `b`. -/
def support (voters : List V) (vote : V → Option B) (b : B) : Nat :=
  voters.countP fun v => vote v = some b

end OwnX
