import Mathlib.Algebra.Group.Int.Defs
import Mathlib.Algebra.Group.Nat.Defs
import Mathlib.Data.Int.Order.Basic

/-!
# Two's complement integers

The values of a signed machine integer of `w` bits are the integers from `-2 ^ (w - 1)` to
`2 ^ (w - 1) - 1`. An operation on them has an exact result, which need not be one of these values.

A program over such integers takes the *arithmetic* as a parameter: what becomes of an exact result. With
`wrapping` it computes what the machine does; with `checked` it ends at the first overflow. A result of
the second is one of the first on which nothing has overflowed.
-/

namespace OwnX

/-- `x` is a value of `w` bits. -/
def Fits (w : Nat) (x : Int) : Prop := -2 ^ (w - 1) ≤ x ∧ x < 2 ^ (w - 1)

instance (w : Nat) (x : Int) : Decidable (Fits w x) := inferInstanceAs (Decidable (_ ∧ _))

/-- The value of `w` bits that is congruent to `x` modulo `2 ^ w`. -/
def wrap (w : Nat) (x : Int) : Int := x.bmod (2 ^ w)

/-- What becomes of the exact result of an operation on `w` bits. -/
abbrev Arithmetic := Nat → Int → Option Int

/-- The arithmetic of the machine. -/
def wrapping : Arithmetic := fun w x => some (wrap w x)

/-- The arithmetic that has no result if there is an overflow. -/
def checked : Arithmetic := fun w x => if Fits w x then some x else none

end OwnX
