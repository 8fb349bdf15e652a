import Mathlib.Data.List.Basic

/-!
# Data types and their refinement

A data type has an initial value and operations that return a result; an operation that goes wrong
has none. A data type refines another if, for every sequence of operations that the other carries out,
it returns the same results, and the values it goes through are related to those of the other.
-/

namespace OwnX

/-- A data type with values `S`, operations `O` and results `R`. -/
structure DataType (S O R : Type) where
  init : S
  /-- The value after an operation and its result; `none` when the operation goes wrong. -/
  exec : S → O → Option (S × R)

namespace DataType

variable {S X O R : Type}

/-- The value after a sequence of operations, with their results. -/
def run (D : DataType S O R) : S → List O → Option (S × List R)
  | s, [] => some (s, [])
  | s, o :: os => (D.exec s o).bind fun y => (D.run y.1 os).map fun z => (z.1, y.2 :: z.2)

/-- `D` simulates `E` along the relation `rel`. -/
structure Simulates (D : DataType S O R) (E : DataType X O R) (rel : S → X → Prop) : Prop where
  init : rel D.init E.init
  exec : ∀ s x o x' r, rel s x → E.exec x o = some (x', r) →
    ∃ s', D.exec s o = some (s', r) ∧ rel s' x'

end DataType

end OwnX
