import Mathlib.Computability.RegularExpressions

/-!
# Patterns at the end of a text

The patterns of the package `regexp` that end in `$`: a regular expression matches some end of the text.
-/

namespace OwnX.Pattern

variable {α : Type}

/-- The letters, one after the other. -/
def literal (l : List α) : RegularExpression α := (l.map .char).foldr (· * ·) 1

/-- One of the letters: `[abc]`. -/
def oneOf (l : List α) : RegularExpression α := (l.map .char).foldr (· + ·) 0

/-- One or more of the expression: `r+`. -/
def many (r : RegularExpression α) : RegularExpression α := r * r.star

/-- `regexp.MustCompile("r$").Match(s)`. -/
def matchesEnd [DecidableEq α] (r : RegularExpression α) (s : List α) : Bool := s.tails.any r.rmatch

end OwnX.Pattern
