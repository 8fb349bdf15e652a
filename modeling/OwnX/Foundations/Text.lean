import Mathlib.Data.List.Basic

/-!
# Texts

A Go string is the list of its bytes. Here are the functions of the package `strings` that search in one,
over letters of any type; a position that is not there is `none`.
-/

namespace OwnX

/-- A Go string. -/
abbrev Text := List UInt8

/-- The bytes of a text of ASCII characters. -/
def ascii (s : String) : Text := s.toList.map fun c => UInt8.ofNat c.toNat

namespace Text

variable {α : Type} [DecidableEq α]

/-- The pattern stands in the text at the position `i`. -/
def occursAt (pattern s : List α) (i : Nat) : Bool := pattern.isPrefixOf (s.drop i)

/-- `strings.Index`: the first position. -/
def index (s pattern : List α) : Option Nat :=
  (List.range (s.length + 1)).find? (occursAt pattern s)

/-- The last position up to `n`. -/
def lastUpTo (s pattern : List α) : Nat → Option Nat
  | 0 => if occursAt pattern s 0 then some 0 else none
  | n + 1 => if occursAt pattern s (n + 1) then some (n + 1) else lastUpTo s pattern n

/-- `strings.LastIndex`. -/
def lastIndex (s pattern : List α) : Option Nat := lastUpTo s pattern s.length

/-- `strings.Contains`. -/
def contains (s pattern : List α) : Bool := (index s pattern).isSome

/-- `strings.HasSuffix`. -/
def hasSuffix (s suffix : List α) : Bool := suffix.isSuffixOf s

/-- `strings.TrimSuffix`. -/
def trimSuffix (s suffix : List α) : List α :=
  if hasSuffix s suffix then s.take (s.length - suffix.length) else s

/-- The number that Go uses for a position: `-1` if there is none. -/
def position (o : Option Nat) : Int := o.elim (-1) Nat.cast

/-- `s[low:high]`; `none` is the panic of a slice that is out of range. -/
def slice (s : List α) (low high : Int) : Option (List α) :=
  if 0 ≤ low ∧ low ≤ high ∧ high ≤ s.length then some ((s.take high.toNat).drop low.toNat) else none

end Text

end OwnX
