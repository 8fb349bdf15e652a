import Mathlib.Data.List.Basic

/-!
# Association lists and Go maps

Keys are compared with a Boolean equality that need not be reflexive: a key that is not equal to itself,
such as a NaN, is never found again, and every assignment to it makes another entry.

A Go map is the list of its entries, in an order that no operation depends on.
-/

namespace OwnX

variable {K V : Type} [BEq K]

/-- The value of a key. -/
def assocGet (l : List (K × V)) (k : K) : Option V := (l.find? fun e => e.1 == k).map Prod.snd

/-- The list with another value for a key. -/
def assocReplace (l : List (K × V)) (k : K) (v : V) : List (K × V) :=
  l.map fun e => if e.1 == k then (e.1, v) else e

theorem map_fst_assocReplace (l : List (K × V)) (k : K) (v : V) :
    (assocReplace l k v).map Prod.fst = l.map Prod.fst := by
  rw [assocReplace, List.map_map]
  refine List.map_congr_left fun e _ => ?_
  rw [Function.comp_apply]
  split <;> rfl

theorem assocGet_isSome_iff {l : List (K × V)} {k : K} :
    (assocGet l k).isSome ↔ ∃ e ∈ l, e.1 == k := by
  rw [assocGet, Option.isSome_map, List.find?_isSome]

theorem assocGet_eq_none_iff {l : List (K × V)} {k : K} :
    assocGet l k = none ↔ ∀ e ∈ l, (e.1 == k) = false := by
  rw [← Option.not_isSome_iff_eq_none, assocGet_isSome_iff]
  simp

theorem nil_distinct (K : Type) [BEq K] : ([] : List K).Pairwise fun a b => (b == a) = false :=
  List.Pairwise.nil

/-- A Go map; no two of its keys are equal. -/
structure GoMap (K V : Type) [BEq K] where
  entries : List (K × V) := []
  distinct : (entries.map Prod.fst).Pairwise fun a b => (b == a) = false := by
    exact nil_distinct _

namespace GoMap

/-- `make(map[K]V)`. -/
def empty : GoMap K V := {}

/-- `v, ok := m[k]`. -/
def get? (m : GoMap K V) (k : K) : Option V := assocGet m.entries k

/-- `m[k] = v`. -/
def set (m : GoMap K V) (k : K) (v : V) : GoMap K V :=
  if h : (m.get? k).isSome then
    { entries := assocReplace m.entries k v
      distinct := by
        rw [map_fst_assocReplace]
        exact m.distinct }
  else
    { entries := (k, v) :: m.entries
      distinct := by
        have hnew := assocGet_eq_none_iff.1 (Option.not_isSome_iff_eq_none.1 h)
        exact List.pairwise_cons.2 ⟨by simpa using hnew, m.distinct⟩ }

/-- `delete(m, k)`. -/
def delete (m : GoMap K V) (k : K) : GoMap K V where
  entries := m.entries.filter fun e => !(e.1 == k)
  distinct := m.distinct.sublist (List.filter_sublist.map Prod.fst)

/-- `len(m)`. -/
def size (m : GoMap K V) : Nat := m.entries.length

/-- `m[k] = v` for each of the entries, one after the other. -/
def setAll (m : GoMap K V) (l : List (K × V)) : GoMap K V := l.foldl (fun m e => m.set e.1 e.2) m

end GoMap

end OwnX
