import OwnX.Foundations.Linked

/-!
# Doubly linked cells

`Seg read p l q` says that the cells at the addresses of `l` are linked to each other in both
directions, that the first of them links back to `p` and that the last of them links on to `q`. A
segment may be cut anywhere (`seg_append`), so an update is described by the segments on its two sides.
-/

namespace OwnX

variable {A C B : Type}

/-- The address where a segment starts, or what it links on to when it is empty. -/
def headAddr : List (A × B) → Option A → Option A
  | [], q => q
  | x :: _, _ => some x.1

/-- The address where a segment ends, or what it links back to when it is empty. -/
def lastAddr : Option A → List (A × B) → Option A
  | p, [] => p
  | _, x :: l => lastAddr (some x.1) l

/-- The cells of `l` are linked in both directions, between `p` and `q`. -/
def Seg (prev next : C → Option A) (val : C → B) (read : A → Option C) :
    Option A → List (A × B) → Option A → Prop
  | _, [], _ => True
  | p, x :: l, q =>
    (∃ c, read x.1 = some c ∧ val c = x.2 ∧ prev c = p ∧ next c = headAddr l q) ∧
      Seg prev next val read (some x.1) l q

end OwnX
