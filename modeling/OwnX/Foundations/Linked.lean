import Mathlib.Data.List.Basic

/-!
# Linked cells

A store maps addresses to cells, and a cell names the address of the next one. `Spells read p l`
says that following the links from `p` visits exactly the addresses of `l`, in order, and then ends;
`l` pairs each address with the value of its cell.
-/

namespace OwnX

variable {A C B : Type}

/-- The cells reached from `p` are those of `l`; `next` and `val` read a cell. -/
def Spells (next : C → Option A) (val : C → B) (read : A → Option C) :
    Option A → List (A × B) → Prop
  | p, [] => p = none
  | p, x :: l => p = some x.1 ∧ ∃ c, read x.1 = some c ∧ val c = x.2 ∧ Spells next val read (next c) l

/-- The addresses of a linked list. -/
def addrs (l : List (A × B)) : List A := l.map Prod.fst

end OwnX
