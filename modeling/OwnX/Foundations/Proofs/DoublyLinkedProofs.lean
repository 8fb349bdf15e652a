import OwnX.Foundations.DoublyLinked
import OwnX.Foundations.Proofs.LinkedProofs
import Mathlib.Data.List.Induction

/-!
# Proofs: updating doubly linked cells

Cutting a segment, changing the link at one of its ends, and what it spells forwards and backwards.
-/

namespace OwnX

variable {A C B : Type} {prev next : C → Option A} {val : C → B} {read read' : A → Option C}
  {p q : Option A} {l l₁ l₂ : List (A × B)}

@[simp] theorem headAddr_nil (q : Option A) : headAddr ([] : List (A × B)) q = q := rfl

@[simp] theorem headAddr_cons (x : A × B) (l : List (A × B)) (q : Option A) :
    headAddr (x :: l) q = some x.1 := rfl

theorem headAddr_append (l₁ l₂ : List (A × B)) (q : Option A) :
    headAddr (l₁ ++ l₂) q = headAddr l₁ (headAddr l₂ q) := by
  cases l₁ <;> rfl

@[simp] theorem lastAddr_nil (p : Option A) : lastAddr p ([] : List (A × B)) = p := rfl

theorem lastAddr_append (p : Option A) (l₁ l₂ : List (A × B)) :
    lastAddr p (l₁ ++ l₂) = lastAddr (lastAddr p l₁) l₂ := by
  induction l₁ generalizing p with
  | nil => rfl
  | cons x l₁ ih => exact ih (some x.1)

@[simp] theorem lastAddr_concat (p : Option A) (l : List (A × B)) (x : A × B) :
    lastAddr p (l ++ [x]) = some x.1 := by
  rw [lastAddr_append]
  rfl

/-- A segment can be cut anywhere. -/
theorem seg_append :
    Seg prev next val read p (l₁ ++ l₂) q ↔
      Seg prev next val read p l₁ (headAddr l₂ q) ∧ Seg prev next val read (lastAddr p l₁) l₂ q := by
  induction l₁ generalizing p with
  | nil => simp [Seg]
  | cons x l₁ ih =>
    rw [List.cons_append, Seg, Seg, ih, headAddr_append, lastAddr, and_assoc]

/-- The cell in the middle of a segment. -/
theorem Seg.cell {x : A × B} (h : Seg prev next val read p (l₁ ++ x :: l₂) q) :
    ∃ c, read x.1 = some c ∧ val c = x.2 ∧ prev c = lastAddr p l₁ ∧ next c = headAddr l₂ q :=
  (seg_append.1 h).2.1

/-- A segment is not affected by changes elsewhere. -/
theorem Seg.frame (h : Seg prev next val read p l q) (hsame : ∀ a ∈ addrs l, read' a = read a) :
    Seg prev next val read' p l q := by
  induction l generalizing p with
  | nil => trivial
  | cons x l ih =>
    obtain ⟨⟨c, hc, hcell⟩, hl⟩ := h
    refine ⟨⟨c, ?_, hcell⟩, ih hl fun a ha => hsame a (List.mem_cons_of_mem _ ha)⟩
    rw [hsame x.1 List.mem_cons_self, hc]

/-- The last cell of a segment links on to another address. -/
theorem Seg.relink_next {x : A × B} {c c' : C} {q' : Option A}
    (h : Seg prev next val read p (l ++ [x]) q) (hnd : (addrs (l ++ [x])).Nodup)
    (hc : read x.1 = some c) (hc' : read' x.1 = some c') (hval : val c' = val c)
    (hprev : prev c' = prev c) (hnext : next c' = q')
    (hsame : ∀ a ∈ addrs l, a ≠ x.1 → read' a = read a) :
    Seg prev next val read' p (l ++ [x]) q' := by
  obtain ⟨hl, ⟨c₁, hc₁, hv, hp, -⟩, -⟩ := seg_append.1 h
  obtain rfl : c = c₁ := Option.some.inj (hc.symm.trans hc₁)
  refine seg_append.2 ⟨hl.frame fun a ha => hsame a ha ?_,
    ⟨c', hc', hval.trans hv, hprev.trans hp, hnext⟩, trivial⟩
  rintro rfl
  simp only [addrs_append, addrs_cons, addrs_nil] at hnd
  exact (List.nodup_append.1 hnd).2.2 x.1 ha x.1 List.mem_cons_self rfl

/-- The first cell of a segment links back to another address. -/
theorem Seg.relink_prev {x : A × B} {c c' : C} {p' : Option A}
    (h : Seg prev next val read p (x :: l) q) (hnd : (addrs (x :: l)).Nodup)
    (hc : read x.1 = some c) (hc' : read' x.1 = some c') (hval : val c' = val c)
    (hnext : next c' = next c) (hprev : prev c' = p')
    (hsame : ∀ a ∈ addrs l, a ≠ x.1 → read' a = read a) :
    Seg prev next val read' p' (x :: l) q := by
  obtain ⟨⟨c₁, hc₁, hv, -, hn⟩, hl⟩ := h
  obtain rfl : c = c₁ := Option.some.inj (hc.symm.trans hc₁)
  refine ⟨⟨c', hc', hval.trans hv, hprev, hnext.trans hn⟩, hl.frame fun a ha => hsame a ha ?_⟩
  rintro rfl
  exact (List.nodup_cons.1 hnd).1 ha

/-- Following `next`, a segment that ends is spelled forwards. -/
theorem Seg.spells (h : Seg prev next val read p l none) :
    Spells next val read (headAddr l none) l := by
  induction l generalizing p with
  | nil => rfl
  | cons x l ih =>
    obtain ⟨⟨c, hc, hv, -, hn⟩, hl⟩ := h
    exact ⟨rfl, c, hc, hv, hn ▸ ih hl⟩

/-- Following `prev`, a segment that starts is spelled backwards. -/
theorem Seg.spells_reverse (h : Seg prev next val read none l q) :
    Spells prev val read (lastAddr none l) l.reverse := by
  induction l using List.reverseRecOn generalizing q with
  | nil => rfl
  | append_singleton l x ih =>
    obtain ⟨hl, ⟨c, hc, hv, hp, -⟩, -⟩ := seg_append.1 h
    rw [List.reverse_append, lastAddr_concat]
    exact ⟨rfl, c, hc, hv, hp ▸ ih hl⟩

end OwnX
