import OwnX.Foundations.Linked

/-!
# Proofs: updating linked cells

What a linked list spells after a cell outside it, a value in it, or a link in it has changed.
-/

namespace OwnX

variable {A C B : Type} {next : C → Option A} {val : C → B} {read read' : A → Option C}

@[simp] theorem addrs_nil : addrs ([] : List (A × B)) = [] := rfl

@[simp] theorem addrs_cons (x : A × B) (l : List (A × B)) : addrs (x :: l) = x.1 :: addrs l := rfl

@[simp] theorem addrs_append (l₁ l₂ : List (A × B)) : addrs (l₁ ++ l₂) = addrs l₁ ++ addrs l₂ :=
  List.map_append

/-- A list of cells is not affected by changes elsewhere. -/
theorem Spells.frame {p : Option A} {l : List (A × B)} (h : Spells next val read p l)
    (hsame : ∀ a ∈ addrs l, read' a = read a) : Spells next val read' p l := by
  induction l generalizing p with
  | nil => exact h
  | cons x l ih =>
    obtain ⟨hp, c, hc, hv, hl⟩ := h
    refine ⟨hp, c, ?_, hv, ih hl fun a ha => hsame a (List.mem_cons_of_mem _ ha)⟩
    rw [hsame x.1 List.mem_cons_self, hc]

/-- The links from a later cell on spell the rest of the list. -/
theorem Spells.suffix {p : Option A} {l₁ l₂ : List (A × B)}
    (h : Spells next val read p (l₁ ++ l₂)) : ∃ p', Spells next val read p' l₂ := by
  induction l₁ generalizing p with
  | nil => exact ⟨p, h⟩
  | cons x l₁ ih =>
    obtain ⟨-, c, -, -, hl⟩ := h
    exact ih hl

/-- The cell at an address in the list, and what its link spells. -/
theorem Spells.at_addr {p : Option A} {l₁ l₂ : List (A × B)} {a : A} {b : B} {c : C}
    (h : Spells next val read p (l₁ ++ (a, b) :: l₂)) (hc : read a = some c) :
    val c = b ∧ Spells next val read (next c) l₂ := by
  obtain ⟨p', -, c₁, hc₁, hv, hl⟩ := h.suffix
  obtain rfl : c = c₁ := Option.some.inj (hc.symm.trans hc₁)
  exact ⟨hv, hl⟩

/-- The list from a cell on is replaced by another one. -/
theorem Spells.splice {p : Option A} {l₁ l₂ l : List (A × B)} {a : A} {b : B}
    (h : Spells next val read p (l₁ ++ (a, b) :: l₂)) (hsame : ∀ x ∈ addrs l₁, read' x = read x)
    (hl : Spells next val read' (some a) l) : Spells next val read' p (l₁ ++ l) := by
  induction l₁ generalizing p with
  | nil =>
    obtain ⟨rfl, -⟩ := h
    exact hl
  | cons x l₁ ih =>
    obtain ⟨hp, c, hc, hv, hrest⟩ := h
    refine ⟨hp, c, ?_, hv, ih hrest fun y hy => hsame y (List.mem_cons_of_mem _ hy)⟩
    rw [hsame x.1 List.mem_cons_self, hc]

theorem ne_of_nodup_addrs {l₁ l₂ : List (A × B)} {a x : A} {b : B}
    (hnd : (addrs (l₁ ++ (a, b) :: l₂)).Nodup) (hx : x ∈ addrs l₁ ∨ x ∈ addrs l₂) : x ≠ a := by
  rintro rfl
  rw [addrs_append, List.nodup_append, addrs_cons, List.nodup_cons] at hnd
  rcases hx with hx | hx
  · exact hnd.2.2 x hx x List.mem_cons_self rfl
  · exact hnd.2.1.1 hx

/-- The value of a cell changes; its link does not. -/
theorem Spells.modify {p : Option A} {l₁ l₂ : List (A × B)} {a : A} {b b' : B} {c c' : C}
    (h : Spells next val read p (l₁ ++ (a, b) :: l₂)) (hnd : (addrs (l₁ ++ (a, b) :: l₂)).Nodup)
    (hc : read a = some c) (hc' : read' a = some c') (hnext : next c' = next c) (hval : val c' = b')
    (hsame : ∀ x ∈ addrs (l₁ ++ (a, b) :: l₂), x ≠ a → read' x = read x) :
    Spells next val read' p (l₁ ++ (a, b') :: l₂) := by
  refine h.splice (fun x hx => ?_) ⟨rfl, c', hc', hval, ?_⟩
  · exact hsame x (by simp [hx]) (ne_of_nodup_addrs hnd (.inl hx))
  · rw [hnext]
    refine (h.at_addr hc).2.frame fun x hx => ?_
    exact hsame x (by simp [hx]) (ne_of_nodup_addrs hnd (.inr hx))

/-- A new cell is linked in behind the cell at `a`. -/
theorem Spells.insert_after {p : Option A} {l₁ l₂ : List (A × B)} {a new : A} {b bn : B}
    {c c' cn : C} (h : Spells next val read p (l₁ ++ (a, b) :: l₂))
    (hnd : (addrs (l₁ ++ (a, b) :: l₂)).Nodup)
    (hc : read a = some c) (hc' : read' a = some c') (hnext : next c' = some new)
    (hval : val c' = val c) (hcn : read' new = some cn) (hnn : next cn = next c) (hvn : val cn = bn)
    (hsame : ∀ x ∈ addrs (l₁ ++ (a, b) :: l₂), x ≠ a → read' x = read x) :
    Spells next val read' p (l₁ ++ (a, b) :: (new, bn) :: l₂) := by
  obtain ⟨hv, hl⟩ := h.at_addr hc
  refine h.splice (fun x hx => ?_) ⟨rfl, c', hc', hval.trans hv, hnext, cn, hcn, hvn, ?_⟩
  · exact hsame x (by simp [hx]) (ne_of_nodup_addrs hnd (.inl hx))
  · rw [hnn]
    refine hl.frame fun x hx => ?_
    exact hsame x (by simp [hx]) (ne_of_nodup_addrs hnd (.inr hx))

end OwnX
