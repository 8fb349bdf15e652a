import OwnX.Foundations.Refinement

/-!
# Proofs: a simulation over sequences of operations
-/

namespace OwnX.DataType

variable {S X O R : Type} {D : DataType S O R} {E : DataType X O R} {rel : S → X → Prop}

/-- A data type whose operations never go wrong runs every sequence of them. -/
theorem run_isSome (h : ∀ s o, (D.exec s o).isSome) (s : S) (os : List O) : (D.run s os).isSome := by
  induction os generalizing s with
  | nil => rfl
  | cons o os ih =>
    obtain ⟨y, hy⟩ := Option.isSome_iff_exists.1 (h s o)
    rw [run, hy, Option.bind_some, Option.isSome_map]
    exact ih y.1

/-- One more operation at the end of a run. -/
theorem run_concat {os : List O} {s s' s'' : S} {rs : List R} {o : O} {r : R}
    (hrun : D.run s os = some (s', rs)) (hexec : D.exec s' o = some (s'', r)) :
    D.run s (os ++ [o]) = some (s'', rs ++ [r]) := by
  induction os generalizing s rs with
  | nil =>
    simp only [run, Option.some.injEq, Prod.mk.injEq] at hrun
    obtain ⟨rfl, rfl⟩ := hrun
    simp [run, hexec]
  | cons o' os ih =>
    obtain ⟨⟨s₁, r₁⟩, h₁, hmap⟩ := Option.bind_eq_some_iff.1 hrun
    obtain ⟨⟨s₂, rs₂⟩, hrest, heq⟩ := Option.map_eq_some_iff.1 hmap
    obtain ⟨rfl, rfl⟩ := Prod.mk.inj heq
    simp [run, h₁, ih hrest]

theorem Simulates.run_from (h : D.Simulates E rel) {os : List O} {s : S} {x x' : X} {rs : List R}
    (hrel : rel s x) (hrun : E.run x os = some (x', rs)) :
    ∃ s', D.run s os = some (s', rs) ∧ rel s' x' := by
  induction os generalizing s x rs with
  | nil =>
    simp only [run, Option.some.injEq, Prod.mk.injEq] at hrun
    obtain ⟨rfl, rfl⟩ := hrun
    exact ⟨s, rfl, hrel⟩
  | cons o os ih =>
    obtain ⟨⟨x₁, r⟩, hexec, hmap⟩ := Option.bind_eq_some_iff.1 hrun
    obtain ⟨⟨x₂, rs₂⟩, hrest, heq⟩ := Option.map_eq_some_iff.1 hmap
    obtain ⟨rfl, rfl⟩ := Prod.mk.inj heq
    obtain ⟨s₁, hexec', hrel₁⟩ := h.exec s x o x₁ r hrel hexec
    obtain ⟨s₂, hrest', hrel₂⟩ := ih hrel₁ hrest
    exact ⟨s₂, by simp [run, hexec', hrest'], hrel₂⟩

/-- What a simulation says of all sequences of operations. -/
theorem Simulates.run (h : D.Simulates E rel) {os : List O} {x' : X} {rs : List R}
    (hrun : E.run E.init os = some (x', rs)) :
    ∃ s', D.run D.init os = some (s', rs) ∧ rel s' x' := h.run_from h.init hrun

end OwnX.DataType
