import OwnX.Foundations.Pattern

/-!
# Proofs: what a pattern matches

Each form of expression by the words in its language; a pattern then says how a text ends.
-/

namespace OwnX.Pattern

variable {α : Type} {l l' x s : List α} {r : RegularExpression α} {n : Nat}

theorem matchesEnd_iff [DecidableEq α] :
    matchesEnd r s = true ↔ ∃ pre, ∃ x ∈ r.matches', s = pre ++ x := by
  simp only [matchesEnd, List.any_eq_true, List.mem_tails, RegularExpression.rmatch_iff_matches']
  constructor
  · rintro ⟨x, ⟨pre, rfl⟩, hx⟩
    exact ⟨pre, x, hx, rfl⟩
  · rintro ⟨pre, x, hx, rfl⟩
    exact ⟨x, ⟨pre, rfl⟩, hx⟩

theorem mem_literal : x ∈ (literal l).matches' ↔ x = l := by
  induction l generalizing x with
  | nil => simp [literal]
  | cons a l ih =>
    have hcons : literal (a :: l) = .char a * literal l := rfl
    rw [hcons, RegularExpression.matches'_mul, Language.mem_mul]
    simp only [ih, RegularExpression.matches'_char]
    constructor
    · rintro ⟨y, rfl, z, rfl, rfl⟩
      rfl
    · rintro rfl
      exact ⟨[a], rfl, l, rfl, rfl⟩

theorem mem_oneOf : x ∈ (oneOf l).matches' ↔ ∃ a ∈ l, x = [a] := by
  induction l with
  | nil => simp [oneOf]
  | cons a l ih =>
    have hcons : oneOf (a :: l) = .char a + oneOf l := rfl
    rw [hcons, RegularExpression.matches'_add, Language.mem_add, ih, RegularExpression.matches'_char]
    simp only [List.mem_cons, exists_eq_or_imp]
    rfl

/-- `[abc]{n}`. -/
theorem mem_oneOf_pow : x ∈ (oneOf l ^ n).matches' ↔ x.length = n ∧ ∀ a ∈ x, a ∈ l := by
  rw [RegularExpression.matches'_pow]
  induction n generalizing x with
  | zero =>
    rw [pow_zero, Language.mem_one, List.length_eq_zero_iff]
    refine ⟨?_, fun h => h.1⟩
    rintro rfl
    exact ⟨rfl, by simp⟩
  | succ n ih =>
    rw [pow_succ', Language.mem_mul]
    simp only [ih, mem_oneOf]
    constructor
    · rintro ⟨y, ⟨a, ha, rfl⟩, z, ⟨hlength, hz⟩, rfl⟩
      simpa [hlength] using ⟨ha, hz⟩
    · rintro ⟨hlength, hx⟩
      cases x with
      | nil => simp at hlength
      | cons a x =>
        rw [List.forall_mem_cons] at hx
        exact ⟨[a], ⟨a, hx.1, rfl⟩, x, ⟨by simpa using hlength, hx.2⟩, rfl⟩

theorem mem_oneOf_star : x ∈ (oneOf l).star.matches' ↔ ∀ a ∈ x, a ∈ l := by
  rw [RegularExpression.matches'_star, Language.mem_kstar]
  simp only [mem_oneOf]
  constructor
  · rintro ⟨L, rfl, hL⟩ a ha
    obtain ⟨y, hy, hay⟩ := List.mem_flatten.1 ha
    obtain ⟨b, hb, rfl⟩ := hL y hy
    rwa [List.mem_singleton.1 hay]
  · intro hx
    refine ⟨x.map fun a => [a], ?_, ?_⟩
    · simp [← List.flatMap_def]
    · intro y hy
      obtain ⟨a, ha, rfl⟩ := List.mem_map.1 hy
      exact ⟨a, hx a ha, rfl⟩

/-- `[abc]+`. -/
theorem mem_many_oneOf : x ∈ (many (oneOf l)).matches' ↔ x ≠ [] ∧ ∀ a ∈ x, a ∈ l := by
  rw [many, RegularExpression.matches'_mul, Language.mem_mul]
  simp only [mem_oneOf, mem_oneOf_star]
  constructor
  · rintro ⟨y, ⟨a, ha, rfl⟩, z, hz, rfl⟩
    simpa using ⟨ha, hz⟩
  · rintro ⟨hne, hx⟩
    obtain ⟨a, x, rfl⟩ := List.exists_cons_of_ne_nil hne
    rw [List.forall_mem_cons] at hx
    exact ⟨[a], ⟨a, hx.1, rfl⟩, x, hx.2, rfl⟩

/-- An expression between two literals. -/
theorem matchesEnd_between [DecidableEq α] :
    matchesEnd (literal l * r * literal l') s = true ↔
      ∃ pre x, x ∈ r.matches' ∧ s = pre ++ (l ++ x ++ l') := by
  simp only [matchesEnd_iff, RegularExpression.matches'_mul, Language.mem_mul, mem_literal]
  constructor
  · rintro ⟨pre, _, ⟨_, ⟨_, rfl, x, hx, rfl⟩, _, rfl, rfl⟩, rfl⟩
    exact ⟨pre, x, hx, rfl⟩
  · rintro ⟨pre, x, hx, rfl⟩
    exact ⟨pre, _, ⟨_, ⟨_, rfl, x, hx, rfl⟩, _, rfl, rfl⟩, rfl⟩

/-- A text that is matched ends with the literal at the end. -/
theorem suffix_of_matchesEnd [DecidableEq α] (h : matchesEnd (r * literal l) s = true) : l <:+ s := by
  obtain ⟨pre, x, hx, rfl⟩ := matchesEnd_iff.1 h
  rw [RegularExpression.matches'_mul, Language.mem_mul] at hx
  obtain ⟨y, -, z, hz, rfl⟩ := hx
  rw [mem_literal.1 hz]
  exact (List.suffix_append y l).trans (List.suffix_append pre _)

end OwnX.Pattern
