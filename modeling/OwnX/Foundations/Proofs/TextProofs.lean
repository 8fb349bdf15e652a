import OwnX.Foundations.Text

/-!
# Proofs: texts
-/

namespace OwnX.Text

variable {α : Type} [DecidableEq α] {s t pattern suffix : List α} {i j : Nat}

/-! ## The end of a text -/

theorem hasSuffix_iff : hasSuffix s suffix = true ↔ ∃ t, s = t ++ suffix := by
  rw [hasSuffix, List.isSuffixOf_iff_suffix]
  constructor
  · rintro ⟨t, rfl⟩
    exact ⟨t, rfl⟩
  · rintro ⟨t, rfl⟩
    exact ⟨t, rfl⟩

@[simp]
theorem hasSuffix_append (t suffix : List α) : hasSuffix (t ++ suffix) suffix = true :=
  hasSuffix_iff.2 ⟨t, rfl⟩

@[simp]
theorem trimSuffix_append (t suffix : List α) : trimSuffix (t ++ suffix) suffix = t := by
  rw [trimSuffix, if_pos (hasSuffix_append t suffix), List.length_append, Nat.add_sub_cancel,
    List.take_left]

/-! ## Occurrences -/

@[simp]
theorem occursAt_nil (s : List α) (i : Nat) : occursAt [] s i = true := rfl

@[simp]
theorem occursAt_cons (a : α) (pattern s : List α) (i : Nat) :
    occursAt (a :: pattern) s i = true ↔ s[i]? = some a ∧ occursAt pattern s (i + 1) = true := by
  by_cases hi : i < s.length
  · rw [occursAt, List.drop_eq_getElem_cons hi, List.getElem?_eq_getElem hi]
    simp only [List.isPrefixOf, Bool.and_eq_true, beq_iff_eq, Option.some.injEq]
    exact and_congr_left fun _ => eq_comm
  · have hdrop : s.drop i = [] := List.drop_eq_nil_of_le (by omega)
    rw [occursAt, hdrop, List.getElem?_eq_none (by omega)]
    simp [List.isPrefixOf]

/-- An occurrence is a place where the pattern stands between two texts. -/
theorem occursAt_append (t pattern s : List α) : occursAt pattern (t ++ pattern ++ s) t.length = true := by
  rw [occursAt, List.append_assoc, List.drop_left, List.isPrefixOf_iff_prefix]
  exact List.prefix_append pattern s

theorem exists_of_occursAt (h : occursAt pattern s i = true) (hi : i ≤ s.length) :
    ∃ t u, s = t ++ pattern ++ u ∧ t.length = i := by
  rw [occursAt, List.isPrefixOf_iff_prefix] at h
  obtain ⟨u, hu⟩ := h
  refine ⟨s.take i, u, ?_, List.length_take_of_le hi⟩
  rw [List.append_assoc, hu, List.take_append_drop]

theorem occursAt_of_infix (h : pattern <:+: s) : ∃ i, occursAt pattern s i = true := by
  obtain ⟨t, u, rfl⟩ := h
  exact ⟨_, occursAt_append t pattern u⟩

theorem infix_of_occursAt (h : occursAt pattern s i = true) : pattern <:+: s := by
  rw [occursAt, List.isPrefixOf_iff_prefix] at h
  exact h.isInfix.trans (List.drop_suffix i s).isInfix

theorem lt_of_occursAt (hne : pattern ≠ []) (h : occursAt pattern s i = true) : i < s.length := by
  cases pattern with
  | nil => exact absurd rfl hne
  | cons a pattern =>
    obtain ⟨ha, -⟩ := (occursAt_cons a pattern s i).1 h
    obtain ⟨hlt, -⟩ := List.getElem?_eq_some_iff.1 ha
    exact hlt

/-- `t` stands in `s` from the position `a` on. -/
def StandsAt (t s : List α) (a : Nat) : Prop := ∀ k < t.length, t[k]? = s[a + k]?

omit [DecidableEq α] in
theorem standsAt_append (u t v : List α) : StandsAt t (u ++ t ++ v) u.length := by
  intro k hk
  rw [List.append_assoc, List.getElem?_append_right (Nat.le_add_right _ _), Nat.add_sub_cancel_left,
    List.getElem?_append_left hk]

omit [DecidableEq α] in
/-- A part is determined by its place and its length. -/
theorem StandsAt.unique {a : Nat} {u : List α} (ht : StandsAt t s a) (hu : StandsAt u s a)
    (hlength : t.length = u.length) : t = u := by
  refine List.ext_getElem? fun k => ?_
  by_cases hk : k < t.length
  · rw [ht k hk, hu k (by omega)]
  · rw [List.getElem?_eq_none (by omega), List.getElem?_eq_none (by omega)]

/-- What occurs in a part of a text occurs in the text. -/
theorem StandsAt.occursAt_of {a : Nat} (h : StandsAt t s a) (hk : occursAt pattern t i = true) :
    occursAt pattern s (a + i) = true := by
  induction pattern generalizing i with
  | nil => rfl
  | cons c pattern ih =>
    obtain ⟨hc, hrest⟩ := (occursAt_cons c pattern t i).1 hk
    obtain ⟨hlt, -⟩ := List.getElem?_eq_some_iff.1 hc
    refine (occursAt_cons c pattern s (a + i)).2 ⟨?_, ih hrest⟩
    rw [← h i hlt]
    exact hc

/-- What occurs in a text within the bounds of a part occurs in the part. -/
theorem StandsAt.occursAt_iff {a : Nat} (h : StandsAt t s a) (hle : i + pattern.length ≤ t.length) :
    occursAt pattern s (a + i) = true ↔ occursAt pattern t i = true := by
  refine ⟨fun hk => ?_, h.occursAt_of⟩
  induction pattern generalizing i with
  | nil => rfl
  | cons c pattern ih =>
    rw [List.length_cons] at hle
    obtain ⟨hc, hrest⟩ := (occursAt_cons c pattern s (a + i)).1 hk
    refine (occursAt_cons c pattern t i).2 ⟨?_, ih (by omega) hrest⟩
    rw [h i (by omega)]
    exact hc

/-! ## The first and the last position -/

theorem index_eq_some (h : index s pattern = some i) :
    occursAt pattern s i = true ∧ ∀ j < i, occursAt pattern s j = false := by
  obtain ⟨hi, -, hmin⟩ := List.find?_range_eq_some.1 h
  exact ⟨hi, fun j hj => by simpa using hmin j hj⟩

theorem index_isSome (hne : pattern ≠ []) (h : occursAt pattern s i = true) :
    ∃ j ≤ i, index s pattern = some j := by
  cases hindex : index s pattern with
  | none =>
    have hnone := List.find?_range_eq_none.1 hindex i (Nat.lt_succ_of_lt (lt_of_occursAt hne h))
    rw [h] at hnone
    exact absurd hnone (by simp)
  | some j =>
    refine ⟨j, Nat.le_of_not_lt fun hij => ?_, rfl⟩
    have hfalse := (index_eq_some hindex).2 i hij
    rw [h] at hfalse
    exact Bool.noConfusion hfalse

/-- The first position of a letter. -/
theorem index_letter {a : α} {t : List α} (ha : a ∉ t) (u : List α) :
    index (t ++ a :: u) [a] = some t.length := by
  have hocc : occursAt [a] (t ++ a :: u) t.length = true := by
    rw [occursAt_cons, List.getElem?_append_right (Nat.le_refl _), Nat.sub_self]
    exact ⟨rfl, rfl⟩
  obtain ⟨j, hle, hj⟩ := index_isSome (List.cons_ne_nil a []) hocc
  rcases Nat.lt_or_eq_of_le hle with hlt | rfl
  · have hget := ((occursAt_cons _ _ _ _).1 (index_eq_some hj).1).1
    rw [List.getElem?_append_left hlt] at hget
    exact absurd (List.mem_of_getElem? hget) ha
  · exact hj

theorem lastUpTo_eq_some {n : Nat} (h : lastUpTo s pattern n = some i) :
    occursAt pattern s i = true ∧ i ≤ n ∧ ∀ j, i < j → j ≤ n → occursAt pattern s j = false := by
  induction n with
  | zero =>
    rw [lastUpTo] at h
    split at h
    · next hzero =>
      obtain rfl := Option.some.inj h
      exact ⟨hzero, Nat.le_refl _, fun j hj hj0 => absurd hj0 (by omega)⟩
    · exact absurd h (by simp)
  | succ n ih =>
    rw [lastUpTo] at h
    split at h
    · next hlast =>
      obtain rfl := Option.some.inj h
      exact ⟨hlast, Nat.le_refl _, fun j hj hjn => absurd hjn (by omega)⟩
    · next hnot =>
      obtain ⟨hi, hle, hmax⟩ := ih h
      refine ⟨hi, by omega, fun j hj hjn => ?_⟩
      rcases Nat.lt_succ_iff_lt_or_eq.1 (Nat.lt_succ_of_le hjn) with hlt | rfl
      · exact hmax j hj (by omega)
      · exact Bool.eq_false_iff.2 hnot

theorem lastUpTo_eq_none {n : Nat} (h : lastUpTo s pattern n = none) :
    ∀ j ≤ n, occursAt pattern s j = false := by
  induction n with
  | zero =>
    intro j hj
    obtain rfl : j = 0 := by omega
    rw [lastUpTo] at h
    split at h
    · exact absurd h (by simp)
    · next hnot => exact Bool.eq_false_iff.2 hnot
  | succ n ih =>
    intro j hj
    rw [lastUpTo] at h
    split at h
    · exact absurd h (by simp)
    · next hnot =>
      rcases Nat.lt_succ_iff_lt_or_eq.1 (Nat.lt_succ_of_le hj) with hlt | rfl
      · exact ih h j (by omega)
      · exact Bool.eq_false_iff.2 hnot

theorem lastIndex_isSome (hne : pattern ≠ []) (h : occursAt pattern s i = true) :
    ∃ j ≥ i, lastIndex s pattern = some j := by
  have hlt := lt_of_occursAt hne h
  cases hlast : lastIndex s pattern with
  | none =>
    have hfalse := lastUpTo_eq_none hlast i (by omega)
    rw [h] at hfalse
    exact Bool.noConfusion hfalse
  | some j =>
    refine ⟨j, Nat.le_of_not_lt fun hji => ?_, rfl⟩
    have hfalse := (lastUpTo_eq_some hlast).2.2 i hji (by omega)
    rw [h] at hfalse
    exact Bool.noConfusion hfalse

theorem contains_iff (hne : pattern ≠ []) : contains s pattern = true ↔ ∃ i, occursAt pattern s i = true := by
  rw [contains, Option.isSome_iff_exists]
  constructor
  · rintro ⟨i, hi⟩
    exact ⟨i, (index_eq_some hi).1⟩
  · rintro ⟨i, hi⟩
    obtain ⟨j, -, hj⟩ := index_isSome hne hi
    exact ⟨j, hj⟩

/-! ## Slices -/

omit [DecidableEq α] in
theorem slice_eq_some {low high : Nat} (h : slice s low high = some t) :
    low ≤ high ∧ high ≤ s.length ∧ t.length = high - low ∧ StandsAt t s low := by
  rw [slice] at h
  split at h
  · next hrange =>
    obtain rfl := Option.some.inj h
    have hlength : ((s.take (high : Int).toNat).drop (low : Int).toNat).length = high - low := by
      rw [List.length_drop, List.length_take]
      omega
    refine ⟨by omega, by omega, hlength, fun k hk => ?_⟩
    rw [hlength] at hk
    rw [List.getElem?_drop, List.getElem?_take_of_lt (by omega)]
    rfl
  · exact absurd h (by simp)

end OwnX.Text
