import OwnX.Foundations.Quorum
import Mathlib.Data.List.Nodup

/-!
# Proofs: majorities of a vote

Two candidates do not both have a majority, and a first vote adds one to the support of one candidate.
-/

namespace OwnX

variable {V B : Type} [DecidableEq B] {voters : List V} {vote vote' : V → Option B}

/-- Two candidates share no voter. -/
theorem support_add_le (voters : List V) (vote : V → Option B) {b b' : B} (hne : b ≠ b') :
    support voters vote b + support voters vote b' ≤ voters.length := by
  unfold support
  induction voters with
  | nil => simp
  | cons v voters ih =>
    rw [List.countP_cons, List.countP_cons, List.length_cons]
    have hexcl : ¬ (vote v = some b ∧ vote v = some b') := by
      rintro ⟨h, h'⟩
      exact hne (Option.some.inj (h.symm.trans h'))
    by_cases h : vote v = some b <;> by_cases h' : vote v = some b' <;> simp_all <;> omega

/-- At most one candidate has a majority. -/
theorem majority_unique {b b' : B} (h : voters.length / 2 < support voters vote b)
    (h' : voters.length / 2 < support voters vote b') : b = b' := by
  by_contra hne
  have hle := support_add_le voters vote hne
  omega

/-- More votes give more support. -/
theorem support_mono (voters : List V) (hle : ∀ v b, vote v = some b → vote' v = some b) (b : B) :
    support voters vote b ≤ support voters vote' b := by
  unfold support
  apply List.countP_mono_left
  intro v _ h
  exact decide_eq_true (hle v b (of_decide_eq_true h))

/-- A voter that had not voted adds its vote. -/
theorem support_cast [DecidableEq V] (hnd : voters.Nodup) {v : V} (hv : v ∈ voters)
    (hnone : vote v = none) (b : B) :
    support voters (Function.update vote v (some b)) b = support voters vote b + 1 := by
  unfold support
  induction voters with
  | nil => cases hv
  | cons a voters ih =>
    obtain ⟨ha, hnd⟩ := List.nodup_cons.mp hnd
    rw [List.countP_cons, List.countP_cons]
    by_cases hav : a = v
    · subst hav
      have hsame : voters.countP (fun x => Function.update vote a (some b) x = some b) =
          voters.countP fun x => vote x = some b := by
        apply List.countP_congr
        intro x hx
        have hxa : x ≠ a := by
          rintro rfl
          exact ha hx
        rw [Function.update_of_ne hxa]
      rw [hsame]
      simp [hnone]
    · rw [ih hnd (List.mem_of_ne_of_mem (Ne.symm hav) hv), Function.update_of_ne hav]
      omega

end OwnX
