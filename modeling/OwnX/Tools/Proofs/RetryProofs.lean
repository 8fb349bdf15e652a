import OwnX.Tools.Retry
import OwnX.Foundations.Proofs.MachineIntProofs
import Mathlib.Data.Nat.Find

/-!
# Proofs: the threshold of retries

The counter of the loop is the number of successes since the last failure, and a window of `k` successes
ends where that number reaches `k`. If `times` is the greatest `int`, the loop condition always holds:
the loop counter wraps around instead of passing it.
-/

namespace OwnX.Tools

variable {w : Nat} {times k : Int} {f : Outcomes} {n : Nat}

/-! ## Windows -/

/-- The number of successes since the last failure among the first `n` calls. -/
def streak (f : Outcomes) : Nat → Nat
  | 0 => 0
  | n + 1 => if (f n).isNone then streak f n + 1 else 0

theorem streak_succ_of_nil (h : f n = none) : streak f (n + 1) = streak f n + 1 := by
  simp [streak, h]

theorem streak_succ_of_error {err : String} (h : f n = some err) : streak f (n + 1) = 0 := by
  simp [streak, h]

/-- A window is a streak that is long enough. -/
theorem window_iff (hk : 1 ≤ k) : Window f k n ↔ k ≤ streak f n := by
  induction n generalizing k with
  | zero =>
    constructor
    · exact fun h => h.1
    · exact fun h => ⟨h, fun j hj => absurd hj (Nat.not_lt_zero j)⟩
  | succ n ih =>
    cases hf : f n with
    | some err =>
      rw [streak_succ_of_error hf]
      constructor
      · intro h
        have hnil := h.2 n (Nat.lt_succ_self n) (by omega)
        rw [hf] at hnil
        exact absurd hnil (by simp)
      · intro h
        omega
    | none =>
      rw [streak_succ_of_nil hf]
      by_cases hone : k = 1
      · constructor
        · intro _
          omega
        · intro _
          refine ⟨by omega, fun j hj hle => ?_⟩
          obtain rfl : j = n := by omega
          exact hf
      · -- a longer window is one of the first `n` calls, of which one less is asked
        have hshorter : Window f k (n + 1) ↔ Window f (k - 1) n := by
          constructor
          · rintro ⟨hle, hall⟩
            exact ⟨by omega, fun j hj hjk => hall j (by omega) (by omega)⟩
          · rintro ⟨hle, hall⟩
            refine ⟨by omega, fun j hj hjk => ?_⟩
            rcases Nat.lt_succ_iff_lt_or_eq.1 hj with hj | rfl
            · exact hall j hj (by omega)
            · exact hf
        rw [hshorter, ih (by omega)]
        omega

theorem streak_succ_le (f : Outcomes) (n : Nat) : streak f (n + 1) ≤ streak f n + 1 := by
  cases hf : f n with
  | none => exact Nat.le_of_eq (streak_succ_of_nil hf)
  | some err =>
    rw [streak_succ_of_error hf]
    exact Nat.zero_le _

/-! ## The loop -/

theorem Returns.unique {r r' : Nat × Option String} (h : Returns w times k f r)
    (h' : Returns w times k f r') : r = r' := by
  obtain ⟨a, ha⟩ := h
  obtain ⟨b, hb⟩ := h'
  have hr := ha (max a b) (Nat.le_max_left a b)
  rw [hb (max a b) (Nat.le_max_right a b)] at hr
  exact (Option.some.inj hr).symm

/-- One turn of the loop, while the counter fits. -/
theorem retryLoop_turn (hw : 0 < w) (hk : Fits w k) (hlt : (streak f n : Int) < k)
    (hn : (n : Int) + 1 ≤ times) (fuel : Nat) (i : Int) (hi : wrap w (n + 1 + 1) = i) :
    retryLoop w times k f (fuel + 1) n (n + 1) (streak f n) (lastFailure f n) =
      if (streak f (n + 1) : Int) = k then some (n + 1, none)
      else retryLoop w times k f fuel (n + 1) i (streak f (n + 1)) (lastFailure f (n + 1)) := by
  rw [retryLoop, if_pos hn, hi]
  cases hf : f n with
  | none =>
    have hcount : wrap w ((streak f n : Int) + 1) = (streak f (n + 1) : Nat) := by
      rw [streak_succ_of_nil hf, Int.natCast_succ]
      exact wrap_of_fits hw ((fits_zero w).between hk (by omega) (by omega))
    simp only [hcount, lastFailure, hf, Option.getD_none]
  | some err =>
    have hpos : (0 : Int) ≠ k := by omega
    simp only [streak_succ_of_error hf, lastFailure, hf, Option.getD_some, Int.natCast_zero, if_neg hpos]

/-- The loop gets through the first `n` calls if no window ends there. -/
theorem retryLoop_reaches (hw : 0 < w) (hk : Fits w k) (hno : ∀ m ≤ n, (streak f m : Int) < k)
    (hn : n ≤ times.toNat) (hfit : Fits w (n + 1)) (fuel : Nat) :
    doWithRetryThreshold w times k f (fuel + n) =
      retryLoop w times k f fuel n (n + 1) (streak f n) (lastFailure f n) := by
  induction n generalizing fuel with
  | zero => rfl
  | succ n ih =>
    have hfit' : Fits w ((n : Int) + 1) := (fits_zero w).between hfit (by omega) (by omega)
    have hwrap : wrap w ((n : Int) + 1 + 1) = ((n + 1 : Nat) : Int) + 1 := by
      rw [Int.natCast_succ]
      exact wrap_of_fits hw hfit
    have hnext := hno (n + 1) (Nat.le_refl _)
    rw [Nat.add_comm n 1, ← Nat.add_assoc, Nat.add_comm 1 n,
      ih (fun m hm => hno m (by omega)) (by omega) hfit',
      retryLoop_turn hw hk (hno n (by omega)) (by omega) fuel _ hwrap, if_neg (by omega)]

/-- It returns nil at the end of the first window. -/
theorem returns_of_window (hw : 0 < w) (hk1 : 1 ≤ k) (hk : Fits w k) (htimes : Fits w times)
    (hn : n ≤ times) (hwindow : Window f k n) (hfirst : ∀ m < n, ¬Window f k m) :
    Returns w times k f (n, none) := by
  have hreached : k ≤ streak f n := (window_iff hk1).1 hwindow
  have hno : ∀ m < n, (streak f m : Int) < k := by
    intro m hm
    have hnot := hfirst m hm
    rw [window_iff hk1] at hnot
    omega
  obtain ⟨m, rfl⟩ : ∃ m, n = m + 1 := by
    cases n with
    | zero => exact absurd hreached (by simp only [streak, Int.natCast_zero]; omega)
    | succ m => exact ⟨m, rfl⟩
  have hstep := streak_succ_le f m
  have hlast := hno m (Nat.lt_succ_self m)
  have hexact : (streak f (m + 1) : Int) = k := by omega
  have hfit : Fits w ((m : Int) + 1) := (fits_zero w).between htimes (by omega) (by omega)
  refine ⟨m + 1, fun fuel hfuel => ?_⟩
  obtain ⟨d, rfl⟩ : ∃ d, fuel = d + 1 + m := ⟨fuel - (m + 1), by omega⟩
  rw [retryLoop_reaches hw hk (fun j hj => hno j (by omega)) (by omega) hfit,
    retryLoop_turn hw hk hlast (by omega) d _ rfl, if_pos hexact]

/-- It returns the error after all calls, unless `times` is the greatest `int`. -/
theorem returns_of_no_window (hw : 0 < w) (hk1 : 1 ≤ k) (hk : Fits w k)
    (hmax : times < 2 ^ (w - 1) - 1) (hno : ∀ n : Nat, n ≤ times → ¬Window f k n) :
    Returns w times k f (times.toNat,
      some ("retry times exhausted, err: " ++ lastFailure f times.toNat)) := by
  have hstreak : ∀ m ≤ times.toNat, (streak f m : Int) < k := by
    intro m hm
    by_cases hle : (m : Int) ≤ times
    · have hnot := hno m hle
      rw [window_iff hk1] at hnot
      omega
    · obtain rfl : m = 0 := by omega
      simp only [streak, Int.natCast_zero]
      omega
  have hfit : Fits w ((times.toNat : Int) + 1) := by
    have hk2 := hk.2
    refine ⟨?_, by omega⟩
    have := (fits_zero w).1
    omega
  refine ⟨times.toNat + 1, fun fuel hfuel => ?_⟩
  obtain ⟨d, rfl⟩ : ∃ d, fuel = d + 1 + times.toNat := ⟨fuel - (times.toNat + 1), by omega⟩
  rw [retryLoop_reaches hw hk hstreak (Nat.le_refl _) hfit, retryLoop, if_neg (by omega)]

/-- If `times` is the greatest `int`, the loop never ends with an error. -/
theorem retryLoop_unending (hw : 0 < w) (hmax : times = 2 ^ (w - 1) - 1) (fuel calls : Nat) {i : Int}
    (hi : Fits w i) (successCount : Int) (msg : String) {r : Nat × Option String}
    (h : retryLoop w times k f fuel calls i successCount msg = some r) : r.2 = none := by
  induction fuel generalizing calls i successCount msg with
  | zero => exact absurd h (by simp [retryLoop])
  | succ fuel ih =>
    have hle : i ≤ times := by
      have := hi.2
      omega
    rw [retryLoop, if_pos hle] at h
    split at h
    · dsimp only at h
      split at h
      · obtain rfl := Option.some.inj h
        rfl
      · exact ih _ (fits_wrap hw _) _ _ h
    · exact ih _ (fits_wrap hw _) _ _ h

/-- For every number of attempts, every threshold from 1 on and every sequence of outcomes, the threshold
decides as it should, exactly if the number of attempts is not the greatest `int` or a window is found
within it. -/
theorem retryThreshold_decides_iff (htimes : Fits w times) (hk1 : 1 ≤ k) (hk : Fits w k) :
    Decides w times k f ↔
      (times < 2 ^ (w - 1) - 1 ∨ ∃ n : Nat, n ≤ times ∧ Window f k n) := by
  have hw : 0 < w := by
    by_contra hw0
    obtain rfl : w = 0 := by omega
    have hpow : (2 : Int) ^ (0 - 1) = 1 := rfl
    have hk2 := hk.2
    omega
  constructor
  · intro h
    by_contra hnot
    obtain ⟨hmax, hno⟩ := not_or.1 hnot
    have hno' : ∀ n : Nat, n ≤ times → ¬Window f k n := fun n hn hwindow => hno ⟨n, hn, hwindow⟩
    -- the error that should come after all calls never comes
    obtain ⟨enough, hreturns⟩ := h.exhausted hno'
    have htop : times = 2 ^ (w - 1) - 1 := by
      have := htimes.2
      omega
    have hone : Fits w 1 := (fits_zero w).between hk (by omega) hk1
    exact absurd (retryLoop_unending hw htop enough 0 hone 0 "" (hreturns enough (Nat.le_refl _)))
      (by simp)
  · intro h
    have hearliest : ∀ n : Nat, n ≤ times → Window f k n → (∀ m < n, ¬Window f k m) →
        Returns w times k f (n, none) := fun n => returns_of_window hw hk1 hk htimes
    have hexhausted : (∀ n : Nat, n ≤ times → ¬Window f k n) →
        Returns w times k f (times.toNat,
          some ("retry times exhausted, err: " ++ lastFailure f times.toNat)) := by
      intro hno
      rcases h with hmax | ⟨n, hn, hwindow⟩
      · exact returns_of_no_window hw hk1 hk hmax hno
      · exact absurd hwindow (hno n hn)
    refine ⟨⟨?_, ?_⟩, hearliest, hexhausted⟩
    · rintro ⟨calls, hnil⟩
      by_contra hnot
      have hno : ∀ n : Nat, n ≤ times → ¬Window f k n := fun n hn hwindow => hnot ⟨n, hn, hwindow⟩
      exact absurd (congrArg Prod.snd (hnil.unique (hexhausted hno))) (by simp)
    · intro hex
      classical
      have hmin : ∀ m < Nat.find hex, ¬Window f k m := by
        intro m hm hwindow
        have hle := (Nat.find_spec hex).1
        exact Nat.find_min hex hm ⟨by omega, hwindow⟩
      exact ⟨_, hearliest _ (Nat.find_spec hex).1 (Nat.find_spec hex).2 hmin⟩

/-- Two failures with a success between them, and then two successes: nil after the fifth call. -/
theorem retryThreshold_decides_iff_flapping :
    Returns 64 5 2 (fun n => if n = 0 ∨ n = 2 then some "refused" else none) (5, none) := by
  have hdecides : Decides 64 5 2 (fun n => if n = 0 ∨ n = 2 then some "refused" else none) :=
    (retryThreshold_decides_iff (by decide) (by decide) (by decide)).2 (Or.inl (by decide))
  refine hdecides.earliest 5 (by decide) ?_ fun m hm => ?_
  · rw [window_iff (by decide)]
    decide
  · rw [window_iff (by decide)]
    revert m
    decide

/-- If all calls fail as well, it does not end at all. -/
theorem retryLoop_failing {err : String} (hw : 0 < w) (hmax : times = 2 ^ (w - 1) - 1)
    (fuel calls : Nat) {i : Int} (hi : Fits w i) (successCount : Int) (msg : String) :
    retryLoop w times k (fun _ => some err) fuel calls i successCount msg = none := by
  induction fuel generalizing calls i successCount msg with
  | zero => rfl
  | succ fuel ih =>
    have hle : i ≤ times := by
      have := hi.2
      omega
    rw [retryLoop, if_pos hle]
    exact ih _ (fits_wrap hw _) _ _

/-- With the greatest `int` as the number of attempts and a function that always fails, the loop does not
end. -/
theorem retries_beyond_times :
    (∀ fuel, doWithRetryThreshold 64 (2 ^ 63 - 1) 1 (fun _ => some "refused") fuel = none) ∧
      ¬Decides 64 (2 ^ 63 - 1) 1 (fun _ => some "refused") := by
  have hends : ∀ fuel, doWithRetryThreshold 64 (2 ^ 63 - 1) 1 (fun _ => some "refused") fuel = none :=
    fun fuel => retryLoop_failing (by decide) rfl fuel 0 (by decide) 0 ""
  refine ⟨hends, fun h => ?_⟩
  have hno : ∀ n : Nat, n ≤ (2 ^ 63 - 1 : Int) → ¬Window (fun _ => some "refused") 1 n := by
    rintro n - ⟨hle, hall⟩
    exact absurd (hall (n - 1) (by omega) (by omega)) (by simp)
  obtain ⟨enough, hreturns⟩ := h.exhausted hno
  have hnone := hends enough
  rw [hreturns enough (Nat.le_refl _)] at hnone
  exact absurd hnone (by simp)

end OwnX.Tools
