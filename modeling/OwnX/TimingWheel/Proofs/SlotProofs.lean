import OwnX.TimingWheel.Proofs.ScheduleProofs
import OwnX.Foundations.Proofs.MachineIntProofs

/-!
# The clock and the slots in machine integers

On the machine the clock is right modulo `2 ^ 64` after any number of ticks. As long as it does not pass
the greatest `int64`, neither `Incr` nor the slot computation of `AddOnce` overflows anywhere, and they
compute what they compute with unbounded integers.
-/

namespace OwnX.TimingWheel

variable {bits : Nat} {c c' : Current} {now : Int}

/-! ## What fits -/

theorem fits_int64_iff {x : Int} :
    Fits 64 x ↔ -9223372036854775808 ≤ x ∧ x < 9223372036854775808 := by
  simp [Fits]

/-- Indices, and sums of two, fit into an `int` of either size. -/
theorem fits_index (hbits : bits = 32 ∨ bits = 64) {x : Int} (h0 : 0 ≤ x) (h1 : x ≤ 64) :
    Fits bits x := by
  rcases hbits with rfl | rfl
  · have hpow : (2 : Int) ^ (32 - 1) = 2147483648 := by decide
    unfold Fits
    omega
  · rw [fits_int64_iff]
    omega

/-! ## Without an overflow -/

/-- The clock of a wheel started at the positive time `now`, which is not over the greatest `int64`. -/
structure Current.Shows (now : Int) (c : Current) : Prop where
  clock : c.Clock now
  positive : 0 < now
  since : now ≤ c.timestamp
  fits : Fits 64 c.timestamp

/-- The tier is much smaller than the clock. -/
theorem Current.Shows.tier (h : c.Shows now) : 0 ≤ c.tier ∧ 32 * c.tier < c.timestamp := by
  have h0 := h.clock.index_nonneg
  have h1 := h.clock.index_lt
  have htime := h.clock.time
  have hsince := h.since
  have hpositive := h.positive
  omega

theorem Current.Shows.incrIn_checked (h : c.Shows now) (hbits : bits = 32 ∨ bits = 64)
    (hnext : Fits 64 (c.timestamp + 1)) : c.incrIn checked bits = some c.incr := by
  have h0 := h.clock.index_nonneg
  have h1 := h.clock.index_lt
  have htier := h.tier
  have htime := fits_int64_iff.1 h.fits
  have hindex : Fits bits (c.index + 1) := fits_index hbits (by omega) (by omega)
  have hfits : Fits 64 (c.tier + 1) := fits_int64_iff.2 (by omega)
  unfold Current.incrIn Current.tierIncrIn Current.incr Current.tierIncr
  simp only [checked_of_fits hnext, checked_of_fits hindex, checked_of_fits hfits, Option.bind_some]
  split_ifs <;> rfl

theorem Current.Shows.incr (h : c.Shows now) (hnext : Fits 64 (c.timestamp + 1)) :
    c.incr.Shows now := by
  have hsince := h.since
  refine ⟨h.clock.incr, h.positive, ?_, ?_⟩
  · rw [incr_timestamp]
    omega
  · rw [incr_timestamp]
    exact hnext

/-- As long as the clock fits, no call of `Incr` overflows. -/
theorem afterIn_checked (hbits : bits = 32 ∨ bits = 64) (hnow : 0 < now) (n : Nat)
    (hn : Fits 64 (now + n)) :
    ∃ c, Current.afterIn checked bits now n = some c ∧ c.Shows now ∧ c.timestamp = now + n := by
  have hlast := fits_int64_iff.1 hn
  induction n with
  | zero =>
    have hclock : ({ timestamp := now } : Current).Clock now := ⟨by simp, by simp, by simp⟩
    exact ⟨_, rfl, ⟨hclock, hnow, Int.le_refl _, fits_int64_iff.2 (by simp only; omega)⟩, by simp⟩
  | succ n ih =>
    obtain ⟨c, hc, hshows, htime⟩ := ih (fits_int64_iff.2 (by omega)) (by omega)
    have hnext : Fits 64 (c.timestamp + 1) := fits_int64_iff.2 (by omega)
    refine ⟨c.incr, ?_, hshows.incr hnext, ?_⟩
    · rw [Current.afterIn, hc, Option.bind_some, hshows.incrIn_checked hbits hnext]
    · rw [incr_timestamp, htime]
      omega

/-- Nothing in the computation of a slot overflows. -/
theorem Current.Shows.slotIn_checked (h : c.Shows now) (hbits : bits = 32 ∨ bits = 64)
    {timestamp : Int} (htimestamp : Fits 64 timestamp) :
    c.slotIn checked bits timestamp = some (c.slot timestamp) := by
  have h0 := h.clock.index_nonneg
  have h1 := h.clock.index_lt
  have htier := h.tier
  have hpositive := h.positive
  have hsince := h.since
  have hle := le_effective c timestamp
  have heffective : Fits 64 (c.effective timestamp) := by
    unfold Current.effective
    split_ifs
    · exact h.fits
    · exact htimestamp
  rw [fits_int64_iff] at heffective
  unfold Current.slotIn Current.slot defaultBucketLength
  generalize hremain : c.effective timestamp - c.timestamp = remain
  have hquotient : remain.tdiv 32 = remain / 32 := Int.tdiv_eq_ediv_of_nonneg (by omega)
  have hremainder : remain.tmod 32 = remain % 32 := Int.tmod_eq_emod_of_nonneg (by omega)
  have hmod : ∀ i : Int, 0 ≤ i → i.tmod 32 = i % 32 := fun i hi => Int.tmod_eq_emod_of_nonneg hi
  have hindex : Fits bits (c.index + remain % 32) := fits_index hbits (by omega) (by omega)
  dsimp only
  rw [checked_of_fits (fits_int64_iff.2 (by omega)), Option.bind_some, hquotient, hremainder]
  rw [checked_of_fits (fits_int64_iff.2 (by omega)), Option.bind_some]
  rw [checked_of_fits (fits_int64_iff.2 (by omega)), Option.bind_some]
  rw [checked_of_fits (fits_int64_iff.2 (by omega)), Option.bind_some]
  rw [checked_of_fits (fits_index hbits (by omega) (by omega)), Option.bind_some]
  rw [checked_of_fits hindex, Option.bind_some, hmod _ (by omega)]
  split_ifs
  · rw [checked_of_fits (fits_int64_iff.2 (by omega)), Option.bind_some]
    rw [checked_of_fits (fits_index hbits (by omega) (by omega)), Option.bind_some]
  · rfl

/-! ## On the machine -/

theorem bits_pos (hbits : bits = 32 ∨ bits = 64) : 0 < bits := by omega

/-- Without an overflow the machine computes the same. -/
theorem incrIn_wrapping (hbits : bits = 32 ∨ bits = 64) (h : c.incrIn checked bits = some c') :
    c.incrIn wrapping bits = some c' := by
  refine bind_mono (fun _ => wrapping_of_checked (by decide)) (fun timestamp c₁ => ?_) c' h
  refine bind_mono (fun _ => wrapping_of_checked (bits_pos hbits)) (fun index c₂ => ?_) c₁
  dsimp only
  split_ifs
  · refine bind_mono (fun _ => wrapping_of_checked (by decide)) (fun _ _ => id) c₂
  · exact id

theorem afterIn_wrapping (hbits : bits = 32 ∨ bits = 64) (n : Nat)
    (h : Current.afterIn checked bits now n = some c) : Current.afterIn wrapping bits now n = some c := by
  induction n generalizing c with
  | zero => exact h
  | succ n ih => exact bind_mono (fun _ => ih) (fun _ _ => incrIn_wrapping hbits) c h

theorem slotIn_wrapping (hbits : bits = 32 ∨ bits = 64) {timestamp : Int} {slot : Int × Int}
    (h : c.slotIn checked bits timestamp = some slot) :
    c.slotIn wrapping bits timestamp = some slot := by
  have h64 : ∀ x y, checked 64 x = some y → wrapping 64 x = some y :=
    fun _ _ => wrapping_of_checked (by decide)
  have hint : ∀ x y, checked bits x = some y → wrapping bits x = some y :=
    fun _ _ => wrapping_of_checked (bits_pos hbits)
  refine bind_mono (h64 _) (fun _ => bind_mono (h64 _) fun _ => bind_mono (h64 _) fun taskTier =>
    bind_mono (h64 _) fun _ => bind_mono (hint _) fun _ => bind_mono (hint _) fun index r => ?_) slot h
  split_ifs
  · exact bind_mono (h64 _) (fun _ => bind_mono (hint _) fun _ _ => id) r
  · exact id

/-- The clock is right modulo `2 ^ 64`. -/
structure Current.Clock64 (now : Int) (c : Current) : Prop where
  index_nonneg : 0 ≤ c.index
  index_lt : c.index < 32
  time : ∃ k : Int, c.timestamp = now + 32 * c.tier + c.index + 18446744073709551616 * k

theorem wrap64_eq_add (x : Int) : ∃ k : Int, wrap 64 x = x + 18446744073709551616 * k := wrap_eq_add 64 x

/-- A tick keeps it so, whether anything overflows or not. -/
theorem Current.Clock64.incrIn (h : c.Clock64 now) (hbits : bits = 32 ∨ bits = 64) :
    ∃ c', c.incrIn wrapping bits = some c' ∧ c'.Clock64 now := by
  obtain ⟨h0, h1, k, htime⟩ := h
  have hindex : wrap bits (c.index + 1) = c.index + 1 :=
    wrap_of_fits (bits_pos hbits) (fits_index hbits (by omega) (by omega))
  obtain ⟨i, hi⟩ := wrap64_eq_add (c.timestamp + 1)
  obtain ⟨j, hj⟩ := wrap64_eq_add (c.tier + 1)
  unfold Current.incrIn Current.tierIncrIn wrapping defaultBucketLength
  simp only [Option.bind_some, hindex]
  split_ifs with hfull
  · exact ⟨_, rfl, by simp, by simp, k + i - 32 * j, by simp only; omega⟩
  · exact ⟨_, rfl, by simp only; omega, by simp only; omega, k + i, by simp only; omega⟩

theorem afterIn_clock64 (hbits : bits = 32 ∨ bits = 64) (now : Int) (n : Nat) :
    ∃ c, Current.afterIn wrapping bits now n = some c ∧ c.Clock64 now := by
  induction n with
  | zero => exact ⟨_, rfl, by simp, by simp, 0, by simp⟩
  | succ n ih =>
    obtain ⟨c, hc, hclock⟩ := ih
    obtain ⟨c', hc', hclock'⟩ := hclock.incrIn hbits
    exact ⟨c', by rw [Current.afterIn, hc, Option.bind_some, hc'], hclock'⟩

/-- After any number of calls of `Incr` the index is a bucket, and in `int64` the clock is the start plus
32 times the tier plus the index. While the clock is a positive `int64` this is an equation of integers,
no call has overflowed, and for every `int64` timestamp the slot of `AddOnce` is computed without an
overflow, is a bucket, and gives the time since the start. -/
theorem slot_arithmetic (hbits : bits = 32 ∨ bits = 64) (now : Int) (n : Nat) :
    ∃ c, Current.afterIn wrapping bits now n = some c ∧ 0 ≤ c.index ∧ c.index < 32 ∧
      wrap 64 (c.timestamp - now) = wrap 64 (32 * c.tier + c.index) ∧
      (0 < now → Fits 64 (now + n) →
        Current.afterIn checked bits now n = some c ∧ c.timestamp - now = 32 * c.tier + c.index ∧
        ∀ timestamp, Fits 64 timestamp → ∃ taskTier taskBucketIndex,
          c.slotIn checked bits timestamp = some (taskTier, taskBucketIndex) ∧
          c.slotIn wrapping bits timestamp = some (taskTier, taskBucketIndex) ∧
          c.slot timestamp = (taskTier, taskBucketIndex) ∧
          0 ≤ taskBucketIndex ∧ taskBucketIndex < 32 ∧
          32 * taskTier + taskBucketIndex = max timestamp c.timestamp - now) := by
  obtain ⟨c, hc, h0, h1, k, htime⟩ := afterIn_clock64 hbits now n
  refine ⟨c, hc, h0, h1, ?_, fun hnow hn => ?_⟩
  · have hsub : c.timestamp - now = 32 * c.tier + c.index + ((2 ^ 64 : Nat) : Int) * k := by
      rw [htime]
      omega
    rw [hsub, wrap_add_mul]
  · obtain ⟨c', hc', hshows, -⟩ := afterIn_checked hbits hnow n hn
    obtain rfl : c' = c := Option.some.inj ((afterIn_wrapping hbits n hc').symm.trans hc)
    refine ⟨hc', by have := hshows.clock.time; omega, fun timestamp htimestamp => ?_⟩
    have hslot := hshows.slotIn_checked hbits htimestamp
    obtain ⟨hb0, hb1, hwhen⟩ := slot_time hshows.clock timestamp
    have hmax : c'.effective timestamp = max timestamp c'.timestamp := by
      unfold Current.effective
      split_ifs <;> omega
    refine ⟨(c'.slot timestamp).1, (c'.slot timestamp).2, hslot, slotIn_wrapping hbits hslot, rfl,
      hb0, hb1, ?_⟩
    rw [← hmax]
    omega

/-- After 40 ticks the clock is in bucket 8 of the second revolution; 100 seconds after the start is
bucket 4 of the fourth, which takes the carry. -/
theorem slot_arithmetic_carry :
    ∃ c, Current.afterIn checked 64 1700000000 40 = some c ∧ c.tier = 1 ∧ c.index = 8 ∧
      c.slotIn wrapping 64 1700000100 = some (3, 4) := by
  obtain ⟨c, hc, -, -, -, hpositive⟩ := slot_arithmetic (Or.inr rfl) 1700000000 40
  obtain ⟨hchecked, -, hslots⟩ := hpositive (by decide) (by decide)
  obtain ⟨taskTier, taskBucketIndex, -, hslot, -, h0, h1, hsum⟩ := hslots 1700000100 (by decide)
  have hrun : Current.afterIn checked 64 1700000000 40 =
      some { timestamp := 1700000040, tier := 1, index := 8 } := by
    decide
  obtain rfl := Option.some.inj (hchecked.symm.trans hrun)
  have hmax : max (1700000100 : Int) 1700000040 = 1700000100 := by decide
  rw [hmax] at hsum
  obtain ⟨rfl, rfl⟩ : taskTier = 3 ∧ taskBucketIndex = 4 := by omega
  exact ⟨_, hrun, rfl, rfl, hslot⟩

end OwnX.TimingWheel
