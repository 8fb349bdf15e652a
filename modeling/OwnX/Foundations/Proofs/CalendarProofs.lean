import OwnX.Foundations.Calendar
import OwnX.Foundations.Proofs.GoTimeProofs

/-!
# Proofs: the date of a day

The date that is found for a day has the number of this day, and it exists.
-/

namespace OwnX.GoTime

variable {n d year month : Nat}

theorem isLeap_iff (year : Nat) : isLeap year = true ↔ year % 4 = 0 ∧ (year % 100 ≠ 0 ∨ year % 400 = 0) := by
  simp [isLeap]

/-- Whether a year is a leap year depends on its place within 400 years. -/
theorem isLeap_congr {y y' : Nat} (h : y % 400 = y' % 400) : isLeap y = isLeap y' := by
  rw [Bool.eq_iff_iff, isLeap_iff, isLeap_iff]
  omega

theorem daysIn_congr {y y' : Nat} (h : y % 400 = y' % 400) (month : Nat) : daysIn month y = daysIn month y' := by
  rw [daysIn, daysIn, isLeap_congr h]

theorem daysBefore_congr {y y' : Nat} (h : y % 400 = y' % 400) (month : Nat) :
    daysBefore month y = daysBefore month y' := by
  rw [daysBefore, daysBefore]
  simp only [daysIn_congr h]

theorem dayNumberOf_natCast (year month day : Nat) : dayNumberOf year month day = dayNumber year month day := by
  have hyear : (((year : Int) - 1) % 400).toNat + 1 = if year = 0 then 400 else (year - 1) % 400 + 1 := by
    split_ifs <;> omega
  have hdays : daysBefore month ((((year : Int) - 1) % 400).toNat + 1) = daysBefore month year := by
    apply daysBefore_congr
    split_ifs at hyear <;> omega
  rw [dayNumberOf, dayNumber, dayNumber, hdays]
  push_cast
  omega

/-- The days of a year. -/
def yearLength (year : Nat) : Nat := if isLeap year then 366 else 365

/-- The day lies in the year that is found for it. -/
theorem yearOfCycle_spec (h : d < 146097) :
    (yearOfCycle d).1 < 400 ∧ (yearOfCycle d).2 < yearLength ((yearOfCycle d).1 + 1) ∧
      d + (yearOfCycle d).1 / 100 = 365 * (yearOfCycle d).1 + (yearOfCycle d).1 / 4 + (yearOfCycle d).2 := by
  obtain ⟨c, hc⟩ : ∃ c, c = d / 36524 - d / 36524 / 4 := ⟨_, rfl⟩
  obtain ⟨d₁, hd₁⟩ : ∃ d₁, d₁ = d - 36524 * c := ⟨_, rfl⟩
  obtain ⟨f, hf⟩ : ∃ f, f = d₁ / 1461 := ⟨_, rfl⟩
  obtain ⟨d₂, hd₂⟩ : ∃ d₂, d₂ = d₁ - 1461 * f := ⟨_, rfl⟩
  obtain ⟨o, ho⟩ : ∃ o, o = d₂ / 365 - d₂ / 365 / 4 := ⟨_, rfl⟩
  have heq : yearOfCycle d = (100 * c + 4 * f + o, d₂ - 365 * o) := by
    simp only [yearOfCycle, ← hc, ← hd₁, ← hf, ← hd₂, ← ho]
  -- a century has one day less than 25 times four years, except for the fourth one
  have hcentury : c ≤ 3 ∧ d = 36524 * c + d₁ ∧ d₁ ≤ 36524 ∧ (c < 3 → d₁ < 36524) := by omega
  have hfour : f ≤ 24 ∧ d₁ = 1461 * f + d₂ ∧ d₂ ≤ 1460 := by omega
  have hone : o ≤ 3 ∧ 365 * o ≤ d₂ ∧ d₂ - 365 * o ≤ 365 ∧ (o < 3 → d₂ - 365 * o < 365) := by omega
  have hquarter : (100 * c + 4 * f + o) / 4 = 25 * c + f := by omega
  have hhundred : (100 * c + 4 * f + o) / 100 = c := by omega
  simp only [heq, hquarter, hhundred]
  refine ⟨by omega, ?_, by omega⟩
  rw [yearLength]
  split_ifs with hleap
  · omega
  · rw [isLeap_iff] at hleap
    omega

theorem daysBefore_succ (year : Nat) (h : 1 ≤ month) :
    daysBefore (month + 1) year = daysBefore month year + daysIn month year := by
  obtain ⟨m, rfl⟩ := Nat.exists_eq_add_of_le' h
  simp [daysBefore, List.range_succ]

theorem daysBefore_last (year : Nat) : daysBefore 13 year = yearLength year := by
  simp only [yearLength, daysBefore, daysIn, List.range_succ]
  split_ifs <;> rfl

theorem daysBefore_mono (year : Nat) {m m' : Nat} (h : 1 ≤ m) (hle : m ≤ m') :
    daysBefore m year ≤ daysBefore m' year := by
  induction m', hle using Nat.le_induction with
  | base => exact Nat.le_refl _
  | succ m' hm ih =>
    rw [daysBefore_succ year (by omega)]
    omega

/-- The months are searched one after the other. -/
theorem monthAndDay_spec (year k month d : Nat) (h : 1 ≤ month) (hk : month + k = 12)
    (hd : d + daysBefore month year < yearLength year) :
    1 ≤ (monthAndDay year k month d).1 ∧ (monthAndDay year k month d).1 ≤ 12 ∧
      1 ≤ (monthAndDay year k month d).2 ∧
      (monthAndDay year k month d).2 ≤ daysIn (monthAndDay year k month d).1 year ∧
      daysBefore (monthAndDay year k month d).1 year + (monthAndDay year k month d).2 =
        daysBefore month year + d + 1 := by
  induction k generalizing month d with
  | zero =>
    obtain rfl : month = 12 := by omega
    have hlast := daysBefore_succ year (by decide : 1 ≤ 12)
    rw [daysBefore_last] at hlast
    simp only [monthAndDay]
    omega
  | succ k ih =>
    rw [monthAndDay]
    split_ifs with hlt
    · simp only
      omega
    · have hnext := daysBefore_succ year h
      have hih := ih (month + 1) (d - daysIn month year) (by omega) (by omega) (by omega)
      rw [hnext] at hih
      refine ⟨hih.1, hih.2.1, hih.2.2.1, hih.2.2.2.1, ?_⟩
      omega

/-- The date that is found for a day exists, and has the number of the day. -/
theorem dateOfDay_spec (n : Int) :
    1 ≤ (dateOfDay n).2.1 ∧ (dateOfDay n).2.1 ≤ 12 ∧ 1 ≤ (dateOfDay n).2.2 ∧
      (dateOfDay n).2.2 ≤ monthLength (dateOfDay n).1 (dateOfDay n).2.1 ∧
      dayNumberOf (dateOfDay n).1 (dateOfDay n).2.1 (dateOfDay n).2.2 = n := by
  obtain ⟨d, hd⟩ : ∃ d, d = (n % 146097).toNat := ⟨_, rfl⟩
  obtain ⟨hyear, hday, hsum⟩ := yearOfCycle_spec (d := d) (by omega)
  obtain ⟨hm1, hm12, hd1, hdays, hmonth⟩ := monthAndDay_spec ((yearOfCycle d).1 + 1) 11 1
    (yearOfCycle d).2 (by decide) rfl (by rw [show daysBefore 1 _ = 0 from rfl]; omega)
  have hcycle : ((400 * (n / 146097) + (yearOfCycle d).1 + 1 : Int) - 1) % 400 = (yearOfCycle d).1 := by omega
  have hbefore : daysBefore 1 ((yearOfCycle d).1 + 1) = 0 := rfl
  have heq : dateOfDay n = (400 * (n / 146097) + (yearOfCycle d).1 + 1,
      monthAndDay ((yearOfCycle d).1 + 1) 11 1 (yearOfCycle d).2) := by
    simp only [dateOfDay, ← hd]
  rw [heq]
  refine ⟨hm1, hm12, hd1, ?_, ?_⟩
  · rw [monthLength, hcycle]
    exact hdays
  · rw [dayNumberOf, hcycle, dayNumber, Int.toNat_natCast]
    have hcycles : (400 * (n / 146097) + (yearOfCycle d).1 + 1 - 1 : Int) / 400 = n / 146097 := by omega
    rw [hbefore] at hmonth
    push_cast
    rw [hcycles, add_sub_cancel_right]
    omega

/-- The number of the first day of a year. -/
def yearStart (year : Int) : Int :=
  365 * (year - 1) + (year - 1) / 4 - (year - 1) / 100 + (year - 1) / 400

theorem dayNumberOf_eq (year : Int) (month day : Nat) :
    dayNumberOf year month day = yearStart year + daysBefore month (((year - 1) % 400).toNat + 1) + (day - 1) := by
  rw [dayNumberOf, dayNumber, yearStart]
  push_cast
  omega

theorem yearStart_succ (year : Int) :
    yearStart (year + 1) = yearStart year + yearLength (((year - 1) % 400).toNat + 1) := by
  rw [yearStart, yearStart, yearLength]
  split_ifs with h
  · rw [isLeap_iff] at h
    omega
  · rw [isLeap_iff] at h
    omega

theorem yearStart_mono {y y' : Int} (h : y ≤ y') : yearStart y ≤ yearStart y' := by
  rw [yearStart, yearStart]
  omega

/-- Two dates that exist are the same if they have the same number. -/
theorem date_unique {y y' : Int} {m m' d d' : Nat} (hm : 1 ≤ m) (hm12 : m ≤ 12) (hd : 1 ≤ d)
    (hdays : d ≤ monthLength y m) (hm' : 1 ≤ m') (hm12' : m' ≤ 12) (hd' : 1 ≤ d')
    (hdays' : d' ≤ monthLength y' m') (h : dayNumberOf y m d = dayNumberOf y' m' d') :
    y = y' ∧ m = m' ∧ d = d' := by
  have hin : ∀ {y : Int} {m d : Nat}, 1 ≤ m → m ≤ 12 → d ≤ monthLength y m →
      daysBefore m (((y - 1) % 400).toNat + 1) + d ≤ yearLength (((y - 1) % 400).toNat + 1) := by
    intro y m d hm hm12 hdays
    have hsucc := daysBefore_succ (((y - 1) % 400).toNat + 1) hm
    have hmono := daysBefore_mono (((y - 1) % 400).toNat + 1) (by omega : 1 ≤ m + 1) (by omega : m + 1 ≤ 13)
    rw [daysBefore_last, hsucc] at hmono
    exact (Nat.add_le_add_left hdays _).trans hmono
  have hyear : y = y' := by
    have hlt := hin hm hm12 hdays
    have hlt' := hin hm' hm12' hdays'
    have hnext := yearStart_succ y
    have hnext' := yearStart_succ y'
    rw [dayNumberOf_eq, dayNumberOf_eq] at h
    rcases lt_trichotomy y y' with hy | hy | hy
    · have hmono := yearStart_mono (by omega : y + 1 ≤ y')
      omega
    · exact hy
    · have hmono := yearStart_mono (by omega : y' + 1 ≤ y)
      omega
  subst hyear
  -- within the year, a later month begins after the last day of an earlier one
  have hbefore : ∀ {m m' d d' : Nat}, 1 ≤ m → d ≤ monthLength y m → 1 ≤ d' →
      daysBefore m (((y - 1) % 400).toNat + 1) + d = daysBefore m' (((y - 1) % 400).toNat + 1) + d' → ¬m < m' := by
    intro m m' d d' hm hdays hd' heq hlt
    have hsucc := daysBefore_succ (((y - 1) % 400).toNat + 1) hm
    have hmono := daysBefore_mono (((y - 1) % 400).toNat + 1) (by omega : 1 ≤ m + 1) hlt
    rw [hsucc] at hmono
    rw [monthLength] at hdays
    omega
  have hsum : daysBefore m (((y - 1) % 400).toNat + 1) + d = daysBefore m' (((y - 1) % 400).toNat + 1) + d' := by
    rw [dayNumberOf_eq, dayNumberOf_eq] at h
    omega
  have hmonth : m = m' := by
    have h1 := hbefore hm hdays hd' hsum
    have h2 := hbefore hm' hdays' hd hsum.symm
    omega
  subst hmonth
  exact ⟨rfl, rfl, by omega⟩

/-- The date of a day is the date that has its number. -/
theorem dateOfDay_dayNumberOf {year : Int} {month day : Nat} (hm : 1 ≤ month) (hm12 : month ≤ 12) (hd : 1 ≤ day)
    (hdays : day ≤ monthLength year month) : dateOfDay (dayNumberOf year month day) = (year, month, day) := by
  obtain ⟨hm', hm12', hd', hdays', hn⟩ := dateOfDay_spec (dayNumberOf year month day)
  obtain ⟨hy, hmonth, hday⟩ := date_unique hm' hm12' hd' hdays' hm hm12 hd hdays hn
  exact Prod.ext hy (Prod.ext hmonth hday)

/-- What the clock shows is a date that exists and a time of day. -/
structure Civil.Valid (c : Civil) : Prop where
  one_le_month : 1 ≤ c.month
  month_le : c.month ≤ 12
  one_le_day : 1 ≤ c.day
  day_le : c.day ≤ monthLength c.year c.month
  hour_lt : c.hour < 24
  min_lt : c.min < 60
  sec_lt : c.sec < 60
  nsec_lt : c.nsec < 10 ^ 9

theorem civil_valid (w : Int) : (civil w).Valid := by
  obtain ⟨hm, hm', hd, hd', -⟩ := dateOfDay_spec (w / second / 86400)
  have hrest : (w / second % 86400).toNat < 86400 := by omega
  refine ⟨hm, hm', hd, hd', ?_, ?_, ?_, ?_⟩
  · simp only [civil]
    omega
  · simp only [civil]
    omega
  · simp only [civil]
    omega
  · simp only [civil, second]
    omega

/-- The seconds of what the clock shows. -/
theorem seconds_civil (w : Int) :
    ((dayNumberOf (civil w).year (civil w).month (civil w).day * 24 + (civil w).hour) * 60 + (civil w).min) *
      60 + (civil w).sec = w / second := by
  obtain ⟨-, -, -, -, hn⟩ := dateOfDay_spec (w / second / 86400)
  simp only [civil]
  rw [hn]
  omega

/-- The clock is set to what it shows, up to the nanosecond `k` of the second. -/
theorem clock_civil {w : Int} (h : 0 ≤ (civil w).year) (k : Nat) :
    clock (civil w).year.toNat (civil w).month (civil w).day (civil w).hour (civil w).min (civil w).sec k =
      w / second * second + k := by
  rw [clock, ← seconds_civil, ← dayNumberOf_natCast, Int.toNat_of_nonneg h]

/-! ## Digits -/

theorem length_fixedDigits (width n : Nat) : (fixedDigits width n).length = width := by
  induction width generalizing n with
  | zero => rfl
  | succ width ih => rw [fixedDigits, List.length_append, ih, List.length_singleton]

theorem fixedDigits_lt (width n : Nat) : ∀ d ∈ fixedDigits width n, d < 10 := by
  induction width generalizing n with
  | zero => simp [fixedDigits]
  | succ width ih =>
    intro d hd
    rw [fixedDigits, List.mem_append, List.mem_singleton] at hd
    rcases hd with hd | rfl
    · exact ih _ d hd
    · omega

theorem decimal_fixedDigits (width n : Nat) : decimal (fixedDigits width n) = n % 10 ^ width := by
  induction width generalizing n with
  | zero => simp [fixedDigits, decimal, Nat.mod_one]
  | succ width ih =>
    have hone : decimal [n % 10] = n % 10 := by simp [decimal]
    rw [fixedDigits, decimal_append, ih, hone, List.length_singleton, pow_one, pow_succ', Nat.mod_mul]
    ring

/-- The digits in front are those of the quotient. -/
theorem fixedDigits_add (width k n : Nat) :
    fixedDigits (width + k) n = fixedDigits width (n / 10 ^ k) ++ fixedDigits k n := by
  induction k generalizing n with
  | zero => simp [fixedDigits]
  | succ k ih =>
    rw [← Nat.add_assoc, fixedDigits, ih, fixedDigits, Nat.div_div_eq_div_mul, ← pow_succ', List.append_assoc]

theorem take_fixedDigits (width k n : Nat) :
    (fixedDigits (width + k) n).take width = fixedDigits width (n / 10 ^ k) := by
  rw [fixedDigits_add, List.take_left' (length_fixedDigits _ _)]

theorem appendInt_of_lt {width : Nat} (h : n < 10 ^ width) :
    appendInt n width = (fixedDigits width n).map digit := by
  have hneg : ¬((n : Int) < 0) := by omega
  simp only [appendInt, Int.natAbs_natCast, if_pos h, if_neg hneg, List.nil_append]

theorem appendInt_two (h : n < 100) : appendInt n 2 = twoDigits n := by
  rw [appendInt_of_lt h]
  have htens : n / 10 % 10 = n / 10 := by omega
  simp [fixedDigits, twoDigits, htens]

theorem appendInt_four (h : n < 10000) : appendInt n 4 = fourDigits n := by
  rw [appendInt_of_lt h]
  have h1 : n / 10 / 10 / 10 % 10 = n / 100 / 10 := by omega
  have h2 : n / 10 / 10 % 10 = n / 100 % 10 := by omega
  have h3 : n / 10 % 10 = n % 100 / 10 := by omega
  have h4 : n % 10 = n % 100 % 10 := by omega
  simp only [fixedDigits, fourDigits, twoDigits, List.nil_append, List.cons_append, List.map_cons, List.map_nil,
    h1, h2, h3, ← h4]

end OwnX.GoTime
