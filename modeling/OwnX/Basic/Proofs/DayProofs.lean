import OwnX.Basic.Day
import OwnX.Basic.Proofs.TimeTextProofs

/-!
# Proofs: days and their texts

A day is a number of midnights. What is written of it is the date that has this number.
-/

namespace OwnX.Basic

open GoTime

variable {zone : LocalZone} {s : Stamp} {t t₀ : GoTime} {year : Int} {month day : Nat}

/-! ## Midnights -/

/-- The midnight at the beginning of the day with the number `n`. -/
def midnight (zone : LocalZone) (n : Int) (loc : Location) : GoTime := date zone (n * 86400 * second) loc

/-- What the clock shows at midnight. -/
def atMidnight (year : Int) (month day : Nat) : Civil where
  year := year
  month := month
  day := day
  hour := 0
  min := 0
  sec := 0
  nsec := 0

theorem midnight_loc (n : Int) (loc : Location) : (midnight zone n loc).loc = loc := by
  cases loc <;> rfl

theorem shown_midnight (hz : MidnightsShown zone) (n : Int) (loc : Location) :
    (midnight zone n loc).shown zone = atMidnight (dateOfDay n).1 (dateOfDay n).2.1 (dateOfDay n).2.2 := by
  have hwall : (midnight zone n loc).wall zone = n * 86400 * second := by
    cases loc with
    | utc => simp [midnight, date, wall, offsetAt]
    | localZone => exact hz n
    | fixed offset => simp [midnight, date, wall, offsetAt]
  have hseconds : n * 86400 * second / second = n * 86400 := Int.mul_ediv_cancel _ (by decide)
  have hdays : n * 86400 / 86400 = n := Int.mul_ediv_cancel _ (by decide)
  have hrest : n * 86400 % 86400 = 0 := Int.mul_emod_left _ _
  have hnsec : n * 86400 * second % second = 0 := Int.mul_emod_left _ _
  rw [shown, hwall, civil, hseconds, hdays, hrest, hnsec]
  rfl

theorem dayNumberOf_add (year : Int) (month day : Nat) :
    dayNumberOf year month day = dayNumberOf year month 1 + (day - 1) := by
  rw [dayNumberOf_eq, dayNumberOf_eq]
  omega

theorem dateAt_eq (hm : 1 ≤ month) (hm12 : month ≤ 12) (day : Int) (loc : Location) :
    dateAt zone year month day 0 loc = midnight zone (dayNumberOf year month 1 + (day - 1)) loc := by
  have hcarry : ((month : Int) - 1) / 12 = 0 := by omega
  have hmonth : (((month : Int) - 1) % 12).toNat + 1 = month := by omega
  rw [dateAt, hcarry, hmonth, add_zero, add_zero, midnight]

theorem dateAt_date (hm : 1 ≤ month) (hm12 : month ≤ 12) (day : Nat) (loc : Location) :
    dateAt zone year month day 0 loc = midnight zone (dayNumberOf year month day) loc := by
  rw [dateAt_eq hm hm12, ← dayNumberOf_add]

/-- `AddDate` at a midnight. -/
theorem addDate_midnight (hz : MidnightsShown zone) (n : Int) (loc : Location) (months days : Int) :
    (midnight zone n loc).addDate zone 0 months days =
      dateAt zone (dateOfDay n).1 ((dateOfDay n).2.1 + months) ((dateOfDay n).2.2 + days) 0 loc := by
  rw [addDate, shown_midnight hz, midnight_loc]
  simp [atMidnight]

/-! ## The first and the last day of a month -/

/-- The first day of the next month is the day after the last day of the month. -/
theorem dateAt_nextMonth (hm : 1 ≤ month) (hm12 : month ≤ 12) (loc : Location) :
    dateAt zone year (month + 1) 1 0 loc =
      midnight zone (dayNumberOf year month (monthLength year month) + 1) loc := by
  have hsucc := daysBefore_succ (((year - 1) % 400).toNat + 1) hm
  rcases Nat.lt_or_ge month 12 with hlt | hge
  · have hcast : (month : Int) + 1 = ((month + 1 : Nat) : Int) := by push_cast; rfl
    rw [hcast, dateAt_eq (by omega) (by omega), dayNumberOf_eq, dayNumberOf_eq, hsucc, monthLength]
    congr 1
    push_cast
    omega
  · -- the month after December is January of the next year
    obtain rfl : month = 12 := by omega
    have hcarry : ((12 : Nat) : Int) + 1 - 1 = 12 := rfl
    have hnext := yearStart_succ year
    rw [daysBefore_last] at hsucc
    rw [dateAt, hcarry, midnight, dayNumberOf_eq, dayNumberOf_eq, monthLength]
    have hfirst : daysBefore ((12 % 12 : Int).toNat + 1) (((year + 12 / 12 - 1) % 400).toNat + 1) = 0 := rfl
    have hyear : year + 12 / 12 = year + 1 := rfl
    rw [hfirst, hyear, add_zero]
    congr 3
    push_cast
    omega

/-- `FirstDayInMonth` and `LastDayInMonth` are midnights of the month that the clock shows for the day: that of
the first day, and that of the last day it has in this year. -/
theorem days_in_month (hz : MidnightsShown zone) (t : Day) :
    (t.firstDayInMonth zone).shown zone =
        atMidnight ((t.time zone).shown zone).year ((t.time zone).shown zone).month 1 ∧
      (t.lastDayInMonth zone).shown zone =
        atMidnight ((t.time zone).shown zone).year ((t.time zone).shown zone).month
          (monthLength ((t.time zone).shown zone).year ((t.time zone).shown zone).month) := by
  have hc := civil_valid ((t.time zone).wall zone)
  set c := (t.time zone).shown zone with hshown
  have hvalid : c.Valid := hc
  have hone : 1 ≤ monthLength c.year c.month := hvalid.one_le_day.trans hvalid.day_le
  have hfirst : t.dayInMonth zone 1 = midnight zone (dayNumberOf c.year c.month 1) (t.time zone).loc :=
    dateAt_date hvalid.one_le_month hvalid.month_le 1 _
  have hdate := dateOfDay_dayNumberOf hvalid.one_le_month hvalid.month_le (Nat.le_refl 1) hone
  have hlast := dateOfDay_dayNumberOf hvalid.one_le_month hvalid.month_le hone (Nat.le_refl _)
  refine ⟨?_, ?_⟩
  · rw [Day.firstDayInMonth, hfirst, shown_midnight hz, hdate]
  · -- one month on, and one day back
    have hnext : (t.dayInMonth zone 1).addDate zone 0 1 0 =
        midnight zone (dayNumberOf c.year c.month (monthLength c.year c.month) + 1) (t.time zone).loc := by
      rw [hfirst, addDate_midnight hz, hdate]
      exact dateAt_nextMonth hvalid.one_le_month hvalid.month_le _
    obtain ⟨hm, hm12, hd, hd', hn⟩ :=
      dateOfDay_spec (dayNumberOf c.year c.month (monthLength c.year c.month) + 1)
    have hback : (t.lastDayInMonth zone) =
        midnight zone (dayNumberOf c.year c.month (monthLength c.year c.month)) (t.time zone).loc := by
      rw [Day.lastDayInMonth, hnext, addDate_midnight hz, add_zero, dateAt_eq hm hm12]
      rw [dayNumberOf_add] at hn
      congr 1
      omega
    rw [hback, shown_midnight hz, hlast]

theorem eastEight_midnightsShown : MidnightsShown Stamp.eastEight := by
  intro n
  show n * 86400 * second - 28800 * second + 28800 * second = n * 86400 * second
  ring

/-- A day of February 2024, which has 29 days. -/
theorem days_in_month_february :
    (Day.lastDayInMonth Stamp.eastEight ⟨clock 2024 2 14 9 0 0 0, .utc⟩).shown Stamp.eastEight =
      atMidnight 2024 2 29 := by
  rw [(days_in_month eastEight_midnightsShown _).2]
  decide

/-! ## Texts -/

theorem chunks_day :
    chunks (ascii "\"" ++ dayFormart ++ ascii "\"") = Stamp.dateChunks ++ [.lit 34] ∧
      chunks dayFormart = Stamp.dateChunks.tail ∧ pieces dayFormart = datePieces := by
  decide

/-- The midnight at the beginning of the date. -/
theorem parse_day {layout value : Text}
    (h : parseChunks (chunks layout) value {} = some { year := s.year, month := s.month, day := s.day }) :
    parseInLocation zone layout value .localZone =
      some (midnight zone (dayNumberOf (s.year : Nat) s.month s.day) .localZone) := by
  have hday := s.one_le_day
  have hdays := s.day_le
  have hclock : clock s.year s.month s.day 0 0 0 0 = dayNumberOf (s.year : Nat) s.month s.day * 86400 * second := by
    rw [clock, dayNumberOf_natCast]
    push_cast
    ring
  rw [parseInLocation, h, Option.bind_some, if_neg]
  · rw [midnight, ← hclock]
    rfl
  · rintro (hlt | hlt)
    · exact absurd hlt (Nat.not_lt.2 hday)
    · exact absurd hlt (Nat.not_lt.2 hdays)

theorem Day.unmarshal_date (s : Stamp) (t₀ : Day) :
    Day.unmarshalJSON zone t₀ (ascii "\"" ++ s.date ++ ascii "\"") =
      (.noError, midnight zone (dayNumberOf (s.year : Nat) s.month s.day) .localZone) := by
  have hlong : (ascii "\"" ++ s.date ++ ascii "\"").length = 12 := by
    rw [List.length_append, List.length_append, s.length_date, quote_eq]
    rfl
  rw [Day.unmarshalJSON, if_neg, parse_day (s := s)]
  · rw [chunks_day.1, Stamp.parse_date, quote_eq, parseChunks_cons (parseChunk_lit (by decide))]
    rfl
  · rintro (h | h)
    · rw [h] at hlong
      exact absurd hlong (by decide)
    · rw [h] at hlong
      exact absurd hlong (by decide)

/-- What stands behind the date in a column does not count. -/
theorem Day.scan_date (s : Stamp) (t₀ : Day) (v : Text) :
    Day.scan zone t₀ (.bytes (s.date ++ v)) =
      some (.noError, midnight zone (dayNumberOf (s.year : Nat) s.month s.day) .localZone) := by
  have hlength : 10 ≤ (s.date ++ v).length := by
    rw [List.length_append, s.length_date]
    omega
  have htake : (if 10 < (s.date ++ v).length then (s.date ++ v).take 10 else s.date ++ v) = s.date := by
    split_ifs with h
    · exact List.take_left' s.length_date
    · have hnil : v = [] := by
        rw [List.length_append, s.length_date] at h
        exact List.length_eq_zero_iff.1 (by omega)
      rw [hnil, List.append_nil]
  have hparse : parseInLocation zone dayFormart s.date .localZone =
      some (midnight zone (dayNumberOf (s.year : Nat) s.month s.day) .localZone) := by
    apply parse_day
    have h := s.parse_date_unquoted [] [] {}
    rw [List.append_nil, List.append_nil] at h
    rw [chunks_day.2.1, h]
    rfl
  rw [Day.scan, if_neg]
  · simp only [htake, hparse]
  · rintro (h | h | h | h)
    · rw [h] at hlength
      exact absurd hlength (by decide)
    · rw [h] at hlength
      exact absurd hlength (by decide)
    · exact s.date_append_ne v (by decide) h
    · exact s.date_append_ne v (by decide) h

/-- The midnight of a day whose date a timestamp has. -/
theorem Day.time_of_shows (hs : s.Shows (t.shown zone)) (hzero : t.isZero = false) :
    Day.time zone t = midnight zone (dayNumberOf (s.year : Nat) s.month s.day) .localZone := by
  have hvalid := civil_valid (t.wall zone)
  have hnot : ¬(GoTime.isZero t = true) := by simp [hzero]
  rw [Day.time, if_neg hnot, hs.year, hs.month, hs.day]
  exact dateAt_date hvalid.one_le_month hvalid.month_le _ _

/-- The text of a day is the date that the clock shows. -/
theorem Day.format_time (hz : MidnightsShown zone) (hs : s.Shows (t.shown zone)) (hzero : t.isZero = false) :
    (Day.time zone t).format zone dayFormart = s.date := by
  have hdate : dateOfDay (dayNumberOf (s.year : Nat) s.month s.day) = (((s.year : Nat) : Int), s.month, s.day) := by
    refine dateOfDay_dayNumberOf s.one_le_month s.month_le s.one_le_day ?_
    have hcongr : monthLength (s.year : Nat) s.month = daysIn s.month s.year := daysIn_congr (by omega) _
    rw [hcongr]
    exact s.day_le
  have hshown : (Day.time zone t).shown zone = atMidnight (s.year : Nat) s.month s.day := by
    rw [Day.time_of_shows hs hzero, shown_midnight hz, hdate]
  have hpieces : datePieces.flatMap (formatPiece (atMidnight (s.year : Nat) s.month s.day)) =
      datePieces.flatMap (formatPiece (t.shown zone)) := by
    rw [hs.year, hs.month, hs.day]
    rfl
  rw [GoTime.format, hshown, chunks_day.2.2, hpieces, hs.format_date]

theorem isZero_of_time (h : Day.isZero zone t = false) : t.isZero = false := by
  cases hzero : t.isZero with
  | false => rfl
  | true =>
    rw [Day.isZero, Day.time, if_pos hzero, hzero] at h
    cases h

/-- What is written of a day, in JSON and to a column, is read back as the local midnight of its date, if the
year has four digits and every day has a midnight. Of a missing day nothing is read. -/
theorem day_round_trip {driver : Driver} (hd : driver.HandsBytes) (hz : MidnightsShown zone) (t₀ : Day)
    (hyear : t.isZero = false → 0 ≤ (t.shown zone).year ∧ (t.shown zone).year < 10000) :
    Day.unmarshalJSON zone t₀ (Day.marshalJSON zone t) =
        (.noError, if Day.isZero zone t then t₀ else Day.time zone t) ∧
      Day.scan zone t₀ (driver (Day.value zone t)) =
        some (.noError, if Day.isZero zone t then t₀ else Day.time zone t) := by
  cases hzero : Day.isZero zone t with
  | true =>
    rw [Day.marshalJSON, Day.value, if_pos hzero, if_pos hzero, hd.nil]
    exact ⟨if_pos (Or.inl rfl), rfl⟩
  | false =>
    have hnot : ¬(Day.isZero zone t = true) := by simp [hzero]
    have hzero' := isZero_of_time hzero
    obtain ⟨s, hs, -⟩ :=
      exists_shows (civil_valid (t.wall zone)) (hyear hzero').1 (hyear hzero').2 [] .blank
    have htime := Day.time_of_shows hs hzero'
    have htext := Day.format_time hz hs hzero'
    refine ⟨?_, ?_⟩
    · rw [Day.marshalJSON, if_neg hnot, htext, Day.unmarshal_date, htime]
      rfl
    · have hscan : Day.scan zone t₀ (.bytes (s.date ++ [])) = _ := Day.scan_date s t₀ []
      rw [List.append_nil] at hscan
      rw [Day.value, if_neg hnot, hd.text, Day.toText, if_neg hnot, htext, htime]
      exact hscan

/-- The clock of the location shows the 29th of February, when it is the 1st of March in the local zone. -/
theorem day_round_trip_february :
    Day.marshalJSON Stamp.eastEight ⟨clock 2024 2 29 20 0 0 0, .utc⟩ = ascii "\"2024-02-29\"" ∧
      Day.unmarshalJSON Stamp.eastEight GoTime.zero
          (Day.marshalJSON Stamp.eastEight ⟨clock 2024 2 29 20 0 0 0, .utc⟩) =
        (.noError, ⟨clock 2024 2 28 16 0 0 0, .localZone⟩) := by
  refine ⟨by decide, ?_⟩
  have hz := eastEight_midnightsShown
  rw [(day_round_trip textColumn_handsBytes hz GoTime.zero fun _ => ⟨by decide, by decide⟩).1]
  decide

/-- A column that a `Time` was written to is read as the day of that time. -/
theorem day_of_time_column {driver : Driver} (hd : driver.HandsBytes) (t₀ : Day)
    (hzero : t.isZero = false) (hyear : 0 ≤ (t.shown zone).year) (hyear' : (t.shown zone).year < 10000) :
    Day.scan zone t₀ (driver (Time.value zone t)) = some (.noError, Day.time zone t) := by
  obtain ⟨s, hs, -⟩ := exists_shows (civil_valid (t.wall zone)) hyear hyear' [] .blank
  have hnot : ¬(GoTime.isZero t = true) := by simp [hzero]
  have hdate : datePieces.flatMap (formatPiece (t.shown zone)) = s.date := hs.format_date
  rw [Time.value, if_neg hnot, hd.text, Time.string, string, if_neg hnot, GoTime.format, pieces_timeFormart,
    List.flatMap_append, hdate, Day.time_of_shows hs hzero]
  exact Day.scan_date s t₀ _

theorem day_of_time_column_leapNight :
    Time.value Stamp.eastEight leapNight = .string (ascii "2024-02-29 23:59:59") ∧
      Day.scan Stamp.eastEight GoTime.zero (textColumn (Time.value Stamp.eastEight leapNight)) =
        some (.noError, Day.time Stamp.eastEight leapNight) :=
  ⟨by decide, day_of_time_column textColumn_handsBytes GoTime.zero (by decide) (by decide) (by decide)⟩

end OwnX.Basic
