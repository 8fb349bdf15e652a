import OwnX.Basic.TimeText
import OwnX.Basic.Proofs.TimeProofs
import OwnX.Foundations.Proofs.CalendarProofs

/-!
# Proofs: times are read back from their texts

What the clock shows of a time is a timestamp without an offset. It is written along the layout of the type,
and read as a time of the local zone.
-/

namespace OwnX.Basic

open Pattern GoTime

variable {zone : LocalZone} {s : Stamp} {t t₀ : GoTime} {c : Civil} {str pre v ds : Text} {cs : List Chunk}

/-! ## What the clock shows -/

/-- The timestamp has the date and the time of day. -/
structure Stamp.Shows (s : Stamp) (c : Civil) : Prop where
  year : ((s.year : Nat) : Int) = c.year
  month : s.month = c.month
  day : s.day = c.day
  hour : (s.hour : Nat) = c.hour
  minute : (s.minute : Nat) = c.min
  second : (s.second : Nat) = c.sec

theorem exists_shows (h : c.Valid) (hyear : 0 ≤ c.year) (hyear' : c.year < 10000) (fraction : List (Fin 10))
    (separator : Separator) :
    ∃ s : Stamp, s.Shows c ∧ s.fraction = fraction ∧ s.separator = separator ∧ s.offset = .z := by
  have hdays : monthLength c.year c.month = daysIn c.month c.year.toNat := daysIn_congr (by omega) _
  have hlt : c.year.toNat < 10000 := by omega
  have hday : c.day ≤ daysIn c.month c.year.toNat := hdays ▸ h.day_le
  refine ⟨
    { year := ⟨c.year.toNat, hlt⟩
      month := c.month
      day := c.day
      hour := ⟨c.hour, h.hour_lt⟩
      minute := ⟨c.min, h.min_lt⟩
      second := ⟨c.sec, h.sec_lt⟩
      fraction := fraction
      separator := separator
      offset := .z
      one_le_month := h.one_le_month
      month_le := h.month_le
      one_le_day := h.one_le_day
      day_le := hday },
    ⟨Int.toNat_of_nonneg hyear, rfl, rfl, rfl, rfl, rfl⟩, rfl, rfl, rfl⟩

/-- The pieces of a date. -/
def datePieces : List Piece := [.longYear, .lit 45, .zeroMonth, .lit 45, .zeroDay]

/-- The pieces of a time of day. -/
def timePieces : List Piece := [.hour, .lit 58, .zeroMinute, .lit 58, .zeroSecond]

theorem Stamp.Shows.format_date (h : s.Shows c) : datePieces.flatMap (formatPiece c) = s.date := by
  have hmonth := s.month_le
  have hday := s.day_lt
  simp only [datePieces, List.flatMap_cons, List.flatMap_nil, formatPiece, ← h.year, ← h.month, ← h.day,
    appendInt_four s.year.isLt, appendInt_two (by omega : s.month < 100), appendInt_two hday, Stamp.date, minus_eq,
    List.append_assoc, List.append_nil]

theorem Stamp.Shows.format_timeOfDay (h : s.Shows c) : timePieces.flatMap (formatPiece c) = s.timeOfDay := by
  have hhour := s.hour.isLt
  have hminute := s.minute.isLt
  have hsecond := s.second.isLt
  simp only [timePieces, List.flatMap_cons, List.flatMap_nil, formatPiece, ← h.hour, ← h.minute, ← h.second,
    appendInt_two (by omega : (s.hour : Nat) < 100), appendInt_two (by omega : (s.minute : Nat) < 100),
    appendInt_two (by omega : (s.second : Nat) < 100), Stamp.timeOfDay, hourMinute, colon_eq, List.append_assoc,
    List.append_nil]

theorem pieces_timeFormart : pieces timeFormart = datePieces ++ .lit 32 :: timePieces := by decide

theorem pieces_timeFormartMs :
    pieces (timeFormart ++ ascii ".000") = datePieces ++ .lit 32 :: timePieces ++ [.fracSecond0] := by decide

theorem pieces_utc :
    pieces (ascii "2006-01-02T15:04:05Z") = datePieces ++ .lit 84 :: timePieces ++ [.lit 90] := by decide

/-! ## A timestamp without an offset -/

namespace Stamp

/-- The timestamp without the offset and the quotation marks. -/
def localText (s : Stamp) : Text := s.date ++ s.separator.letter :: s.timeOfDay ++ s.fractionText

theorem parse_date_unquoted (s : Stamp) (cs : List Chunk) (v : Text) (f : Fields) :
    parseChunks (dateChunks.tail ++ cs) (s.date ++ v) f =
      parseChunks cs v { f with year := s.year, month := s.month, day := s.day } := by
  rw [← parse_date, dateChunks, quote_eq, List.append_assoc, List.singleton_append, List.cons_append,
    parseChunks_cons (parseChunk_lit (by decide))]
  rfl

/-- The layout of a date and a time of day up to the seconds. -/
def localChunks (sep : Separator) : List Chunk := dateChunks.tail ++ .lit sep.letter :: timeChunks

theorem parse_localHead (h : s.separator ≠ .lowerT) (cs : List Chunk) (v : Text) :
    parseChunks (localChunks s.separator ++ cs) (s.localText ++ v) {} =
      parseChunks cs (twoDigits s.second ++ (s.fractionText ++ v)) { s.fields with sec := 0, nsec := 0 } := by
  have htext : s.localText ++ v = s.date ++ (s.separator.letter :: (hourMinute s.hour s.minute ++
      (ascii ":" ++ (twoDigits s.second ++ (s.fractionText ++ v))))) := by
    simp only [localText, timeOfDay, List.append_assoc, List.cons_append]
  rw [htext, localChunks, List.append_assoc, parse_date_unquoted, List.cons_append, parse_separator h,
    ← List.append_assoc (hourMinute _ _), parse_hourMinute]
  rfl

/-- The fraction is read, if the layout has one or not. -/
theorem parse_local (h : s.separator ≠ .lowerT) (hv : EndsSeconds v)
    (hcs : nextStdChunk cs ≠ some .fracSecond9) :
    parseChunks (localChunks s.separator ++ .zeroSecond :: cs) (s.localText ++ v) {} =
      parseChunks cs v s.fields := by
  rw [parse_localHead h, parse_second s hv rfl hcs]
  rfl

theorem parse_local_fraction (h : s.separator ≠ .lowerT) (hv : EndsSeconds v) :
    parseChunks (localChunks s.separator ++ .zeroSecond :: .fracSecond9 :: cs) (s.localText ++ v) {} =
      parseChunks cs v s.fields := by
  rw [parse_localHead h, parse_second_fraction s hv rfl]
  rfl

/-- The time at which the local clock shows the timestamp. -/
def localTime (zone : LocalZone) (s : Stamp) : GoTime :=
  ⟨zone.instantOf (clock s.year s.month s.day s.hour s.minute s.second s.nanoseconds), .localZone⟩

/-- The date is checked. -/
theorem parseInLocation_fields {layout value : Text} (h : parseChunks (chunks layout) value {} = some s.fields) :
    parseInLocation zone layout value .localZone = some (s.localTime zone) := by
  have hday := s.one_le_day
  have hdays := s.day_le
  rw [parseInLocation, h, Option.bind_some, if_neg]
  · rfl
  · rintro (hlt | hlt)
    · exact absurd hlt (Nat.not_lt.2 hday)
    · exact absurd hlt (Nat.not_lt.2 hdays)

/-! ## Which layout is taken -/

theorem formatOf_blank (s : Stamp) (v : Text) : formatOf (ascii "\"" ++ s.date ++ 32 :: v) = timeFormart := by
  have hT : ascii "T" = [84] := by decide
  refine if_neg fun hposition => ?_
  rw [hT] at hposition
  cases hindex : Text.index (ascii "\"" ++ s.date ++ 32 :: v) [84] with
  | none =>
    rw [hindex] at hposition
    exact absurd hposition (by decide)
  | some i =>
    rw [hindex] at hposition
    obtain rfl : i = 11 := Int.ofNat.inj hposition
    have hocc := (Text.index_eq_some hindex).1
    rw [Text.occursAt_cons, List.getElem?_append_right s.length_quoteDate.le, s.length_quoteDate] at hocc
    exact absurd (Option.some.inj hocc.1) (by decide)

end Stamp

/-- A text that ends with the seconds. -/
theorem endingOf_seconds {minute sec : Nat} (hsec : sec < 100)
    (hstr : str = pre ++ ascii ":" ++ twoDigits minute ++ ascii ":" ++ twoDigits sec ++ ascii "\"") :
    endingOf str = (ascii "", .localZone) := by
  have hdigit : digit (sec % 10) ∈ digits := digit_mem (by omega)
  have hsuffix : [digit (sec % 10), 34] <:+ str :=
    ⟨pre ++ ascii ":" ++ twoDigits minute ++ ascii ":" ++ [digit (sec / 10)], by simp [hstr, twoDigits, quote_eq]⟩
  have h1 := not_pattern1 hsuffix (ne_of_mem_digits hdigit (by decide))
  have h3 := not_pattern3 hsuffix (ne_of_mem_digits hdigit (by decide))
  have h4 := not_pattern4 hsuffix (ne_of_mem_digits hdigit (by decide))
  have h2 : matchesEnd timePattern2 str = false := by
    refine Bool.eq_false_iff.2 fun hmatch => ?_
    obtain ⟨pre', hh, mm, hhh, -, hmm, -, heq⟩ := pattern2_iff.1 hmatch
    -- the two ends are of the same length, and differ in their first letter
    have hend := suffix_unique (x := ascii ":" ++ twoDigits minute ++ ascii ":" ++ twoDigits sec ++ ascii "\"")
      ⟨pre, by simp [hstr]⟩ ⟨pre', heq.symm⟩ (by simp [twoDigits, hhh, hmm, plus_eq, colon_eq, quote_eq])
    have hfirst := congrArg List.head? hend
    simp [plus_eq, colon_eq] at hfirst
  have h5 : matchesEnd timePattern5 str = false := by
    refine Bool.eq_false_iff.2 fun hmatch => ?_
    obtain ⟨pre', ds, ⟨-, hds⟩, heq⟩ := pattern5_iff.1 hmatch
    have hsplit : (pre ++ ascii ":" ++ twoDigits minute ++ 58 :: twoDigits sec) ++ ascii "\"" =
        (pre' ++ 46 :: ds) ++ ascii "\"" := by
      rw [hstr] at heq
      simpa [colon_eq, dot_eq] using heq
    replace hsplit := List.append_cancel_right hsplit
    exact absurd (eq_of_digits_behind hsplit (twoDigits_mem hsec) hds (by decide) (by decide)) (by decide)
  simp [endingOf, h1, h2, h3, h4, h5]

/-- A text that ends with a fraction of a second. -/
theorem endingOf_fraction_local (hne : ds ≠ []) (hds : ∀ d ∈ ds, d ∈ digits)
    (hstr : str = pre ++ ascii "." ++ ds ++ ascii "\"") : endingOf str = (ascii ".999999999", .localZone) := by
  obtain ⟨ds', d, hlast⟩ := (List.eq_nil_or_concat ds).resolve_left hne
  have hdigit : d ∈ digits := hds d (by simp [hlast])
  have hsuffix : [d, 34] <:+ str := ⟨pre ++ ascii "." ++ ds', by simp [hstr, hlast, quote_eq]⟩
  have h1 := not_pattern1 hsuffix (ne_of_mem_digits hdigit (by decide))
  have h3 := not_pattern3 hsuffix (ne_of_mem_digits hdigit (by decide))
  have h4 := not_pattern4 hsuffix (ne_of_mem_digits hdigit (by decide))
  have h2 : matchesEnd timePattern2 str = false := by
    refine Bool.eq_false_iff.2 fun hmatch => ?_
    obtain ⟨pre', hh, mm, -, -, -, hmm, heq⟩ := pattern2_iff.1 hmatch
    have hsplit : (pre ++ 46 :: ds) ++ ascii "\"" = (pre' ++ ascii "+" ++ hh ++ 58 :: mm) ++ ascii "\"" := by
      rw [hstr] at heq
      simpa [colon_eq, dot_eq] using heq
    replace hsplit := List.append_cancel_right hsplit
    exact absurd (eq_of_digits_behind hsplit hds hmm (by decide) (by decide)) (by decide)
  have h5 : matchesEnd timePattern5 str = true :=
    pattern5_iff.2 ⟨pre, ds, ⟨hne, hds⟩, by simp only [hstr, List.append_assoc]⟩
  simp [endingOf, h1, h2, h3, h4, h5]

/-! ## Reading -/

namespace Stamp

theorem endsSeconds_nil : EndsSeconds [] := by
  intro b hb
  cases hb

theorem endsSeconds_quote : EndsSeconds [34] := by
  intro b hb
  obtain rfl : b = 34 := (Option.some.inj hb).symm
  decide

theorem length_localText (s : Stamp) : 10 < s.localText.length := by
  have hdate := s.length_date
  simp only [localText, List.length_append, List.length_cons]
  omega

/-- How the text ends decides which layout it is read along. -/
theorem endingOf_localText (s : Stamp) :
    endingOf (ascii "\"" ++ s.localText ++ ascii "\"") =
      (if s.fraction = [] then ascii "" else ascii ".999999999", .localZone) := by
  by_cases hfraction : s.fraction = []
  · have hnone : s.fractionText = [] := if_pos hfraction
    have htext : ascii "\"" ++ s.localText ++ ascii "\"" =
        (ascii "\"" ++ s.date ++ s.separator.letter :: twoDigits s.hour) ++ ascii ":" ++ twoDigits s.minute ++
          ascii ":" ++ twoDigits s.second ++ ascii "\"" := by
      simp only [localText, timeOfDay, hourMinute, hnone, List.append_assoc, List.append_nil, List.cons_append]
    rw [if_pos hfraction, endingOf_seconds (by omega) htext]
  · have hsome : s.fractionText = ascii "." ++ (s.fraction.map Fin.val).map digit := if_neg hfraction
    have hdigits : ∀ b ∈ (s.fraction.map Fin.val).map digit, b ∈ digits := by
      intro b hb
      obtain ⟨d, hd, rfl⟩ := List.mem_map.1 hb
      exact digit_mem (s.fraction_lt d hd)
    have htext : ascii "\"" ++ s.localText ++ ascii "\"" =
        (ascii "\"" ++ s.date ++ s.separator.letter :: s.timeOfDay) ++
          ascii "." ++ (s.fraction.map Fin.val).map digit ++ ascii "\"" := by
      simp only [localText, hsome, List.append_assoc, List.cons_append]
    rw [if_neg hfraction, endingOf_fraction_local (by simpa using hfraction) hdigits htext]

theorem chunks_local :
    chunks (ascii "\"" ++ (timeFormart ++ ascii "") ++ ascii "\"") =
        .lit 34 :: (localChunks .blank ++ [.zeroSecond, .lit 34]) ∧
      chunks (ascii "\"" ++ (timeFormart ++ ascii ".999999999") ++ ascii "\"") =
        .lit 34 :: (localChunks .blank ++ [.zeroSecond, .fracSecond9, .lit 34]) ∧
      chunks timeFormart = localChunks .blank ++ [.zeroSecond] := by
  decide

/-- A text without an offset is a time of the local zone. -/
theorem unmarshal_localText (hsep : s.separator = .blank) :
    unmarshalJSONToJson zone (ascii "\"" ++ s.localText ++ ascii "\"") = some (s.localTime zone) := by
  have hlength := s.length_localText
  have hlong : 12 < (ascii "\"" ++ s.localText ++ ascii "\"").length := by
    simp only [List.length_append, quote_eq, List.length_singleton]
    omega
  have hformat : formatOf (ascii "\"" ++ s.localText ++ ascii "\"") = timeFormart := by
    rw [← formatOf_blank s (s.timeOfDay ++ s.fractionText ++ ascii "\"")]
    simp only [localText, hsep, Separator.letter, List.append_assoc, List.cons_append]
  have hlower : s.separator ≠ .lowerT := by simp [hsep]
  have htext : ascii "\"" ++ s.localText ++ ascii "\"" = 34 :: (s.localText ++ [34]) := by
    rw [quote_eq]
    rfl
  rw [unmarshalJSONToJson, if_neg, hformat, endingOf_localText]
  · apply parseInLocation_fields
    rw [htext]
    by_cases hfraction : s.fraction = []
    · rw [if_pos hfraction, chunks_local.1, parseChunks_cons (parseChunk_lit (by decide)), ← hsep,
        parse_local hlower endsSeconds_quote (by decide), parseChunks_cons (parseChunk_lit (by decide))]
      rfl
    · rw [if_neg hfraction, chunks_local.2.1, parseChunks_cons (parseChunk_lit (by decide)), ← hsep,
        parse_local_fraction hlower endsSeconds_quote, parseChunks_cons (parseChunk_lit (by decide))]
      rfl
  · rintro (h | h)
    · rw [h] at hlong
      exact absurd hlong (by decide)
    · rw [h] at hlong
      exact absurd hlong (by decide)

/-- There is no month `00`. -/
theorem date_append_ne (s : Stamp) (v : Text) {x : Text} (hx : (x.drop 5).take 2 = twoDigits 0) :
    s.date ++ v ≠ x := by
  intro h
  have hmonth : ((s.date ++ v).drop 5).take 2 = twoDigits s.month := by
    have hyear : (fourDigits s.year ++ ascii "-").length = 5 := rfl
    have htwo : (twoDigits s.month).length = 2 := rfl
    rw [date]
    simp only [List.append_assoc]
    rw [← List.append_assoc (fourDigits _), List.drop_left' hyear, List.take_left' htwo]
  rw [h, hx] at hmonth
  have hmonth' := s.month_le
  have hone := s.one_le_month
  have hread := getnum_twoDigits (by omega : s.month < 100) [] true
  have hzero : getnum (twoDigits 0 ++ []) true = some (0, []) := by decide
  rw [← hmonth, hzero, Option.some.injEq, Prod.mk.injEq] at hread
  omega

/-- In a column there are no quotation marks, and the layout has no fraction. -/
theorem scanText_localText (hsep : s.separator = .blank) :
    scanText zone t₀ s.localText = (.noError, s.localTime zone) := by
  have hlength := s.length_localText
  have hlower : s.separator ≠ .lowerT := by simp [hsep]
  have hparse : parseInLocation zone timeFormart s.localText .localZone = some (s.localTime zone) := by
    apply parseInLocation_fields
    have h : parseChunks (localChunks s.separator ++ [.zeroSecond]) (s.localText ++ []) {} =
        parseChunks [] [] s.fields := parse_local hlower endsSeconds_nil (by decide)
    rw [List.append_nil, hsep] at h
    rw [chunks_local.2.2, h]
    rfl
  rw [scanText, if_neg, hparse]
  rintro (h | h | h | h)
  · rw [h] at hlength
    exact absurd hlength (by decide)
  · rw [h] at hlength
    exact absurd hlength (by decide)
  · rw [h] at hlength
    exact absurd hlength (by decide)
  · rw [localText, List.append_assoc] at h
    exact s.date_append_ne _ (by decide) h

end Stamp

/-! ## Writing -/

/-- The time is written along the layout as a timestamp that is read as the time without what is less than
`unit` nanoseconds. -/
def Writes (zone : LocalZone) (layout : Text) (unit : Int) (t : GoTime) : Prop :=
  ∃ s : Stamp, s.separator = .blank ∧ t.format zone layout = s.localText ∧ s.localTime zone = truncated unit t

theorem Legible.localTime {unit : Int} (h : Legible zone unit t) (hs : s.Shows (t.shown zone))
    (hn : t.wall zone / second * second + s.nanoseconds = t.wall zone - t.wall zone % unit) :
    s.localTime zone = truncated unit t := by
  have hyear : (s.year : Nat) = (t.shown zone).year.toNat := by
    rw [← hs.year]
    rfl
  have hclock := clock_civil h.year_nonneg s.nanoseconds
  rw [hn] at hclock
  rw [Stamp.localTime, hyear, hs.month, hs.day, hs.hour, hs.minute, hs.second, truncated, h.loc, ← h.back,
    ← hclock]
  rfl

theorem writes_seconds (h : Legible zone second t) : Writes zone timeFormart second t := by
  obtain ⟨s, hs, hfraction, hsep, -⟩ :=
    exists_shows (civil_valid (t.wall zone)) h.year_nonneg h.year_lt [] .blank
  refine ⟨s, hsep, ?_, h.localTime hs ?_⟩
  · have hnone : s.fractionText = [] := if_pos hfraction
    have hdate : datePieces.flatMap (formatPiece (t.shown zone)) = s.date := hs.format_date
    have htime : timePieces.flatMap (formatPiece (t.shown zone)) = s.timeOfDay := hs.format_timeOfDay
    rw [GoTime.format, pieces_timeFormart, List.flatMap_append, List.flatMap_cons, hdate, htime, Stamp.localText,
      hnone, hsep, List.append_nil]
    rfl
  · have hzero : s.nanoseconds = 0 := by simp [Stamp.nanoseconds, hfraction, decimal]
    rw [hzero, second]
    omega

theorem mod_ten_lt (d : Nat) : d % 10 < 10 := Nat.mod_lt d (by decide)

/-- The digits of the milliseconds. -/
def msDigits (nsec : Nat) : List (Fin 10) := (fixedDigits 3 (nsec / 10 ^ 6)).map fun d => ⟨d % 10, mod_ten_lt d⟩

theorem map_val_msDigits (nsec : Nat) : (msDigits nsec).map Fin.val = fixedDigits 3 (nsec / 10 ^ 6) := by
  rw [msDigits, List.map_map]
  refine (List.map_congr_left fun d hd => ?_).trans (List.map_id _)
  exact Nat.mod_eq_of_lt (fixedDigits_lt _ _ d hd)

theorem writes_ms (h : Legible zone (10 ^ 6) t) : Writes zone (timeFormart ++ ascii ".000") (10 ^ 6) t := by
  obtain ⟨s, hs, hfraction, hsep, -⟩ := exists_shows (civil_valid (t.wall zone)) h.year_nonneg h.year_lt
    (msDigits (t.shown zone).nsec) .blank
  have hval : s.fraction.map Fin.val = fixedDigits 3 ((t.shown zone).nsec / 10 ^ 6) := by
    rw [hfraction, map_val_msDigits]
  refine ⟨s, hsep, ?_, h.localTime hs ?_⟩
  · have hne : s.fraction ≠ [] := by
      intro hnil
      rw [hnil] at hval
      exact absurd (congrArg List.length hval) (by rw [length_fixedDigits]; decide)
    have hsome : s.fractionText = ascii "." ++ (s.fraction.map Fin.val).map digit := if_neg hne
    have htake : (fixedDigits 9 (t.shown zone).nsec).take 3 = fixedDigits 3 ((t.shown zone).nsec / 10 ^ 6) :=
      take_fixedDigits 3 6 _
    have hdate : datePieces.flatMap (formatPiece (t.shown zone)) = s.date := hs.format_date
    have htime : timePieces.flatMap (formatPiece (t.shown zone)) = s.timeOfDay := hs.format_timeOfDay
    rw [GoTime.format, pieces_timeFormartMs, List.flatMap_append, List.flatMap_append, List.flatMap_cons, hdate,
      htime, Stamp.localText, hsome, hsep, hval, List.flatMap_singleton, ← htake]
    rfl
  · have hlt : (t.shown zone).nsec < 10 ^ 9 := (civil_valid (t.wall zone)).nsec_lt
    have hnsec : ((t.shown zone).nsec : Int) = t.wall zone % second := by
      simp only [shown, civil, second]
      omega
    have hdecimal : s.nanoseconds = (t.shown zone).nsec / 10 ^ 6 * 10 ^ 6 := by
      have hlength : s.fraction.length = 3 := by
        rw [← List.length_map Fin.val, hval, length_fixedDigits]
      rw [Stamp.nanoseconds, hval, decimal_fixedDigits, hlength]
      omega
    rw [hdecimal]
    rw [second] at hnsec ⊢
    omega

/-! ## Round trips -/

theorem truncated_isZero (unit : Int) (h : t.isZero = true) : (truncated unit t).isZero = true := by
  have hinstant : t.instant = 0 := by simpa [isZero] using h
  simp [truncated, isZero, hinstant]

theorem unmarshalJSON_marshalJSON {layout : Text} {unit : Int}
    (h : t.isZero = false → Writes zone layout unit t) :
    unmarshalJSON zone t₀ (marshalJSON zone layout t) =
      (.noError, if (truncated unit t).isZero then t₀ else truncated unit t) := by
  cases hzero : t.isZero with
  | true =>
    have hempty : unmarshalJSONToJson zone (ascii "\"\"") = some GoTime.zero := if_pos (Or.inl rfl)
    rw [marshalJSON, if_pos hzero, unmarshalJSON, hempty, if_pos (truncated_isZero unit hzero)]
    rfl
  | false =>
    obtain ⟨s, hsep, htext, htime⟩ := h hzero
    have hnot : ¬(t.isZero = true) := by simp [hzero]
    have hlocal : (truncated unit t).toLocal = truncated unit t := by
      rw [← htime]
      rfl
    rw [marshalJSON, if_neg hnot, htext, unmarshalJSON, Stamp.unmarshal_localText hsep, htime]
    simp only [hlocal]

theorem scanText_string {layout : Text} {unit : Int} (hzero : t.isZero = false)
    (h : Writes zone layout unit t) :
    scanText zone t₀ (string zone layout t) = (.noError, truncated unit t) := by
  obtain ⟨s, hsep, htext, htime⟩ := h
  have hnot : ¬(t.isZero = true) := by simp [hzero]
  rw [string, if_neg hnot, htext, Stamp.scanText_localText hsep, htime]

/-- What a type writes in JSON it reads back, up to a second or, for `TimeMs`, up to a millisecond: if the time
is one of the local zone that its clock shows only once, in a year of four digits. A missing time, and one that
is cut down to the zero time, leave the value that is there. -/
theorem json_round_trip (t₀ : GoTime) (hsec : t.isZero = false → Legible zone second t)
    (hms : t.isZero = false → Legible zone (10 ^ 6) t) :
    Time.unmarshalJSON zone t₀ (Time.marshalJSON zone t) =
        (.noError, if (truncated second t).isZero then t₀ else truncated second t) ∧
      TimeStandard.unmarshalJSON zone t₀ (TimeStandard.marshalJSON zone t) =
        (.noError, if (truncated second t).isZero then t₀ else truncated second t) ∧
      TimeMs.unmarshalJSON zone t₀ (TimeMs.marshalJSON zone t) =
        (.noError, if (truncated (10 ^ 6) t).isZero then t₀ else truncated (10 ^ 6) t) :=
  ⟨unmarshalJSON_marshalJSON fun hzero => writes_seconds (hsec hzero),
    unmarshalJSON_marshalJSON fun hzero => writes_seconds (hsec hzero),
    unmarshalJSON_marshalJSON fun hzero => writes_ms (hms hzero)⟩

/-- The local clock, eight hours ahead of UTC, shows 2024-02-29 23:59:59.254000001. -/
def leapNight : GoTime := ⟨clock 2024 2 29 23 59 59 254000001 - 28800 * second, .localZone⟩

theorem leapNight_legible : Legible Stamp.eastEight second leapNight ∧ Legible Stamp.eastEight (10 ^ 6) leapNight :=
  ⟨⟨rfl, by decide, by decide, by decide⟩, ⟨rfl, by decide, by decide, by decide⟩⟩

theorem json_round_trip_leapNight :
    TimeMs.marshalJSON Stamp.eastEight leapNight = ascii "\"2024-02-29 23:59:59.254\"" ∧
      TimeMs.unmarshalJSON Stamp.eastEight GoTime.zero (TimeMs.marshalJSON Stamp.eastEight leapNight) =
        (.noError, { leapNight with instant := leapNight.instant - 1 }) := by
  refine ⟨by decide, ?_⟩
  rw [(json_round_trip GoTime.zero (fun _ => leapNight_legible.1) fun _ => leapNight_legible.2).2.2]
  decide

/-- What a type writes to a column it reads back, in the same way, from a driver that hands back the bytes of the
text, although the layout it is read along has no fraction. A missing time leaves the value that is there: `Time`
has a text for it, the other two write nothing. -/
theorem column_round_trip {driver : Driver} (hd : driver.HandsBytes) (t₀ : GoTime)
    (hsec : t.isZero = false → Legible zone second t)
    (hms : t.isZero = false → Legible zone (10 ^ 6) t) :
    Time.scan zone t₀ (driver (Time.value zone t)) =
        (.noError, if t.isZero then t₀ else truncated second t) ∧
      TimeStandard.scan zone t₀ (driver (TimeStandard.value zone t)) =
        some (.noError, if t.isZero then t₀ else truncated second t) ∧
      TimeMs.scan zone t₀ (driver (TimeMs.value zone t)) =
        some (.noError, if t.isZero then t₀ else truncated (10 ^ 6) t) := by
  cases hzero : t.isZero with
  | true =>
    have hmissing : scanText zone t₀ noDate = (.noError, t₀) := if_pos (Or.inr (Or.inr (Or.inr rfl)))
    refine ⟨?_, ?_, ?_⟩
    · rw [Time.value, if_pos hzero, hd.text]
      exact hmissing
    · rw [TimeStandard.value, if_pos hzero, hd.nil]
      rfl
    · rw [TimeMs.value, if_pos hzero, hd.nil]
      rfl
  | false =>
    have hnot : ¬(t.isZero = true) := by simp [hzero]
    refine ⟨?_, ?_, ?_⟩
    · rw [Time.value, if_neg hnot, hd.text]
      exact scanText_string hzero (writes_seconds (hsec hzero))
    · rw [TimeStandard.value, if_neg hnot, hd.text]
      exact congrArg some (scanText_string hzero (writes_seconds (hsec hzero)))
    · rw [TimeMs.value, if_neg hnot, hd.text]
      exact congrArg some (scanText_string hzero (writes_ms (hms hzero)))

/-- A column of texts, as a driver hands it back that converts nothing. -/
def textColumn : Driver
  | .nil => .nil
  | .string s => .bytes s

theorem textColumn_handsBytes : textColumn.HandsBytes := ⟨rfl, fun _ => rfl⟩

theorem column_round_trip_leapNight :
    TimeMs.value Stamp.eastEight leapNight = .string (ascii "2024-02-29 23:59:59.254") ∧
      TimeMs.scan Stamp.eastEight GoTime.zero (textColumn (TimeMs.value Stamp.eastEight leapNight)) =
        some (.noError, { leapNight with instant := leapNight.instant - 1 }) := by
  refine ⟨by decide, ?_⟩
  have hround := column_round_trip textColumn_handsBytes GoTime.zero (fun _ => leapNight_legible.1)
    fun _ => leapNight_legible.2
  rw [hround.2.2]
  decide

/-! ## In UTC -/

theorem utcString_quoted (zone : LocalZone) (h : s.Shows (civil t.instant)) (hsep : s.separator = .upperT)
    (hfraction : s.fraction = []) (hoffset : s.offset = .z) (hzero : t.isZero = false) :
    ascii "\"" ++ utcString zone t ++ ascii "\"" = s.quoted := by
  have hnot : ¬(t.isZero = true) := by simp [hzero]
  have hshown : ({ t with loc := .utc } : GoTime).shown zone = civil t.instant := by
    simp [shown, wall, offsetAt]
  have hnone : s.fractionText = [] := if_pos hfraction
  rw [utcString, if_neg hnot, GoTime.format, pieces_utc, hshown, List.flatMap_append, List.flatMap_append,
    List.flatMap_cons, h.format_date, h.format_timeOfDay, Stamp.quoted, hsep, hoffset, hnone]
  rfl

/-- The text of `UTCString` is read back by every type as the same instant up to a second, whatever the location
of the time and whatever the local zone is. -/
theorem utcString_round_trip (hyear : 0 ≤ (civil t.instant).year) (hyear' : (civil t.instant).year < 10000)
    (hsecond : (truncated second t).isZero = false) :
    newTime zone (Time.utcString zone t) = (truncated second t).toLocal ∧
      newTimsMs zone (TimeMs.utcString zone t) = (truncated second t).toLocal ∧
      newTimeStandard zone (TimeStandard.utcString zone t) = (.noError, (truncated second t).toLocal) := by
  have hzero : t.isZero = false := by
    cases h : t.isZero with
    | true => exact absurd (truncated_isZero second h) (by simp [hsecond])
    | false => rfl
  obtain ⟨s, hs, hfraction, hsep, hoffset⟩ := exists_shows (civil_valid t.instant) hyear hyear' [] .upperT
  have hquoted := utcString_quoted zone hs hsep hfraction hoffset hzero
  have hinstant : s.instant = (truncated second t).instant := by
    have hnsec : s.nanoseconds = 0 := by simp [Stamp.nanoseconds, hfraction, decimal]
    have hy : (s.year : Nat) = (civil t.instant).year.toNat := by
      rw [← hs.year]
      rfl
    have hclock := clock_civil hyear 0
    rw [Stamp.instant, hoffset, hnsec, hy, hs.month, hs.day, hs.hour, hs.minute, hs.second, hclock]
    simp only [Offset.seconds, truncated, second]
    omega
  have hlong : utcString zone t ≠ [] ∧ utcString zone t ≠ ascii "null" := by
    have hlength := s.length_quoted
    rw [← hquoted] at hlength
    refine ⟨fun h => ?_, fun h => ?_⟩
    · rw [h] at hlength
      exact absurd hlength (by decide)
    · rw [h] at hlength
      exact absurd hlength (by decide)
  have hnew : newFrom zone (utcString zone t) = (.noError, (truncated second t).toLocal) := by
    rw [newFrom, if_pos hlong, hquoted, unmarshalJSON, Stamp.unmarshal_z (by simp [hsep]) hoffset hfraction,
      hinstant]
    have hread : GoTime.isZero ⟨(truncated second t).instant, .utc⟩ = false := hsecond
    simp only [hread]
    rfl
  refine ⟨?_, ?_, hnew⟩
  · exact congrArg Prod.snd hnew
  · exact congrArg Prod.snd hnew

/-- A time of a zone seven hours behind UTC, in a local zone eight hours ahead of it. -/
theorem utcString_round_trip_behind :
    Time.utcString Stamp.eastEight ⟨clock 2024 3 2 10 4 5 0, .fixed (-25200)⟩ = ascii "2024-03-02T10:04:05Z" ∧
      newTime Stamp.eastEight (Time.utcString Stamp.eastEight ⟨clock 2024 3 2 10 4 5 0, .fixed (-25200)⟩) =
        ⟨clock 2024 3 2 10 4 5 0, .localZone⟩ :=
  ⟨by decide, (utcString_round_trip (by decide) (by decide) (by decide)).1⟩

end OwnX.Basic
