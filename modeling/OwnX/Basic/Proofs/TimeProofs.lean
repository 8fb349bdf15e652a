import OwnX.Basic.Time
import OwnX.Foundations.Proofs.GoTimeProofs
import OwnX.Foundations.Proofs.PatternProofs
import OwnX.Foundations.Proofs.TextProofs

/-!
# Proofs: RFC 3339 timestamps

How the text of a timestamp ends decides which pattern is the first to match it, and so which layout it is
read along. Only an offset with a plus sign has a pattern.
-/

namespace OwnX.Basic

open Pattern GoTime

variable {zone : LocalZone} {s : Stamp} {str pre pre' x y v : Text} {a b : UInt8} {n : Nat} {f : Fields}
  {cs : List Chunk}

/-! ## The patterns -/

theorem digit_mem (h : n < 10) : digit n ∈ digits := by
  have hall : ∀ n ∈ List.range 10, digit n ∈ digits := by decide
  exact hall n (List.mem_range.2 h)

theorem twoDigits_mem (h : n < 100) : ∀ b ∈ twoDigits n, b ∈ digits := by
  intro b hb
  rcases List.mem_cons.1 hb with rfl | hb
  · exact digit_mem (by omega)
  · rw [List.mem_singleton.1 hb]
    exact digit_mem (by omega)

/-- What stands in front of the digits at the end of a text. -/
theorem eq_of_digits_behind (h : pre ++ a :: x = pre' ++ b :: y) (hx : ∀ d ∈ x, d ∈ digits)
    (hy : ∀ d ∈ y, d ∈ digits) (ha : a ∉ digits) (hb : b ∉ digits) : a = b := by
  have hdrop : ∀ (pre : Text) (c : UInt8) (z : Text), (∀ d ∈ z, d ∈ digits) → c ∉ digits →
      ((pre ++ c :: z).reverse.dropWhile (· ∈ digits)).head? = some c := by
    intro pre c z hz hc
    have hpos : ∀ d ∈ z.reverse, (decide (d ∈ digits)) = true := fun d hd =>
      decide_eq_true (hz d (List.mem_reverse.1 hd))
    rw [List.reverse_append, List.reverse_cons, List.append_assoc, List.dropWhile_append_of_pos hpos,
      List.singleton_append, List.dropWhile_cons_of_neg (by simpa using hc)]
    rfl
  have hhead := hdrop pre a x hx ha
  rw [h, hdrop pre' b y hy hb] at hhead
  exact (Option.some.inj hhead).symm

theorem pattern2_iff :
    matchesEnd timePattern2 str = true ↔ ∃ pre hh mm, hh.length = 2 ∧ (∀ d ∈ hh, d ∈ digits) ∧
      mm.length = 2 ∧ (∀ d ∈ mm, d ∈ digits) ∧
        str = pre ++ (ascii "+" ++ hh ++ ascii ":" ++ mm ++ ascii "\"") := by
  simp only [matchesEnd_iff, timePattern2, RegularExpression.matches'_mul, Language.mem_mul, mem_literal,
    mem_oneOf_pow]
  constructor
  · rintro ⟨pre, _, ⟨_, ⟨_, ⟨_, ⟨_, rfl, hh, ⟨hhh, hhd⟩, rfl⟩, _, rfl, rfl⟩, mm, ⟨hmm, hmd⟩, rfl⟩, _, rfl, rfl⟩,
      rfl⟩
    exact ⟨pre, hh, mm, hhh, hhd, hmm, hmd, rfl⟩
  · rintro ⟨pre, hh, mm, hhh, hhd, hmm, hmd, rfl⟩
    exact ⟨pre, _, ⟨_, ⟨_, ⟨_, ⟨_, rfl, hh, ⟨hhh, hhd⟩, rfl⟩, _, rfl, rfl⟩, mm, ⟨hmm, hmd⟩, rfl⟩, _, rfl, rfl⟩,
      rfl⟩

theorem pattern3_iff :
    matchesEnd timePattern3 str = true ↔ ∃ pre ds, (ds ≠ [] ∧ ∀ d ∈ ds, d ∈ digits) ∧
      str = pre ++ (ascii "." ++ ds ++ ascii "Z\"") := by
  simp only [timePattern3, matchesEnd_between, mem_many_oneOf]

theorem pattern4_iff :
    matchesEnd timePattern4 str = true ↔ ∃ pre ss, (ss.length = 2 ∧ ∀ d ∈ ss, d ∈ digits) ∧
      str = pre ++ (ascii ":" ++ ss ++ ascii "Z\"") := by
  simp only [timePattern4, matchesEnd_between, mem_oneOf_pow]

theorem pattern5_iff :
    matchesEnd timePattern5 str = true ↔ ∃ pre ds, (ds ≠ [] ∧ ∀ d ∈ ds, d ∈ digits) ∧
      str = pre ++ (ascii "." ++ ds ++ ascii "\"") := by
  simp only [timePattern5, matchesEnd_between, mem_many_oneOf]

/-! ## The end of a text -/

/-- A text has one end of each length. -/
theorem suffix_unique (h : x <:+ str) (h' : y <:+ str) (hlength : x.length = y.length) : x = y :=
  (List.suffix_of_suffix_length_le h h' hlength.le).eq_of_length hlength

/-- The letter before the last quotation mark tells texts apart from those that a pattern matches. -/
theorem not_matches_of_letter {r : RegularExpression UInt8} {l : Text} (h : [b, 34] <:+ str)
    (hl : [a, 34] <:+ l) (hne : b ≠ a) : matchesEnd (r * literal l) str = false := by
  refine Bool.eq_false_iff.2 fun hmatch => hne ?_
  have heq := suffix_unique h (hl.trans (suffix_of_matchesEnd hmatch)) rfl
  exact (List.cons.inj heq).1

theorem not_pattern1 (h : [b, 34] <:+ str) (hb : b ≠ 84) : matchesEnd timePattern1 str = false :=
  not_matches_of_letter h ⟨ascii " CS", by decide⟩ hb

theorem not_pattern3 (h : [b, 34] <:+ str) (hb : b ≠ 90) : matchesEnd timePattern3 str = false :=
  not_matches_of_letter h ⟨[], by decide⟩ hb

theorem not_pattern4 (h : [b, 34] <:+ str) (hb : b ≠ 90) : matchesEnd timePattern4 str = false :=
  not_matches_of_letter h ⟨[], by decide⟩ hb

theorem not_pattern2 (h : [b, 34] <:+ str) (hb : b ∉ digits) : matchesEnd timePattern2 str = false := by
  refine Bool.eq_false_iff.2 fun hmatch => hb ?_
  obtain ⟨pre, hh, mm, -, -, hlength, hmm, rfl⟩ := pattern2_iff.1 hmatch
  obtain ⟨m, m', rfl⟩ := List.length_eq_two.1 hlength
  have hsuffix : [m', 34] <:+ pre ++ (ascii "+" ++ hh ++ ascii ":" ++ [m, m'] ++ ascii "\"") :=
    ⟨pre ++ (ascii "+" ++ hh ++ ascii ":" ++ [m]), by
      have hquote : ascii "\"" = [34] := by decide
      simp [hquote]⟩
  have heq := suffix_unique h hsuffix rfl
  rw [(List.cons.inj heq).1]
  exact hmm m' (by simp)

theorem ne_of_mem_digits (hb : b ∈ digits) (ha : a ∉ digits) : b ≠ a := fun h => ha (h ▸ hb)

/-! ## Which layout is taken -/

theorem quote_eq : ascii "\"" = [34] := by decide

theorem zQuote_eq : ascii "Z\"" = [90, 34] := by decide

theorem plus_eq : ascii "+" = [43] := by decide

theorem minus_eq : ascii "-" = [45] := by decide

theorem dot_eq : ascii "." = [46] := by decide

theorem colon_eq : ascii ":" = [58] := by decide

section Endings

variable {hour minute : Nat} {ds : Text}

/-- The digit at the end of an offset. -/
theorem suffix_hourMinute (hstr : str = pre ++ hourMinute hour minute ++ ascii "\"") :
    [digit (minute % 10), 34] <:+ str :=
  ⟨pre ++ (twoDigits hour ++ ascii ":" ++ [digit (minute / 10)]), by
    simp [hstr, hourMinute, twoDigits, quote_eq]⟩

theorem endingOf_plus (hhour : hour < 100) (hminute : minute < 100)
    (hstr : str = pre ++ ascii "+" ++ hourMinute hour minute ++ ascii "\"") :
    endingOf str = (ascii "Z07:00", .utc) := by
  have hdigit : digit (minute % 10) ∈ digits := digit_mem (by omega)
  have h1 := not_pattern1 (suffix_hourMinute hstr) (ne_of_mem_digits hdigit (by decide))
  have h2 : matchesEnd timePattern2 str = true := by
    refine pattern2_iff.2 ⟨pre, twoDigits hour, twoDigits minute, rfl, twoDigits_mem hhour, rfl,
      twoDigits_mem hminute, ?_⟩
    simp only [hstr, hourMinute, List.append_assoc]
  simp [endingOf, h1, h2]

theorem endingOf_minus (hminute : minute < 100)
    (hstr : str = pre ++ ascii "-" ++ hourMinute hour minute ++ ascii "\"") :
    endingOf str = (ascii "", .localZone) := by
  have hdigit : digit (minute % 10) ∈ digits := digit_mem (by omega)
  have hsuffix := suffix_hourMinute hstr
  have h1 := not_pattern1 hsuffix (ne_of_mem_digits hdigit (by decide))
  have h3 := not_pattern3 hsuffix (ne_of_mem_digits hdigit (by decide))
  have h4 := not_pattern4 hsuffix (ne_of_mem_digits hdigit (by decide))
  have h2 : matchesEnd timePattern2 str = false := by
    refine Bool.eq_false_iff.2 fun hmatch => ?_
    obtain ⟨pre', hh, mm, hhh, -, hmm, -, heq⟩ := pattern2_iff.1 hmatch
    -- the two ends are of the same length, and differ in the sign
    have hend := suffix_unique (x := ascii "-" ++ hourMinute hour minute ++ ascii "\"")
      ⟨pre, by simp [hstr]⟩ ⟨pre', heq.symm⟩
      (by simp [hourMinute, twoDigits, hhh, hmm, plus_eq, minus_eq, colon_eq, quote_eq])
    have hsign := congrArg List.head? hend
    simp [plus_eq, minus_eq] at hsign
  have h5 : matchesEnd timePattern5 str = false := by
    refine Bool.eq_false_iff.2 fun hmatch => ?_
    obtain ⟨pre', ds, ⟨-, hds⟩, heq⟩ := pattern5_iff.1 hmatch
    have hsplit : (pre ++ ascii "-" ++ twoDigits hour ++ 58 :: twoDigits minute) ++ ascii "\"" =
        (pre' ++ 46 :: ds) ++ ascii "\"" := by
      rw [hstr, hourMinute] at heq
      simpa [colon_eq, dot_eq] using heq
    replace hsplit := List.append_cancel_right hsplit
    exact absurd (eq_of_digits_behind hsplit (twoDigits_mem hminute) hds (by decide) (by decide)) (by decide)
  simp [endingOf, h1, h2, h3, h4, h5]

theorem endingOf_fraction (hne : ds ≠ []) (hds : ∀ d ∈ ds, d ∈ digits)
    (hstr : str = pre ++ ascii "." ++ ds ++ ascii "Z\"") :
    endingOf str = (ascii ".999999999Z", .utc) := by
  have hsuffix : [90, 34] <:+ str := ⟨pre ++ ascii "." ++ ds, by rw [hstr, zQuote_eq]⟩
  have h1 := not_pattern1 hsuffix (by decide)
  have h2 := not_pattern2 hsuffix (by decide)
  have h3 : matchesEnd timePattern3 str = true :=
    pattern3_iff.2 ⟨pre, ds, ⟨hne, hds⟩, by simp only [hstr, List.append_assoc]⟩
  simp [endingOf, h1, h2, h3]

theorem endingOf_z (hminute : minute < 100) (hstr : str = pre ++ ascii ":" ++ twoDigits minute ++ ascii "Z\"") :
    endingOf str = (ascii "Z", .utc) := by
  have hsuffix : [90, 34] <:+ str := ⟨pre ++ ascii ":" ++ twoDigits minute, by rw [hstr, zQuote_eq]⟩
  have h1 := not_pattern1 hsuffix (by decide)
  have h2 := not_pattern2 hsuffix (by decide)
  have h3 : matchesEnd timePattern3 str = false := by
    refine Bool.eq_false_iff.2 fun hmatch => ?_
    obtain ⟨pre', ds, ⟨-, hds⟩, heq⟩ := pattern3_iff.1 hmatch
    have hsplit : (pre ++ 58 :: twoDigits minute) ++ ascii "Z\"" = (pre' ++ 46 :: ds) ++ ascii "Z\"" := by
      rw [hstr] at heq
      simpa [colon_eq, dot_eq] using heq
    replace hsplit := List.append_cancel_right hsplit
    exact absurd (eq_of_digits_behind hsplit (twoDigits_mem hminute) hds (by decide) (by decide)) (by decide)
  have h4 : matchesEnd timePattern4 str = true :=
    pattern4_iff.2 ⟨pre, twoDigits minute, ⟨rfl, twoDigits_mem hminute⟩, by simp only [hstr, List.append_assoc]⟩
  simp [endingOf, h1, h2, h3, h4]

end Endings

/-- The separator as a letter. -/
def Separator.letter : Separator → UInt8
  | .upperT => 84
  | .lowerT => 116
  | .blank => 32

theorem Separator.text_eq (sep : Separator) : sep.text = [sep.letter] := by
  cases sep <;> decide

/-- The layout of the date and the time of day that is taken for a separator. -/
def Separator.format : Separator → Text
  | .upperT => timeFormartT
  | _ => timeFormart

namespace Stamp

theorem length_date (s : Stamp) : s.date.length = 10 := by
  simp [date, fourDigits, twoDigits, minus_eq]

theorem length_quoteDate (s : Stamp) : (ascii "\"" ++ s.date).length = 11 := by
  rw [List.length_append, s.length_date, quote_eq]
  rfl

theorem day_lt (s : Stamp) : s.day < 100 := by
  have hle := s.day_le
  have hdays : daysIn s.month s.year ≤ 31 := by
    unfold daysIn
    split_ifs <;> omega
  omega

theorem not_mem_date (s : Stamp) : 84 ∉ ascii "\"" ++ s.date := by
  have hdigits : ∀ n < 100, 84 ∉ twoDigits n := fun n hn h => absurd (twoDigits_mem hn 84 h) (by decide)
  have hyear := s.year.isLt
  have hmonth := s.month_le
  have hday := s.day_lt
  simp only [date, fourDigits, quote_eq, minus_eq, List.mem_append, not_or]
  refine ⟨by decide, ⟨⟨⟨⟨?_, ?_⟩, by decide⟩, ?_⟩, by decide⟩, ?_⟩
  · exact hdigits _ (by omega)
  · exact hdigits _ (by omega)
  · exact hdigits _ (by omega)
  · exact hdigits _ hday

/-- The text behind the separator. -/
def behind (s : Stamp) : Text := s.timeOfDay ++ s.fractionText ++ s.offset.text ++ ascii "\""

theorem quoted_eq (s : Stamp) : s.quoted = (ascii "\"" ++ s.date) ++ s.separator.letter :: s.behind := by
  simp [quoted, behind, Separator.text_eq]

/-- The position of the `T` decides. -/
theorem formatOf_quoted (s : Stamp) : formatOf s.quoted = s.separator.format := by
  have hT : ascii "T" = [84] := by decide
  rw [formatOf, hT, quoted_eq]
  have hother : ∀ c v, c ≠ 84 →
      ¬Text.position (Text.index ((ascii "\"" ++ s.date) ++ c :: v) [84]) = 11 := by
    intro c v hc hposition
    cases hindex : Text.index ((ascii "\"" ++ s.date) ++ c :: v) [84] with
    | none =>
      rw [hindex] at hposition
      exact absurd hposition (by decide)
    | some i =>
      rw [hindex] at hposition
      obtain rfl : i = 11 := Int.ofNat.inj hposition
      have hocc := (Text.index_eq_some hindex).1
      rw [Text.occursAt_cons, List.getElem?_append_right s.length_quoteDate.le, s.length_quoteDate] at hocc
      exact hc (Option.some.inj hocc.1)
  cases s.separator with
  | upperT =>
    rw [Separator.letter, Text.index_letter s.not_mem_date, length_quoteDate]
    rfl
  | lowerT => exact if_neg (hother _ _ (by decide))
  | blank => exact if_neg (hother _ _ (by decide))

/-! ## Reading a timestamp -/

/-- The layout of the date. -/
def dateChunks : List Chunk := [.lit 34, .longYear, .lit 45, .zeroMonth, .lit 45, .zeroDay]

/-- The layout of the hour and the minute. -/
def timeChunks : List Chunk := [.hour, .lit 58, .zeroMinute, .lit 58]

theorem parse_date (s : Stamp) (cs : List Chunk) (v : Text) (f : Fields) :
    parseChunks (dateChunks ++ cs) (ascii "\"" ++ s.date ++ v) f =
      parseChunks cs v { f with year := s.year, month := s.month, day := s.day } := by
  simp only [dateChunks, date, quote_eq, minus_eq, List.append_assoc, List.cons_append, List.nil_append]
  rw [parseChunks_cons (parseChunk_lit (by decide)), parseChunks_cons (parseChunk_longYear s.year.isLt),
    parseChunks_cons (parseChunk_lit (by decide)),
    parseChunks_cons (parseChunk_zeroMonth s.one_le_month s.month_le),
    parseChunks_cons (parseChunk_lit (by decide)), parseChunks_cons (parseChunk_zeroDay s.day_lt)]

theorem parse_hourMinute (s : Stamp) (cs : List Chunk) (v : Text) (f : Fields) :
    parseChunks (timeChunks ++ cs) (hourMinute s.hour s.minute ++ ascii ":" ++ v) f =
      parseChunks cs v { f with hour := s.hour, min := s.minute } := by
  simp only [timeChunks, hourMinute, colon_eq, List.append_assoc, List.cons_append, List.nil_append]
  rw [parseChunks_cons (parseChunk_hour s.hour.isLt), parseChunks_cons (parseChunk_lit (by decide)),
    parseChunks_cons (parseChunk_zeroMinute s.minute.isLt), parseChunks_cons (parseChunk_lit (by decide))]

theorem parse_separator (h : s.separator ≠ .lowerT) (cs : List Chunk) (v : Text) (f : Fields) :
    parseChunks (.lit s.separator.letter :: cs) (s.separator.letter :: (hourMinute s.hour s.minute ++ v)) f =
      parseChunks cs (hourMinute s.hour s.minute ++ v) f := by
  cases hsep : s.separator with
  | upperT => exact parseChunks_cons (parseChunk_lit (by decide))
  | lowerT => exact absurd hsep h
  | blank =>
    refine parseChunks_cons (parseChunk_blank ?_)
    have hdigit : digit ((s.hour : Nat) / 10) ∈ digits := digit_mem (by omega)
    intro hhead
    have hhead' : digit ((s.hour : Nat) / 10) = 32 := Option.some.inj hhead
    exact ne_of_mem_digits hdigit (by decide) hhead'

theorem fraction_lt (s : Stamp) : ∀ d ∈ s.fraction.map Fin.val, d < 10 := by
  intro d hd
  obtain ⟨e, -, rfl⟩ := List.mem_map.1 hd
  exact e.isLt

/-- No digit and no fraction follow. -/
def EndsSeconds (v : Text) : Prop := ∀ b, v.head? = some b → isDigit b = false ∧ b ≠ 46 ∧ b ≠ 44

theorem takeFraction_text (s : Stamp) (hv : EndsSeconds v) (hf : f.nsec = 0) :
    takeFraction f (s.fractionText ++ v) = ({ f with nsec := s.nanoseconds }, v) := by
  by_cases hfraction : s.fraction = []
  · have hzero : s.nanoseconds = f.nsec := by simp [nanoseconds, hfraction, hf, decimal]
    rw [fractionText, if_pos hfraction, List.nil_append, takeFraction_of_none fun b hb => (hv b hb).2, hzero]
  · have hne : s.fraction.map Fin.val ≠ [] := by simpa using hfraction
    have htext : s.fractionText = 46 :: (s.fraction.map Fin.val).map digit := by
      rw [fractionText, if_neg hfraction, dot_eq]
      rfl
    have hnsec : parseNanoseconds (s.fraction.map Fin.val) = s.nanoseconds := by
      rw [parseNanoseconds_eq s.fraction_lt, List.length_map, nanoseconds]
    rw [htext, List.cons_append, takeFraction_of_digits s.fraction_lt hne fun b hb => (hv b hb).1, hnsec]

/-- The seconds and the fraction are read, if the layout has a fraction or not. -/
theorem parse_second (s : Stamp) (hv : EndsSeconds v) (hf : f.nsec = 0)
    (hnext : nextStdChunk cs ≠ some .fracSecond9) :
    parseChunks (.zeroSecond :: cs) (twoDigits s.second ++ (s.fractionText ++ v)) f =
      parseChunks cs v { f with sec := s.second, nsec := s.nanoseconds } := by
  refine parseChunks_cons ?_
  rw [parseChunk_zeroSecond s.second.isLt, if_neg hnext]
  exact congrArg some (takeFraction_text s hv hf)

theorem parse_second_fraction (s : Stamp) (hv : EndsSeconds v) (hf : f.nsec = 0) :
    parseChunks (.zeroSecond :: .fracSecond9 :: cs) (twoDigits s.second ++ (s.fractionText ++ v)) f =
      parseChunks cs v { f with sec := s.second, nsec := s.nanoseconds } := by
  have hsecond : parseChunk .zeroSecond (.fracSecond9 :: cs) (twoDigits s.second ++ (s.fractionText ++ v)) f =
      some ({ f with sec := s.second }, s.fractionText ++ v) := by
    rw [parseChunk_zeroSecond s.second.isLt]
    exact if_pos rfl
  rw [parseChunks_cons hsecond]
  refine parseChunks_cons ?_
  exact congrArg some (takeFraction_text s hv hf)

/-- What is read of the timestamp before its offset. -/
def fields (s : Stamp) : Fields where
  year := s.year
  month := s.month
  day := s.day
  hour := s.hour
  min := s.minute
  sec := s.second
  nsec := s.nanoseconds

theorem endsSeconds_offset (offset : Offset) : EndsSeconds (offset.text ++ ascii "\"") := by
  intro b hb
  cases offset with
  | z =>
    obtain rfl : b = 90 := (Option.some.inj hb).symm
    decide
  | plus hour minute =>
    obtain rfl : b = 43 := (Option.some.inj hb).symm
    decide
  | minus hour minute =>
    obtain rfl : b = 45 := (Option.some.inj hb).symm
    decide

/-- The layout up to the seconds. -/
def headChunks (sep : Separator) : List Chunk := dateChunks ++ .lit sep.letter :: timeChunks

theorem parse_head (h : s.separator ≠ .lowerT) (cs : List Chunk) :
    parseChunks (headChunks s.separator ++ cs) s.quoted {} =
      parseChunks cs (twoDigits s.second ++ (s.fractionText ++ (s.offset.text ++ ascii "\"")))
        { s.fields with sec := 0, nsec := 0 } := by
  have htext : s.behind = hourMinute s.hour s.minute ++
      (ascii ":" ++ (twoDigits s.second ++ (s.fractionText ++ (s.offset.text ++ ascii "\"")))) := by
    simp only [behind, timeOfDay, List.append_assoc]
  rw [headChunks, List.append_assoc, quoted_eq, parse_date, htext, List.cons_append, parse_separator h,
    ← List.append_assoc (hourMinute _ _), parse_hourMinute]
  rfl

/-- The layout that a timestamp is read along. -/
def layout (sep : Separator) (ending : Text) : Text := ascii "\"" ++ (sep.format ++ ending) ++ ascii "\""

/-- What each of the endings adds to the layout. -/
def tails : List (Text × List Chunk) :=
  [(ascii "Z07:00", [.zeroSecond, .iso8601ColonTZ, .lit 34]),
    (ascii ".999999999Z", [.zeroSecond, .fracSecond9, .lit 90, .lit 34]),
    (ascii "Z", [.zeroSecond, .lit 90, .lit 34]), (ascii "", [.zeroSecond, .lit 34])]

theorem chunks_layout {sep : Separator} (h : sep ≠ .lowerT) :
    ∀ e ∈ tails, chunks (layout sep e.1) = headChunks sep ++ e.2 := by
  cases sep with
  | upperT => decide
  | lowerT => exact absurd rfl h
  | blank => decide

/-- The seconds, the fraction and the offset are left to what the ending adds. -/
theorem parse_layout (h : s.separator ≠ .lowerT) {ending : Text} {tail : List Chunk}
    (htail : (ending, tail) ∈ tails) :
    parseChunks (chunks (layout s.separator ending)) s.quoted {} =
      parseChunks tail (twoDigits s.second ++ (s.fractionText ++ (s.offset.text ++ ascii "\"")))
        { s.fields with sec := 0, nsec := 0 } := by
  rw [chunks_layout h _ htail, parse_head h]

theorem length_quoted (s : Stamp) : 11 < s.quoted.length := by
  rw [quoted_eq, List.length_append, s.length_quoteDate, List.length_cons]
  omega

theorem unmarshalJSONToJson_quoted (zone : LocalZone) (s : Stamp) :
    unmarshalJSONToJson zone s.quoted =
      parseInLocation zone (layout s.separator (endingOf s.quoted).1) s.quoted (endingOf s.quoted).2 := by
  have hlength := s.length_quoted
  rw [unmarshalJSONToJson, if_neg, formatOf_quoted, layout]
  rintro (h | h)
  · rw [h] at hlength
    exact absurd hlength (by decide)
  · rw [h] at hlength
    exact absurd hlength (by decide)

/-- The date is checked, and the offset is taken into account. -/
theorem parseInLocation_quoted {loc : Location} {ending : Text} {offset : Zone}
    (h : parseChunks (chunks (layout s.separator ending)) s.quoted {} =
      some { s.fields with zone := offset }) :
    parseInLocation zone (layout s.separator ending) s.quoted loc =
      some (Fields.time zone { s.fields with zone := offset } loc) := by
  have hday := s.one_le_day
  have hdays := s.day_le
  rw [parseInLocation, h, Option.bind_some, if_neg]
  rintro (hlt | hlt)
  · exact absurd hlt (Nat.not_lt.2 hday)
  · exact absurd hlt (Nat.not_lt.2 hdays)

/-! ## The three offsets -/

theorem unmarshal_plus {hour : Fin 24} {minute : Fin 60} (hsep : s.separator ≠ .lowerT)
    (hoffset : s.offset = .plus hour minute) :
    ∃ loc, unmarshalJSONToJson zone s.quoted = some ⟨s.instant, loc⟩ := by
  have htext : s.quoted = (ascii "\"" ++ s.date ++ s.separator.text ++ s.timeOfDay ++ s.fractionText) ++
      ascii "+" ++ hourMinute hour minute ++ ascii "\"" := by
    simp only [quoted, hoffset, Offset.text, List.append_assoc]
  have hending := endingOf_plus (by omega) (by omega) htext
  have hparse : parseChunks (chunks (layout s.separator (ascii "Z07:00"))) s.quoted {} =
      some { s.fields with zone := .offset (((hour : Nat) * 60 + (minute : Nat)) * 60) } := by
    rw [parse_layout hsep (.head _), parse_second s (endsSeconds_offset s.offset) rfl (by decide), hoffset]
    simp only [Offset.text, hourMinute, plus_eq, colon_eq, quote_eq, List.append_assoc, List.cons_append,
      List.nil_append]
    rw [parseChunks_cons (parseChunk_plus hour.isLt minute.isLt), parseChunks_cons (parseChunk_lit (by decide))]
    rfl
  rw [unmarshalJSONToJson_quoted, hending, parseInLocation_quoted hparse, instant, hoffset]
  exact ⟨_, rfl⟩

theorem zText_eq : Offset.z.text ++ ascii "\"" = [90, 34] := by decide

/-- A `Z` in the layout stands for itself; the location is UTC all the same. -/
theorem instant_of_z (hoffset : s.offset = .z) :
    Fields.time zone { s.fields with zone := .none } .utc = ⟨s.instant, .utc⟩ := by
  rw [instant, hoffset, Offset.seconds, zero_mul, sub_zero]
  rfl

theorem unmarshal_z (hsep : s.separator ≠ .lowerT) (hoffset : s.offset = .z) (hfraction : s.fraction = []) :
    unmarshalJSONToJson zone s.quoted = some ⟨s.instant, .utc⟩ := by
  have hnone : s.fractionText = [] := if_pos hfraction
  have htext : s.quoted = (ascii "\"" ++ s.date ++ s.separator.text ++ hourMinute s.hour s.minute) ++
      ascii ":" ++ twoDigits s.second ++ ascii "Z\"" := by
    simp only [quoted, timeOfDay, hoffset, hnone, List.append_assoc, zText_eq, zQuote_eq, List.nil_append]
  have hending := endingOf_z (by omega) htext
  have hparse : parseChunks (chunks (layout s.separator (ascii "Z"))) s.quoted {} =
      some { s.fields with zone := .none } := by
    rw [parse_layout hsep (.tail _ (.tail _ (.head _))),
      parse_second s (endsSeconds_offset s.offset) rfl (by decide), hoffset, zText_eq,
      parseChunks_cons (parseChunk_lit (by decide)), parseChunks_cons (parseChunk_lit (by decide))]
    rfl
  rw [unmarshalJSONToJson_quoted, hending, parseInLocation_quoted hparse, instant_of_z hoffset]

theorem unmarshal_z_fraction (hsep : s.separator ≠ .lowerT) (hoffset : s.offset = .z)
    (hfraction : s.fraction ≠ []) : unmarshalJSONToJson zone s.quoted = some ⟨s.instant, .utc⟩ := by
  have hsome : s.fractionText = ascii "." ++ (s.fraction.map Fin.val).map digit := if_neg hfraction
  have htext : s.quoted = (ascii "\"" ++ s.date ++ s.separator.text ++ s.timeOfDay) ++ ascii "." ++
      (s.fraction.map Fin.val).map digit ++ ascii "Z\"" := by
    simp only [quoted, hoffset, hsome, List.append_assoc, zText_eq, zQuote_eq]
  have hdigits : ∀ b ∈ (s.fraction.map Fin.val).map digit, b ∈ digits := by
    intro b hb
    obtain ⟨d, hd, rfl⟩ := List.mem_map.1 hb
    exact digit_mem (s.fraction_lt d hd)
  have hending := endingOf_fraction (by simpa using hfraction) hdigits htext
  have hparse : parseChunks (chunks (layout s.separator (ascii ".999999999Z"))) s.quoted {} =
      some { s.fields with zone := .none } := by
    rw [parse_layout hsep (.tail _ (.head _)), parse_second_fraction s (endsSeconds_offset s.offset) rfl,
      hoffset, zText_eq, parseChunks_cons (parseChunk_lit (by decide)),
      parseChunks_cons (parseChunk_lit (by decide))]
    rfl
  rw [unmarshalJSONToJson_quoted, hending, parseInLocation_quoted hparse, instant_of_z hoffset]

/-- There is no pattern for a minus sign, so there is no offset in the layout. -/
theorem unmarshal_minus {hour : Fin 24} {minute : Fin 60} (hsep : s.separator ≠ .lowerT)
    (hoffset : s.offset = .minus hour minute) : unmarshalJSONToJson zone s.quoted = none := by
  have htext : s.quoted = (ascii "\"" ++ s.date ++ s.separator.text ++ s.timeOfDay ++ s.fractionText) ++
      ascii "-" ++ hourMinute hour minute ++ ascii "\"" := by
    simp only [quoted, hoffset, Offset.text, List.append_assoc]
  have hending := endingOf_minus (by omega) htext
  have hparse : parseChunks (chunks (layout s.separator (ascii ""))) s.quoted {} = none := by
    rw [parse_layout hsep (.tail _ (.tail _ (.tail _ (.head _)))),
      parse_second s (endsSeconds_offset s.offset) rfl (by decide), hoffset, Offset.text, minus_eq]
    exact parseChunks_lit_ne (by decide)
  rw [unmarshalJSONToJson_quoted, hending, parseInLocation, hparse]
  rfl

/-- There is a blank in each layout without a `T`. -/
theorem chunks_lowerT (str : Text) :
    ∃ cs, chunks (layout .lowerT (endingOf str).1) = dateChunks ++ .lit 32 :: cs := by
  have hall : ∀ ending ∈ [ascii ".999999999 Z0700 CST", ascii "Z07:00", ascii ".999999999Z", ascii "Z",
      ascii ".999999999", ascii ""],
      (chunks (layout .lowerT ending)).take 7 = dateChunks ++ [.lit 32] := by
    decide
  have hending : (endingOf str).1 ∈ [ascii ".999999999 Z0700 CST", ascii "Z07:00", ascii ".999999999Z",
      ascii "Z", ascii ".999999999", ascii ""] := by
    unfold endingOf
    split_ifs <;> simp
  have hsplit := List.take_append_drop 7 (chunks (layout .lowerT (endingOf str).1))
  rw [hall _ hending, List.append_assoc] at hsplit
  exact ⟨_, hsplit.symm⟩

theorem unmarshal_lowerT (hsep : s.separator = .lowerT) : unmarshalJSONToJson zone s.quoted = none := by
  obtain ⟨cs, hchunks⟩ := chunks_lowerT s.quoted
  have hparse : parseChunks (chunks (layout s.separator (endingOf s.quoted).1)) s.quoted {} = none := by
    rw [hsep, hchunks, quoted_eq, parse_date, hsep]
    exact parseChunks_lit_ne (by decide)
  rw [unmarshalJSONToJson_quoted, parseInLocation, hparse]
  rfl

theorem unmarshal_readable (zone : LocalZone) (h : s.Readable) :
    ∃ loc, unmarshalJSONToJson zone s.quoted = some ⟨s.instant, loc⟩ := by
  cases hoffset : s.offset with
  | z =>
    by_cases hfraction : s.fraction = []
    · exact ⟨_, unmarshal_z h.1 hoffset hfraction⟩
    · exact ⟨_, unmarshal_z_fraction h.1 hoffset hfraction⟩
  | plus hour minute => exact unmarshal_plus h.1 hoffset
  | minus hour minute => exact absurd hoffset (h.2 hour minute)

theorem unmarshal_not_readable (h : ¬s.Readable) : unmarshalJSONToJson zone s.quoted = none := by
  by_cases hsep : s.separator = .lowerT
  · exact unmarshal_lowerT hsep
  · cases hoffset : s.offset with
    | z => exact absurd ⟨hsep, by simp [hoffset]⟩ h
    | plus hour minute => exact absurd ⟨hsep, by simp [hoffset]⟩ h
    | minus hour minute => exact unmarshal_minus hsep hoffset

/-- A timestamp other than the zero instant is understood by all of the types exactly if there is no minus
sign in front of its offset and no small `t` behind the date. -/
theorem unmarshalJSON_understood_iff (zone : LocalZone) (s : Stamp) (hzero : s.instant ≠ 0) :
    s.Understood zone ↔ s.Readable := by
  constructor
  · intro h
    by_contra hnot
    have herror : Time.unmarshalJSON zone GoTime.zero s.quoted = (.error, GoTime.zero) := by
      rw [Time.unmarshalJSON, unmarshalJSON, unmarshal_not_readable hnot]
    have hread := (h GoTime.zero).1
    rw [herror] at hread
    exact Outcome.noConfusion (congrArg Prod.fst hread)
  · intro h t
    obtain ⟨loc, hloc⟩ := unmarshal_readable zone h
    have hread : Basic.unmarshalJSON zone t s.quoted = (.noError, ⟨s.instant, .localZone⟩) := by
      have hnot : GoTime.isZero ⟨s.instant, loc⟩ = false := by simpa [isZero] using hzero
      rw [unmarshalJSON, hloc]
      simp only [hnot, toLocal]
      rfl
    exact ⟨hread, hread, hread⟩

/-- Eight hours ahead of UTC. -/
def eastEight : LocalZone := ⟨fun _ => 28800, fun wall => wall - 28800 * GoTime.second⟩

def leapDay : Stamp where
  year := 2024
  month := 2
  day := 29
  hour := 23
  minute := 59
  second := 59
  fraction := [2, 5]
  offset := .plus 8 0

theorem unmarshalJSON_understood_leapDay :
    leapDay.quoted = ascii "\"2024-02-29T23:59:59.25+08:00\"" ∧ leapDay.Understood eastEight :=
  ⟨by decide, (unmarshalJSON_understood_iff eastEight leapDay (by decide)).2
    ⟨by decide, fun _ _ h => Offset.noConfusion h⟩⟩

def behindUTC : Stamp where
  year := 2024
  month := 3
  day := 2
  hour := 3
  minute := 4
  second := 5
  offset := .minus 7 0

/-- A time seven hours behind UTC is an error. -/
theorem behindUTC_not_understood :
    behindUTC.quoted = ascii "\"2024-03-02T03:04:05-07:00\"" ∧ behindUTC.instant ≠ 0 ∧
      Time.unmarshalJSON eastEight GoTime.zero behindUTC.quoted = (.error, GoTime.zero) ∧
      TimeStandard.unmarshalJSON eastEight GoTime.zero behindUTC.quoted = (.error, GoTime.zero) := by
  have hnone : unmarshalJSONToJson eastEight behindUTC.quoted = none :=
    unmarshal_not_readable fun h => h.2 7 0 rfl
  refine ⟨by decide, by decide, ?_, ?_⟩
  · rw [Time.unmarshalJSON, unmarshalJSON, hnone]
  · rw [TimeStandard.unmarshalJSON, unmarshalJSON, hnone]

end Stamp

end OwnX.Basic
