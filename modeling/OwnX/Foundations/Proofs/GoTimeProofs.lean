import OwnX.Foundations.GoTime
import Mathlib.Data.Nat.Digits.Lemmas

/-!
# Proofs: reading what was written

For each element of a layout: the field that was written is read, whatever stands behind it. A fraction is
read up to its last digit, so behind it there must not be a digit.
-/

namespace OwnX.GoTime

variable {n : Nat} {b c : UInt8} {v : Text} {f : Fields} {cs : List Chunk} {ds : List Nat}

/-! ## Digits -/

theorem isDigit_digit (h : n < 10) : isDigit (digit n) = true := by
  have hall : ∀ n ∈ List.range 10, isDigit (digit n) = true := by decide
  exact hall n (List.mem_range.2 h)

theorem digitValue_digit (h : n < 10) : digitValue (digit n) = n := by
  have hall : ∀ n ∈ List.range 10, digitValue (digit n) = n := by decide
  exact hall n (List.mem_range.2 h)

theorem decimal_append (ds ds' : List Nat) :
    decimal (ds ++ ds') = decimal ds * 10 ^ ds'.length + decimal ds' := by
  rw [decimal, List.reverse_append, Nat.ofDigits_append, List.length_reverse, ← decimal, ← decimal]
  ring

theorem decimal_lt (h : ∀ d ∈ ds, d < 10) : decimal ds < 10 ^ ds.length := by
  have hlt := Nat.ofDigits_lt_base_pow_length (b := 10) (l := ds.reverse) (by decide)
    fun d hd => h d (List.mem_reverse.1 hd)
  rwa [List.length_reverse] at hlt

theorem decimal_pair (a b : Nat) : decimal [a, b] = 10 * a + b := by
  simp [decimal, Nat.ofDigits]
  omega

/-- The digits that do not count are those below a nanosecond. -/
theorem parseNanoseconds_eq (h : ∀ d ∈ ds, d < 10) :
    parseNanoseconds ds = decimal ds * 10 ^ 9 / 10 ^ ds.length := by
  rw [parseNanoseconds]
  by_cases hlength : ds.length ≤ 9
  · have hpow : 10 ^ 9 = 10 ^ (9 - ds.length) * 10 ^ ds.length := by
      rw [← pow_add, Nat.sub_add_cancel hlength]
    rw [List.take_of_length_le hlength, hpow, ← mul_assoc, Nat.mul_div_cancel _ (by positivity)]
  · have htake : (ds.take 9).length = 9 := by
      rw [List.length_take]
      omega
    have hdrop : decimal (ds.drop 9) < 10 ^ (ds.drop 9).length :=
      decimal_lt fun d hd => h d (List.mem_of_mem_drop hd)
    have hsplit : ds.length = (ds.drop 9).length + 9 := by
      rw [List.length_drop]
      omega
    have hvalue : decimal ds = decimal (ds.take 9) * 10 ^ (ds.drop 9).length + decimal (ds.drop 9) := by
      rw [← decimal_append, List.take_append_drop]
    rw [htake, hvalue, hsplit, pow_add, Nat.mul_div_mul_right _ _ (by positivity), Nat.sub_self, pow_zero,
      mul_one, add_comm, Nat.add_mul_div_right _ _ (by positivity), Nat.div_eq_of_lt hdrop, zero_add]

/-! ## Fields -/

theorem getnum_twoDigits (h : n < 100) (v : Text) (fixed : Bool) :
    getnum (twoDigits n ++ v) fixed = some (n, v) := by
  have htens : n / 10 < 10 := by omega
  have hones : n % 10 < 10 := by omega
  simp only [twoDigits, List.cons_append, List.nil_append, getnum, isDigit_digit htens, isDigit_digit hones,
    digitValue_digit htens, digitValue_digit hones, if_true, decimal_pair, Nat.div_add_mod]

theorem length_fourDigits (n : Nat) : (fourDigits n).length = 4 := rfl

theorem getYear_fourDigits (h : n < 10000) (v : Text) : getYear (fourDigits n ++ v) = some (n, v) := by
  have htake : (fourDigits n ++ v).take 4 = fourDigits n := List.take_left' (length_fourDigits n)
  have hdrop : (fourDigits n ++ v).drop 4 = v := List.drop_left' (length_fourDigits n)
  have hupper : n / 100 / 10 < 10 ∧ n / 100 % 10 < 10 := by omega
  have hlower : n % 100 / 10 < 10 ∧ n % 100 % 10 < 10 := by omega
  have hall : (fourDigits n).all isDigit = true := by
    simp only [fourDigits, twoDigits, List.cons_append, List.nil_append, List.all_cons, List.all_nil,
      isDigit_digit hupper.1, isDigit_digit hupper.2, isDigit_digit hlower.1, isDigit_digit hlower.2,
      Bool.and_self]
  have hvalue : decimal ((fourDigits n).map digitValue) = n := by
    rw [fourDigits, List.map_append, decimal_append]
    simp only [twoDigits, List.map_cons, List.map_nil, List.length_cons, List.length_nil, decimal_pair,
      digitValue_digit hupper.1, digitValue_digit hupper.2, digitValue_digit hlower.1,
      digitValue_digit hlower.2]
    omega
  rw [getYear, htake, hdrop, if_pos ⟨length_fourDigits n, hall⟩, hvalue]

/-- A run of digits ends where no digit follows. -/
theorem span_digits (hds : ∀ d ∈ ds, d < 10) (hv : ∀ b, v.head? = some b → isDigit b = false) :
    (ds.map digit ++ v).takeWhile isDigit = ds.map digit ∧ (ds.map digit ++ v).dropWhile isDigit = v := by
  have hdigits : ∀ b ∈ ds.map digit, isDigit b = true := by
    intro b hb
    obtain ⟨d, hd, rfl⟩ := List.mem_map.1 hb
    exact isDigit_digit (hds d hd)
  rw [List.takeWhile_append_of_pos hdigits, List.dropWhile_append_of_pos hdigits]
  cases v with
  | nil => simp
  | cons b v =>
    have hb : ¬isDigit b = true := by simp [hv b rfl]
    rw [List.takeWhile_cons_of_neg hb, List.dropWhile_cons_of_neg hb, List.append_nil]
    exact ⟨rfl, rfl⟩

theorem map_digitValue_digit (hds : ∀ d ∈ ds, d < 10) : (ds.map digit).map digitValue = ds := by
  rw [List.map_map]
  refine (List.map_congr_left fun d hd => ?_).trans (List.map_id ds)
  exact digitValue_digit (hds d hd)

theorem takeFraction_of_digits (hds : ∀ d ∈ ds, d < 10) (hne : ds ≠ [])
    (hv : ∀ b, v.head? = some b → isDigit b = false) :
    takeFraction f (46 :: (ds.map digit ++ v)) = ({ f with nsec := parseNanoseconds ds }, v) := by
  obtain ⟨d, ds', rfl⟩ := List.exists_cons_of_ne_nil hne
  obtain ⟨htake, hdrop⟩ := span_digits hds hv
  rw [List.map_cons, List.cons_append] at htake hdrop
  have hd : isDigit (digit d) = true := isDigit_digit (hds d List.mem_cons_self)
  rw [List.map_cons, List.cons_append, takeFraction, if_pos ⟨Or.inl rfl, hd⟩, htake, hdrop, ← List.map_cons,
    map_digitValue_digit hds]

theorem takeFraction_of_none (hv : ∀ b, v.head? = some b → b ≠ 46 ∧ b ≠ 44) : takeFraction f v = (f, v) := by
  unfold takeFraction
  split
  · next b d rest =>
    rw [if_neg]
    rintro ⟨h | h, -⟩
    · exact (hv b rfl).1 h
    · exact (hv b rfl).2 h
  · rfl

theorem zoneOffset_plus {hour min : Nat} (hhour : hour < 24) (hmin : min < 60) :
    zoneOffset 43 (twoDigits hour) (twoDigits min) = some (((hour : Int) * 60 + min) * 60) := by
  have hh := getnum_twoDigits (by omega : hour < 100) [] true
  have hm := getnum_twoDigits (by omega : min < 100) [] true
  rw [List.append_nil] at hh hm
  have hrange : ¬(24 < hour ∨ 60 < min) := by omega
  simp [zoneOffset, hh, hm, hrange]

/-! ## Chunks -/

theorem parseChunks_cons {f' : Fields} {value : Text} {chunk : Chunk}
    (h : parseChunk chunk cs value f = some (f', v)) :
    parseChunks (chunk :: cs) value f = parseChunks cs v f' := by
  rw [parseChunks, h, Option.bind_some]

theorem parseChunk_of_skip {value : Text} (h : skip b value = some v) :
    parseChunk (.lit b) cs value f = some (f, v) := by
  show (skip b value).bind _ = _
  rw [h]
  rfl

theorem parseChunk_lit (hb : b ≠ 32) : parseChunk (.lit b) cs (b :: v) f = some (f, v) :=
  parseChunk_of_skip (by simp [skip, hb])

theorem parseChunk_blank (hv : v.head? ≠ some 32) : parseChunk (.lit 32) cs (32 :: v) f = some (f, v) := by
  have hdrop : v.dropWhile (· == 32) = v := by
    cases v with
    | nil => rfl
    | cons b v =>
      have hb : b ≠ 32 := fun h => hv (by rw [h]; rfl)
      exact List.dropWhile_cons_of_neg (by simpa using hb)
  exact parseChunk_of_skip (by simp [skip, hdrop])

theorem parseChunks_lit_ne (h : c ≠ b) : parseChunks (.lit b :: cs) (c :: v) f = none := by
  have hskip : skip b (c :: v) = none := by simp [skip, h]
  show ((skip b (c :: v)).bind _).bind _ = _
  rw [hskip]
  rfl

theorem parseChunk_longYear (h : n < 10000) :
    parseChunk .longYear cs (fourDigits n ++ v) f = some ({ f with year := n }, v) := by
  show (getYear (fourDigits n ++ v)).bind _ = _
  rw [getYear_fourDigits h]
  rfl

theorem parseChunk_zeroMonth (hone : 1 ≤ n) (h : n ≤ 12) :
    parseChunk .zeroMonth cs (twoDigits n ++ v) f = some ({ f with month := n }, v) := by
  show (getnum (twoDigits n ++ v) true).bind _ = _
  rw [getnum_twoDigits (by omega)]
  exact if_neg (by omega)

theorem parseChunk_zeroDay (h : n < 100) :
    parseChunk .zeroDay cs (twoDigits n ++ v) f = some ({ f with day := n }, v) := by
  show (getnum (twoDigits n ++ v) true).bind _ = _
  rw [getnum_twoDigits h]
  rfl

theorem parseChunk_hour (h : n < 24) :
    parseChunk .hour cs (twoDigits n ++ v) f = some ({ f with hour := n }, v) := by
  show (getnum (twoDigits n ++ v) false).bind _ = _
  rw [getnum_twoDigits (by omega)]
  exact if_neg (by omega)

theorem parseChunk_zeroMinute (h : n < 60) :
    parseChunk .zeroMinute cs (twoDigits n ++ v) f = some ({ f with min := n }, v) := by
  show (getnum (twoDigits n ++ v) true).bind _ = _
  rw [getnum_twoDigits (by omega)]
  exact if_neg (by omega)

theorem parseChunk_zeroSecond (h : n < 60) :
    parseChunk .zeroSecond cs (twoDigits n ++ v) f =
      if nextStdChunk cs = some .fracSecond9 then some ({ f with sec := n }, v)
      else some (takeFraction { f with sec := n } v) := by
  show (getnum (twoDigits n ++ v) true).bind _ = _
  rw [getnum_twoDigits (by omega)]
  exact if_neg (by omega)

theorem parseChunk_plus {hour min : Nat} (hhour : hour < 24) (hmin : min < 60) :
    parseChunk .iso8601ColonTZ cs (43 :: (twoDigits hour ++ 58 :: (twoDigits min ++ v))) f =
      some ({ f with zone := .offset (((hour : Int) * 60 + min) * 60) }, v) := by
  show (zoneOffset 43 (twoDigits hour) (twoDigits min)).bind _ = _
  rw [zoneOffset_plus hhour hmin]
  rfl

end OwnX.GoTime
