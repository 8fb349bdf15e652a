import OwnX.Nio.Codec
import OwnX.Foundations.Proofs.DecoderProofs
import Mathlib.Tactic.Set

/-!
# Proofs: the codec is an incremental decoder, and it reads back what it wrote

`Decode` leaves one of two kinds of half-read messages: nothing read (`length = 0`), or a header
whose body has not arrived (`length > 1`). A length of `1` never waits, so it never occurs in
between; without that, a call could succeed and read nothing.
-/

namespace OwnX.Nio

variable {V : Type}

/-- The messages that `Decode` leaves for a later call. -/
def HalfRead (msg : Msg) : Prop := msg.data = none ∧ msg.length ≠ 1

/-! ## Incrementality -/

theorem body_size_pos {n : UInt32} (h : n > 1) : 0 < (n - 1).toNat := by
  have h1 : (1 : UInt32).toNat < n.toNat := UInt32.lt_iff_toNat_lt.mp h
  rw [UInt32.toNat_sub_of_le _ _ (UInt32.le_of_lt h)]
  omega

/-- Unpacking completes the message and reads nothing. -/
theorem decodeData_true (c : DefaultCodec V) (msg : Msg) :
    ∃ m', ∀ r, decodeData c msg r = (true, m', r) := by
  unfold decodeData
  split_ifs
  · exact ⟨_, fun _ => rfl⟩
  · exact ⟨_, fun _ => rfl⟩

/-- What `Decode` does once the header is known: it waits for a body that has not arrived, or it
takes the same `k` bytes off every extension of the buffer. Only a header that is already complete
(`length = 0` or `1`) takes nothing. -/
theorem decodeBody_cases (c : DefaultCodec V) (msg : Msg) (reader : Bytes) :
    (msg.length > 1 ∧ msg.data = none ∧ decodeBody c msg reader = (false, msg, reader)) ∨
    ∃ k m', k ≤ reader.length ∧ (msg.length > 1 → msg.data = none → 0 < k) ∧
      ∀ more, decodeBody c msg (reader ++ more) = (true, m', reader.drop k ++ more) := by
  by_cases h1 : msg.length = 1
  · refine Or.inr ⟨0, msg, Nat.zero_le _, fun hgt => ?_, fun more => ?_⟩
    · rw [h1] at hgt
      exact absurd hgt (by decide)
    · simp [decodeBody, h1]
  · by_cases h2 : msg.length > 1 ∧ msg.data = none
    · by_cases h3 : (msg.length - 1).toNat ≤ reader.length
      · right
        obtain ⟨m, hm⟩ := decodeData_true c
          { msg with data := some (reader.take (msg.length - 1).toNat) }
        refine ⟨(msg.length - 1).toNat, m, h3, fun hgt _ => body_size_pos hgt, fun more => ?_⟩
        have h4 : (msg.length - 1).toNat ≤ (reader ++ more).length := by
          rw [List.length_append]; omega
        rw [decodeBody, if_neg h1, if_pos h2, if_pos h4, List.take_append_of_le_length h3,
          List.drop_append_of_le_length h3, hm]
      · left
        exact ⟨h2.1, h2.2, by rw [decodeBody, if_neg h1, if_pos h2, if_neg h3]⟩
    · right
      obtain ⟨m, hm⟩ := decodeData_true c msg
      refine ⟨0, m, Nat.zero_le _, fun hgt hnone => absurd ⟨hgt, hnone⟩ h2, fun more => ?_⟩
      rw [decodeBody, if_neg h1, if_neg h2, hm, List.drop_zero]

/-- `Decode` waits for the body only when the header announces one that has not arrived. -/
theorem decodeBody_false {c : DefaultCodec V} {msg m' : Msg} {reader rest : Bytes}
    (h : decodeBody c msg reader = (false, m', rest)) :
    m' = msg ∧ rest = reader ∧ msg.length > 1 ∧ msg.data = none := by
  rcases decodeBody_cases c msg reader with ⟨hgt, hnone, he⟩ | ⟨k, m, -, -, he⟩
  · rw [he, Prod.mk.injEq, Prod.mk.injEq] at h
    exact ⟨h.2.1.symm, h.2.2.symm, hgt, hnone⟩
  · have := he []
    rw [List.append_nil, h] at this
    simp at this

/-- A message completed in a buffer is completed in every longer one, and it takes something off
the buffer if its body was waited for. -/
theorem decodeBody_true {c : DefaultCodec V} {msg m' : Msg} {reader rest : Bytes}
    (h : decodeBody c msg reader = (true, m', rest)) :
    (∀ more, decodeBody c msg (reader ++ more) = (true, m', rest ++ more)) ∧
      rest.length ≤ reader.length ∧
      (msg.length > 1 → msg.data = none → rest.length < reader.length) := by
  rcases decodeBody_cases c msg reader with ⟨-, -, he⟩ | ⟨k, m, hk, hpos, he⟩
  · rw [he] at h
    simp at h
  · have h0 := he []
    rw [List.append_nil, h, List.append_nil, Prod.mk.injEq, Prod.mk.injEq] at h0
    obtain ⟨-, rfl, rfl⟩ := h0
    refine ⟨he, by rw [List.length_drop]; omega, fun hgt hnone => ?_⟩
    have := hpos hgt hnone
    rw [List.length_drop]
    omega

theorem length_gt_one {n : UInt32} (h0 : n ≠ 0) (h1 : n ≠ 1) : n > 1 := by
  have h0 : n.toNat ≠ 0 := fun e => h0 (UInt32.toNat_inj.mp e)
  have h1 : n.toNat ≠ 1 := fun e => h1 (UInt32.toNat_inj.mp e)
  refine UInt32.lt_iff_toNat_lt.mpr ?_
  show 1 < n.toNat
  omega

/-- The header the first five bytes announce does not depend on the bytes after them. -/
theorem header_append {reader : Bytes} (h : 5 ≤ reader.length) (more : Bytes) :
    (reader ++ more).take 4 = reader.take 4 ∧ (reader ++ more).getD 4 0 = reader.getD 4 0 ∧
      (reader ++ more).drop 5 = reader.drop 5 ++ more := by
  refine ⟨List.take_append_of_le_length (by omega), ?_, List.drop_append_of_le_length h⟩
  rw [List.getD_eq_getElem?_getD, List.getD_eq_getElem?_getD, List.getElem?_append_left (by omega)]

/-- The default codec is incremental, with or without compression. -/
theorem decoder_incremental (c : DefaultCodec V) : c.decoder.Incremental HalfRead where
  fresh := ⟨rfl, fun h => absurd h (by decide : (0 : UInt32) ≠ 1)⟩
  nil := by simp [DefaultCodec.decoder, decode]
  pending := by
    intro m buf m' rest hm h
    simp only [DefaultCodec.decoder, decode] at h
    split_ifs at h with h0 h5
    · obtain ⟨rfl, -, hgt, hnone⟩ := decodeBody_false h
      refine ⟨hnone, fun e => ?_⟩
      rw [e] at hgt
      exact absurd hgt (by decide)
    · simp only [Prod.mk.injEq, true_and] at h
      exact h.1 ▸ hm
    · obtain ⟨rfl, -⟩ := decodeBody_false h
      exact hm
  keep := by
    intro m buf m' rest hm h
    simp only [DefaultCodec.decoder, decode] at h
    split_ifs at h with h0 h5
    · obtain ⟨-, rfl, -⟩ := decodeBody_false h
      rw [List.length_drop]
      omega
    · simp only [Prod.mk.injEq, true_and] at h
      exact h.2 ▸ Nat.le_refl _
    · obtain ⟨-, rfl, -⟩ := decodeBody_false h
      exact Nat.le_refl _
  resume := by
    intro m buf m' rest hm h more
    simp only [DefaultCodec.decoder, decode] at h ⊢
    split_ifs at h with h0 h5
    · obtain ⟨hm', hrest, hgt, -⟩ := decodeBody_false h
      have hlen : 5 ≤ (buf ++ more).length := by rw [List.length_append]; omega
      have hne : m'.length ≠ 0 := by
        intro e
        rw [← hm', e] at hgt
        exact absurd hgt (by decide)
      obtain ⟨e1, e2, e3⟩ := header_append h5 more
      rw [if_pos h0, if_pos hlen, if_neg hne, e1, e2, e3, hrest, hm']
    · simp only [Prod.mk.injEq, true_and] at h
      rw [h.1, h.2]
    · obtain ⟨rfl, rfl, -⟩ := decodeBody_false h
      rfl
  extend := by
    intro m buf m' rest hm h more
    simp only [DefaultCodec.decoder, decode] at h ⊢
    split_ifs at h with h0 h5
    · have hlen : 5 ≤ (buf ++ more).length := by rw [List.length_append]; omega
      obtain ⟨e1, e2, e3⟩ := header_append h5 more
      rw [if_pos h0, if_pos hlen, e1, e2, e3]
      exact (decodeBody_true h).1 more
    · simp at h
    · rw [if_neg h0]
      exact (decodeBody_true h).1 more
  progress := by
    intro m buf m' rest hm h
    simp only [DefaultCodec.decoder, decode] at h
    split_ifs at h with h0 h5
    · have := (decodeBody_true h).2.1
      rw [List.length_drop] at this
      omega
    · simp at h
    · exact (decodeBody_true h).2.2 (length_gt_one h0 hm.2) hm.1

/-! ## Reading back an encoded message -/

theorem getUint32_putUint32 (n : UInt32) : getUint32 (putUint32 n) = n := by
  have hn : n.toNat < 2 ^ 32 := n.toNat_lt
  refine UInt32.toNat_inj.mp ?_
  simp only [getUint32, putUint32, List.foldl_cons, List.foldl_nil, UInt8.toNat_ofNat',
    UInt32.toNat_ofNat']
  omega

/-- The bytes a body stands for; none for a nil body. -/
def payload (lib : Packages V) (body : Option (Body V)) : Bytes :=
  (body.map (toByte lib)).getD []

/-- The message that arrives for a message sent with `flag` and `body`. -/
def received (c : DefaultCodec V) (flag : UInt8) (body : Option (Body V)) : Msg :=
  { flag := flag
    length := UInt32.ofNat ((bodyBytes c body).length + 1)
    data :=
      if (bodyBytes c body).length = 0 then none
      else if c.gzip then unGzip c.packages (some (bodyBytes c body))
      else some (bodyBytes c body) }

theorem received_flag (c : DefaultCodec V) (flag : UInt8) (body : Option (Body V)) :
    (received c flag body).flag = flag := rfl

theorem encode_eq (c : DefaultCodec V) (flag : UInt8) (body : Option (Body V)) :
    encode c flag body = putUint32 (UInt32.ofNat ((bodyBytes c body).length + 1)) ++ [flag] ++
      bodyBytes c body := by
  cases body with
  | none => rfl
  | some b => rfl

/-- One call of `Decode` on a fresh message reads one encoded message, whatever follows it. -/
theorem decode_encode (c : DefaultCodec V) (flag : UInt8) (body : Option (Body V))
    (hfit : (bodyBytes c body).length + 1 < 2 ^ 32) (more : Bytes) :
    decode c {} (encode c flag body ++ more) = (true, received c flag body, more) := by
  rw [encode_eq]
  set b := bodyBytes c body with hb
  have hnat : (UInt32.ofNat (b.length + 1)).toNat = b.length + 1 := by
    rw [UInt32.toNat_ofNat']
    exact Nat.mod_eq_of_lt hfit
  have hlen : 5 ≤ (putUint32 (UInt32.ofNat (b.length + 1)) ++ [flag] ++ b ++ more).length := by
    simp only [putUint32, List.length_append, List.length_cons, List.length_nil]
    omega
  have htake : (putUint32 (UInt32.ofNat (b.length + 1)) ++ [flag] ++ b ++ more).take 4 =
      putUint32 (UInt32.ofNat (b.length + 1)) := by
    simp [putUint32]
  have hflag : (putUint32 (UInt32.ofNat (b.length + 1)) ++ [flag] ++ b ++ more).getD 4 0 = flag := by
    simp [putUint32]
  have hdrop : (putUint32 (UInt32.ofNat (b.length + 1)) ++ [flag] ++ b ++ more).drop 5 =
      b ++ more := by
    simp [putUint32]
  rw [decode, if_pos rfl, if_pos hlen, htake, hflag, hdrop, getUint32_putUint32]
  by_cases hnil : b.length = 0
  · have hb0 : b = [] := List.length_eq_zero_iff.mp hnil
    simp [decodeBody, received, ← hb, hb0]
  · have hgt : UInt32.ofNat (b.length + 1) > 1 := by
      refine UInt32.lt_iff_toNat_lt.mpr ?_
      rw [hnat]
      show 1 < b.length + 1
      omega
    have hone : UInt32.ofNat (b.length + 1) ≠ 1 := fun e => absurd (e ▸ hgt) (by decide)
    have hsize : (UInt32.ofNat (b.length + 1) - 1).toNat = b.length := by
      rw [UInt32.toNat_sub_of_le _ _ (UInt32.le_of_lt hgt), hnat]
      show b.length + 1 - 1 = b.length
      omega
    rw [decodeBody, if_neg hone, if_pos ⟨hgt, rfl⟩]
    simp only [hsize]
    rw [if_pos (by rw [List.length_append]; omega), List.take_left, List.drop_left]
    cases hz : c.gzip with
    | false => simp [decodeData, received, ← hb, hz, hnil]
    | true => simp [decodeData, received, ← hb, hz, hnil]

/-- The bytes that arrive are the bytes that were sent, if decompression inverts compression. -/
theorem received_payload (c : DefaultCodec V)
    (hinv : c.gzip = true → ∀ d, unGzip c.packages (some (gzip c.packages d)) = some d)
    (flag : UInt8) (body : Option (Body V)) :
    (received c flag body).data.getD [] = payload c.packages body := by
  cases body with
  | none => simp [received, bodyBytes, payload]
  | some b =>
    cases hz : c.gzip with
    | false =>
      simp only [received, bodyBytes, payload, hz, Bool.false_eq_true, if_false, Option.map_some,
        Option.getD_some]
      split_ifs with hlen
      · exact (List.length_eq_zero_iff.mp hlen).symm
      · rfl
    | true =>
      have hd := hinv hz (toByte c.packages b)
      simp only [received, bodyBytes, payload, hz, if_true, Option.map_some, Option.getD_some]
      split_ifs with hlen
      · rw [List.length_eq_zero_iff.mp hlen] at hd
        simpa [unGzip] using hd
      · rw [hd]; rfl

end OwnX.Nio
