import OwnX.Nio.Handler
import OwnX.Nio.Proofs.CodecProofs

/-!
# Proofs: what `readIo` delivers

Whatever the chunks, `readIo` ends where draining the concatenated stream ends. The round trip and
the independence of the chunking follow.
-/

namespace OwnX.Nio

variable {V : Type}

theorem ReadState.handOn_handOn (ordered : Bool) (s : ReadState) (ms more : List Msg) :
    (s.handOn ordered ms).handOn ordered more = s.handOn ordered (ms ++ more) := by
  cases ordered <;> simp [handOn]

/-- A read of `data` in a running `readIo` whose buffer is drained: it ends in the drained state of
the buffer with `data` appended, also when `data` is empty and no decoding is done. -/
theorem readTurn_data (c : DefaultCodec V) (ordered : Bool) (fuel : Nat) {s : ReadState}
    (hret : s.returned = false) (hfail : s.failTimes = 0) (hm : HalfRead s.lastMsg)
    (hidle : decode c s.lastMsg s.buf = (false, s.lastMsg, s.buf)) (chunk : Bytes)
    (hfuel : s.buf.length + chunk.length < fuel) :
    ∃ out m' rest, c.decoder.drain fuel s.lastMsg (s.buf ++ chunk) = some (out, m', rest) ∧
      readTurn c ordered fuel s (.data chunk) =
        some { s.handOn ordered out with lastMsg := m', buf := rest } ∧
      HalfRead m' ∧ decode c m' rest = (false, m', rest) := by
  have hD := decoder_incremental c
  obtain ⟨out, m', rest, hd, hm'⟩ := Decoder.drain_total hD fuel s.lastMsg (s.buf ++ chunk) hm
    (by rw [List.length_append]; omega)
  refine ⟨out, m', rest, hd, ?_, hm', Decoder.drain_idle hD hm hd⟩
  by_cases hpos : 0 < chunk.length
  · simp [readTurn, hret, hpos, decodeLoop, hd, hfail, ReadState.handOn]
  · have hnil : chunk = [] := List.length_eq_zero_iff.mp (by omega)
    obtain ⟨k, rfl⟩ : ∃ k, fuel = k + 1 := ⟨fuel - 1, by omega⟩
    subst hnil
    have hstop : c.decoder.drain (k + 1) s.lastMsg s.buf = some ([], s.lastMsg, s.buf) := by
      rw [Decoder.drain, show c.decoder.decode = decode c from rfl, hidle]
    rw [List.append_nil, hstop, Option.some.injEq, Prod.mk.injEq, Prod.mk.injEq] at hd
    obtain ⟨rfl, rfl, rfl⟩ := hd
    simp [readTurn, hret, ← hfail, ReadState.handOn]

/-- The reads of a whole input, from a running `readIo` whose buffer is drained. -/
theorem readTurns_data (c : DefaultCodec V) (ordered : Bool) (fuel : Nat) (chunks : List Bytes) :
    ∀ {s : ReadState}, s.returned = false → s.failTimes = 0 → HalfRead s.lastMsg →
      decode c s.lastMsg s.buf = (false, s.lastMsg, s.buf) →
      s.buf.length + chunks.flatten.length < fuel →
      ∃ out m' rest k, c.decoder.drain k s.lastMsg (s.buf ++ chunks.flatten) = some (out, m', rest) ∧
        readTurns c ordered fuel s (chunks.map .data) =
          some { s.handOn ordered out with lastMsg := m', buf := rest } := by
  induction chunks with
  | nil =>
    intro s hret hfail hm hidle hfuel
    refine ⟨[], s.lastMsg, s.buf, 1, ?_, by simp [readTurns, ReadState.handOn]⟩
    rw [List.flatten_nil, List.append_nil, Decoder.drain,
      show c.decoder.decode = decode c from rfl, hidle]
  | cons chunk chunks ih =>
    intro s hret hfail hm hidle hfuel
    rw [List.flatten_cons, List.length_append] at hfuel
    obtain ⟨out, m', rest, hd, hturn, hm', hidle'⟩ :=
      readTurn_data c ordered fuel hret hfail hm hidle chunk (by omega)
    have hrest := Decoder.drain_length_le (decoder_incremental c) hm hd
    rw [List.length_append] at hrest
    have hlen : rest.length + chunks.flatten.length < fuel := by omega
    obtain ⟨out', m₂, rest₂, k, hd', hturns⟩ :=
      ih (s := { s.handOn ordered out with lastMsg := m', buf := rest })
        hret hfail hm' hidle' hlen
    refine ⟨out ++ out', m₂, rest₂, fuel + k, ?_, ?_⟩
    · rw [List.flatten_cons, ← List.append_assoc]
      exact Decoder.drain_append (decoder_incremental c) hm hd chunks.flatten hd'
    · rw [List.map_cons, readTurns, hturn, Option.bind_some, hturns, ← ReadState.handOn_handOn]
      rfl

/-- `readIo` over data ends where draining the concatenation of the chunks ends. -/
theorem readIo_data (c : DefaultCodec V) (ordered : Bool) {fuel : Nat} {chunks : List Bytes}
    (hfuel : chunks.flatten.length < fuel) :
    ∃ out m' rest, readIo c ordered fuel (chunks.map .data) =
        some { ReadState.handOn ordered {} out with lastMsg := m', buf := rest } ∧
      HalfRead m' ∧
      c.decoder.drain (chunks.flatten.length + 1) {} chunks.flatten = some (out, m', rest) := by
  have hD := decoder_incremental c
  obtain ⟨out, m', rest, k, hd, hturns⟩ := readTurns_data c ordered fuel chunks (s := {}) rfl rfl
    hD.fresh hD.nil (by simpa using hfuel)
  obtain ⟨out', m₂, rest₂, hd', hm₂⟩ := Decoder.drain_total hD (chunks.flatten.length + 1) {}
    chunks.flatten hD.fresh (by omega)
  -- the two drains differ in their fuel only
  have hk := Decoder.drain_mono (Nat.le_max_left k (chunks.flatten.length + 1)) hd
  have hk' := Decoder.drain_mono (Nat.le_max_right k (chunks.flatten.length + 1)) hd'
  simp only [List.nil_append] at hk hturns
  rw [hk', Option.some.injEq, Prod.mk.injEq, Prod.mk.injEq] at hk
  obtain ⟨rfl, rfl, rfl⟩ := hk
  exact ⟨out', m₂, rest₂, hturns, hm₂, hd'⟩

/-- Two ways of cutting one byte stream into chunks, well-formed or not, deliver the same messages
and leave the same half-read message and the same unread bytes. Every successful `Decode` on a
message `readIo` holds takes something off the buffer, so the inner loop ends. -/
theorem readIo_chunking (c : DefaultCodec V) (ordered : Bool) (chunks₁ chunks₂ : List Bytes)
    (hsame : chunks₁.flatten = chunks₂.flatten) (fuel₁ fuel₂ : Nat)
    (hfuel₁ : chunks₁.flatten.length < fuel₁) (hfuel₂ : chunks₂.flatten.length < fuel₂) :
    ∃ s, readIo c ordered fuel₁ (chunks₁.map .data) = some s ∧
      readIo c ordered fuel₂ (chunks₂.map .data) = some s ∧
      ∀ held, held = s.lastMsg ∨ held = {} → ∀ buf msg rest,
        decode c held buf = (true, msg, rest) → rest.length < buf.length := by
  obtain ⟨out, m, rest, h₁, hm, hd₁⟩ := readIo_data c ordered hfuel₁
  obtain ⟨out', m', rest', h₂, -, hd₂⟩ := readIo_data c ordered hfuel₂
  rw [hsame, hd₂, Option.some.injEq, Prod.mk.injEq, Prod.mk.injEq] at hd₁
  obtain ⟨rfl, rfl, rfl⟩ := hd₁
  refine ⟨_, h₁, h₂, ?_⟩
  rintro held (rfl | rfl) buf msg rest hdec
  · exact (decoder_incremental c).progress hm hdec
  · exact (decoder_incremental c).progress (decoder_incremental c).fresh hdec

/-- A codec without compression for values that have no JSON form. -/
def plainCodec : DefaultCodec Unit where
  packages := { marshal := fun _ => none, compress := id, decompress := some }
  gzip := false

/-- A frame of length `2` cut inside its header, before a frame of length `0` and one of length `1`. -/
theorem readIo_chunking_malformed :
    ∃ s, readIo plainCodec false 17
        ([[0, 0], [0, 2, 7, 65, 0, 0, 0, 0, 9], [0, 0, 0, 1, 8]].map .data) = some s ∧
      readIo plainCodec false 17 ([[0, 0, 0, 2, 7, 65, 0, 0, 0, 0, 9, 0, 0, 0, 1, 8]].map .data) = some s ∧
      ∀ held, held = s.lastMsg ∨ held = {} → ∀ buf msg rest,
        decode plainCodec held buf = (true, msg, rest) → rest.length < buf.length :=
  readIo_chunking plainCodec false _ _ rfl 17 17 (by decide) (by decide)

/-- Encoded messages, cut into chunks anywhere: `readIo` ends with all of them received. -/
theorem readIo_frames (c : DefaultCodec V) (ordered : Bool) {msgs : List (UInt8 × Option (Body V))}
    (hfit : ∀ m ∈ msgs, (bodyBytes c m.2).length + 1 < 2 ^ 32)
    {chunks : List Bytes} (hcut : chunks.flatten = msgs.flatMap fun m => encode c m.1 m.2)
    {fuel : Nat} (hfuel : chunks.flatten.length < fuel) :
    readIo c ordered fuel (chunks.map .data) =
      some (ReadState.handOn ordered {} (msgs.map fun m => received c m.1 m.2)) := by
  have hD := decoder_incremental c
  obtain ⟨out, m', rest, hread, -, hd⟩ := readIo_data c ordered hfuel
  have hitems := Decoder.drain_items hD (fun m : UInt8 × Option (Body V) => encode c m.1 m.2)
    (fun m => received c m.1 m.2) msgs fun m hm more => decode_encode c m.1 m.2 (hfit m hm) more
  -- the stream is drained with more fuel than there are messages
  have h₁ := Decoder.drain_mono (Nat.le_max_left (chunks.flatten.length + 1) (msgs.length + 1)) hd
  have h₂ := Decoder.drain_mono (Nat.le_max_right (chunks.flatten.length + 1) (msgs.length + 1)) hitems
  rw [← hcut] at h₂
  have heq := Option.some.inj (h₁.symm.trans h₂)
  rw [Prod.mk.injEq, Prod.mk.injEq] at heq
  obtain ⟨rfl, rfl, rfl⟩ := heq
  exact hread

theorem map_received (c : DefaultCodec V)
    (hinv : c.gzip = true → ∀ d, unGzip c.packages (some (gzip c.packages d)) = some d)
    (msgs : List (UInt8 × Option (Body V))) :
    (msgs.map fun m => received c m.1 m.2).map (fun m => (m.flag, m.data.getD [])) =
      msgs.map fun m => (m.1, payload c.packages m.2) := by
  rw [List.map_map]
  apply List.map_congr_left
  intro m _
  rw [Function.comp_apply, received_payload c hinv, received_flag]

/-- Encoded messages, cut into chunks anywhere, are delivered in order with their flags and body
bytes, and nothing is left over. -/
theorem readIo_encode (c : DefaultCodec V) (ordered : Bool)
    (hinv : c.gzip = true → ∀ d, unGzip c.packages (some (gzip c.packages d)) = some d)
    (msgs : List (UInt8 × Option (Body V)))
    (hfit : ∀ m ∈ msgs, (bodyBytes c m.2).length + 1 < 2 ^ 32)
    (chunks : List Bytes) (hcut : chunks.flatten = msgs.flatMap fun m => encode c m.1 m.2)
    (fuel : Nat) (hfuel : chunks.flatten.length < fuel) :
    ∃ s, readIo c ordered fuel (chunks.map .data) = some s ∧
      s.delivered.map (fun m => (m.flag, m.data.getD [])) =
        msgs.map (fun m => (m.1, payload c.packages m.2)) ∧
      s.buf = [] ∧ s.lastMsg = {} :=
  ⟨_, readIo_frames c ordered hfit hcut hfuel, map_received c hinv msgs, rfl, rfl⟩

/-- The bytes `gzip.Writer` writes for the input `a`: header, one block, an empty block for `Flush`,
the final block, checksum and size. -/
def gzipOfA : Bytes :=
  [0x1f, 0x8b, 8, 0, 0, 0, 0, 0, 0, 0xff, 0x4a, 4, 0, 0, 0, 0xff, 0xff, 1, 0, 0, 0xff, 0xff,
    0x43, 0xbe, 0xb7, 0xe8, 1, 0, 0, 0]

/-- A codec with compression that treats the input `a` as `compress/gzip` does and marks any other
input. -/
def gzipCodec : DefaultCodec Unit where
  packages :=
    { marshal := fun _ => none
      compress := fun d => if d = [97] then gzipOfA else 0 :: d
      decompress := fun b => if b = gzipOfA then some [97] else b.tail? }
  gzip := true

theorem gzipCodec_inverts (d : Bytes) :
    unGzip gzipCodec.packages (some (gzip gzipCodec.packages d)) = some d := by
  by_cases hnil : d.length = 0
  · have : d = [] := List.length_eq_zero_iff.mp hnil
    subst this
    rfl
  · by_cases ha : d = [97]
    · subst ha
      decide
    · simp [gzip, unGzip, gzipCodec, hnil, ha, gzipOfA]

/-- Three messages with compression, cut after the second byte and inside the first body. -/
theorem readIo_encode_gzip :
    ∃ s, readIo gzipCodec false 100 ([(encode gzipCodec 12 (some (.string [97]))).take 2,
        (encode gzipCodec 12 (some (.string [97]))).drop 2 ++ encode gzipCodec 200 none,
        encode gzipCodec 13 (some (.bytes []))].map .data) = some s ∧
      s.delivered.map (fun m => (m.flag, m.data.getD [])) = [(12, [97]), (200, []), (13, [])] ∧
      s.buf = [] ∧ s.lastMsg = {} :=
  readIo_encode gzipCodec false (fun _ => gzipCodec_inverts)
    [(12, some (.string [97])), (200, none), (13, some (.bytes []))] (by decide) _ (by decide) 100
    (by decide)

end OwnX.Nio
