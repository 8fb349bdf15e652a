import OwnX.Nio.Pipe
import OwnX.Nio.Proofs.HandlerProofs
import OwnX.Foundations.Proofs.MachineProofs

/-!
# Proofs: a pipe delivers what was written

What `readIo` holds and what is still in the stream together give the messages written and not yet delivered.
A write adds one at the end, a read takes some off the front, and a failed write adds none: a part of a frame
is never taken for a frame. `OnMessageReceived` is called once for each message that is delivered. The calls
have the order of the messages on an ordered socket only.
-/

namespace OwnX.Nio

variable {V : Type} {c : DefaultCodec V} {ordered : Bool}

/-- A read of some bytes, in a `readIo` that has not returned. -/
theorem readTurn_read {s : ReadState} (hret : s.returned = false) (hm : HalfRead s.lastMsg) {chunk : Bytes}
    (hpos : 0 < chunk.length) {fuel : Nat} (hfuel : s.buf.length + chunk.length < fuel) :
    ∃ out m' rest, c.decoder.drain fuel s.lastMsg (s.buf ++ chunk) = some (out, m', rest) ∧
      readTurn c ordered fuel s (.data chunk) =
        some { s.handOn ordered out with failTimes := 0, lastMsg := m', buf := rest } ∧
      HalfRead m' ∧ decode c m' rest = (false, m', rest) := by
  obtain ⟨out, m', rest, hd, hm'⟩ := Decoder.drain_total (decoder_incremental c) fuel s.lastMsg
    (s.buf ++ chunk) hm (by rw [List.length_append]; omega)
  refine ⟨out, m', rest, hd, ?_, hm', Decoder.drain_idle (decoder_incremental c) hm hd⟩
  simp [readTurn, hret, hpos, decodeLoop, hd, ReadState.handOn]

/-- The reader goes from `s` to `s'` and hands on the messages `out`. -/
structure HandsOn (ordered : Bool) (s s' : ReadState) (out : List Msg) : Prop where
  delivered : s'.delivered = (s.handOn ordered out).delivered
  handled : s'.handled = (s.handOn ordered out).handled
  started : s'.started = (s.handOn ordered out).started

/-- A turn without data leaves everything but the end of the loop as it was. -/
theorem readTurn_noData {s s' : ReadState} {fuel : Nat} {e : ReadEvent} (he : ∀ chunk, e ≠ .data chunk)
    (h : readTurn c ordered fuel s e = some s') :
    s'.lastMsg = s.lastMsg ∧ s'.buf = s.buf ∧ HandsOn ordered s s' [] := by
  cases e with
  | data chunk => exact absurd rfl (he chunk)
  | socketClosed | connectionLost | readError =>
    simp only [readTurn] at h
    split_ifs at h <;>
      exact (Option.some.inj h) ▸ ⟨rfl, rfl, by simp [ReadState.handOn], by simp [ReadState.handOn],
        by simp [ReadState.handOn]⟩

/-- `OnMessageReceived` was called, or a goroutine is about to call it, once for each message that was
delivered. On an ordered socket it was called for all of them, in their order. -/
structure Accounted (ordered : Bool) (s : ReadState) : Prop where
  calls : (s.handled ++ s.started).Perm s.delivered
  inOrder : ordered = true → s.started = [] ∧ s.handled = s.delivered

namespace Accounted

variable {s s' : ReadState}

theorem handOn (h : Accounted ordered s) {out : List Msg} (hs : HandsOn ordered s s' out) :
    Accounted ordered s' := by
  obtain ⟨hdel, hcall, hstart⟩ := hs
  cases ordered with
  | true =>
    obtain ⟨hnone, hall⟩ := h.inOrder rfl
    have hstart' : s'.started = [] := hstart.trans hnone
    have hcall' : s'.handled = s'.delivered := by
      rw [hcall, hdel]
      exact congrArg (· ++ out) hall
    refine ⟨?_, fun _ => ⟨hstart', hcall'⟩⟩
    rw [hstart', hcall', List.append_nil]
  | false =>
    refine ⟨?_, fun h => nomatch h⟩
    have hstart' : s'.started = s.started ++ out := hstart
    have hcall' : s'.handled = s.handled := hcall
    rw [hstart', hcall', hdel, ← List.append_assoc]
    exact h.calls.append_right out

/-- A goroutine calls `OnMessageReceived`: it was among those that were started. -/
theorem receive (h : Accounted ordered s) {m : Msg} (hm : m ∈ s.started) :
    Accounted ordered (s.receive m) := by
  refine ⟨?_, fun hord => ?_⟩
  · have hperm : (s.handled ++ [m] ++ s.started.erase m).Perm (s.handled ++ s.started) := by
      rw [List.append_assoc]
      exact (List.perm_cons_erase hm).symm.append_left s.handled
    exact hperm.trans h.calls
  · rw [(h.inOrder hord).1] at hm
    cases hm

end Accounted

namespace Pipe

/-- The pipe carries the messages `ms`: they are written and not yet delivered. -/
structure Carries (c : DefaultCodec V) (p : Pipe) (ms : List Msg) : Prop where
  half : HalfRead p.reader.lastMsg
  idle : decode c p.reader.lastMsg p.reader.buf = (false, p.reader.lastMsg, p.reader.buf)
  yields : c.decoder.Yields p.reader.lastMsg (p.reader.buf ++ p.stream) ms !p.broken

variable {p p' : Pipe} {ms : List Msg}

theorem reader_write (c : DefaultCodec V) (p : Pipe) (flag : UInt8) (body : Option (Body V)) :
    (p.write c flag body).reader = p.reader := by
  unfold write
  split <;> rfl

theorem reader_fail (c : DefaultCodec V) (p : Pipe) (flag : UInt8) (body : Option (Body V)) (n : Nat) :
    (p.fail c flag body n).reader = p.reader := by
  unfold fail
  split <;> rfl

theorem carries_init : Carries c ({} : Pipe) [] where
  half := (decoder_incremental c).fresh
  idle := (decoder_incremental c).nil
  yields := ⟨1, ({}, []), by
    simp [Decoder.drain, show c.decoder.decode = decode c from rfl, show decode c {} [] = (false, {}, []) from
      (decoder_incremental c).nil], fun _ => rfl⟩

/-- A write adds its message, unless the pipe is broken. -/
theorem Carries.write (h : Carries c p ms) (flag : UInt8) {body : Option (Body V)} (hfit : Fits c body) :
    Carries c (p.write c flag body) (if p.broken then ms else ms ++ [received c flag body]) := by
  unfold Pipe.write
  split_ifs with hb
  · exact h
  · rw [Bool.not_eq_true] at hb
    have hitem := Decoder.yields_item (decoder_incremental c) (e := encode c flag body)
      (decode_encode c flag body hfit)
    refine ⟨h.half, h.idle, ?_⟩
    have hy := h.yields
    rw [hb] at hy
    rw [← List.append_assoc, hb]
    exact Decoder.Yields.append (decoder_incremental c) h.half hy hitem

/-- A failed write adds no message. -/
theorem Carries.fail (h : Carries c p ms) (flag : UInt8) {body : Option (Body V)} (hfit : Fits c body)
    {n : Nat} (hn : n < (encode c flag body).length) : Carries c (p.fail c flag body n) ms := by
  unfold Pipe.fail
  split_ifs with hb
  · exact h
  · rw [Bool.not_eq_true] at hb
    have hpart := Decoder.yields_part (decoder_incremental c) (e := encode c flag body)
      (decode_encode c flag body hfit) hn
    refine ⟨h.half, h.idle, ?_⟩
    have hy := h.yields
    rw [hb] at hy
    rw [← List.append_assoc, ← List.append_nil ms]
    exact Decoder.Yields.append (decoder_incremental c) h.half hy hpart

/-- A read delivers the first of the messages. -/
theorem Carries.read (h : Carries c p ms) {n : Nat} (hs : p.read c ordered n = some p') :
    ∃ out rest, ms = out ++ rest ∧ HandsOn ordered p.reader p'.reader out ∧ Carries c p' rest := by
  obtain ⟨⟨hpos, -, hle, hret⟩, hs⟩ := Option.ite_none_right_eq_some.1 hs
  have hlen : (p.stream.take n).length = n := List.length_take_of_le hle
  have hpos' : 0 < (p.stream.take n).length := by omega
  have hfuel : p.reader.buf.length + (p.stream.take n).length < p.reader.buf.length + n + 1 := by omega
  obtain ⟨out, m', rest, hd, hturn, hm', hidle⟩ := readTurn_read hret h.half hpos' hfuel
  rw [hturn, Option.map_some, Option.some.injEq] at hs
  have hy := h.yields
  rw [← List.take_append_drop n p.stream, ← List.append_assoc] at hy
  obtain ⟨ys, hms, hy'⟩ := Decoder.Yields.drain (decoder_incremental c) h.half hy hd hm'
  subst hs
  exact ⟨out, ys, hms, ⟨rfl, rfl, rfl⟩, hm', hidle, hy'⟩

/-- A read that returns nothing delivers nothing. -/
theorem Carries.readEnds (h : Carries c p ms) {e : ReadEvent} (hs : p.readEnds c ordered e = some p') :
    HandsOn ordered p.reader p'.reader [] ∧ Carries c p' ms := by
  have hne : ∀ chunk, e ≠ .data chunk := by
    rintro chunk rfl
    cases hs
  have hturn : (readTurn c ordered 0 p.reader e).map (fun r => { p with reader := r }) = some p' := by
    cases e with
    | data chunk => exact absurd rfl (hne chunk)
    | socketClosed | connectionLost | readError => exact hs
  obtain ⟨r, hr, rfl⟩ := Option.map_eq_some_iff.1 hturn
  obtain ⟨hmsg, hbuf, hdel⟩ := readTurn_noData hne hr
  refine ⟨hdel, ?_, ?_, ?_⟩
  · rw [hmsg]
    exact h.half
  · rw [hmsg, hbuf]
    exact h.idle
  · rw [hmsg, hbuf]
    exact h.yields

/-- A goroutine that runs takes nothing off the pipe. -/
theorem Carries.receive (h : Carries c p ms) (m : Msg) :
    Carries c { p with reader := p.reader.receive m } ms :=
  ⟨h.half, h.idle, h.yields⟩

/-- When everything is read, nothing is carried. -/
theorem Carries.nil_of_read (h : Carries c p ms) (hs : p.stream = []) :
    ms = [] ∧ (p.broken = false → p.reader.lastMsg = {} ∧ p.reader.buf = []) := by
  have hy := h.yields
  rw [hs, List.append_nil] at hy
  obtain ⟨hnil, hclean⟩ := hy.of_idle h.idle
  exact ⟨hnil, fun hb => hclean (by rw [hb]; rfl)⟩

end Pipe

/-- In every state of a pipe, what was delivered and what it carries is what was written. -/
theorem carries_of_reachable {s : Pipe × List (UInt8 × Option (Body V))}
    (h : (pipe c ordered).ReachableWhen (PipeEvent.Fits c) s) :
    ∃ ms, s.1.Carries c ms ∧
      s.1.reader.delivered ++ ms = (s.2.map fun m => received c m.1 m.2) ∧ Accounted ordered s.1.reader := by
  refine Machine.ReachableWhen.invariant (fun s : Pipe × List (UInt8 × Option (Body V)) =>
    ∃ ms, s.1.Carries c ms ∧ s.1.reader.delivered ++ ms = (s.2.map fun m => received c m.1 m.2) ∧
      Accounted ordered s.1.reader) ?_ ?_ h
  · rintro s rfl
    exact ⟨[], Pipe.carries_init, rfl, List.Perm.nil, fun _ => ⟨rfl, rfl⟩⟩
  · rintro ⟨p, written⟩ e s' - ⟨ms, hc, heq, hacc⟩ hfit hs
    cases e with
    | write flag body =>
      simp only [pipe, Pipe.step, Option.ite_none_left_eq_some, Option.some.injEq] at hs
      obtain ⟨hb, rfl⟩ := hs
      have hw := hc.write flag hfit
      rw [if_neg hb] at hw
      refine ⟨_, hw, ?_, by rwa [Pipe.reader_write]⟩
      rw [List.map_append, ← heq, List.append_assoc, Pipe.reader_write]
      rfl
    | fail flag body n =>
      obtain ⟨hn, hs⟩ := Option.ite_none_right_eq_some.1 hs
      obtain rfl := Option.some.inj hs
      exact ⟨ms, hc.fail flag hfit hn, by rw [← heq, Pipe.reader_fail], by rwa [Pipe.reader_fail]⟩
    | read n =>
      obtain ⟨p', hp', rfl⟩ := Option.map_eq_some_iff.1 hs
      obtain ⟨out, rest, rfl, hon, hc'⟩ := hc.read hp'
      refine ⟨rest, hc', ?_, hacc.handOn hon⟩
      rw [← heq, hon.delivered]
      exact List.append_assoc _ _ _
    | readEnds e =>
      obtain ⟨p', hp', rfl⟩ := Option.map_eq_some_iff.1 hs
      obtain ⟨hon, hc'⟩ := hc.readEnds hp'
      refine ⟨ms, hc', ?_, hacc.handOn hon⟩
      rw [← heq, hon.delivered]
      exact congrArg (· ++ ms) (List.append_nil _)
    | receive m =>
      obtain ⟨p', hp', rfl⟩ := Option.map_eq_some_iff.1 hs
      obtain ⟨hm, hp'⟩ := Option.ite_none_right_eq_some.1 hp'
      obtain rfl := Option.some.inj hp'
      exact ⟨ms, hc.receive m, heq, hacc.receive hm⟩

/-- Whatever the order of writes, failed writes and reads, and however short the reads are: the messages
that `readIo` delivers are the first of those written, in order, each once, with their flags and body bytes.
When the stream is read to its end they are all of them; and if no write has failed, nothing is left
half-read. `OnMessageReceived` is called once for each message that is delivered: by `readIo`, in their
order, on an ordered socket; otherwise by a goroutine, in any order. -/
theorem pipe_delivers (hinv : c.gzip = true → ∀ d, unGzip c.packages (some (gzip c.packages d)) = some d)
    {p : Pipe} {written : List (UInt8 × Option (Body V))}
    (h : (pipe c ordered).ReachableWhen (PipeEvent.Fits c) (p, written)) :
    (p.reader.delivered.map fun m => (m.flag, m.data.getD [])) <+:
        (written.map fun m => (m.1, payload c.packages m.2)) ∧
      (p.stream = [] →
        (p.reader.delivered.map fun m => (m.flag, m.data.getD [])) =
            (written.map fun m => (m.1, payload c.packages m.2)) ∧
          (p.broken = false → p.reader.lastMsg = {} ∧ p.reader.buf = [])) ∧
      (p.reader.handled ++ p.reader.started).Perm p.reader.delivered ∧
      (ordered = true → p.reader.started = [] ∧ p.reader.handled = p.reader.delivered) := by
  obtain ⟨ms, hc, heq, hacc⟩ := carries_of_reachable h
  have hall := map_received c hinv written
  rw [← heq, List.map_append] at hall
  refine ⟨⟨_, hall⟩, fun hs => ?_, hacc.calls, hacc.inOrder⟩
  obtain ⟨rfl, hclean⟩ := hc.nil_of_read hs
  rw [List.map_nil, List.append_nil] at hall
  exact ⟨hall, hclean⟩

/-- Two frames read in pieces of two, five and five bytes, behind them three bytes of a failed third one. The
goroutine of the second message comes first: its call is made, the other one is not. -/
theorem pipe_delivers_broken :
    ∃ p, (pipe plainCodec false).ReachableWhen (PipeEvent.Fits plainCodec)
        (p, [(12, some (.bytes [65])), (200, none)]) ∧
      p.broken = true ∧ p.stream = [0, 0] ∧
      (p.reader.handled.map fun m => m.flag) = [200] ∧
      (p.reader.delivered.map fun m => (m.flag, m.data.getD [])) <+:
        (([(12, some (.bytes [65])), (200, none)] : List (UInt8 × Option (Body Unit))).map
          fun m => (m.1, payload plainCodec.packages m.2)) ∧
      (p.reader.handled ++ p.reader.started).Perm p.reader.delivered := by
  have hrun : (((pipe plainCodec false).restrict (PipeEvent.Fits plainCodec)).run ({}, [])
      [.write 12 (some (.bytes [65])), .read 2, .write 200 none, .readEnds .readError, .read 5,
        .fail 13 none 3, .read 5, .receive { flag := 200, length := 1 }]).map
          (fun s => (s.2, s.1.broken, s.1.stream, s.1.reader.handled.map fun m => m.flag)) =
      some ([(12, some (.bytes [65])), (200, none)], true, [0, 0], [200]) := by decide
  obtain ⟨⟨p, written⟩, hreach, hseen⟩ := Machine.observedWhen_of_run hrun rfl
  obtain ⟨rfl, hbroken, hstream, hcalled⟩ : written = _ ∧ p.broken = true ∧ p.stream = [0, 0] ∧
      (p.reader.handled.map fun m => m.flag) = [200] := by
    simpa only [Prod.mk.injEq] using hseen
  obtain ⟨hpre, -, hperm, -⟩ := pipe_delivers (fun h => absurd h (by decide)) hreach
  exact ⟨p, hreach, hbroken, hstream, hcalled, hpre, hperm⟩

end OwnX.Nio
