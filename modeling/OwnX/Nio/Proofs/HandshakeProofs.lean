import OwnX.Nio.Handshake
import OwnX.Nio.Proofs.HandlerProofs

/-!
# Proofs: the session id and what follows it

The loop of `syncSessionId` asks for what is missing of the eight bytes and gets at least one of them,
so it ends, and it takes nothing of what follows.
-/

namespace OwnX.Nio

variable {V : Type}

theorem length_bigEndian (k n : Nat) : (bigEndian k n).length = k := by
  induction k generalizing n with
  | zero => rfl
  | succ k ih => rw [bigEndian, List.length_append, ih, List.length_singleton]

/-- A number is read back from its bytes if they are enough. -/
theorem foldl_bigEndian {k n : Nat} (h : n < 256 ^ k) :
    (bigEndian k n).foldl (fun n b => 256 * n + b.toNat) 0 = n := by
  induction k generalizing n with
  | zero =>
    have hn : n = 0 := by simpa using h
    rw [hn]
    rfl
  | succ k ih =>
    have hdiv : n / 256 < 256 ^ k := by
      apply Nat.div_lt_of_lt_mul
      rwa [Nat.mul_comm, ← Nat.pow_succ]
    rw [bigEndian, List.foldl_append, ih hdiv, List.foldl_cons, List.foldl_nil, UInt8.toNat_ofNat']
    omega

theorem getInt64_putInt64 (n : Int64) : getInt64 (putInt64 n) = n := by
  have hn : n.toUInt64.toNat < 256 ^ 8 := n.toUInt64.toNat_lt
  rw [getInt64, putInt64, foldl_bigEndian hn, UInt64.ofNat_toNat, Int64.toInt64_toUInt64]

/-- The loop reads the missing bytes `missing` and no more, in at most as many turns. -/
theorem syncLoop_reads {conn : Nat → Nat → ConnRead} (hconn : ShortReads conn) (stream : Bytes) :
    ∀ (fuel turn : Nat) (got missing : Bytes), 0 < missing.length → missing.length ≤ fuel →
      syncLoop conn fuel turn missing.length got (missing ++ stream) =
        some (.sid (getInt64 (got ++ missing)) stream) := by
  intro fuel
  induction fuel with
  | zero =>
    intro turn got missing hpos hfuel
    omega
  | succ fuel ih =>
    intro turn got missing hpos hfuel
    obtain ⟨rlen, hread, hone, hle⟩ := hconn turn missing.length hpos
    have htake : (missing ++ stream).take rlen = missing.take rlen :=
      List.take_append_of_le_length hle
    have hdrop : (missing ++ stream).drop rlen = missing.drop rlen ++ stream :=
      List.drop_append_of_le_length hle
    have hlen : (missing.drop rlen).length = missing.length - rlen := List.length_drop
    rw [syncLoop, hread]
    simp only [htake, hdrop]
    by_cases hdone : missing.length - rlen = 0
    · have hall : missing.length ≤ rlen := by omega
      rw [if_pos hdone, List.take_of_length_le hall, List.drop_of_length_le hall, List.nil_append]
    · rw [if_neg hdone, ← hlen, ih (turn + 1) (got ++ missing.take rlen) (missing.drop rlen)
        (by omega) (by omega), List.append_assoc, List.take_append_drop]

/-- The connector reads the id that the acceptor has written and leaves the stream behind it alone,
however short the reads are. So `readIo` on the rest delivers the frames that were sent. -/
theorem syncSessionId_reads (sessionId : Int64) (stream : Bytes) (conn : Nat → Nat → ConnRead)
    (hconn : ShortReads conn) (fuel : Nat) (hfuel : 8 ≤ fuel) :
    syncSessionId conn fuel (sendSessionId sessionId ++ stream) = some (.sid sessionId stream) ∧
    ∀ (c : DefaultCodec V) (ordered : Bool) (msgs : List (UInt8 × Option (Body V))),
      (c.gzip = true → ∀ d, unGzip c.packages (some (gzip c.packages d)) = some d) →
      (∀ m ∈ msgs, (bodyBytes c m.2).length + 1 < 2 ^ 32) →
      stream = (msgs.flatMap fun m => encode c m.1 m.2) →
      ∀ chunks : List Bytes, chunks.flatten = stream → ∀ calls, stream.length < calls →
        ∃ s, readIo c ordered calls (chunks.map .data) = some s ∧
          s.delivered.map (fun m => (m.flag, m.data.getD [])) =
            msgs.map (fun m => (m.1, payload c.packages m.2)) ∧
          s.buf = [] ∧ s.lastMsg = {} := by
  have hlen : (sendSessionId sessionId).length = 8 := length_bigEndian 8 _
  constructor
  · have hloop := syncLoop_reads hconn stream fuel 0 [] (sendSessionId sessionId) (by omega) (by omega)
    rw [hlen, List.nil_append, sendSessionId, getInt64_putInt64] at hloop
    exact hloop
  · intro c ordered msgs hinv hfit hstream chunks hcut calls hcalls
    refine ⟨_, readIo_frames c ordered hfit (hcut.trans hstream) ?_, map_received c hinv msgs, rfl, rfl⟩
    rw [hcut]
    exact hcalls

/-- A negative id, read byte by byte, before one frame. -/
theorem syncSessionId_reads_negative :
    ShortReads (fun _ _ => .read 1) ∧
      syncSessionId (fun _ _ => .read 1) 8 (sendSessionId (-2) ++ encode plainCodec 7 none) =
        some (.sid (-2) (encode plainCodec 7 none)) := by
  have hconn : ShortReads (fun _ _ => .read 1) := fun _ n hn => ⟨1, rfl, Nat.le_refl 1, hn⟩
  exact ⟨hconn, (syncSessionId_reads (V := Unit) (-2) _ _ hconn 8 (Nat.le_refl 8)).1⟩

end OwnX.Nio
