import OwnX.Nio.Handler

/-!
# The session id (`nio/acceptor.go`, `nio/client.go`)

The acceptor writes the id of a session as the first eight bytes of the connection. The connector reads
them before it starts `readIo` on the same connection. Nothing separates the id from the frames behind
it: each read asks for no more than what is missing of the id.
-/

namespace OwnX.Nio

/-- The lowest `k` bytes of a number, in big-endian order. -/
def bigEndian : Nat → Nat → Bytes
  | 0, _ => []
  | k + 1, n => bigEndian k (n / 256) ++ [UInt8.ofNat n]

/-- `binary.Write` of an `int64` in big-endian order. -/
def putInt64 (n : Int64) : Bytes := bigEndian 8 n.toUInt64.toNat

/-- `binary.Read` of an `int64` in big-endian order. -/
def getInt64 (bs : Bytes) : Int64 :=
  (UInt64.ofNat (bs.foldl (fun n b => 256 * n + b.toNat) 0)).toInt64

/-- `sendSessionId`: the bytes it writes to the connection. -/
def sendSessionId (sessionId : Int64) : Bytes := putInt64 sessionId

/-- How a `Read` of the connection ends: with a number of bytes, or with an error. -/
inductive ConnRead where
  | read (rlen : Nat)
  | ioErr
  deriving DecidableEq, Repr

/-- What `syncSessionId` returns, with the bytes that are left in the connection. -/
inductive SyncResult where
  | sid (sid : Int64) (stream : Bytes)
  | ioErr
  deriving DecidableEq, Repr

/-- The loop of `syncSessionId`, when `firstDataLen` bytes are missing. `conn` is how each `Read` of
the connection ends, by its turn and the number of bytes it is asked for; `stream` is what it reads
from. `none` means that `fuel` reads were not enough. -/
def syncLoop (conn : Nat → Nat → ConnRead) :
    Nat → Nat → Nat → Bytes → Bytes → Option SyncResult
  | 0, _, _, _, _ => none
  | fuel + 1, turn, firstDataLen, firstData, stream =>
    match conn turn firstDataLen with
    | .ioErr => some .ioErr
    | .read rlen =>
      let firstData := firstData ++ stream.take rlen
      let stream := stream.drop rlen
      if firstDataLen - rlen = 0 then some (.sid (getInt64 firstData) stream)
      else syncLoop conn fuel (turn + 1) (firstDataLen - rlen) firstData stream

/-- `syncSessionId`. -/
def syncSessionId (conn : Nat → Nat → ConnRead) (fuel : Nat) (stream : Bytes) : Option SyncResult :=
  syncLoop conn fuel 0 8 [] stream

/-- Every `Read` succeeds, with at least one byte and at most as many as it is asked for. -/
def ShortReads (conn : Nat → Nat → ConnRead) : Prop :=
  ∀ turn n, 0 < n → ∃ rlen, conn turn n = .read rlen ∧ 1 ≤ rlen ∧ rlen ≤ n

end OwnX.Nio
