import OwnX.Nio.Codec

/-!
# The read loop of a connection (`nio/handler.go`)

`readIo` runs one read after the other. A successful read appends to the buffer and decodes as long
as `Decode` succeeds; the outcome of a failed read decides whether the session is closed. A decoded
message is handed to `OnMessageReceived`: by `readIo` itself on a socket that is `ordered`, otherwise by a
goroutine of its own. The handler is one that returns.
-/

namespace OwnX.Nio

variable {V : Type}

/-- What one turn of the loop of `readIo` meets. -/
inductive ReadEvent where
  /-- `socket.closed` is set. -/
  | socketClosed
  /-- The read returned these bytes. -/
  | data (chunk : Bytes)
  /-- The read failed with `EOF`, `closed by the remote host` or `use of closed network`. -/
  | connectionLost
  /-- The read failed in another way. -/
  | readError
  deriving DecidableEq, Repr

/-- The variables of `readIo`, with the messages it has decoded so far. -/
structure ReadState where
  lastMsg : Msg := {}
  buf : Bytes := []
  failTimes : Nat := 0
  /-- The messages that were decoded and handed on. -/
  delivered : List Msg := []
  /-- The messages `OnMessageReceived` was called with, in the order of the calls. -/
  handled : List Msg := []
  /-- The messages whose goroutine was started and has not called `OnMessageReceived` yet. -/
  started : List Msg := []
  /-- `readIo` has returned. -/
  returned : Bool := false
  /-- `readIo` has called `session.Close()`. -/
  sessionClosed : Bool := false
  deriving DecidableEq, Repr

/-- Decoded messages are handed on, one after the other: `ordered` is that of the socket. -/
def ReadState.handOn (ordered : Bool) (s : ReadState) (ms : List Msg) : ReadState :=
  { s with
    delivered := s.delivered ++ ms
    handled := if ordered then s.handled ++ ms else s.handled
    started := if ordered then s.started else s.started ++ ms }

/-- A goroutine that was started calls `OnMessageReceived`. -/
def ReadState.receive (s : ReadState) (m : Msg) : ReadState :=
  { s with handled := s.handled ++ [m], started := s.started.erase m }

/-- The inner loop: `Decode` until it returns false, a fresh message after each success. -/
def decodeLoop (c : DefaultCodec V) (ordered : Bool) (fuel : Nat) (s : ReadState) : Option ReadState :=
  (c.decoder.drain fuel s.lastMsg s.buf).map fun r =>
    { s.handOn ordered r.1 with lastMsg := r.2.1, buf := r.2.2 }

/-- One turn of the loop of `readIo`. The inner loop may make `fuel` calls; `none` means that this
was not enough. -/
def readTurn (c : DefaultCodec V) (ordered : Bool) (fuel : Nat) (s : ReadState) (e : ReadEvent) :
    Option ReadState :=
  if s.returned then some s
  else match e with
    | .socketClosed => some { s with returned := true }
    | .connectionLost => some { s with returned := true, sessionClosed := true }
    | .readError =>
      if 3 ≤ s.failTimes + 1 then
        some { s with failTimes := s.failTimes + 1, returned := true, sessionClosed := true }
      else some { s with failTimes := s.failTimes + 1 }
    | .data chunk =>
      if 0 < chunk.length then
        decodeLoop c ordered fuel { s with failTimes := 0, buf := s.buf ++ chunk }
      else some { s with failTimes := 0 }

/-- `readIo` over the outcomes of its reads, from the state `s`. -/
def readTurns (c : DefaultCodec V) (ordered : Bool) (fuel : Nat) :
    ReadState → List ReadEvent → Option ReadState
  | s, [] => some s
  | s, e :: es => (readTurn c ordered fuel s e).bind fun s' => readTurns c ordered fuel s' es

/-- `readIo` over the outcomes of its reads. -/
def readIo (c : DefaultCodec V) (ordered : Bool) (fuel : Nat) (es : List ReadEvent) : Option ReadState :=
  readTurns c ordered fuel {} es

end OwnX.Nio
