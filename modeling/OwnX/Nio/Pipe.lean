import OwnX.Nio.Handler
import OwnX.Foundations.Machine

/-!
# One direction of a connection (`nio/session.go`, `nio/handler.go`)

The bytes that `Session.Write` has written to the connection and that `readIo` at its other end has not read
yet, and the goroutines that `readIo` has started. Several goroutines may write; `net.Conn` carries out one
`Write` after the other, so frames do not mix.

A `Write` that fails may have written a part of its frame. The connection is broken then, and every later
`Write` fails as well and writes nothing. A read returns between one byte and the 4096 bytes of `ioData`.
-/

namespace OwnX.Nio

variable {V : Type}

/-- One direction of a connection. -/
structure Pipe where
  /-- The bytes written and not yet read. -/
  stream : Bytes := []
  /-- A write has failed. -/
  broken : Bool := false
  /-- `readIo` at the end of the pipe. -/
  reader : ReadState := {}
  deriving DecidableEq

namespace Pipe

/-- `Session.Write`. -/
def write (c : DefaultCodec V) (p : Pipe) (flag : UInt8) (body : Option (Body V)) : Pipe :=
  if p.broken then p else { p with stream := p.stream ++ encode c flag body }

/-- A `Session.Write` that fails after `n` bytes. -/
def fail (c : DefaultCodec V) (p : Pipe) (flag : UInt8) (body : Option (Body V)) (n : Nat) : Pipe :=
  if p.broken then p
  else { p with stream := p.stream ++ (encode c flag body).take n, broken := true }

/-- A turn of `readIo` whose read returns `n` bytes. -/
def read (c : DefaultCodec V) (ordered : Bool) (p : Pipe) (n : Nat) : Option Pipe :=
  if 0 < n ∧ n ≤ 1024 * 4 ∧ n ≤ p.stream.length ∧ p.reader.returned = false then
    (readTurn c ordered (p.reader.buf.length + n + 1) p.reader (.data (p.stream.take n))).map fun r =>
      { p with stream := p.stream.drop n, reader := r }
  else none

/-- A turn of `readIo` whose read returns nothing. -/
def readEnds (c : DefaultCodec V) (ordered : Bool) (p : Pipe) (e : ReadEvent) : Option Pipe :=
  match e with
  | .data _ => none
  | e => (readTurn c ordered 0 p.reader e).map fun r => { p with reader := r }

/-- A goroutine that `readIo` has started calls `OnMessageReceived`. It may do so after `readIo` has
returned. -/
def receive (p : Pipe) (m : Msg) : Option Pipe :=
  if m ∈ p.reader.started then some { p with reader := p.reader.receive m } else none

end Pipe

/-- What may happen to a pipe. -/
inductive PipeEvent (V : Type) where
  | write (flag : UInt8) (body : Option (Body V))
  | fail (flag : UInt8) (body : Option (Body V)) (n : Nat)
  | read (n : Nat)
  | readEnds (e : ReadEvent)
  | receive (m : Msg)

/-- The step of a pipe, with the messages whose write has succeeded. -/
def Pipe.step (c : DefaultCodec V) (ordered : Bool) (s : Pipe × List (UInt8 × Option (Body V))) :
    PipeEvent V → Option (Pipe × List (UInt8 × Option (Body V)))
  | .write flag body => if s.1.broken then none else some (s.1.write c flag body, s.2 ++ [(flag, body)])
  | .fail flag body n =>
    if n < (encode c flag body).length then some (s.1.fail c flag body n, s.2) else none
  | .read n => (s.1.read c ordered n).map fun p => (p, s.2)
  | .readEnds e => (s.1.readEnds c ordered e).map fun p => (p, s.2)
  | .receive m => (s.1.receive m).map fun p => (p, s.2)

/-- A pipe under any order of writes, reads and calls, with the messages whose write has succeeded. -/
def pipe (c : DefaultCodec V) (ordered : Bool) :
    Machine (Pipe × List (UInt8 × Option (Body V))) (PipeEvent V) where
  init := fun s => s = ({}, [])
  step := Pipe.step c ordered

/-- The length of the frame fits its header. -/
def Fits (c : DefaultCodec V) (body : Option (Body V)) : Prop := (bodyBytes c body).length + 1 < 2 ^ 32

instance (c : DefaultCodec V) (body : Option (Body V)) : Decidable (Fits c body) :=
  inferInstanceAs (Decidable (_ < _))

/-- The length of a frame that is written fits its header. -/
def PipeEvent.Fits (c : DefaultCodec V) (_ : Pipe × List (UInt8 × Option (Body V))) : PipeEvent V → Prop
  | .write _ body | .fail _ body _ => Nio.Fits c body
  | .read _ | .readEnds _ | .receive _ => True

instance (c : DefaultCodec V) (s : Pipe × List (UInt8 × Option (Body V))) (e : PipeEvent V) :
    Decidable (PipeEvent.Fits c s e) :=
  match e with
  | .write _ body | .fail _ body _ => inferInstanceAs (Decidable (Nio.Fits c body))
  | .read _ | .readEnds _ | .receive _ => isTrue trivial

end OwnX.Nio
