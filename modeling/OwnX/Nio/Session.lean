import OwnX.Nio.Handler
import OwnX.Foundations.Machine

/-!
# Closing sessions (`nio/client.go`, `nio/acceptor.go`, `nio/session.go`)

A socket with its sessions: the connector of one connection, or an acceptor. Each session has a
`readIo` goroutine, which looks at `socket.closed`, reads, and may call `session.Close`; an acceptor
also has the goroutine of `handlerConnection`. Both are at a point between two of their steps.

Every closing call starts the callback `OnSessionClosed` in a goroutine of its own, which runs sooner
or later; the calls are kept in the order in which they are started. A socket has a handler for it.
-/

namespace OwnX.Nio

/-- Where a `readIo` goroutine is. -/
inductive Reader where
  /-- Before it looks at `socket.closed`. -/
  | check (failTimes : Nat)
  /-- In the read. -/
  | read (failTimes : Nat)
  /-- It has returned. -/
  | returned
  deriving DecidableEq, Repr

/-- The goroutine after what it meets, and whether it calls `session.Close`. -/
def Reader.turn (failTimes : Nat) : ReadEvent → Reader × Bool
  | .socketClosed => (.returned, false)
  | .data _ => (.check 0, false)
  | .connectionLost => (.returned, true)
  | .readError => if 3 ≤ failTimes + 1 then (.returned, true) else (.check (failTimes + 1), false)

/-- Where the goroutine of `handlerConnection` is. -/
inductive Accepting where
  /-- Before it looks at `socket.closed`. -/
  | check
  /-- In `Accept`. -/
  | accept
  /-- It has a connection, and is to send the session id and to add the session. -/
  | add
  /-- It has ended, or the socket is no acceptor. -/
  | ended
  deriving DecidableEq, Repr

/-- A `SocketConnector` that has connected, or a `SocketAcceptor`. The sessions are numbered in the
order they are made; that of a connector has the number `0`. -/
structure Socket where
  isClient : Bool
  closed : Bool := false
  /-- The session of a connector, or the map `sessions` of an acceptor. -/
  sessions : List Nat
  /-- The number of sessions made. -/
  created : Nat
  accepting : Accepting
  readers : Nat → Reader := fun _ => .check 0
  /-- The sessions for which `OnSessionClosed` was called, in this order. -/
  calls : List Nat := []
  /-- The sessions that the socket had at a `Close`. No step reads it. -/
  swept : List Nat := []

/-- A connector after `Connect`, or an acceptor after `Open`. -/
def Socket.start (isClient : Bool) : Socket :=
  if isClient then { isClient := true, sessions := [0], created := 1, accepting := .ended }
  else { isClient := false, sessions := [], created := 0, accepting := .check }

/-- What may happen to a socket. -/
inductive SocketEvent where
  /-- `Close` of the connector or the acceptor. -/
  | close
  /-- `Session.Close`. -/
  | sessionClose (id : Nat)
  /-- `handlerConnection` looks at `socket.closed`. -/
  | loop
  /-- `Accept` returns, with a connection or with an error. -/
  | accept (ok : Bool)
  /-- The session id is sent, and on success the session is added. -/
  | add (ok : Bool)
  /-- `readIo` of a session looks at `socket.closed`. -/
  | check (id : Nat)
  /-- The read of a session returns. -/
  | read (id : Nat) (e : ReadEvent)
  deriving DecidableEq, Repr

namespace Socket

/-- `SocketConnector.Close` and `SocketAcceptor.Close`: neither looks at `closed`, and the acceptor
keeps its sessions. -/
def close (s : Socket) : Socket :=
  { s with closed := true, calls := s.calls ++ s.sessions, swept := s.swept ++ s.sessions }

/-- `SocketAcceptor.CloseSession`. -/
def closeSession (s : Socket) (id : Nat) : Socket :=
  { s with sessions := s.sessions.erase id, calls := s.calls ++ [id] }

/-- `Session.Close`. -/
def sessionClose (s : Socket) (id : Nat) : Socket :=
  if s.isClient then s.close else s.closeSession id

/-- A write to the place of a `readIo` goroutine. -/
def setReader (s : Socket) (id : Nat) (r : Reader) : Socket :=
  { s with readers := fun i => if i = id then r else s.readers i }

/-- `addSession`. -/
def addSession (s : Socket) : Socket :=
  { s with sessions := s.sessions ++ [s.created], created := s.created + 1 }

/-- The step of a socket. Once the listener is closed, `Accept` returns no connection. -/
def step (s : Socket) : SocketEvent → Option Socket
  | .close => some s.close
  | .sessionClose id => if id < s.created then some (s.sessionClose id) else none
  | .loop =>
    if s.accepting = .check then some { s with accepting := if s.closed then .ended else .accept }
    else none
  | .accept ok =>
    if s.accepting = .accept ∧ (ok → !s.closed) then
      some { s with accepting := if ok then .add else .ended }
    else none
  | .add ok =>
    if s.accepting = .add then some { if ok then s.addSession else s with accepting := .check }
    else none
  | .check id =>
    if id < s.created then
      match s.readers id with
      | .check failTimes => some (s.setReader id (if s.closed then .returned else .read failTimes))
      | _ => none
    else none
  | .read id e =>
    if id < s.created then
      match s.readers id with
      | .read failTimes =>
        if e = .socketClosed then none
        else
          let r := Reader.turn failTimes e
          let s := s.setReader id r.1
          some (if r.2 then s.sessionClose id else s)
      | _ => none
    else none

end Socket

/-- A connector or an acceptor under any order of closing calls and read outcomes. -/
def socket (isClient : Bool) : Machine Socket SocketEvent where
  init := fun s => s = Socket.start isClient
  step := Socket.step

end OwnX.Nio
