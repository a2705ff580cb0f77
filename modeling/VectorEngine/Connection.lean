import VectorEngine.ReadBuffer
import VectorEngine.Worker

/-!
# `VectorEngine.Connection`: `Connection`, and libuv's side of a read

`on_alloc` hands out room in the read buffer. `on_read` takes over what libuv wrote there,
parses the data, and passes the tasks on. What it asks of the reactor and of libuv is
returned as a list of effects.

A `Session` is a connection together with what libuv promises: no callback follows the
close, each `on_read` with data uses the room of the `on_alloc` before it, and at most its
length is written there.
-/

set_option autoImplicit false

namespace VectorEngine

/-- `Connection`, as far as the callbacks use it: its id in the table of the reactor, its read
buffer, and the protocol that says which parser takes the requests. -/
structure Connection where
  id : ConnectionId
  readBuf : ReadBuffer
  protocol : ProtocolType
  deriving DecidableEq, Repr

/-- What `on_read` asks for. The callbacks of a connection do not call the reactor themselves in
the model. They return what they ask for, and the models of the reactor carry it out. -/
inductive Effect where
  /-- `_reactor.dispatch(id, tasks, ..)` -/
  | dispatch (id : ConnectionId) (tasks : List Task)
  /-- `uv::handle_close(client, on_close)` -/
  | handleClose
  deriving DecidableEq, Repr

namespace Connection

/-- `Connection::Connection` -/
def init (id : ConnectionId) (minSize maxSize : Nat) (protocol : ProtocolType) :
    Except Abrupt Connection := do
  let readBuf ← ReadBuffer.init minSize maxSize
  return { id := id, readBuf := readBuf, protocol := protocol }

/-- `Connection::on_alloc`: the pointer and the length of `buf`. -/
def onAlloc (conn : Connection) (suggestedSize : Nat) :
    Except Abrupt (Connection × Nat × Nat) := do
  let (readBuf, base, len) ← conn.readBuf.alloc suggestedSize
  return ({ conn with readBuf := readBuf }, base, len)

/-- `Connection::_parse_request` -/
def parseRequest (A : Allocator) (conn : Connection) (buffer : ByteString) :
    Except Abrupt (List Task × Nat) :=
  RequestParserCreator.parse conn.protocol A buffer

/-- `Connection::on_read`. The `catch` clause covers `sw::vengine::Error` alone. -/
def onRead (A : Allocator) (conn : Connection) (nread : Int) :
    Except Abrupt (Connection × List Effect) :=
  if 0 < nread then do
    let buffer ← conn.readBuf.occupy nread.toNat
    let conn := { conn with readBuf := buffer }
    match conn.parseRequest A buffer.data with
    | .ok (tasks, len) =>
      if tasks ≠ [] then
        ReadBuffer.check "len > 0" (0 < len)
        let buffer ← buffer.dealloc len
        return ({ conn with readBuf := buffer }, [.dispatch conn.id tasks])
      else
        return (conn, [])
    | .error (.error _) => return (conn, [.handleClose])
    | .error e => .error e
  else if nread < 0 then
    .ok (conn, [.handleClose])
  else
    .ok (conn, [])

end Connection

/-! ### Sessions -/

/-- What has become of a connection. Behind `uv_close` libuv makes no read callback any more, and
a process that has crashed makes none at all. -/
inductive Status where
  | opened
  /-- `uv_close` was called. -/
  | closing
  /-- An exception left the event loop, or the process was lost in another way. -/
  | crashed (e : Abrupt)
  deriving DecidableEq, Repr

/-- A callback on the connection. libuv calls `on_alloc` before a read, and `on_read` with what it
has read into that room, or with nothing. -/
inductive ReadEvent where
  /-- `on_alloc` -/
  | alloc (suggestedSize : Nat)
  /-- libuv writes `bytes` into the room it was given, and calls `on_read`. -/
  | data (bytes : ByteString)
  /-- `on_read` with `nread == 0`. -/
  | idle
  deriving DecidableEq, Repr

/-- A connection under libuv. What the callbacks need from each other is here: the room that
`on_alloc` handed out, which the next `on_read` writes to, and the commands that were dispatched
so far. -/
structure Session where
  conn : Connection
  /-- The pointer that the last `on_alloc` returned. -/
  base : Nat
  /-- The length that the last `on_alloc` returned, until it is used. -/
  grant : Nat
  /-- The task lists dispatched so far. -/
  dispatched : List (List Task)
  status : Status
  deriving DecidableEq, Repr

namespace Session

/-- A session at its start. -/
def start (conn : Connection) : Session where
  conn := conn
  base := 0
  grant := 0
  dispatched := []
  status := .opened

/-- One effect. -/
def applyEffect (s : Session) : Effect → Session
  | .dispatch _ tasks => { s with dispatched := s.dispatched ++ [tasks] }
  | .handleClose => { s with status := .closing }

/-- What an `on_read` leaves. -/
def afterRead (s : Session) (out : Except Abrupt (Connection × List Effect)) : Session :=
  match out with
  | .ok (conn, effects) => effects.foldl applyEffect { s with conn := conn }
  | .error e => { s with status := .crashed e }

/-- One callback. -/
def step (A : Allocator) (s : Session) : ReadEvent → Session
  | .alloc suggestedSize =>
    match s.conn.onAlloc suggestedSize with
    | .ok (conn, base, len) => { s with conn := conn, base := base, grant := len }
    | .error e => { s with status := .crashed e }
  | .data bytes =>
    let conn := { s.conn with readBuf := s.conn.readBuf.write s.base bytes }
    { s with grant := 0 }.afterRead (conn.onRead A bytes.length)
  | .idle => s.afterRead (s.conn.onRead A 0)

/-- A run of callbacks. -/
def run (A : Allocator) (s : Session) (events : List ReadEvent) : Session :=
  events.foldl (step A) s

/-- libuv may make this callback now. -/
def Allows (s : Session) : ReadEvent → Prop
  | .alloc suggestedSize => s.status = .opened ∧ 0 < suggestedSize
  | .data bytes => s.status = .opened ∧ bytes ≠ [] ∧ bytes.length ≤ s.grant
  | .idle => s.status = .opened

/-- libuv may make these callbacks, one after another. -/
def Admissible (A : Allocator) : Session → List ReadEvent → Prop
  | _, [] => True
  | s, e :: events => s.Allows e ∧ Admissible A (s.step A e) events

/-- Whether a callback may come is a comparison of sizes, so that admissible runs can be
evaluated. -/
instance (s : Session) : (e : ReadEvent) → Decidable (s.Allows e)
  | .alloc suggestedSize =>
    inferInstanceAs (Decidable (s.status = .opened ∧ 0 < suggestedSize))
  | .data bytes =>
    inferInstanceAs (Decidable (s.status = .opened ∧ bytes ≠ [] ∧ bytes.length ≤ s.grant))
  | .idle => inferInstanceAs (Decidable (s.status = .opened))

/-- Whether a list of callbacks is admissible is decided by running it, one callback after
another. -/
instance decidableAdmissible (A : Allocator) :
    (s : Session) → (events : List ReadEvent) → Decidable (s.Admissible A events)
  | _, [] => isTrue trivial
  | s, e :: events =>
    have := decidableAdmissible A (s.step A e) events
    inferInstanceAs (Decidable (s.Allows e ∧ Admissible A (s.step A e) events))

end Session

/-! ### All callbacks of a connection -/

/-- A callback on the connection, with the reads that libuv reports as failed. -/
inductive Callback where
  | event (e : ReadEvent)
  /-- `on_read` with `nread < 0`: the end of the stream, or an error. -/
  | failed (nread : Int)
  deriving DecidableEq, Repr

namespace Session

/-- One callback. -/
def handle (A : Allocator) (s : Session) : Callback → Session
  | .event e => s.step A e
  | .failed nread => s.afterRead (s.conn.onRead A nread)

/-- libuv may make this callback now. The suggested size of an `on_alloc` may be anything. -/
def Permits (s : Session) : Callback → Prop
  | .event (.alloc _) => s.status = .opened
  | .event (.data bytes) => s.Allows (.data bytes)
  | .event .idle => s.status = .opened
  | .failed nread => s.status = .opened ∧ nread < 0

/-- A callback that may come finds the connection open. -/
theorem Permits.opened {s : Session} {c : Callback} (h : s.Permits c) : s.status = .opened := by
  cases c with
  | event e =>
    cases e with
    | alloc suggestedSize => exact h
    | data bytes => exact h.1
    | idle => exact h
  | failed nread => exact h.1

/-- libuv may make these callbacks, one after another. -/
def Permitted (A : Allocator) : Session → List Callback → Prop
  | _, [] => True
  | s, c :: cs => s.Permits c ∧ Permitted A (s.handle A c) cs

/-- Whether libuv may make a callback depends on the status of the connection and on the room that
was handed out, and both can be looked at. -/
instance (s : Session) : (c : Callback) → Decidable (s.Permits c)
  | .event (.alloc _) => inferInstanceAs (Decidable (s.status = .opened))
  | .event (.data bytes) => inferInstanceAs (Decidable (s.Allows (.data bytes)))
  | .event .idle => inferInstanceAs (Decidable (s.status = .opened))
  | .failed nread => inferInstanceAs (Decidable (s.status = .opened ∧ nread < 0))

/-- Whether a list of callbacks is permitted is decided by running it, one callback after another.
-/
instance decidablePermitted (A : Allocator) :
    (s : Session) → (cs : List Callback) → Decidable (s.Permitted A cs)
  | _, [] => isTrue trivial
  | s, c :: cs =>
    have := decidablePermitted A (s.handle A c) cs
    inferInstanceAs (Decidable (s.Permits c ∧ Permitted A (s.handle A c) cs))

end Session

/-- The bytes that the callbacks deliver. -/
def received : List ReadEvent → ByteString
  | [] => []
  | .data bytes :: events => bytes ++ received events
  | _ :: events => received events

end VectorEngine
