import Mathlib.Data.Finset.Basic
import VectorEngine.Connection
import VectorEngine.Memory.Heap

/-!
# `VectorEngine.ReactorLoop`: the callbacks of a reactor, with the objects they own

The event loop of a reactor runs one callback after another. A callback is given a pointer to
a handle, finds the `Connection` behind the handle's `data`, and creates and deletes objects.
The model keeps the objects of each type on a heap of their own, and beside them what libuv
knows of the handles: which ones it has, how often `uv_close` was called on each, and which
writes it has accepted and not called back.

libuv's promises are the conditions under which `step` makes a callback. No read callback
comes after `uv_close`, a close callback comes once and after `uv_close`, and the callback of a
write comes once and only for a write that was accepted. A write to a handle that is being
closed is refused.

A callback that uses a deleted object sets `fault`. A callback that ends the process leads to
no state. Other threads only append to `_replies` (`send`). The batches that `on_read` passes
on to the workers leave the loop and are not followed here.
-/

set_option autoImplicit false

namespace VectorEngine

open VectorEngine.Memory

/-- The options of a connection: the limits of its read buffer. -/
structure ConnectionOptions where
  readBufMinSize : Nat
  readBufMaxSize : Nat
  deriving DecidableEq, Repr

/-- `ReactorOptions`, without the ones that are only passed on to libuv. -/
structure ReactorOptions where
  connectionOpts : ConnectionOptions
  protocolOpts : ProtocolType
  deriving DecidableEq, Repr

/-- History: what `_create_client` has created. It keeps the pointers after the objects are
deleted, so that one can say which objects are left and which were deleted twice. -/
structure Client where
  id : ConnectionId
  connection : Ptr
  handle : Ptr
  deriving DecidableEq, Repr

/-- The loop of a reactor with its heap: the clients that libuv knows of, the table that owns the
connections, and the id of the next one. -/
structure ReactorLoop where
  /-- `_connection_cnt` -/
  connectionCnt : ConnectionId
  /-- `_connections` -/
  connections : ConnectionId → Option Ptr
  /-- `_replies` -/
  replies : List Reply
  /-- The `uv_tcp_t` of the clients. The content is the `data` pointer. -/
  handles : Heap Ptr
  conns : Heap Connection
  /-- The `ReplyContext`s. The content is the reply. -/
  contexts : Heap Reply
  /-- The `uv_write_t`s. The content is the `data` pointer. -/
  requests : Heap Ptr
  /-- libuv: the client handles of the loop. -/
  registered : Finset Ptr
  /-- libuv: the number of calls of `uv_close` on a handle. -/
  closes : Ptr → Nat
  /-- libuv: `uv_read_start` was called. -/
  reading : Ptr → Bool
  /-- libuv: the pointer and the length that the last `on_alloc` returned. -/
  room : Ptr → Nat × Nat
  /-- libuv: the accepted writes that it has not called back. -/
  inFlight : List Ptr
  /-- A deleted object was used. -/
  fault : Bool
  /-- History: the clients that were created. -/
  created : List Client
  /-- History: the ids of the connections whose `on_close` has run. -/
  closed : List ConnectionId
  /-- History: the calls of `uv_write`, each with its reply and its handle. -/
  written : List (Reply × Ptr)

namespace ReactorLoop

/-- `std::unordered_map::emplace`: an entry that is there stays. -/
def emplace (table : ConnectionId → Option Ptr) (id : ConnectionId) (handle : Ptr) :
    ConnectionId → Option Ptr :=
  if table id = none then Function.update table id (some handle) else table

/-- The reactor as it is constructed. -/
def init : ReactorLoop where
  connectionCnt := 0
  connections _ := none
  replies := []
  handles := .empty
  conns := .empty
  contexts := .empty
  requests := .empty
  registered := ∅
  closes _ := 0
  reading _ := false
  room _ := (0, 0)
  inFlight := []
  fault := false
  created := []
  closed := []
  written := []

/-- The `Connection` that a handle's `data` points to. -/
def connectionOf (s : ReactorLoop) (handle : Ptr) : Option (Ptr × Connection) :=
  match s.handles.objects handle with
  | none => none
  | some connection => (s.conns.objects connection).map fun conn => (connection, conn)

/-- `uv::handle_close` -/
def handleClose (s : ReactorLoop) (handle : Ptr) : ReactorLoop :=
  { s with closes := Function.update s.closes handle (s.closes handle + 1) }

/-- `uv_read_start` -/
def readStart (s : ReactorLoop) (handle : Ptr) : ReactorLoop :=
  { s with reading := Function.update s.reading handle true }

/-- `Reactor::_create_client`, with `uv::make_tcp_client`: the state, the id and the handle. -/
def createClient (opts : ReactorOptions) (s : ReactorLoop) :
    Except Abrupt (ReactorLoop × ConnectionId × Ptr) := do
  let id := s.connectionCnt
  let conn ← Connection.init id opts.connectionOpts.readBufMinSize
    opts.connectionOpts.readBufMaxSize opts.protocolOpts
  let connection := s.conns.next
  let handle := s.handles.next
  return ({ s with
            connectionCnt := (id + 1) % 2 ^ 64
            connections := emplace s.connections id handle
            handles := s.handles.new connection
            conns := s.conns.new conn
            registered := insert handle s.registered
            created := s.created ++ [{ id := id, connection := connection, handle := handle }] },
    id, handle)

/-- `Reactor::_on_connect`. `accepted` is what `uv_accept` answers. -/
def onConnect (opts : ReactorOptions) (s : ReactorLoop) (status : Int) (accepted : Bool) :
    Option ReactorLoop :=
  if status < 0 then some s
  else
    match s.createClient opts with
    | .error _ => none
    | .ok (s, id, handle) =>
      let s := if accepted then s.readStart handle else s.handleClose handle
      -- The id has its entry already.
      some { s with connections := emplace s.connections id handle }

/-- `Connection::on_alloc` -/
def onAlloc (s : ReactorLoop) (handle : Ptr) (suggestedSize : Nat) : Option ReactorLoop :=
  match s.connectionOf handle with
  | none => some { s with fault := true }
  | some (connection, conn) =>
    match conn.onAlloc suggestedSize with
    | .error _ => none
    | .ok (conn, base, len) =>
      some { s with conns := s.conns.store connection conn
                    room := Function.update s.room handle (base, len) }

/-- What `on_read` asks for. A dispatch leaves the loop. -/
def applyEffect (handle : Ptr) (s : ReactorLoop) : Effect → ReactorLoop
  | .dispatch _ _ => s
  | .handleClose => s.handleClose handle

/-- `Connection::on_read` with `nread > 0`, behind libuv's write of the bytes. -/
def onRead (A : Allocator) (s : ReactorLoop) (handle : Ptr) (bytes : ByteString) :
    Option ReactorLoop :=
  match s.connectionOf handle with
  | none => some { s with fault := true }
  | some (connection, conn) =>
    let conn := { conn with readBuf := conn.readBuf.write (s.room handle).1 bytes }
    match conn.onRead A bytes.length with
    | .error _ => none
    | .ok (conn, effects) =>
      some (effects.foldl (applyEffect handle)
        { s with conns := s.conns.store connection conn
                 room := Function.update s.room handle (0, 0) })

/-- `Connection::on_read` with `nread <= 0`. It does not look at the `Connection`. -/
def onReadEnd (s : ReactorLoop) (handle : Ptr) (nread : Int) : ReactorLoop :=
  if nread < 0 then s.handleClose handle else s

/-- `Connection::on_close` -/
def onClose (s : ReactorLoop) (handle : Ptr) : ReactorLoop :=
  match s.connectionOf handle with
  | none => { s with fault := true }
  | some (connection, conn) =>
    { s with
      connections := Function.update s.connections conn.id none
      conns := s.conns.delete connection
      handles := s.handles.delete handle
      closed := s.closed ++ [conn.id] }

/-- The part of `Reactor::_send(Reply)` behind the look-up. The context and the request are
released, whatever `uv_write` answers. -/
def writeTo (s : ReactorLoop) (reply : Reply) (handle : Ptr) (accepted : Bool) : ReactorLoop :=
  let ctx := s.contexts.next
  let w := s.requests.next
  { s with
    contexts := s.contexts.new reply
    requests := s.requests.new ctx
    inFlight := if accepted = true ∧ s.closes handle = 0 then s.inFlight ++ [w] else s.inFlight
    fault := s.fault || !decide (s.handles.Live handle)
    written := s.written ++ [(reply, handle)] }

/-- `Reactor::_send(Reply)`. `accepted` is what `uv_write` answers, unless the handle is being
closed. -/
def sendReply (s : ReactorLoop) (out : Reply × Bool) : ReactorLoop :=
  match s.connections out.1.connectionId with
  | none => s
  | some handle => s.writeTo out.1 handle out.2

/-- `Reactor::_on_reply`, with `Reactor::_send()`. -/
def onReply (s : ReactorLoop) (accepted : List Bool) : ReactorLoop :=
  (s.replies.zip accepted).foldl sendReply { s with replies := [] }

/-- `Reactor::_on_write` -/
def onWrite (s : ReactorLoop) (w : Ptr) (status : Int) : ReactorLoop :=
  if status < 0 then s
  else
    match s.requests.objects w with
    | none => { s with fault := true }
    | some ctx =>
      { s with contexts := s.contexts.delete ctx
               requests := s.requests.delete w
               fault := s.fault || !decide (s.contexts.Live ctx) }

/-- The callbacks, and the call of `Reactor::send` on another thread. A callback is possible only
when libuv may make it, which is a condition on the members below that belong to libuv. -/
inductive Action where
  /-- `_on_connect`, and what `uv_accept` answers. -/
  | connect (status : Int) (accepted : Bool)
  /-- `on_alloc` -/
  | alloc (handle : Ptr) (suggestedSize : Nat)
  /-- `on_read` with data. -/
  | read (handle : Ptr) (bytes : ByteString)
  /-- `on_read` with `nread <= 0`. -/
  | readEnd (handle : Ptr) (nread : Int)
  /-- `on_close` -/
  | close (handle : Ptr)
  /-- A worker calls `Reactor::send`. -/
  | send (replies : List Reply)
  /-- `_on_reply`, and what `uv_write` answers for each reply. -/
  | reply (accepted : List Bool)
  /-- `_on_write` -/
  | write (w : Ptr) (status : Int)
  deriving DecidableEq, Repr

/-- libuv may make a read callback on the handle. -/
def Reads (s : ReactorLoop) (handle : Ptr) : Prop :=
  s.reading handle = true ∧ s.closes handle = 0

/-- Whether libuv reads from a client can be looked at in the heap. -/
instance (s : ReactorLoop) (handle : Ptr) : Decidable (s.Reads handle) :=
  inferInstanceAs (Decidable (s.reading handle = true ∧ s.closes handle = 0))

/-- One callback, when libuv may make it. -/
def step (opts : ReactorOptions) (A : Allocator) (s : ReactorLoop) : Action → Option ReactorLoop
  | .connect status accepted => s.onConnect opts status accepted
  | .alloc handle suggestedSize =>
    if s.Reads handle then s.onAlloc handle suggestedSize else none
  | .read handle bytes =>
    if s.Reads handle ∧ bytes ≠ [] ∧ bytes.length ≤ (s.room handle).2 then
      s.onRead A handle bytes
    else none
  | .readEnd handle nread =>
    if s.Reads handle ∧ nread ≤ 0 then some (s.onReadEnd handle nread) else none
  | .close handle =>
    if handle ∈ s.registered ∧ 0 < s.closes handle then
      -- The handle leaves the loop before the callback runs.
      some ({ s with registered := s.registered.erase handle }.onClose handle)
    else none
  | .send replies => some { s with replies := s.replies ++ replies }
  | .reply accepted =>
    if accepted.length = s.replies.length then some (s.onReply accepted) else none
  | .write w status =>
    if w ∈ s.inFlight then some ({ s with inFlight := s.inFlight.erase w }.onWrite w status)
    else none

end ReactorLoop

end VectorEngine
