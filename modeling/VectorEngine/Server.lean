import VectorEngine.Service
import VectorEngine.Wakeup

/-!
# `VectorEngine.Server`: from the bytes of the clients to the bytes of the replies

The whole program while it serves: any number of reactors with their loop threads, a pool of
`n + 1` workers that they share, and the connections of each reactor with their read buffers.
The threads hand batches and replies over as in `Wakeup`, with each lock and each notification.
The callbacks of a connection are those of a `Session`, and a callback that asks for a dispatch
makes the loop thread submit a batch.

A loop thread makes a callback when it is not in `_on_reply` and owes no notification. A
callback that ends the process leads to no state.

`received` and `written` are histories: what libuv has passed to `on_read` for each connection,
and what was handed to `uv_write` for it. No step reads them.
-/

set_option autoImplicit false

namespace VectorEngine

variable {ρ : Type} {n : Nat}

/-- The bytes of a callback. -/
def Callback.bytes : Callback → ByteString
  | .event (.data bytes) => bytes
  | .event (.alloc _) | .event .idle | .failed _ => []

/-- The action pushes something that does not come from a connection or from a worker. -/
def Wakeup.Action.pushes {τ ω : Type} : Wakeup.Action τ ω ρ → Bool
  | .submit _ _ _ | .send _ _ _ => true
  | _ => false

/-- The reactors with the state of their loops, the workers, and for each reactor the heap of its
connections. It is the model from which the results about replies are drawn: here real bytes
arrive, and real sessions turn them into batches. -/
structure Server (ρ : Type) (n : Nat) where
  /-- The workers, the reactors, and the notifications between them. -/
  threads : Wakeup Empty (Fin (n + 1)) ρ
  /-- The connections that were created and not deleted. -/
  sessions : ρ → ConnectionId → Option Session
  /-- History: the bytes of the reads. -/
  received : ρ → ConnectionId → ByteString
  /-- History: the bytes of the writes. -/
  written : ρ → ConnectionId → ByteString

namespace Server

/-- What the process has built when it starts to serve. -/
def init : Server ρ n where
  threads :=
    { workers := fun _ => .init
      waiting := fun _ => .awake
      reactors := fun _ => { connectionCnt := 0, connections := ∅, replies := [], swapped := [] }
      flag := fun _ => false
      loops := fun _ => .polling
      owed := fun _ => none }
  sessions _ _ := none
  received _ _ := []
  written _ _ := []

variable [DecidableEq ρ]

/-- An entry of a table with a row for each reactor. -/
def put {α : Type} (table : ρ → ConnectionId → α) (r : ρ) (id : ConnectionId) (x : α) :
    ρ → ConnectionId → α :=
  Function.update table r (Function.update (table r) id x)

/-- The loop thread can make a callback. -/
def Free (s : Server ρ n) (r : ρ) : Prop :=
  s.threads.loops r = .polling ∧ s.threads.owed (.loop r) = none

/-- Whether a reactor is between two callbacks can be looked at. -/
instance (s : Server ρ n) (r : ρ) : Decidable (s.Free r) :=
  inferInstanceAs (Decidable (_ ∧ _))

/-- The actions. A client connects or is refused, libuv makes a callback on a connection, a
connection is deleted, and the threads take a step. -/
inductive Action (ρ : Type) (n : Nat) where
  /-- `_on_connect`, and what `uv_accept` answers. -/
  | connect (r : ρ) (accepted : Bool)
  /-- `on_alloc` or `on_read` of a connection. -/
  | callback (r : ρ) (id : ConnectionId) (c : Callback)
  /-- `on_close` -/
  | close (r : ρ) (id : ConnectionId)
  /-- A step of a thread between two callbacks. -/
  | thread (a : Wakeup.Action Empty (Fin (n + 1)) ρ)

/-- `_on_connect`, with `_create_client`. Ids do not run out. -/
def onConnect (opts : ReactorOptions) (s : Server ρ n) (r : ρ) (accepted : Bool) :
    Option (Server ρ n) :=
  let reactor := s.threads.reactors r
  if reactor.connectionCnt + 1 < 2 ^ 64 then
    match Connection.init reactor.connectionCnt opts.connectionOpts.readBufMinSize
        opts.connectionOpts.readBufMaxSize opts.protocolOpts with
    | .error _ => none
    | .ok conn =>
      let session := Session.start conn
      some { s with
        threads := s.threads.setReactor r reactor.createClient
        sessions := put s.sessions r reactor.connectionCnt
          (some (if accepted then session else { session with status := .closing })) }
  else none

/-- What a callback asks for. `Reactor::dispatch` submits a batch to the worker of the
connection. -/
def perform (r : ρ) (threads : Wakeup Empty (Fin (n + 1)) ρ) :
    Effect → Option (Wakeup Empty (Fin (n + 1)) ρ)
  | .dispatch id tasks =>
    threads.step (.submit (.loop r) (WorkerPool.fetch n id)
      { tasks := tasks, connectionId := id, reactor := some r })
  | .handleClose => some threads

/-- A callback of a connection. -/
def callback (A : Allocator) (s : Server ρ n) (r : ρ) (id : ConnectionId) (session : Session)
    (c : Callback) : Option (Server ρ n) :=
  match (session.handle A c).status with
  | .crashed _ => none
  | _ =>
    ((session.effects A c).foldlM (perform r) s.threads).map fun threads =>
      { s with
        threads := threads
        sessions := put s.sessions r id (some (session.handle A c))
        received := put s.received r id (s.received r id ++ c.bytes) }

/-- `on_close` -/
def onClose (s : Server ρ n) (r : ρ) (id : ConnectionId) : Server ρ n :=
  { s with
    threads := s.threads.setReactor r ((s.threads.reactors r).removeConnection id)
    sessions := put s.sessions r id none }

/-- The history of a step of `_send()`. -/
def recordWrite (s : Server ρ n) : Wakeup.Action Empty (Fin (n + 1)) ρ → Server ρ n
  | .write r =>
    match (s.threads.reactors r).writeReply with
    | some (_, some reply) =>
      { s with
        written := put s.written r reply.connectionId
          (s.written r reply.connectionId ++ reply.reply) }
    | _ => s
  | _ => s

/-- One step. -/
def step (opts : ReactorOptions) (A : Allocator) (s : Server ρ n) :
    Action ρ n → Option (Server ρ n)
  | .connect r accepted => if s.Free r then s.onConnect opts r accepted else none
  | .callback r id c =>
    match s.sessions r id with
    | none => none
    | some session =>
      if s.Free r ∧ session.Permits c then s.callback A r id session c else none
  | .close r id =>
    match s.sessions r id with
    | none => none
    | some session =>
      if s.Free r ∧ session.status = .closing then some (s.onClose r id) else none
  | .thread a =>
    if a.pushes = false then
      (s.threads.step a).map fun threads => { s.recordWrite a with threads := threads }
    else none

end Server

end VectorEngine
