import VectorEngine.Pool
import VectorEngine.ReactorLoop

/-!
# `VectorEngine.Service`: from the read buffers of a reactor to the workers

The event loop of a reactor makes the callbacks of its connections. A callback that takes
requests out of its read buffer calls `Reactor::dispatch`, which fetches the worker of the
connection and submits a batch to it. The other threads take their steps in between: the
workers, those who submit batches for other reactors, and those who stop workers or the pool.
So `dispatch` is two steps here.

`consumed` is a history of what was taken out of the read buffers. It records for each request
the place in the worker's queue that its batch was given, if it was pushed.

A callback that ends the process leads to no state.
-/

set_option autoImplicit false

namespace VectorEngine

open VectorEngine.Memory

variable {ρ : Type} {n : Nat}

/-- The call of `on_read` in a callback: the connection behind libuv's write, and `nread`. -/
def Session.readOf (s : Session) : Callback → Option (Connection × Int)
  | .event (.alloc _) => none
  | .event (.data bytes) =>
    some ({ s.conn with readBuf := s.conn.readBuf.write s.base bytes }, bytes.length)
  | .event .idle => some (s.conn, 0)
  | .failed nread => some (s.conn, nread)

/-- What a callback asks for. -/
def Session.effects (A : Allocator) (s : Session) (c : Callback) : List Effect :=
  match s.readOf c with
  | none => []
  | some (conn, nread) =>
    match conn.onRead A nread with
    | .ok (_, effects) => effects
    | .error _ => []

/-- Where the loop thread is. A connection is named by the place at which it was created. Between
the two locked sections of a `dispatch`, the pool may be stopped by another thread. -/
inductive DispatchPhase (n : Nat) where
  /-- Between two callbacks. -/
  | idle
  /-- In `Reactor::dispatch`, at `_worker_pool->fetch(id)`. -/
  | fetching (client : Ptr) (id : ConnectionId) (tasks : List Task)
  /-- In `Reactor::dispatch`, at `worker.submit`. -/
  | submitting (worker : Fin (n + 1)) (client : Ptr) (id : ConnectionId) (tasks : List Task)
  deriving DecidableEq, Repr

/-- The loop is in `dispatch` when the callback has called it. -/
def DispatchPhase.after (client : Ptr) (effects : List Effect) : DispatchPhase n :=
  effects.foldl
    (fun phase effect =>
      match effect with
      | .dispatch id tasks => .fetching client id tasks
      | .handleClose => phase)
    .idle

/-- Tasks whose bytes were removed from a read buffer. They are in the history from the moment at
which `dispatch` returns, whatever became of the batch. -/
structure Consumed where
  client : Ptr
  id : ConnectionId
  tasks : List Task
  /-- The place of the batch among what was pushed to the worker of the connection. -/
  place : Option Nat
  deriving DecidableEq, Repr

/-- A reactor and the worker pool. `dispatch` is taken apart into its locked sections here, so
that `WorkerPool::stop` can come between them. -/
structure Service (ρ : Type) (n : Nat) where
  pool : Pool ρ n
  sessions : Heap Session
  loop : DispatchPhase n
  /-- History: the requests whose `dispatch` has returned. -/
  consumed : List Consumed

namespace Service

/-- The service before its first client. -/
def init : Service ρ n where
  pool := .init
  sessions := .empty
  loop := .idle
  consumed := []

/-- `Reactor::_on_connect`, with `Reactor::_create_client`. The ids are counted in 64 bits. -/
def onConnect (opts : ReactorOptions) (s : Service ρ n) (accepted : Bool) :
    Option (Service ρ n) :=
  match Connection.init (s.sessions.next % 2 ^ 64) opts.connectionOpts.readBufMinSize
      opts.connectionOpts.readBufMaxSize opts.protocolOpts with
  | .error _ => none
  | .ok conn =>
    let session := Session.start conn
    some { s with
      sessions := s.sessions.new
        (if accepted then session else { session with status := .closing }) }

/-- A callback of a connection. -/
def callback (A : Allocator) (s : Service ρ n) (client : Ptr) (session : Session)
    (c : Callback) : Option (Service ρ n) :=
  match (session.handle A c).status with
  | .crashed _ => none
  | _ => some { s with sessions := s.sessions.store client (session.handle A c)
                       loop := DispatchPhase.after client (session.effects A c) }

/-- `Reactor::dispatch` returns. -/
def returned (s : Service ρ n) (request : Consumed) : Service ρ n :=
  { s with loop := .idle, consumed := s.consumed ++ [request] }

/-- `_worker_pool->fetch(id)` in `Reactor::dispatch`. When the worker has been stopped, `fetch`
throws, and the `catch` clause is empty. -/
def fetch (s : Service ρ n) : Option (Service ρ n) :=
  match s.loop with
  | .fetching client id tasks =>
    let w := WorkerPool.fetch n id
    if s.pool.phase.present w = true then some { s with loop := .submitting w client id tasks }
    else some (s.returned { client := client, id := id, tasks := tasks, place := none })
  | _ => none

/-- `worker.submit` in `Reactor::dispatch`. When the worker was deleted since, the batch is
pushed to no queue. -/
def submit (self : ρ) (s : Service ρ n) : Option (Service ρ n) :=
  match s.loop with
  | .submitting w client id tasks =>
    if s.pool.phase.alive w = true then
      let batch := { tasks := tasks, connectionId := id, reactor := some self }
      some ({ s with pool := s.pool.setLane w ((s.pool.lanes w).submit batch) }.returned
        { client := client, id := id, tasks := tasks
          place := some (s.pool.lanes w).pushed.length })
    else some (s.returned { client := client, id := id, tasks := tasks, place := none })
  | _ => none

/-- The steps of the threads. `other` is a step of the pool that is not made by the loop thread of
this reactor. -/
inductive Action (ρ : Type) (n : Nat) where
  /-- Another thread. -/
  | other (a : Pool.Action ρ n)
  /-- `_on_connect`, and what `uv_accept` answers. -/
  | connect (accepted : Bool)
  /-- A callback on an open connection. -/
  | callback (client : Ptr) (c : Callback)
  /-- The first half of `dispatch`. -/
  | fetch
  /-- The second half of `dispatch`. -/
  | submit
  /-- `on_close` -/
  | close (client : Ptr)

/-- One step of one thread. The loop thread makes a callback after the last has returned. -/
def step (opts : ReactorOptions) (A : Allocator) (self : ρ) (s : Service ρ n) :
    Action ρ n → Option (Service ρ n)
  | .other a => (s.pool.step a).map fun pool => { s with pool := pool }
  | .connect accepted => if s.loop = .idle then s.onConnect opts accepted else none
  | .callback client c =>
    match s.sessions.objects client with
    | none => none
    | some session =>
      if s.loop = .idle ∧ session.Permits c then s.callback A client session c else none
  | .fetch => s.fetch
  | .submit => s.submit self
  | .close client =>
    match s.sessions.objects client with
    | none => none
    | some session =>
      if s.loop = .idle ∧ session.status = .closing then
        some { s with sessions := s.sessions.delete client }
      else none

end Service

end VectorEngine
