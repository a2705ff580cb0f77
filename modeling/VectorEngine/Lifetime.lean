import VectorEngine.ReactorLoop

/-!
# `VectorEngine.Lifetime`: a reactor from its construction to its destruction

The constructor of `Reactor` makes the loop and registers four handles with it: the server, two
asyncs and a timer. Each libuv or `setsockopt` call on the way is a step here, and may fail.
The exception then unwinds what was built. The loop thread runs the callbacks of `ReactorLoop`
meanwhile, where the set-up of a client may fail as well. The destructors run in the reverse
order of the members: `_loop` first, with `LoopDeleter`, and the handles after it.

The server and the asyncs are owned by a `unique_ptr`, first a local one in `uv::make_..`, and
then the member. The timer is a member itself. For each of them the model keeps two facts: the
loop has it, and its memory is there. The client handles are those of the `ReactorLoop`.
-/

set_option autoImplicit false

namespace VectorEngine

open VectorEngine.Memory

/-- `TcpOptions`, as far as the calls that are made depend on it. -/
structure TcpOptions where
  keepalive : Nat
  nodelay : Bool
  deriving DecidableEq, Repr

/-- The handles that are members of a reactor. The timer is a part of the object, and the others
are behind a `unique_ptr`. Either way their memory goes with the reactor, whether the loop still
has them or not. -/
inductive OwnHandle where
  | server
  | stopAsync
  | replyAsync
  | timer
  deriving DecidableEq, Repr

/-- The calls of `uv::make_tcp_server` behind `uv_tcp_init_ex`. A failure of each throws. Behind
the first of them the server is registered with its loop and is owned by a pointer of the function
only. -/
inductive ServerCall where
  /-- `uv_fileno` -/
  | fileno
  /-- `setsockopt` with `SO_REUSEPORT` -/
  | reuseport
  /-- `uv_tcp_nodelay` -/
  | nodelay
  /-- `uv_ip4_addr` or `uv_ip6_addr` -/
  | address
  /-- `uv_tcp_bind` -/
  | bind
  /-- `uv_listen` -/
  | listen
  deriving DecidableEq, Repr

/-- The next call of `uv::make_tcp_server`, if any. -/
def ServerCall.next (opts : TcpOptions) : ServerCall → Option ServerCall
  | .fileno => some .reuseport
  | .reuseport => some (if opts.nodelay then .nodelay else .address)
  | .nodelay => some .address
  | .address => some .bind
  | .bind => some .listen
  | .listen => none

/-- Where the main thread is. The phases follow the constructor call by call, as each of these
calls can throw and the members that exist then are destroyed. The destructor has a phase for each
member. -/
inductive LifePhase where
  /-- In the constructor, at `uv_loop_init`. -/
  | makingLoop
  /-- At `uv_tcp_init_ex`. -/
  | initServer
  /-- At a call on the server. -/
  | configuring (call : ServerCall)
  /-- At `uv_async_init` for `_stop_async`. -/
  | initStopAsync
  /-- At `uv_async_init` for `_reply_async`. -/
  | initReplyAsync
  /-- At the construction of the loop thread. -/
  | startThread
  /-- At `uv_timer_init`. -/
  | initTimer
  /-- The reactor is constructed. -/
  | serving
  /-- In `~Reactor`, at the join. -/
  | joining
  /-- In `LoopDeleter`, at `uv_loop_close` and `uv_walk`. -/
  | walking
  /-- In `LoopDeleter`, at `uv_run`. -/
  | closing
  /-- At the destruction of a member behind `_loop`. -/
  | destroying (handle : OwnHandle)
  | gone
  /-- `std::terminate` was called. -/
  | terminated
  deriving DecidableEq, Repr

/-- The loop thread is in `uv_run`. -/
def LifePhase.running : LifePhase → Bool
  | .initTimer | .serving | .joining => true
  | _ => false

/-- A reactor from the start of its constructor to the end of its destructor: where it is, which
of its own handles the loop has and which are not deleted, and the clients of the loop. -/
structure Lifetime where
  phase : LifePhase
  /-- The loop has the handle. -/
  registered : OwnHandle → Bool
  /-- The memory of the handle is there. -/
  alive : OwnHandle → Bool
  /-- The clients. -/
  loop : ReactorLoop

namespace Lifetime

/-- At the start of the constructor. The timer is a part of the reactor. -/
def start : Lifetime where
  phase := .makingLoop
  registered _ := false
  alive handle := decide (handle = .timer)
  loop := .init

/-- A handle that was created and registered. -/
def adopt (s : Lifetime) (handle : OwnHandle) : Lifetime :=
  { s with registered := Function.update s.registered handle true
           alive := Function.update s.alive handle true }

/-- The next call of `Reactor::Reactor`, which succeeds or does not. A failure leads to the
destruction of the members that are constructed. -/
def construct (opts : TcpOptions) (s : Lifetime) (ok : Bool) : Option Lifetime :=
  match s.phase with
  | .makingLoop =>
    -- Without a loop there is nothing for `LoopDeleter`.
    some { s with phase := if ok then .initServer else .destroying .timer }
  | .initServer =>
    -- The answer of `uv_tcp_init_ex` is not looked at. A failed call leaves no handle behind.
    some { s with registered := Function.update s.registered .server ok
                  alive := Function.update s.alive .server true
                  phase := .configuring .fileno }
  | .configuring call =>
    if ok then
      match call.next opts with
      | some call => some { s with phase := .configuring call }
      | none => some { s with phase := .initStopAsync }
    else
      -- The `unique_ptr` in `make_tcp_server` deletes the handle.
      some { s with alive := Function.update s.alive .server false, phase := .walking }
  | .initStopAsync =>
    if ok then some { s.adopt .stopAsync with phase := .initReplyAsync }
    else some { s with phase := .walking }
  | .initReplyAsync =>
    if ok then some { s.adopt .replyAsync with phase := .startThread }
    else some { s with phase := .walking }
  | .startThread => some { s with phase := if ok then .initTimer else .walking }
  | .initTimer =>
    some { s with registered := Function.update s.registered .timer true, phase := .serving }
  | _ => none

/-- The member that is destroyed behind another one. -/
def nextDestroyed : OwnHandle → LifePhase
  | .timer => .destroying .replyAsync
  | .replyAsync => .destroying .stopAsync
  | .stopAsync => .destroying .server
  | .server => .gone

/-- The loop has no handle. -/
def LoopEmpty (s : Lifetime) : Prop :=
  s.registered .server = false ∧ s.registered .stopAsync = false ∧
    s.registered .replyAsync = false ∧ s.registered .timer = false ∧ s.loop.registered = ∅

/-- The loop has a few handles of the reactor and finitely many of clients, so that its emptiness
can be looked at. -/
instance (s : Lifetime) : Decidable s.LoopEmpty :=
  inferInstanceAs (Decidable (_ ∧ _ ∧ _ ∧ _ ∧ _))

/-- The next step of the destruction. `uv_walk` closes every handle of the loop, and `uv_run`
finishes the closes. A second `uv_close` on a handle ends the process. -/
def destroy (s : Lifetime) : Option Lifetime :=
  match s.phase with
  | .serving => some { s with phase := .joining }
  | .joining => some { s with phase := .walking }
  | .walking =>
    if s.LoopEmpty then some { s with phase := .destroying .timer }
    else if ∀ handle ∈ s.loop.registered, s.loop.closes handle = 0 then
      some { s with phase := .closing }
    else none
  | .closing =>
    some { s with registered := fun _ => false
                  loop := { s.loop with registered := ∅ }
                  phase := .destroying .timer }
  | .destroying handle =>
    some { s with alive := Function.update s.alive handle false, phase := nextDestroyed handle }
  | _ => none

/-- `_on_connect`, when `uv_tcp_keepalive` fails in `uv::make_tcp_client`: the handle is closed,
and the exception finds no handler on the loop thread. It is up to the implementation whether
the stack is unwound before `std::terminate`, which deletes the handle and the `Connection`. -/
def clientSetupFails (opts : ReactorOptions) (unwinds : Bool) (s : Lifetime) : Option Lifetime :=
  match Connection.init s.loop.connectionCnt opts.connectionOpts.readBufMinSize
      opts.connectionOpts.readBufMaxSize opts.protocolOpts with
  | .error _ => none
  | .ok conn =>
    let connection := s.loop.conns.next
    let handle := s.loop.handles.next
    let conns := s.loop.conns.new conn
    let handles := s.loop.handles.new connection
    some { s with
      phase := .terminated
      loop := { s.loop with
        connectionCnt := (s.loop.connectionCnt + 1) % 2 ^ 64
        conns := if unwinds then conns.delete connection else conns
        handles := if unwinds then handles.delete handle else handles
        registered := insert handle s.loop.registered
        closes := Function.update s.loop.closes handle (s.loop.closes handle + 1) } }

/-- The steps in the life of a reactor. Each call of the set-up may fail, which is a part of the
action. A callback of the loop thread is one of them while that thread runs. -/
inductive Action where
  /-- The next call of the constructor, and whether it succeeds. -/
  | call (ok : Bool)
  /-- A callback on the loop thread. -/
  | callback (a : ReactorLoop.Action)
  /-- A client comes, and `uv_tcp_keepalive` fails for it. -/
  | keepaliveFails
  /-- The next step of the destruction. -/
  | destroy
  deriving DecidableEq, Repr

/-- What does not change in the life of a reactor: its options, the allocator, and whether an
exception without a handler unwinds the stack. -/
structure Setting where
  tcpOpts : TcpOptions
  opts : ReactorOptions
  allocator : Allocator
  unwinds : Bool

/-- One step. -/
def step (c : Setting) (s : Lifetime) : Action → Option Lifetime
  | .call ok => s.construct c.tcpOpts ok
  | .callback a =>
    if s.phase.running = true then
      (s.loop.step c.opts c.allocator a).map fun loop => { s with loop := loop }
    else none
  | .keepaliveFails =>
    if s.phase.running = true ∧ 0 < c.tcpOpts.keepalive then
      s.clientSetupFails c.opts c.unwinds
    else none
  | .destroy => s.destroy

end Lifetime

end VectorEngine
