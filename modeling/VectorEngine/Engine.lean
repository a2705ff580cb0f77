import Mathlib.Logic.Function.Basic
import VectorEngine.Reactor

/-!
# `VectorEngine.Engine`: reactors and the worker pool

Any number of reactors share one pool of workers. The connection id picks the worker. Each
reactor counts its own ids, so that two reactors use the same ones.

`step` is one atomic step of one thread. The histories `dispatched` and `written` record, for
each connection, the commands that were dispatched and the bytes that were handed to
`uv_write`. No step reads them.
-/

set_option autoImplicit false

namespace VectorEngine

variable {ρ : Type} {n : Nat}

/-- `WorkerPool::fetch`: the place of the worker in a pool of `n + 1`. -/
def WorkerPool.fetch (n : Nat) (id : ConnectionId) : Fin (n + 1) := Fin.ofNat (n + 1) id

/-- The reactors `ρ`, and a pool of `n + 1` workers. The notifications between the threads are
left out here, and so is what happens on the connections: a `dispatch` is an action with any
commands. `Server` adds both and is shown to be simulated by this. -/
structure Engine (ρ : Type) (n : Nat) where
  workers : Fin (n + 1) → Worker ρ
  reactors : ρ → Reactor
  dispatched : ρ → ConnectionId → List Resp.RespCommand
  written : ρ → ConnectionId → ByteString

/-- The atomic steps. A locked section of the source is one of them, and so is what a thread does
between two locked sections, as no other thread sees any of it. -/
inductive Engine.Action (ρ : Type) (n : Nat) where
  /-- A reactor accepts a connection. -/
  | connect (r : ρ)
  /-- `Reactor::dispatch` for a connection, with the tasks of `cmds`. -/
  | dispatch (r : ρ) (id : ConnectionId) (cmds : List Resp.RespCommand)
  /-- A worker swaps out its queue. -/
  | fetch (w : Fin (n + 1))
  /-- A worker runs one batch and calls `send`. -/
  | run (w : Fin (n + 1))
  /-- A worker is behind its `for` loop. -/
  | finish (w : Fin (n + 1))
  /-- A reactor swaps out its replies. -/
  | swap (r : ρ)
  /-- A reactor writes one of the swapped-out replies. -/
  | write (r : ρ)
  /-- A connection is closed. -/
  | close (r : ρ) (id : ConnectionId)

namespace Engine

variable [DecidableEq ρ]

/-- The engine with another state of one worker. -/
def setWorker (s : Engine ρ n) (w : Fin (n + 1)) (worker : Worker ρ) : Engine ρ n :=
  { s with workers := Function.update s.workers w worker }

/-- The engine with another state of one reactor. -/
def setReactor (s : Engine ρ n) (r : ρ) (reactor : Reactor) : Engine ρ n :=
  { s with reactors := Function.update s.reactors r reactor }

/-- The call of `send` that a worker makes. -/
def deliver (s : Engine ρ n) : Option (ρ × List Reply) → Engine ρ n
  | none => s
  | some (r, replies) => s.setReactor r ((s.reactors r).send replies)

/-- The history of a dispatch. -/
def recordDispatch (s : Engine ρ n) (r : ρ) (id : ConnectionId)
    (cmds : List Resp.RespCommand) : Engine ρ n :=
  { s with
    dispatched := Function.update s.dispatched r
      (Function.update (s.dispatched r) id (s.dispatched r id ++ cmds)) }

/-- The history of a write. -/
def recordWrite (s : Engine ρ n) (r : ρ) : Option Reply → Engine ρ n
  | none => s
  | some reply =>
    { s with
      written := Function.update s.written r
        (Function.update (s.written r) reply.connectionId
          (s.written r reply.connectionId ++ reply.reply)) }

/-- One atomic step. Ids do not run out, and only a connection in the table reads. -/
def step (s : Engine ρ n) : Action ρ n → Option (Engine ρ n)
  | .connect r =>
    if (s.reactors r).connectionCnt + 1 < 2 ^ 64 then
      some (s.setReactor r (s.reactors r).createClient)
    else none
  | .dispatch r id cmds =>
    if id ∈ (s.reactors r).connections then
      let w := WorkerPool.fetch n id
      let worker := (s.workers w).submit (BatchTask.ofCommands cmds id (some r))
      some ((s.setWorker w worker).recordDispatch r id cmds)
    else none
  | .fetch w => (s.workers w).fetchTasks.map (s.setWorker w)
  | .run w => (s.workers w).runNext.map fun out => (s.setWorker w out.1).deliver out.2
  | .finish w => (s.workers w).finishRound.map (s.setWorker w)
  | .swap r => (s.reactors r).swapReplies.map (s.setReactor r)
  | .write r =>
    (s.reactors r).writeReply.map fun out => (s.setReactor r out.1).recordWrite r out.2
  | .close r id => some (s.setReactor r ((s.reactors r).removeConnection id))

/-- The engine before the first dispatch: some connections are there, with ids that their
reactor has counted, and all queues and histories are empty. -/
structure Initial (s : Engine ρ n) : Prop where
  workers : ∀ w, s.workers w = Worker.init
  known : ∀ r, ∀ id ∈ (s.reactors r).connections, id < (s.reactors r).connectionCnt
  replies : ∀ r, (s.reactors r).replies = [] ∧ (s.reactors r).swapped = []
  dispatched : ∀ r id, s.dispatched r id = []
  written : ∀ r id, s.written r id = []

end Engine

end VectorEngine
