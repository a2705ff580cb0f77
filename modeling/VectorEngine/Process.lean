import VectorEngine.Engine

/-!
# `VectorEngine.Process`: `main` and its threads

`main` holds a worker pool and one reactor. It reads its input, calls `Reactor::stop`, and
leaves its scope. The reactor is destroyed first: `~Reactor` stops and joins the loop thread, and
then its members are destroyed, which is one step here together with the return of the join.
The pool is destroyed next: `WorkerPool::stop` stops each worker and resets its pointer, and
`~Worker` stops the worker again and joins its thread.

The steps are those of the main thread, of the loop thread, and of each worker thread. A call
of `Reactor::send` is two steps here, the call and the return, as another thread can step
between the two. A batch holds a raw pointer to its reactor, so a worker can call `send` when
the reactor is gone. What such a call does is undefined. The model records it in `late` and
goes on.
-/

set_option autoImplicit false

namespace VectorEngine

variable {n : Nat}

/-- Where the main thread is. Each of them is a point at which other threads can step before the
main thread goes on. A phase with a worker stands for one turn of the loop in `WorkerPool::stop`.
-/
inductive MainPhase (n : Nat) where
  /-- At `std::getline`. -/
  | serving
  /-- `reactor.stop()` has returned. -/
  | stopped
  /-- In `~Reactor`, from the join to the end of the destruction of the members. -/
  | joiningLoop
  /-- In `WorkerPool::stop`, at `worker->stop()`. -/
  | stoppingWorker (w : Fin (n + 1))
  /-- In `~Worker`, at `stop()`. -/
  | destroyingWorker (w : Fin (n + 1))
  /-- In `~Worker`, at the join. -/
  | joiningWorker (w : Fin (n + 1))
  | finished
  deriving DecidableEq

/-- The destruction of the reactor has finished. -/
def MainPhase.reactorGone : MainPhase n → Bool
  | .serving | .stopped | .joiningLoop => false
  | .stoppingWorker _ | .destroyingWorker _ | .joiningWorker _ | .finished => true

/-- The process, with a pool of `n + 1` workers and one reactor. There is one reactor here, since
`main` has one. The histories `submitted`, `sent` and `late` are read by no step. -/
structure Process (n : Nat) where
  main : MainPhase n
  /-- `_stop_async` has been sent. -/
  stopRequested : Bool
  /-- `uv_run` has not returned. -/
  loopRunning : Bool
  engine : Engine Unit n
  /-- The argument of the call of `Reactor::send` that a worker is in. -/
  sending : Fin (n + 1) → Option (List Reply)
  /-- History: the batches that were submitted to a worker by the reactor. -/
  submitted : Fin (n + 1) → List (BatchTask Unit)
  /-- History: the replies that a worker has sent in calls that have returned. -/
  sent : Fin (n + 1) → List Reply
  /-- History: a worker was in `Reactor::send` when the reactor was gone. -/
  late : Bool

/-- The action is one of the loop thread. -/
def Engine.Action.ofLoop {ρ : Type} : Engine.Action ρ n → Bool
  | .connect _ | .dispatch _ _ _ | .swap _ | .write _ | .close _ _ => true
  | .fetch _ | .run _ | .finish _ => false

namespace Process

/-- The steps of the threads. A worker takes two of them for a batch: `run` begins the call of
`send`, and `sendReturn` ends it. -/
inductive Action (n : Nat) where
  /-- The next step of the main thread. -/
  | main
  /-- A callback of the loop thread. -/
  | loop (a : Engine.Action Unit n)
  /-- `uv_run` returns. -/
  | loopExit
  /-- A worker swaps out its queue. -/
  | fetch (w : Fin (n + 1))
  /-- A worker runs one batch and calls `send`. -/
  | run (w : Fin (n + 1))
  /-- The call of `send` returns. -/
  | sendReturn (w : Fin (n + 1))
  /-- A worker is behind its `for` loop. -/
  | finish (w : Fin (n + 1))

/-- The destruction of the reactor has finished. -/
def reactorGone (s : Process n) : Bool := s.main.reactorGone

/-- The process with another state of one worker. -/
def setWorker (s : Process n) (w : Fin (n + 1)) (worker : Worker Unit) : Process n :=
  { s with engine := s.engine.setWorker w worker }

/-- The history of a callback: a dispatch submits a batch. -/
def recordSubmit (s : Process n) : Engine.Action Unit n → Process n
  | .dispatch r id cmds =>
    let w := WorkerPool.fetch n id
    { s with
      submitted := Function.update s.submitted w
        (s.submitted w ++ [BatchTask.ofCommands cmds id (some r)]) }
  | _ => s

/-- The next step of the main thread. Both joins wait for their thread. The step out of
`.joiningLoop` stands for all that `~Reactor` does behind its join: it is taken when the last
member is destroyed, so that what a worker does while the members are being destroyed comes
before it. -/
def mainStep (s : Process n) : Option (Process n) :=
  match s.main with
  | .serving => some { s with main := .stopped, stopRequested := true }
  | .stopped => some { s with main := .joiningLoop, stopRequested := true }
  | .joiningLoop =>
    if s.loopRunning = false then some { s with main := .stoppingWorker ⟨0, n.succ_pos⟩ } else none
  | .stoppingWorker w =>
    some { s.setWorker w (s.engine.workers w).stop with main := .destroyingWorker w }
  | .destroyingWorker w =>
    some { s.setWorker w (s.engine.workers w).stop with main := .joiningWorker w }
  | .joiningWorker w =>
    if (s.engine.workers w).phase = .exited then
      if h : w.val + 1 < n + 1 then some { s with main := .stoppingWorker ⟨w.val + 1, h⟩ }
      else some { s with main := .finished }
    else none
  | .finished => none

/-- A worker's call of `send`, if it makes one. -/
def callSend (s : Process n) (w : Fin (n + 1)) : Option (Unit × List Reply) → Process n
  | none => s
  | some (_, replies) =>
    { s with
      sending := Function.update s.sending w (some replies)
      late := s.late || s.reactorGone }

/-- The return of a worker's call of `send`. -/
def returnSend (s : Process n) (w : Fin (n + 1)) (replies : List Reply) : Process n :=
  { s with
    engine := s.engine.deliver (some ((), replies))
    sending := Function.update s.sending w none
    sent := Function.update s.sent w (s.sent w ++ replies)
    late := s.late || s.reactorGone }

/-- One step of one thread. A worker in `send` does nothing else. The loop thread leaves
`uv_run` between two callbacks, when `_on_stop` has run. -/
def step (s : Process n) : Action n → Option (Process n)
  | .main => s.mainStep
  | .loop a =>
    if s.loopRunning = true ∧ a.ofLoop = true then
      (s.engine.step a).map fun engine => { s.recordSubmit a with engine := engine }
    else none
  | .loopExit =>
    if s.loopRunning = true ∧ s.stopRequested = true ∧ (s.engine.reactors ()).swapped = [] then
      some { s with loopRunning := false }
    else none
  | .fetch w =>
    if s.sending w = none then (s.engine.workers w).fetchTasks.map (s.setWorker w) else none
  | .run w =>
    if s.sending w = none then
      (s.engine.workers w).runNext.map fun out => (s.setWorker w out.1).callSend w out.2
    else none
  | .sendReturn w => (s.sending w).map (s.returnSend w)
  | .finish w =>
    if s.sending w = none then (s.engine.workers w).finishRound.map (s.setWorker w) else none

/-- The process when `main` has built its objects. The loop thread runs, no worker has been given
anything, and all histories are empty. -/
structure Initial (s : Process n) : Prop where
  main : s.main = .serving
  loopRunning : s.loopRunning = true
  engine : s.engine.Initial
  sending : ∀ w, s.sending w = none
  submitted : ∀ w, s.submitted w = []
  sent : ∀ w, s.sent w = []
  late : s.late = false

end Process

end VectorEngine
