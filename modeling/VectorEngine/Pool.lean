import VectorEngine.Engine

/-!
# `VectorEngine.Pool`: a worker pool that is stopped while it is used

Any thread submits batches to any worker and calls `Worker::stop`. Another one calls
`WorkerPool::stop`, which goes over the workers. It stops each, and resets the `unique_ptr`: the
slot is null from then on, and `~Worker` stops the worker once more and joins its thread. A
thread that has fetched the worker before can still submit to it until the join returns.

A `WorkerLog` is a worker with its histories: what was pushed to its queue, what its loop has
taken off its list, and what it has sent.
-/

set_option autoImplicit false

namespace VectorEngine

variable {ρ : Type} {n : Nat}

/-- A worker and its histories. The histories record what was pushed, what was taken off and what
was sent. No step reads them, and the invariant connects them with the state. -/
structure WorkerLog (ρ : Type) where
  worker : Worker ρ
  /-- The batches and the sentinels that were pushed. -/
  pushed : List (BatchTask ρ)
  /-- The batches and the sentinels that the `for` loop has passed. -/
  passed : List (BatchTask ρ)
  /-- The calls of `Reactor::send`. -/
  sent : List (ρ × List Reply)
  deriving DecidableEq, Repr

namespace WorkerLog

/-- A worker that nothing was submitted to, with empty histories. -/
def init : WorkerLog ρ where
  worker := Worker.init
  pushed := []
  passed := []
  sent := []

/-- The batch that `Worker::stop` submits. -/
def sentinel : BatchTask ρ where
  tasks := []
  connectionId := 0
  reactor := none

/-- `Worker::submit` -/
def submit (l : WorkerLog ρ) (batchTask : BatchTask ρ) : WorkerLog ρ :=
  { l with worker := l.worker.submit batchTask, pushed := l.pushed ++ [batchTask] }

/-- `Worker::stop` -/
def stop (l : WorkerLog ρ) : WorkerLog ρ :=
  { l with worker := l.worker.stop, pushed := l.pushed ++ [sentinel] }

/-- The worker swaps out its queue. -/
def fetch (l : WorkerLog ρ) : Option (WorkerLog ρ) :=
  l.worker.fetchTasks.map fun worker => { l with worker := worker }

/-- One round of the `for` loop. -/
def run (l : WorkerLog ρ) : Option (WorkerLog ρ) :=
  l.worker.runNext.map fun out =>
    { l with worker := out.1
             passed := l.passed ++ l.worker.tasks.take 1
             sent := l.sent ++ out.2.toList }

/-- The test behind the `for` loop. -/
def finish (l : WorkerLog ρ) : Option (WorkerLog ρ) :=
  l.worker.finishRound.map fun worker => { l with worker := worker }

/-- The batches that the worker has run. -/
def ran (l : WorkerLog ρ) : List (BatchTask ρ) := l.passed.filter fun b => b.reactor.isSome

end WorkerLog

/-- Where the call of `WorkerPool::stop` is. The calls that it makes on a worker are phases of
their own, because other threads may step between them: `stop`, then the `stop` of `~Worker`, then
the join. -/
inductive PoolPhase (n : Nat) where
  /-- Before it. -/
  | serving
  /-- At `worker->stop()`. -/
  | stopping (w : Fin (n + 1))
  /-- In `~Worker`, at `stop()`. -/
  | destroying (w : Fin (n + 1))
  /-- In `~Worker`, at the join. -/
  | joining (w : Fin (n + 1))
  /-- It has returned. -/
  | stopped
  deriving DecidableEq, Repr

/-- The slot of the worker is not null, so that `fetch` returns the worker. -/
def PoolPhase.present (w : Fin (n + 1)) : PoolPhase n → Bool
  | .serving => true
  | .stopping v => decide (v ≤ w)
  | .destroying v | .joining v => decide (v < w)
  | .stopped => false

/-- The join of `~Worker` has not returned. -/
def PoolPhase.alive (w : Fin (n + 1)) : PoolPhase n → Bool
  | .serving => true
  | .stopping v | .destroying v | .joining v => decide (v ≤ w)
  | .stopped => false

/-- A pool of `n + 1` workers. A batch can be pushed to a worker until its thread has been joined,
as nothing in the source keeps a thread that has its address from that. -/
structure Pool (ρ : Type) (n : Nat) where
  lanes : Fin (n + 1) → WorkerLog ρ
  phase : PoolPhase n
  /-- History: what was pushed to a worker before `WorkerPool::stop` was called. -/
  earlier : Fin (n + 1) → List (BatchTask ρ)

namespace Pool

/-- The pool as it is constructed, before anybody has submitted or stopped. -/
def init : Pool ρ n where
  lanes _ := .init
  phase := .serving
  earlier _ := []

/-- The pool with another state of one worker and of its histories. -/
def setLane (s : Pool ρ n) (w : Fin (n + 1)) (l : WorkerLog ρ) : Pool ρ n :=
  { s with lanes := Function.update s.lanes w l }

/-- The next step of `WorkerPool::stop`. The join waits for the thread of the worker. -/
def stopStep (s : Pool ρ n) : Option (Pool ρ n) :=
  match s.phase with
  | .serving => some { s with phase := .stopping ⟨0, n.succ_pos⟩
                              earlier := fun w => (s.lanes w).pushed }
  | .stopping w => some { s.setLane w (s.lanes w).stop with phase := .destroying w }
  | .destroying w => some { s.setLane w (s.lanes w).stop with phase := .joining w }
  | .joining w =>
    if (s.lanes w).worker.phase = .exited then
      if h : w.val + 1 < n + 1 then some { s with phase := .stopping ⟨w.val + 1, h⟩ }
      else some { s with phase := .stopped }
    else none
  | .stopped => none

/-- The steps of the threads. Those of the workers are possible whenever the worker is there.
`stopPool` is the next step of the call of `WorkerPool::stop`. -/
inductive Action (ρ : Type) (n : Nat) where
  /-- `Worker::submit` of a batch of the reactor. -/
  | submit (w : Fin (n + 1)) (reactor : ρ) (id : ConnectionId) (tasks : List Task)
  /-- `Worker::stop` -/
  | stop (w : Fin (n + 1))
  /-- A worker swaps out its queue. -/
  | fetch (w : Fin (n + 1))
  /-- A worker runs one batch and calls `send`. -/
  | run (w : Fin (n + 1))
  /-- A worker is behind its `for` loop. -/
  | finish (w : Fin (n + 1))
  /-- The next step of `WorkerPool::stop`. -/
  | stopPool

/-- One step of one thread. -/
def step (s : Pool ρ n) : Action ρ n → Option (Pool ρ n)
  | .submit w reactor id tasks =>
    if s.phase.alive w = true then
      some (s.setLane w ((s.lanes w).submit
        { tasks := tasks, connectionId := id, reactor := some reactor }))
    else none
  | .stop w =>
    if s.phase.alive w = true then some (s.setLane w (s.lanes w).stop) else none
  | .fetch w => (s.lanes w).fetch.map (s.setLane w)
  | .run w => (s.lanes w).run.map (s.setLane w)
  | .finish w => (s.lanes w).finish.map (s.setLane w)
  | .stopPool => s.stopStep

end Pool

end VectorEngine
