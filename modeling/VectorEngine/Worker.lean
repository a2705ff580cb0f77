import VectorEngine.Task

/-!
# `VectorEngine.Worker`: `Worker`

A worker is a thread with a queue. `_run` swaps the whole queue out, runs the batches of the
swapped-out list one by one, and sends the reply of each to the batch's reactor. A batch
without a reactor is the sentinel that `stop` submits.

The thread is modelled by what it holds between its steps. A step returns the call of
`Reactor::send` that it makes, if any, so that this module does not depend on reactors.
`ρ` is the type of the reactor pointers.
-/

set_option autoImplicit false

namespace VectorEngine

/-- The id of a connection in the table of its reactor. -/
abbrev ConnectionId := Nat

variable {ρ : Type}

/-- `BatchTask`. The response builder is left out: a batch is built by `on_read`, and a RESP
connection gives it a `RespResponseBuilder`. -/
structure BatchTask (ρ : Type) where
  tasks : List Task
  connectionId : ConnectionId
  reactor : Option ρ
  deriving DecidableEq, Repr

/-- What a worker sends back to a reactor: the bytes of the replies of one batch, and the
connection that they are for. -/
structure Reply where
  connectionId : ConnectionId
  reply : ByteString
  deriving DecidableEq, Repr

/-- `Worker::_run_batch_task` -/
def runBatchTask (batchTask : BatchTask ρ) : Reply where
  connectionId := batchTask.connectionId
  reply := batchTask.tasks.foldl (fun reply task => reply ++ RespResponseBuilder.build task.run) []

/-- Where the worker thread is in `_run`. What the thread does between two locked sections is one
step, as it works on local variables. -/
inductive WorkerPhase where
  /-- At `_fetch_tasks`. -/
  | fetching
  /-- In the `for` loop, or at the test behind it. -/
  | running
  /-- `_run` has returned. -/
  | exited
  deriving DecidableEq, Repr

/-- `Worker`, with the local variables of its thread. Other threads only use the queue, under a
lock. -/
structure Worker (ρ : Type) where
  /-- The queue `_tasks`. -/
  queue : List (BatchTask ρ)
  phase : WorkerPhase
  /-- The part of the local list `tasks` that the `for` loop has not reached. -/
  tasks : List (BatchTask ρ)
  /-- The local vector `replies`. -/
  replies : List Reply
  stopThread : Bool
  deriving DecidableEq, Repr

namespace Worker

/-- The worker as it is constructed. -/
def init : Worker ρ where
  queue := []
  phase := .fetching
  tasks := []
  replies := []
  stopThread := false

/-- `Worker::submit` -/
def submit (w : Worker ρ) (batchTask : BatchTask ρ) : Worker ρ :=
  { w with queue := w.queue ++ [batchTask] }

/-- `Worker::stop` -/
def stop (w : Worker ρ) : Worker ρ :=
  w.submit { tasks := [], connectionId := 0, reactor := none }

/-- `Worker::_fetch_tasks`, and the start of the round. The thread waits while the queue is
empty. -/
def fetchTasks (w : Worker ρ) : Option (Worker ρ) :=
  if w.phase = .fetching ∧ w.queue ≠ [] then
    some { queue := [], phase := .running, tasks := w.queue, replies := [], stopThread := false }
  else
    none

/-- One round of the `for` loop in `Worker::_run`, up to the call of `send`. The call takes
the vector by value, so the `std::move` leaves the local one empty. -/
def runNext (w : Worker ρ) : Option (Worker ρ × Option (ρ × List Reply)) :=
  match w.phase, w.tasks with
  | .running, batchTask :: tasks =>
    match batchTask.reactor with
    | none => some ({ w with tasks := tasks, stopThread := true }, none)
    | some reactor =>
      let replies := w.replies ++ [runBatchTask batchTask]
      some ({ w with tasks := tasks, replies := [] }, some (reactor, replies))
  | _, _ => none

/-- The test behind the `for` loop. -/
def finishRound (w : Worker ρ) : Option (Worker ρ) :=
  if w.phase = .running ∧ w.tasks = [] then
    some { w with phase := if w.stopThread then .exited else .fetching }
  else
    none

end Worker

/-! ### The bytes of a batch -/

/-- The batch that a reactor makes of parsed commands. -/
def BatchTask.ofCommands (cmds : List Resp.RespCommand) (id : ConnectionId)
    (reactor : Option ρ) : BatchTask ρ where
  tasks := cmds.map RespTaskCreator.create
  connectionId := id
  reactor := reactor

/-- The reply of one command: its task is made, run, and asked for its bytes. -/
def replyOf (cmd : Resp.RespCommand) : ByteString :=
  RespResponseBuilder.build (RespTaskCreator.create cmd).run

/-- The bytes of a batch are the bytes of its tasks, one after another. -/
theorem reply_runBatchTask (batchTask : BatchTask ρ) :
    (runBatchTask batchTask).reply
      = (batchTask.tasks.map fun task => RespResponseBuilder.build task.run).flatten := by
  have key : ∀ (tasks : List Task) (acc : ByteString),
      tasks.foldl (fun reply task => reply ++ RespResponseBuilder.build task.run) acc
        = acc ++ (tasks.map fun task => RespResponseBuilder.build task.run).flatten := by
    intro tasks
    induction tasks with
    | nil => simp
    | cons task tasks ih =>
      intro acc
      rw [List.foldl_cons, ih]
      simp
  exact key batchTask.tasks []

/-- The bytes of a batch of commands. -/
theorem reply_ofCommands (cmds : List Resp.RespCommand) (id : ConnectionId)
    (reactor : Option ρ) :
    (runBatchTask (BatchTask.ofCommands cmds id reactor)).reply
      = (cmds.map replyOf).flatten := by
  rw [reply_runBatchTask]
  show ((cmds.map RespTaskCreator.create).map _).flatten = _
  rw [List.map_map]
  rfl

end VectorEngine
