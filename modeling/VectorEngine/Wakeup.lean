import Mathlib.Logic.Function.Basic
import VectorEngine.Reactor

/-!
# `VectorEngine.Wakeup`: the two hand-overs, with their notifications

A batch is handed to a worker in `Worker::submit`, and replies to a reactor in `Reactor::send`.
Both push under a lock, leave it, and notify: `notify_one` on the condition variable of the
worker, `uv_async_send` on the async of the reactor. Each of the two parts is a step here, as is
each part of what the other side does: a worker finds its queue empty and blocks, is woken, and
looks again; the loop clears the flag of the async, starts `_on_reply`, and swaps the replies.

`Owed` is the notification that a thread has yet to make. Any number of threads push. The
workers among them call `send`, and the loop threads call `submit`.
-/

set_option autoImplicit false

namespace VectorEngine

/-- How a worker's thread stands to its condition variable. A worker whose wait was ended by a
notification is `notified` until it looks at its queue again. -/
inductive Waiting where
  | awake
  /-- In `_cv.wait`. -/
  | blocked
  /-- In `_cv.wait`, and woken. It looks at its queue again. -/
  | notified
  deriving DecidableEq, Repr

/-- Where a loop thread is. `_on_reply` is taken apart, since replies can be pushed between its
start and its swap, and behind the swap. -/
inductive LoopPhase where
  /-- Not in `_on_reply`. -/
  | polling
  /-- `_on_reply` has started, and has not swapped the replies. -/
  | started
  /-- In the loop of `_send()`. -/
  | writing
  deriving DecidableEq, Repr

/-- The threads `τ`, the workers `ω` and the loop threads of the reactors `ρ`. -/
inductive Caller (τ ω ρ : Type) where
  | thread (t : τ)
  | worker (w : ω)
  | loop (r : ρ)
  deriving DecidableEq, Repr

/-- The notification that a thread has yet to make. The source unlocks the mutex before it
notifies, so that other threads may step between the push and the notification. -/
inductive Owed (ω ρ : Type) where
  /-- `_cv.notify_one()` -/
  | worker (w : ω)
  /-- `_notify()` -/
  | reactor (r : ρ)
  deriving DecidableEq, Repr

/-- The workers and the reactors with the things that they wait on: the condition variable of each
worker, the async handle of each loop, and the notifications that a thread has decided on and not
yet made. -/
structure Wakeup (τ ω ρ : Type) where
  workers : ω → Worker ρ
  waiting : ω → Waiting
  reactors : ρ → Reactor
  /-- `_reply_async` was sent, and its callback has not started since. -/
  flag : ρ → Bool
  loops : ρ → LoopPhase
  owed : Caller τ ω ρ → Option (Owed ω ρ)

namespace Wakeup

variable {τ ω ρ : Type} [DecidableEq τ] [DecidableEq ω] [DecidableEq ρ]

/-- The steps of the threads. Of the notifications the model assumes what the documentation of the
two libraries says: `notify_one` wakes a waiting thread, and several calls of `uv_async_send` may
become one callback. -/
inductive Action (τ ω ρ : Type) where
  /-- The locked section of `Worker::submit`. -/
  | submit (caller : Caller τ ω ρ) (w : ω) (batchTask : BatchTask ρ)
  /-- The locked section of `Reactor::send`, on a thread that is no worker. -/
  | send (t : τ) (r : ρ) (replies : List Reply)
  /-- The notification behind a locked section. -/
  | notify (caller : Caller τ ω ρ)
  /-- A worker finds its queue empty, and waits. -/
  | block (w : ω)
  /-- A worker swaps out its queue. -/
  | fetch (w : ω)
  /-- A wait ends without a notification. -/
  | spurious (w : ω)
  /-- A worker runs one batch, with the locked section of `Reactor::send`. -/
  | run (w : ω)
  /-- A worker is behind its `for` loop. -/
  | finish (w : ω)
  /-- The flag of the async is cleared, and `_on_reply` starts. -/
  | start (r : ρ)
  /-- `_send()` swaps out the replies. -/
  | swap (r : ρ)
  /-- `_send()` writes one reply. -/
  | write (r : ρ)
  /-- `_on_reply` returns. -/
  | returned (r : ρ)

/-- The system with another state of one worker. -/
def setWorker (s : Wakeup τ ω ρ) (w : ω) (worker : Worker ρ) : Wakeup τ ω ρ :=
  { s with workers := Function.update s.workers w worker }

/-- The system with another state of one reactor. -/
def setReactor (s : Wakeup τ ω ρ) (r : ρ) (reactor : Reactor) : Wakeup τ ω ρ :=
  { s with reactors := Function.update s.reactors r reactor }

/-- The system with one worker in another place of its wait. -/
def setWaiting (s : Wakeup τ ω ρ) (w : ω) (waiting : Waiting) : Wakeup τ ω ρ :=
  { s with waiting := Function.update s.waiting w waiting }

/-- The system with the loop of one reactor in another phase. -/
def setLoop (s : Wakeup τ ω ρ) (r : ρ) (phase : LoopPhase) : Wakeup τ ω ρ :=
  { s with loops := Function.update s.loops r phase }

/-- The system with another notification that a thread still owes, or with none. -/
def setOwed (s : Wakeup τ ω ρ) (caller : Caller τ ω ρ) (owed : Option (Owed ω ρ)) :
    Wakeup τ ω ρ :=
  { s with owed := Function.update s.owed caller owed }

/-- The thread can call `submit`. A worker never does, and a loop thread does in `on_read`. -/
def Submits (s : Wakeup τ ω ρ) : Caller τ ω ρ → Prop
  | .thread _ => True
  | .worker _ => False
  | .loop r => s.loops r = .polling

/-- Who may submit can be looked at, as it depends on the kind of the caller and on the phase of
its loop. -/
instance (s : Wakeup τ ω ρ) : (caller : Caller τ ω ρ) → Decidable (s.Submits caller)
  | .thread _ => isTrue trivial
  | .worker _ => isFalse id
  | .loop r => inferInstanceAs (Decidable (s.loops r = .polling))

/-- A notification. `notify_one` wakes the worker if it waits. -/
def deliver (s : Wakeup τ ω ρ) : Owed ω ρ → Wakeup τ ω ρ
  | .worker w => if s.waiting w = .blocked then s.setWaiting w .notified else s
  | .reactor r => { s with flag := Function.update s.flag r true }

/-- The locked section of a worker's call of `send`, if it makes one. -/
def callSend (s : Wakeup τ ω ρ) (w : ω) : Option (ρ × List Reply) → Wakeup τ ω ρ
  | none => s
  | some (r, replies) =>
    (s.setReactor r ((s.reactors r).send replies)).setOwed (.worker w) (some (.reactor r))

/-- One step of one thread. A thread that owes a notification makes it first. -/
def step (s : Wakeup τ ω ρ) : Action τ ω ρ → Option (Wakeup τ ω ρ)
  | .submit caller w batchTask =>
    if s.owed caller = none ∧ s.Submits caller then
      some ((s.setWorker w ((s.workers w).submit batchTask)).setOwed caller (some (.worker w)))
    else none
  | .send t r replies =>
    if s.owed (.thread t) = none then
      some ((s.setReactor r ((s.reactors r).send replies)).setOwed (.thread t)
        (some (.reactor r)))
    else none
  | .notify caller =>
    match s.owed caller with
    | none => none
    | some owed => some ((s.setOwed caller none).deliver owed)
  | .block w =>
    if (s.workers w).phase = .fetching ∧ s.owed (.worker w) = none ∧ s.waiting w ≠ .blocked ∧
        (s.workers w).queue = [] then
      some (s.setWaiting w .blocked)
    else none
  | .fetch w =>
    if s.owed (.worker w) = none ∧ s.waiting w ≠ .blocked then
      (s.workers w).fetchTasks.map fun worker => (s.setWorker w worker).setWaiting w .awake
    else none
  | .spurious w => if s.waiting w = .blocked then some (s.setWaiting w .notified) else none
  | .run w =>
    if s.owed (.worker w) = none then
      (s.workers w).runNext.map fun out => (s.setWorker w out.1).callSend w out.2
    else none
  | .finish w =>
    if s.owed (.worker w) = none then (s.workers w).finishRound.map (s.setWorker w) else none
  | .start r =>
    if s.loops r = .polling ∧ s.owed (.loop r) = none ∧ s.flag r = true then
      some ({ s with flag := Function.update s.flag r false }.setLoop r .started)
    else none
  | .swap r =>
    if s.loops r = .started then
      (s.reactors r).swapReplies.map fun reactor => (s.setReactor r reactor).setLoop r .writing
    else none
  | .write r =>
    if s.loops r = .writing then
      (s.reactors r).writeReply.map fun out => s.setReactor r out.1
    else none
  | .returned r =>
    if s.loops r = .writing ∧ (s.reactors r).swapped = [] then some (s.setLoop r .polling)
    else none

/-- Nothing was submitted, sent or notified. -/
structure Initial (s : Wakeup τ ω ρ) : Prop where
  workers : ∀ w, s.workers w = Worker.init
  waiting : ∀ w, s.waiting w = .awake
  replies : ∀ r, (s.reactors r).replies = [] ∧ (s.reactors r).swapped = []
  loops : ∀ r, s.loops r = .polling
  owed : ∀ caller, s.owed caller = none

end Wakeup

end VectorEngine
