import Mathlib.Algebra.Order.BigOperators.Group.Finset
import VectorEngine.Proofs.Engine.Work
import VectorEngine.Proofs.Wakeup
import VectorEngine.Proofs.Wakeup.Next
import VectorEngine.Transition.Potential

/-!
# `VectorEngine.Proofs.Wakeup.Rest`: the threads come to rest, and leave nothing behind

Between two pushes the threads go on by themselves: they notify, fetch, run, send, swap and
write. Two things could go wrong with that. They could all wait for one another, or they could
go on forever.

* `settled_of_atRest`: when no thread can go on, no notification is owed, each reactor has
  written all of its replies, and each worker is blocked on an empty queue, or has exited.
* `settles_of_run`: from any state that can be reached, the threads come to rest after a number
  of steps that `remaining` bounds, whatever their order.
* `steps_le_of_run`: over a whole run, a push of a batch costs the threads twelve steps at most,
  and a push of replies four and one for each reply.

`remaining` counts what lies before each thing on its way. A batch in a queue is fetched and
run, and its reply is notified of, swapped out and written, so a batch weighs more than a reply,
and a notification that is owed more than one that was made.
-/

set_option autoImplicit false

namespace VectorEngine.Wakeup

open VectorEngine.Transition

variable {τ ω ρ : Type} [DecidableEq τ] [DecidableEq ω] [DecidableEq ρ]
variable {s s' : Wakeup τ ω ρ}

/-- What the threads do by themselves. The others are pushes from outside, and waits that end
without a reason. -/
def Action.Own : Action τ ω ρ → Prop
  | .submit _ _ _ | .send _ _ _ | .spurious _ => False
  | .notify _ | .block _ | .fetch _ | .run _ | .finish _ | .start _ | .swap _ | .write _
  | .returned _ => True

/-- Which actions are the system's own depends on their kind only. -/
instance : (a : Action τ ω ρ) → Decidable a.Own
  | .submit _ _ _ | .send _ _ _ | .spurious _ => isFalse id
  | .notify _ | .block _ | .fetch _ | .run _ | .finish _ | .start _ | .swap _ | .write _
  | .returned _ => isTrue trivial

/-! ### Where things are -/

/-- A thread holds something only where it is about to work on it. Without it a state could be at
rest with a batch in the list of a thread that waits, which no step leads to. -/
structure Placed (s : Wakeup τ ω ρ) : Prop where
  tasks : ∀ w, (s.workers w).phase ≠ .running → (s.workers w).tasks = []
  /-- A thread that waits is at `_fetch_tasks`. -/
  waiting : ∀ w, s.waiting w ≠ .awake → (s.workers w).phase = .fetching
  swapped : ∀ r, s.loops r ≠ .writing → (s.reactors r).swapped = []

omit [DecidableEq τ] [DecidableEq ω] [DecidableEq ρ] in
/-- At the start the workers and the loops have nothing in their hands. -/
theorem Initial.placed (h : s.Initial) : s.Placed where
  tasks w _ := by
    rw [h.workers]
    rfl
  waiting w hwait := absurd (h.waiting w) hwait
  swapped r _ := (h.replies r).2

omit [DecidableEq τ] [DecidableEq ρ] in
/-- A worker changes, and has a list only while it runs and waits only at its queue. -/
theorem Placed.setWorker (h : s.Placed) {w : ω} {worker : Worker ρ}
    (htasks : worker.phase ≠ .running → worker.tasks = [])
    (hwaiting : s.waiting w ≠ .awake → worker.phase = .fetching) :
    (s.setWorker w worker).Placed where
  tasks v hv := by
    replace hv : (Function.update s.workers w worker v).phase ≠ .running := hv
    show (Function.update s.workers w worker v).tasks = []
    by_cases hvw : v = w
    · subst hvw
      rw [Function.update_self] at hv ⊢
      exact htasks hv
    · rw [Function.update_of_ne hvw] at hv ⊢
      exact h.tasks v hv
  waiting v hv := by
    show (Function.update s.workers w worker v).phase = .fetching
    by_cases hvw : v = w
    · subst hvw
      rw [Function.update_self]
      exact hwaiting hv
    · rw [Function.update_of_ne hvw]
      exact h.waiting v hv
  swapped := h.swapped

omit [DecidableEq τ] [DecidableEq ω] in
/-- A reactor changes, and has replies to write only while its loop is in `_send()`. -/
theorem Placed.setReactor (h : s.Placed) {r : ρ} {reactor : Reactor}
    (hswapped : s.loops r ≠ .writing → reactor.swapped = []) :
    (s.setReactor r reactor).Placed where
  tasks := h.tasks
  waiting := h.waiting
  swapped q hq := by
    show (Function.update s.reactors r reactor q).swapped = []
    by_cases hqr : q = r
    · subst hqr
      rw [Function.update_self]
      exact hswapped hq
    · rw [Function.update_of_ne hqr]
      exact h.swapped q hq

omit [DecidableEq τ] [DecidableEq ρ] in
/-- A worker begins to wait, or ends it, at its queue. -/
theorem Placed.setWaiting (h : s.Placed) {w : ω} {waiting : Waiting}
    (hphase : waiting ≠ .awake → (s.workers w).phase = .fetching) :
    (s.setWaiting w waiting).Placed where
  tasks := h.tasks
  waiting v hv := by
    replace hv : Function.update s.waiting w waiting v ≠ .awake := hv
    by_cases hvw : v = w
    · subst hvw
      rw [Function.update_self] at hv
      exact hphase hv
    · rw [Function.update_of_ne hvw] at hv
      exact h.waiting v hv
  swapped := h.swapped

omit [DecidableEq τ] [DecidableEq ω] in
/-- A loop changes its phase, and leaves `_send()` only when all replies are written. -/
theorem Placed.setLoop (h : s.Placed) {r : ρ} {phase : LoopPhase}
    (hswapped : phase ≠ .writing → (s.reactors r).swapped = []) : (s.setLoop r phase).Placed where
  tasks := h.tasks
  waiting := h.waiting
  swapped q hq := by
    replace hq : Function.update s.loops r phase q ≠ .writing := hq
    by_cases hqr : q = r
    · subst hqr
      rw [Function.update_self] at hq
      exact hswapped hq
    · rw [Function.update_of_ne hqr] at hq
      exact h.swapped q hq

/-- A notification that is owed, or made, moves nothing. -/
theorem Placed.setOwed (h : s.Placed) (caller : Caller τ ω ρ) (owed : Option (Owed ω ρ)) :
    (s.setOwed caller owed).Placed := ⟨h.tasks, h.waiting, h.swapped⟩

/-- The locked section of `Worker::submit`. -/
theorem Placed.submit (h : s.Placed) (caller : Caller τ ω ρ) (w : ω) (batchTask : BatchTask ρ) :
    ((s.setWorker w ((s.workers w).submit batchTask)).setOwed caller
      (some (.worker w))).Placed := by
  have hset : (s.setWorker w ((s.workers w).submit batchTask)).Placed :=
    h.setWorker (h.tasks w) (h.waiting w)
  exact hset.setOwed _ _

/-- The locked section of `Reactor::send`. -/
theorem Placed.send (h : s.Placed) (caller : Caller τ ω ρ) (r : ρ) (replies : List Reply) :
    ((s.setReactor r ((s.reactors r).send replies)).setOwed caller
      (some (.reactor r))).Placed := by
  have hset : (s.setReactor r ((s.reactors r).send replies)).Placed :=
    h.setReactor (h.swapped r)
  exact hset.setOwed _ _

omit [DecidableEq τ] in
/-- A notification moves nothing. A worker that it wakes was waiting. -/
theorem Placed.deliver (h : s.Placed) (owed : Owed ω ρ) : (s.deliver owed).Placed := by
  cases owed with
  | worker w =>
    show (if s.waiting w = .blocked then s.setWaiting w .notified else s).Placed
    by_cases hblocked : s.waiting w = .blocked
    · rw [if_pos hblocked]
      refine h.setWaiting fun _ => h.waiting w ?_
      rw [hblocked]
      exact fun heq => nomatch heq
    · rw [if_neg hblocked]
      exact h
  | reactor r => exact ⟨h.tasks, h.waiting, h.swapped⟩

/-- Every step leaves everything in its place. Each kind of step changes one or two of the parts,
and the lemmas above say what each of them has to bring along. -/
theorem Placed.step (h : s.Placed) {a : Action τ ω ρ} (hs : s.step a = some s') : s'.Placed := by
  cases next_of_step hs with
  | submit caller w batchTask hfree hsubmits => exact h.submit caller w batchTask
  | send t r replies hfree => exact h.send (.thread t) r replies
  | notify caller owed howed => exact (h.setOwed _ _).deliver owed
  | block w hphase hfree hwaiting hqueue => exact h.setWaiting fun _ => hphase
  | fetch w worker hfree hwaiting hfetch =>
    obtain ⟨-, rfl⟩ := Worker.fetchTasks_cases hfetch
    -- The worker is awake from here on.
    have hawake : (s.setWaiting w .awake).Placed := h.setWaiting fun hne => absurd rfl hne
    refine hawake.setWorker (fun hne => absurd rfl hne) fun hne => absurd ?_ hne
    exact Function.update_self w Waiting.awake s.waiting
  | spurious w hblocked =>
    -- It was waiting before, so that it is at its queue.
    refine h.setWaiting fun _ => h.waiting w ?_
    rw [hblocked]
    exact fun heq => nomatch heq
  | run w worker out hfree hrun =>
    obtain ⟨hphase, b, tasks, -, -, rfl⟩ := Worker.runNext_cases hrun
    have hset : (s.setWorker w { s.workers w with
        tasks := tasks
        replies := if b.reactor.isSome then [] else (s.workers w).replies
        stopThread := (s.workers w).stopThread || !b.reactor.isSome }).Placed :=
      h.setWorker (fun hne => absurd hphase hne) fun hwait => h.waiting w hwait
    -- A batch sends its replies to a reactor, and a sentinel sends nothing.
    cases out with
    | none => exact hset
    | some call => exact hset.send (.worker w) call.1 call.2
  | finish w worker hfree hfinish =>
    obtain ⟨hphase, htasks, rfl⟩ := Worker.finishRound_cases hfinish
    -- A thread that waits is not behind its `for` loop.
    refine h.setWorker (fun _ => htasks) fun hwait => ?_
    rw [h.waiting w hwait] at hphase
    cases hphase
  | start r hpolling hfree hflag =>
    have hcleared : ({ s with flag := Function.update s.flag r false } : Wakeup τ ω ρ).Placed :=
      ⟨h.tasks, h.waiting, h.swapped⟩
    -- Before `_on_reply` no replies are swapped out.
    refine hcleared.setLoop fun _ => h.swapped r ?_
    rw [hpolling]
    exact fun heq => nomatch heq
  | swap r reactor hstarted hswap =>
    -- The loop is in `_send()` from here on, where it may have replies in its hands.
    have hwriting : (s.setLoop r .writing).Placed := h.setLoop fun hne => absurd rfl hne
    refine hwriting.setReactor fun hne => absurd ?_ hne
    exact Function.update_self r LoopPhase.writing s.loops
  | write r reactor out hwriting hwrite => exact h.setReactor fun hne => absurd hwriting hne
  | returned r hwriting hswapped => exact h.setLoop fun _ => hswapped

/-! ### Nobody waits for nobody -/

/-- The threads have nothing left to do. No notification is owed, no flag is set, no reply waits,
and a batch is left at most where the thread that should run it has exited. -/
structure Settled (s : Wakeup τ ω ρ) : Prop where
  owed : ∀ caller, s.owed caller = none
  /-- The loop is not in `_on_reply`, and will not start it. -/
  loop : ∀ r, s.loops r = .polling ∧ s.flag r = false
  reactor : ∀ r, (s.reactors r).replies = [] ∧ (s.reactors r).swapped = []
  tasks : ∀ w, (s.workers w).tasks = []
  /-- A batch is left only where the thread of the worker has exited. -/
  worker : ∀ w, (s.workers w).phase = .exited ∨
    (s.workers w).phase = .fetching ∧ s.waiting w = .blocked ∧ (s.workers w).queue = []

section AtRest

variable (hrest : AtRest step Action.Own s)
include hrest

/-- A thread that owes a notification can make it. -/
theorem owed_of_atRest (caller : Caller τ ω ρ) : s.owed caller = none := by
  have hstep := hrest (.notify caller) trivial
  cases howed : s.owed caller with
  | none => rfl
  | some owed =>
    simp only [step, howed] at hstep
    cases hstep

/-- A worker in its loop can run the next batch, or leave the loop. -/
theorem not_running_of_atRest (w : ω) : (s.workers w).phase ≠ .running := by
  intro hphase
  have howed := owed_of_atRest hrest (.worker w)
  cases htasks : (s.workers w).tasks with
  | nil =>
    have hstep := hrest (.finish w) trivial
    simp [step, howed, Worker.finishRound, hphase, htasks] at hstep
  | cons b tasks =>
    have hstep := hrest (.run w) trivial
    cases hreactor : b.reactor <;>
      simp [step, howed, Worker.runNext, hphase, htasks, hreactor] at hstep

/-- A worker that is not in its loop and has not exited can look at its queue, unless it is
blocked. -/
theorem blocked_of_atRest {w : ω} (hphase : (s.workers w).phase = .fetching) :
    s.waiting w = .blocked := by
  have howed := owed_of_atRest hrest (.worker w)
  by_contra hwaiting
  by_cases hqueue : (s.workers w).queue = []
  · have hstep := hrest (.block w) trivial
    simp [step, hphase, howed, hwaiting, hqueue] at hstep
  · have hstep := hrest (.fetch w) trivial
    simp [step, howed, hwaiting, Worker.fetchTasks, hphase, hqueue] at hstep

/-- A loop can start `_on_reply` when the flag is set, and can always go on with it. -/
theorem polling_of_atRest (hplaced : s.Placed) (r : ρ) :
    s.loops r = .polling ∧ s.flag r = false := by
  have howed := owed_of_atRest hrest (.loop r)
  cases hphase : s.loops r with
  | polling =>
    have hstep := hrest (.start r) trivial
    simpa [step, hphase, howed] using hstep
  | started =>
    have hswapped : (s.reactors r).swapped = [] := by
      refine hplaced.swapped r ?_
      rw [hphase]
      simp
    have hstep := hrest (.swap r) trivial
    simp [step, hphase, Reactor.swapReplies, hswapped] at hstep
  | writing =>
    cases hswapped : (s.reactors r).swapped with
    | nil =>
      have hstep := hrest (.returned r) trivial
      simp [step, hphase, hswapped] at hstep
    | cons reply swapped =>
      have hstep := hrest (.write r) trivial
      simp [step, hphase, Reactor.writeReply, hswapped] at hstep

end AtRest

/-- When nobody can go on, nothing is left to do. What keeps a thread from going on is never
another thread that waits for it in turn. -/
theorem settled_of_atRest (hattended : s.Attended) (hplaced : s.Placed)
    (hrest : AtRest step Action.Own s) : s.Settled where
  owed := owed_of_atRest hrest
  loop := polling_of_atRest hrest hplaced
  reactor r := by
    obtain ⟨hpolling, hflag⟩ := polling_of_atRest hrest hplaced r
    constructor
    · -- Replies in the queue have somebody who is due to pick them up.
      by_contra hreplies
      -- Each of the three could make a step.
      rcases hattended.reactor r hreplies with hset | hstarted | ⟨caller, howed⟩
      · rw [hflag] at hset
        cases hset
      · rw [hpolling] at hstarted
        cases hstarted
      · rw [owed_of_atRest hrest caller] at howed
        cases howed
    · refine hplaced.swapped r ?_
      rw [hpolling]
      exact fun heq => nomatch heq
  tasks w := hplaced.tasks w (not_running_of_atRest hrest w)
  worker w := by
    cases hphase : (s.workers w).phase with
    | running => exact absurd hphase (not_running_of_atRest hrest w)
    | exited => exact Or.inl rfl
    | fetching =>
      have hblocked := blocked_of_atRest hrest hphase
      refine Or.inr ⟨rfl, hblocked, ?_⟩
      -- So does a batch in the queue of a worker that waits.
      by_contra hqueue
      have hwait : s.waiting w ≠ .awake := by
        rw [hblocked]
        exact fun heq => nomatch heq
      rcases hattended.worker w hwait hqueue with hnotified | ⟨caller, howed⟩
      · rw [hblocked] at hnotified
        cases hnotified
      · rw [owed_of_atRest hrest caller] at howed
        cases howed

/-! ### The work that remains -/

/-- The threads, as a sum of three types. -/
def Caller.equivSum : τ ⊕ ω ⊕ ρ ≃ Caller τ ω ρ where
  toFun
    | .inl t => .thread t
    | .inr (.inl w) => .worker w
    | .inr (.inr r) => .loop r
  invFun
    | .thread t => .inl t
    | .worker w => .inr (.inl w)
    | .loop r => .inr (.inr r)
  left_inv x := by rcases x with t | w | r <;> rfl
  right_inv x := by cases x <;> rfl

/-- Finitely many threads, workers and loops are finitely many callers, so that what they owe can
be added up. -/
instance [Fintype τ] [Fintype ω] [Fintype ρ] : Fintype (Caller τ ω ρ) :=
  Fintype.ofEquiv _ Caller.equivSum

/-- A worker that is awake can block. -/
def waitingWork (waiting : Waiting) : Nat := if waiting = .blocked then 0 else 1

/-- A reply is yet to be written. -/
def reactorWork (r : Reactor) : Nat := r.replies.length + r.swapped.length

/-- The work of a reactor is one write for each reply that it has. -/
theorem reactorWork_eq (r : Reactor) : reactorWork r = r.pending.length := by
  simp [reactorWork, Reactor.pending, Nat.add_comm]

/-- `_on_reply` is yet to swap, and to return. -/
def loopWork : LoopPhase → Nat
  | .polling => 0
  | .started => 2
  | .writing => 1

/-- A flag makes `_on_reply` start. -/
def flagWork (flag : Bool) : Nat := if flag then 3 else 0

/-- A notification is yet to be made. -/
def owedWork (owed : Option (Owed ω ρ)) : Nat := if owed = none then 0 else 4

section Work

variable [Fintype τ] [Fintype ω] [Fintype ρ]

/-- The work that the threads have before them. Behind a batch comes its reply, with the
notification of the reactor. -/
def remaining (s : Wakeup τ ω ρ) : Nat :=
  (∑ w, (s.workers w).work 5) + (∑ w, waitingWork (s.waiting w))
    + (∑ r, reactorWork (s.reactors r)) + (∑ r, loopWork (s.loops r))
    + (∑ r, flagWork (s.flag r)) + ∑ caller, owedWork (s.owed caller)

/-- The steps that an action from outside makes necessary. -/
def Action.cost : Action τ ω ρ → Nat
  | .submit _ _ _ => 12
  | .send _ _ replies => replies.length + 4
  | .spurious _ => 1
  | _ => 0

/-- An own step counts one. -/
def Action.steps (a : Action τ ω ρ) : Nat := if a.Own then 1 else 0

omit [DecidableEq τ] [DecidableEq ρ] in
/-- Another state of one worker is more work in the system by as much as it is more work for the
worker. This is an equation of sums, and so are the five that follow: differences of natural
numbers are cut off at zero. -/
theorem remaining_setWorker (s : Wakeup τ ω ρ) (w : ω) (worker : Worker ρ) :
    (s.setWorker w worker).remaining + (s.workers w).work 5
      = s.remaining + worker.work 5 := by
  have hsum := sum_update s.workers (Worker.work 5) w worker
  simp only [remaining, setWorker]
  omega

omit [DecidableEq τ] [DecidableEq ρ] in
/-- The same of the place in which a worker waits. -/
theorem remaining_setWaiting (s : Wakeup τ ω ρ) (w : ω) (waiting : Waiting) :
    (s.setWaiting w waiting).remaining + waitingWork (s.waiting w)
      = s.remaining + waitingWork waiting := by
  have hsum := sum_update s.waiting waitingWork w waiting
  simp only [remaining, setWaiting]
  omega

omit [DecidableEq τ] [DecidableEq ω] in
/-- The same of a reactor. -/
theorem remaining_setReactor (s : Wakeup τ ω ρ) (r : ρ) (reactor : Reactor) :
    (s.setReactor r reactor).remaining + reactorWork (s.reactors r)
      = s.remaining + reactorWork reactor := by
  have hsum := sum_update s.reactors reactorWork r reactor
  simp only [remaining, setReactor]
  omega

omit [DecidableEq τ] [DecidableEq ω] in
/-- The same of the phase of a loop. -/
theorem remaining_setLoop (s : Wakeup τ ω ρ) (r : ρ) (phase : LoopPhase) :
    (s.setLoop r phase).remaining + loopWork (s.loops r) = s.remaining + loopWork phase := by
  have hsum := sum_update s.loops loopWork r phase
  simp only [remaining, setLoop]
  omega

omit [DecidableEq τ] [DecidableEq ω] in
/-- The same of the flag of an async handle: a flag that is set is a callback that is to come. -/
theorem remaining_setFlag (s : Wakeup τ ω ρ) (r : ρ) (flag : Bool) :
    ({ s with flag := Function.update s.flag r flag } : Wakeup τ ω ρ).remaining
      + flagWork (s.flag r) = s.remaining + flagWork flag := by
  have hsum := sum_update s.flag flagWork r flag
  simp only [remaining]
  omega

/-- The same of a notification that is owed. -/
theorem remaining_setOwed (s : Wakeup τ ω ρ) (caller : Caller τ ω ρ)
    (owed : Option (Owed ω ρ)) :
    (s.setOwed caller owed).remaining + owedWork (s.owed caller)
      = s.remaining + owedWork owed := by
  have hsum := sum_update s.owed owedWork caller owed
  simp only [remaining, setOwed]
  omega

omit [DecidableEq τ] in
/-- A notification that is made costs less than one that is owed. -/
theorem remaining_deliver (s : Wakeup τ ω ρ) (owed : Owed ω ρ) :
    (s.deliver owed).remaining ≤ s.remaining + 3 := by
  cases owed with
  | worker w =>
    show (if s.waiting w = .blocked then s.setWaiting w .notified else s).remaining ≤ _
    by_cases hblocked : s.waiting w = .blocked
    · have hset := remaining_setWaiting s w .notified
      have hnew : waitingWork .notified = 1 := rfl
      rw [if_pos hblocked]
      omega
    · rw [if_neg hblocked]
      omega
  | reactor r =>
    have hset := remaining_setFlag s r true
    have hnew : flagWork true = 3 := rfl
    show ({ s with flag := Function.update s.flag r true } : Wakeup τ ω ρ).remaining ≤ _
    omega

/-- The locked section of `Reactor::send`. -/
theorem remaining_send (s : Wakeup τ ω ρ) {caller : Caller τ ω ρ} (hfree : s.owed caller = none)
    (r : ρ) (replies : List Reply) :
    ((s.setReactor r ((s.reactors r).send replies)).setOwed caller
      (some (.reactor r))).remaining = s.remaining + (replies.length + 4) := by
  have howed := remaining_setOwed (s.setReactor r ((s.reactors r).send replies)) caller
    (some (.reactor r))
  have hset := remaining_setReactor s r ((s.reactors r).send replies)
  have hwas : owedWork ((s.setReactor r ((s.reactors r).send replies)).owed caller) = 0 := by
    show owedWork (s.owed caller) = 0
    rw [hfree]
    rfl
  have hnow : owedWork (some (Owed.reactor r : Owed ω ρ)) = 4 := rfl
  have hwork : reactorWork ((s.reactors r).send replies)
      = reactorWork (s.reactors r) + replies.length := by
    simp only [reactorWork, Reactor.send, List.length_append]
    omega
  omega

/-- The locked section of `Worker::submit`. -/
theorem remaining_submit (s : Wakeup τ ω ρ) {caller : Caller τ ω ρ}
    (hfree : s.owed caller = none) (w : ω) (batchTask : BatchTask ρ) :
    ((s.setWorker w ((s.workers w).submit batchTask)).setOwed caller
      (some (.worker w))).remaining = s.remaining + 12 := by
  have howed := remaining_setOwed (s.setWorker w ((s.workers w).submit batchTask)) caller
    (some (.worker w))
  have hset := remaining_setWorker s w ((s.workers w).submit batchTask)
  have hwas : owedWork ((s.setWorker w ((s.workers w).submit batchTask)).owed caller) = 0 := by
    show owedWork (s.owed caller) = 0
    rw [hfree]
    rfl
  have hnow : owedWork (some (Owed.worker w : Owed ω ρ)) = 4 := rfl
  have hwork := Worker.work_submit 5 (s.workers w) batchTask
  omega

/-- Each own step lowers the work that remains. -/
theorem remaining_own {a : Action τ ω ρ} (hown : a.Own) (hs : s.step a = some s') :
    s'.remaining < s.remaining := by
  cases next_of_step hs with
  | submit caller w batchTask hfree hsubmits => exact hown.elim
  | send t r replies hfree => exact hown.elim
  | spurious w hblocked => exact hown.elim
  | notify caller owed howed =>
    -- What is owed weighs four, and what it becomes three at most.
    have hset := remaining_setOwed s caller none
    have hdeliver := remaining_deliver (s.setOwed caller none) owed
    have hwas : owedWork (s.owed caller) = 4 := by
      rw [howed]
      rfl
    have hnow : owedWork (none : Option (Owed ω ρ)) = 0 := rfl
    omega
  | block w hphase hfree hwaiting hqueue =>
    -- Awake weighs one, and blocked nothing.
    have hset := remaining_setWaiting s w .blocked
    have hwas : waitingWork (s.waiting w) = 1 := if_neg hwaiting
    have hnow : waitingWork .blocked = 0 := rfl
    omega
  | fetch w worker hfree hwaiting hfetch =>
    -- The queue weighs more than the list that it becomes, and the worker may have been notified.
    have hset := remaining_setWorker s w worker
    have hawake := remaining_setWaiting (s.setWorker w worker) w .awake
    have hwas : waitingWork ((s.setWorker w worker).waiting w) = 1 := if_neg hwaiting
    have hnow : waitingWork .awake = 1 := rfl
    have hwork := Worker.work_fetch 5 hfetch
    omega
  | run w worker out hfree hrun =>
    have hset := remaining_setWorker s w worker
    obtain ⟨hwork, hless⟩ := Worker.work_run 5 hrun
    cases out with
    | none =>
      show (s.setWorker w worker).remaining < _
      omega
    | some call =>
      -- The batch pays for its replies, and for the notification that is owed now.
      have hsend := remaining_send (s.setWorker w worker) hfree call.1 call.2
      show (((s.setWorker w worker).setReactor call.1 _).setOwed (.worker w) _).remaining < _
      rw [Option.elim_some] at hwork
      rw [hsend]
      omega
  | finish w worker hfree hfinish =>
    -- To leave the loop of a round weighs one.
    have hset := remaining_setWorker s w worker
    have hwork := Worker.work_finish 5 hfinish
    omega
  | start r hpolling hfree hflag =>
    -- The flag weighs three, and the swap and the return that follow two.
    have hset := remaining_setFlag s r false
    have hloop := remaining_setLoop { s with flag := Function.update s.flag r false } r .started
    have hwas : flagWork (s.flag r) = 3 := by
      rw [hflag]
      rfl
    have hstarted : loopWork .started = 2 := rfl
    have hcleared : flagWork false = 0 := rfl
    omega
  | swap r reactor hstarted hswap =>
    have hset := remaining_setReactor s r reactor
    have hloop := remaining_setLoop (s.setReactor r reactor) r .writing
    -- The replies only change their place.
    have hwork : reactorWork reactor = reactorWork (s.reactors r) := by
      rw [reactorWork_eq, reactorWork_eq, (Reactor.swapReplies_spec hswap).1]
    have hwas : loopWork ((s.setReactor r reactor).loops r) = 2 := by
      show loopWork (s.loops r) = 2
      rw [hstarted]
      rfl
    have hnow : loopWork .writing = 1 := rfl
    omega
  | write r reactor out hwriting hwrite =>
    have hset := remaining_setReactor s r reactor
    obtain ⟨reply, hpending, -⟩ := Reactor.writeReply_spec hwrite
    -- One reply less is to be written.
    have hwork : reactorWork reactor + 1 = reactorWork (s.reactors r) := by
      rw [reactorWork_eq, reactorWork_eq, hpending, List.length_cons]
    omega
  | returned r hwriting hswapped =>
    -- `_on_reply` has nothing left to do.
    have hloop := remaining_setLoop s r .polling
    have hwas : loopWork (s.loops r) = 1 := by
      rw [hwriting]
      rfl
    have hnow : loopWork .polling = 0 := rfl
    omega

/-- An action from outside raises the work that remains by no more than its cost. -/
theorem remaining_outside {a : Action τ ω ρ} (houtside : ¬ a.Own) (hs : s.step a = some s') :
    s'.remaining ≤ s.remaining + a.cost := by
  cases next_of_step hs with
  | submit caller w batchTask hfree hsubmits =>
    exact Nat.le_of_eq (remaining_submit s hfree w batchTask)
  | send t r replies hfree => exact Nat.le_of_eq (remaining_send s hfree r replies)
  | spurious w hblocked =>
    have hset := remaining_setWaiting s w .notified
    have hnow : waitingWork .notified = 1 := rfl
    show _ ≤ s.remaining + 1
    omega
  | _ => exact absurd trivial houtside

omit [DecidableEq τ] [DecidableEq ω] [DecidableEq ρ] in
/-- At the start each worker can block, and an async may have been sent. -/
theorem Initial.remaining_le (h : s.Initial) :
    s.remaining ≤ Fintype.card ω + 3 * Fintype.card ρ := by
  have hworkers : ∑ w, (s.workers w).work 5 = 0 :=
    Finset.sum_eq_zero fun w _ => by rw [h.workers]; rfl
  have hwaiting : ∑ w, waitingWork (s.waiting w) = Fintype.card ω := by
    simp [h.waiting, waitingWork]
  have hreactors : ∑ r, reactorWork (s.reactors r) = 0 :=
    Finset.sum_eq_zero fun r _ => by
      rw [reactorWork, (h.replies r).1, (h.replies r).2]
      rfl
  have hloops : ∑ r, loopWork (s.loops r) = 0 :=
    Finset.sum_eq_zero fun r _ => by rw [h.loops]; rfl
  have hflags : ∑ r, flagWork (s.flag r) ≤ Fintype.card ρ * 3 := by
    refine Finset.sum_le_card_nsmul _ _ 3 fun r _ => ?_
    unfold flagWork
    split <;> omega
  have howed : ∑ caller, owedWork (s.owed caller) = 0 :=
    Finset.sum_eq_zero fun caller _ => by rw [h.owed]; rfl
  unfold remaining
  omega

/-! ### Whole runs -/

omit [Fintype τ] [Fintype ω] [Fintype ρ] in
/-- What a run from the start keeps. -/
theorem attended_placed_of_run {s₀ : Wakeup τ ω ρ} (h : s₀.Attended ∧ s₀.Placed)
    {path : List (Wakeup τ ω ρ × Action τ ω ρ)} (hrun : Run step s₀ path s) :
    s.Attended ∧ s.Placed :=
  (Run.invariant (P := fun s : Wakeup τ ω ρ => s.Attended ∧ s.Placed) (C := fun _ _ => True)
    (fun _ _ _ h _ hs => ⟨h.1.step hs, h.2.step hs⟩) hrun h fun _ _ => trivial).1

/-- **The threads come to rest, and leave nothing behind.** From any state that can be reached,
they can go on by themselves for `remaining` steps at most, in whatever order they do. When no
thread can go on, everything that was pushed has been taken up. Such a state can always be
reached. That there is a run to such a state follows from the bound: as long as some own step is
possible it can be taken. -/
theorem settles_of_run {s₀ : Wakeup τ ω ρ} (h₀ : s₀.Initial)
    {path : List (Wakeup τ ω ρ × Action τ ω ρ)} (hrun : Run step s₀ path s) :
    (∀ path' s', Run step s path' s' → (∀ p ∈ path', p.2.Own) →
      path'.length ≤ s.remaining ∧ (AtRest step Action.Own s' → s'.Settled)) ∧
    ∃ path' s', Run step s path' s' ∧ (∀ p ∈ path', p.2.Own) ∧ s'.Settled := by
  have hinv := attended_placed_of_run ⟨h₀.attended, h₀.placed⟩ hrun
  have hstep : ∀ (t : Wakeup τ ω ρ) (a : Action τ ω ρ) (t' : Wakeup τ ω ρ),
      t.Attended ∧ t.Placed → a.Own → t.step a = some t' →
        (t'.Attended ∧ t'.Placed) ∧ t'.remaining < t.remaining :=
    fun _ _ _ h hown hs => ⟨⟨h.1.step hs, h.2.step hs⟩, remaining_own hown hs⟩
  exact Run.comes_to_rest hstep (fun _ h hrest => settled_of_atRest h.1 h.2 hrest) s hinv

/-- From the end of `lateActions`, where a batch and a reply are yet to be taken up, the threads
come to rest with nothing left. -/
theorem settles_of_run_late :
    ∃ path s, quietStart.Initial ∧ Run step quietStart path s ∧
      path.map Prod.snd = lateActions ∧
      ∃ path' s', Run step s path' s' ∧ (∀ p ∈ path', p.2.Own) ∧ s'.Settled := by
  obtain ⟨path, hrun, hacts⟩ := Run.exec lateActions .nil (Option.some_get isSome_lateActions).symm
  exact ⟨path, _, initial_quietStart, hrun, hacts, (settles_of_run initial_quietStart hrun).2⟩

/-- **The work is bounded by what comes in.** In any run, each batch that is pushed makes for
twelve steps of the threads at most, each push of replies for four and one for each reply, and
each wait that ends without a reason for one. To these come one step for each worker and three for
each reactor. Each own step lowers the work that remains, and a push raises it by its cost. So the
two bounds, this one and that of `settles_of_run`, come from the same potential. -/
theorem steps_le_of_run {s₀ : Wakeup τ ω ρ} (h₀ : s₀.Initial)
    {path : List (Wakeup τ ω ρ × Action τ ω ρ)} (hrun : Run step s₀ path s) :
    total (fun _ => Action.steps) path
      ≤ Fintype.card ω + 3 * Fintype.card ρ + total (fun _ => Action.cost) path := by
  have hwork : s.remaining + total (fun _ => Action.steps) path
      ≤ s₀.remaining + total (fun _ => Action.cost) path :=
    hrun.steps_le remaining_own remaining_outside
  have hstart := h₀.remaining_le
  omega

/-- The bound on the steps of `lateActions`, with one worker and one reactor. -/
theorem steps_le_of_run_late :
    ∃ path s, Run step quietStart path s ∧ path.map Prod.snd = lateActions ∧
      total (fun _ => Action.steps) path
        ≤ Fintype.card Unit + 3 * Fintype.card Unit + total (fun _ => Action.cost) path := by
  obtain ⟨path, hrun, hacts⟩ := Run.exec lateActions .nil (Option.some_get isSome_lateActions).symm
  exact ⟨path, _, hrun, hacts, steps_le_of_run initial_quietStart hrun⟩

end Work

end VectorEngine.Wakeup
