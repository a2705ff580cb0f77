import VectorEngine.Proofs.Engine.Queues
import VectorEngine.Transition.Run
import VectorEngine.Wakeup

/-!
# `VectorEngine.Proofs.Wakeup`: no wake-up is lost

Between a push and its notification the other side may look, or may not. `Attended` says what
keeps it from missing anything: while something is in a queue whose owner may not look by
itself, the thread that pushed it still owes its notification, or a notification has arrived and
is not used up. Notifications are made late, and several of them may become one, so the
statement names no particular push.

Each step is one of three things for a hand-over: a push by a thread that owes the notification
from then on, a notification, or a look that leaves the queue empty. A worker blocks only on an
empty queue, and the flag of the async is cleared before the look.
-/

set_option autoImplicit false

namespace VectorEngine.Wakeup

open VectorEngine.Transition

variable {τ ω ρ : Type} [DecidableEq τ] [DecidableEq ω] [DecidableEq ρ]
variable {s s' : Wakeup τ ω ρ}

/-- Some thread owes the notification. -/
def IsOwed (s : Wakeup τ ω ρ) (owed : Owed ω ρ) : Prop := ∃ caller, s.owed caller = some owed

/-- Whatever was pushed, somebody is due to pick it up. For a batch this is the worker, if it is
awake or notified, or a thread that owes it a notification. For a reply it is the loop, if the
flag of its async handle is set or it is at the start of `_on_reply`, or again a thread that owes
a notification. -/
structure Attended (s : Wakeup τ ω ρ) : Prop where
  worker : ∀ w, s.waiting w ≠ .awake → (s.workers w).queue ≠ [] →
    s.waiting w = .notified ∨ s.IsOwed (.worker w)
  reactor : ∀ r, (s.reactors r).replies ≠ [] →
    s.flag r = true ∨ s.loops r = .started ∨ s.IsOwed (.reactor r)

omit [DecidableEq τ] [DecidableEq ω] [DecidableEq ρ] in
/-- At the start all queues are empty, so that there is nothing to attend to. -/
theorem Initial.attended (h : s.Initial) : s.Attended where
  worker w hwait := absurd (h.waiting w) hwait
  reactor r hreplies := absurd (h.replies r).1 hreplies

/-! ### Owed notifications -/

/-- A thread that owed nothing takes on a notification. -/
theorem isOwed_setOwed_self (s : Wakeup τ ω ρ) (caller : Caller τ ω ρ) (owed : Owed ω ρ) :
    (s.setOwed caller (some owed)).IsOwed owed := by
  refine ⟨caller, ?_⟩
  show Function.update s.owed caller (some owed) caller = some owed
  rw [Function.update_self]

/-- A notification that is owed by one thread is still owed when another thread comes to owe one.
-/
theorem IsOwed.setOwed {owed new : Owed ω ρ} (h : s.IsOwed owed) {caller : Caller τ ω ρ}
    (hfree : s.owed caller = none) : (s.setOwed caller (some new)).IsOwed owed := by
  obtain ⟨other, hother⟩ := h
  have hne : other ≠ caller := by
    rintro rfl
    rw [hfree] at hother
    cases hother
  refine ⟨other, ?_⟩
  show Function.update s.owed caller (some new) other = some owed
  rw [Function.update_of_ne hne]
  exact hother

/-- A notification is made, and the others are owed as before. -/
theorem IsOwed.clear {owed made : Owed ω ρ} (h : s.IsOwed owed) {caller : Caller τ ω ρ}
    (hmade : s.owed caller = some made) (hne : owed ≠ made) :
    (s.setOwed caller none).IsOwed owed := by
  obtain ⟨other, hother⟩ := h
  have hother' : other ≠ caller := by
    rintro rfl
    rw [hmade] at hother
    exact hne (Option.some.inj hother).symm
  refine ⟨other, ?_⟩
  show Function.update s.owed caller none other = some owed
  rw [Function.update_of_ne hother']
  exact hother

/-! ### The parts of a step -/

omit [DecidableEq τ] [DecidableEq ρ] in
/-- A worker changes in a way that brings nothing into its queue. -/
theorem Attended.setWorker (h : s.Attended) {w : ω} {worker : Worker ρ}
    (hqueue : worker.queue ≠ [] → (s.workers w).queue ≠ []) : (s.setWorker w worker).Attended where
  worker v hwait hne := by
    refine h.worker v hwait ?_
    replace hne : (Function.update s.workers w worker v).queue ≠ [] := hne
    by_cases hv : v = w
    · rw [hv, Function.update_self] at hne
      rw [hv]
      exact hqueue hne
    · rwa [Function.update_of_ne hv] at hne
  reactor := h.reactor

omit [DecidableEq τ] [DecidableEq ω] in
/-- A reactor changes in a way that brings nothing into its queue. -/
theorem Attended.setReactor (h : s.Attended) {r : ρ} {reactor : Reactor}
    (hreplies : reactor.replies ≠ [] → (s.reactors r).replies ≠ []) :
    (s.setReactor r reactor).Attended where
  worker := h.worker
  reactor q hne := by
    refine h.reactor q ?_
    replace hne : (Function.update s.reactors r reactor q).replies ≠ [] := hne
    by_cases hq : q = r
    · rw [hq, Function.update_self] at hne
      rw [hq]
      exact hreplies hne
    · rwa [Function.update_of_ne hq] at hne

/-- A thread pushes a batch, and owes the notification. -/
theorem Attended.submit (h : s.Attended) {caller : Caller τ ω ρ} (hfree : s.owed caller = none)
    (w : ω) (batchTask : BatchTask ρ) :
    ((s.setWorker w ((s.workers w).submit batchTask)).setOwed caller
      (some (.worker w))).Attended where
  worker v hwait hne := by
    by_cases hv : v = w
    · subst hv
      exact Or.inr (isOwed_setOwed_self _ caller (.worker v))
    · replace hne : (Function.update s.workers w _ v).queue ≠ [] := hne
      rw [Function.update_of_ne hv] at hne
      exact (h.worker v hwait hne).imp_right fun howed => howed.setOwed hfree
  reactor r hne := (h.reactor r hne).imp_right fun hor =>
    hor.imp_right fun howed => howed.setOwed hfree

/-- A thread pushes replies, and owes the notification. -/
theorem Attended.send (h : s.Attended) {caller : Caller τ ω ρ} (hfree : s.owed caller = none)
    (r : ρ) (replies : List Reply) :
    ((s.setReactor r ((s.reactors r).send replies)).setOwed caller
      (some (.reactor r))).Attended where
  worker w hwait hne := (h.worker w hwait hne).imp_right fun howed => howed.setOwed hfree
  reactor q hne := by
    by_cases hq : q = r
    · subst hq
      exact Or.inr (Or.inr (isOwed_setOwed_self _ caller (.reactor q)))
    · replace hne : (Function.update s.reactors r _ q).replies ≠ [] := hne
      rw [Function.update_of_ne hq] at hne
      exact (h.reactor q hne).imp_right fun hor => hor.imp_right fun howed => howed.setOwed hfree

/-- A thread notifies a worker. If the worker waits, it is woken. -/
theorem Attended.notifyWorker (h : s.Attended) {caller : Caller τ ω ρ} {w : ω}
    (howed : s.owed caller = some (.worker w)) :
    ((s.setOwed caller none).deliver (.worker w)).Attended := by
  have hothers : ∀ v, v ≠ w → s.waiting v ≠ .awake → (s.workers v).queue ≠ [] →
      s.waiting v = .notified ∨ (s.setOwed caller none).IsOwed (.worker v) :=
    fun v hv hwait hne => (h.worker v hwait hne).imp_right fun hv' =>
      hv'.clear howed fun heq => hv (Owed.worker.inj heq)
  have hreactors : ∀ r, (s.reactors r).replies ≠ [] →
      s.flag r = true ∨ s.loops r = .started ∨ (s.setOwed caller none).IsOwed (.reactor r) :=
    fun r hne => (h.reactor r hne).imp_right fun hor =>
      hor.imp_right fun hr => hr.clear howed fun heq => nomatch heq
  have hdeliver : (s.setOwed caller none).deliver (.worker w)
      = if s.waiting w = .blocked then (s.setOwed caller none).setWaiting w .notified
        else s.setOwed caller none := rfl
  rw [hdeliver]
  by_cases hblocked : s.waiting w = .blocked
  · rw [if_pos hblocked]
    refine ⟨fun v hwait hne => ?_, hreactors⟩
    show Function.update s.waiting w .notified v = .notified ∨ _
    replace hwait : Function.update s.waiting w .notified v ≠ .awake := hwait
    by_cases hv : v = w
    · left
      rw [hv, Function.update_self]
    · rw [Function.update_of_ne hv] at hwait ⊢
      exact hothers v hv hwait hne
  · rw [if_neg hblocked]
    refine ⟨fun v hwait hne => ?_, hreactors⟩
    by_cases hv : v = w
    -- The worker is awake, or woken already.
    · left
      subst hv
      replace hwait : s.waiting v ≠ .awake := hwait
      show s.waiting v = .notified
      cases hphase : s.waiting v with
      | awake => exact absurd hphase hwait
      | blocked => exact absurd hphase hblocked
      | notified => rfl
    · exact hothers v hv hwait hne

/-- A thread sends the async. -/
theorem Attended.notifyReactor (h : s.Attended) {caller : Caller τ ω ρ} {r : ρ}
    (howed : s.owed caller = some (.reactor r)) :
    ((s.setOwed caller none).deliver (.reactor r)).Attended where
  worker w hwait hne := (h.worker w hwait hne).imp_right fun hw =>
    hw.clear howed fun heq => nomatch heq
  reactor q hne := by
    show Function.update s.flag r true q = true ∨ _
    by_cases hq : q = r
    · left
      rw [hq, Function.update_self]
    · rw [Function.update_of_ne hq]
      exact (h.reactor q hne).imp_right fun hor => hor.imp_right fun hr =>
        hr.clear howed fun heq => hq (Owed.reactor.inj heq)

omit [DecidableEq τ] [DecidableEq ρ] in
/-- A worker goes to sleep on an empty queue, or wakes up. -/
theorem Attended.setWaiting (h : s.Attended) {w : ω} {waiting : Waiting}
    (hsleep : waiting = .blocked → (s.workers w).queue = []) :
    (s.setWaiting w waiting).Attended where
  worker v hwait hne := by
    show Function.update s.waiting w waiting v = .notified ∨ _
    replace hwait : Function.update s.waiting w waiting v ≠ .awake := hwait
    by_cases hv : v = w
    · subst hv
      rw [Function.update_self] at hwait ⊢
      cases waiting with
      | awake => exact absurd rfl hwait
      | blocked => exact absurd (hsleep rfl) hne
      | notified => exact Or.inl rfl
    · rw [Function.update_of_ne hv] at hwait ⊢
      exact h.worker v hwait hne
  reactor := h.reactor

omit [DecidableEq τ] [DecidableEq ω] in
/-- `_on_reply` starts: the flag is cleared, and the look is still to come. -/
theorem Attended.start (h : s.Attended) (r : ρ) :
    ({ s with flag := Function.update s.flag r false }.setLoop r .started).Attended where
  worker := h.worker
  reactor q hne := by
    show Function.update s.flag r false q = true ∨ Function.update s.loops r .started q = .started
      ∨ _
    by_cases hq : q = r
    · right
      left
      rw [hq, Function.update_self]
    · rw [Function.update_of_ne hq, Function.update_of_ne hq]
      exact h.reactor q hne

omit [DecidableEq τ] [DecidableEq ω] in
/-- The loop thread goes on, and has looked at its queue or had not started to. -/
theorem Attended.setLoop (h : s.Attended) {r : ρ} {phase : LoopPhase}
    (hlooked : (s.reactors r).replies = [] ∨ s.loops r ≠ .started) :
    (s.setLoop r phase).Attended where
  worker := h.worker
  reactor q hne := by
    show s.flag q = true ∨ Function.update s.loops r phase q = .started ∨ _
    by_cases hq : q = r
    · subst hq
      rw [Function.update_self]
      have hnot := hlooked.resolve_left hne
      exact (h.reactor q hne).imp_right fun hor => Or.inr (hor.resolve_left hnot)
    · rw [Function.update_of_ne hq]
      exact h.reactor q hne

/-! ### Workers and reactors -/

/-- A step of a thread keeps every hand-over attended. -/
theorem Attended.step (h : s.Attended) {a : Action τ ω ρ} (hs : s.step a = some s') :
    s'.Attended := by
  unfold Wakeup.step at hs
  -- A step is what it does behind its guard. Where the invariant needs the guard, it is named.
  cases a with
  | submit caller w batchTask =>
    obtain ⟨hguard, hs⟩ := Option.ite_none_right_eq_some.mp hs
    cases hs
    exact h.submit hguard.1 w batchTask
  | send t r replies =>
    obtain ⟨hfree, hs⟩ := Option.ite_none_right_eq_some.mp hs
    cases hs
    exact h.send hfree r replies
  | notify caller =>
    cases howed : s.owed caller with
    | none =>
      simp only [howed] at hs
      cases hs
    | some owed =>
      simp only [howed] at hs
      cases hs
      cases owed with
      | worker w => exact h.notifyWorker howed
      | reactor r => exact h.notifyReactor howed
  | block w =>
    obtain ⟨hguard, hs⟩ := Option.ite_none_right_eq_some.mp hs
    cases hs
    exact h.setWaiting fun _ => hguard.2.2.2
  | fetch w =>
    obtain ⟨-, hs⟩ := Option.ite_none_right_eq_some.mp hs
    obtain ⟨worker, hfetch, rfl⟩ := Option.map_eq_some_iff.mp hs
    obtain ⟨-, rfl⟩ := Worker.fetchTasks_cases hfetch
    exact (h.setWorker fun hne => absurd rfl hne).setWaiting fun heq => nomatch heq
  | spurious w =>
    obtain ⟨-, hs⟩ := Option.ite_none_right_eq_some.mp hs
    cases hs
    exact h.setWaiting fun heq => nomatch heq
  | run w =>
    obtain ⟨hfree, hs⟩ := Option.ite_none_right_eq_some.mp hs
    obtain ⟨⟨worker, out⟩, hrun, rfl⟩ := Option.map_eq_some_iff.mp hs
    -- Running a batch brings nothing into the queue.
    have hset : (s.setWorker w worker).Attended := by
      obtain ⟨-, b, tasks, -, -, rfl⟩ := Worker.runNext_cases hrun
      exact h.setWorker fun hne => hne
    cases out with
    | none => exact hset
    | some call => exact hset.send hfree call.1 call.2
  | finish w =>
    obtain ⟨-, hs⟩ := Option.ite_none_right_eq_some.mp hs
    obtain ⟨worker, hfinish, rfl⟩ := Option.map_eq_some_iff.mp hs
    obtain ⟨-, -, rfl⟩ := Worker.finishRound_cases hfinish
    exact h.setWorker fun hne => hne
  | start r =>
    obtain ⟨-, hs⟩ := Option.ite_none_right_eq_some.mp hs
    cases hs
    exact h.start r
  | swap r =>
    obtain ⟨-, hs⟩ := Option.ite_none_right_eq_some.mp hs
    obtain ⟨reactor, hswap, rfl⟩ := Option.map_eq_some_iff.mp hs
    have hempty : reactor.replies = [] := by
      unfold Reactor.swapReplies at hswap
      obtain ⟨-, hswap⟩ := Option.ite_none_right_eq_some.mp hswap
      cases hswap
      rfl
    refine (h.setReactor fun hne => absurd hempty hne).setLoop (Or.inl ?_)
    show (Function.update s.reactors r reactor r).replies = []
    rw [Function.update_self]
    exact hempty
  | write r =>
    obtain ⟨-, hs⟩ := Option.ite_none_right_eq_some.mp hs
    obtain ⟨⟨reactor, out⟩, hwrite, rfl⟩ := Option.map_eq_some_iff.mp hs
    refine h.setReactor fun hne => ?_
    unfold Reactor.writeReply at hwrite
    split at hwrite
    · cases hwrite
    · cases hwrite
      exact hne
  | returned r =>
    obtain ⟨hguard, hs⟩ := Option.ite_none_right_eq_some.mp hs
    cases hs
    refine h.setLoop (Or.inr ?_)
    rw [hguard.1]
    exact fun heq => nomatch heq

/-- **No wake-up is lost.** In every state that any threads can reach by any steps, a batch in the
queue of a waiting worker and a reply in the queue of a reactor have somebody who is due to pick
them up. The invariant is `Attended` itself: each step that empties the hands of the one who was
due either takes the batch or the reply up, or leaves another one due. -/
theorem attended_of_run {s₀ : Wakeup τ ω ρ} (h₀ : s₀.Initial)
    {path : List (Wakeup τ ω ρ × Action τ ω ρ)} (hrun : Run step s₀ path s) : s.Attended :=
  (Run.invariant (C := fun _ _ => True) (fun _ _ _ h _ hs => h.step hs) hrun h₀.attended
    (fun _ _ => trivial)).1

/-- One thread, one worker and one reactor, at their start. -/
def quietStart : Wakeup Unit Unit Unit where
  workers _ := Worker.init
  waiting _ := .awake
  reactors _ := { connectionCnt := 0, connections := ∅, replies := [], swapped := [] }
  flag _ := false
  loops _ := .polling
  owed _ := none

/-- The system of the example is one at its start. -/
theorem initial_quietStart : quietStart.Initial where
  workers _ := rfl
  waiting _ := rfl
  replies _ := ⟨rfl, rfl⟩
  loops _ := rfl
  owed _ := rfl

/-- A batch for the one reactor. -/
def oneBatch : BatchTask Unit :=
  BatchTask.ofCommands [{ name := bytesOf "PING", args := [] }] 0 (some ())

/-- The worker blocks before the batch comes, and wakes up for no reason between the push and
the notification. It runs the batch, and has not notified the reactor. -/
def lateActions : List (Action Unit Unit Unit) :=
  [.block (), .submit (.loop ()) () oneBatch, .spurious (), .fetch (), .run (),
    .submit (.thread ()) () oneBatch, .notify (.loop ())]

/-- The run of `lateActions` goes through to its end. -/
theorem isSome_lateActions : (exec step quietStart lateActions).isSome = true := by
  decide +kernel

/-- At the end of `lateActions` there is a batch in the queue and a reply in the reactor, the flag
of the async is cleared, and still nothing is forgotten. -/
theorem attended_of_run_late :
    ∃ path s, quietStart.Initial ∧ Run step quietStart path s ∧
      path.map Prod.snd = lateActions ∧ (s.workers ()).queue = [oneBatch] ∧
      (s.reactors ()).replies ≠ [] ∧ s.flag () = false ∧ s.Attended := by
  obtain ⟨path, hrun, hacts⟩ := Run.exec lateActions .nil (Option.some_get isSome_lateActions).symm
  exact ⟨path, _, initial_quietStart, hrun, hacts, by decide +kernel, by decide +kernel,
    by decide +kernel, attended_of_run initial_quietStart hrun⟩

end VectorEngine.Wakeup
