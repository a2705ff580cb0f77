import Mathlib.Algebra.Order.BigOperators.Group.Finset
import VectorEngine.Proofs.Engine.Work
import VectorEngine.Proofs.Shutdown
import VectorEngine.Transition.Potential

/-!
# `VectorEngine.Proofs.Stopping.Process`: `main` ends

`main` waits for each of its threads: for the loop thread in `~Reactor`, and for one worker
after another in `WorkerPool::stop`. The loop thread leaves `uv_run` when the asynchronous stop
has arrived and `_send()` has returned, and a worker leaves its loop behind its sentinel.

* `ends_of_run`: in any state that can be reached behind the end of the input, the process can go
  on without its clients until `main` has ended, and not longer. No thread is left then.
* `end_steps_le_of_run`: over a whole run, a dispatch makes for six steps at most.

What a late call of `send` does is undefined, and `shutdown_safe_iff` says when there is none.
The results here are about the model, where such a call returns.
-/

set_option autoImplicit false

namespace VectorEngine.Process

open VectorEngine.Transition

variable {n : Nat} {s s' : Process n}

/-- The steps that the process takes by itself. It does not by itself leave `std::getline`, which
waits for the end of the input, nor does the loop thread connect, read or close without a client.
A swap that finds no replies changes nothing, so that it is none of these steps either. -/
def Own (s : Process n) : Action n → Prop
  | .main => s.main ≠ .serving
  | .loop (.swap r) => (s.engine.reactors r).replies ≠ []
  | .loop (.write _) => True
  | .loop _ => False
  | .loopExit | .fetch _ | .run _ | .sendReturn _ | .finish _ => True

/-- Whether an action is the process's own depends on its kind, on the replies that a swap would
find and on whether the main thread still reads its input. -/
instance (s : Process n) : DecidablePred s.Own
  | .main => inferInstanceAs (Decidable (s.main ≠ .serving))
  | .loop (.swap r) => inferInstanceAs (Decidable ((s.engine.reactors r).replies ≠ []))
  | .loop (.connect _) | .loop (.dispatch _ _ _) | .loop (.fetch _) | .loop (.run _)
  | .loop (.finish _) | .loop (.close _ _) => isFalse id
  | .loop (.write _) | .loopExit | .fetch _ | .run _ | .sendReturn _ | .finish _ => isTrue trivial

/-! ### The threads that are waited for -/

/-- The join of `~Worker` has returned. -/
def joinedAt (w : Fin (n + 1)) : MainPhase n → Bool
  | .serving | .stopped | .joiningLoop => false
  | .stoppingWorker v | .destroyingWorker v | .joiningWorker v => decide (w < v)
  | .finished => true

/-- What holds of the threads that `main` waits for. The async of the loop was sent, the worker
that is joined has a sentinel in front of it, and the workers before it have exited. -/
structure Stopping (s : Process n) : Prop where
  requested : s.main ≠ .serving → s.stopRequested = true
  doomed : ∀ w, s.main = .joiningWorker w → (s.engine.workers w).Doomed
  exited : ∀ w, joinedAt w s.main = true → (s.engine.workers w).phase = .exited

/-- While the main thread serves, no thread has to be on its way out. -/
theorem Initial.stopping (h : s.Initial) : s.Stopping where
  requested hmain := absurd h.main hmain
  doomed w hmain := nomatch h.main.symm.trans hmain
  exited w hjoined := by
    rw [h.main] at hjoined
    cases hjoined

/-- A step of one worker keeps it doomed. -/
theorem Lane.Step.doomed {loopRunning reactorGone : Bool} {l l' : Lane}
    (hstep : Lane.Step loopRunning reactorGone l l') (hcalm : l.worker.Calm)
    (h : l.worker.Doomed) : l'.worker.Doomed := by
  cases hstep with
  | stay => exact h
  | submit b hreactor hloop => exact h.submit b
  | fetch x hx => exact h.fetch hcalm hx
  | finish x hx => exact h.finish hx
  | run x out hidle hx => exact h.run hx
  | sendReturn replies hsending => exact h
  | stop hgone => exact Worker.doomed_stop _

/-- A thread that has left its loop takes no more steps. -/
theorem Lane.Step.exited {loopRunning reactorGone : Bool} {l l' : Lane}
    (hstep : Lane.Step loopRunning reactorGone l l') (h : l.worker.phase = .exited) :
    l'.worker.phase = .exited := by
  cases hstep with
  | stay => exact h
  | submit b hreactor hloop => exact h
  | fetch x hx => cases h.symm.trans (Worker.fetchTasks_cases hx).1
  | finish x hx => cases h.symm.trans (Worker.finishRound_cases hx).1
  | run x out hidle hx => cases h.symm.trans (Worker.runNext_cases hx).1
  | sendReturn replies hsending => exact h
  | stop hgone => exact h

/-- The other threads leave the main thread and its request alone. -/
theorem main_of_step {a : Action n} (ha : a ≠ .main) (hs : s.step a = some s') :
    s'.main = s.main ∧ s'.stopRequested = s.stopRequested := by
  cases a with
  | main => exact absurd rfl ha
  | loop a =>
    obtain ⟨-, hs⟩ := Option.ite_none_right_eq_some.mp hs
    obtain ⟨engine, -, rfl⟩ := Option.map_eq_some_iff.mp hs
    -- The loop thread does not touch the phase, whatever its callback is.
    cases a <;> exact ⟨rfl, rfl⟩
  | loopExit =>
    obtain ⟨-, hs⟩ := Option.ite_none_right_eq_some.mp hs
    cases hs
    exact ⟨rfl, rfl⟩
  | fetch w =>
    obtain ⟨-, hs⟩ := Option.ite_none_right_eq_some.mp hs
    obtain ⟨x, -, rfl⟩ := Option.map_eq_some_iff.mp hs
    exact ⟨rfl, rfl⟩
  | run w =>
    obtain ⟨-, hs⟩ := Option.ite_none_right_eq_some.mp hs
    obtain ⟨⟨x, out⟩, -, rfl⟩ := Option.map_eq_some_iff.mp hs
    cases out <;> exact ⟨rfl, rfl⟩
  | sendReturn w =>
    obtain ⟨replies, -, rfl⟩ := Option.map_eq_some_iff.mp hs
    exact ⟨rfl, rfl⟩
  | finish w =>
    obtain ⟨-, hs⟩ := Option.ite_none_right_eq_some.mp hs
    obtain ⟨x, -, rfl⟩ := Option.map_eq_some_iff.mp hs
    exact ⟨rfl, rfl⟩

/-- A worker is stopped, and the main thread goes on to `phase`. -/
theorem Stopping.stopWorker (h : s.Stopping) (w : Fin (n + 1)) {phase : MainPhase n}
    (hrequested : s.main ≠ .serving) (hdoomed : ∀ v, phase = .joiningWorker v → v = w)
    (hjoined : ∀ v, joinedAt v phase = joinedAt v s.main) :
    Stopping { s.setWorker w (s.engine.workers w).stop with main := phase } where
  requested _ := h.requested hrequested
  doomed v hphase := by
    show ((s.engine.setWorker w (s.engine.workers w).stop).workers v).Doomed
    rw [Engine.workers_setWorker, if_pos (hdoomed v hphase)]
    exact Worker.doomed_stop _
  exited v hv := by
    have hexited := h.exited v (hjoined v ▸ hv)
    show ((s.engine.setWorker w (s.engine.workers w).stop).workers v).phase = .exited
    rw [Engine.workers_setWorker]
    by_cases hvw : v = w
    · rw [if_pos hvw, ← hvw]
      exact hexited
    · rw [if_neg hvw]
      exact hexited

/-- The main thread tells a worker to stop before it joins it, and goes on to the next one when
the thread has exited. -/
theorem Stopping.mainStep (h : s.Stopping) (hs : s.mainStep = some s') : s'.Stopping := by
  unfold Process.mainStep at hs
  split at hs
  case h_1 =>
    cases hs
    exact ⟨fun _ => rfl, (fun w hmain => nomatch hmain), fun w hjoined => nomatch hjoined⟩
  case h_2 =>
    cases hs
    exact ⟨fun _ => rfl, (fun w hmain => nomatch hmain), fun w hjoined => nomatch hjoined⟩
  case h_3 hmain =>
    obtain ⟨-, hs⟩ := Option.ite_none_right_eq_some.mp hs
    cases hs
    -- No worker is joined yet.
    have hserving : s.main ≠ .serving := by
      rw [hmain]
      exact fun heq => nomatch heq
    refine ⟨fun _ => h.requested hserving, (fun w hphase => nomatch hphase), fun w hjoined => ?_⟩
    replace hjoined : decide (w < (⟨0, n.succ_pos⟩ : Fin (n + 1))) = true := hjoined
    have hlt : w.val < 0 := Fin.lt_def.mp (of_decide_eq_true hjoined)
    omega
  case h_4 w hmain =>
    cases hs
    -- The first sentinel.
    refine h.stopWorker w ?_ (fun v hphase => nomatch hphase) fun v => ?_
    · rw [hmain]
      exact fun heq => nomatch heq
    · rw [hmain]
      rfl
  case h_5 w hmain =>
    cases hs
    -- The second one. Behind it the worker is joined, and it is doomed.
    refine h.stopWorker w ?_ (fun v hphase => ?_) fun v => ?_
    · rw [hmain]
      exact fun heq => nomatch heq
    · cases hphase
      rfl
    · rw [hmain]
      rfl
  case h_6 w hmain =>
    obtain ⟨hexited, hs⟩ := Option.ite_none_right_eq_some.mp hs
    have hserving : s.main ≠ .serving := by
      rw [hmain]
      exact fun heq => nomatch heq
    -- The thread that was waited for has exited, and those before it had.
    have hupto : ∀ v : Fin (n + 1), v.val ≤ w.val → (s.engine.workers v).phase = .exited := by
      intro v hle
      rcases Nat.eq_or_lt_of_le hle with heq | hlt
      · rw [Fin.ext heq]
        exact hexited
      · refine h.exited v ?_
        rw [hmain]
        exact decide_eq_true (Fin.lt_def.mpr hlt)
    -- To the next worker, or to the end.
    split at hs
    · cases hs
      refine ⟨fun _ => h.requested hserving, (fun v hphase => nomatch hphase), fun v hjoined => ?_⟩
      have hlt : v.val < w.val + 1 := Fin.lt_def.mp (of_decide_eq_true hjoined)
      exact hupto v (by omega)
    · cases hs
      exact ⟨fun _ => h.requested hserving, (fun v hphase => nomatch hphase),
        fun v _ => hupto v (by omega)⟩
  case h_7 => cases hs

/-- The other threads undo none of this: a worker that is doomed stays so, and one that has exited
makes no step. -/
theorem Stopping.step (h : s.Stopping) (hinv : s.Inv) {a : Action n}
    (hs : s.step a = some s') : s'.Stopping := by
  by_cases ha : a = .main
  · subst ha
    exact h.mainStep hs
  · obtain ⟨hmain, hrequest⟩ := main_of_step ha hs
    have hspec := step_spec hinv.lanes hs
    refine ⟨fun hserving => ?_, fun w hphase => ?_, fun w hjoined => ?_⟩
    · rw [hrequest]
      exact h.requested fun heq => hserving (hmain.trans heq)
    · rw [hmain] at hphase
      exact (hspec.lanes w).doomed (hinv.lanes w).calm (h.doomed w hphase)
    · rw [hmain] at hjoined
      exact (hspec.lanes w).exited (h.exited w hjoined)

/-- The main thread never comes back to `std::getline`. -/
theorem main_ne_serving {a : Action n} (h : s.main ≠ .serving) (hs : s.step a = some s') :
    s'.main ≠ .serving := by
  by_cases ha : a = .main
  · -- No step of the main thread leads back to its input.
    subst ha
    replace hs : s.mainStep = some s' := hs
    unfold Process.mainStep at hs
    split at hs
    case h_1 hmain => exact absurd hmain h
    case h_3 =>
      obtain ⟨-, hs⟩ := Option.ite_none_right_eq_some.mp hs
      cases hs
      simp
    case h_6 =>
      obtain ⟨-, hs⟩ := Option.ite_none_right_eq_some.mp hs
      split at hs
      · cases hs
        simp
      · cases hs
        simp
    case h_7 => cases hs
    all_goals
      cases hs
      simp
  · rw [(main_of_step ha hs).1]
    exact h

/-! ### Nobody waits for nobody -/

/-- `main` has ended, and no other thread is left. The loop thread has returned from `uv_run`, and
every worker has exited. -/
structure Ended (s : Process n) : Prop where
  main : s.main = .finished
  loop : s.loopRunning = false
  workers : ∀ w, (s.engine.workers w).phase = .exited ∧ s.sending w = none

section Rests

variable (hrest : Rests step Own s)
include hrest

/-- A call of `send` can return. -/
theorem sending_of_rests (w : Fin (n + 1)) : s.sending w = none := by
  simpa [step] using hrest (.sendReturn w) trivial

/-- The loop thread can go on with `_send()`, or leave `uv_run`. -/
theorem loopRunning_of_rests (hrequested : s.stopRequested = true) : s.loopRunning = false := by
  by_contra hloop
  rw [Bool.not_eq_false] at hloop
  cases hswapped : (s.engine.reactors ()).swapped with
  | nil =>
    have hstep := hrest .loopExit trivial
    simp [step, hloop, hrequested, hswapped] at hstep
  | cons reply swapped =>
    have hstep := hrest (.loop (.write ())) trivial
    simp [step, hloop, Engine.Action.ofLoop, Engine.step, Reactor.writeReply, hswapped] at hstep

/-- The thread of a doomed worker has exited. -/
theorem exited_of_rests {w : Fin (n + 1)} (hcalm : (s.engine.workers w).Calm)
    (hdoomed : (s.engine.workers w).Doomed) : (s.engine.workers w).phase = .exited := by
  have hsending := sending_of_rests hrest w
  have hfetch : (s.engine.workers w).fetchTasks = none := by
    simpa [step, hsending] using hrest (.fetch w) trivial
  have hrun : (s.engine.workers w).runNext = none := by
    simpa [step, hsending] using hrest (.run w) trivial
  have hfinish : (s.engine.workers w).finishRound = none := by
    simpa [step, hsending] using hrest (.finish w) trivial
  exact hdoomed.exited_of_stuck hcalm hfetch hrun hfinish

/-- When nobody can go on behind the end of the input, `main` has ended. -/
theorem ended_of_rests (hinv : s.Inv) (hstopping : s.Stopping) (hinput : s.main ≠ .serving) :
    s.Ended := by
  -- In every other phase the main thread could make a step.
  have hmain : s.main = .finished := by
    have hstep : s.mainStep = none := hrest .main hinput
    unfold mainStep at hstep
    split at hstep
    case h_1 => cases hstep
    case h_2 => cases hstep
    case h_3 hmain =>
      have hserving : s.main ≠ .serving := by
        rw [hmain]
        exact fun heq => nomatch heq
      -- The join of the loop thread can return, since the loop has been asked to stop and is at
      -- rest.
      rw [if_pos (loopRunning_of_rests hrest (hstopping.requested hserving))] at hstep
      cases hstep
    case h_4 => cases hstep
    case h_5 => cases hstep
    case h_6 w hmain =>
      -- So can the join of a worker that is doomed and at rest.
      rw [if_pos (exited_of_rests hrest (hinv.lanes w).calm (hstopping.doomed w hmain))] at hstep
      split at hstep <;> cases hstep
    case h_7 hmain => exact hmain
  refine ⟨hmain, hinv.joined (congrArg MainPhase.reactorGone hmain), fun w => ⟨?_, ?_⟩⟩
  · refine hstopping.exited w ?_
    rw [hmain]
    rfl
  · exact sending_of_rests hrest w

end Rests

/-! ### The work that remains -/

/-- The steps of the main thread behind the end of the input, with those of the workers that its
sentinels make for. -/
def mainWork : MainPhase n → Nat
  | .serving | .stopped => 15 * (n + 1) + 2
  | .joiningLoop => 15 * (n + 1) + 1
  | .stoppingWorker w => 15 * (n + 1 - w)
  | .destroyingWorker w => 15 * (n + 1 - w) - 7
  | .joiningWorker w => 15 * (n + 1 - w) - 14
  | .finished => 0

/-- A reply is yet to be swapped out and written, or only to be written. -/
def reactorWork (r : Reactor) : Nat := 2 * r.replies.length + r.swapped.length

/-- A batch makes for three steps besides its reply: its call of `send` returns, and the reply is
swapped out and written. So is each reply that the worker holds. -/
def workerWork (w : Worker Unit) : Nat := w.work 3 + w.replies.length

/-- A call of `send` is yet to return, and each of its replies is yet to be swapped out and
written. -/
def sendingWork (sending : Option (List Reply)) : Nat :=
  sending.elim 0 fun replies => 2 * replies.length + 1

/-- `uv_run` is yet to return. -/
def loopWork (loopRunning : Bool) : Nat := if loopRunning then 1 else 0

/-- The work that the threads have before them. -/
def remaining (s : Process n) : Nat :=
  mainWork s.main + loopWork s.loopRunning + reactorWork (s.engine.reactors ())
    + (∑ w, workerWork (s.engine.workers w)) + ∑ w, sendingWork (s.sending w)

/-- The steps that an action from outside makes necessary. -/
def Action.cost : Action n → Nat
  | .loop (.dispatch _ _ _) => 6
  | _ => 0

/-- An own step counts one. -/
def steps (s : Process n) (a : Action n) : Nat := if s.Own a then 1 else 0

/-- A batch that is submitted is worth six steps: it is fetched and run, the call of `send`
returns, the worker ends its round, and the reply is swapped out and written. -/
theorem workerWork_submit (w : Worker Unit) (b : BatchTask Unit) :
    workerWork (w.submit b) = workerWork w + 6 := by
  have hwork := Worker.work_submit 3 w b
  have hreplies : (w.submit b).replies = w.replies := rfl
  simp only [workerWork, hreplies]
  omega

/-- To swap out the queue is a step ahead. -/
theorem workerWork_fetch {w w' : Worker Unit} (hfetch : w.fetchTasks = some w') :
    workerWork w' < workerWork w := by
  have hwork := Worker.work_fetch 3 hfetch
  obtain ⟨-, rfl⟩ := Worker.fetchTasks_cases hfetch
  simp only [workerWork, List.length_nil]
  omega

/-- A batch that is run pays for the call of `send`, and for all replies that go with it. -/
theorem workerWork_run {w w' : Worker Unit} {out : Option (Unit × List Reply)}
    (hrun : w.runNext = some (w', out)) :
    workerWork w' + sendingWork (out.map Prod.snd) < workerWork w := by
  obtain ⟨hwork, hless⟩ := Worker.work_run 3 hrun
  obtain ⟨-, b, tasks, -, rfl, rfl⟩ := Worker.runNext_cases hrun
  cases hreactor : b.reactor with
  | none =>
    simp only [hreactor, Option.isSome_none, Bool.false_eq_true, if_false] at hless
    simp only [workerWork, sendingWork, Option.map_none, Option.elim_none, Option.isSome_none,
      Bool.false_eq_true, if_false]
    omega
  | some r =>
    simp only [hreactor, Option.isSome_some, if_true, Option.map_some, Option.elim_some,
      List.length_append, List.length_singleton] at hwork
    simp only [workerWork, sendingWork, Option.map_some, Option.elim_some, Option.isSome_some,
      if_true, List.length_append, List.length_singleton, List.length_nil]
    omega

/-- To leave the loop at the end of a round is a step ahead. -/
theorem workerWork_finish {w w' : Worker Unit} (hfinish : w.finishRound = some w') :
    workerWork w' < workerWork w := by
  have hwork := Worker.work_finish 3 hfinish
  obtain ⟨-, -, rfl⟩ := Worker.finishRound_cases hfinish
  simp only [workerWork]
  omega

/-- Each reply that is sent is to be swapped out and to be written. -/
theorem reactorWork_send (r : Reactor) (replies : List Reply) :
    reactorWork (r.send replies) = reactorWork r + 2 * replies.length := by
  simp only [reactorWork, Reactor.send, List.length_append]
  omega

/-- Each reply that is swapped out has one step less before it. -/
theorem reactorWork_swap {r r' : Reactor} (hswap : r.swapReplies = some r') :
    reactorWork r' + r.replies.length = reactorWork r := by
  obtain ⟨hswapped, hswap⟩ := Option.ite_none_right_eq_some.mp hswap
  cases hswap
  simp only [reactorWork, hswapped, List.length_nil]
  omega

/-- To write a reply is one step less to be done. -/
theorem reactorWork_write {r r' : Reactor} {out : Option Reply}
    (hwrite : r.writeReply = some (r', out)) : reactorWork r' + 1 = reactorWork r := by
  unfold Reactor.writeReply at hwrite
  split at hwrite
  · cases hwrite
  · rename_i reply swapped hswapped
    cases hwrite
    simp only [reactorWork, hswapped, List.length_cons]
    omega

/-- Another state of one worker is more work in the process by as much as it is more work for the
worker. -/
theorem remaining_setWorker (s : Process n) (w : Fin (n + 1)) (x : Worker Unit) :
    (s.setWorker w x).remaining + workerWork (s.engine.workers w) = s.remaining + workerWork x := by
  have hsum := sum_update s.engine.workers workerWork w x
  simp only [remaining, setWorker, Engine.setWorker]
  omega

/-- A step ahead of one worker is a step ahead of the process. -/
theorem remaining_setWorker_lt {w : Fin (n + 1)} {x : Worker Unit}
    (h : workerWork x < workerWork (s.engine.workers w)) :
    (s.setWorker w x).remaining < s.remaining := by
  have hset := remaining_setWorker s w x
  omega

/-- A worker is stopped, and the main thread goes on. -/
theorem remaining_stopWorker (s : Process n) (w : Fin (n + 1)) (phase : MainPhase n) :
    ({ s.setWorker w (s.engine.workers w).stop with main := phase } : Process n).remaining
      + mainWork s.main = s.remaining + 6 + mainWork phase := by
  have hset := remaining_setWorker s w (s.engine.workers w).stop
  have hwork : workerWork (s.engine.workers w).stop = workerWork (s.engine.workers w) + 6 :=
    workerWork_submit _ _
  have hmain : (s.setWorker w (s.engine.workers w).stop).main = s.main := rfl
  simp only [remaining, hmain] at hset ⊢
  omega

/-- Each step of the main thread behind the end of the input lowers the work that remains. -/
theorem remaining_mainStep (hinput : s.main ≠ .serving) (hs : s.mainStep = some s') :
    s'.remaining < s.remaining := by
  unfold mainStep at hs
  split at hs
  case h_1 hmain => exact absurd hmain hinput
  case h_2 hmain =>
    cases hs
    simp only [remaining, hmain, mainWork]
    omega
  case h_3 hmain =>
    obtain ⟨-, hs⟩ := Option.ite_none_right_eq_some.mp hs
    cases hs
    simp only [remaining, hmain, mainWork]
    omega
  case h_4 w hmain =>
    -- The sentinel makes for six steps at most, and the main thread has one less.
    cases hs
    -- This is the first of two.
    have hset := remaining_stopWorker s w (.destroyingWorker w)
    have hwas : mainWork s.main = 15 * (n + 1 - w) := by
      rw [hmain]
      rfl
    have hnow : mainWork (.destroyingWorker w) = 15 * (n + 1 - w) - 7 := rfl
    omega
  case h_5 w hmain =>
    cases hs
    -- The second sentinel is paid for in the same way.
    have hset := remaining_stopWorker s w (.joiningWorker w)
    have hwas : mainWork s.main = 15 * (n + 1 - w) - 7 := by
      rw [hmain]
      rfl
    have hnow : mainWork (.joiningWorker w) = 15 * (n + 1 - w) - 14 := rfl
    omega
  case h_6 w hmain =>
    obtain ⟨-, hs⟩ := Option.ite_none_right_eq_some.mp hs
    split at hs
    · cases hs
      simp only [remaining, hmain, mainWork]
      omega
    · cases hs
      simp only [remaining, hmain, mainWork]
      omega
  case h_7 => cases hs

/-- A call of `send` pays for its return, and for its replies. -/
theorem remaining_callSend (s : Process n) {w : Fin (n + 1)} (hidle : s.sending w = none)
    (out : Option (Unit × List Reply)) :
    (s.callSend w out).remaining = s.remaining + sendingWork (out.map Prod.snd) := by
  cases out with
  | none => rfl
  | some call =>
    have hsum := sum_update s.sending sendingWork w (some call.2)
    have hwas : sendingWork (s.sending w) = 0 := by
      rw [hidle]
      rfl
    simp only [remaining, callSend, Option.map_some]
    omega

/-- The call returns, and its replies are in the queue of the reactor. -/
theorem remaining_returnSend {w : Fin (n + 1)} {replies : List Reply}
    (hsending : s.sending w = some replies) :
    (s.returnSend w replies).remaining + 1 = s.remaining := by
  have hsum := sum_update s.sending sendingWork w none
  have hwas : sendingWork (s.sending w) = 2 * replies.length + 1 := by
    rw [hsending]
    rfl
  have hnow : sendingWork none = 0 := rfl
  have hsend := reactorWork_send (s.engine.reactors ()) replies
  simp only [remaining, returnSend, Engine.deliver, Engine.setReactor, Function.update_self]
  omega

/-- What the loop thread does for a client: a dispatch costs six, and nothing else does. A swap
that finds no replies leaves everything as it is. -/
theorem remaining_loop {a : Engine.Action Unit n} {engine : Engine Unit n}
    (ha : a.ofLoop = true) (houtside : ¬ s.Own (.loop a)) (hs : s.engine.step a = some engine) :
    ({ s.recordSubmit a with engine := engine } : Process n).remaining
      = s.remaining + Action.cost (.loop a) := by
  cases a with
  | connect r =>
    obtain ⟨-, hs⟩ := Option.ite_none_right_eq_some.mp hs
    cases hs
    -- A new connection has no replies, and a batch is what makes work.
    have hr : reactorWork (s.engine.reactors r).createClient
        = reactorWork (s.engine.reactors ()) := rfl
    simp only [remaining, recordSubmit, Engine.setReactor, Function.update_self, hr, Action.cost]
    omega
  | dispatch r id cmds =>
    obtain ⟨-, hs⟩ := Option.ite_none_right_eq_some.mp hs
    cases hs
    have hsum := sum_update s.engine.workers workerWork (WorkerPool.fetch n id)
      ((s.engine.workers (WorkerPool.fetch n id)).submit
        (BatchTask.ofCommands cmds id (some r)))
    have hwork := workerWork_submit (s.engine.workers (WorkerPool.fetch n id))
      (BatchTask.ofCommands cmds id (some r))
    simp only [remaining, recordSubmit, Engine.recordDispatch, Engine.setWorker, Action.cost]
    omega
  | swap r =>
    obtain ⟨reactor, hswap, rfl⟩ := Option.map_eq_some_iff.mp hs
    -- It finds no reply, as it would be an own step otherwise.
    have hnone : (s.engine.reactors ()).replies = [] := Classical.not_not.mp houtside
    have hwork : reactorWork reactor + (s.engine.reactors ()).replies.length
        = reactorWork (s.engine.reactors ()) := reactorWork_swap hswap
    rw [hnone, List.length_nil, Nat.add_zero] at hwork
    simp only [remaining, recordSubmit, Engine.setReactor, Function.update_self, hwork,
      Action.cost]
    omega
  | write r => exact absurd trivial houtside
  | close r id =>
    cases hs
    -- Replies to a connection that is closed are still swapped out and looked at.
    have hr : reactorWork ((s.engine.reactors r).removeConnection id)
        = reactorWork (s.engine.reactors ()) := rfl
    simp only [remaining, recordSubmit, Engine.setReactor, Function.update_self, hr, Action.cost]
    omega
  | fetch w => cases ha
  | run w => cases ha
  | finish w => cases ha

/-- Replies are swapped out. -/
theorem remaining_swap {engine : Engine Unit n} (hreplies : (s.engine.reactors ()).replies ≠ [])
    (hs : s.engine.step (.swap ()) = some engine) :
    ({ s with engine := engine } : Process n).remaining < s.remaining := by
  obtain ⟨reactor, hswap, rfl⟩ := Option.map_eq_some_iff.mp hs
  have hwork := reactorWork_swap hswap
  have hlength := List.length_pos_of_ne_nil hreplies
  simp only [remaining, Engine.setReactor, Function.update_self]
  omega

/-- A reply is written. -/
theorem remaining_write {engine : Engine Unit n} (hs : s.engine.step (.write ()) = some engine) :
    ({ s with engine := engine } : Process n).remaining < s.remaining := by
  obtain ⟨⟨reactor, out⟩, hwrite, rfl⟩ := Option.map_eq_some_iff.mp hs
  have hwork := reactorWork_write hwrite
  cases out with
  | none =>
    simp only [remaining, Engine.recordWrite, Engine.setReactor, Function.update_self]
    omega
  | some reply =>
    simp only [remaining, Engine.recordWrite, Engine.setReactor, Function.update_self]
    omega

/-- Each own step lowers the work that remains. -/
theorem remaining_own {a : Action n} (hown : s.Own a) (hs : s.step a = some s') :
    s'.remaining < s.remaining := by
  cases a with
  | main => exact remaining_mainStep hown hs
  | loop a =>
    obtain ⟨-, hs⟩ := Option.ite_none_right_eq_some.mp hs
    obtain ⟨engine, hengine, rfl⟩ := Option.map_eq_some_iff.mp hs
    cases a with
    | swap r => exact remaining_swap hown hengine
    | write r => exact remaining_write hengine
    | _ => exact hown.elim
  | loopExit =>
    obtain ⟨⟨hloop, -⟩, hs⟩ := Option.ite_none_right_eq_some.mp hs
    cases hs
    simp only [remaining, hloop, loopWork, if_true, Bool.false_eq_true, if_false]
    omega
  | fetch w =>
    obtain ⟨-, hs⟩ := Option.ite_none_right_eq_some.mp hs
    obtain ⟨x, hx, rfl⟩ := Option.map_eq_some_iff.mp hs
    exact remaining_setWorker_lt (workerWork_fetch hx)
  | run w =>
    obtain ⟨hidle, hs⟩ := Option.ite_none_right_eq_some.mp hs
    obtain ⟨⟨x, out⟩, hx, rfl⟩ := Option.map_eq_some_iff.mp hs
    -- The worker has one batch less, and it is in a call that is yet to return.
    have hset := remaining_setWorker s w x
    have hcall := remaining_callSend (s.setWorker w x) hidle out
    have hwork := workerWork_run hx
    show ((s.setWorker w x).callSend w out).remaining < s.remaining
    omega
  | sendReturn w =>
    obtain ⟨replies, hsending, rfl⟩ := Option.map_eq_some_iff.mp hs
    have hreturn := remaining_returnSend hsending
    omega
  | finish w =>
    obtain ⟨-, hs⟩ := Option.ite_none_right_eq_some.mp hs
    obtain ⟨x, hx, rfl⟩ := Option.map_eq_some_iff.mp hs
    exact remaining_setWorker_lt (workerWork_finish hx)

/-- An action from outside raises the work that remains by its cost. The end of the input is one
that costs nothing. -/
theorem remaining_outside {a : Action n} (houtside : ¬ s.Own a) (hs : s.step a = some s') :
    s'.remaining = s.remaining + a.cost := by
  cases a with
  | main =>
    have hmain : s.main = .serving := Classical.not_not.mp houtside
    replace hs : s.mainStep = some s' := hs
    unfold mainStep at hs
    rw [hmain] at hs
    cases hs
    simp only [remaining, hmain, mainWork, Action.cost]
    omega
  | loop a =>
    obtain ⟨⟨-, ha⟩, hs⟩ := Option.ite_none_right_eq_some.mp hs
    obtain ⟨engine, hengine, rfl⟩ := Option.map_eq_some_iff.mp hs
    exact remaining_loop ha houtside hengine
  | _ => exact absurd trivial houtside

/-- The bound at the start of the process: fifteen steps for each worker, and three for the main
thread. -/
theorem Initial.remaining_eq (h : s.Initial) : s.remaining = 15 * (n + 1) + 3 := by
  have hworkers : ∑ w, workerWork (s.engine.workers w) = 0 :=
    Finset.sum_eq_zero fun w _ => by
      rw [h.engine.workers]
      rfl
  have hsending : ∑ w, sendingWork (s.sending w) = 0 :=
    Finset.sum_eq_zero fun w _ => by
      rw [h.sending]
      rfl
  have hreactor : reactorWork (s.engine.reactors ()) = 0 := by
    rw [reactorWork, (h.engine.replies ()).1, (h.engine.replies ()).2]
    rfl
  simp only [remaining, hworkers, hsending, hreactor, h.main, h.loopRunning, mainWork, loopWork,
    if_true]

/-! ### Whole runs -/

/-- **`main` ends.** From any state that can be reached behind the end of the input, the process
can go on without its clients for `remaining` steps at most, in whatever order the threads step.
They come to rest only when `main` has ended and no other thread is left. Such a state can always
be reached. Where the main thread waits, it waits for a thread that is on its way out. That is
what `Stopping` says, and it is why rest means that `main` has ended. -/
theorem ends_of_run {s₀ : Process n} (h₀ : s₀.Initial) {path : List (Process n × Action n)}
    (hrun : Run step s₀ path s) (hinput : s.main ≠ .serving) :
    (∀ path' s', Run step s path' s' → (∀ p ∈ path', p.1.Own p.2) →
      path'.length ≤ s.remaining ∧ (Rests step Own s' → s'.Ended)) ∧
    ∃ path' s', Run step s path' s' ∧ (∀ p ∈ path', p.1.Own p.2) ∧ s'.Ended := by
  have hkeep : ∀ (t : Process n) (a : Action n) (t' : Process n),
      t.Inv ∧ t.Stopping → t.step a = some t' → t'.Inv ∧ t'.Stopping :=
    fun _ _ _ h hs => ⟨step_inv h.1 hs, h.2.step h.1 hs⟩
  have hinv : s.Inv ∧ s.Stopping :=
    (hrun.invariant (P := fun s : Process n => s.Inv ∧ s.Stopping) (C := fun _ _ => True)
      (fun _ _ _ h _ hs => hkeep _ _ _ h hs) ⟨h₀.inv, h₀.stopping⟩ fun _ _ => trivial).1
  have hstep : ∀ (t : Process n) (a : Action n) (t' : Process n),
      (t.Inv ∧ t.Stopping) ∧ t.main ≠ .serving → t.Own a → t.step a = some t' →
        ((t'.Inv ∧ t'.Stopping) ∧ t'.main ≠ .serving) ∧ t'.remaining < t.remaining :=
    fun _ _ _ h hown hs =>
      ⟨⟨hkeep _ _ _ h.1 hs, main_ne_serving h.2 hs⟩, remaining_own hown hs⟩
  exact Run.comes_to_rest hstep (fun _ h hrest => ended_of_rests hrest h.1.1 h.1.2 h.2) s
    ⟨hinv, hinput⟩

/-- The process of `lateActions` is behind the end of its input, with a worker in a call of `send`
on the reactor that is gone. It ends nevertheless. -/
theorem ends_of_run_late : ∃ path s, mainStart.Initial ∧ Run step mainStart path s ∧
    path.map Prod.snd = lateActions ∧
    ∃ path' s', Run step s path' s' ∧ (∀ p ∈ path', p.1.Own p.2) ∧ s'.Ended := by
  obtain ⟨path, hrun, hacts⟩ := Run.exec lateActions .nil (Option.some_get isSome_lateActions).symm
  have hinput : ((exec step mainStart lateActions).get isSome_lateActions).main ≠ .serving := by
    decide +kernel
  exact ⟨path, _, initial_mainStart, hrun, hacts, (ends_of_run initial_mainStart hrun hinput).2⟩

/-- **The process does what its clients ask for, and no more.** In any run, the threads take
fifteen steps for each worker and three, and six more for each batch that is dispatched, at most.
The six are the fetch, the run, the return of `send`, the end of the round, the swap and the
write. Batches that share a round or a swap take fewer. -/
theorem end_steps_le_of_run {s₀ : Process n} (h₀ : s₀.Initial)
    {path : List (Process n × Action n)} (hrun : Run step s₀ path s) :
    total steps path + s.remaining
      ≤ 15 * (n + 1) + 3 + total (fun _ => Action.cost) path := by
  have hle : s.remaining + total steps path
      ≤ s₀.remaining + total (fun _ => Action.cost) path :=
    hrun.steps_le remaining_own fun houtside hs => Nat.le_of_eq (remaining_outside houtside hs)
  rw [h₀.remaining_eq] at hle
  omega

/-- The bound on the steps of a quiet shut-down with three workers and one dispatched batch. -/
theorem end_steps_le_of_run_quiet : ∃ path s, mainStart.Initial ∧ Run step mainStart path s ∧
    path.map Prod.snd = quietActions ∧
    total steps path + s.remaining
      ≤ 15 * (2 + 1) + 3 + total (fun _ => Action.cost) path := by
  obtain ⟨path, hrun, hacts⟩ :=
    Run.exec quietActions .nil (Option.some_get isSome_quietActions).symm
  exact ⟨path, _, initial_mainStart, hrun, hacts, end_steps_le_of_run initial_mainStart hrun⟩

end VectorEngine.Process
