import Mathlib.Algebra.Order.BigOperators.Group.Finset
import VectorEngine.Proofs.Engine.Work
import VectorEngine.Proofs.Pool
import VectorEngine.Transition.Potential

/-!
# `VectorEngine.Proofs.Stopping.Pool`: `WorkerPool::stop` returns

`WorkerPool::stop` joins one thread after another, and a join has no time limit. It returns
because the worker that it waits for is doomed: its sentinel is in front of it, and what other
threads submit comes behind.

* `stop_returns_of_run`: in any state that can be reached, the workers and `WorkerPool::stop`
  can go on by themselves until `WorkerPool::stop` has returned, and not longer. All threads
  have left their loops then, and have run what was pushed before the first sentinel.
* `stop_steps_le_of_run`: over a whole run, a push makes for three steps at most, and
  `WorkerPool::stop` for nine with each worker.
-/

set_option autoImplicit false

namespace VectorEngine.Pool

open VectorEngine.Transition

variable {ρ : Type} {n : Nat} {s s' : Pool ρ n}

/-- The steps of the workers and of `WorkerPool::stop`. The others come from outside. -/
def Action.Own : Action ρ n → Prop
  | .submit _ _ _ _ | .stop _ => False
  | .fetch _ | .run _ | .finish _ | .stopPool => True

/-- Which actions are the pool's own depends on their kind only. -/
instance : (a : Action ρ n) → Decidable a.Own
  | .submit _ _ _ _ | .stop _ => isFalse id
  | .fetch _ | .run _ | .finish _ | .stopPool => isTrue trivial

/-! ### The worker that is joined -/

/-- The worker whose thread is joined is doomed. -/
def Doomed (s : Pool ρ n) : Prop := ∀ w, s.phase = .joining w → (s.lanes w).worker.Doomed

/-- While the pool serves, no worker has to be doomed. -/
theorem doomed_init : (init : Pool ρ n).Doomed := fun _ h => nomatch h

/-- A step of a thread keeps a worker doomed. -/
theorem doomed_next {l l' : WorkerLog ρ} (hnext : l.Next l') (hcalm : l.worker.Calm)
    (h : l.worker.Doomed) : l'.worker.Doomed := by
  cases hnext with
  | submit reactor id tasks => exact h.submit _
  | stop => exact Worker.doomed_stop _
  | fetch hs =>
    obtain ⟨worker, hfetch, rfl⟩ := Option.map_eq_some_iff.mp hs
    exact h.fetch hcalm hfetch
  | run hs =>
    obtain ⟨out, hrun, rfl⟩ := Option.map_eq_some_iff.mp hs
    exact h.run hrun
  | finish hs =>
    obtain ⟨worker, hfinish, rfl⟩ := Option.map_eq_some_iff.mp hs
    exact h.finish hfinish

/-- A step of one worker keeps the worker doomed that is joined. -/
theorem Doomed.setLane (h : s.Doomed) {w : Fin (n + 1)} {l : WorkerLog ρ}
    (hcalm : (s.lanes w).worker.Calm) (hnext : (s.lanes w).Next l) : (s.setLane w l).Doomed := by
  intro v hphase
  by_cases hvw : v = w
  · subst hvw
    rw [setLane_self]
    exact doomed_next hnext hcalm (h v hphase)
  · rw [setLane_of_ne hvw]
    exact h v hphase

/-- `WorkerPool::stop` pushes a sentinel before it joins a worker, and no step takes the sentinel
away without the worker passing it. -/
theorem Doomed.step (h : s.Doomed) (hcalm : ∀ w, (s.lanes w).worker.Calm) {a : Action ρ n}
    (hs : s.step a = some s') : s'.Doomed := by
  cases a with
  | submit w reactor id tasks =>
    obtain ⟨-, hs⟩ := Option.ite_none_right_eq_some.mp hs
    cases hs
    exact h.setLane (hcalm w) (.submit reactor id tasks)
  | stop w =>
    obtain ⟨-, hs⟩ := Option.ite_none_right_eq_some.mp hs
    cases hs
    exact h.setLane (hcalm w) .stop
  | fetch w =>
    obtain ⟨l, hl, rfl⟩ := Option.map_eq_some_iff.mp hs
    exact h.setLane (hcalm w) (.fetch hl)
  | run w =>
    obtain ⟨l, hl, rfl⟩ := Option.map_eq_some_iff.mp hs
    exact h.setLane (hcalm w) (.run hl)
  | finish w =>
    obtain ⟨l, hl, rfl⟩ := Option.map_eq_some_iff.mp hs
    exact h.setLane (hcalm w) (.finish hl)
  | stopPool =>
    have hs : s.stopStep = some s' := hs
    unfold stopStep at hs
    split at hs
    case h_1 =>
      cases hs
      exact fun _ hphase => nomatch hphase
    case h_2 =>
      cases hs
      exact fun _ hphase => nomatch hphase
    case h_3 w _ =>
      cases hs
      -- The stop in `~Worker` comes right before the join.
      intro v hphase
      cases hphase
      show ((s.setLane w (s.lanes w).stop).lanes w).worker.Doomed
      rw [setLane_self]
      exact Worker.doomed_stop _
    case h_4 =>
      obtain ⟨-, hs⟩ := Option.ite_none_right_eq_some.mp hs
      split at hs <;> cases hs <;> exact fun _ hphase => nomatch hphase
    case h_5 => cases hs

/-! ### Nobody waits for nobody -/

/-- When nobody can go on, `WorkerPool::stop` has returned. -/
theorem stopped_of_atRest (hcalm : ∀ w, (s.lanes w).worker.Calm) (hdoomed : s.Doomed)
    (hrest : AtRest step Action.Own s) : s.phase = .stopped := by
  have hstop : s.stopStep = none := hrest .stopPool trivial
  unfold stopStep at hstop
  split at hstop
  case h_1 => cases hstop
  case h_2 => cases hstop
  case h_3 => cases hstop
  case h_4 w hphase =>
    -- The worker that is joined could go on, unless it has exited.
    have hfetch : (s.lanes w).worker.fetchTasks = none := by
      simpa [step, WorkerLog.fetch] using hrest (.fetch w) trivial
    have hrun : (s.lanes w).worker.runNext = none := by
      simpa [step, WorkerLog.run] using hrest (.run w) trivial
    have hfinish : (s.lanes w).worker.finishRound = none := by
      simpa [step, WorkerLog.finish] using hrest (.finish w) trivial
    have hexited := (hdoomed w hphase).exited_of_stuck (hcalm w) hfetch hrun hfinish
    rw [if_pos hexited] at hstop
    split at hstop <;> cases hstop
  case h_5 hphase => exact hphase

/-! ### The work that remains -/

/-- The steps of `WorkerPool::stop`, with those of the workers that its sentinels make for. -/
def phaseWork : PoolPhase n → Nat
  | .serving => 9 * (n + 1) + 1
  | .stopping w => 9 * (n + 1 - w)
  | .destroying w => 9 * (n + 1 - w) - 4
  | .joining w => 9 * (n + 1 - w) - 8
  | .stopped => 0

/-- The work that the workers and `WorkerPool::stop` have before them. -/
def remaining (s : Pool ρ n) : Nat := phaseWork s.phase + ∑ w, (s.lanes w).worker.work 0

/-- The steps that an action from outside makes necessary. -/
def Action.cost (a : Action ρ n) : Nat := if a.Own then 0 else 3

/-- An own step counts one. -/
def Action.steps (a : Action ρ n) : Nat := if a.Own then 1 else 0

/-- The bound at the start of the pool: nine steps for each worker, and the one that begins. -/
theorem remaining_init : (init : Pool ρ n).remaining = 9 * (n + 1) + 1 := by
  have hworkers : ∑ _w : Fin (n + 1), (Worker.init : Worker ρ).work 0 = 0 :=
    Finset.sum_eq_zero fun w _ => Worker.work_init 0
  show 9 * (n + 1) + 1 + ∑ _w : Fin (n + 1), (Worker.init : Worker ρ).work 0 = _
  rw [hworkers]

/-- Another state of one worker is more work in the pool by as much as it is more work for the
worker. This is stated as an equation of sums, since differences of natural numbers are cut off at
zero. -/
theorem remaining_setLane (s : Pool ρ n) (w : Fin (n + 1)) (l : WorkerLog ρ) :
    (s.setLane w l).remaining + (s.lanes w).worker.work 0
      = s.remaining + l.worker.work 0 := by
  have hsum := sum_update s.lanes (fun l => l.worker.work 0) w l
  simp only [remaining, setLane]
  omega

/-- A worker is stopped, and `WorkerPool::stop` goes on. -/
theorem remaining_setLane_stop (s : Pool ρ n) (w : Fin (n + 1)) (phase : PoolPhase n) :
    ({ s.setLane w (s.lanes w).stop with phase := phase } : Pool ρ n).remaining
      + phaseWork s.phase = s.remaining + 3 + phaseWork phase := by
  have hset := remaining_setLane s w (s.lanes w).stop
  have hwork : (s.lanes w).stop.worker.work 0 = (s.lanes w).worker.work 0 + 3 :=
    Worker.work_submit 0 _ _
  have hphase : (s.setLane w (s.lanes w).stop).phase = s.phase := rfl
  simp only [remaining, hphase] at hset ⊢
  omega

/-- Each step of `WorkerPool::stop` leaves less to be done. The sentinel that it may push is paid
for in advance. -/
theorem remaining_stopStep (hs : s.stopStep = some s') : s'.remaining < s.remaining := by
  unfold stopStep at hs
  split at hs
  case h_1 hphase =>
    cases hs
    simp only [remaining, hphase, phaseWork]
    omega
  case h_2 w hphase =>
    -- The sentinel makes for three steps of the worker, and `WorkerPool::stop` has one less.
    cases hs
    have hset := remaining_setLane_stop s w (.destroying w)
    have hwas : phaseWork s.phase = 9 * (n + 1 - w) := by
      rw [hphase]
      rfl
    have hnow : phaseWork (.destroying w) = 9 * (n + 1 - w) - 4 := rfl
    omega
  case h_3 w hphase =>
    cases hs
    have hset := remaining_setLane_stop s w (.joining w)
    have hwas : phaseWork s.phase = 9 * (n + 1 - w) - 4 := by
      rw [hphase]
      rfl
    have hnow : phaseWork (.joining w) = 9 * (n + 1 - w) - 8 := rfl
    omega
  case h_4 w hphase =>
    obtain ⟨-, hs⟩ := Option.ite_none_right_eq_some.mp hs
    split at hs
    · cases hs
      simp only [remaining, hphase, phaseWork]
      omega
    · cases hs
      simp only [remaining, hphase, phaseWork]
      omega
  case h_5 => cases hs

/-- To swap out the queue is a step ahead. -/
theorem work_fetch {l l' : WorkerLog ρ} (hs : l.fetch = some l') :
    l'.worker.work 0 < l.worker.work 0 := by
  obtain ⟨worker, hfetch, rfl⟩ := Option.map_eq_some_iff.mp hs
  exact Worker.work_fetch 0 hfetch

/-- To run an element of the list is a step ahead. What is sent to a reactor is no work of the
pool. -/
theorem work_run {l l' : WorkerLog ρ} (hs : l.run = some l') :
    l'.worker.work 0 < l.worker.work 0 := by
  obtain ⟨out, hrun, rfl⟩ := Option.map_eq_some_iff.mp hs
  exact (Worker.work_run 0 hrun).2

/-- To leave the loop at the end of a round is a step ahead. -/
theorem work_finish {l l' : WorkerLog ρ} (hs : l.finish = some l') :
    l'.worker.work 0 < l.worker.work 0 := by
  obtain ⟨worker, hfinish, rfl⟩ := Option.map_eq_some_iff.mp hs
  exact Worker.work_finish 0 hfinish

/-- A step ahead of one worker is a step ahead of the pool. -/
theorem remaining_setLane_lt {w : Fin (n + 1)} {l : WorkerLog ρ}
    (h : l.worker.work 0 < (s.lanes w).worker.work 0) :
    (s.setLane w l).remaining < s.remaining := by
  have hset := remaining_setLane s w l
  omega

/-- Each own step lowers the work that remains. -/
theorem remaining_own {a : Action ρ n} (hown : a.Own) (hs : s.step a = some s') :
    s'.remaining < s.remaining := by
  cases a with
  | submit w reactor id tasks => exact hown.elim
  | stop w => exact hown.elim
  | fetch w =>
    obtain ⟨l, hl, rfl⟩ := Option.map_eq_some_iff.mp hs
    exact remaining_setLane_lt (work_fetch hl)
  | run w =>
    obtain ⟨l, hl, rfl⟩ := Option.map_eq_some_iff.mp hs
    exact remaining_setLane_lt (work_run hl)
  | finish w =>
    obtain ⟨l, hl, rfl⟩ := Option.map_eq_some_iff.mp hs
    exact remaining_setLane_lt (work_finish hl)
  | stopPool => exact remaining_stopStep hs

/-- A push raises the work that remains by its cost. -/
theorem remaining_outside {a : Action ρ n} (houtside : ¬ a.Own) (hs : s.step a = some s') :
    s'.remaining = s.remaining + a.cost := by
  have hcost : a.cost = 3 := if_neg houtside
  rw [hcost]
  cases a with
  | submit w reactor id tasks =>
    obtain ⟨-, hs⟩ := Option.ite_none_right_eq_some.mp hs
    cases hs
    have hset := remaining_setLane s w ((s.lanes w).submit
      { tasks := tasks, connectionId := id, reactor := some reactor })
    have hwork : ((s.lanes w).submit _).worker.work 0 = (s.lanes w).worker.work 0 + 3 :=
      Worker.work_submit 0 (s.lanes w).worker
        { tasks := tasks, connectionId := id, reactor := some reactor }
    omega
  | stop w =>
    obtain ⟨-, hs⟩ := Option.ite_none_right_eq_some.mp hs
    cases hs
    have hset := remaining_setLane s w (s.lanes w).stop
    have hwork : (s.lanes w).stop.worker.work 0 = (s.lanes w).worker.work 0 + 3 :=
      Worker.work_submit 0 _ _
    omega
  | _ => exact absurd trivial houtside

/-! ### Whole runs -/

/-- `WorkerPool::stop` has returned. All threads have left their loops, and have run what was
pushed before the first sentinel. -/
structure Finished (s : Pool ρ n) : Prop where
  phase : s.phase = .stopped
  exited : ∀ w, (s.lanes w).worker.phase = .exited
  ran : ∀ w, (s.lanes w).pushed.takeWhile BatchTask.isBatch <+: (s.lanes w).ran

/-- When `WorkerPool::stop` has returned, each thread has exited with all of its batches answered.
-/
theorem Inv.finished (h : s.Inv) (hphase : s.phase = .stopped) : s.Finished := by
  have hexited : ∀ w, (s.lanes w).worker.phase = .exited := by
    intro w
    refine h.gone w ?_
    rw [hphase]
    rfl
  exact ⟨hphase, hexited, fun w => ((h.lanes w).drained.exited (hexited w)).2⟩

/-- **`WorkerPool::stop` returns.** From any state that can be reached, the workers and
`WorkerPool::stop` can go on by themselves for `remaining` steps at most, in whatever order they
do. They come to rest only when `WorkerPool::stop` has returned. Such a state can always be
reached. The potential counts, for each worker that is still to be stopped, the calls of
`WorkerPool::stop` and what its two sentinels make for. At rest the phase is `stopped`, because a
doomed worker that cannot step has exited. -/
theorem stop_returns_of_run {path : List (Pool ρ n × Action ρ n)}
    (hrun : Run step init path s) :
    (∀ path' s', Run step s path' s' → (∀ p ∈ path', p.2.Own) →
      path'.length ≤ s.remaining ∧ (AtRest step Action.Own s' → s'.Finished)) ∧
    ∃ path' s', Run step s path' s' ∧ (∀ p ∈ path', p.2.Own) ∧ s'.Finished := by
  have hkeep : ∀ (t : Pool ρ n) (a : Action ρ n) (t' : Pool ρ n),
      t.Inv ∧ t.Doomed → t.step a = some t' → t'.Inv ∧ t'.Doomed :=
    fun _ _ _ h hs => ⟨h.1.next (next_of_step hs), h.2.step (fun w => (h.1.lanes w).calm) hs⟩
  have hinv : s.Inv ∧ s.Doomed :=
    (hrun.invariant (P := fun s : Pool ρ n => s.Inv ∧ s.Doomed) (C := fun _ _ => True)
      (fun _ _ _ h _ hs => hkeep _ _ _ h hs) ⟨inv_init, doomed_init⟩ fun _ _ => trivial).1
  have hfinished : ∀ t : Pool ρ n, t.Inv ∧ t.Doomed → AtRest step Action.Own t → t.Finished :=
    fun t h hrest =>
      h.1.finished (stopped_of_atRest (fun w => (h.1.lanes w).calm) h.2 hrest)
  have hstep : ∀ (t : Pool ρ n) (a : Action ρ n) (t' : Pool ρ n), t.Inv ∧ t.Doomed → a.Own →
      t.step a = some t' → (t'.Inv ∧ t'.Doomed) ∧ t'.remaining < t.remaining :=
    fun _ _ _ h hown hs => ⟨hkeep _ _ _ h hs, remaining_own hown hs⟩
  exact Run.comes_to_rest hstep hfinished s hinv

/-- A batch is submitted to the first of two workers, which fetches it. `WorkerPool::stop` has
stopped this worker, and waits for its thread. -/
def joinActions : List (Action Unit 1) :=
  [.submit ⟨0, Nat.two_pos⟩ () 4 [.ping], .fetch ⟨0, Nat.two_pos⟩, .stopPool, .stopPool, .stopPool,
    .submit ⟨0, Nat.two_pos⟩ () 4 [.ping]]

/-- The run of `joinActions` goes through to its end. -/
theorem isSome_joinActions : (exec step (init : Pool Unit 1) joinActions).isSome = true := by
  decide +kernel

/-- From the end of `joinActions`, where `WorkerPool::stop` waits for the first thread, it
returns. -/
theorem stop_returns_of_run_join :
    ∃ path, ∃ s : Pool Unit 1, Run step init path s ∧ path.map Prod.snd = joinActions ∧
      s.phase = .joining 0 ∧
      ∃ path' s', Run step s path' s' ∧ (∀ p ∈ path', p.2.Own) ∧ s'.Finished := by
  obtain ⟨path, hrun, hacts⟩ := Run.exec joinActions .nil (Option.some_get isSome_joinActions).symm
  exact ⟨path, _, hrun, hacts, by decide +kernel, (stop_returns_of_run hrun).2⟩

/-- **Stopping a pool costs what was pushed.** In any run, the workers and `WorkerPool::stop`
take nine steps for each worker and one, and three more for each batch and each sentinel that
other threads push, at most. -/
theorem stop_steps_le_of_run {path : List (Pool ρ n × Action ρ n)}
    (hrun : Run step init path s) :
    total (fun _ => Action.steps) path + s.remaining
      ≤ 9 * (n + 1) + 1 + total (fun _ => Action.cost) path := by
  have hle : s.remaining + total (fun _ => Action.steps) path
      ≤ (init : Pool ρ n).remaining + total (fun _ => Action.cost) path :=
    hrun.steps_le remaining_own fun houtside hs => Nat.le_of_eq (remaining_outside houtside hs)
  rw [remaining_init] at hle
  omega

/-- The bound on the steps of `joinActions` and of all that is to come behind it. -/
theorem stop_steps_le_of_run_join :
    ∃ path, ∃ s : Pool Unit 1, Run step init path s ∧ path.map Prod.snd = joinActions ∧
      total (fun _ => Action.steps) path + s.remaining
        ≤ 9 * (1 + 1) + 1 + total (fun _ => Action.cost) path := by
  obtain ⟨path, hrun, hacts⟩ := Run.exec joinActions .nil (Option.some_get isSome_joinActions).symm
  exact ⟨path, _, hrun, hacts, stop_steps_le_of_run hrun⟩

end VectorEngine.Pool
