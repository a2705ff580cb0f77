import VectorEngine.Proofs.Engine.Queues

/-!
# `VectorEngine.Proofs.Engine.Work`: what a worker has before it

Left alone, a worker fetches its queue, runs the batches of its list, and ends the round.
`work` counts these steps, together with what a batch makes for others: its reply, and `k`
steps besides. Each step of the worker pays for itself and for what it makes.

A worker is `Doomed` when a sentinel is in front of it, or was passed in this round. It can do
nothing then but go on to its exit: a doomed worker that cannot go on has exited
(`Doomed.exited_of_stuck`).
-/

set_option autoImplicit false

namespace VectorEngine.Worker

variable {ρ : Type} {w w' : Worker ρ}

/-! ### The steps before it -/

/-- A batch in the queue is yet to be fetched and run, and one in the list to be run. What
comes behind a batch is its reply, and `k` steps of others. -/
def work (k : Nat) (w : Worker ρ) : Nat :=
  (k + 3) * w.queue.length + (k + 1) * w.tasks.length + w.replies.length
    + if w.phase = .running then 1 else 0

/-- A new worker has nothing to do. -/
theorem work_init (k : Nat) : (init : Worker ρ).work k = 0 := rfl

/-- A batch that is pushed brings the work of being fetched, run and answered, and `k` for what
the answer makes others do. -/
theorem work_submit (k : Nat) (w : Worker ρ) (b : BatchTask ρ) :
    (w.submit b).work k = w.work k + (k + 3) := by
  unfold work
  show (k + 3) * (w.queue ++ [b]).length + (k + 1) * w.tasks.length + w.replies.length
    + (if w.phase = .running then 1 else 0) = _
  rw [List.length_append, List.length_singleton, Nat.mul_add]
  omega

/-- The queue becomes the list, and each batch in it is nearer to its end. -/
theorem work_fetch (k : Nat) (hfetch : w.fetchTasks = some w') : w'.work k < w.work k := by
  obtain ⟨⟨-, hqueue⟩, hfetch⟩ := Option.ite_none_right_eq_some.mp hfetch
  cases hfetch
  have hlength := List.length_pos_of_ne_nil hqueue
  simp only [work, List.length_nil, if_true, Nat.add_mul]
  omega

/-- A batch that is run pays for its reply and for what comes behind it. -/
theorem work_run (k : Nat) {out : Option (ρ × List Reply)} (hrun : w.runNext = some (w', out)) :
    w'.work k + (out.elim 0 fun call => call.2.length + k) ≤ w.work k ∧ w'.work k < w.work k := by
  obtain ⟨hphase, b, tasks, htasks, rfl, rfl⟩ := runNext_cases hrun
  cases hreactor : b.reactor with
  | none =>
    simp only [work, htasks, List.length_cons, Option.map_none, Option.elim_none,
      Option.isSome_none, Bool.false_eq_true, if_false, Nat.mul_add]
    omega
  | some r =>
    simp only [work, htasks, List.length_cons, Option.map_some, Option.elim_some,
      Option.isSome_some, if_true, List.length_nil, List.length_append, Nat.mul_add]
    omega

/-- The worker has left its loop. -/
theorem work_finish (k : Nat) (hfinish : w.finishRound = some w') : w'.work k < w.work k := by
  obtain ⟨hphase, -, rfl⟩ := finishRound_cases hfinish
  cases hstop : w.stopThread <;> simp [work, hphase]

/-! ### Workers that will exit -/

/-- A sentinel is in front of the worker, or it has passed one in this round, or it has
exited. -/
def Doomed (w : Worker ρ) : Prop :=
  w.phase = .exited ∨ (w.phase = .running ∧ w.stopThread = true) ∨
    ∃ b ∈ w.pending, b.reactor = none

/-- A batch that is pushed behind a sentinel does not save the worker. -/
theorem Doomed.submit (h : w.Doomed) (b : BatchTask ρ) : (w.submit b).Doomed := by
  rcases h with hexited | hpassed | ⟨c, hc, hnone⟩
  · exact Or.inl hexited
  · exact Or.inr (Or.inl hpassed)
  · refine Or.inr (Or.inr ⟨c, ?_, hnone⟩)
    rw [pending_submit]
    exact List.mem_append_left _ hc

/-- `stop` dooms a worker. -/
theorem doomed_stop (w : Worker ρ) : w.stop.Doomed := by
  refine Or.inr (Or.inr ⟨{ tasks := [], connectionId := 0, reactor := none }, ?_, rfl⟩)
  show _ ∈ (w.submit _).pending
  rw [pending_submit]
  simp

/-- When the queue is swapped out, the sentinel in it is swapped out as well. -/
theorem Doomed.fetch (h : w.Doomed) (hcalm : w.Calm) (hfetch : w.fetchTasks = some w') :
    w'.Doomed := by
  have hpending := (fetchTasks_spec hcalm hfetch).2
  obtain ⟨hphase, -⟩ := fetchTasks_cases hfetch
  rcases h with hexited | ⟨hrunning, -⟩ | ⟨b, hb, hnone⟩
  · cases hphase.symm.trans hexited
  · cases hphase.symm.trans hrunning
  · exact Or.inr (Or.inr ⟨b, hpending ▸ hb, hnone⟩)

/-- The sentinel stays in front, or it is passed now. -/
theorem Doomed.run (h : w.Doomed) {out : Option (ρ × List Reply)}
    (hrun : w.runNext = some (w', out)) : w'.Doomed := by
  obtain ⟨hphase, b, tasks, htasks, -, rfl⟩ := runNext_cases hrun
  rcases h with hexited | ⟨-, hstop⟩ | ⟨c, hc, hnone⟩
  · cases hphase.symm.trans hexited
  · refine Or.inr (Or.inl ⟨hphase, ?_⟩)
    simp [hstop]
  · rw [pending, htasks, List.cons_append] at hc
    rcases List.mem_cons.mp hc with rfl | hc
    · refine Or.inr (Or.inl ⟨hphase, ?_⟩)
      simp [hnone]
    · exact Or.inr (Or.inr ⟨c, hc, hnone⟩)

/-- Behind its loop the worker exits if it has passed a sentinel. If the sentinel is still in the
queue, it will be in the next round. -/
theorem Doomed.finish (h : w.Doomed) (hfinish : w.finishRound = some w') : w'.Doomed := by
  obtain ⟨hphase, htasks, rfl⟩ := finishRound_cases hfinish
  rcases h with hexited | ⟨-, hstop⟩ | hsentinel
  · cases hphase.symm.trans hexited
  · refine Or.inl ?_
    simp [hstop]
  · exact Or.inr (Or.inr hsentinel)

/-- A worker that cannot go on has exited, or waits for a batch. -/
theorem phase_of_stuck (hfetch : w.fetchTasks = none) (hrun : w.runNext = none)
    (hfinish : w.finishRound = none) :
    w.phase = .exited ∨ (w.phase = .fetching ∧ w.queue = []) := by
  cases hphase : w.phase with
  | exited => exact Or.inl rfl
  | fetching =>
    refine Or.inr ⟨rfl, ?_⟩
    by_contra hqueue
    simp [fetchTasks, hphase, hqueue] at hfetch
  | running =>
    cases htasks : w.tasks with
    | nil => simp [finishRound, hphase, htasks] at hfinish
    | cons b tasks =>
      cases hreactor : b.reactor <;> simp [runNext, hphase, htasks, hreactor] at hrun

/-- A doomed worker that cannot go on has exited. -/
theorem Doomed.exited_of_stuck (h : w.Doomed) (hcalm : w.Calm) (hfetch : w.fetchTasks = none)
    (hrun : w.runNext = none) (hfinish : w.finishRound = none) : w.phase = .exited := by
  rcases phase_of_stuck hfetch hrun hfinish with hexited | ⟨hfetching, hqueue⟩
  · exact hexited
  · -- A worker that waits has nothing in front of it, and so no sentinel.
    rcases h with hexited | ⟨hrunning, -⟩ | ⟨b, hb, -⟩
    · exact hexited
    · cases hfetching.symm.trans hrunning
    · rw [pending, hcalm.tasks hfetching, hqueue] at hb
      exact nomatch hb

end VectorEngine.Worker
