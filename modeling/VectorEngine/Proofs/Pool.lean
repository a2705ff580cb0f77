import VectorEngine.Pool
import VectorEngine.Proofs.Engine.Queues
import VectorEngine.Transition.Run

/-!
# `VectorEngine.Proofs.Pool`: stopping a worker drains it

A worker passes what was pushed in the order in which it was pushed: `pushed` is at all times
what it has passed, then its list, and then its queue. A sentinel may be anywhere in the list
that a worker has swapped out. The worker runs the list to its end and exits, so that it has
passed the first sentinel at least, and with it all that was pushed before.
-/

set_option autoImplicit false

namespace VectorEngine

open VectorEngine.Transition

variable {ρ : Type} {n : Nat}

/-- The element is a batch, and not a sentinel. -/
def BatchTask.isBatch (b : BatchTask ρ) : Bool := b.reactor.isSome

namespace WorkerLog

variable {l l' : WorkerLog ρ}

/-- The call of `send` that is made for an element of the list. -/
def answer (b : BatchTask ρ) : Option (ρ × List Reply) :=
  b.reactor.map fun r => (r, [runBatchTask b])

/-- What holds of a worker at all times. -/
structure Inv (l : WorkerLog ρ) : Prop where
  calm : l.worker.Calm
  order : l.pushed = l.passed ++ l.worker.pending
  answered : l.sent = l.passed.filterMap answer
  /-- What was pushed without a reactor was pushed by `Worker::stop`. -/
  sentinels : ∀ b ∈ l.pushed, b.isBatch = false → b = sentinel
  /-- A worker that is to stop has passed a sentinel. -/
  stopThread : l.worker.stopThread = true → ∃ b ∈ l.passed, b.isBatch = false
  fetching : l.worker.phase = .fetching → l.worker.stopThread = false
  exited : l.worker.phase = .exited → l.worker.stopThread = true ∧ l.worker.tasks = []

/-- A new worker was pushed nothing. -/
theorem Inv.init : (init : WorkerLog ρ).Inv where
  calm := Worker.calm_init
  order := rfl
  answered := rfl
  sentinels _ hb := nomatch hb
  stopThread h := nomatch h
  fetching _ := rfl
  exited h := nomatch h

/-- Both `Worker::submit` and `Worker::stop` push to the queue, and change nothing else. -/
theorem Inv.push (h : l.Inv) (b : BatchTask ρ) (hb : b.isBatch = false → b = sentinel) :
    (l.submit b).Inv where
  calm := h.calm.submit b
  order := by
    show l.pushed ++ [b] = l.passed ++ (l.worker.submit b).pending
    rw [Worker.pending_submit, h.order, List.append_assoc]
  answered := h.answered
  sentinels c hc hnot := by
    rcases List.mem_append.mp hc with hc | hc
    · exact h.sentinels c hc hnot
    · cases List.mem_singleton.mp hc
      exact hb hnot
  stopThread := h.stopThread
  fetching := h.fetching
  exited := h.exited

/-- A batch of a connection has a reactor, so that it is no sentinel. -/
theorem Inv.submit (h : l.Inv) (reactor : ρ) (id : ConnectionId) (tasks : List Task) :
    (l.submit { tasks := tasks, connectionId := id, reactor := some reactor }).Inv :=
  h.push _ fun hb => nomatch hb

/-- `stop` pushes the sentinel. -/
theorem Inv.stop (h : l.Inv) : l.stop.Inv := h.push sentinel fun _ => rfl

/-- The queue becomes the list, which is no change of what is pending. -/
theorem Inv.fetch (h : l.Inv) (hs : l.fetch = some l') : l'.Inv := by
  obtain ⟨worker, hfetch, rfl⟩ := Option.map_eq_some_iff.mp hs
  obtain ⟨hcalm, hpending⟩ := Worker.fetchTasks_spec h.calm hfetch
  obtain ⟨-, rfl⟩ := Worker.fetchTasks_cases hfetch
  exact ⟨hcalm, hpending ▸ h.order, h.answered, h.sentinels, fun hstop => (nomatch hstop),
    fun _ => rfl, fun hexit => (nomatch hexit)⟩

/-- At the end of a round the list is empty. A worker that has passed a sentinel exits, and one
that has not goes back to its queue. -/
theorem Inv.finish (h : l.Inv) (hs : l.finish = some l') : l'.Inv := by
  obtain ⟨worker, hfinish, rfl⟩ := Option.map_eq_some_iff.mp hs
  obtain ⟨hcalm, hpending⟩ := Worker.finishRound_spec h.calm hfinish
  obtain ⟨-, htasks, rfl⟩ := Worker.finishRound_cases hfinish
  refine ⟨hcalm, hpending ▸ h.order, h.answered, h.sentinels, h.stopThread,
    fun hfetching => ?_, fun hexit => ⟨?_, htasks⟩⟩
  · -- without a sentinel the thread goes back to its queue
    show l.worker.stopThread = false
    by_contra hstop
    rw [if_pos (Bool.eq_true_of_not_eq_false hstop)] at hfetching
    cases hfetching
  · show l.worker.stopThread = true
    by_contra hstop
    rw [if_neg hstop] at hexit
    cases hexit

/-- A round passes the front of the list. -/
theorem run_cases (h : l.worker.Calm) (hs : l.run = some l') :
    ∃ b rest, l.worker.tasks = b :: rest ∧ l'.worker.Calm ∧
      l.worker.pending = b :: l'.worker.pending ∧ l'.pushed = l.pushed ∧
      l'.passed = l.passed ++ [b] ∧ l'.sent = l.sent ++ (answer b).toList ∧
      l'.worker.phase = .running ∧ l'.worker.tasks = rest ∧
      l'.worker.stopThread = (l.worker.stopThread || !b.isBatch) := by
  obtain ⟨⟨worker, out⟩, hrun, rfl⟩ := Option.map_eq_some_iff.mp hs
  obtain ⟨hcalm, -⟩ := Worker.runNext_spec h hrun
  obtain ⟨hphase, b, rest, htasks, rfl, rfl⟩ := Worker.runNext_cases hrun
  refine ⟨b, rest, htasks, hcalm, ?_, rfl, ?_, ?_, hphase, rfl, rfl⟩
  · show l.worker.tasks ++ l.worker.queue = b :: (rest ++ l.worker.queue)
    rw [htasks]
    rfl
  · show l.passed ++ l.worker.tasks.take 1 = l.passed ++ [b]
    rw [htasks]
    rfl
  · show l.sent ++ Option.toList (b.reactor.map _) = l.sent ++ Option.toList (b.reactor.map _)
    rw [h.replies]
    rfl

/-- An element of the list is passed. A batch is answered, and a sentinel sets the flag that is
tested behind the loop. -/
theorem Inv.run (h : l.Inv) (hs : l.run = some l') : l'.Inv := by
  obtain ⟨b, rest, -, hcalm, hpending, hpushed, hpassed, hsent, hphase, -, hstop⟩ :=
    run_cases h.calm hs
  refine ⟨hcalm, ?_, ?_, hpushed ▸ h.sentinels, fun hstop' => ?_, fun hfetching => ?_,
    fun hexit => ?_⟩
  · rw [hpushed, hpassed, h.order, hpending, List.append_assoc]
    rfl
  · rw [hsent, hpassed, h.answered, List.filterMap_append]
    cases hanswer : answer b with
    | none => simp [hanswer]
    | some q => simp [hanswer]
  · rw [hpassed]
    -- The sentinel was passed before, or it is the element that is passed now.
    by_cases hold : l.worker.stopThread = true
    · obtain ⟨c, hc, hnot⟩ := h.stopThread hold
      exact ⟨c, List.mem_append_left _ hc, hnot⟩
    · rw [hstop, Bool.eq_false_of_not_eq_true hold] at hstop'
      exact ⟨b, by simp, by simpa using hstop'⟩
  · rw [hphase] at hfetching
    cases hfetching
  · rw [hphase] at hexit
    cases hexit

/-! ### What is drained -/

/-- What a worker owes to those who submit to it. The order is that of the pushes. A sentinel is
not owed, so that a batch behind one may be left when the thread exits. -/
structure Drained (l : WorkerLog ρ) : Prop where
  /-- The batches are run in the order in which they were pushed, each once at most. -/
  order : l.ran <+: l.pushed.filter BatchTask.isBatch
  /-- Each batch that was run has had one reply, which was handed to its own reactor. -/
  answered : List.Forall₂ (fun b call => b.reactor = some call.1 ∧ call.2 = [runBatchTask b])
    l.ran l.sent
  /-- A thread that has left its loop was stopped, and has run all that was pushed before. -/
  exited : l.worker.phase = .exited →
    WorkerLog.sentinel ∈ l.pushed ∧ l.pushed.takeWhile BatchTask.isBatch <+: l.ran

/-- The calls of `send` are those for the batches. -/
theorem forall₂_filterMap_answer (bs : List (BatchTask ρ)) :
    List.Forall₂ (fun b call => b.reactor = some call.1 ∧ call.2 = [runBatchTask b])
      (bs.filter fun b => b.reactor.isSome) (bs.filterMap answer) := by
  -- A sentinel is left out on both sides.
  induction bs with
  | nil => exact .nil
  | cons b bs ih =>
    cases hreactor : b.reactor with
    | none =>
      have hanswer : answer b = none := by
        unfold answer
        rw [hreactor]
        rfl
      rw [List.filter_cons_of_neg (by simp [hreactor]), List.filterMap_cons_none hanswer]
      exact ih
    | some r =>
      have hanswer : answer b = some (r, [runBatchTask b]) := by
        unfold answer
        rw [hreactor]
        rfl
      rw [List.filter_cons_of_pos (by simp [hreactor]), List.filterMap_cons_some hanswer]
      exact .cons ⟨hreactor, rfl⟩ ih

/-- The batches before the first sentinel of a list are among those of any part of it that
holds a sentinel. -/
theorem takeWhile_isBatch_of_sentinel {front rest : List (BatchTask ρ)}
    (h : ∃ b ∈ front, b.isBatch = false) :
    (front ++ rest).takeWhile BatchTask.isBatch <+: front.filter BatchTask.isBatch := by
  induction front with
  | nil =>
    obtain ⟨b, hb, -⟩ := h
    exact nomatch hb
  | cons c front ih =>
    by_cases hc : c.isBatch = true
    · have htail : ∃ b ∈ front, b.isBatch = false := by
        obtain ⟨b, hb, hnot⟩ := h
        rcases List.mem_cons.mp hb with rfl | hb
        · rw [hc] at hnot
          cases hnot
        · exact ⟨b, hb, hnot⟩
      rw [List.cons_append, List.takeWhile_cons_of_pos hc, List.filter_cons_of_pos hc]
      exact (List.prefix_cons_inj c).mpr (ih htail)
    · rw [List.cons_append, List.takeWhile_cons_of_neg hc]
      exact List.nil_prefix

/-- Pushing more adds nothing before the first sentinel but new batches at its end. -/
theorem takeWhile_isBatch_append (front rest : List (BatchTask ρ)) :
    front.takeWhile BatchTask.isBatch <+: (front ++ rest).takeWhile BatchTask.isBatch := by
  rw [List.takeWhile_append]
  split
  · exact (List.takeWhile_prefix _).trans (List.prefix_append _ _)
  · exact List.prefix_rfl

/-- What the invariant says of the sentinels gives what the result says of the batches: a worker
exits only if it has passed one, and then it has passed all that was before the first. -/
theorem Inv.drained (h : l.Inv) : l.Drained where
  order := by
    rw [h.order, List.filter_append]
    exact List.prefix_append _ _
  answered := by
    rw [h.answered]
    exact forall₂_filterMap_answer l.passed
  exited hexit := by
    obtain ⟨b, hb, hnot⟩ := h.stopThread (h.exited hexit).1
    have hpushed : b ∈ l.pushed := by
      rw [h.order]
      exact List.mem_append_left _ hb
    refine ⟨h.sentinels b hpushed hnot ▸ hpushed, ?_⟩
    -- What it has passed holds a sentinel, so the first one of all is among it.
    rw [h.order]
    exact takeWhile_isBatch_of_sentinel ⟨b, hb, hnot⟩

/-! ### The steps of one worker -/

/-- What a step of any thread does to a worker. -/
inductive Next (l : WorkerLog ρ) : WorkerLog ρ → Prop where
  | submit (reactor : ρ) (id : ConnectionId) (tasks : List Task) :
      Next l (l.submit { tasks := tasks, connectionId := id, reactor := some reactor })
  | stop : Next l l.stop
  | fetch {l' : WorkerLog ρ} (h : l.fetch = some l') : Next l l'
  | run {l' : WorkerLog ρ} (h : l.run = some l') : Next l l'
  | finish {l' : WorkerLog ρ} (h : l.finish = some l') : Next l l'

/-- The invariant is kept by every step that any thread makes on a worker. -/
theorem Inv.next (h : l.Inv) (hnext : l.Next l') : l'.Inv := by
  cases hnext with
  | submit reactor id tasks => exact h.submit reactor id tasks
  | stop => exact h.stop
  | fetch hs => exact h.fetch hs
  | run hs => exact h.run hs
  | finish hs => exact h.finish hs

/-- What was pushed stays pushed. -/
theorem Next.pushed (hnext : l.Next l') : l.pushed <+: l'.pushed := by
  cases hnext with
  | submit reactor id tasks => exact List.prefix_append _ _
  | stop => exact List.prefix_append _ _
  | fetch hs =>
    obtain ⟨worker, -, rfl⟩ := Option.map_eq_some_iff.mp hs
    exact List.prefix_rfl
  | run hs =>
    obtain ⟨out, -, rfl⟩ := Option.map_eq_some_iff.mp hs
    exact List.prefix_rfl
  | finish hs =>
    obtain ⟨worker, -, rfl⟩ := Option.map_eq_some_iff.mp hs
    exact List.prefix_rfl

/-- A thread that has left its loop takes no more steps. -/
theorem Next.exited (hnext : l.Next l') (h : l.worker.phase = .exited) :
    l'.worker.phase = .exited := by
  cases hnext with
  | submit reactor id tasks => exact h
  | stop => exact h
  | fetch hs =>
    obtain ⟨worker, hfetch, -⟩ := Option.map_eq_some_iff.mp hs
    cases h.symm.trans (Worker.fetchTasks_cases hfetch).1
  | run hs =>
    obtain ⟨⟨worker, out⟩, hrun, -⟩ := Option.map_eq_some_iff.mp hs
    cases h.symm.trans (Worker.runNext_cases hrun).1
  | finish hs =>
    obtain ⟨worker, hfinish, -⟩ := Option.map_eq_some_iff.mp hs
    cases h.symm.trans (Worker.finishRound_cases hfinish).1

end WorkerLog

/-! ### The steps of a pool -/

namespace Pool

variable {s s' : Pool ρ n} {a : Action ρ n}

/-- What holds of a pool in every state of a run. -/
structure Inv (s : Pool ρ n) : Prop where
  lanes : ∀ w, (s.lanes w).Inv
  earlier : s.phase ≠ .serving → ∀ w, s.earlier w <+: (s.lanes w).pushed
  /-- A worker is deleted when its thread has left its loop. -/
  gone : ∀ w, s.phase.alive w = false → (s.lanes w).worker.phase = .exited

/-- A step of a pool is a step of one of its workers, or it starts `WorkerPool::stop`, or it
takes `WorkerPool::stop` over a join. -/
inductive Next (s : Pool ρ n) : Pool ρ n → Prop where
  | lane {w : Fin (n + 1)} {l : WorkerLog ρ} {phase : PoolPhase n} (h : (s.lanes w).Next l)
      (hstart : phase = .serving ↔ s.phase = .serving)
      (halive : ∀ v, phase.alive v = s.phase.alive v) :
      Next s { s.setLane w l with phase := phase }
  | start (h : s.phase = .serving) :
      Next s { s with phase := .stopping ⟨0, n.succ_pos⟩, earlier := fun w => (s.lanes w).pushed }
  | join {w : Fin (n + 1)} {phase : PoolPhase n} (h : s.phase = .joining w)
      (hexited : (s.lanes w).worker.phase = .exited)
      (halive : ∀ v, phase.alive v = false → v ≤ w) :
      Next s { s with phase := phase }

/-- A step on one worker is a step of the pool. -/
theorem next_of_lane {w : Fin (n + 1)} {l : WorkerLog ρ} (h : (s.lanes w).Next l) :
    s.Next (s.setLane w l) :=
  .lane h Iff.rfl fun _ => rfl

/-- `WorkerPool::stop` begins, pushes a sentinel, waits for a thread to exit, or goes on to the
next worker. -/
theorem next_of_stopStep (hs : s.stopStep = some s') : s.Next s' := by
  unfold stopStep at hs
  split at hs
  · rename_i hphase
    cases hs
    exact .start hphase
  · rename_i w hphase
    cases hs
    exact .lane .stop ⟨fun h => (nomatch h), fun h => (nomatch hphase.symm.trans h)⟩
      fun v => by rw [hphase]; rfl
  · rename_i w hphase
    cases hs
    exact .lane .stop ⟨fun h => (nomatch h), fun h => (nomatch hphase.symm.trans h)⟩
      fun v => by rw [hphase]; rfl
  · rename_i w hphase
    split at hs
    · rename_i hexited
      split at hs
      · cases hs
        refine .join hphase hexited fun v hv => ?_
        have hlt : ¬ w.val + 1 ≤ v.val := of_decide_eq_false hv
        exact Fin.le_def.mpr (by omega)
      · rename_i hlast
        cases hs
        exact .join hphase hexited fun v _ => Fin.le_def.mpr (by omega)
    · cases hs
  · cases hs

/-- Every step of a pool is a step on one worker or one of `WorkerPool::stop`. -/
theorem next_of_step (hs : s.step a = some s') : s.Next s' := by
  cases a with
  | submit w reactor id tasks =>
    obtain ⟨-, hs⟩ := Option.ite_none_right_eq_some.mp hs
    cases hs
    exact next_of_lane (.submit reactor id tasks)
  | stop w =>
    obtain ⟨-, hs⟩ := Option.ite_none_right_eq_some.mp hs
    cases hs
    exact next_of_lane .stop
  | fetch w =>
    obtain ⟨l, hl, rfl⟩ := Option.map_eq_some_iff.mp hs
    exact next_of_lane (.fetch hl)
  | run w =>
    obtain ⟨l, hl, rfl⟩ := Option.map_eq_some_iff.mp hs
    exact next_of_lane (.run hl)
  | finish w =>
    obtain ⟨l, hl, rfl⟩ := Option.map_eq_some_iff.mp hs
    exact next_of_lane (.finish hl)
  | stopPool => exact next_of_stopStep hs

/-- A new pool has new workers, and none of them is gone. -/
theorem inv_init : (init : Pool ρ n).Inv where
  lanes _ := .init
  earlier h := absurd rfl h
  gone _ h := nomatch h

/-- The worker that was set is the one that is read. -/
theorem setLane_self (s : Pool ρ n) (w : Fin (n + 1)) (l : WorkerLog ρ) :
    (s.setLane w l).lanes w = l := by
  show Function.update s.lanes w l w = l
  exact Function.update_self w l s.lanes

/-- The other workers stay as they were. -/
theorem setLane_of_ne {v w : Fin (n + 1)} (h : v ≠ w) (l : WorkerLog ρ) :
    (s.setLane w l).lanes v = s.lanes v := by
  show Function.update s.lanes w l v = s.lanes v
  exact Function.update_of_ne h l s.lanes

/-- Each step of a pool keeps the invariant. -/
theorem Inv.next (h : s.Inv) (hnext : s.Next s') : s'.Inv := by
  cases hnext with
  | @lane w l phase hl hstart halive =>
    refine ⟨fun v => ?_, fun hphase v => ?_, fun v hv => ?_⟩
    · show ((s.setLane w l).lanes v).Inv
      by_cases hvw : v = w
      · rw [hvw, setLane_self]
        exact (h.lanes w).next hl
      · rw [setLane_of_ne hvw]
        exact h.lanes v
    · have hold : s.earlier v <+: (s.lanes v).pushed :=
        h.earlier (fun hserving => hphase (hstart.mpr hserving)) v
      show s.earlier v <+: ((s.setLane w l).lanes v).pushed
      by_cases hvw : v = w
      · subst hvw
        rw [setLane_self]
        exact hold.trans hl.pushed
      · rw [setLane_of_ne hvw]
        exact hold
    · have hold : (s.lanes v).worker.phase = .exited := h.gone v (halive v ▸ hv)
      show ((s.setLane w l).lanes v).worker.phase = .exited
      by_cases hvw : v = w
      · subst hvw
        rw [setLane_self]
        exact hl.exited hold
      · rw [setLane_of_ne hvw]
        exact hold
  | start hphase =>
    -- No worker is deleted yet, and what was pushed is what was pushed earlier.
    refine ⟨h.lanes, fun _ w => List.prefix_rfl, fun v hv => ?_⟩
    have hlt : ¬ 0 ≤ v.val := of_decide_eq_false hv
    omega
  | @join w phase hphase hexited halive =>
    refine ⟨h.lanes, fun _ => h.earlier fun hserving => (nomatch hphase.symm.trans hserving),
      fun v hv => ?_⟩
    by_cases hvw : v = w
    · rw [hvw]
      exact hexited
    · -- the workers before this one were deleted before
      refine h.gone v ?_
      rw [hphase]
      have hle : v.val ≤ w.val := halive v hv
      have hne : v.val ≠ w.val := fun heq => hvw (Fin.ext heq)
      exact decide_eq_false fun hwv => hne (le_antisymm hle hwv)

/-- The invariant holds in every state of every run. -/
theorem inv_of_run {path : List (Pool ρ n × Action ρ n)} (hrun : Run step init path s) : s.Inv :=
  (hrun.invariant (P := Inv) (C := fun _ _ => True)
    (fun _ _ _ h _ hs => h.next (next_of_step hs)) inv_init fun _ _ => trivial).1

/-- Stopping drains the workers. In every run, a worker has run batches in the order in which
they were pushed, has handed the reply of each to the reactor of the batch, and has left its
loop only behind a sentinel, with all run that was pushed before the first one. So when
`WorkerPool::stop` has returned, no batch that was pushed earlier is left, unless it was pushed
behind the sentinel of another call of `Worker::stop`. -/
theorem drained_of_run {path : List (Pool ρ n × Action ρ n)} (hrun : Run step init path s) :
    (∀ w, (s.lanes w).Drained) ∧
      (s.phase = .stopped → ∀ w, (s.lanes w).worker.phase = .exited ∧
        (s.earlier w).takeWhile BatchTask.isBatch <+: (s.lanes w).ran) := by
  have h : s.Inv := inv_of_run hrun
  refine ⟨fun w => (h.lanes w).drained, fun hstopped w => ?_⟩
  have hexited : (s.lanes w).worker.phase = .exited := by
    refine h.gone w ?_
    rw [hstopped]
    rfl
  refine ⟨hexited, ?_⟩
  have hall : (s.lanes w).pushed.takeWhile BatchTask.isBatch <+: (s.lanes w).ran :=
    ((h.lanes w).drained.exited hexited).2
  obtain ⟨rest, hrest⟩ : s.earlier w <+: (s.lanes w).pushed := by
    refine h.earlier (fun hserving => ?_) w
    rw [hstopped] at hserving
    cases hserving
  rw [← hrest] at hall
  exact (WorkerLog.takeWhile_isBatch_append (s.earlier w) rest).trans hall

/-- A pool of two workers is stopped. The first has both sentinels and one more batch, which
was submitted behind them, in the list that it swaps out. The second is stopped twice as well,
but it swaps out the first sentinel without the other. -/
def stopActions : List (Action Unit 1) :=
  [.submit 0 () 4 [.ping], .submit 1 () 5 [.ping, .ping], .stopPool, .stopPool, .stopPool,
    .submit 0 () 4 [.ping], .fetch 0, .run 0, .run 0, .run 0, .run 0, .finish 0, .stopPool,
    .fetch 1, .run 1, .finish 1, .stopPool, .fetch 1, .stopPool, .run 1, .finish 1, .stopPool]

/-- The run of `stopActions` goes through to its end. -/
theorem isSome_stopActions : (exec step (init : Pool Unit 1) stopActions).isSome = true := by
  decide +kernel

/-- In the run of `stopActions` the first worker answers the batch that is behind its sentinel,
since it had swapped it out with it. Both have answered what came before. -/
theorem drained_of_run_two :
    ∃ path, ∃ s : Pool Unit 1, Run step init path s ∧ path.map Prod.snd = stopActions ∧
      s.phase = .stopped ∧ (s.lanes 0).ran.length = 2 ∧ (s.lanes 1).ran.length = 1 ∧
      (∀ w, (s.lanes w).Drained) ∧
      ∀ w, (s.lanes w).worker.phase = .exited ∧
        (s.earlier w).takeWhile BatchTask.isBatch <+: (s.lanes w).ran := by
  obtain ⟨path, hrun, hacts⟩ := Run.exec stopActions .nil (Option.some_get isSome_stopActions).symm
  obtain ⟨hdrained, hstopped⟩ := drained_of_run hrun
  have hphase : ((exec step (init : Pool Unit 1) stopActions).get isSome_stopActions).phase
      = .stopped := by decide +kernel
  exact ⟨path, _, hrun, hacts, hphase, by decide +kernel, by decide +kernel, hdrained,
    hstopped hphase⟩

end Pool

end VectorEngine
