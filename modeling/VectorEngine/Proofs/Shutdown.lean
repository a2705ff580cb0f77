import VectorEngine.Process
import VectorEngine.Proofs.Engine.Delivery

/-!
# `VectorEngine.Proofs.Shutdown`: when a shutdown is safe

`~Reactor` joins the loop thread and nothing else. A batch that a worker still holds then
outlives the reactor, and the worker calls `send` on it. `shutdown_safe_iff` says that this is
the only way to go wrong: a run is safe if and only if every worker is idle at the end of
`~Reactor`, when the last of its members is destroyed. A worker that still holds a batch at the
join may be quick enough to send its reply while the members are being destroyed; the model does
not take these apart, and counts such a worker as idle in time. `send_after_destruction` is a run
in which a worker is not idle at the end.

What a step does to one worker is said once, in `Lane.Step`. The invariant is that no batch is
lost: the replies that were sent, those in a call of `send`, and those of the batches that the
worker holds are together the replies of all batches that were submitted to it.
-/

set_option autoImplicit false

namespace VectorEngine.Process

variable {n : Nat} {s s' : Process n}

/-! ### Safe states, and idle workers -/

/-- No worker was in `send` when the reactor was gone, and when it is gone, all batches have
been run and their `send` has returned. -/
structure Safe (s : Process n) : Prop where
  notLate : s.late = false
  answered : s.reactorGone = true → ∀ w, s.sent w = (s.submitted w).map runBatchTask

/-- No worker holds a batch, and none is in `send`. -/
def Idle (s : Process n) : Prop :=
  ∀ w, s.sending w = none ∧ (s.engine.workers w).tasks = [] ∧ (s.engine.workers w).queue = []

/-! ### One worker -/

/-- A worker, its call of `send`, and its histories. -/
structure Lane where
  worker : Worker Unit
  sending : Option (List Reply)
  submitted : List (BatchTask Unit)
  sent : List Reply

/-- One worker as the reactor sees it: its state, what was dispatched to it, and what it has sent.
-/
def lane (s : Process n) (w : Fin (n + 1)) : Lane where
  worker := s.engine.workers w
  sending := s.sending w
  submitted := s.submitted w
  sent := s.sent w

/-- What a step can do to a worker. Batches come while the loop thread runs, and sentinels
when the reactor is gone. -/
inductive Lane.Step (loopRunning reactorGone : Bool) (l : Lane) : Lane → Prop where
  | stay : Step loopRunning reactorGone l l
  | submit (b : BatchTask Unit) (hreactor : b.reactor = some ()) (hloop : loopRunning = true) :
      Step loopRunning reactorGone l
        { l with worker := l.worker.submit b, submitted := l.submitted ++ [b] }
  | fetch (x : Worker Unit) (hstep : l.worker.fetchTasks = some x) :
      Step loopRunning reactorGone l { l with worker := x }
  | finish (x : Worker Unit) (hstep : l.worker.finishRound = some x) :
      Step loopRunning reactorGone l { l with worker := x }
  | run (x : Worker Unit) (out : Option (Unit × List Reply)) (hidle : l.sending = none)
      (hstep : l.worker.runNext = some (x, out)) :
      Step loopRunning reactorGone l { l with worker := x, sending := out.map Prod.snd }
  | sendReturn (replies : List Reply) (hsending : l.sending = some replies) :
      Step loopRunning reactorGone l { l with sending := none, sent := l.sent ++ replies }
  | stop (hgone : reactorGone = true) :
      Step loopRunning reactorGone l { l with worker := l.worker.stop }

namespace Lane

variable {l l' : Lane} {loopRunning reactorGone : Bool}

/-- The replies of the batches that have a reactor. -/
def repliesOf (batches : List (BatchTask Unit)) : List Reply :=
  (batches.filter fun b => b.reactor.isSome).map runBatchTask

/-- The replies to some batches and then to more are in the order of the batches. -/
theorem repliesOf_append (bs bs' : List (BatchTask Unit)) :
    repliesOf (bs ++ bs') = repliesOf bs ++ repliesOf bs' := by
  unfold repliesOf
  rw [List.filter_append, List.map_append]

/-- A batch of a connection has one reply. -/
theorem repliesOf_singleton {b : BatchTask Unit} (h : b.reactor = some ()) :
    repliesOf [b] = [runBatchTask b] := by
  unfold repliesOf
  rw [List.filter_cons_of_pos (by rw [h]; rfl)]
  rfl

/-- A sentinel has none. -/
theorem repliesOf_sentinel {b : BatchTask Unit} (h : b.reactor = none) :
    repliesOf [b] = [] := by
  unfold repliesOf
  rw [List.filter_cons_of_neg (by rw [h]; exact Bool.false_ne_true)]
  rfl

/-- No batch is lost. -/
structure Ok (l : Lane) : Prop where
  calm : l.worker.Calm
  sending : l.sending ≠ some []
  account : l.sent ++ l.sending.getD [] ++ repliesOf l.worker.pending
    = l.submitted.map runBatchTask

/-- The worker has nothing left for the reactor. -/
structure Drained (l : Lane) : Prop where
  sending : l.sending = none
  pending : ∀ b ∈ l.worker.pending, b.reactor = none

/-- A worker that was stopped gets one more sentinel. -/
theorem pending_stop (w : Worker Unit) :
    w.stop.pending = w.pending ++ [{ tasks := [], connectionId := 0, reactor := none }] :=
  Worker.pending_submit w _

/-- No step loses a batch. -/
theorem Step.ok (hstep : Step loopRunning reactorGone l l') (h : l.Ok) : l'.Ok := by
  cases hstep with
  | stay => exact h
  | submit b hreactor hloop =>
    refine ⟨h.calm.submit b, h.sending, ?_⟩
    show l.sent ++ l.sending.getD [] ++ repliesOf (l.worker.submit b).pending
      = (l.submitted ++ [b]).map runBatchTask
    -- One more batch, and one more reply that it will have.
    rw [Worker.pending_submit, repliesOf_append, repliesOf_singleton hreactor,
      ← List.append_assoc, h.account, List.map_append]
    rfl
  | fetch x hx =>
    obtain ⟨hcalm, hpending⟩ := Worker.fetchTasks_spec h.calm hx
    exact ⟨hcalm, h.sending, by rw [hpending]; exact h.account⟩
  | finish x hx =>
    obtain ⟨hcalm, hpending⟩ := Worker.finishRound_spec h.calm hx
    exact ⟨hcalm, h.sending, by rw [hpending]; exact h.account⟩
  | run x out hidle hx =>
    obtain ⟨hcalm, b, hpending, rfl⟩ := Worker.runNext_spec h.calm hx
    -- The head of what is pending becomes a call of `send`, or nothing.
    have haccount := h.account
    rw [hidle, hpending, ← List.singleton_append, repliesOf_append] at haccount
    cases hreactor : b.reactor with
    | none =>
      rw [repliesOf_sentinel hreactor] at haccount
      exact ⟨hcalm, (fun hs => nomatch hs), haccount⟩
    | some r =>
      rw [repliesOf_singleton hreactor, ← List.append_assoc] at haccount
      refine ⟨hcalm, (fun hs => nomatch hs), ?_⟩
      show l.sent ++ [runBatchTask b] ++ repliesOf x.pending = _
      rw [← haccount]
      simp
  | sendReturn replies hsending =>
    have haccount := h.account
    -- at haccount] What was in the call is among what was sent.
    rw [hsending] at haccount
    refine ⟨h.calm, (fun hs => nomatch hs), ?_⟩
    show l.sent ++ replies ++ [] ++ repliesOf l.worker.pending = l.submitted.map runBatchTask
    rw [List.append_nil]
    exact haccount
  | stop hgone =>
    refine ⟨h.calm.submit _, h.sending, ?_⟩
    show l.sent ++ l.sending.getD [] ++ repliesOf l.worker.stop.pending = _
    -- The sentinel counts on neither side.
    rw [pending_stop, repliesOf_append, repliesOf_sentinel rfl, List.append_nil]
    exact h.account

/-- A worker gets no sentinel before the reactor is gone. -/
theorem Step.unstopped (hstep : Step loopRunning false l l') (h : l.Ok)
    (hpending : ∀ b ∈ l.worker.pending, b.reactor ≠ none) :
    ∀ b ∈ l'.worker.pending, b.reactor ≠ none := by
  cases hstep with
  | stay => exact hpending
  | submit b hreactor hloop =>
    intro c hc
    rcases List.mem_append.mp (by rw [← Worker.pending_submit]; exact hc) with hold | hnew
    · exact hpending c hold
    · rw [List.mem_singleton.mp hnew, hreactor]
      exact fun hnone => nomatch hnone
  | fetch x hx =>
    have hx := (Worker.fetchTasks_spec h.calm hx).2
    exact fun c hc => hpending c (by rw [← hx]; exact hc)
  | finish x hx =>
    have hx := (Worker.finishRound_spec h.calm hx).2
    exact fun c hc => hpending c (by rw [← hx]; exact hc)
  | run x out hidle hx =>
    obtain ⟨-, b, hx, -⟩ := Worker.runNext_spec h.calm hx
    exact fun c hc => hpending c (by rw [hx]; exact List.mem_cons_of_mem b hc)
  | sendReturn replies hsending => exact hpending
  | stop hgone => exact nomatch hgone

/-- Without a loop thread, a worker that has nothing left for the reactor gets nothing more
for it. -/
theorem Step.drained (hstep : Step false reactorGone l l') (h : l.Ok) (hl : l.Drained) :
    l'.Drained := by
  cases hstep with
  | stay => exact hl
  -- There is no loop thread any more that could push a batch.
  | submit b hreactor hloop => exact nomatch hloop
  | fetch x hx =>
    have hx := (Worker.fetchTasks_spec h.calm hx).2
    exact ⟨hl.sending, fun c hc => hl.pending c (by rw [← hx]; exact hc)⟩
  | finish x hx =>
    have hx := (Worker.finishRound_spec h.calm hx).2
    exact ⟨hl.sending, fun c hc => hl.pending c (by rw [← hx]; exact hc)⟩
  | run x out hidle hx =>
    obtain ⟨-, b, hb, rfl⟩ := Worker.runNext_spec h.calm hx
    -- All that a drained worker can run are sentinels, and these make no call.
    have hreactor : b.reactor = none := hl.pending b (by rw [hb]; exact List.mem_cons_self)
    refine ⟨?_, fun c hc => hl.pending c (by rw [hb]; exact List.mem_cons_of_mem b hc)⟩
    show (b.reactor.map _).map _ = none
    rw [hreactor]
    rfl
  | sendReturn replies hsending => exact ⟨rfl, hl.pending⟩
  | stop hgone =>
    refine ⟨hl.sending, fun c hc => ?_⟩
    rcases List.mem_append.mp (by rw [← pending_stop]; exact hc) with hold | hnew
    · exact hl.pending c hold
    · rw [List.mem_singleton.mp hnew]

/-- A worker that has nothing left for the reactor has sent all replies. -/
theorem Ok.answered (h : l.Ok) (hl : l.Drained) : l.sent = l.submitted.map runBatchTask := by
  have hnone : repliesOf l.worker.pending = [] := by
    unfold repliesOf
    rw [List.filter_eq_nil_iff.mpr fun b hb => by rw [hl.pending b hb]; exact Bool.false_ne_true]
    rfl
  have haccount := h.account
  rw [hl.sending, hnone, List.append_nil] at haccount
  show l.sent = _
  rw [← haccount]
  exact (List.append_nil _).symm

/-- A worker that was not stopped and has sent all replies holds nothing. -/
theorem Ok.idle (h : l.Ok) (hpending : ∀ b ∈ l.worker.pending, b.reactor ≠ none)
    (hl : l.sent = l.submitted.map runBatchTask) :
    l.sending = none ∧ l.worker.pending = [] := by
  have haccount := h.account
  rw [← hl, List.append_assoc] at haccount
  -- The sent replies are all there are, so the rest of the account is empty.
  obtain ⟨hsending, hreplies⟩ :=
    List.append_eq_nil_iff.mp (List.append_right_eq_self.mp haccount)
  constructor
  · cases hs : l.sending with
    | none => rfl
    | some replies =>
      rw [hs] at hsending
      exact absurd (by rw [hs]; exact congrArg some hsending) h.sending
  · cases hp : l.worker.pending with
    | nil => rfl
    | cons b bs =>
      have hb := hpending b (by rw [hp]; exact List.mem_cons_self)
      have hnone := List.filter_eq_nil_iff.mp (List.map_eq_nil_iff.mp hreplies) b
        (by rw [hp]; exact List.mem_cons_self)
      exact absurd (Option.not_isSome_iff_eq_none.mp hnone) hb

end Lane

/-! ### What a step does -/

/-- Another state of one worker is another lane of that worker and of no other. -/
theorem lane_setWorker (s : Process n) (w w' : Fin (n + 1)) (x : Worker Unit) :
    (s.setWorker w x).lane w' = if w' = w then { s.lane w with worker := x } else s.lane w' := by
  show Lane.mk ((s.engine.setWorker w x).workers w') _ _ _ = _
  rw [Engine.workers_setWorker]
  by_cases hw : w' = w
  · subst hw
    rw [if_pos rfl, if_pos rfl]
    rfl
  · rw [if_neg hw, if_neg hw]
    rfl

/-- All that later proofs need to know of a step from `s` by `a`. -/
structure StepSpec (s : Process n) (a : Action n) (s' : Process n) : Prop where
  lanes : ∀ w, Lane.Step s.loopRunning s.reactorGone (s.lane w) (s'.lane w)
  joined : s.loopRunning = false → s'.loopRunning = false
  gone : s.reactorGone = true → s'.reactorGone = true
  /-- The reactor is destroyed by the main thread, behind the join, and no worker takes
  part. -/
  destroyed : s.reactorGone = false → s'.reactorGone = true →
    a = .main ∧ s.main = .joiningLoop ∧ s.loopRunning = false ∧ ∀ w, s'.lane w = s.lane w
  late : s'.late = true →
    s.late = true ∨ (s.reactorGone = true ∧ ∃ w, ¬ (s.lane w).Drained)

/-- A step of one worker: the main thread and the loop thread stay where they are. -/
theorem StepSpec.of_worker {a : Action n} {w : Fin (n + 1)}
    (hlane : Lane.Step s.loopRunning s.reactorGone (s.lane w) (s'.lane w))
    (hother : ∀ w', w' ≠ w → s'.lane w' = s.lane w') (hmain : s'.main = s.main)
    (hloop : s'.loopRunning = s.loopRunning)
    (hlate : s'.late = true →
      s.late = true ∨ (s.reactorGone = true ∧ ¬ (s.lane w).Drained)) :
    StepSpec s a s' := by
  have hgone : s'.reactorGone = s.reactorGone := congrArg MainPhase.reactorGone hmain
  refine ⟨fun w' => ?_, fun h => hloop.trans h, fun h => hgone.trans h, fun h h' => ?_,
    fun h => (hlate h).imp_right fun ⟨hg, hd⟩ => ⟨hg, w, hd⟩⟩
  · by_cases hw : w' = w
    · subst hw
      exact hlane
    · rw [hother w' hw]
      exact .stay
  · rw [hgone, h] at h'
    cases h'

/-- A step of one worker that only changes the worker itself. -/
theorem StepSpec.of_setWorker {a : Action n} {w : Fin (n + 1)} {x : Worker Unit}
    (hlane : Lane.Step s.loopRunning s.reactorGone (s.lane w) { s.lane w with worker := x }) :
    StepSpec s a (s.setWorker w x) := by
  refine .of_worker (w := w) ?_ (fun w' hw => ?_) rfl rfl Or.inl
  · rw [lane_setWorker, if_pos rfl]
    exact hlane
  · rw [lane_setWorker, if_neg hw]

/-- A step of the main thread before the reactor is gone: it touches no worker. -/
theorem StepSpec.of_before {a : Action n} (hlanes : ∀ w, s'.lane w = s.lane w)
    (hgone : s.reactorGone = false) (hgone' : s'.reactorGone = false)
    (hloop : s'.loopRunning = s.loopRunning) (hlate : s'.late = s.late) : StepSpec s a s' where
  lanes w := by
    rw [hlanes]
    exact .stay
  joined h := hloop.trans h
  gone h := by
    rw [hgone] at h
    cases h
  destroyed _ h := by
    rw [hgone'] at h
    cases h
  late h := Or.inl (hlate.symm.trans h)

/-- A step of the main thread when the reactor is gone. -/
theorem StepSpec.of_after {a : Action n}
    (hlanes : ∀ w, Lane.Step s.loopRunning true (s.lane w) (s'.lane w))
    (hgone : s.reactorGone = true) (hgone' : s'.reactorGone = true)
    (hloop : s'.loopRunning = s.loopRunning) (hlate : s'.late = s.late) : StepSpec s a s' where
  lanes w := by
    rw [hgone]
    exact hlanes w
  joined h := hloop.trans h
  gone _ := hgone'
  destroyed h _ := by
    rw [hgone] at h
    cases h
  late h := Or.inl (hlate.symm.trans h)

/-- Stopping a worker, with the main thread at `phase` behind it. -/
theorem StepSpec.of_stop {a : Action n} (w : Fin (n + 1)) (phase : MainPhase n)
    (hgone : s.reactorGone = true) (hgone' : phase.reactorGone = true) :
    StepSpec s a { s.setWorker w (s.engine.workers w).stop with main := phase } := by
  refine .of_after (fun w' => ?_) hgone hgone' rfl rfl
  show Lane.Step _ _ _ ((s.setWorker w (s.engine.workers w).stop).lane w')
  rw [lane_setWorker]
  by_cases hw : w' = w
  · subst hw
    rw [if_pos rfl]
    exact .stop rfl
  · rw [if_neg hw]
    exact .stay

/-- A step of the main thread. -/
theorem mainStep_spec (hstep : s.mainStep = some s') : StepSpec s .main s' := by
  unfold mainStep at hstep
  split at hstep
  case h_1 hmain =>
    cases hstep
    exact .of_before (fun _ => rfl) (congrArg MainPhase.reactorGone hmain) rfl rfl rfl
  case h_2 hmain =>
    cases hstep
    exact .of_before (fun _ => rfl) (congrArg MainPhase.reactorGone hmain) rfl rfl rfl
  case h_3 hmain =>
    -- The only step that destroys the reactor.
    obtain ⟨hloop, hs'⟩ := Option.ite_none_right_eq_some.mp hstep
    cases hs'
    exact ⟨fun _ => .stay, id, fun _ => rfl, fun _ _ => ⟨rfl, hmain, hloop, fun _ => rfl⟩,
      Or.inl⟩
  case h_4 w hmain =>
    cases hstep
    exact .of_stop w _ (congrArg MainPhase.reactorGone hmain) rfl
  case h_5 w hmain =>
    cases hstep
    exact .of_stop w _ (congrArg MainPhase.reactorGone hmain) rfl
  case h_6 w hmain =>
    have hgone : s.reactorGone = true := congrArg MainPhase.reactorGone hmain
    obtain ⟨-, hs'⟩ := Option.ite_none_right_eq_some.mp hstep
    -- It goes on to the next worker, or is the last.
    split at hs'
    · cases hs'
      exact .of_after (fun _ => .stay) hgone rfl rfl rfl
    · cases hs'
      exact .of_after (fun _ => .stay) hgone rfl rfl rfl
  case h_7 hmain => cases hstep

/-- A callback of the loop thread submits a batch to one worker, or touches none. -/
theorem loop_lanes {a : Engine.Action Unit n} {engine : Engine Unit n}
    (hloop : s.loopRunning = true) (ha : a.ofLoop = true)
    (hstep : s.engine.step a = some engine) (w : Fin (n + 1)) :
    Lane.Step s.loopRunning s.reactorGone (s.lane w)
      (lane { s.recordSubmit a with engine := engine } w) := by
  cases a with
  | connect r =>
    obtain ⟨-, hengine⟩ := Option.ite_none_right_eq_some.mp hstep
    cases hengine
    exact .stay
  | dispatch r id cmds =>
    obtain ⟨-, hengine⟩ := Option.ite_none_right_eq_some.mp hstep
    cases hengine
    show Lane.Step _ _ (s.lane w) (Lane.mk
      ((s.engine.setWorker (WorkerPool.fetch n id) _).workers w) (s.sending w)
      (Function.update s.submitted (WorkerPool.fetch n id) _ w) (s.sent w))
    -- The batch goes to the worker of its connection, and only there something changes.
    by_cases hw : w = WorkerPool.fetch n id
    · subst hw
      rw [Engine.workers_setWorker, if_pos rfl, Function.update_self]
      exact .submit (BatchTask.ofCommands cmds id (some r)) rfl hloop
    · rw [Engine.workers_setWorker, if_neg hw, Function.update_of_ne hw]
      exact .stay
  | swap r =>
    obtain ⟨x, -, rfl⟩ := Option.map_eq_some_iff.mp hstep
    exact .stay
  | write r =>
    obtain ⟨⟨x, out⟩, -, rfl⟩ := Option.map_eq_some_iff.mp hstep
    cases out <;> exact .stay
  | close r id =>
    cases hstep
    exact .stay
  | fetch w => cases ha
  | run w => cases ha
  | finish w => cases ha

/-- A call of `send` that a worker makes: it had a batch for the reactor. -/
theorem run_spec {w : Fin (n + 1)} {x : Worker Unit} {out : Option (Unit × List Reply)}
    (hcalm : (s.engine.workers w).Calm) (hsending : s.sending w = none)
    (hrun : (s.engine.workers w).runNext = some (x, out)) :
    StepSpec s (.run w) ((s.setWorker w x).callSend w out) := by
  obtain ⟨-, b, hpending, hout⟩ := Worker.runNext_spec hcalm hrun
  have hlane : ∀ w', ((s.setWorker w x).callSend w out).lane w'
      = if w' = w then { s.lane w with worker := x, sending := out.map Prod.snd }
        else s.lane w' := by
    intro w'
    cases out with
    | none =>
      show (s.setWorker w x).lane w' = _
      rw [lane_setWorker]
      show _ = if w' = w then Lane.mk x none (s.submitted w) (s.sent w) else _
      rw [← hsending]
      rfl
    | some call =>
      show Lane.mk ((s.engine.setWorker w x).workers w')
        (Function.update s.sending w (some call.2) w') _ _ = _
      by_cases hw : w' = w
      · subst hw
        rw [Engine.workers_setWorker, if_pos rfl, if_pos rfl, Function.update_self]
        rfl
      · rw [Engine.workers_setWorker, if_neg hw, if_neg hw, Function.update_of_ne hw]
        rfl
  -- The call changes one lane and the flag, and nothing else.
  have hframe : ((s.setWorker w x).callSend w out).main = s.main ∧
      ((s.setWorker w x).callSend w out).loopRunning = s.loopRunning := by
    cases out <;> exact ⟨rfl, rfl⟩
  refine .of_worker (w := w) ?_ (fun w' hw => by rw [hlane, if_neg hw]) hframe.1 hframe.2
    fun hlate => ?_
  · rw [hlane, if_pos rfl]
    exact .run x out hsending hrun
  · -- The call is late only if there is a batch for a reactor that is gone, and then the worker
    -- was not drained.
    cases hb : b.reactor with
    | none =>
      rw [hout, hb] at hlate
      exact Or.inl hlate
    | some r =>
      rw [hout, hb] at hlate
      have hlate : (s.late || s.reactorGone) = true := hlate
      refine (Bool.or_eq_true_iff.mp hlate).imp_right fun hgone => ⟨hgone, fun hdrained => ?_⟩
      have hnone := hdrained.pending b (by
        show b ∈ (s.engine.workers w).pending
        rw [hpending]
        exact List.mem_cons_self)
      rw [hb] at hnone
      cases hnone

/-- The return of a call of `send`. -/
theorem sendReturn_spec {w : Fin (n + 1)} {replies : List Reply}
    (hsending : s.sending w = some replies) :
    StepSpec s (.sendReturn w) (s.returnSend w replies) := by
  refine .of_worker (w := w) ?_ (fun w' hw => ?_) rfl rfl fun hlate => ?_
  · have hlane : (s.returnSend w replies).lane w
        = { s.lane w with sending := none, sent := (s.lane w).sent ++ replies } := by
      show Lane.mk _ (Function.update s.sending w none w) _
        (Function.update s.sent w (s.sent w ++ replies) w) = _
      rw [Function.update_self, Function.update_self]
      rfl
    rw [hlane]
    exact .sendReturn replies hsending
  · show Lane.mk _ (Function.update s.sending w none w') _
      (Function.update s.sent w (s.sent w ++ replies) w') = _
    rw [Function.update_of_ne hw, Function.update_of_ne hw]
    rfl
  · have hlate : (s.late || s.reactorGone) = true := hlate
    refine (Bool.or_eq_true_iff.mp hlate).imp_right fun hgone => ⟨hgone, fun hdrained => ?_⟩
    exact nomatch hsending.symm.trans hdrained.sending

/-- What a step does, for every action. -/
theorem step_spec (hok : ∀ w, (s.lane w).Ok) {a : Action n} (hstep : s.step a = some s') :
    StepSpec s a s' := by
  cases a with
  | main => exact mainStep_spec hstep
  | loop a =>
    obtain ⟨⟨hloop, ha⟩, hmap⟩ := Option.ite_none_right_eq_some.mp hstep
    obtain ⟨engine, hengine, rfl⟩ := Option.map_eq_some_iff.mp hmap
    have hframe : ({ s.recordSubmit a with engine := engine } : Process n).main = s.main ∧
        ({ s.recordSubmit a with engine := engine } : Process n).loopRunning = s.loopRunning ∧
        ({ s.recordSubmit a with engine := engine } : Process n).late = s.late := by
      -- A callback leaves the main thread, the loop and the flag alone.
      cases a <;> exact ⟨rfl, rfl, rfl⟩
    obtain ⟨hmain, hrunning, hlate⟩ := hframe
    have hgone : reactorGone { s.recordSubmit a with engine := engine } = s.reactorGone :=
      congrArg MainPhase.reactorGone hmain
    refine ⟨loop_lanes hloop ha hengine, fun h => hrunning.trans h, fun h => hgone.trans h,
      fun h h' => ?_, fun h => Or.inl (hlate.symm.trans h)⟩
    rw [hgone, h] at h'
    cases h'
  | loopExit =>
    obtain ⟨-, hs'⟩ := Option.ite_none_right_eq_some.mp hstep
    cases hs'
    -- That `uv_run` returns changes no lane.
    refine ⟨fun _ => .stay, fun _ => rfl, id, fun h h' => ?_, Or.inl⟩
    have h' : s.reactorGone = true := h'
    rw [h] at h'
    cases h'
  | fetch w =>
    obtain ⟨-, hmap⟩ := Option.ite_none_right_eq_some.mp hstep
    obtain ⟨x, hx, rfl⟩ := Option.map_eq_some_iff.mp hmap
    exact .of_setWorker (.fetch x hx)
  | run w =>
    obtain ⟨hsending, hmap⟩ := Option.ite_none_right_eq_some.mp hstep
    obtain ⟨⟨x, out⟩, hx, rfl⟩ := Option.map_eq_some_iff.mp hmap
    exact run_spec (hok w).calm hsending hx
  | sendReturn w =>
    obtain ⟨replies, hsending, rfl⟩ := Option.map_eq_some_iff.mp hstep
    exact sendReturn_spec hsending
  | finish w =>
    obtain ⟨-, hmap⟩ := Option.ite_none_right_eq_some.mp hstep
    obtain ⟨x, hx, rfl⟩ := Option.map_eq_some_iff.mp hmap
    exact .of_setWorker (.finish x hx)

/-! ### The invariant -/

/-- What every reachable state keeps. -/
structure Inv (s : Process n) : Prop where
  lanes : ∀ w, (s.lane w).Ok
  /-- There is no sentinel before the reactor is gone. -/
  unstopped : s.reactorGone = false →
    ∀ w, ∀ b ∈ (s.lane w).worker.pending, b.reactor ≠ none
  /-- There is no loop thread behind. -/
  joined : s.reactorGone = true → s.loopRunning = false

/-- The invariant holds at the start: the main thread serves, the queues are empty, and no reactor
is used. -/
theorem Initial.inv (h : s.Initial) : s.Inv where
  lanes w := by
    have hworker : (s.lane w).worker = Worker.init := h.engine.workers w
    refine ⟨by rw [hworker]; exact Worker.calm_init, ?_, ?_⟩
    · show s.sending w ≠ some []
      rw [h.sending]
      exact fun hs => nomatch hs
    · show s.sent w ++ (s.sending w).getD [] ++ Lane.repliesOf (s.lane w).worker.pending
        = (s.submitted w).map runBatchTask
      rw [h.sent, h.sending, h.submitted, hworker]
      rfl
  unstopped _ w b hb := by
    have hworker : (s.lane w).worker = Worker.init := h.engine.workers w
    rw [hworker] at hb
    cases hb
  joined hgone := by
    rw [reactorGone, h.main] at hgone
    cases hgone

/-- Every step keeps the invariant. -/
theorem step_inv (h : s.Inv) {a : Action n} (hstep : s.step a = some s') : s'.Inv := by
  have hspec := step_spec h.lanes hstep
  refine ⟨fun w => (hspec.lanes w).ok (h.lanes w), fun hgone' w => ?_, fun hgone' => ?_⟩
  · cases hgone : s.reactorGone with
    | true => exact absurd (hspec.gone hgone) (by rw [hgone']; exact Bool.false_ne_true)
    | false =>
      have hlane := hspec.lanes w
      rw [hgone] at hlane
      exact hlane.unstopped (h.lanes w) (h.unstopped hgone w)
  · cases hgone : s.reactorGone with
    | true => exact hspec.joined (h.joined hgone)
    | false =>
      obtain ⟨-, -, hloop, -⟩ := hspec.destroyed hgone hgone'
      exact hspec.joined hloop

/-! ### Safety -/

/-- No `send` was late, and none will be. -/
structure Clean (s : Process n) : Prop where
  notLate : s.late = false
  drained : s.reactorGone = true → ∀ w, (s.lane w).Drained

/-- In a clean state the workers have nothing left for the reactor when it is gone. By the
accounts of the invariant, all that was submitted has been sent then. -/
theorem Clean.safe (h : s.Clean) (hinv : s.Inv) : s.Safe where
  notLate := h.notLate
  answered hgone w := (hinv.lanes w).answered (h.drained hgone w)

/-- A step that destroys the reactor only when every worker is idle. -/
theorem step_clean (hinv : s.Inv) (h : s.Clean) {a : Action n}
    (hidle : a = .main → s.main = .joiningLoop → s.Idle) (hstep : s.step a = some s') :
    s'.Clean := by
  have hspec := step_spec hinv.lanes hstep
  constructor
  · -- A step sets the flag only where a worker that is not drained is in use of a reactor that is
    -- gone.
    cases hlate : s'.late with
    | false => rfl
    | true =>
      rcases hspec.late hlate with hbefore | ⟨hgone, w, hdrained⟩
      · exact hbefore.symm.trans h.notLate
      · exact absurd (h.drained hgone w) hdrained
  · intro hgone' w
    cases hgone : s.reactorGone with
    -- The reactor was gone before, and with it the loop thread.
    | true =>
      have hlane := hspec.lanes w
      rw [hinv.joined hgone] at hlane
      exact hlane.drained (hinv.lanes w) (h.drained hgone w)
    -- It is destroyed in this step, at which the workers are idle by assumption.
    | false =>
      obtain ⟨ha, hmain, -, hlane⟩ := hspec.destroyed hgone hgone'
      obtain ⟨hsending, htasks, hqueue⟩ := hidle ha hmain w
      rw [hlane]
      refine ⟨hsending, fun b hb => ?_⟩
      have hb : b ∈ (s.engine.workers w).tasks ++ (s.engine.workers w).queue := hb
      rw [htasks, hqueue] at hb
      cases hb

/-- The state behind the destruction is safe only if every worker was idle before it. -/
theorem idle_of_safe (hinv : s.Inv) (hmain : s.main = .joiningLoop)
    (hstep : s.step .main = some s') (hsafe : s'.Safe) : s.Idle := by
  have hspec := step_spec hinv.lanes hstep
  have hgone : s.reactorGone = false := congrArg MainPhase.reactorGone hmain
  have hgone' : s'.reactorGone = true := by
    have hmainStep : s.mainStep = some s' := hstep
    unfold mainStep at hmainStep
    rw [hmain] at hmainStep
    obtain ⟨-, hs'⟩ := Option.ite_none_right_eq_some.mp hmainStep
    cases hs'
    rfl
  obtain ⟨-, -, -, hlane⟩ := hspec.destroyed hgone hgone'
  intro w
  have hanswered : (s.lane w).sent = (s.lane w).submitted.map runBatchTask := by
    rw [← hlane w]
    exact hsafe.answered hgone' w
  obtain ⟨hsending, hpending⟩ := (hinv.lanes w).idle (hinv.unstopped hgone w) hanswered
  exact ⟨hsending, List.append_eq_nil_iff.mp hpending⟩

/-- **Shutdown safety.** In a run of the process, every state is safe if and only if every worker
is idle at the end of `~Reactor`. The step out of the join stands for the rest of the destructor,
so that the state in front of it is the one in which the last member is destroyed. -/
theorem shutdown_safe_iff {s₀ : Process n} (hstart : s₀.Initial)
    {path : List (Process n × Action n)} (hrun : Transition.Run step s₀ path s) :
    ((∀ p ∈ path, p.1.Safe) ∧ s.Safe) ↔
      ∀ p ∈ path, p.2 = .main → p.1.main = .joiningLoop → p.1.Idle := by
  obtain ⟨hinv, hpath⟩ := hrun.invariant (C := fun _ _ => True)
    (fun _ _ _ hinv _ hstep => step_inv hinv hstep) hstart.inv fun _ _ => trivial
  constructor
  · rintro ⟨hbefore, hlast⟩ p hp ha hmain
    obtain ⟨t, hstep, ht⟩ := hrun.exists_next p hp
    rw [ha] at hstep
    have hsafe : t.Safe := by
      rcases ht with rfl | ⟨q, hq, rfl⟩
      · exact hlast
      · exact hbefore q hq
    exact idle_of_safe (hpath p hp) hmain hstep hsafe
  · intro hidle
    have hclean₀ : s₀.Clean :=
      ⟨hstart.late, fun hgone => by rw [reactorGone, hstart.main] at hgone; cases hgone⟩
    obtain ⟨⟨-, hclean⟩, hcleans⟩ := hrun.invariant (P := fun s => s.Inv ∧ s.Clean)
      (C := fun s a => a = .main → s.main = .joiningLoop → s.Idle)
      (fun _ _ _ h hcond hstep => ⟨step_inv h.1 hstep, step_clean h.1 h.2 hcond hstep⟩)
      ⟨hstart.inv, hclean₀⟩ hidle
    exact ⟨fun p hp => (hcleans p hp).2.safe (hpath p hp), hclean.safe hinv⟩

/-- The objects of `main`, with its pool of three. -/
def mainStart : Process 2 where
  main := .serving
  stopRequested := false
  loopRunning := true
  engine :=
    { workers := fun _ => Worker.init
      reactors := fun _ => { connectionCnt := 0, connections := ∅, replies := [], swapped := [] }
      dispatched := fun _ _ => []
      written := fun _ _ => [] }
  sending _ := none
  submitted _ := []
  sent _ := []
  late := false

/-- The process of the example is one at its start. -/
theorem initial_mainStart : mainStart.Initial where
  main := rfl
  loopRunning := rfl
  engine :=
    { workers := fun _ => rfl
      known := fun _ id hid => absurd hid (Finset.notMem_empty id)
      replies := fun _ => ⟨rfl, rfl⟩
      dispatched := fun _ _ => rfl
      written := fun _ _ => rfl }
  sending _ := rfl
  submitted _ := rfl
  sent _ := rfl
  late := rfl

/-- A worker of the pool of three. -/
def pooled (place : Nat) : Fin (2 + 1) := WorkerPool.fetch 2 place

/-- The main thread stops a worker, and the worker runs both sentinels and exits. -/
def stopActions (w : Fin (2 + 1)) : List (Action 2) :=
  [.main, .main, .fetch w, .run w, .run w, .finish w, .main]

/-- A `PING` is answered, and then the process shuts down. -/
def quietActions : List (Action 2) :=
  [.loop (.connect ()), .loop (.dispatch () 0 [{ name := bytesOf "PING", args := [] }]),
    .fetch (pooled 0), .run (pooled 0), .sendReturn (pooled 0), .finish (pooled 0),
    .loop (.swap ()), .loop (.write ()), .main, .main, .loopExit, .main]
  ++ stopActions (pooled 0) ++ stopActions (pooled 1) ++ stopActions (pooled 2)

/-- The run of `quietActions` goes through to its end. -/
theorem isSome_quietActions : (Transition.exec step mainStart quietActions).isSome = true := by
  decide +kernel

/-- Whether the workers are idle can be looked at in their queues and in their hands. -/
instance (s : Process n) : Decidable s.Idle :=
  inferInstanceAs (Decidable (∀ w, s.sending w = none ∧ (s.engine.workers w).tasks = [] ∧
    (s.engine.workers w).queue = []))

/-- If the step ends `~Reactor`, then the workers are idle. -/
def EndsIdle (s : Process n) : Action n → Prop
  | .main => s.main = .joiningLoop → s.Idle
  | _ => True

/-- Only one step asks for idle workers, so that a run can be checked step by step. -/
instance (s : Process n) : DecidablePred s.EndsIdle
  | .main => inferInstanceAs (Decidable (s.main = .joiningLoop → s.Idle))
  | .loop _ | .loopExit | .fetch _ | .run _ | .sendReturn _ | .finish _ => isTrue trivial

/-- The run of `quietActions` goes through with idle workers at the end of `~Reactor`. -/
theorem isSome_quietActions_idle :
    (Transition.exec (Transition.restrict EndsIdle step) mainStart quietActions).isSome = true := by
  decide +kernel

/-- The run of `quietActions` reaches the end of `main`, and is safe in all its states: the worker
that answered the `PING` is idle again when the reactor is destroyed. -/
theorem shutdown_safe_iff_quiet : ∃ path s, Transition.Run step mainStart path s ∧
    path.map Prod.snd = quietActions ∧ s.main = .finished ∧
    (∀ p ∈ path, p.1.Safe) ∧ s.Safe := by
  obtain ⟨path, hrun, hacts⟩ := Transition.Run.exec quietActions .nil
    (Option.some_get isSome_quietActions_idle).symm
  obtain ⟨hrun, hidle⟩ := hrun.of_restrict
  refine ⟨path, _, hrun, hacts, by decide +kernel, ?_⟩
  refine (shutdown_safe_iff initial_mainStart hrun).mpr fun p hp ha hmain => ?_
  have hends := hidle p hp
  rw [ha] at hends
  exact hends hmain

/-- A `PING` is read, and the process shuts down before a worker has taken the batch. -/
def lateActions : List (Action 2) :=
  [.loop (.connect ()), .loop (.dispatch () 0 [{ name := bytesOf "PING", args := [] }]),
    .main, .main, .loopExit, .main, .fetch (pooled 0), .run (pooled 0)]

/-- The run of `lateActions` goes through to its end. -/
theorem isSome_lateActions : (Transition.exec step mainStart lateActions).isSome = true := by
  decide +kernel

/-- The worker calls `send` when the reactor is gone. It had the batch when `~Reactor` began, and
nothing in the destructor waits for it. -/
theorem send_after_destruction : ∃ path s, mainStart.Initial ∧
    Transition.Run step mainStart path s ∧ path.map Prod.snd = lateActions ∧
    s.reactorGone = true ∧
    s.sending 0 = some [{ connectionId := 0, reply := bytesOf "+PONG\r\n" }] ∧
    s.late = true ∧ ¬ s.Safe := by
  obtain ⟨path, hrun, hacts⟩ := Transition.Run.exec lateActions .nil
    (Option.some_get isSome_lateActions).symm
  have hlate : ((Transition.exec step mainStart lateActions).get isSome_lateActions).late = true :=
    by decide +kernel
  refine ⟨path, _, initial_mainStart, hrun, hacts, by decide +kernel, by decide +kernel, hlate,
    fun hsafe => ?_⟩
  rw [hsafe.notLate] at hlate
  cases hlate

end VectorEngine.Process
