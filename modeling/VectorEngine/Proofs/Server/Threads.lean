import VectorEngine.Proofs.Server.Simulation
import VectorEngine.Proofs.Wakeup.Rest

/-!
# `VectorEngine.Proofs.Server.Threads`: the threads of a server

The callbacks of the connections reach the threads in three ways. They create a connection,
remove one, or submit a batch. The first two change nothing that a thread waits for, and the
third is an action of `Wakeup`. So the threads of a server keep what they keep in `Wakeup`. As
the batches of a server come from its reactors, no worker is stopped, and no thread exits.
-/

set_option autoImplicit false

namespace VectorEngine

open VectorEngine.Transition

variable {ρ : Type} [DecidableEq ρ] {n : Nat}

/-! ### The hand-overs -/

namespace Server

variable {opts : ReactorOptions} {A : Allocator} {s s' : Server ρ n}

/-- Nothing is lost between the threads, and everything is where it belongs. -/
structure Sound (threads : Wakeup Empty (Fin (n + 1)) ρ) : Prop where
  attended : threads.Attended
  placed : threads.Placed

/-- A step of the threads loses nothing and misplaces nothing. -/
theorem Sound.step {threads threads' : Wakeup Empty (Fin (n + 1)) ρ} (h : Sound threads)
    {a : Wakeup.Action Empty (Fin (n + 1)) ρ} (hs : threads.step a = some threads') :
    Sound threads' :=
  ⟨h.attended.step hs, h.placed.step hs⟩

/-- A reactor changes its table, and keeps its replies. -/
theorem Sound.setReactor {threads : Wakeup Empty (Fin (n + 1)) ρ} (h : Sound threads) {r : ρ}
    {reactor : Reactor} (hreplies : reactor.replies = (threads.reactors r).replies)
    (hswapped : reactor.swapped = (threads.reactors r).swapped) :
    Sound (threads.setReactor r reactor) where
  attended := h.attended.setReactor (by rw [hreplies]; exact id)
  placed := h.placed.setReactor (by rw [hswapped]; exact h.placed.swapped r)

/-- What a callback does is a list of effects. Only a `dispatch` is a step of the threads, and the
others leave them alone. -/
theorem Sound.perform {r : ρ} (effects : List Effect) :
    ∀ {threads threads' : Wakeup Empty (Fin (n + 1)) ρ}, Sound threads →
      effects.foldlM (Server.perform r) threads = some threads' → Sound threads' := by
  induction effects with
  | nil =>
    intro threads threads' h hs
    cases hs
    exact h
  | cons effect effects ih =>
    intro threads threads' h hs
    rw [List.foldlM_cons] at hs
    obtain ⟨between, hfirst, hrest⟩ := Option.bind_eq_some_iff.mp hs
    refine ih ?_ hrest
    cases effect with
    | dispatch id tasks =>
      exact h.step (a := .submit (.loop r) (WorkerPool.fetch n id)
        { tasks := tasks, connectionId := id, reactor := some r }) hfirst
    | handleClose =>
      cases hfirst
      exact h

omit [DecidableEq ρ] in
/-- At the start there is nothing to lose. -/
theorem sound_init : Sound (init : Server ρ n).threads := by
  have hstart : (init : Server ρ n).threads.Initial :=
    { workers := fun _ => rfl
      waiting := fun _ => rfl
      replies := fun _ => ⟨rfl, rfl⟩
      loops := fun _ => rfl
      owed := fun _ => rfl }
  exact ⟨hstart.attended, hstart.placed⟩

/-- Every step of the server keeps what the threads rely on. -/
theorem Sound.next (h : Sound s.threads) {a : Action ρ n} (hs : s.step opts A a = some s') :
    Sound s'.threads := by
  cases next_of_step hs with
  | connect hfree hcnt hconn => exact h.setReactor rfl rfl
  | callback hsession hfree hpermits hreturns hperform => exact h.perform _ hperform
  | close hsession hfree hclosing => exact h.setReactor rfl rfl
  | thread hpushes hthreads => exact h.step hthreads

/-- It is kept along every run. The start is any state in which it holds, so that runs can be
continued. -/
theorem sound_of_run {path : List (Server ρ n × Action ρ n)} {s₀ : Server ρ n}
    (h : Sound s₀.threads) (hrun : Run (step opts A) s₀ path s) : Sound s.threads :=
  (hrun.invariant (P := fun s : Server ρ n => Sound s.threads) (C := fun _ _ => True)
    (fun _ _ _ h _ hs => h.next hs) h fun _ _ => trivial).1

end Server

/-! ### No worker is stopped -/

namespace Engine

variable {e e' : Engine ρ n}

/-- No thread of a worker has exited, or is about to. -/
def Unstopped (e : Engine ρ n) : Prop :=
  ∀ w, (e.workers w).phase ≠ .exited ∧ (e.workers w).stopThread = false

omit [DecidableEq ρ] in
/-- A worker that goes on leaves the others as they are. -/
theorem Unstopped.setWorker (h : e.Unstopped) {w : Fin (n + 1)} {worker : Worker ρ}
    (hphase : worker.phase ≠ .exited) (hstop : worker.stopThread = false) :
    (e.setWorker w worker).Unstopped := by
  intro v
  rw [workers_setWorker]
  by_cases hv : v = w
  · rw [if_pos hv]
    exact ⟨hphase, hstop⟩
  · rw [if_neg hv]
    exact h v

/-- The batches of an engine have reactors, and a worker stops only at a batch without one. -/
theorem Unstopped.step (h : e.Unstopped) (hinv : e.Inv) {a : Action ρ n}
    (hs : e.step a = some e') : e'.Unstopped := by
  cases a with
  | connect r =>
    obtain ⟨-, hs⟩ := Option.ite_none_right_eq_some.mp hs
    cases hs
    exact h
  | dispatch r id cmds =>
    obtain ⟨-, hs⟩ := Option.ite_none_right_eq_some.mp hs
    cases hs
    exact h.setWorker (h _).1 (h _).2
  | fetch w =>
    obtain ⟨worker, hfetch, rfl⟩ := Option.map_eq_some_iff.mp hs
    obtain ⟨-, rfl⟩ := Worker.fetchTasks_cases hfetch
    exact h.setWorker (by simp) rfl
  | run w =>
    obtain ⟨⟨worker, out⟩, hrun, rfl⟩ := Option.map_eq_some_iff.mp hs
    obtain ⟨hphase, b, tasks, htasks, -, rfl⟩ := Worker.runNext_cases hrun
    -- The batch is the next one of the worker, and so one with a reactor.
    obtain ⟨r, hr, -⟩ := hinv.batches w b (by simp [Worker.pending, htasks])
    have hset : (e.setWorker w { e.workers w with
        tasks := tasks
        replies := if b.reactor.isSome then [] else (e.workers w).replies
        stopThread := (e.workers w).stopThread || !b.reactor.isSome }).Unstopped :=
      h.setWorker (h w).1 (by simp [(h w).2, hr])
    cases out with
    | none => exact hset
    | some call => exact hset
  | finish w =>
    obtain ⟨worker, hfinish, rfl⟩ := Option.map_eq_some_iff.mp hs
    obtain ⟨-, -, rfl⟩ := Worker.finishRound_cases hfinish
    refine h.setWorker ?_ (h w).2
    simp [(h w).2]
  | swap r =>
    obtain ⟨reactor, -, rfl⟩ := Option.map_eq_some_iff.mp hs
    exact h
  | write r =>
    obtain ⟨⟨reactor, out⟩, -, rfl⟩ := Option.map_eq_some_iff.mp hs
    intro w
    rw [(recordWrite_frame (e.setReactor r reactor) r out).1]
    exact h w
  | close r id =>
    cases hs
    exact h

/-- In the runs of an engine no worker is stopped, as nothing in them pushes a sentinel. -/
theorem unstopped_of_run {e₀ : Engine ρ n} (hstart : e₀.Initial)
    {path : List (Engine ρ n × Action ρ n)} (hrun : Run Engine.step e₀ path e) :
    e.Unstopped := by
  have hfirst : e₀.Inv ∧ e₀.Unstopped := by
    refine ⟨hstart.inv, fun w => ?_⟩
    rw [hstart.workers]
    exact ⟨(fun heq => nomatch heq), rfl⟩
  exact (hrun.invariant (P := fun e : Engine ρ n => e.Inv ∧ e.Unstopped) (C := fun _ _ => True)
    (fun _ _ _ h _ hs => ⟨step_inv h.1 hs, h.2.step h.1 hs⟩) hfirst fun _ _ => trivial).1.2

end Engine

end VectorEngine
