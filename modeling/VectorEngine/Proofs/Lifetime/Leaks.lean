import VectorEngine.Proofs.Lifetime
import VectorEngine.Proofs.ReactorLoop.Table

/-!
# `VectorEngine.Proofs.Lifetime.Leaks`: what a reactor leaves behind

`~Reactor` joins the loop thread and destroys the members. The handle of a client and its
`Connection` belong to no member: `on_close` deletes them, and `LoopDeleter` closes the handles
that are left with no callback. So a client that is connected at that time is never deleted.

`leaves_of_run` says which handles and connections that leaves. In every run that ends with the
destruction, with any failures on the way, the reactor's own handles are deleted, and of the
clients exactly those are left whose `on_close` has not run. None of them was being closed, since
the second `uv_close` would have ended the process.

Write requests and their `ReplyContext`s can stay on the heap as well, when a write was refused
or has failed, or was still libuv's when the loop was closed. They are not part of `Leaves`;
`writes_accounted_iff` (`Proofs/ReactorLoop/Writes.lean`) is about them.
-/

set_option autoImplicit false

namespace VectorEngine.Lifetime

open VectorEngine.Memory
open VectorEngine.Transition

variable {c : Setting} {s s' : Lifetime}

/-- What is left of the handles and the connections when the reactor is destroyed. -/
structure Leaves (s : Lifetime) : Prop where
  /-- No handle of its own. -/
  own : ∀ handle, s.alive handle = false
  /-- The handle and the `Connection` of each client whose `on_close` has not run. -/
  clients : ∀ client ∈ s.loop.created,
    (s.loop.handles.Live client.handle ↔ client.id ∉ s.loop.closed) ∧
    (s.loop.conns.Live client.connection ↔ client.id ∉ s.loop.closed)
  /-- No other handle, and no other `Connection`. -/
  handles : ∀ p, s.loop.handles.Live p → ∃ client ∈ s.loop.created, client.handle = p
  conns : ∀ p, s.loop.conns.Live p → ∃ client ∈ s.loop.created, client.connection = p
  /-- No client was being closed. -/
  quiet : ∀ client ∈ s.loop.created, client.id ∉ s.loop.closed → s.loop.closes client.handle = 0

/-! ### The invariant -/

/-- `uv_walk` has closed what was left. -/
def Walked : LifePhase → Bool
  | .closing | .destroying _ | .gone => true
  | _ => false

/-- The destructors behind the loop that have run. -/
def Destroyed : LifePhase → OwnHandle → Bool
  | .destroying .timer, _ => false
  | .destroying .replyAsync, handle => decide (handle = .timer)
  | .destroying .stopAsync, handle => decide (handle = .timer ∨ handle = .replyAsync)
  | .destroying .server, handle => decide (handle ≠ .server)
  | .gone, _ => true
  | _, _ => false

/-- What holds of the clients' objects in the life of a reactor. Up to `uv_walk` the loop is as
its callbacks left it. Behind it the handles are gone from the loop, and the objects that they led
to are still there. -/
structure Held (s : Lifetime) : Prop where
  loopless : s.phase = .makingLoop → s.loop.registered = ∅
  intact : Walked s.phase = false → s.loop.Inv
  /-- Behind `uv_walk`, the objects are as they were before. -/
  left : Walked s.phase = true →
    (∃ registered, ReactorLoop.Inv { s.loop with registered := registered }) ∧
      ∀ p, s.loop.Open p → s.loop.closes p = 0
  own : ∀ handle, Destroyed s.phase handle = true → s.alive handle = false

/-- Before the constructor there is no client. -/
theorem Held.init : Held start where
  loopless _ := rfl
  intact _ := .init
  left h := nomatch h
  own _ h := nomatch h

/-- While the loop thread runs, `uv_walk` is still to come. -/
theorem walked_of_running {phase : LifePhase} (h : phase.running = true) :
    Walked phase = false ∧ phase ≠ .makingLoop ∧ ∀ handle, Destroyed phase handle = false := by
  cases phase with
  | initTimer => exact ⟨rfl, (fun heq => nomatch heq), fun _ => rfl⟩
  | serving => exact ⟨rfl, (fun heq => nomatch heq), fun _ => rfl⟩
  | joining => exact ⟨rfl, (fun heq => nomatch heq), fun _ => rfl⟩
  | _ => cases h

/-- The constructor leaves the clients alone. Only without a loop does it lead behind
`uv_walk`. -/
theorem construct_cases {opts : TcpOptions} {ok : Bool} (hs : s.construct opts ok = some s') :
    s'.loop = s.loop ∧ Walked s.phase = false ∧ s'.phase ≠ .makingLoop ∧
      (Walked s'.phase = true → s.phase = .makingLoop) ∧
      ∀ handle, Destroyed s'.phase handle = false := by
  unfold construct at hs
  cases hphase : s.phase with
  | makingLoop =>
    rw [hphase] at hs
    cases hs
    cases ok
    · exact ⟨rfl, rfl, (fun heq => nomatch heq), fun _ => rfl, fun _ => rfl⟩
    · exact ⟨rfl, rfl, (fun heq => nomatch heq), fun _ => rfl, fun _ => rfl⟩
  | configuring call =>
    rw [hphase] at hs
    cases ok with
    | false =>
      cases hs
      exact ⟨rfl, rfl, (fun heq => nomatch heq), (fun heq => nomatch heq), fun _ => rfl⟩
    | true =>
      cases hnext : call.next opts with
      | none =>
        simp only [hnext, if_true] at hs
        cases hs
        exact ⟨rfl, rfl, (fun heq => nomatch heq), (fun heq => nomatch heq), fun _ => rfl⟩
      | some call' =>
        simp only [hnext, if_true] at hs
        cases hs
        exact ⟨rfl, rfl, (fun heq => nomatch heq), (fun heq => nomatch heq), fun _ => rfl⟩
  | initServer | initTimer =>
    rw [hphase] at hs
    cases hs
    exact ⟨rfl, rfl, (fun heq => nomatch heq), (fun heq => nomatch heq), fun _ => rfl⟩
  | initStopAsync | initReplyAsync | startThread =>
    rw [hphase] at hs
    cases ok
    · cases hs
      exact ⟨rfl, rfl, (fun heq => nomatch heq), (fun heq => nomatch heq), fun _ => rfl⟩
    · cases hs
      exact ⟨rfl, rfl, (fun heq => nomatch heq), (fun heq => nomatch heq), fun _ => rfl⟩
  | _ =>
    rw [hphase] at hs
    cases hs

/-- The constructor leaves the clients alone, as there are none before the loop thread runs. -/
theorem Held.construct (h : s.Held) {opts : TcpOptions} {ok : Bool}
    (hs : s.construct opts ok = some s') : s'.Held := by
  obtain ⟨hloop, hwalked, hnot, hfirst, hdestroyed⟩ := construct_cases hs
  have hinv := h.intact hwalked
  refine ⟨fun heq => absurd heq hnot, fun _ => hloop ▸ hinv, fun hw => ?_, fun handle hd => ?_⟩
  · -- There are no clients without a loop.
    have hnone := h.loopless (hfirst hw)
    rw [hloop]
    refine ⟨⟨s.loop.registered, hinv⟩, fun p hopen => ?_⟩
    have hmem := (hinv.registered p).mpr hopen
    rw [hnone] at hmem
    exact absurd hmem (Finset.notMem_empty p)
  · rw [hdestroyed] at hd
    cases hd

/-- The destruction of a member behind the loop. -/
theorem Held.delete (h : s.Held) {handle : OwnHandle} (hphase : s.phase = .destroying handle) :
    Held { s with alive := Function.update s.alive handle false
                  phase := nextDestroyed handle } where
  loopless heq := by cases handle <;> cases heq
  intact hw := by cases handle <;> cases hw
  left _ := h.left (by rw [hphase]; rfl)
  own other hd := by
    show Function.update s.alive handle false other = false
    by_cases hne : other = handle
    · rw [hne, Function.update_self]
    · rw [Function.update_of_ne hne]
      refine h.own other ?_
      rw [hphase]
      cases handle <;> cases other <;> first | rfl | exact absurd rfl hne | cases hd

/-- The destructor deletes its own handles one after another, and no object of a client. -/
theorem Held.destroy (h : s.Held) (hs : s.destroy = some s') : s'.Held := by
  unfold Lifetime.destroy at hs
  cases hphase : s.phase with
  | serving =>
    rw [hphase] at hs
    cases hs
    exact ⟨(fun heq => nomatch heq), fun _ => h.intact (by rw [hphase]; rfl),
      (fun hw => nomatch hw), fun _ hd => nomatch hd⟩
  | joining =>
    rw [hphase] at hs
    cases hs
    exact ⟨(fun heq => nomatch heq), fun _ => h.intact (by rw [hphase]; rfl),
      (fun hw => nomatch hw), fun _ hd => nomatch hd⟩
  | walking =>
    have hinv := h.intact (by rw [hphase]; rfl)
    simp only [hphase] at hs
    split at hs
    · -- `uv_loop_close` finds no handle, so there is no client.
      rename_i hempty
      obtain ⟨-, -, -, -, hclients⟩ := hempty
      cases hs
      refine ⟨(fun heq => nomatch heq), (fun hw => nomatch hw),
        fun _ => ⟨⟨s.loop.registered, hinv⟩, fun p hopen => ?_⟩, fun _ hd => nomatch hd⟩
      have hmem := (hinv.registered p).mpr hopen
      rw [hclients] at hmem
      exact absurd hmem (Finset.notMem_empty p)
    · split at hs
      · rename_i hquiet
        cases hs
        exact ⟨(fun heq => nomatch heq), (fun hw => nomatch hw),
          fun _ => ⟨⟨s.loop.registered, hinv⟩,
            fun p hopen => hquiet p ((hinv.registered p).mpr hopen)⟩,
          fun _ hd => nomatch hd⟩
      · cases hs
  | closing =>
    rw [hphase] at hs
    cases hs
    exact ⟨(fun heq => nomatch heq), (fun hw => nomatch hw),
      fun _ => h.left (by rw [hphase]; rfl), fun _ hd => nomatch hd⟩
  | destroying handle =>
    rw [hphase] at hs
    cases hs
    exact h.delete hphase
  | _ =>
    rw [hphase] at hs
    cases hs

/-! ### Runs -/

/-- A step creates clients, and forgets none. Requests and contexts stay paired. -/
theorem step_loop {a : Action} (hpaired : s.loop.Paired) (hs : s.step c a = some s') :
    s'.loop.Paired ∧ s.loop.created.length ≤ s'.loop.created.length := by
  cases a with
  | call ok =>
    obtain ⟨hloop, -⟩ := construct_cases hs
    rw [hloop]
    exact ⟨hpaired, Nat.le_refl _⟩
  | callback a =>
    obtain ⟨-, hs⟩ := Option.ite_none_right_eq_some.mp hs
    obtain ⟨loop, hloop, rfl⟩ := Option.map_eq_some_iff.mp hs
    have hnext := ReactorLoop.next_of_step hloop
    exact ⟨hpaired.next_step hnext, ReactorLoop.length_created_mono hnext⟩
  | keepaliveFails =>
    -- The exception leaves `_on_connect` before the client is in the table.
    obtain ⟨-, hs⟩ := Option.ite_none_right_eq_some.mp hs
    unfold clientSetupFails at hs
    split at hs
    · cases hs
    · cases hs
      exact ⟨{ hpaired with }, Nat.le_refl _⟩
  | destroy =>
    replace hs : s.destroy = some s' := hs
    unfold Lifetime.destroy at hs
    cases hphase : s.phase with
    | walking =>
      simp only [hphase] at hs
      split at hs
      · cases hs
        exact ⟨hpaired, Nat.le_refl _⟩
      · obtain ⟨-, hs⟩ := Option.ite_none_right_eq_some.mp hs
        cases hs
        exact ⟨hpaired, Nat.le_refl _⟩
    | closing =>
      rw [hphase] at hs
      cases hs
      exact ⟨{ hpaired with }, Nat.le_refl _⟩
    | serving | joining | destroying handle =>
      rw [hphase] at hs
      cases hs
      exact ⟨hpaired, Nat.le_refl _⟩
    | _ =>
      rw [hphase] at hs
      cases hs

/-- One step, while the ids do not run out. -/
theorem Held.step (h : s.phase = .terminated ∨ s.Held) (hpaired : s.loop.Paired) {a : Action}
    (hs : s.step c a = some s') (hfew : s'.loop.created.length < 2 ^ 64) :
    s'.phase = .terminated ∨ s'.Held := by
  rcases h with hend | h
  · -- Nothing follows `std::terminate`.
    cases a with
    | call ok => simp [Lifetime.step, Lifetime.construct, hend] at hs
    | callback a => simp [Lifetime.step, hend, LifePhase.running] at hs
    | keepaliveFails => simp [Lifetime.step, hend, LifePhase.running] at hs
    | destroy => simp [Lifetime.step, Lifetime.destroy, hend] at hs
  · cases a with
    | call ok => exact Or.inr (h.construct hs)
    | callback a =>
      obtain ⟨hrunning, hs⟩ := Option.ite_none_right_eq_some.mp hs
      obtain ⟨loop, hloop, rfl⟩ := Option.map_eq_some_iff.mp hs
      obtain ⟨hwalked, hnot, -⟩ := walked_of_running hrunning
      have hinv := (h.intact hwalked).next_step hpaired (ReactorLoop.next_of_step hloop) hfew
      refine Or.inr ⟨fun heq => absurd heq hnot, fun _ => hinv, fun hw => ?_, h.own⟩
      replace hw : Walked s.phase = true := hw
      rw [hwalked] at hw
      cases hw
    | keepaliveFails =>
      obtain ⟨-, hs⟩ := Option.ite_none_right_eq_some.mp hs
      exact Or.inl (clientSetupFails_cases hs).1
    | destroy => exact Or.inr (h.destroy hs)

/-- In the end, the invariant says what is left. -/
theorem Held.leaves (h : s.Held) (hgone : s.phase = .gone) : s.Leaves := by
  obtain ⟨⟨registered, hinv⟩, hquiet⟩ := h.left (by rw [hgone]; rfl)
  have hmem : ∀ client, client ∈ s.loop.created → ∃ p < s.loop.conns.next, client = ⟨p, p, p⟩ :=
    fun client hclient => hinv.mem_created.mp hclient
  have hlive : ∀ p, s.loop.handles.Live p ↔ s.loop.Open p := fun p => hinv.handles_live
  have hconns : ∀ p, s.loop.conns.Live p ↔ s.loop.Open p := hinv.conns
  have hcreated : ∀ p, s.loop.Open p → (⟨p, p, p⟩ : Client) ∈ s.loop.created :=
    fun p hopen => hinv.mem_created.mpr ⟨p, hopen.1, rfl⟩
  constructor
  · exact fun handle => h.own handle (by rw [hgone]; rfl)
  · intro client hclient
    obtain ⟨p, hlt, rfl⟩ := hmem client hclient
    have hopen : s.loop.Open p ↔ p ∉ s.loop.closed := and_iff_right hlt
    exact ⟨(hlive p).trans hopen, (hconns p).trans hopen⟩
  · exact fun p hp => ⟨_, hcreated p ((hlive p).mp hp), rfl⟩
  · exact fun p hp => ⟨_, hcreated p ((hconns p).mp hp), rfl⟩
  · intro client hclient hnot
    obtain ⟨p, hlt, rfl⟩ := hmem client hclient
    exact hquiet p ⟨hlt, hnot⟩

/-- **A destroyed reactor leaves its connected clients behind.** In every run from the start of
the constructor to the end of the destructor, with any failures and any callbacks, and fewer than
`2 ^ 64` clients: what is left is as `Leaves` says. The clients' objects are as the callbacks have
left them, since nothing that runs behind the loop thread deletes one. -/
theorem leaves_of_run {path : List (Lifetime × Action)} (hrun : Run (step c) start path s)
    (hgone : s.phase = .gone) (hfew : s.loop.created.length < 2 ^ 64) : s.Leaves := by
  have hstep : ∀ (t : Lifetime) (a : Action) (t' : Lifetime), (t.loop.Paired ∧
      (t.loop.created.length < 2 ^ 64 → t.phase = .terminated ∨ t.Held)) → True →
      t.step c a = some t' → t'.loop.Paired ∧
        (t'.loop.created.length < 2 ^ 64 → t'.phase = .terminated ∨ t'.Held) := by
    rintro t a t' ⟨hpaired, h⟩ - hs
    obtain ⟨hpaired', hmono⟩ := step_loop hpaired hs
    exact ⟨hpaired', fun hlt => Held.step (h (Nat.lt_of_le_of_lt hmono hlt)) hpaired hs hlt⟩
  have hall := hrun.invariant hstep ⟨ReactorLoop.Paired.init, fun _ => Or.inr Held.init⟩
    fun _ _ => trivial
  rcases hall.1.2 hfew with hend | hheld
  · rw [hgone] at hend
    cases hend
  · exact hheld.leaves hgone

/-- Two clients come, one goes, and the reactor is destroyed. -/
def connectedActions : List Action :=
  List.replicate 12 (.call true) ++
  [.callback (.connect 0 true), .callback (.connect 0 true), .callback (.readEnd 0 (-4095)),
    .callback (.close 0)] ++
  List.replicate 8 .destroy

/-- The run of `connectedActions` goes through to its end. -/
theorem isSome_connectedActions :
    (exec (step smallSetting) start connectedActions).isSome = true := by
  decide +kernel

/-- With a client that is connected to the end, the reactor is gone and the handle of the client
is still on the heap. -/
theorem leaves_of_run_connected :
    ∃ path s, Run (step smallSetting) start path s ∧ path.map Prod.snd = connectedActions ∧
      s.phase = .gone ∧ s.loop.handles.Live 1 ∧ s.Leaves := by
  obtain ⟨path, hrun, hacts⟩ := Run.exec connectedActions .nil
    (Option.some_get isSome_connectedActions).symm
  exact ⟨path, _, hrun, hacts, by decide +kernel, by decide +kernel,
    leaves_of_run hrun (by decide +kernel) (by decide +kernel)⟩

end VectorEngine.Lifetime
