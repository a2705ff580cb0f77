import VectorEngine.Lifetime
import VectorEngine.Proofs.ReactorLoop.Writes

/-!
# `VectorEngine.Proofs.Lifetime`: the handles that the loop knows

`uv_walk` and the processing of closes visit every handle that the loop has, so the memory of
each has to be there. Two ways of failing break this. When a call on the server fails, the
`unique_ptr` in `make_tcp_server` deletes a handle that is registered, and `LoopDeleter` walks
over it. When `uv_tcp_keepalive` fails for a client and the stack is unwound, the `unique_ptr`
in `make_tcp_client` deletes a handle whose close has been requested only. `covered_iff` says
that there is no other way.

The destruction itself is safe: `_loop` is the last member, so that the handles are deleted
behind it.
-/

set_option autoImplicit false

namespace VectorEngine.Lifetime

open VectorEngine.Memory
open VectorEngine.Transition

variable {c : Setting} {s s' : Lifetime}

/-- A handle of the loop: one of the reactor's own, or one of a client. -/
inductive HandleName where
  | own (handle : OwnHandle)
  | client (handle : Ptr)
  deriving DecidableEq, Repr

/-- The loop has the handle. -/
def Registered (s : Lifetime) : HandleName → Prop
  | .own handle => s.registered handle = true
  | .client handle => handle ∈ s.loop.registered

/-- The handle is not deleted. -/
def Alive (s : Lifetime) : HandleName → Prop
  | .own handle => s.alive handle = true
  | .client handle => s.loop.handles.Live handle

/-- The handles of the loop are not deleted. -/
def Covered (s : Lifetime) : Prop := ∀ handle, s.Registered handle → s.Alive handle

/-- A step that deletes a handle of the loop. -/
def Deletes (c : Setting) (s : Lifetime) : Action → Prop
  | .call ok => ok = false ∧ (∃ call, s.phase = .configuring call) ∧ s.registered .server = true
  | .keepaliveFails => c.unwinds = true
  | _ => False

/-! ### The callbacks -/

/-- The client handles of the loop are not deleted. -/
def ClientsCovered (loop : ReactorLoop) : Prop :=
  ∀ handle ∈ loop.registered, loop.handles.Live handle

/-- Replies do not touch the handles. -/
theorem foldl_sendReply_handles (outs : List (Reply × Bool)) : ∀ (loop : ReactorLoop),
    (outs.foldl ReactorLoop.sendReply loop).registered = loop.registered ∧
      (outs.foldl ReactorLoop.sendReply loop).handles = loop.handles := by
  induction outs with
  | nil => exact fun _ => ⟨rfl, rfl⟩
  | cons out outs ih =>
    intro loop
    have hhead : (loop.sendReply out).registered = loop.registered ∧
        (loop.sendReply out).handles = loop.handles := by
      cases hentry : loop.connections out.1.connectionId with
      | none =>
        rw [ReactorLoop.sendReply_none hentry]
        exact ⟨rfl, rfl⟩
      | some handle =>
        rw [ReactorLoop.sendReply_some hentry]
        exact ⟨rfl, rfl⟩
    rw [List.foldl_cons]
    exact ⟨(ih _).1.trans hhead.1, (ih _).2.trans hhead.2⟩

/-- A callback deletes a handle only when the loop is done with it. -/
theorem ClientsCovered.next {loop loop' : ReactorLoop} {a : ReactorLoop.Action}
    (h : ClientsCovered loop) (hnext : loop.Next a loop') : ClientsCovered loop' := by
  cases hnext with
  | connect =>
    intro handle hmem
    -- The handle of a new client is made before it is registered.
    rcases Finset.mem_insert.mp hmem with rfl | hmem
    · exact Heap.live_new.mpr (Or.inl rfl)
    · exact Heap.live_new.mpr (Or.inr (h handle hmem))
  | closeFault => exact fun handle hmem => h handle (Finset.mem_of_mem_erase hmem)
  | close =>
    intro handle hmem
    -- `on_close` deletes the handle that libuv has just given back.
    obtain ⟨hne, hmem⟩ := Finset.mem_erase.mp hmem
    exact Heap.live_delete.mpr ⟨hne, h handle hmem⟩
  | reply accepted =>
    obtain ⟨hreg, hhandles⟩ :=
      foldl_sendReply_handles (loop.replies.zip accepted) { loop with replies := [] }
    intro handle hmem
    replace hmem : handle ∈ (List.foldl ReactorLoop.sendReply { loop with replies := [] }
      (loop.replies.zip accepted)).registered := hmem
    show (List.foldl ReactorLoop.sendReply { loop with replies := [] }
      (loop.replies.zip accepted)).handles.Live handle
    rw [hhandles]
    rw [hreg] at hmem
    exact h handle hmem
  | _ => exact h

/-! ### The invariant -/

/-- The loop is not made yet, or it is gone. -/
def Loopless : LifePhase → Bool
  | .makingLoop | .destroying _ | .gone => true
  | _ => false

/-- The destruction of the members behind the loop has begun. -/
def Torn : LifePhase → Bool
  | .destroying _ | .gone => true
  | _ => false

/-- While the loop thread runs, the loop and the members are there. -/
theorem phase_of_running {phase : LifePhase} (h : phase.running = true) :
    Loopless phase = false ∧ Torn phase = false := by
  cases phase with
  | initTimer => exact ⟨rfl, rfl⟩
  | serving => exact ⟨rfl, rfl⟩
  | joining => exact ⟨rfl, rfl⟩
  | _ => cases h

/-- The loop has no handle. -/
def Unknown (s : Lifetime) : Prop :=
  (∀ handle, s.registered handle = false) ∧ s.loop.registered = ∅

/-- What holds in the life of a reactor as long as no registered handle is deleted: the own
handles and those of the clients are covered, the loop knows of nothing before it exists and after
it was closed, and the timer is there from its start to the end. -/
structure Inv (s : Lifetime) : Prop where
  own : ∀ handle, s.registered handle = true → s.alive handle = true
  clients : ClientsCovered s.loop
  empty : Loopless s.phase = true → s.Unknown
  timer : Torn s.phase = false → s.alive .timer = true

/-- The invariant covers the reactor's own handles and those of its clients. -/
theorem Inv.covered (h : s.Inv) : s.Covered := by
  intro handle hreg
  cases handle with
  | own handle => exact h.own handle hreg
  | client handle => exact h.clients handle hreg

/-- Before the constructor there is no loop, and no handle is in it. -/
theorem Inv.start : Inv start where
  own _ hreg := nomatch hreg
  clients _ hmem := nomatch hmem
  empty _ := ⟨fun _ => rfl, rfl⟩
  timer _ := rfl

/-- The main thread goes on, and leaves the handles alone. -/
theorem Inv.goTo (h : s.Inv) (phase : LifePhase) (hloop : Loopless phase = true → s.Unknown)
    (htorn : Torn phase = false → Torn s.phase = false) : Inv { s with phase := phase } :=
  { h with empty := hloop, timer := fun ht => h.timer (htorn ht) }

/-- A handle of the reactor's own that is registered while its memory is there. -/
theorem Inv.register (h : s.Inv) (handle : OwnHandle) (known : Bool) (phase : LifePhase)
    (hloop : Loopless phase = false) (htorn : Torn s.phase = false) :
    Inv { s with registered := Function.update s.registered handle known
                 alive := Function.update s.alive handle true
                 phase := phase } where
  own other hreg := by
    show Function.update s.alive handle true other = true
    by_cases hne : other = handle
    · rw [hne, Function.update_self]
    · replace hreg : Function.update s.registered handle known other = true := hreg
      rw [Function.update_of_ne hne] at hreg ⊢
      exact h.own other hreg
  clients := h.clients
  empty ht := by
    replace ht : Loopless phase = true := ht
    rw [hloop] at ht
    cases ht
  timer _ := by
    show Function.update s.alive handle true .timer = true
    by_cases hne : OwnHandle.timer = handle
    · rw [hne, Function.update_self]
    · rw [Function.update_of_ne hne]
      exact h.timer htorn

/-- A handle that the loop does not have is deleted. -/
theorem Inv.deleteOwn (h : s.Inv) {handle : OwnHandle} (hunknown : s.registered handle = false)
    (phase : LifePhase) (hloop : Loopless phase = true → s.Unknown)
    (htimer : Torn phase = false → handle ≠ .timer ∧ Torn s.phase = false) :
    Inv { s with alive := Function.update s.alive handle false, phase := phase } where
  own other hreg := by
    have hne : other ≠ handle := by
      rintro rfl
      replace hreg : s.registered other = true := hreg
      rw [hunknown] at hreg
      cases hreg
    show Function.update s.alive handle false other = true
    rw [Function.update_of_ne hne]
    exact h.own other hreg
  clients := h.clients
  empty := hloop
  timer ht := by
    obtain ⟨hne, htorn⟩ := htimer ht
    show Function.update s.alive handle false .timer = true
    rw [Function.update_of_ne (Ne.symm hne)]
    exact h.timer htorn

/-- A step of the constructor that does not delete a handle of the loop. -/
theorem Inv.construct (h : s.Inv) {ok : Bool} (hok : ¬ s.Deletes c (.call ok))
    (hs : s.construct c.tcpOpts ok = some s') : s'.Inv := by
  unfold Lifetime.construct at hs
  cases hphase : s.phase with
  | makingLoop =>
    simp only [hphase] at hs
    cases hs
    -- There is no loop, whether one is made now or not.
    have hunknown : s.Unknown := h.empty (by rw [hphase]; rfl)
    exact h.goTo _ (fun _ => hunknown) (fun _ => by rw [hphase]; rfl)
  | initServer =>
    simp only [hphase] at hs
    cases hs
    exact h.register .server ok (.configuring .fileno) rfl (by rw [hphase]; rfl)
  | configuring call =>
    simp only [hphase] at hs
    cases ok with
    | true =>
      have hgo : ∀ phase, Loopless phase = false → Inv { s with phase := phase } :=
        fun phase hloop => h.goTo phase (fun ht => by rw [hloop] at ht; cases ht)
          (fun _ => by rw [hphase]; rfl)
      cases hnext : call.next c.tcpOpts with
      | some next =>
        simp only [hnext, if_true] at hs
        cases hs
        exact hgo _ rfl
      | none =>
        simp only [hnext, if_true] at hs
        cases hs
        exact hgo _ rfl
    | false =>
      cases hs
      -- The server is not registered, as `uv_tcp_init_ex` had failed.
      have hunknown : s.registered .server = false := by
        by_contra hreg
        exact hok ⟨rfl, ⟨call, hphase⟩, Bool.eq_true_of_not_eq_false hreg⟩
      exact h.deleteOwn hunknown .walking (fun ht => nomatch ht)
        (fun _ => ⟨(fun heq => nomatch heq), by rw [hphase]; rfl⟩)
  | initStopAsync =>
    simp only [hphase] at hs
    cases ok with
    | true =>
      cases hs
      exact h.register .stopAsync true .initReplyAsync rfl (by rw [hphase]; rfl)
    | false =>
      cases hs
      exact h.goTo .walking (fun ht => nomatch ht) (fun _ => by rw [hphase]; rfl)
  | initReplyAsync =>
    simp only [hphase] at hs
    cases ok with
    | true =>
      cases hs
      exact h.register .replyAsync true .startThread rfl (by rw [hphase]; rfl)
    | false =>
      cases hs
      exact h.goTo .walking (fun ht => nomatch ht) (fun _ => by rw [hphase]; rfl)
  | startThread =>
    simp only [hphase] at hs
    cases hs
    refine h.goTo _ (fun ht => ?_) (fun _ => by rw [hphase]; rfl)
    cases ok <;> cases ht
  | initTimer =>
    simp only [hphase] at hs
    cases hs
    -- The memory of the timer was there before.
    have htorn : Torn s.phase = false := by rw [hphase]; rfl
    have hsame : Function.update s.alive .timer true = s.alive := by
      rw [← h.timer htorn, Function.update_eq_self]
    have hreg := h.register .timer true .serving rfl htorn
    rwa [hsame] at hreg
  | _ =>
    simp only [hphase] at hs
    cases hs

/-- The destructors run in an order in which no handle of the loop is deleted. -/
theorem Inv.destroy (h : s.Inv) (hs : s.destroy = some s') : s'.Inv := by
  unfold Lifetime.destroy at hs
  cases hphase : s.phase with
  | serving =>
    simp only [hphase] at hs
    cases hs
    exact h.goTo .joining (fun ht => nomatch ht) (fun _ => by rw [hphase]; rfl)
  | joining =>
    simp only [hphase] at hs
    cases hs
    exact h.goTo .walking (fun ht => nomatch ht) (fun _ => by rw [hphase]; rfl)
  | walking =>
    simp only [hphase] at hs
    split at hs
    · -- `uv_loop_close` succeeds on a loop without handles.
      rename_i hempty
      obtain ⟨h₁, h₂, h₃, h₄, hclients⟩ := hempty
      have hunknown : s.Unknown := ⟨fun handle => by cases handle <;> assumption, hclients⟩
      cases hs
      exact h.goTo (.destroying .timer) (fun _ => hunknown) (fun ht => nomatch ht)
    · split at hs
      · cases hs
        exact h.goTo .closing (fun ht => nomatch ht) (fun _ => by rw [hphase]; rfl)
      · cases hs
  | closing =>
    simp only [hphase] at hs
    cases hs
    -- `uv_run` returns when every handle is closed, and then the loop has none.
    exact ⟨fun _ hreg => (nomatch hreg), fun _ hmem => (nomatch hmem),
      fun _ => ⟨fun _ => rfl, rfl⟩, fun ht => nomatch ht⟩
  | destroying handle =>
    simp only [hphase] at hs
    cases hs
    -- The loop is gone, so that a member can be deleted.
    have hunknown : s.Unknown := h.empty (by rw [hphase]; rfl)
    refine h.deleteOwn (hunknown.1 handle) (nextDestroyed handle) (fun _ => hunknown) (fun ht => ?_)
    cases handle <;> cases ht
  | _ =>
    simp only [hphase] at hs
    cases hs

/-- What the failed set-up of a client leaves. -/
theorem clientSetupFails_cases {opts : ReactorOptions} {unwinds : Bool}
    (hs : s.clientSetupFails opts unwinds = some s') :
    s'.phase = .terminated ∧ s'.registered = s.registered ∧ s'.alive = s.alive ∧
      s'.loop.registered = insert s.loop.handles.next s.loop.registered ∧
      s'.loop.handles = (if unwinds = true then
        (s.loop.handles.new s.loop.conns.next).delete s.loop.handles.next
        else s.loop.handles.new s.loop.conns.next) := by
  unfold clientSetupFails at hs
  split at hs
  · cases hs
  · cases hs
    exact ⟨rfl, rfl, rfl, rfl, rfl⟩

/-- Without unwinding, a failed set-up of a client deletes nothing. -/
theorem Inv.clientSetupFails (h : s.Inv) (hphase : s.phase.running = true)
    {opts : ReactorOptions} (hs : s.clientSetupFails opts false = some s') : s'.Inv := by
  obtain ⟨hphase', hreg, halive, hclients, hhandles⟩ := clientSetupFails_cases hs
  refine ⟨fun handle hown => ?_, fun handle hmem => ?_, fun ht => ?_, fun _ => ?_⟩
  · rw [hreg] at hown
    rw [halive]
    exact h.own handle hown
  · rw [hclients] at hmem
    rw [hhandles]
    rcases Finset.mem_insert.mp hmem with rfl | hmem
    · exact Heap.live_new.mpr (Or.inl rfl)
    · exact Heap.live_new.mpr (Or.inr (h.clients handle hmem))
  · rw [hphase'] at ht
    cases ht
  · rw [halive]
    exact h.timer (phase_of_running hphase).2

/-- A step that deletes no handle of the loop keeps the invariant. -/
theorem Inv.step (h : s.Inv) {a : Action} (ha : ¬ s.Deletes c a) (hs : s.step c a = some s') :
    s'.Inv := by
  cases a with
  | call ok => exact h.construct ha hs
  | callback a =>
    obtain ⟨hrunning, hs⟩ := Option.ite_none_right_eq_some.mp hs
    obtain ⟨loop, hloop, rfl⟩ := Option.map_eq_some_iff.mp hs
    have hclients := h.clients.next (ReactorLoop.next_of_step hloop)
    refine { h with clients := hclients, empty := fun ht => ?_ }
    rw [(phase_of_running hrunning).1] at ht
    cases ht
  | keepaliveFails =>
    obtain ⟨hguard, hs⟩ := Option.ite_none_right_eq_some.mp hs
    have hno : c.unwinds = false := Bool.eq_false_of_not_eq_true ha
    rw [hno] at hs
    exact h.clientSetupFails hguard.1 hs
  | destroy => exact h.destroy hs

/-- A step that deletes a handle of the loop shows at once. -/
theorem not_covered_of_deletes {a : Action} (ha : s.Deletes c a) (hs : s.step c a = some s') :
    ¬ s'.Covered := by
  intro hcovered
  cases a with
  | call ok =>
    obtain ⟨rfl, ⟨call, hphase⟩, hreg⟩ := ha
    simp only [Lifetime.step, Lifetime.construct, hphase] at hs
    cases hs
    -- The `unique_ptr` has deleted the server while the loop had it.
    have halive := hcovered (.own .server) hreg
    replace halive : Function.update s.alive .server false .server = true := halive
    rw [Function.update_self] at halive
    cases halive
  | keepaliveFails =>
    obtain ⟨-, hs⟩ := Option.ite_none_right_eq_some.mp hs
    obtain ⟨-, -, -, hclients, hhandles⟩ := clientSetupFails_cases hs
    have hlive := hcovered (.client s.loop.handles.next)
      (show s.loop.handles.next ∈ s'.loop.registered from
        hclients ▸ Finset.mem_insert_self _ _)
    replace hlive : s'.loop.handles.Live s.loop.handles.next := hlive
    have hunwinds : c.unwinds = true := ha
    rw [hhandles, if_pos hunwinds] at hlive
    -- Unwinding has deleted the handle of the client while the loop had it.
    exact (Heap.live_delete.mp hlive).1 rfl
  | callback => exact ha
  | destroy => exact ha

/-- **When no handle of the loop is freed.** In a run from the start of the constructor, with
any failures, the handles that the loop has are not deleted in any state if and only if no step
is a failing call on a server that is registered, or a failing `uv_tcp_keepalive` with
unwinding. -/
theorem covered_iff {path : List (Lifetime × Action)} (hrun : Run (step c) start path s) :
    ((∀ p ∈ path, p.1.Covered) ∧ s.Covered) ↔ ∀ p ∈ path, ¬ p.1.Deletes c p.2 := by
  constructor
  · rintro ⟨hpath, hlast⟩ p hp hdel
    obtain ⟨t, ht, hor⟩ := hrun.exists_next p hp
    refine not_covered_of_deletes hdel ht ?_
    rcases hor with rfl | ⟨q, hq, rfl⟩
    · exact hlast
    · exact hpath q hq
  · intro hclean
    have hall := Run.invariant (P := Inv) (C := fun t a => ¬ t.Deletes c a)
      (fun t a t' h hc hs => h.step hc hs) hrun Inv.start hclean
    exact ⟨fun p hp => (hall.2 p hp).covered, hall.1.covered⟩

/-- The options of `main`, with small read buffers. -/
def smallSetting : Setting where
  tcpOpts := { keepalive := 30, nodelay := true }
  opts := ReactorLoop.smallOptions
  allocator := .standard
  unwinds := true

/-- The reactor is constructed, a client comes and goes, and the reactor is destroyed. -/
def quietActions : List Action :=
  List.replicate 12 (.call true) ++
  [.callback (.connect 0 true), .callback (.readEnd 0 (-4095)), .callback (.close 0)] ++
  List.replicate 8 .destroy

/-- The run of `quietActions` goes through to its end. -/
theorem isSome_quietActions : (exec (step smallSetting) start quietActions).isSome = true := by
  decide +kernel

/-- No call fails in the run of `quietActions`, so that the loop never has a handle that is
deleted. -/
theorem covered_iff_quiet :
    ∃ path s, Run (step smallSetting) start path s ∧ path.map Prod.snd = quietActions ∧
      s.phase = .gone ∧ (∀ p ∈ path, p.1.Covered) ∧ s.Covered := by
  obtain ⟨path, hrun, hacts⟩ := Run.exec quietActions .nil
    (Option.some_get isSome_quietActions).symm
  have hcalls : ∀ a ∈ quietActions, a ≠ .call false ∧ a ≠ .keepaliveFails := by decide
  refine ⟨path, _, hrun, hacts, by decide +kernel, (covered_iff hrun).mpr fun p hp hdel => ?_⟩
  have hmem : p.2 ∈ quietActions := by
    rw [show quietActions = path.map Prod.snd from hacts.symm]
    exact List.mem_map_of_mem hp
  obtain ⟨hcall, hkeepalive⟩ := hcalls p.2 hmem
  cases ha : p.2 with
  | call ok =>
    rw [ha] at hdel hcall
    exact hcall (by rw [hdel.1])
  | keepaliveFails => exact hkeepalive ha
  | callback a =>
    rw [ha] at hdel
    exact hdel
  | destroy =>
    rw [ha] at hdel
    exact hdel

/-- The port is in use: `uv_listen` fails, and `LoopDeleter` is called. -/
def portInUseActions : List Action :=
  List.replicate 7 (.call true) ++ [.call false]

/-- The run of `portInUseActions` goes through to its end. -/
theorem isSome_portInUseActions :
    (exec (step smallSetting) start portInUseActions).isSome = true := by
  decide +kernel

/-- The port is in use, so that `uv_listen` fails. The `unique_ptr` of the server has deleted it,
the loop still has it, and `LoopDeleter` is about to walk over it. -/
theorem walks_over_deleted :
    ∃ path s, Run (step smallSetting) start path s ∧ path.map Prod.snd = portInUseActions ∧
      s.phase = .walking ∧ s.Registered (.own .server) ∧ ¬ s.Alive (.own .server) ∧
      ¬ s.Covered := by
  obtain ⟨path, hrun, hacts⟩ := Run.exec portInUseActions .nil
    (Option.some_get isSome_portInUseActions).symm
  have hreg : ((exec (step smallSetting) start portInUseActions).get
    isSome_portInUseActions).registered .server = true := by decide +kernel
  have hdead : ((exec (step smallSetting) start portInUseActions).get
    isSome_portInUseActions).alive .server ≠ true := by decide +kernel
  exact ⟨path, _, hrun, hacts, by decide +kernel, hreg, hdead,
    fun hcovered => hdead (hcovered (.own .server) hreg)⟩

end VectorEngine.Lifetime
