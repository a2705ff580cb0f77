import VectorEngine.Proofs.ReactorLoop.Next
import VectorEngine.Transition.Run

/-!
# `VectorEngine.Proofs.ReactorLoop.Writes`: the contexts of the writes

`_send(Reply)` releases the `ReplyContext` and the write request to libuv before it knows
whether libuv has taken them, and does not look at the answer. `_on_write` deletes the two when
the write has succeeded, and leaves them when it has failed. So they are lost on two ways:
`uv_write` refuses the write, as it does while the connection is being closed and still in the
table, or the write fails. `writes_accounted_iff` says that these are the only ways: in a run,
what is not deleted is what libuv still has if and only if no step of the run takes one of them.
-/

set_option autoImplicit false

namespace VectorEngine.ReactorLoop

open VectorEngine.Memory
open VectorEngine.Transition

variable {opts : ReactorOptions} {A : Allocator} {s s' : ReactorLoop} {a : Action}

/-- The requests and the contexts that were created and not deleted are those of the writes that
libuv has accepted and not called back, each of one write, and none was deleted twice. -/
structure Accounted (s : ReactorLoop) : Prop where
  requests : ∀ w, s.requests.Live w ↔ w ∈ s.inFlight
  contexts : ∀ ctx, s.contexts.Live ctx ↔
    ∃ w ∈ s.inFlight, s.requests.objects w = some ctx
  once : s.inFlight.Nodup
  ofOne : ∀ w w' ctx, s.requests.objects w = some ctx → s.requests.objects w' = some ctx → w = w'
  deletedOnce : ∀ p, s.requests.deletes p ≤ 1 ∧ s.contexts.deletes p ≤ 1

/-- The step neither has a write refused nor fails one. -/
def Clean (s : ReactorLoop) : Action → Prop
  | .reply accepted => ∀ out ∈ s.replies.zip accepted, ∀ handle,
      s.connections out.1.connectionId = some handle → out.2 = true ∧ s.closes handle = 0
  | .write _ status => 0 ≤ status
  | _ => True

/-- Whether a step is clean is a question about the replies, the answers of `uv_write` and the
status, so that a run can be checked step by step. -/
instance (s : ReactorLoop) : DecidablePred s.Clean
  | .reply accepted => inferInstanceAs (Decidable (∀ out ∈ s.replies.zip accepted,
      ∀ handle ∈ s.connections out.1.connectionId, out.2 = true ∧ s.closes handle = 0))
  | .write _ status => inferInstanceAs (Decidable (0 ≤ status))
  | .connect _ _ | .alloc _ _ | .read _ _ | .readEnd _ _ | .close _ | .send _ => isTrue trivial

/-! ### Requests and contexts -/

/-- The request and the context of a write are created and deleted together, and libuv has live
requests only. Lost or not, this holds in every run. -/
structure Paired (s : ReactorLoop) : Prop where
  next : s.contexts.next = s.requests.next
  data : ∀ w ctx, s.requests.objects w = some ctx → ctx = w
  same : ∀ w, s.contexts.Live w ↔ s.requests.Live w
  requestsWf : s.requests.Wf
  contextsWf : s.contexts.Wf
  live : ∀ w ∈ s.inFlight, s.requests.Live w
  nodup : s.inFlight.Nodup

/-- Before the first write there is no request and no context. -/
theorem Paired.init : Paired init where
  next := rfl
  data _ _ h := nomatch h
  same _ := Iff.rfl
  requestsWf := .empty
  contextsWf := .empty
  live _ hw := nomatch hw
  nodup := .nil

/-- libuv is done with a request. -/
theorem Paired.erase (h : s.Paired) (w : Ptr) :
    Paired { s with inFlight := s.inFlight.erase w } :=
  { h with live := fun v hv => h.live v (List.mem_of_mem_erase hv)
           nodup := h.nodup.erase w }

/-- `uv_write` is called with a new request and a new context. If libuv refuses it both stay, and
libuv has neither. -/
theorem Paired.writeTo (h : s.Paired) (reply : Reply) (handle : Ptr) (accepted : Bool) :
    (s.writeTo reply handle accepted).Paired := by
  have hnew : ∀ v, s.requests.Live v → (s.requests.new s.contexts.next).Live v :=
    fun v hv => Heap.live_new.mpr (Or.inr hv)
  have hfresh : s.requests.next ∉ s.inFlight := fun hmem =>
    Nat.lt_irrefl _ (h.requestsWf.lt_next (h.live _ hmem))
  constructor
  · exact congrArg (· + 1) h.next
  · intro w ctx hw
    replace hw : (s.requests.new s.contexts.next).objects w = some ctx := hw
    by_cases hne : w = s.requests.next
    · rw [hne, Heap.objects_new_self] at hw
      cases hw
      exact h.next.trans hne.symm
    · rw [Heap.objects_new_of_ne hne] at hw
      exact h.data w ctx hw
  · intro w
    show (s.contexts.new reply).Live w ↔ (s.requests.new s.contexts.next).Live w
    rw [Heap.live_new, Heap.live_new, h.same, h.next]
  · exact h.requestsWf.new _
  · exact h.contextsWf.new _
  · intro w hw
    replace hw : w ∈ (if accepted = true ∧ s.closes handle = 0 then
      s.inFlight ++ [s.requests.next] else s.inFlight) := hw
    split at hw
    · rcases List.mem_append.mp hw with hw | hw
      · exact hnew w (h.live w hw)
      · exact Heap.live_new.mpr (Or.inl (List.mem_singleton.mp hw))
    · exact hnew w (h.live w hw)
  · show (if accepted = true ∧ s.closes handle = 0 then
      s.inFlight ++ [s.requests.next] else s.inFlight).Nodup
    split
    · exact List.nodup_append.mpr ⟨h.nodup, List.nodup_singleton _, fun v hv u hu heq =>
        hfresh (List.mem_singleton.mp hu ▸ heq ▸ hv)⟩
    · exact h.nodup

/-- A reply is written, or dropped when its connection is gone. -/
theorem Paired.sendReply (h : s.Paired) (out : Reply × Bool) : (s.sendReply out).Paired := by
  cases hentry : s.connections out.1.connectionId with
  | none =>
    rw [sendReply_none hentry]
    exact h
  | some handle =>
    rw [sendReply_some hentry]
    exact h.writeTo out.1 handle out.2

/-- All replies of one `_on_reply` are written or dropped, one after another. -/
theorem Paired.foldl_sendReply (outs : List (Reply × Bool)) :
    ∀ {s : ReactorLoop}, s.Paired → (outs.foldl ReactorLoop.sendReply s).Paired := by
  induction outs with
  | nil => exact fun h => h
  | cons out outs ih => exact fun h => ih (h.sendReply out)

/-- A completed write deletes its request and its context. -/
theorem Paired.delete (h : s.Paired) {w : Ptr} (hmem : w ∈ s.inFlight) :
    Paired { s with inFlight := s.inFlight.erase w
                    contexts := s.contexts.delete w
                    requests := s.requests.delete w } := by
  have hlive := h.live w hmem
  refine { h with data := fun v ctx hv => ?_, same := fun v => ?_,
                  requestsWf := h.requestsWf.delete hlive,
                  contextsWf := h.contextsWf.delete ((h.same w).mpr hlive),
                  live := fun v hv => ?_, nodup := h.nodup.erase w }
  · by_cases hne : v = w
    · subst hne
      replace hv : (s.requests.delete v).objects v = some ctx := hv
      rw [Heap.objects_delete_self] at hv
      cases hv
    · exact h.data v ctx ((Heap.objects_delete_of_ne hne).symm.trans hv)
  · show (s.contexts.delete w).Live v ↔ (s.requests.delete w).Live v
    rw [Heap.live_delete, Heap.live_delete, h.same]
  · have hv' := (h.nodup.mem_erase_iff).mp hv
    exact Heap.live_delete.mpr ⟨hv'.1, h.live v hv'.2⟩

/-- A request that libuv calls back is there, with its context. -/
theorem Paired.request (h : s.Paired) {w : Ptr} (hmem : w ∈ s.inFlight) :
    s.requests.objects w = some w ∧ s.contexts.Live w := by
  have hlive := h.live w hmem
  obtain ⟨ctx, hctx⟩ := Heap.live_iff.mp hlive
  exact ⟨(h.data w ctx hctx) ▸ hctx, (h.same w).mpr hlive⟩

/-- Every callback keeps the pairs. This needs no hypothesis on what libuv answers. -/
theorem Paired.next_step (h : s.Paired) (hnext : s.Next a s') : s'.Paired := by
  cases hnext with
  | connectFailed => exact h
  | connect => exact { h with }
  | allocFault => exact { h with }
  | alloc => exact { h with }
  | readFault => exact { h with }
  | read => exact { h with }
  | readEnd => exact { h with }
  | closeFault => exact { h with }
  | close => exact { h with }
  | send => exact { h with }
  | reply accepted _ =>
    exact Paired.foldl_sendReply _ (show Paired { s with replies := [] } from { h with })
  | writeFailed w => exact h.erase w
  | writeFault w => exact { h.erase w with }
  | write w ctx status hmem _ hreq =>
    cases h.data w ctx hreq
    exact { h.delete hmem with }

/-! ### What is lost -/

/-- A request that was not deleted, and that libuv does not have. -/
def Lost (s : ReactorLoop) (w : Ptr) : Prop := s.requests.Live w ∧ w ∉ s.inFlight

/-- The account is in order exactly when no request is lost. -/
theorem Paired.accounted_iff (h : s.Paired) : s.Accounted ↔ ∀ w, ¬ s.Lost w := by
  constructor
  · intro hacc w hlost
    exact hlost.2 ((hacc.requests w).mp hlost.1)
  · intro hnone
    have hmem : ∀ w, s.requests.Live w ↔ w ∈ s.inFlight :=
      fun w => ⟨fun hw => by_contra fun hnot => hnone w ⟨hw, hnot⟩, h.live w⟩
    refine ⟨hmem, fun ctx => ⟨fun hctx => ?_, ?_⟩, h.nodup, fun w w' ctx hw hw' => ?_,
      fun p => ⟨h.requestsWf.once p, h.contextsWf.once p⟩⟩
    · have hin := (hmem ctx).mp ((h.same ctx).mp hctx)
      exact ⟨ctx, hin, (h.request hin).1⟩
    · rintro ⟨w, hw, hctx⟩
      cases h.data w ctx hctx
      exact (h.request hw).2
    · exact (h.data w ctx hw).symm.trans (h.data w' ctx hw')

/-- The reply is taken up while libuv refuses to write to its connection. -/
def Refused (s : ReactorLoop) (out : Reply × Bool) : Prop :=
  ∃ handle, s.connections out.1.connectionId = some handle ∧
    ¬ (out.2 = true ∧ s.closes handle = 0)

/-- A write that is refused is lost, and nothing else is. -/
theorem Paired.lost_writeTo (h : s.Paired) (reply : Reply) (handle : Ptr) (accepted : Bool)
    (w : Ptr) : (s.writeTo reply handle accepted).Lost w ↔
      s.Lost w ∨ w = s.requests.next ∧ ¬ (accepted = true ∧ s.closes handle = 0) := by
  have hfresh : ¬ s.requests.Live s.requests.next := fun hlive =>
    Nat.lt_irrefl _ (h.requestsWf.lt_next hlive)
  show (s.requests.new s.contexts.next).Live w ∧ w ∉ (if accepted = true ∧ s.closes handle = 0
    then s.inFlight ++ [s.requests.next] else s.inFlight) ↔ _
  rw [Heap.live_new]
  by_cases hacc : accepted = true ∧ s.closes handle = 0
  · rw [if_pos hacc, List.mem_append, List.mem_singleton, not_or]
    constructor
    · rintro ⟨hw | hw, hnot, hne⟩
      · exact absurd hw hne
      · exact Or.inl ⟨hw, hnot⟩
    · rintro (hw | hw)
      · exact ⟨Or.inr hw.1, hw.2, fun heq => hfresh (heq ▸ hw.1)⟩
      · exact absurd hacc hw.2
  · rw [if_neg hacc]
    constructor
    · rintro ⟨hw | hw, hnot⟩
      · exact Or.inr ⟨hw, hacc⟩
      · exact Or.inl ⟨hw, hnot⟩
    · rintro (hw | ⟨hw, -⟩)
      · exact ⟨Or.inr hw.1, hw.2⟩
      · exact ⟨Or.inl hw, fun hmem => hfresh (hw ▸ h.live w hmem)⟩

/-- To send a reply loses a request just if `uv_write` refuses it. -/
theorem Paired.exists_lost_sendReply (h : s.Paired) (out : Reply × Bool) :
    (∃ w, (s.sendReply out).Lost w) ↔ (∃ w, s.Lost w) ∨ s.Refused out := by
  cases hentry : s.connections out.1.connectionId with
  | none =>
    have hnot : ¬ s.Refused out := by
      rintro ⟨handle, hhandle, -⟩
      rw [hentry] at hhandle
      cases hhandle
    rw [sendReply_none hentry]
    exact (or_iff_left hnot).symm
  | some handle =>
    have hrefused : s.Refused out ↔ ¬ (out.2 = true ∧ s.closes handle = 0) := by
      constructor
      · rintro ⟨handle', hhandle, hnot⟩
        rw [hentry] at hhandle
        cases hhandle
        exact hnot
      · exact fun hnot => ⟨handle, hentry, hnot⟩
    rw [sendReply_some hentry, hrefused]
    simp only [h.lost_writeTo]
    constructor
    · rintro ⟨w, hw | ⟨-, hnot⟩⟩
      · exact Or.inl ⟨w, hw⟩
      · exact Or.inr hnot
    · rintro (⟨w, hw⟩ | hnot)
      · exact ⟨w, Or.inl hw⟩
      · exact ⟨s.requests.next, Or.inr ⟨rfl, hnot⟩⟩

/-- A reply that is written does not change who is in the table and who is being closed. -/
theorem refused_sendReply (s : ReactorLoop) (out out' : Reply × Bool) :
    (s.sendReply out).Refused out' ↔ s.Refused out' := by
  cases hentry : s.connections out.1.connectionId with
  | none => rw [sendReply_none hentry]
  | some handle =>
    rw [sendReply_some hentry]
    exact Iff.rfl

/-- After a round of replies something is lost if and only if something was lost before, or one
of the writes was refused. -/
theorem Paired.exists_lost_foldl (outs : List (Reply × Bool)) : ∀ {s : ReactorLoop}, s.Paired →
    ((∃ w, (outs.foldl ReactorLoop.sendReply s).Lost w) ↔
      (∃ w, s.Lost w) ∨ ∃ out ∈ outs, s.Refused out) := by
  induction outs with
  | nil => exact fun _ => ⟨Or.inl, fun h => h.resolve_right fun ⟨_, hout, _⟩ => nomatch hout⟩
  | cons out outs ih =>
    intro s h
    rw [List.foldl_cons, ih (h.sendReply out), h.exists_lost_sendReply]
    simp only [refused_sendReply, List.exists_mem_cons_iff, or_assoc]

/-- A request that libuv is done with and that is not deleted is lost. -/
theorem Paired.lost_erase (h : s.Paired) {w : Ptr} (hmem : w ∈ s.inFlight) :
    Lost { s with inFlight := s.inFlight.erase w } w :=
  ⟨h.live w hmem, fun hin => (h.nodup.mem_erase_iff.mp hin).1 rfl⟩

/-- A step loses nothing if and only if it is clean. -/
theorem Paired.accounted_next_iff (h : s.Paired) (hacc : s.Accounted) (hnext : s.Next a s') :
    s'.Accounted ↔ s.Clean a := by
  have hnone := h.accounted_iff.mp hacc
  rw [(h.next_step hnext).accounted_iff]
  cases hnext with
  | connectFailed => exact iff_of_true hnone trivial
  | connect => exact iff_of_true hnone trivial
  | allocFault => exact iff_of_true hnone trivial
  | alloc => exact iff_of_true hnone trivial
  | readFault => exact iff_of_true hnone trivial
  | read => exact iff_of_true hnone trivial
  | readEnd => exact iff_of_true hnone trivial
  | closeFault => exact iff_of_true hnone trivial
  | close => exact iff_of_true hnone trivial
  | send => exact iff_of_true hnone trivial
  | reply accepted hlen =>
    have hpaired : Paired { s with replies := [] } := { h with }
    have hiff := Paired.exists_lost_foldl (s.replies.zip accepted) hpaired
    have hnone' : ¬ ∃ w, Lost { s with replies := [] } w := fun ⟨w, hw⟩ => hnone w hw
    rw [or_iff_right hnone'] at hiff
    rw [← not_exists]
    refine (not_congr hiff).trans ⟨fun hno out hout handle hhandle => ?_, ?_⟩
    · exact by_contra fun hnot => hno ⟨out, hout, handle, hhandle, hnot⟩
    · rintro hclean ⟨out, hout, handle, hhandle, hnot⟩
      exact hnot (hclean out hout handle hhandle)
  | writeFailed w status hmem hstatus =>
    exact iff_of_false (fun hno => hno w (h.lost_erase hmem)) (not_le.mpr hstatus)
  | writeFault w status hmem _ hlost =>
    rw [(h.request hmem).1] at hlost
    cases hlost
  | write w ctx status hmem hstatus hreq =>
    cases h.data w ctx hreq
    refine iff_of_true (fun v hv => ?_) (not_lt.mp hstatus)
    -- What is live and not the deleted request was in order before.
    have hv' := Heap.live_delete.mp hv.1
    exact hnone v ⟨hv'.2, fun hin => hv.2 (h.nodup.mem_erase_iff.mpr ⟨hv'.1, hin⟩)⟩

/-- Before the first write nothing is lost. -/
theorem accounted_init : Accounted init :=
  Paired.init.accounted_iff.mpr fun _ hw => nomatch hw.1

/-- **When the contexts of all writes are released.** In every run of the loop, the requests and
the contexts that are not deleted are in every state those of the writes that libuv has, if and
only if no step of the run has a write refused or fails one. In one direction a step that is not
clean loses a request for ever, as nothing else has its pointer. In the other the invariant holds
from step to step. -/
theorem writes_accounted_iff {path : List (ReactorLoop × Action)}
    (hrun : Run (step opts A) init path s) :
    ((∀ p ∈ path, p.1.Accounted) ∧ s.Accounted) ↔ ∀ p ∈ path, p.1.Clean p.2 := by
  have hpaired := Run.invariant (P := Paired) (C := fun _ _ => True)
    (fun _ _ _ h _ hs => h.next_step (next_of_step hs)) hrun Paired.init (fun _ _ => trivial)
  constructor
  · rintro ⟨hpath, hlast⟩ p hp
    obtain ⟨t, ht, hor⟩ := hrun.exists_next p hp
    have hacc : t.Accounted := by
      rcases hor with rfl | ⟨q, hq, rfl⟩
      · exact hlast
      · exact hpath q hq
    exact ((hpaired.2 p hp).accounted_next_iff (hpath p hp) (next_of_step ht)).mp hacc
  · intro hclean
    have hall := Run.invariant (P := fun t => t.Paired ∧ t.Accounted) (C := Clean)
      (fun t a t' h hc hs => ⟨h.1.next_step (next_of_step hs),
        (h.1.accounted_next_iff h.2 (next_of_step hs)).mpr hc⟩)
      hrun ⟨Paired.init, accounted_init⟩ hclean
    exact ⟨fun p hp => (hall.2 p hp).2, hall.1.2⟩

/-- RESP connections with read buffers of 16 to 64 bytes. -/
def smallOptions : ReactorOptions where
  connectionOpts := { readBufMinSize := 16, readBufMaxSize := 64 }
  protocolOpts := .resp

/-- The reply of a `PING` on the first connection. -/
def pong : Reply where
  connectionId := 0
  reply := bytesOf "+PONG\r\n"

/-- A client is accepted and gets a reply, which is written. -/
def answeredActions : List Action :=
  [.connect 0 true, .send [pong], .reply [true], .write 0 0]

/-- The run of `answeredActions` goes through to its end, and each of its steps is clean. -/
theorem isSome_answeredActions :
    (exec (restrict Clean (step smallOptions .standard)) init answeredActions).isSome = true := by
  decide +kernel

/-- The write of `answeredActions` is accepted and called back with success, so that nothing is
lost in any state. -/
theorem writes_accounted_iff_answered :
    ∃ path s, Run (step smallOptions .standard) init path s ∧
      path.map Prod.snd = answeredActions ∧ s.requests.deletes 0 = 1 ∧
      (∀ p ∈ path, p.1.Accounted) ∧ s.Accounted := by
  obtain ⟨path, hrun, hacts⟩ := Run.exec answeredActions .nil
    (Option.some_get isSome_answeredActions).symm
  obtain ⟨hrun, hclean⟩ := hrun.of_restrict
  exact ⟨path, _, hrun, hacts, by decide +kernel, (writes_accounted_iff hrun).mpr hclean⟩

/-- A client closes its end while a worker still has its command. The reply is taken up before
`on_close` runs. -/
def refusedActions : List Action :=
  [.connect 0 true, .readEnd 0 (-4095), .send [pong], .reply [false]]

/-- The run of `refusedActions` goes through to its end. -/
theorem isSome_refusedActions :
    (exec (step smallOptions .standard) init refusedActions).isSome = true := by
  decide +kernel

/-- The reply is written to a handle that is being closed, and `uv_write` refuses it. libuv has no
write then, and the request and the context of the reply are there for ever. -/
theorem context_lost :
    ∃ path s, Run (step smallOptions .standard) init path s ∧
      path.map Prod.snd = refusedActions ∧ s.inFlight = [] ∧ s.requests.Live 0 ∧
      s.contexts.Live 0 ∧ ¬ s.Accounted := by
  obtain ⟨path, hrun, hacts⟩ := Run.exec refusedActions .nil
    (Option.some_get isSome_refusedActions).symm
  have hempty : ((exec (step smallOptions .standard) init refusedActions).get
    isSome_refusedActions).inFlight = [] := by decide +kernel
  have hlive : ((exec (step smallOptions .standard) init refusedActions).get
    isSome_refusedActions).requests.Live 0 := by decide +kernel
  refine ⟨path, _, hrun, hacts, hempty, hlive, by decide +kernel, fun hacc => ?_⟩
  have hmem := (hacc.requests 0).mp hlive
  rw [hempty] at hmem
  exact nomatch hmem

end VectorEngine.ReactorLoop
