import VectorEngine.Proofs.Resp.Grammar
import VectorEngine.Proofs.Session.Step

/-!
# `VectorEngine.Proofs.Session.Assertions`: no assertion on the read path fails

The assertions of `ReadBuffer` are preconditions. What they ask for is promised by libuv, for
`occupy`, and by the parser, for `dealloc`: it counts no more bytes than it was given, and it
counts some when it returns a command. `assertions_hold` puts the two together over any run
of callbacks. The bytes may be anything, and so may the suggested sizes.
-/

set_option autoImplicit false

namespace VectorEngine

open VectorEngine.Resp
open VectorEngine.Stream

namespace Session

variable {A : Allocator} {s : Session}

/-- No assertion has failed. -/
def Unfailed (s : Session) : Prop := ∀ condition, s.status ≠ .crashed (.assertion condition)

/-- The connection is open and keeps its invariant, or it is lost without a failed
assertion. -/
def Safe (s : Session) : Prop := s.Ready ∨ s.status ≠ .opened ∧ s.Unfailed

/-- A session that is open has not crashed on anything. -/
theorem Ready.unfailed (h : s.Ready) : s.Unfailed := by
  intro condition
  rw [h.opened]
  exact fun heq => nomatch heq

/-- A safe session is open or has ended without an assertion. -/
theorem Safe.unfailed (h : s.Safe) : s.Unfailed := by
  rcases h with h | ⟨-, h⟩
  · exact h.unfailed
  · exact h

/-- A closed connection is safe. -/
theorem safe_of_closing (h : s.status = .closing) : s.Safe := by
  refine Or.inr ⟨?_, fun condition => ?_⟩ <;> rw [h] <;> exact fun heq => nomatch heq

/-- A read fires no assertion, whatever the bytes. -/
theorem Ready.read_safe (h : s.Ready) {bytes : ByteString}
    (hallows : s.Allows (.data bytes)) : (s.step A (.data bytes)).Safe := by
  cases hdrain : (scanCommand A).drain (s.data ++ bytes) with
  | ok q =>
    obtain ⟨cmds, r⟩ := q
    exact Or.inl (step_data_ok h hallows hdrain).1
  | error e =>
    -- The parser threw, and before that nothing was taken out of the buffer.
    have hraised : e.Raised := (scanCommand_raises A).drain (consumes_scanCommand A) hdrain
    obtain ⟨b, -, hdata, -, hstep⟩ := step_data_eq (A := A) h hallows
    rw [hdata, hdrain] at hstep
    rw [hstep]
    cases hraised with
    | error what => exact safe_of_closing rfl
    | std x => exact Or.inr ⟨(fun heq => nomatch heq), fun condition heq => nomatch heq⟩
    | wildRead => exact Or.inr ⟨(fun heq => nomatch heq), fun condition heq => nomatch heq⟩

/-- A failed read closes the connection. -/
theorem status_failed (A : Allocator) (s : Session) {nread : Int} (hneg : nread < 0) :
    (s.handle A (.failed nread)).status = .closing := by
  have hread : s.conn.onRead A nread = .ok (s.conn, [.handleClose]) := by
    unfold Connection.onRead
    rw [if_neg (by omega), if_pos hneg]
  show (s.afterRead (s.conn.onRead A nread)).status = .closing
  rw [hread]
  rfl

/-- A callback keeps the session safe. -/
theorem Safe.handle (h : s.Safe) {c : Callback} (hc : s.Permits c) : (s.handle A c).Safe := by
  have hready : s.Ready := h.resolve_right fun hlost => hlost.1 hc.opened
  cases c with
  | event e =>
    cases e with
    | alloc suggestedSize => exact Or.inl (step_alloc A hready suggestedSize).1
    | data bytes => exact hready.read_safe hc
    | idle => exact Or.inl hready
  | failed nread => exact safe_of_closing (status_failed A s hc.2)

/-- A run of callbacks keeps the session safe. -/
theorem Safe.run (cs : List Callback) :
    ∀ {s : Session}, s.Safe → s.Permitted A cs → (cs.foldl (Session.handle A) s).Safe := by
  induction cs with
  | nil => exact fun h _ => h
  | cons c cs ih => exact fun h hcs => ih (h.handle hcs.1) hcs.2

end Session

/-- **No assertion on the read path can fire.** On a new connection between any limits, after
any callbacks that libuv may make, no assertion has failed: not the ones of the constructor,
of `alloc`, `occupy` and `dealloc`, and not the one of `on_read`. -/
theorem assertions_hold (A : Allocator) (id : ConnectionId) {minSize maxSize : Nat}
    (hmin : 0 < minSize) (hle : minSize ≤ maxSize) (hmax : maxSize ≤ 2 ^ 63) :
    ∃ conn, Connection.init id minSize maxSize .resp = .ok conn ∧
      ∀ cs, (Session.start conn).Permitted A cs → ∀ condition,
        (cs.foldl (Session.handle A) (.start conn)).status
          ≠ .crashed (.assertion condition) := by
  have hconn : Connection.init id minSize maxSize .resp
      = .ok { id := id, protocol := .resp,
              readBuf := { minSize := minSize, maxSize := maxSize, size := 0,
                           buf := List.replicate minSize 0 } } := by
    unfold Connection.init
    rw [ReadBuffer.init_ok hmin hle]
    rfl
  refine ⟨_, hconn, fun cs hcs => ?_⟩
  have hstart := (Session.start_ready hmin hle hmax hconn).1
  exact (Session.Safe.run cs (Or.inl hstart) hcs).unfailed

/-- A `PING`, the start of another request, a read without bytes, room for nothing, and then the
end of the stream. No assertion has failed behind these five callbacks. -/
theorem assertions_hold_ping :
    ∃ conn, Connection.init 1 16 64 .resp = .ok conn ∧ ∀ condition,
      ([Callback.event (.alloc 65536), .event (.data (pingFrame ++ [42])), .event .idle,
        .event (.alloc 0), .failed (-4095)].foldl (Session.handle .standard) (.start conn)).status
          ≠ .crashed (.assertion condition) := by
  obtain ⟨conn, hconn, hrun⟩ :=
    @assertions_hold .standard 1 16 64 (by decide) (by decide) (by decide)
  cases hconn
  exact ⟨_, rfl, hrun _ (by decide +kernel)⟩

end VectorEngine
