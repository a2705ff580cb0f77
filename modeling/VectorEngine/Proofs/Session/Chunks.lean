import VectorEngine.Proofs.Resp.Grammar
import VectorEngine.Proofs.Session.Step

/-!
# `VectorEngine.Proofs.Session.Chunks`: reads may end anywhere

After the bytes `R`, a session `Tracks` them when it has dispatched the commands that the
parser takes off `R`, and holds the rest as its data. `step_tracks` is the append law of `drain` at
one read, and `run_tracks` carries it along a run, up to a read that throws.

`chunking_independent` follows: what a connection has dispatched is a function of the bytes
received, however they were cut.
-/

set_option autoImplicit false

namespace VectorEngine

open VectorEngine.Resp
open VectorEngine.Stream

variable {A : Allocator}

/-- The bytes of a callback. -/
def ReadEvent.bytes : ReadEvent → ByteString
  | .data bytes => bytes
  | _ => []

/-- The bytes of the first read come first. -/
theorem received_cons (e : ReadEvent) (events : List ReadEvent) :
    received (e :: events) = e.bytes ++ received events := by
  cases e <;> rfl

/-- The bytes of two series of reads, one after the other. -/
theorem received_append (events events' : List ReadEvent) :
    received (events ++ events') = received events ++ received events' := by
  induction events with
  | nil => rfl
  | cons e events ih => rw [List.cons_append, received_cons, received_cons, ih, List.append_assoc]

namespace Session

variable {s : Session} {R : ByteString}

/-- The session has dispatched what the parser takes off `R`, and holds the rest. The tasks are
those that `RespTaskCreator` makes of the commands, in the order of the batches. -/
structure Tracks (A : Allocator) (R : ByteString) (s : Session) : Prop where
  ready : s.Ready
  parsed : ∃ cmds, (scanCommand A).drain R = .ok (cmds, s.data) ∧
    s.dispatched.flatten = cmds.map RespTaskCreator.create

/-- A session that starts tracks what it has received: nothing. -/
theorem start_tracks {id : ConnectionId} {minSize maxSize : Nat} (hmin : 0 < minSize)
    (hle : minSize ≤ maxSize) (hmax : maxSize ≤ 2 ^ 63) {conn : Connection}
    (hconn : Connection.init id minSize maxSize .resp = .ok conn) :
    (start conn).Tracks A [] := by
  obtain ⟨hready, hdata, -⟩ := start_ready hmin hle hmax hconn
  refine ⟨hready, [], ?_, rfl⟩
  rw [hdata]
  exact Scanner.drain_more rfl

/-- A callback whose bytes the parser accepts is tracked. On other bytes the session ends,
and dispatches nothing more. -/
theorem step_tracks (h : s.Tracks A R) {e : ReadEvent} (hallows : s.Allows e) :
    (s.step A e).Tracks A (R ++ e.bytes) ∨
      (∃ err, (scanCommand A).drain (R ++ e.bytes) = .error err) ∧
        (s.step A e).status ≠ .opened ∧ (s.step A e).dispatched = s.dispatched := by
  obtain ⟨cmds, hdrain, hdispatched⟩ := h.parsed
  cases e with
  | alloc suggestedSize =>
    obtain ⟨hready, hdata, hdisp, -⟩ := step_alloc A h.ready suggestedSize
    have hbytes : R ++ ReadEvent.bytes (.alloc suggestedSize) = R := List.append_nil R
    rw [hbytes]
    exact Or.inl ⟨hready, cmds, hdata ▸ hdrain, hdisp ▸ hdispatched⟩
  | idle =>
    have hbytes : R ++ ReadEvent.bytes .idle = R := List.append_nil R
    rw [hbytes, step_idle]
    exact Or.inl h
  | data bytes =>
    -- `R` and the new bytes parse exactly when the data and the new bytes do.
    have happend : (scanCommand A).drain (R ++ bytes)
        = Scanner.prepend cmds ((scanCommand A).drain (s.data ++ bytes)) :=
      Scanner.drain_append_of_ok (stable_scanCommand A) (consumes_scanCommand A) hdrain bytes
    cases hread : (scanCommand A).drain (s.data ++ bytes) with
    | ok q =>
      obtain ⟨new, r⟩ := q
      obtain ⟨hready, hdata, hdisp, -⟩ := step_data_ok h.ready hallows hread
      refine Or.inl ⟨hready, cmds ++ new, ?_, ?_⟩
      · rw [hdata]
        exact happend.trans (by rw [hread, Scanner.prepend_ok])
      · rw [hdisp, hdispatched, List.map_append]
    | error err =>
      have hend := step_data_error h.ready hallows hread
      exact Or.inr ⟨⟨err, happend.trans (by rw [hread, Scanner.prepend_error])⟩, hend⟩

/-- A run is tracked to its end, or to the callback before the last, which ends the
session. -/
theorem run_tracks (events : List ReadEvent) : ∀ {s : Session} {R : ByteString},
    s.Tracks A R → s.Admissible A events →
    (s.run A events).Tracks A (R ++ received events) ∨
      ∃ before e, events = before ++ [e] ∧
        (s.run A before).Tracks A (R ++ received before) ∧
        (∃ err, (scanCommand A).drain (R ++ received events) = .error err) ∧
        (s.run A events).status ≠ .opened ∧
        (s.run A events).dispatched = (s.run A before).dispatched := by
  induction events with
  | nil =>
    intro s R h _
    rw [received, List.append_nil]
    exact Or.inl h
  | cons e events ih =>
    intro s R h hadm
    rw [received_cons, ← List.append_assoc]
    rcases step_tracks h hadm.1 with htracks | ⟨herror, hclosed, hdisp⟩
    · rcases ih htracks hadm.2 with hend | ⟨before, e', rfl, hbefore, hrest⟩
      · exact Or.inl hend
      · refine Or.inr ⟨e :: before, e', rfl, ?_, hrest⟩
        rw [received_cons, ← List.append_assoc]
        exact hbefore
    · -- No callback follows the one that ended the session.
      have hnil := hadm.2.nil_of_closed hclosed
      subst hnil
      refine Or.inr ⟨[], e, rfl, ?_, ?_, hclosed, hdisp⟩
      · rw [received, List.append_nil]
        exact h
      · rw [received, List.append_nil]
        exact herror

end Session

open Session

/-- **Reads may end anywhere.** For a stream that the parser accepts, however it is cut, no read
closes the connection. What was dispatched is what the parser takes off the bytes received so far,
and the read buffer holds the rest. The invariant is that the session holds what draining the
bytes received so far leaves. One read is `drain_append`: to drain the rest with the new bytes is
to drain all of them. -/
theorem chunking_independent (A : Allocator) (S : ByteString) (hS : S.length < 2 ^ 64)
    (haccept : ∃ q, parse A S = .ok q) (id : ConnectionId) (minSize maxSize : Nat)
    (hmin : 0 < minSize) (hle : minSize ≤ maxSize) (hmax : maxSize ≤ 2 ^ 63)
    (conn : Connection) (hconn : Connection.init id minSize maxSize .resp = .ok conn)
    (events : List ReadEvent) (hadm : (start conn).Admissible A events)
    (hreceived : received events <+: S) :
    ((start conn).run A events).status = .opened ∧
      ∃ cmds n, parse A (received events) = .ok (cmds, n) ∧
        ((start conn).run A events).dispatched.flatten = cmds.map RespTaskCreator.create ∧
        ((start conn).run A events).conn.readBuf.data = (received events).drop n := by
  obtain ⟨x, hx⟩ := hreceived
  obtain ⟨⟨all, n⟩, hparse⟩ := haccept
  have hall := ((parse_ok_iff hS).mp hparse).2
  rw [← hx, List.length_append] at hS
  -- A prefix of an accepted stream is accepted.
  have hprefix : ∃ q, (scanCommand A).drain (received events) = .ok q := by
    rw [← hx] at hall
    obtain ⟨as, -, l', hl', -, -⟩ := Scanner.drain_ok_of_append (stable_scanCommand A)
      (consumes_scanCommand A) hall
    exact ⟨_, hl'⟩
  have htracks : ((start conn).run A events).Tracks A (received events) := by
    rcases run_tracks events (start_tracks hmin hle hmax hconn) hadm with
      htracks | ⟨before, e, -, -, ⟨err, herror⟩, -⟩
    · exact htracks
    · obtain ⟨q, hq⟩ := hprefix
      rw [List.nil_append, hq] at herror
      cases herror
  obtain ⟨cmds, hdrain, hdispatched⟩ := htracks.parsed
  obtain ⟨n, hn, hdata⟩ := parse_of_drain (by omega) hdrain
  exact ⟨htracks.ready.opened, cmds, n, hn, hdispatched, hdata⟩

/-- A `PING` that arrives in two reads of seven bytes, around an empty one, in a buffer of 8 to 64
bytes. The connection is still open. -/
theorem chunking_independent_ping :
    ∃ conn, Connection.init 0 8 64 .resp = .ok conn ∧
      ((start conn).run .ample [.alloc 8, .data (pingFrame.take 7), .idle, .alloc 16,
        .data (pingFrame.drop 7)]).status = .opened := by
  refine ⟨_, rfl, ?_⟩
  exact (chunking_independent .ample pingFrame (by decide)
    ⟨_, (by decide +kernel : _ = Except.ok ([ping], 14))⟩ 0 8 64 (by decide)
    (by decide) (by decide) _ rfl _ (by decide +kernel) ⟨[], by decide +kernel⟩).1

end VectorEngine
