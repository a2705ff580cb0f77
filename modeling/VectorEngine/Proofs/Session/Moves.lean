import VectorEngine.Proofs.Resp.Grammar
import VectorEngine.Proofs.Session.Callback

/-!
# `VectorEngine.Proofs.Session.Moves`: what `dealloc` costs a connection

`dealloc` copies what is left of the data to the front, every time a read completes a request.
`moved_le_received`: over a whole connection it copies no more bytes than were received.

Between two reads the data is the start of one request, which the parser finds incomplete. A
read that completes it leaves a rest inside the bytes that have just come, since whether a
request is complete does not depend on what follows it. So each byte is copied at most once, in
the read that brought it. `Between` is that invariant, and `moved_le` the step.
-/

set_option autoImplicit false

namespace VectorEngine

open VectorEngine.Resp
open VectorEngine.Stream

variable {A : Allocator}

/-- A complete request at the front is taken whatever follows it. -/
theorem local_scanCommand (A : Allocator) : (scanCommand A).Local := by
  refine (scanCommand_sound A).isLocal fun l cmd r hdone => ?_
  obtain ⟨hcountable, hgranted⟩ := scanCommand_done_granted hdone
  exact scanCommand_complete hcountable hgranted

/-- The number of bytes that `dealloc` copies during an `on_read`. -/
def Connection.moved (A : Allocator) (conn : Connection) (nread : Int) : Nat :=
  if 0 < nread then
    match conn.readBuf.occupy nread.toNat with
    | .ok buffer =>
      match conn.parseRequest A buffer.data with
      | .ok (tasks, len) => if tasks ≠ [] then buffer.size - len else 0
      | .error _ => 0
    | .error _ => 0
  else 0

namespace Session

variable {s : Session} {c : Callback}

/-- The number of bytes that `dealloc` copies during a callback. -/
def moved (A : Allocator) (s : Session) (c : Callback) : Nat :=
  match s.readOf c with
  | some (conn, nread) => conn.moved A nread
  | none => 0

/-- The number of bytes that `dealloc` copies during the callbacks. -/
def movedAlong (A : Allocator) : Session → List Callback → Nat
  | _, [] => 0
  | s, c :: cs => s.moved A c + movedAlong A (s.handle A c) cs

/-- A session between two callbacks: open, with the start of a request as its data. -/
structure Between (A : Allocator) (s : Session) : Prop where
  ready : s.Ready
  incomplete : scanCommand A s.data = .more

/-- What a read copies is what the parser leaves, if it takes something. -/
theorem moved_data (h : s.Ready) {bytes : ByteString} (hallows : s.Allows (.data bytes)) :
    s.moved A (.event (.data bytes)) =
      match (scanCommand A).drain (s.data ++ bytes) with
      | .ok (cmds, r) => if cmds ≠ [] then r.length else 0
      | .error _ => 0 := by
  obtain ⟨-, hne, hgrant⟩ := hallows
  have hpos := List.length_pos_of_ne_nil hne
  obtain ⟨hbase, hroom⟩ := h.room.resolve_left (by omega)
  have hfits : s.conn.readBuf.size + bytes.length ≤ s.conn.readBuf.buf.length := by omega
  obtain ⟨b, hb, hwf, hdata, -, -⟩ := ReadBuffer.occupy_spec h.wf hfits
  have hsize := hwf.length_data
  have hlen : b.data.length < 2 ^ 64 := by
    have hle := hwf.size_le_max
    have hmax := hwf.max_le
    omega
  have hparse := Connection.parseRequest_eq (A := A)
    { s.conn with readBuf := s.conn.readBuf.write s.conn.readBuf.size bytes } h.resp hlen
  have hdata : b.data = s.data ++ bytes := hdata
  show Connection.moved A { s.conn with readBuf := s.conn.readBuf.write s.base bytes }
    bytes.length = _
  unfold Connection.moved
  rw [hbase, if_pos (by omega), Int.toNat_natCast, hb]
  rw [hdata] at hparse hsize
  simp only [hdata, hparse]
  cases hdrain : (scanCommand A).drain (s.data ++ bytes) with
  | error e => rfl
  | ok q =>
    obtain ⟨cmds, r⟩ := q
    obtain ⟨u, hu⟩ := Scanner.drain_suffix (consumes_scanCommand A) hdrain
    have hsplit : (s.data ++ bytes).length = u.length + r.length := by
      rw [hu, List.length_append]
    have hrest : b.size - ((s.data ++ bytes).length - r.length) = r.length := by omega
    simp only [hrest, ne_eq, List.map_eq_nil_iff]

/-- A callback copies no more bytes than it brings. -/
theorem Between.moved_le (h : s.Between A) (hc : s.Permits c) :
    s.moved A c ≤ c.bytes.length := by
  cases c with
  | failed nread =>
    have hneg : ¬ 0 < nread := by
      have hlt := hc.2
      omega
    show Connection.moved A s.conn nread ≤ _
    rw [Connection.moved, if_neg hneg]
    exact Nat.zero_le _
  | event e =>
    cases e with
    | alloc suggestedSize => exact Nat.zero_le _
    | idle => exact Nat.zero_le _
    | data bytes =>
      rw [moved_data h.ready hc]
      cases hdrain : (scanCommand A).drain (s.data ++ bytes) with
      | error e => exact Nat.zero_le _
      | ok q =>
        obtain ⟨cmds, r⟩ := q
        by_cases hcmds : cmds = []
        · simp only [hcmds, ne_eq, not_true, if_false]
          exact Nat.zero_le _
        · simp only [ne_eq, hcmds, not_false_eq_true, if_true]
          exact ((local_scanCommand A).rest_lt (consumes_scanCommand A) h.incomplete hdrain
            hcmds).le

/-- A callback leaves the session between two callbacks, or ends it. -/
theorem Between.handle (h : s.Between A) (hc : s.Permits c) :
    (s.handle A c).Between A ∨ (s.handle A c).status ≠ .opened := by
  rcases outcome_of_ready (A := A) h.ready hc with
    ⟨hready, hdata, -, -⟩ | ⟨cmds, hready, hdrain, -⟩ | ⟨hstatus, -⟩
  · exact Or.inl ⟨hready, hdata ▸ h.incomplete⟩
  · exact Or.inl ⟨hready, Scanner.drain_rest (consumes_scanCommand A) hdrain⟩
  · exact Or.inr hstatus

/-- The callbacks copy no more bytes than they bring. -/
theorem Between.movedAlong_le : ∀ (cs : List Callback) {s : Session}, s.Between A →
    s.Permitted A cs → s.movedAlong A cs ≤ (cs.flatMap Callback.bytes).length := by
  intro cs
  induction cs with
  | nil => exact fun _ _ => Nat.zero_le _
  | cons c cs ih =>
    intro s h hcs
    have hfirst := h.moved_le hcs.1
    rw [List.flatMap_cons, List.length_append, movedAlong]
    rcases h.handle hcs.1 with hnext | hclosed
    · have hrest := ih hnext hcs.2
      omega
    · -- Nothing follows the callback that ends the session.
      cases cs with
      | nil => exact Nat.le_trans (Nat.le_of_eq (Nat.add_zero _)) (by omega)
      | cons c' cs => exact absurd hcs.2.1.opened hclosed

end Session

/-- **`dealloc` copies each byte at most once.** On a new connection between any limits, over any
callbacks that libuv may make: the bytes that `dealloc` copies to the front are together no more
than the bytes received, however they were cut. What a read copies is what is left behind the
requests that it has completed. The last of them ended inside the bytes of this read, because the
data was incomplete before, and so no more is left than the read has brought. -/
theorem moved_le_received (A : Allocator) (id : ConnectionId) {minSize maxSize : Nat}
    (hmin : 0 < minSize) (hle : minSize ≤ maxSize) (hmax : maxSize ≤ 2 ^ 63)
    {conn : Connection} (hconn : Connection.init id minSize maxSize .resp = .ok conn)
    (cs : List Callback) (hcs : (Session.start conn).Permitted A cs) :
    (Session.start conn).movedAlong A cs ≤ (cs.flatMap Callback.bytes).length := by
  obtain ⟨hready, hdata, -⟩ := Session.start_ready hmin hle hmax hconn
  refine Session.Between.movedAlong_le cs ⟨hready, ?_⟩ hcs
  rw [hdata]
  rfl

/-- A `PING` and the start of the next one arrive together, and then the rest and another. -/
def pingCallbacks : List Callback :=
  [.event (.alloc 64), .event (.data (pingFrame ++ pingFrame.take 9)), .event .idle,
    .event (.alloc 64), .event (.data (pingFrame.drop 9 ++ pingFrame.take 3)), .failed (-4095)]

/-- In the callbacks of the example some bytes are moved, and no more than were received. -/
theorem moved_le_received_ping :
    ∃ conn, Connection.init 1 16 64 .resp = .ok conn ∧
      0 < (Session.start conn).movedAlong .ample pingCallbacks ∧
      (Session.start conn).movedAlong .ample pingCallbacks
        ≤ (pingCallbacks.flatMap Callback.bytes).length := by
  refine ⟨_, rfl, by decide +kernel, ?_⟩
  exact @moved_le_received .ample 1 16 64 (by decide) (by decide) (by decide) _ rfl
    pingCallbacks (by decide +kernel)

end VectorEngine
