import VectorEngine.Connection
import VectorEngine.Proofs.Resp.Loop

/-!
# `VectorEngine.Proofs.Session.Step`: one callback

A session is `Ready` while its connection is open and its read buffer keeps its invariant.
Each callback is described once. `step_alloc` and `step_idle` leave the data alone.
`step_data_ok` and `step_data_error` say what a read does, in terms of `drain` on the data
and the new bytes.
-/

set_option autoImplicit false

namespace VectorEngine

open VectorEngine.Resp
open VectorEngine.Stream

variable {A : Allocator}

namespace Connection

/-- What `_parse_request` answers, in terms of `drain`. -/
theorem parseRequest_eq (conn : Connection) (hresp : conn.protocol = .resp)
    {buffer : ByteString} (hlen : buffer.length < 2 ^ 64) :
    conn.parseRequest A buffer =
      match (scanCommand A).drain buffer with
      | .ok (cmds, r) => .ok (cmds.map RespTaskCreator.create, buffer.length - r.length)
      | .error e => .error e := by
  unfold parseRequest RequestParserCreator.parse
  rw [hresp]
  show (Resp.parse A buffer >>= _) = _
  rw [parse_eq_drain A hlen]
  cases (scanCommand A).drain buffer with
  | error e => rfl
  | ok q => rfl

/-- `on_alloc` passes on what the buffer hands out. -/
theorem onAlloc_ok {conn : Connection} {suggestedSize base len : Nat} {b : ReadBuffer}
    (hb : conn.readBuf.alloc suggestedSize = .ok (b, base, len)) :
    conn.onAlloc suggestedSize = .ok ({ conn with readBuf := b }, base, len) := by
  unfold onAlloc
  rw [hb]
  rfl

/-- A read up to the parse: the bytes have become data. -/
theorem onRead_occupied {conn : Connection} (h : conn.readBuf.Wf)
    (hresp : conn.protocol = .resp) {bytes : ByteString} (hne : bytes ≠ [])
    (hroom : conn.readBuf.size + bytes.length ≤ conn.readBuf.buf.length) :
    ∃ b : ReadBuffer, b.Wf ∧ b.data = conn.readBuf.data ++ bytes ∧
      b.maxSize = conn.readBuf.maxSize ∧
      onRead A { conn with readBuf := conn.readBuf.write conn.readBuf.size bytes } bytes.length
        = (match (scanCommand A).drain b.data with
          | .ok (cmds, r) =>
            if cmds.map RespTaskCreator.create ≠ [] then do
              ReadBuffer.check "len > 0" (0 < b.data.length - r.length)
              let buffer ← b.dealloc (b.data.length - r.length)
              return ({ conn with readBuf := buffer },
                [.dispatch conn.id (cmds.map RespTaskCreator.create)])
            else .ok ({ conn with readBuf := b }, [])
          | .error (.error _) => .ok ({ conn with readBuf := b }, [.handleClose])
          | .error e => .error e) := by
  obtain ⟨b, hb, hwf, hdata, -, hmax⟩ := ReadBuffer.occupy_spec h hroom
  have hpos := List.length_pos_of_ne_nil hne
  have hlen : b.data.length < 2 ^ 64 := by
    have := hwf.size_le_max
    have := hwf.max_le
    rw [hwf.length_data]
    omega
  refine ⟨b, hwf, hdata, hmax, ?_⟩
  -- The parser is given the data with the new bytes behind it.
  have hparse := parseRequest_eq (A := A) { conn with readBuf := b } hresp hlen
  unfold onRead
  rw [if_pos (by omega), Int.toNat_natCast]
  show (ReadBuffer.occupy (conn.readBuf.write conn.readBuf.size bytes) bytes.length >>= _) = _
  rw [hb]
  cases hdrain : (scanCommand A).drain b.data with
  | error e =>
    rw [hdrain] at hparse
    -- An `Error` is caught in `on_read`, and any other exception leaves it.
    cases e <;> simp only [bind, Except.bind, pure, Except.pure, hparse]
  | ok q =>
    rw [hdrain] at hparse
    simp only [bind, Except.bind, pure, Except.pure, hparse]

end Connection

namespace Session

/-- The connection is open, and its read buffer is well formed. The room that the last `on_alloc`
handed out is still there. So `on_alloc` and `on_read` can be called on it without a failing
assertion, and both lead to such a session again or end it. -/
structure Ready (s : Session) : Prop where
  opened : s.status = .opened
  resp : s.conn.protocol = .resp
  wf : s.conn.readBuf.Wf
  room : s.grant = 0 ∨
    s.base = s.conn.readBuf.size ∧ s.base + s.grant ≤ s.conn.readBuf.buf.length

/-- The unparsed data of the connection. -/
def data (s : Session) : ByteString := s.conn.readBuf.data

/-- `read_buf_max_size` -/
def limit (s : Session) : Nat := s.conn.readBuf.maxSize

variable {s : Session}

/-- What libuv may write fits below the limit. -/
theorem Ready.length_read_le (h : s.Ready) {bytes : ByteString}
    (hallows : s.Allows (.data bytes)) : (s.data ++ bytes).length ≤ s.limit := by
  have hpos := List.length_pos_of_ne_nil hallows.2.1
  have hgrant := hallows.2.2
  obtain ⟨hbase, hroom⟩ := h.room.resolve_left (by omega)
  have hlemax := h.wf.le_max
  have hsize := h.wf.length_data
  show (s.conn.readBuf.data ++ bytes).length ≤ s.conn.readBuf.maxSize
  rw [List.length_append]
  omega

/-- A new session is ready, and has no data. -/
theorem start_ready {id : ConnectionId} {minSize maxSize : Nat} (hmin : 0 < minSize)
    (hle : minSize ≤ maxSize) (hmax : maxSize ≤ 2 ^ 63) {conn : Connection}
    (hconn : Connection.init id minSize maxSize .resp = .ok conn) :
    (start conn).Ready ∧ (start conn).data = [] ∧ (start conn).limit = maxSize := by
  obtain ⟨b, hb, hwf, hdata, hlimit⟩ := ReadBuffer.init_spec hmin hle hmax
  have hconn' : conn = { id := id, readBuf := b, protocol := .resp } := by
    unfold Connection.init at hconn
    rw [hb] at hconn
    cases hconn
    rfl
  subst hconn'
  exact ⟨⟨rfl, rfl, hwf, Or.inl rfl⟩, hdata, hlimit⟩

/-! ### `on_alloc` -/

/-- `on_alloc` hands out room, unless the data has reached the limit. -/
theorem onAlloc_spec (h : s.Ready) {suggestedSize : Nat} (hpos : 0 < suggestedSize) :
    ∃ conn len, s.conn.onAlloc suggestedSize = .ok (conn, s.conn.readBuf.size, len) ∧
      (len = 0 ↔ s.data.length = s.limit) := by
  obtain ⟨b, hb, hwf, -, hsize, -, hlimit, henough⟩ := ReadBuffer.alloc_spec h.wf suggestedSize
  have hle := hwf.size_le
  have hlemax := hwf.le_max
  have hmax := h.wf.size_le_max
  refine ⟨{ s.conn with readBuf := b }, b.buf.length - s.conn.readBuf.size,
    Connection.onAlloc_ok hb, ?_⟩
  unfold data limit
  rw [h.wf.length_data]
  omega

/-- `on_alloc` hands out room and leaves the data, the dispatched commands and the limit as they
are. -/
theorem step_alloc (A : Allocator) (h : s.Ready) (suggestedSize : Nat) :
    (s.step A (.alloc suggestedSize)).Ready ∧
      (s.step A (.alloc suggestedSize)).data = s.data ∧
      (s.step A (.alloc suggestedSize)).dispatched = s.dispatched ∧
      (s.step A (.alloc suggestedSize)).limit = s.limit := by
  obtain ⟨b, hb, hwf, hdata, hsize, -, hmax, -⟩ := ReadBuffer.alloc_spec h.wf suggestedSize
  have hstep : s.step A (.alloc suggestedSize)
      = { s with conn := { s.conn with readBuf := b }, base := s.conn.readBuf.size,
                 grant := b.buf.length - s.conn.readBuf.size } := by
    unfold step
    simp only [Connection.onAlloc_ok hb]
  have hle := hwf.size_le
  rw [hstep]
  refine ⟨⟨h.opened, h.resp, hwf, Or.inr ⟨hsize.symm, ?_⟩⟩, hdata, rfl, hmax⟩
  show s.conn.readBuf.size + (b.buf.length - s.conn.readBuf.size) ≤ b.buf.length
  omega

/-! ### `on_read` -/

/-- `on_read` with `nread == 0` does nothing. -/
theorem step_idle (A : Allocator) (s : Session) : s.step A .idle = s := rfl

/-- A read, given what `drain` makes of the data. -/
theorem step_data_eq (h : s.Ready) {bytes : ByteString} (hallows : s.Allows (.data bytes)) :
    ∃ b : ReadBuffer, b.Wf ∧ b.data = s.data ++ bytes ∧ b.maxSize = s.limit ∧
      s.step A (.data bytes) = { s with grant := 0 }.afterRead
        (match (scanCommand A).drain b.data with
          | .ok (cmds, r) =>
            if cmds.map RespTaskCreator.create ≠ [] then do
              ReadBuffer.check "len > 0" (0 < b.data.length - r.length)
              let buffer ← b.dealloc (b.data.length - r.length)
              return ({ s.conn with readBuf := buffer },
                [.dispatch s.conn.id (cmds.map RespTaskCreator.create)])
            else .ok ({ s.conn with readBuf := b }, [])
          | .error (.error _) => .ok ({ s.conn with readBuf := b }, [.handleClose])
          | .error e => .error e) := by
  obtain ⟨-, hne, hgrant⟩ := hallows
  have hpos := List.length_pos_of_ne_nil hne
  obtain ⟨hbase, hroom⟩ := h.room.resolve_left (by omega)
  obtain ⟨b, hwf, hdata, hmax, hread⟩ :=
    Connection.onRead_occupied (A := A) h.wf h.resp hne (by omega)
  refine ⟨b, hwf, hdata, hmax, ?_⟩
  unfold step
  rw [hbase]
  simp only [hread]

/-- A read that parses dispatches the commands, and keeps what is left of the data. -/
theorem step_data_ok (h : s.Ready) {bytes : ByteString} (hallows : s.Allows (.data bytes))
    {cmds : List RespCommand} {r : List Byte}
    (hdrain : (scanCommand A).drain (s.data ++ bytes) = .ok (cmds, r)) :
    (s.step A (.data bytes)).Ready ∧ (s.step A (.data bytes)).data = r ∧
      (s.step A (.data bytes)).dispatched.flatten
        = s.dispatched.flatten ++ cmds.map RespTaskCreator.create ∧
      (s.step A (.data bytes)).limit = s.limit := by
  obtain ⟨b, hwf, hdata, hmax, hstep⟩ := step_data_eq (A := A) h hallows
  obtain ⟨u, hu⟩ := Scanner.drain_suffix (consumes_scanCommand A) hdrain
  have hiff := Scanner.drain_length_lt_iff (consumes_scanCommand A) hdrain
  rw [← hdata] at hdrain hu hiff
  have hlen := congrArg List.length hu
  rw [List.length_append] at hlen
  rw [hdrain] at hstep
  by_cases hcmds : cmds = []
  · -- Nothing is complete yet, and all of the data stays.
    have hnil : u = [] := by
      have hnot : ¬ r.length < b.data.length := fun hlt => hiff.mp hlt hcmds
      exact List.length_eq_zero_iff.mp (by omega)
    have hstep' : s.step A (.data bytes)
        = { s with conn := { s.conn with readBuf := b }, grant := 0 } := by
      rw [hstep, hcmds]
      rfl
    rw [hstep', hcmds]
    refine ⟨⟨h.opened, h.resp, hwf, Or.inl rfl⟩, ?_, by simp, hmax⟩
    show b.data = r
    rw [hu, hnil, List.nil_append]
  · have hlt := hiff.mpr hcmds
    have hsize := hwf.length_data
    -- The length that the parser counted is positive and within the data, as `dealloc` asserts.
    obtain ⟨b', hb', hwf', hdata', -, hmax'⟩ :=
      ReadBuffer.dealloc_spec hwf (b.data.length - r.length) (by omega) (by omega)
    have hstep' : s.step A (.data bytes)
        = { s with conn := { s.conn with readBuf := b' }, grant := 0,
                   dispatched := s.dispatched ++ [cmds.map RespTaskCreator.create] } := by
      rw [hstep]
      show afterRead _ (if cmds.map RespTaskCreator.create ≠ [] then _ else _) = _
      rw [if_pos (by simp [hcmds]), ReadBuffer.check_ok (by omega)]
      show afterRead _ (b.dealloc _ >>= _) = _
      rw [hb']
      rfl
    rw [hstep']
    refine ⟨⟨h.opened, h.resp, hwf', Or.inl rfl⟩, ?_, by simp, hmax'.trans hmax⟩
    show b'.data = r
    -- What is removed is what the commands were spelled with.
    have hu' : b.data.length - r.length = u.length := by omega
    rw [hdata', hu']
    conv => lhs; rw [hu]
    exact List.drop_left

/-- A read that throws dispatches nothing. -/
theorem step_data_error (h : s.Ready) {bytes : ByteString} (hallows : s.Allows (.data bytes))
    {e : Abrupt} (hdrain : (scanCommand A).drain (s.data ++ bytes) = .error e) :
    (s.step A (.data bytes)).status ≠ .opened ∧
      (s.step A (.data bytes)).dispatched = s.dispatched := by
  obtain ⟨b, -, hdata, -, hstep⟩ := step_data_eq (A := A) h hallows
  rw [hdata, hdrain] at hstep
  rw [hstep]
  cases e <;> exact ⟨by simp [afterRead, applyEffect], rfl⟩

/-! ### Runs -/

/-- No callback follows the close. -/
theorem Admissible.nil_of_closed {events : List ReadEvent} (h : s.Admissible A events)
    (hclosed : s.status ≠ .opened) : events = [] := by
  match events, h with
  | [], _ => rfl
  | .alloc _ :: _, ⟨hallows, _⟩ => exact absurd hallows.1 hclosed
  | .data _ :: _, ⟨hallows, _⟩ => exact absurd hallows.1 hclosed
  | .idle :: _, ⟨hallows, _⟩ => exact absurd hallows hclosed

end Session

end VectorEngine
