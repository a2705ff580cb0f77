import VectorEngine.Proofs.Service
import VectorEngine.Proofs.Session.Assertions
import VectorEngine.Server

/-!
# `VectorEngine.Proofs.Session.Callback`: what a callback asks for

`Step` says what a callback leaves of the data, and what it adds to the tasks dispatched. Here
the same is said of the effects that the callback returns, for the callbacks that libuv may
make. `Outcome` has one case for each kind of end, and `outcome_of_ready` says that there are
no others. `status_event` says what becomes of the connection, and of the process.
-/

set_option autoImplicit false

namespace VectorEngine.Session

open VectorEngine.Resp
open VectorEngine.Stream

variable {A : Allocator} {s : Session} {c : Callback}

/-- A session keeps the id of its connection. -/
theorem id_handle (A : Allocator) (s : Session) (c : Callback) :
    (s.handle A c).conn.id = s.conn.id := by
  cases hread : s.readOf c with
  | none =>
    obtain ⟨suggestedSize, rfl⟩ : ∃ suggestedSize, c = .event (.alloc suggestedSize) := by
      cases c with
      | event e =>
        cases e with
        | alloc suggestedSize => exact ⟨suggestedSize, rfl⟩
        | data bytes => cases hread
        | idle => cases hread
      | failed nread => cases hread
    show (s.step A (.alloc suggestedSize)).conn.id = _
    cases halloc : s.conn.onAlloc suggestedSize with
    | error e => rw [Session.step, halloc]
    | ok out =>
      rw [Session.step, halloc]
      exact Connection.id_onAlloc halloc
  | some read =>
    obtain ⟨conn, nread⟩ := read
    obtain ⟨grant, hhandle, hid⟩ := handle_read (A := A) hread
    rw [hhandle]
    cases hout : conn.onRead A nread with
    | error e => rfl
    | ok out =>
      obtain ⟨conn', effects⟩ := out
      obtain ⟨hid', heffects⟩ := Connection.onRead_cases hout
      rcases heffects with rfl | rfl | ⟨tasks, rfl⟩ <;> exact hid'.trans hid

/-- The effect that dispatches the commands, if there are any. -/
def dispatchOf (id : ConnectionId) (cmds : List RespCommand) : List Effect :=
  if cmds = [] then [] else [.dispatch id (cmds.map RespTaskCreator.create)]

/-- A call of `on_read` that ends the process asks for nothing. -/
theorem effects_error {conn : Connection} {nread : Int} {e : Abrupt}
    (h : s.readOf c = some (conn, nread)) (hout : conn.onRead A nread = .error e) :
    s.effects A c = [] := by
  rw [Session.effects, h]
  simp only [hout]

/-- What a read asks for, given what `drain` makes of the data. -/
theorem effects_data (h : s.Ready) {bytes : ByteString} (hallows : s.Allows (.data bytes)) :
    s.effects A (.event (.data bytes)) =
      match (scanCommand A).drain (s.data ++ bytes) with
      | .ok (cmds, _) => dispatchOf s.conn.id cmds
      | .error (.error _) => [.handleClose]
      | .error _ => [] := by
  obtain ⟨-, hne, hgrant⟩ := hallows
  have hpos := List.length_pos_of_ne_nil hne
  obtain ⟨hbase, hroom⟩ := h.room.resolve_left (by omega)
  obtain ⟨b, hwf, hdata, -, hread⟩ :=
    Connection.onRead_occupied (A := A) h.wf h.resp hne (by omega)
  have hcall : s.readOf (.event (.data bytes)) = some
      ({ s.conn with readBuf := s.conn.readBuf.write s.conn.readBuf.size bytes },
        (bytes.length : Int)) := by
    rw [← hbase]
    rfl
  have hdata : b.data = s.data ++ bytes := hdata
  rw [hdata] at hread
  cases hdrain : (scanCommand A).drain (s.data ++ bytes) with
  | error e =>
    rw [hdrain] at hread
    cases e with
    | error msg => exact effects_read hcall hread
    | _ => exact effects_error hcall hread
  | ok q =>
    obtain ⟨cmds, r⟩ := q
    rw [hdrain] at hread
    simp only [dispatchOf]
    by_cases hcmds : cmds = []
    · subst hcmds
      exact effects_read hcall hread
    · -- The commands take something off the data, so `dealloc` succeeds.
      have hlt := (Scanner.drain_length_lt_iff (consumes_scanCommand A) hdrain).mpr hcmds
      have hsize := hwf.length_data
      rw [hdata] at hsize
      obtain ⟨b', hb', -⟩ := ReadBuffer.dealloc_spec hwf ((s.data ++ bytes).length - r.length)
        (by omega) (by omega)
      replace hread := hread.trans (if_pos (by simpa using hcmds))
      rw [ReadBuffer.check_ok (by omega)] at hread
      simp only [bind, Except.bind, hb', pure, Except.pure] at hread
      rw [if_neg hcmds]
      exact effects_read hcall hread

/-- How a callback on an open connection ends. It brings nothing, or its bytes are parsed and what
is complete is dispatched, or the connection is lost. -/
inductive Outcome (A : Allocator) (s : Session) (c : Callback) : Prop where
  /-- It brings no bytes, and changes nothing that counts. -/
  | quiet (hready : (s.handle A c).Ready) (hdata : (s.handle A c).data = s.data)
      (hbytes : c.bytes = []) (heffects : s.effects A c = [])
  /-- The parser takes commands off the data, and they are dispatched. -/
  | parsed (cmds : List RespCommand) (hready : (s.handle A c).Ready)
      (hdrain : (scanCommand A).drain (s.data ++ c.bytes) = .ok (cmds, (s.handle A c).data))
      (heffects : s.effects A c = dispatchOf s.conn.id cmds)
  /-- The connection is closed, and nothing is dispatched. -/
  | closed (hstatus : (s.handle A c).status ≠ .opened)
      (heffects : s.effects A c = [] ∨ s.effects A c = [.handleClose])

/-- There is no other end. -/
theorem outcome_of_ready (h : s.Ready) (hpermits : s.Permits c) : s.Outcome A c := by
  cases c with
  | event e =>
    cases e with
    | alloc suggestedSize =>
      obtain ⟨hready, hdata, -⟩ := step_alloc A h suggestedSize
      -- Room is handed out, and the data stays.
      exact .quiet hready hdata rfl rfl
    | idle => exact .quiet h rfl rfl rfl
    | data bytes =>
      have heffects := effects_data (A := A) h hpermits
      cases hdrain : (scanCommand A).drain (s.data ++ bytes) with
      | ok q =>
        obtain ⟨cmds, r⟩ := q
        obtain ⟨hready, hdata, -⟩ := step_data_ok (A := A) h hpermits hdrain
        rw [hdrain] at heffects
        have hdata : (s.handle A (.event (.data bytes))).data = r := hdata
        exact .parsed cmds hready (by rw [hdata]; exact hdrain) heffects
      | error e =>
        obtain ⟨hstatus, -⟩ := step_data_error (A := A) h hpermits hdrain
        rw [hdrain] at heffects
        refine .closed hstatus ?_
        rw [heffects]
        cases e <;> simp
  | failed nread =>
    -- A negative `nread` closes the connection, without a look at the buffer.
    have hread : s.conn.onRead A nread = .ok (s.conn, [.handleClose]) := by
      unfold Connection.onRead
      have hneg := hpermits.2
      rw [if_neg (by omega), if_pos hneg]
    refine .closed ?_ (Or.inr ?_)
    · rw [status_failed A s hpermits.2]
      exact fun heq => nomatch heq
    · exact effects_read (show s.readOf (.failed nread) = some (s.conn, nread) from rfl) hread

/-! ### What becomes of the connection -/

/-- `on_read` catches an `Error` and closes the connection. Another exception ends the process. -/
def statusAfter {α : Type} : Except Abrupt α → Status
  | .ok _ => .opened
  | .error (.error _) => .closing
  | .error e => .crashed e

/-- A connection stays open just if its callback has returned. -/
theorem statusAfter_opened_iff {α : Type} {out : Except Abrupt α} :
    statusAfter out = .opened ↔ ∃ q, out = .ok q := by
  cases out with
  | ok q => simp [statusAfter]
  | error e => cases e <;> simp [statusAfter]

/-- After a callback that is not a failed read, the parser decides. When there are no new bytes,
it has nothing to throw on. -/
theorem status_event (h : s.Ready) (hmore : scanCommand A s.data = .more) {ev : ReadEvent}
    (hpermits : s.Permits (.event ev)) :
    (s.step A ev).status
      = statusAfter ((scanCommand A).drain (s.data ++ (Callback.event ev).bytes)) := by
  have hnothing : statusAfter ((scanCommand A).drain (s.data ++ [])) = .opened := by
    rw [List.append_nil, Scanner.drain_more hmore]
    rfl
  cases ev with
  | alloc suggestedSize => exact (step_alloc A h suggestedSize).1.opened.trans hnothing.symm
  | idle => exact h.opened.trans hnothing.symm
  | data bytes =>
    show _ = statusAfter ((scanCommand A).drain (s.data ++ bytes))
    cases hdrain : (scanCommand A).drain (s.data ++ bytes) with
    | ok q => exact (step_data_ok (A := A) h hpermits hdrain).1.opened
    | error e =>
      obtain ⟨b, -, hdata, -, hstep⟩ := step_data_eq (A := A) h hpermits
      rw [hdata, hdrain] at hstep
      rw [hstep]
      cases e <;> rfl

end VectorEngine.Session
