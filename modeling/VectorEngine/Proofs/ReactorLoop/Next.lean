import VectorEngine.ReactorLoop

/-!
# `VectorEngine.Proofs.ReactorLoop.Next`: what one callback can do

`Next` lists the states that a callback can lead to, one case for each branch of the source
that leaves other objects behind. `next_of_step` is the inversion of `step`. The invariants of
the loop are case distinctions over `Next`, and no proof about them looks into a callback.
-/

set_option autoImplicit false

namespace VectorEngine

open VectorEngine.Memory

namespace Connection

variable {A : Allocator} {conn conn' : Connection}

/-- A new connection has the id it was given. -/
theorem id_init {id : ConnectionId} {minSize maxSize : Nat} {protocol : ProtocolType}
    (h : init id minSize maxSize protocol = .ok conn) : conn.id = id := by
  obtain ⟨b, -, h⟩ := ok_of_bind h
  cases h
  rfl

/-- `on_alloc` keeps the id. -/
theorem id_onAlloc {suggestedSize base len : Nat}
    (h : conn.onAlloc suggestedSize = .ok (conn', base, len)) : conn'.id = conn.id := by
  obtain ⟨q, -, h⟩ := ok_of_bind h
  cases h
  rfl

/-- `on_read` keeps the id, and asks for one thing at most. -/
theorem onRead_cases {nread : Int} {effects : List Effect}
    (h : conn.onRead A nread = .ok (conn', effects)) :
    conn'.id = conn.id ∧ (effects = [] ∨ effects = [.handleClose] ∨
      ∃ tasks, effects = [.dispatch conn.id tasks]) := by
  unfold onRead at h
  split at h
  · obtain ⟨b, -, h⟩ := ok_of_bind h
    simp only at h
    split at h
    · rename_i tasks len _
      split at h
      · obtain ⟨-, -, h⟩ := ok_of_bind h
        obtain ⟨b', -, h⟩ := ok_of_bind h
        cases h
        exact ⟨rfl, Or.inr (Or.inr ⟨tasks, rfl⟩)⟩
      · cases h
        exact ⟨rfl, Or.inl rfl⟩
    · cases h
      exact ⟨rfl, Or.inr (Or.inl rfl)⟩
    · cases h
  · split at h
    · cases h
      exact ⟨rfl, Or.inr (Or.inl rfl)⟩
    · cases h
      exact ⟨rfl, Or.inl rfl⟩

end Connection

namespace ReactorLoop

variable {opts : ReactorOptions} {A : Allocator} {s s' : ReactorLoop}

/-- The second `emplace` of a client changes nothing. -/
theorem emplace_emplace (table : ConnectionId → Option Ptr) (id : ConnectionId) (p q : Ptr) :
    emplace (emplace table id p) id q = emplace table id p := by
  by_cases h : table id = none
  · have hthere : emplace table id p id ≠ none := by
      unfold emplace
      rw [if_pos h]
      simp
    rw [emplace, if_neg hthere]
  · have hsame : emplace table id p = table := if_neg h
    rw [hsame, emplace, if_neg h]

/-- A read asks for one `uv_close` at most, and changes nothing else of the loop. -/
theorem foldl_applyEffect (s : ReactorLoop) (handle : Ptr) {effects : List Effect}
    {id : ConnectionId} (h : effects = [] ∨ effects = [.handleClose] ∨
      ∃ tasks, effects = [.dispatch id tasks]) :
    ∃ n ≤ 1, effects.foldl (applyEffect handle) s
      = { s with closes := Function.update s.closes handle (s.closes handle + n) } := by
  have hnone : { s with closes := Function.update s.closes handle (s.closes handle + 0) } = s := by
    rw [Nat.add_zero, Function.update_eq_self]
  rcases h with rfl | rfl | ⟨tasks, rfl⟩
  · exact ⟨0, Nat.zero_le 1, hnone.symm⟩
  · exact ⟨1, Nat.le_refl 1, rfl⟩
  · exact ⟨0, Nat.zero_le 1, hnone.symm⟩

/-- A reply whose connection is not in the table is dropped. -/
theorem sendReply_none {out : Reply × Bool} (h : s.connections out.1.connectionId = none) :
    s.sendReply out = s := by
  unfold sendReply
  rw [h]

/-- A reply to a connection that is in the table is written to its handle. -/
theorem sendReply_some {out : Reply × Bool} {handle : Ptr}
    (h : s.connections out.1.connectionId = some handle) :
    s.sendReply out = s.writeTo out.1 handle out.2 := by
  unfold sendReply
  rw [h]

/-- A new client, entered in the table. -/
def afterConnect (s : ReactorLoop) (conn : Connection) (accepted : Bool) : ReactorLoop :=
  let handle := s.handles.next
  { s with
    connectionCnt := (s.connectionCnt + 1) % 2 ^ 64
    connections := emplace s.connections s.connectionCnt handle
    handles := s.handles.new s.conns.next
    conns := s.conns.new conn
    registered := insert handle s.registered
    reading := Function.update s.reading handle (accepted || s.reading handle)
    closes := Function.update s.closes handle (s.closes handle + if accepted then 0 else 1)
    created := s.created ++
      [{ id := s.connectionCnt, connection := s.conns.next, handle := handle }] }

/-- The states that a callback leads to. -/
inductive Next (s : ReactorLoop) : Action → ReactorLoop → Prop where
  /-- Nothing happens. -/
  | connectFailed (status : Int) (accepted : Bool) : Next s (.connect status accepted) s
  | connect (status : Int) (accepted : Bool) (conn : Connection)
      (hid : conn.id = s.connectionCnt) :
      Next s (.connect status accepted) (s.afterConnect conn accepted)
  | allocFault (handle : Ptr) (suggestedSize : Nat) (hreads : s.Reads handle)
      (hlost : s.connectionOf handle = none) :
      Next s (.alloc handle suggestedSize) { s with fault := true }
  /-- `on_alloc` works on the read buffer. -/
  | alloc (handle : Ptr) (suggestedSize : Nat) (connection : Ptr) (conn conn' : Connection)
      (room : Nat × Nat) (hreads : s.Reads handle)
      (hconn : s.connectionOf handle = some (connection, conn)) (hid : conn'.id = conn.id) :
      Next s (.alloc handle suggestedSize)
        { s with conns := s.conns.store connection conn'
                 room := Function.update s.room handle room }
  | readFault (handle : Ptr) (bytes : ByteString) (hreads : s.Reads handle)
      (hlost : s.connectionOf handle = none) :
      Next s (.read handle bytes) { s with fault := true }
  /-- `on_read` works on the read buffer, and closes the connection or does not. -/
  | read (handle : Ptr) (bytes : ByteString) (connection : Ptr) (conn conn' : Connection)
      (n : Nat) (hreads : s.Reads handle)
      (hconn : s.connectionOf handle = some (connection, conn)) (hid : conn'.id = conn.id)
      (hn : n ≤ 1) :
      Next s (.read handle bytes)
        { s with conns := s.conns.store connection conn'
                 room := Function.update s.room handle (0, 0)
                 closes := Function.update s.closes handle (s.closes handle + n) }
  | readEnd (handle : Ptr) (nread : Int) (n : Nat) (hreads : s.Reads handle) (hn : n ≤ 1) :
      Next s (.readEnd handle nread)
        { s with closes := Function.update s.closes handle (s.closes handle + n) }
  | closeFault (handle : Ptr) (hmem : handle ∈ s.registered) (hcloses : 0 < s.closes handle)
      (hlost : s.connectionOf handle = none) :
      Next s (.close handle)
        { s with registered := s.registered.erase handle, fault := true }
  | close (handle connection : Ptr) (conn : Connection) (hmem : handle ∈ s.registered)
      (hcloses : 0 < s.closes handle)
      (hconn : s.connectionOf handle = some (connection, conn)) :
      Next s (.close handle)
        { s with registered := s.registered.erase handle
                 connections := Function.update s.connections conn.id none
                 conns := s.conns.delete connection
                 handles := s.handles.delete handle
                 closed := s.closed ++ [conn.id] }
  | send (replies : List Reply) :
      Next s (.send replies) { s with replies := s.replies ++ replies }
  | reply (accepted : List Bool) (hlen : accepted.length = s.replies.length) :
      Next s (.reply accepted) (s.onReply accepted)
  /-- A write that has failed: its request and its context are forgotten. -/
  | writeFailed (w : Ptr) (status : Int) (hmem : w ∈ s.inFlight) (hstatus : status < 0) :
      Next s (.write w status) { s with inFlight := s.inFlight.erase w }
  | writeFault (w : Ptr) (status : Int) (hmem : w ∈ s.inFlight) (hstatus : ¬ status < 0)
      (hlost : s.requests.objects w = none) :
      Next s (.write w status) { s with inFlight := s.inFlight.erase w, fault := true }
  | write (w ctx : Ptr) (status : Int) (hmem : w ∈ s.inFlight) (hstatus : ¬ status < 0)
      (hreq : s.requests.objects w = some ctx) :
      Next s (.write w status)
        { s with inFlight := s.inFlight.erase w
                 contexts := s.contexts.delete ctx
                 requests := s.requests.delete w
                 fault := s.fault || !decide (s.contexts.Live ctx) }

/-! ### The inversion, callback by callback -/

/-- What `_create_client` does when it returns. -/
theorem createClient_ok {q : ReactorLoop × ConnectionId × Ptr}
    (h : s.createClient opts = .ok q) :
    ∃ conn, conn.id = s.connectionCnt ∧ q = ({ s with
      connectionCnt := (s.connectionCnt + 1) % 2 ^ 64
      connections := emplace s.connections s.connectionCnt s.handles.next
      handles := s.handles.new s.conns.next
      conns := s.conns.new conn
      registered := insert s.handles.next s.registered
      created := s.created ++
        [{ id := s.connectionCnt, connection := s.conns.next, handle := s.handles.next }] },
      s.connectionCnt, s.handles.next) := by
  unfold createClient at h
  simp only [bind, Except.bind] at h
  split at h
  · cases h
  · rename_i conn hconn
    cases h
    exact ⟨conn, Connection.id_init hconn, rfl⟩

/-- `_on_connect` either returns early or creates a client. -/
theorem next_onConnect {status : Int} {accepted : Bool}
    (h : s.onConnect opts status accepted = some s') :
    s.Next (.connect status accepted) s' := by
  unfold onConnect at h
  split at h
  · cases h
    exact .connectFailed status accepted
  · cases hcreate : s.createClient opts with
    | error e =>
      rw [hcreate] at h
      cases h
    | ok q =>
      obtain ⟨s₁, id, handle⟩ := q
      obtain ⟨conn, hid, hs₁⟩ := createClient_ok hcreate
      rw [hcreate] at h
      cases hs₁
      have hnext := Next.connect status accepted conn hid
      -- Only what becomes of the handle differs, and the second entry.
      cases accepted with
      | true =>
        cases h
        simpa [afterConnect, readStart, emplace_emplace] using hnext
      | false =>
        cases h
        simpa [afterConnect, handleClose, emplace_emplace] using hnext

/-- `on_alloc` either finds its connection and hands out room, or uses a pointer that leads
nowhere. -/
theorem next_onAlloc {handle : Ptr} {suggestedSize : Nat} (hreads : s.Reads handle)
    (h : s.onAlloc handle suggestedSize = some s') :
    s.Next (.alloc handle suggestedSize) s' := by
  unfold onAlloc at h
  cases hconn : s.connectionOf handle with
  | none =>
    rw [hconn] at h
    cases h
    exact .allocFault handle suggestedSize hreads hconn
  | some q =>
    obtain ⟨connection, conn⟩ := q
    rw [hconn] at h
    cases halloc : conn.onAlloc suggestedSize with
    | error e =>
      simp only [halloc] at h
      cases h
    | ok q =>
      obtain ⟨conn', base, len⟩ := q
      simp only [halloc] at h
      cases h
      exact .alloc handle suggestedSize connection conn conn' (base, len) hreads hconn
        (Connection.id_onAlloc halloc)

/-- `on_read` either finds its connection, whose state it changes, or uses a pointer that leads
nowhere. -/
theorem next_onRead {handle : Ptr} {bytes : ByteString} (hreads : s.Reads handle)
    (h : s.onRead A handle bytes = some s') : s.Next (.read handle bytes) s' := by
  unfold onRead at h
  cases hconn : s.connectionOf handle with
  | none =>
    rw [hconn] at h
    cases h
    exact .readFault handle bytes hreads hconn
  | some q =>
    obtain ⟨connection, conn⟩ := q
    rw [hconn] at h
    simp only at h
    cases hread : Connection.onRead A
        { conn with readBuf := conn.readBuf.write (s.room handle).1 bytes } bytes.length with
    | error e =>
      rw [hread] at h
      cases h
    | ok q =>
      obtain ⟨conn', effects⟩ := q
      rw [hread] at h
      simp only at h
      obtain ⟨hid, hlen⟩ := Connection.onRead_cases hread
      obtain ⟨n, hn, hfold⟩ := foldl_applyEffect
        { s with conns := s.conns.store connection conn'
                 room := Function.update s.room handle (0, 0) } handle hlen
      rw [hfold] at h
      cases h
      exact .read handle bytes connection conn conn' n hreads hconn hid hn

/-- `on_close` deletes the client or, if the pointer leads nowhere, nothing. -/
theorem next_onClose {handle : Ptr} (hmem : handle ∈ s.registered)
    (hcloses : 0 < s.closes handle) :
    s.Next (.close handle) ({ s with registered := s.registered.erase handle }.onClose handle) := by
  have hsame : connectionOf { s with registered := s.registered.erase handle } handle
      = s.connectionOf handle := rfl
  unfold onClose
  rw [hsame]
  cases hconn : s.connectionOf handle with
  | none => exact .closeFault handle hmem hcloses hconn
  | some q => exact .close handle q.1 q.2 hmem hcloses hconn

/-- `_on_write` throws at a negative status, before it deletes anything. Otherwise the request and
its context go together. -/
theorem next_onWrite {w : Ptr} {status : Int} (hmem : w ∈ s.inFlight) :
    s.Next (.write w status) ({ s with inFlight := s.inFlight.erase w }.onWrite w status) := by
  unfold onWrite
  by_cases hstatus : status < 0
  · rw [if_pos hstatus]
    exact .writeFailed w status hmem hstatus
  · rw [if_neg hstatus]
    cases hreq : s.requests.objects w with
    | none => exact .writeFault w status hmem hstatus hreq
    | some ctx => exact .write w ctx status hmem hstatus hreq

/-- Each callback leads to one of the states of `Next`. -/
theorem next_of_step {a : Action} (h : s.step opts A a = some s') : s.Next a s' := by
  unfold step at h
  cases a with
  | connect status accepted => exact next_onConnect h
  | alloc handle suggestedSize =>
    simp only at h
    split at h
    · rename_i hreads
      exact next_onAlloc hreads h
    · cases h
  | read handle bytes =>
    simp only at h
    split at h
    · rename_i hreads
      exact next_onRead hreads.1 h
    · cases h
  | readEnd handle nread =>
    simp only at h
    split at h
    · rename_i hreads
      cases h
      unfold onReadEnd
      split
      · exact .readEnd handle nread 1 hreads.1 (Nat.le_refl 1)
      · have hnext := Next.readEnd handle nread 0 hreads.1 (Nat.zero_le 1)
        rw [Nat.add_zero, Function.update_eq_self] at hnext
        exact hnext
    · cases h
  | close handle =>
    simp only at h
    split at h
    · rename_i hguard
      cases h
      exact next_onClose hguard.1 hguard.2
    · cases h
  | send replies =>
    cases h
    exact .send replies
  | reply accepted =>
    simp only at h
    split at h
    · rename_i hlen
      cases h
      exact .reply accepted hlen
    · cases h
  | write w status =>
    simp only at h
    split at h
    · rename_i hmem
      cases h
      exact next_onWrite hmem
    · cases h

end ReactorLoop

end VectorEngine
