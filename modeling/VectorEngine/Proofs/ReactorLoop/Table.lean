import Mathlib.Data.List.Nodup
import VectorEngine.Proofs.ReactorLoop.Writes

/-!
# `VectorEngine.Proofs.ReactorLoop.Table`: the connection table

While fewer than `2 ^ 64` connections are created, the count gives each one an id of its own,
and the entry of an id in `_connections` is there exactly as long as the connection's `on_close`
has not run. `Owned` says so about the state between two callbacks, together with what it is
for: every entry leads to a live handle and from there to the connection with that id, nothing
is closed or deleted twice, and a reply is written to its own connection only.

In the invariant `Inv` the three names of a client are one number: the id, the `Connection` and
the handle of the `p`-th client are all `p`, since each callback that creates one of them
creates all three. A client is `Open` until its `on_close`.
-/

set_option autoImplicit false

namespace VectorEngine.ReactorLoop

open VectorEngine.Memory
open VectorEngine.Transition

variable {opts : ReactorOptions} {A : Allocator} {s s' : ReactorLoop}

/-- The `p`-th client was created, and its `on_close` has not run. -/
def Open (s : ReactorLoop) (p : Ptr) : Prop := p < s.conns.next ∧ p ∉ s.closed

/-- Whether a client is open can be looked at in the histories. -/
instance (s : ReactorLoop) (p : Ptr) : Decidable (s.Open p) :=
  inferInstanceAs (Decidable (p < s.conns.next ∧ p ∉ s.closed))

/-- What holds between two callbacks while the ids do not run out. The `p`-th client has the id
`p` and the `p`-th object of each heap, and is in the table, in the heaps and in the loop just
while it is open. All that `Owned` says follows from these equations. -/
structure Inv (s : ReactorLoop) : Prop where
  cnt : s.connectionCnt = s.conns.next
  next : s.handles.next = s.conns.next
  created : s.created = (List.range s.conns.next).map fun p => ⟨p, p, p⟩
  closed_lt : ∀ p ∈ s.closed, p < s.conns.next
  closed_nodup : s.closed.Nodup
  table : ∀ p, s.connections p = if s.Open p then some p else none
  handles : ∀ p, s.handles.objects p = if s.Open p then some p else none
  conns : ∀ p, s.conns.Live p ↔ s.Open p
  ids : ∀ p conn, s.conns.objects p = some conn → conn.id = p
  handlesWf : s.handles.Wf
  connsWf : s.conns.Wf
  registered : ∀ p, p ∈ s.registered ↔ s.Open p
  closes_le : ∀ p, s.closes p ≤ 1
  closes_new : ∀ p, s.conns.next ≤ p → s.closes p = 0
  closes_closed : ∀ p ∈ s.closed, s.closes p ≠ 0
  reading : ∀ p, s.reading p = true → p < s.conns.next
  written : ∀ q ∈ s.written, q.2 = q.1.connectionId ∧ q.2 < s.conns.next
  fault : s.fault = false

/-- Before the first client all tables and heaps are empty. -/
theorem Inv.init : Inv init where
  cnt := rfl
  next := rfl
  created := rfl
  closed_lt _ hp := nomatch hp
  closed_nodup := .nil
  table p := (if_neg fun h => Nat.not_lt_zero p h.1).symm
  handles p := (if_neg fun h => Nat.not_lt_zero p h.1).symm
  conns p := ⟨(fun h => nomatch h), fun h => absurd h.1 (Nat.not_lt_zero p)⟩
  ids _ _ h := nomatch h
  handlesWf := .empty
  connsWf := .empty
  registered p := ⟨(fun h => nomatch h), fun h => absurd h.1 (Nat.not_lt_zero p)⟩
  closes_le _ := Nat.zero_le 1
  closes_new _ _ := rfl
  closes_closed _ hp := nomatch hp
  reading _ hp := nomatch hp
  written _ hq := nomatch hq
  fault := rfl

/-- The invariant does not speak about replies, write requests and rooms. -/
theorem Inv.frame (h : s.Inv) (replies : List Reply) (contexts : Heap Reply)
    (requests : Heap Ptr) (inFlight : List Ptr) (room : Ptr → Nat × Nat) :
    Inv { s with replies := replies, contexts := contexts, requests := requests
                 inFlight := inFlight, room := room } :=
  { h with }

/-! ### Pointers -/

/-- The handle of an open client leads to its connection. -/
theorem Inv.connectionOf_open (h : s.Inv) {p : Ptr} (hp : s.Open p) :
    ∃ conn, s.connectionOf p = some (p, conn) ∧ conn.id = p := by
  obtain ⟨conn, hconn⟩ := Heap.live_iff.mp ((h.conns p).mpr hp)
  have hhandle := h.handles p
  rw [if_pos hp] at hhandle
  refine ⟨conn, ?_, h.ids p conn hconn⟩
  unfold connectionOf
  rw [hhandle]
  simp [hconn]

/-- A handle that leads to a connection is the one of an open client. -/
theorem Inv.open_of_connectionOf (h : s.Inv) {p connection : Ptr} {conn : Connection}
    (hconn : s.connectionOf p = some (connection, conn)) :
    s.Open p ∧ connection = p ∧ conn.id = p := by
  have hhandle := h.handles p
  by_cases hp : s.Open p
  · obtain ⟨conn', hconn', hid⟩ := h.connectionOf_open hp
    rw [hconn] at hconn'
    cases hconn'
    exact ⟨hp, rfl, hid⟩
  · rw [if_neg hp] at hhandle
    unfold connectionOf at hconn
    rw [hhandle] at hconn
    cases hconn

/-- libuv reads for open clients only. -/
theorem Inv.open_of_reads (h : s.Inv) {p : Ptr} (hreads : s.Reads p) : s.Open p :=
  ⟨h.reading p hreads.1, fun hp => h.closes_closed p hp hreads.2⟩

/-- No callback on an open client goes astray. -/
theorem Inv.connectionOf_ne_none (h : s.Inv) {p : Ptr} (hp : s.Open p) :
    s.connectionOf p ≠ none := by
  obtain ⟨conn, hconn, -⟩ := h.connectionOf_open hp
  rw [hconn]
  exact fun heq => nomatch heq

/-! ### The callbacks -/

/-- A new client is open, and the others stay what they were. -/
theorem Inv.open_afterConnect (h : s.Inv) (conn : Connection) (accepted : Bool) (p : Ptr) :
    (s.afterConnect conn accepted).Open p ↔ p = s.conns.next ∨ s.Open p := by
  show p < s.conns.next + 1 ∧ p ∉ s.closed ↔ p = s.conns.next ∨ s.Open p
  have hnew : s.conns.next ∉ s.closed := fun hp => Nat.lt_irrefl _ (h.closed_lt _ hp)
  constructor
  · rintro ⟨hlt, hnot⟩
    rcases Nat.lt_succ_iff_lt_or_eq.mp hlt with hlt | rfl
    · exact Or.inr ⟨hlt, hnot⟩
    · exact Or.inl rfl
  · rintro (rfl | hp)
    · exact ⟨Nat.lt_succ_self _, hnew⟩
    · exact ⟨Nat.lt_succ_of_lt hp.1, hp.2⟩

/-- A new client gets the next id and the next objects, which no one else has while there are
fewer than `2 ^ 64` of them. -/
theorem Inv.afterConnect (h : s.Inv) (hfew : s.conns.next + 1 < 2 ^ 64) {conn : Connection}
    (hid : conn.id = s.connectionCnt) (accepted : Bool) :
    (s.afterConnect conn accepted).Inv := by
  have hopen := h.open_afterConnect conn accepted
  have hnotOpen : ¬ s.Open s.conns.next := fun hp => Nat.lt_irrefl _ hp.1
  have hnew : s.connections s.conns.next = none := by rw [h.table, if_neg hnotOpen]
  -- Away from the new client, being open has not changed.
  have hother : ∀ p, p ≠ s.conns.next → ((s.afterConnect conn accepted).Open p ↔ s.Open p) :=
    fun p hp => (hopen p).trans (or_iff_right hp)
  have hself : (s.afterConnect conn accepted).Open s.conns.next := (hopen _).mpr (Or.inl rfl)
  exact {
    cnt := by
      -- This is the one place in which the bound on the number of connections is used.
      show (s.connectionCnt + 1) % 2 ^ 64 = s.conns.next + 1
      rw [h.cnt]
      exact Nat.mod_eq_of_lt hfew
    next := by
      show s.handles.next + 1 = s.conns.next + 1
      rw [h.next]
    created := by
      show s.created ++ [_] = (List.range (s.conns.next + 1)).map _
      rw [h.created, h.cnt, h.next, List.range_succ, List.map_append]
      rfl
    closed_lt := fun p hp => Nat.lt_succ_of_lt (h.closed_lt p hp)
    closed_nodup := h.closed_nodup
    table := by
      intro p
      show emplace s.connections s.connectionCnt s.handles.next p = _
      -- `emplace` finds no entry with the new id, so that it makes one.
      unfold emplace
      rw [h.cnt, h.next, if_pos hnew]
      by_cases hp : p = s.conns.next
      · rw [hp, Function.update_self, if_pos hself]
      · rw [Function.update_of_ne hp, h.table]
        simp only [hother p hp]
    handles := by
      intro p
      show (s.handles.new s.conns.next).objects p = _
      by_cases hp : p = s.conns.next
      · rw [hp, if_pos hself, ← h.next, Heap.objects_new_self]
      · rw [Heap.objects_new_of_ne (h.next ▸ hp), h.handles]
        simp only [hother p hp]
    conns := by
      intro p
      show (s.conns.new conn).Live p ↔ _
      rw [Heap.live_new, hopen, h.conns]
    ids := by
      intro p conn' hconn'
      replace hconn' : (s.conns.new conn).objects p = some conn' := hconn'
      by_cases hp : p = s.conns.next
      · rw [hp, Heap.objects_new_self] at hconn'
        cases hconn'
        rw [hp, hid, h.cnt]
      · rw [Heap.objects_new_of_ne hp] at hconn'
        exact h.ids p conn' hconn'
    handlesWf := h.handlesWf.new _
    connsWf := h.connsWf.new _
    registered := by
      intro p
      show p ∈ insert s.handles.next s.registered ↔ _
      rw [Finset.mem_insert, h.registered, h.next, hopen]
    closes_le := by
      intro p
      show Function.update s.closes s.handles.next _ p ≤ 1
      by_cases hp : p = s.handles.next
      · -- A client that is refused is closed at once, and this is the first time.
        have hzero : s.closes s.handles.next = 0 := h.closes_new _ (Nat.le_of_eq h.next.symm)
        rw [hp, Function.update_self, hzero]
        split <;> simp
      · rw [Function.update_of_ne hp]
        exact h.closes_le p
    closes_new := by
      intro p hp
      replace hp : s.conns.next + 1 ≤ p := hp
      -- The handles that are not there yet are those behind the new one.
      have hne : p ≠ s.handles.next := h.next ▸ Nat.ne_of_gt hp
      show Function.update s.closes s.handles.next _ p = 0
      rw [Function.update_of_ne hne]
      exact h.closes_new p (Nat.le_of_succ_le hp)
    closes_closed := by
      intro p hp
      -- A client that was closed is an old one.
      have hne : p ≠ s.handles.next := h.next ▸ Nat.ne_of_lt (h.closed_lt p hp)
      show Function.update s.closes s.handles.next _ p ≠ 0
      rw [Function.update_of_ne hne]
      exact h.closes_closed p hp
    reading := by
      intro p hp
      show p < s.conns.next + 1
      replace hp : Function.update s.reading s.handles.next (accepted || s.reading s.handles.next) p
        = true := hp
      by_cases hne : p = s.handles.next
      · rw [hne, h.next]
        exact Nat.lt_succ_self _
      · rw [Function.update_of_ne hne] at hp
        exact Nat.lt_succ_of_lt (h.reading p hp)
    written := fun q hq => ⟨(h.written q hq).1, Nat.lt_succ_of_lt (h.written q hq).2⟩
    fault := h.fault }

/-- A change to the object of an open client that keeps its id. -/
theorem Inv.store (h : s.Inv) {p : Ptr} (hp : s.Open p) {conn : Connection} (hid : conn.id = p) :
    Inv { s with conns := s.conns.store p conn } := by
  have hlive := (h.conns p).mpr hp
  refine { h with conns := fun q => ?_, ids := fun q conn' hconn' => ?_,
                  connsWf := h.connsWf.store hlive conn }
  · exact (Heap.live_store hlive).trans (h.conns q)
  · by_cases hq : q = p
    · subst hq
      replace hconn' : (s.conns.store q conn).objects q = some conn' := hconn'
      rw [Heap.objects_store_self] at hconn'
      cases hconn'
      exact hid
    · exact h.ids q conn' ((Heap.objects_store_of_ne hq).symm.trans hconn')

/-- `uv_close`, at most once on a handle that was not closed before. -/
theorem Inv.closeOnce (h : s.Inv) {p : Ptr} (hlt : p < s.conns.next) (hzero : s.closes p = 0)
    {n : Nat} (hn : n ≤ 1) :
    Inv { s with closes := Function.update s.closes p (s.closes p + n) } := by
  refine { h with closes_le := fun q => ?_, closes_new := fun q hq => ?_,
                  closes_closed := fun q hq => ?_ }
  · show Function.update s.closes p (s.closes p + n) q ≤ 1
    by_cases hqp : q = p
    · rw [hqp, Function.update_self, hzero, Nat.zero_add]
      exact hn
    · rw [Function.update_of_ne hqp]
      exact h.closes_le q
  · have hqp : q ≠ p := fun heq => Nat.not_le.mpr hlt (heq ▸ hq)
    show Function.update s.closes p (s.closes p + n) q = 0
    rw [Function.update_of_ne hqp]
    exact h.closes_new q hq
  · have hqp : q ≠ p := fun heq => h.closes_closed q hq (heq ▸ hzero)
    show Function.update s.closes p (s.closes p + n) q ≠ 0
    rw [Function.update_of_ne hqp]
    exact h.closes_closed q hq

/-- `on_close` deletes the client, and the client is open no more. -/
theorem Inv.close (h : s.Inv) {p : Ptr} (hp : s.Open p) (hcloses : 0 < s.closes p) :
    Inv { s with registered := s.registered.erase p
                 connections := Function.update s.connections p none
                 conns := s.conns.delete p
                 handles := s.handles.delete p
                 closed := s.closed ++ [p] } := by
  have hopen : ∀ q, (q < s.conns.next ∧ q ∉ s.closed ++ [p]) ↔ q ≠ p ∧ s.Open q := by
    intro q
    rw [List.mem_append, List.mem_singleton, not_or]
    exact ⟨fun hq => ⟨hq.2.2, hq.1, hq.2.1⟩, fun hq => ⟨hq.2.1, hq.2.2, hq.1⟩⟩
  have hhandle : s.handles.Live p := by
    unfold Heap.Live
    rw [h.handles, if_pos hp]
    rfl
  have hconn := (h.conns p).mpr hp
  -- The table and the handles change in the same way.
  have hentry : ∀ (f : Ptr → Option Ptr), (∀ q, f q = if s.Open q then some q else none) →
      ∀ q, Function.update f p none q
        = if q < s.conns.next ∧ q ∉ s.closed ++ [p] then some q else none := by
    intro f hf q
    simp only [hopen]
    by_cases hq : q = p
    · rw [hq, Function.update_self, if_neg fun hand => hand.1 rfl]
    · rw [Function.update_of_ne hq, hf]
      simp [hq]
  refine { h with closed_lt := ?_, closed_nodup := ?_, table := hentry _ h.table,
                  handles := hentry _ h.handles, conns := fun q => ?_,
                  ids := fun q conn hq => ?_, handlesWf := h.handlesWf.delete hhandle,
                  connsWf := h.connsWf.delete hconn, registered := fun q => ?_,
                  closes_closed := ?_ }
  · intro q hq
    rcases List.mem_append.mp hq with hq | hq
    · exact h.closed_lt q hq
    · cases List.mem_singleton.mp hq
      exact hp.1
  · -- An open client has not been closed before.
    exact List.nodup_append.mpr ⟨h.closed_nodup, List.nodup_singleton p, fun q hq r hr heq =>
      hp.2 (List.mem_singleton.mp hr ▸ heq ▸ hq)⟩
  · show (s.conns.delete p).Live q ↔ _
    rw [Heap.live_delete, h.conns]
    exact (hopen q).symm
  · have hne : q ≠ p := by
      -- What is still there is not what was deleted.
      rintro rfl
      replace hq : (s.conns.delete q).objects q = some conn := hq
      rw [Heap.objects_delete_self] at hq
      cases hq
    exact h.ids q conn ((Heap.objects_delete_of_ne hne).symm.trans hq)
  · show q ∈ s.registered.erase p ↔ _
    rw [Finset.mem_erase, h.registered]
    exact (hopen q).symm
  · intro q hq
    rcases List.mem_append.mp hq with hq | hq
    · exact h.closes_closed q hq
    · cases List.mem_singleton.mp hq
      -- `on_close` runs only behind a call of `uv_close`.
      exact Nat.ne_of_gt hcloses

/-- A reply goes to the handle of its own connection, which is live. -/
theorem Inv.sendReply (h : s.Inv) (out : Reply × Bool) : (s.sendReply out).Inv := by
  cases hentry : s.connections out.1.connectionId with
  | none =>
    rw [sendReply_none hentry]
    exact h
  | some handle =>
    -- An entry leads to the handle of an open client, which is live.
    have htable := h.table out.1.connectionId
    rw [hentry] at htable
    have hp : s.Open out.1.connectionId := by
      by_contra hp
      rw [if_neg hp] at htable
      cases htable
    rw [if_pos hp] at htable
    injection htable with htable
    have hlive : s.handles.Live handle := by
      unfold Heap.Live
      rw [htable, h.handles, if_pos hp]
      rfl
    rw [sendReply_some hentry]
    refine { h with written := fun q hq => ?_, fault := ?_ }
    · rcases List.mem_append.mp hq with hq | hq
      · exact h.written q hq
      · cases List.mem_singleton.mp hq
        exact ⟨htable, htable ▸ hp.1⟩
    · show (s.fault || !decide (s.handles.Live handle)) = false
      rw [h.fault, decide_eq_true hlive]
      rfl

/-- All replies of one `_on_reply` are written, one after another. -/
theorem Inv.foldl_sendReply (outs : List (Reply × Bool)) :
    ∀ {s : ReactorLoop}, s.Inv → (outs.foldl ReactorLoop.sendReply s).Inv := by
  induction outs with
  | nil => exact fun h => h
  | cons out outs ih => exact fun h => ih (h.sendReply out)

/-- As many clients were created as connections were made. -/
theorem Inv.length_created (h : s.Inv) : s.created.length = s.conns.next := by
  rw [h.created, List.length_map, List.length_range]

/-- A callback keeps the invariant, as long as the ids do not run out. -/
theorem Inv.next_step (h : s.Inv) (hpaired : s.Paired) {a : Action} (hnext : s.Next a s')
    (hfew : s'.created.length < 2 ^ 64) : s'.Inv := by
  cases hnext with
  | connectFailed => exact h
  | connect status accepted conn hid =>
    -- The number of clients bounds the new id.
    refine h.afterConnect ?_ hid accepted
    have hlen : (s.afterConnect conn accepted).created.length = s.created.length + 1 :=
      List.length_append
    rwa [hlen, h.length_created] at hfew
  | allocFault handle _ hreads hlost =>
    exact absurd hlost (h.connectionOf_ne_none (h.open_of_reads hreads))
  | alloc handle _ connection conn conn' room _ hconn hid =>
    obtain ⟨hp, rfl, hsame⟩ := h.open_of_connectionOf hconn
    exact { h.store hp (hid.trans hsame) with }
  | readFault handle _ hreads hlost =>
    exact absurd hlost (h.connectionOf_ne_none (h.open_of_reads hreads))
  | read handle _ connection conn conn' n hreads hconn hid hn =>
    obtain ⟨hp, rfl, hsame⟩ := h.open_of_connectionOf hconn
    have hstored := h.store hp (hid.trans hsame)
    -- A connection that is read from was not closed before.
    exact { hstored.closeOnce hp.1 hreads.2 hn with }
  | readEnd handle _ n hreads hn =>
    exact h.closeOnce (h.open_of_reads hreads).1 hreads.2 hn
  | closeFault handle hmem _ hlost =>
    exact absurd hlost (h.connectionOf_ne_none ((h.registered handle).mp hmem))
  | close handle connection conn _ hcloses hconn =>
    obtain ⟨hp, rfl, hsame⟩ := h.open_of_connectionOf hconn
    rw [hsame]
    exact h.close hp hcloses
  | send => exact { h with }
  | reply => exact Inv.foldl_sendReply _ (show Inv { s with replies := [] } from { h with })
  | writeFailed => exact { h with }
  | writeFault w _ hmem _ hlost =>
    -- libuv calls back with requests that are live.
    rw [(hpaired.request hmem).1] at hlost
    cases hlost
  | write w ctx _ hmem _ hreq =>
    cases hpaired.data w ctx hreq
    refine { h with fault := ?_ }
    show (s.fault || !decide (s.contexts.Live w)) = false
    rw [h.fault, decide_eq_true (hpaired.request hmem).2]
    rfl

/-! ### Runs -/

/-- Replies create no clients. -/
theorem created_foldl (outs : List (Reply × Bool)) : ∀ (s : ReactorLoop),
    (outs.foldl ReactorLoop.sendReply s).created = s.created := by
  induction outs with
  | nil => exact fun _ => rfl
  | cons out outs ih =>
    intro s
    rw [List.foldl_cons, ih]
    cases hentry : s.connections out.1.connectionId with
    | none => rw [sendReply_none hentry]
    | some handle =>
      rw [sendReply_some hentry]
      rfl

/-- No callback makes a client that was created not to have been. -/
theorem length_created_mono {a : Action} (hnext : s.Next a s') :
    s.created.length ≤ s'.created.length := by
  cases hnext with
  | connect =>
    show _ ≤ (s.created ++ [_]).length
    rw [List.length_append]
    exact Nat.le_add_right _ _
  | reply accepted =>
    have hsame : (s.onReply accepted).created = s.created :=
      created_foldl (s.replies.zip accepted) { s with replies := [] }
    rw [hsame]
  | _ => exact Nat.le_refl _

/-- What the table and the objects are between two callbacks. It is the answer to who deletes
what: an entry of the table leads to objects that are live, a client that is closed has none, and
nothing is deleted twice. -/
structure Owned (s : ReactorLoop) : Prop where
  /-- The keys are the ids of the connections whose `on_close` has not run. -/
  keys : ∀ id, s.connections id ≠ none ↔ (∃ client ∈ s.created, client.id = id) ∧ id ∉ s.closed
  /-- An entry is the one handle that leads to the connection with the id. -/
  entry : ∀ id handle, s.connections id = some handle →
    ∃ connection conn, ⟨id, connection, handle⟩ ∈ s.created ∧
      s.handles.objects handle = some connection ∧
      s.conns.objects connection = some conn ∧ conn.id = id ∧
      ∀ handle', s.handles.objects handle' = some connection → handle' = handle
  injective : ∀ id id' handle, s.connections id = some handle →
    s.connections id' = some handle → id = id'
  /-- No id is given out twice, and no two clients share an object. -/
  ids_nodup : (s.created.map Client.id).Nodup
  handles_nodup : (s.created.map Client.handle).Nodup
  connections_nodup : (s.created.map Client.connection).Nodup
  closed_nodup : s.closed.Nodup
  closes_le : ∀ handle, s.closes handle ≤ 1
  /-- A client's objects are live until its `on_close`, and deleted once behind it. -/
  deleted : ∀ client ∈ s.created,
    (client.id ∉ s.closed → s.handles.Live client.handle ∧ s.conns.Live client.connection) ∧
    s.handles.deletes client.handle = (if client.id ∈ s.closed then 1 else 0) ∧
    s.conns.deletes client.connection = (if client.id ∈ s.closed then 1 else 0)
  /-- A reply is written to the handle that was made for its connection, and to no other. -/
  written : ∀ q ∈ s.written, ∃ client ∈ s.created,
    client.id = q.1.connectionId ∧ client.handle = q.2
  /-- No callback has used a deleted object. -/
  fault : s.fault = false

/-- A client that was created has the same number everywhere. -/
theorem Inv.mem_created (h : s.Inv) {client : Client} :
    client ∈ s.created ↔ ∃ p < s.conns.next, client = ⟨p, p, p⟩ := by
  rw [h.created, List.mem_map]
  simp only [List.mem_range, eq_comm]

/-- The ids of the clients are the numbers in their order, and so are their handles and their
connections. -/
theorem Inv.created_map (h : s.Inv) {f : Client → Nat} (hf : ∀ p, f ⟨p, p, p⟩ = p) :
    s.created.map f = List.range s.conns.next := by
  rw [h.created, List.map_map]
  have hid : (f ∘ fun p => (⟨p, p, p⟩ : Client)) = id := funext hf
  rw [hid, List.map_id]

/-- An entry is the handle of an open client. -/
theorem Inv.entry_eq (h : s.Inv) {id handle : Nat} (hentry : s.connections id = some handle) :
    s.Open id ∧ handle = id := by
  rw [h.table] at hentry
  split at hentry
  · rename_i hp
    cases hentry
    exact ⟨hp, rfl⟩
  · cases hentry

/-- The handle of a client is live as long as the client is open. -/
theorem Inv.handles_live (h : s.Inv) {p : Ptr} : s.handles.Live p ↔ s.Open p := by
  unfold Heap.Live
  rw [h.handles]
  split <;> simp [*]

/-- The equations of the invariant give the ownership that the result states. -/
theorem Inv.owned (h : s.Inv) : s.Owned where
  keys id := by
    rw [h.table]
    constructor
    · intro hsome
      -- An id with an entry is that of an open client.
      have hp : s.Open id := by_contra fun hnot => hsome (if_neg hnot)
      exact ⟨⟨⟨id, id, id⟩, h.mem_created.mpr ⟨id, hp.1, rfl⟩, rfl⟩, hp.2⟩
    · rintro ⟨⟨client, hclient, rfl⟩, hnot⟩
      obtain ⟨p, hlt, rfl⟩ := h.mem_created.mp hclient
      rw [if_pos ⟨hlt, hnot⟩]
      exact fun heq => nomatch heq
  entry id handle hentry := by
    obtain ⟨hp, rfl⟩ := h.entry_eq hentry
    obtain ⟨conn, hconn⟩ := Heap.live_iff.mp ((h.conns handle).mpr hp)
    -- A client has the same number everywhere, which is what makes the handle the only one.
    refine ⟨handle, conn, h.mem_created.mpr ⟨handle, hp.1, rfl⟩, ?_, hconn,
      h.ids handle conn hconn, fun handle' hhandle' => ?_⟩
    · rw [h.handles, if_pos hp]
    · rw [h.handles] at hhandle'
      split at hhandle'
      · injection hhandle'
      · cases hhandle'
  injective id id' handle hid hid' := (h.entry_eq hid).2.symm.trans (h.entry_eq hid').2
  ids_nodup := by
    rw [h.created_map fun _ => rfl]
    exact List.nodup_range
  handles_nodup := by
    rw [h.created_map fun _ => rfl]
    exact List.nodup_range
  connections_nodup := by
    rw [h.created_map fun _ => rfl]
    exact List.nodup_range
  closed_nodup := h.closed_nodup
  closes_le := h.closes_le
  deleted client hclient := by
    obtain ⟨p, hlt, rfl⟩ := h.mem_created.mp hclient
    -- What is closed was deleted once, and what is open was not deleted.
    by_cases hp : p ∈ s.closed
    · have hdead : ¬ s.Open p := fun hopen => hopen.2 hp
      rw [if_pos hp]
      exact ⟨fun hnot => absurd hp hnot,
        h.handlesWf.deletes_eq_one (h.next.symm ▸ hlt) (fun hl => hdead (h.handles_live.mp hl)),
        h.connsWf.deletes_eq_one hlt (fun hl => hdead ((h.conns p).mp hl))⟩
    · have hhandle := h.handles_live.mpr ⟨hlt, hp⟩
      have hconn := (h.conns p).mpr ⟨hlt, hp⟩
      rw [if_neg hp]
      exact ⟨fun _ => ⟨hhandle, hconn⟩, h.handlesWf.deletes_eq_zero hhandle,
        h.connsWf.deletes_eq_zero hconn⟩
  written q hq := by
    obtain ⟨heq, hlt⟩ := h.written q hq
    exact ⟨⟨q.2, q.2, q.2⟩, h.mem_created.mpr ⟨q.2, hlt, rfl⟩, heq, rfl⟩
  fault := h.fault

/-- **The connection table.** After any callbacks in any order, while fewer than `2 ^ 64`
connections were created, the table and the objects are as `Owned` says. -/
theorem table_owned {path : List (ReactorLoop × Action)} (hrun : Run (step opts A) init path s)
    (hfew : s.created.length < 2 ^ 64) : s.Owned := by
  -- The number of clients only grows, so that it was small all along.
  have hinv := Run.invariant (C := fun _ _ => True)
    (P := fun t => t.Paired ∧ (t.created.length < 2 ^ 64 → t.Inv))
    (fun t a t' h _ hs => by
      have hnext := next_of_step hs
      exact ⟨h.1.next_step hnext, fun hlt =>
        (h.2 (Nat.lt_of_le_of_lt (length_created_mono hnext) hlt)).next_step h.1 hnext hlt⟩)
    hrun ⟨Paired.init, fun _ => Inv.init⟩ (fun _ _ => trivial)
  exact (hinv.1.2 hfew).owned

/-- Two clients come, and the first sends a request that is no RESP. The reply to its `PING` is
taken up while it is being closed. -/
def twoActions : List Action :=
  [.connect 0 true, .connect 0 true, .alloc 0 65536, .read 0 [42, 13], .send [pong],
    .reply [false], .close 0]

/-- The run of `twoActions` goes through to its end. -/
theorem isSome_twoActions :
    (exec (step smallOptions .standard) init twoActions).isSome = true := by
  decide +kernel

/-- Behind `twoActions` the first client is gone from the table, the second is in it, and the
objects are owned as they should be. -/
theorem table_owned_two :
    ∃ path s, Run (step smallOptions .standard) init path s ∧
      path.map Prod.snd = twoActions ∧ s.connections 0 = none ∧ s.connections 1 = some 1 ∧
      s.Owned := by
  obtain ⟨path, hrun, hacts⟩ := Run.exec twoActions .nil
    (Option.some_get isSome_twoActions).symm
  exact ⟨path, _, hrun, hacts, by decide +kernel, by decide +kernel,
    table_owned hrun (by decide +kernel)⟩

end VectorEngine.ReactorLoop
