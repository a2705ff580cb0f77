import VectorEngine.Proofs.ReactorLoop.Table
import VectorEngine.Proofs.Session.Assertions

/-!
# `VectorEngine.Proofs.ReactorLoop.Sessions`: the connections of a loop are sessions

A `Session` is one connection under libuv's promises. The event loop serves many, which it finds
through the handles and the heap. `session_of_run` connects the two: in every run of the loop,
the callbacks on one handle are callbacks that its session permits, and the `Connection` on the
heap is what the session makes of them. So what is proved of a session holds of every connection
of a loop, whatever happens on the others in between.

`unfailed_of_run` is such a result: no callback that the loop can make ends in a failed
assertion of the read path.
-/

set_option autoImplicit false

namespace VectorEngine

open VectorEngine.Memory
open VectorEngine.Transition

/-- The callbacks may come one after another when the last of them may come behind the
others. -/
theorem Session.Permitted.snoc {A : Allocator} {c : Callback} : ∀ {cs : List Callback}
    {s : Session}, s.Permitted A cs → (cs.foldl (Session.handle A) s).Permits c →
    s.Permitted A (cs ++ [c]) := by
  intro cs
  induction cs with
  | nil => exact fun _ hc => ⟨hc, trivial⟩
  | cons c' cs ih => exact fun h hc => ⟨h.1, ih h.2 hc⟩

namespace ReactorLoop

variable {opts : ReactorOptions} {A : Allocator} {s s' : ReactorLoop} {a : Action} {p : Ptr}
  {session : Session}

/-- The callback of a session that a step of the loop is, on the handle `p`. -/
def callbackOn (p : Ptr) : Action → Option Callback
  | .alloc handle suggestedSize =>
    if handle = p then some (.event (.alloc suggestedSize)) else none
  | .read handle bytes => if handle = p then some (.event (.data bytes)) else none
  | .readEnd handle nread =>
    if handle = p then some (if nread < 0 then .failed nread else .event .idle) else none
  | .connect _ _ | .close _ | .send _ | .reply _ | .write _ _ => none

/-- The callbacks on the handle `p`, in their order. -/
def callbacksOn (p : Ptr) (path : List (ReactorLoop × Action)) : List Callback :=
  path.filterMap fun q => callbackOn p q.2

/-- The callbacks on a handle along one step more: those before, and that of the step if it is on
the handle. -/
theorem callbacksOn_snoc (p : Ptr) (path : List (ReactorLoop × Action)) (s : ReactorLoop)
    (a : Action) :
    callbacksOn p (path ++ [(s, a)]) = callbacksOn p path ++ (callbackOn p a).toList := by
  rw [callbacksOn, List.filterMap_append]
  cases hc : callbackOn p a <;> simp [callbacksOn, hc]

/-- The connection of the handle `p` is as the session has it. The heap has the `Connection`,
libuv has the room and whether it reads, and the session has all of it in one place. -/
structure Mirrors (s : ReactorLoop) (p : Ptr) (session : Session) : Prop where
  conn : s.conns.objects p = some session.conn
  status : session.status = if s.closes p = 0 then .opened else .closing
  grant : session.grant = (s.room p).2
  base : session.grant = 0 ∨ session.base = (s.room p).1

/-! ### The callbacks on the handle -/

/-- The `Connection` that a callback on the handle is given. -/
theorem Mirrors.connectionOf (h : s.Mirrors p session) (hinv : s.Inv) (hreads : s.Reads p) :
    s.connectionOf p = some (p, session.conn) := by
  have hhandle := hinv.handles p
  rw [if_pos (hinv.open_of_reads hreads)] at hhandle
  unfold ReactorLoop.connectionOf
  rw [hhandle]
  simp [h.conn]

/-- A handle that libuv reads from is not being closed. -/
theorem Mirrors.opened (h : s.Mirrors p session) (hreads : s.Reads p) :
    session.status = .opened := by
  rw [h.status, if_pos hreads.2]

/-- `on_alloc` -/
theorem Mirrors.alloc (h : s.Mirrors p session) (hinv : s.Inv) {suggestedSize : Nat}
    (hs : s.step opts A (.alloc p suggestedSize) = some s') :
    session.Permits (.event (.alloc suggestedSize)) ∧
      s'.Mirrors p (session.handle A (.event (.alloc suggestedSize))) := by
  obtain ⟨hreads, hs⟩ := Option.ite_none_right_eq_some.mp hs
  refine ⟨h.opened hreads, ?_⟩
  simp only [onAlloc, h.connectionOf hinv hreads] at hs
  show s'.Mirrors p (session.step A (.alloc suggestedSize))
  rw [Session.step]
  cases halloc : session.conn.onAlloc suggestedSize with
  | error e =>
    rw [halloc] at hs
    cases hs
  | ok out =>
    obtain ⟨conn, base, len⟩ := out
    rw [halloc] at hs
    cases hs
    exact { conn := Heap.objects_store_self
            status := h.status
            grant := by simp
            base := Or.inr (by simp) }

/-- `on_read` with data. -/
theorem Mirrors.read (h : s.Mirrors p session) (hinv : s.Inv) {bytes : ByteString}
    (hs : s.step opts A (.read p bytes) = some s') :
    session.Permits (.event (.data bytes)) ∧
      s'.Mirrors p (session.handle A (.event (.data bytes))) := by
  obtain ⟨⟨hreads, hne, hlen⟩, hs⟩ := Option.ite_none_right_eq_some.mp hs
  have hpos := List.length_pos_of_ne_nil hne
  have hgrant := h.grant
  refine ⟨⟨h.opened hreads, hne, by omega⟩, ?_⟩
  -- The read goes to the room that was handed out last, which has not moved.
  have hbase : session.base = (s.room p).1 := h.base.resolve_left (by omega)
  simp only [onRead, h.connectionOf hinv hreads, ← hbase] at hs
  show s'.Mirrors p (session.step A (.data bytes))
  rw [Session.step]
  cases hread : Connection.onRead A
      { session.conn with readBuf := session.conn.readBuf.write session.base bytes }
      bytes.length with
  -- The loop has no state behind an exception that ends the process.
  | error e =>
    rw [hread] at hs
    cases hs
  | ok out =>
    obtain ⟨conn, effects⟩ := out
    rw [hread] at hs
    obtain ⟨-, heffects⟩ := Connection.onRead_cases hread
    rcases heffects with rfl | rfl | ⟨tasks, rfl⟩
    · -- Nothing is asked for.
      cases hs
      exact { conn := Heap.objects_store_self
              status := h.status
              grant := by simp [Session.afterRead]
              base := Or.inl rfl }
    · -- `handle_close`: the handle is closed, and so is the session.
      cases hs
      exact { conn := Heap.objects_store_self
              status := by simp [Session.afterRead, Session.applyEffect, applyEffect, handleClose]
              grant := by simp [Session.afterRead, Session.applyEffect, applyEffect, handleClose]
              base := Or.inl rfl }
    · -- The dispatch leaves the loop.
      cases hs
      exact { conn := Heap.objects_store_self
              status := h.status
              grant := by simp [Session.afterRead, Session.applyEffect, applyEffect]
              base := Or.inl rfl }

/-- `on_read` with `nread <= 0`. -/
theorem Mirrors.readEnd (h : s.Mirrors p session) {nread : Int}
    (hs : s.step opts A (.readEnd p nread) = some s') :
    session.Permits (if nread < 0 then .failed nread else .event .idle) ∧
      s'.Mirrors p (session.handle A (if nread < 0 then .failed nread else .event .idle)) := by
  obtain ⟨⟨hreads, -⟩, hs⟩ := Option.ite_none_right_eq_some.mp hs
  cases hs
  by_cases hneg : nread < 0
  · have hread : session.conn.onRead A nread = .ok (session.conn, [.handleClose]) := by
      unfold Connection.onRead
      rw [if_neg (by omega), if_pos hneg]
    rw [if_pos hneg, onReadEnd, if_pos hneg]
    refine ⟨⟨h.opened hreads, hneg⟩, ?_⟩
    show (s.handleClose p).Mirrors p (session.afterRead (session.conn.onRead A nread))
    rw [hread]
    exact { conn := h.conn
            status := by simp [Session.afterRead, Session.applyEffect, handleClose]
            grant := h.grant
            base := h.base }
  · rw [if_neg hneg, onReadEnd, if_neg hneg]
    exact ⟨h.opened hreads, h⟩

/-- A step of the loop that is a callback on the handle. -/
theorem Mirrors.callback (h : s.Mirrors p session) (hinv : s.Inv) {c : Callback}
    (hc : callbackOn p a = some c) (hs : s.step opts A a = some s') :
    session.Permits c ∧ s'.Mirrors p (session.handle A c) := by
  cases a with
  | alloc handle suggestedSize =>
    obtain ⟨rfl, hcall⟩ := Option.ite_none_right_eq_some.mp hc
    cases hcall
    exact h.alloc hinv hs
  | read handle bytes =>
    obtain ⟨rfl, hcall⟩ := Option.ite_none_right_eq_some.mp hc
    cases hcall
    exact h.read hinv hs
  | readEnd handle nread =>
    obtain ⟨rfl, hcall⟩ := Option.ite_none_right_eq_some.mp hc
    cases hcall
    exact h.readEnd hs
  | connect status accepted => cases hc
  | close handle => cases hc
  | send replies => cases hc
  | reply accepted => cases hc
  | write w status => cases hc

/-- A callback on the handle comes while libuv reads from it. -/
theorem reads_of_callbackOn {c : Callback} (hc : callbackOn p a = some c)
    (hs : s.step opts A a = some s') : s.Reads p := by
  cases a with
  | alloc handle suggestedSize =>
    obtain ⟨rfl, -⟩ := Option.ite_none_right_eq_some.mp hc
    exact (Option.ite_none_right_eq_some.mp hs).1
  | read handle bytes =>
    obtain ⟨rfl, -⟩ := Option.ite_none_right_eq_some.mp hc
    exact (Option.ite_none_right_eq_some.mp hs).1.1
  | readEnd handle nread =>
    obtain ⟨rfl, -⟩ := Option.ite_none_right_eq_some.mp hc
    exact (Option.ite_none_right_eq_some.mp hs).1.1
  | connect status accepted => cases hc
  | close handle => cases hc
  | send replies => cases hc
  | reply accepted => cases hc
  | write w status => cases hc

/-! ### The other steps -/

/-- Replies do not touch the connections. -/
theorem foldl_sendReply_conns (outs : List (Reply × Bool)) : ∀ (s : ReactorLoop),
    (outs.foldl sendReply s).conns = s.conns ∧ (outs.foldl sendReply s).closes = s.closes ∧
      (outs.foldl sendReply s).room = s.room ∧ (outs.foldl sendReply s).reading = s.reading := by
  induction outs with
  | nil => exact fun _ => ⟨rfl, rfl, rfl, rfl⟩
  | cons out outs ih =>
    intro s
    rw [List.foldl_cons]
    obtain ⟨hconns, hcloses, hroom, hreading⟩ := ih (s.sendReply out)
    rw [hconns, hcloses, hroom, hreading]
    cases hentry : s.connections out.1.connectionId with
    | none =>
      rw [sendReply_none hentry]
      exact ⟨rfl, rfl, rfl, rfl⟩
    | some handle =>
      rw [sendReply_some hentry]
      exact ⟨rfl, rfl, rfl, rfl⟩

/-- What the loop has of a client stays the same. The steps on other clients, on replies and on
writes are of this kind, which is what makes the connections of a loop independent. -/
structure Unchanged (s s' : ReactorLoop) (p : Ptr) : Prop where
  objects : s'.conns.objects p = s.conns.objects p
  closes : s'.closes p = s.closes p
  room : s'.room p = s.room p
  reading : s'.reading p = s.reading p

/-- A step that leaves a client alone leaves it in the state of its session. -/
theorem Unchanged.mirrors (h : Unchanged s s' p) (hm : s.Mirrors p session) :
    s'.Mirrors p session where
  conn := h.objects.trans hm.conn
  status := by rw [h.closes]; exact hm.status
  grant := by rw [h.room]; exact hm.grant
  base := by rw [h.room]; exact hm.base

/-- A step that is no callback on the handle leaves a client alone, unless it creates or deletes
the client. -/
theorem unchanged_of_next (hinv : s.Inv) (hnext : s.Next a s') (hother : callbackOn p a = none)
    (hold : p ≠ s.conns.next) (hlive : s'.conns.Live p ∨ ¬ s.conns.Live p) :
    Unchanged s s' p := by
  -- A callback on another handle is on another object.
  have hne : ∀ {handle : Ptr} {c : Callback},
      (if handle = p then some c else none) = none → p ≠ handle := by
    intro handle c hnone heq
    rw [if_pos heq.symm] at hnone
    cases hnone
  cases hnext with
  | connect status accepted conn hid =>
    have hhandle : p ≠ s.handles.next := by
      rw [hinv.next]
      exact hold
    exact ⟨Heap.objects_new_of_ne hold, Function.update_of_ne hhandle _ _, rfl,
      Function.update_of_ne hhandle _ _⟩
  | alloc handle suggestedSize connection conn conn' room hreads hconn hid =>
    obtain ⟨-, rfl, -⟩ := hinv.open_of_connectionOf hconn
    exact ⟨Heap.objects_store_of_ne (hne hother), rfl,
      Function.update_of_ne (hne hother) _ _, rfl⟩
  | read handle bytes connection conn conn' n hreads hconn hid hn =>
    obtain ⟨-, rfl, -⟩ := hinv.open_of_connectionOf hconn
    exact ⟨Heap.objects_store_of_ne (hne hother), Function.update_of_ne (hne hother) _ _,
      Function.update_of_ne (hne hother) _ _, rfl⟩
  | readEnd handle nread n hreads hn =>
    exact ⟨rfl, Function.update_of_ne (hne hother) _ _, rfl, rfl⟩
  | close handle connection conn hmem hcloses hconn =>
    obtain ⟨hopen, rfl, -⟩ := hinv.open_of_connectionOf hconn
    -- What is deleted was live before and is not afterwards, so that it is not `p`.
    have hdelete : p ≠ connection := by
      rintro rfl
      rcases hlive with hlive | hdead
      · exact (Heap.live_delete.mp hlive).1 rfl
      · exact hdead ((hinv.conns p).mpr hopen)
    exact ⟨Heap.objects_delete_of_ne hdelete, rfl, rfl, rfl⟩
  | reply accepted hlen =>
    obtain ⟨hconns, hcloses, hroom, hreading⟩ :=
      foldl_sendReply_conns (s.replies.zip accepted) { s with replies := [] }
    exact ⟨congrArg (fun h => h.objects p) hconns, congrFun hcloses p, congrFun hroom p,
      congrFun hreading p⟩
  | _ => exact ⟨rfl, rfl, rfl, rfl⟩

/-! ### Runs -/

/-- After the run, the handle of each client that is read from mirrors a session: the one that
starts with the client's `Connection`, after the callbacks of the run on the handle. -/
structure Sessions (opts : ReactorOptions) (A : Allocator) (path : List (ReactorLoop × Action))
    (s : ReactorLoop) : Prop where
  /-- Nothing has happened yet on a handle that was not made. -/
  fresh : ∀ p, s.conns.next ≤ p → callbacksOn p path = [] ∧ s.room p = (0, 0)
  mirrors : ∀ p, s.conns.Live p → s.reading p = true →
    ∃ conn, Connection.init p opts.connectionOpts.readBufMinSize
        opts.connectionOpts.readBufMaxSize opts.protocolOpts = .ok conn ∧
      (Session.start conn).Permitted A (callbacksOn p path) ∧
      s.Mirrors p ((callbacksOn p path).foldl (Session.handle A) (.start conn))

/-- A client that is created. -/
theorem connect_cases {status : Int} {accepted : Bool}
    (hs : s.step opts A (.connect status accepted) = some s') :
    s' = s ∨ ∃ conn, Connection.init s.connectionCnt opts.connectionOpts.readBufMinSize
        opts.connectionOpts.readBufMaxSize opts.protocolOpts = .ok conn ∧
      s' = s.afterConnect conn accepted := by
  replace hs : s.onConnect opts status accepted = some s' := hs
  unfold onConnect createClient at hs
  simp only [bind, Except.bind] at hs
  -- An error of the connection request makes no client.
  by_cases hstatus : status < 0
  · rw [if_pos hstatus] at hs
    cases hs
    exact Or.inl rfl
  · rw [if_neg hstatus] at hs
    cases hconn : Connection.init s.connectionCnt opts.connectionOpts.readBufMinSize
        opts.connectionOpts.readBufMaxSize opts.protocolOpts with
    | error e =>
      rw [hconn] at hs
      cases hs
    | ok conn =>
      rw [hconn] at hs
      refine Or.inr ⟨conn, rfl, ?_⟩
      -- A client that is not accepted is closed at once.
      cases accepted with
      | true =>
        cases hs
        simp [afterConnect, readStart, emplace_emplace]
      | false =>
        cases hs
        simp [afterConnect, handleClose, emplace_emplace]

/-- A step leaves a handle that is not made alone. -/
theorem callbackOn_of_le (hinv : s.Inv) (hnext : s.Next a s') (hle : s.conns.next ≤ p) :
    callbackOn p a = none := by
  have hne : ∀ {handle : Ptr}, s.Reads handle → handle ≠ p := by
    rintro handle hreads rfl
    exact Nat.not_lt.mpr hle (hinv.reading handle hreads.1)
  cases hnext with
  | allocFault handle suggestedSize hreads hlost => exact if_neg (hne hreads)
  | alloc handle suggestedSize connection conn conn' room hreads hconn hid =>
    exact if_neg (hne hreads)
  | readFault handle bytes hreads hlost => exact if_neg (hne hreads)
  | read handle bytes connection conn conn' n hreads hconn hid hn => exact if_neg (hne hreads)
  | readEnd handle nread n hreads hn => exact if_neg (hne hreads)
  | _ => rfl

/-- Nor is there room in it. -/
theorem room_of_le (hinv : s.Inv) (hnext : s.Next a s') (hle : s.conns.next ≤ p) :
    s'.room p = s.room p := by
  have hne : ∀ {handle : Ptr}, s.Reads handle → p ≠ handle := by
    rintro handle hreads rfl
    exact Nat.not_lt.mpr hle (hinv.reading p hreads.1)
  cases hnext with
  | alloc handle suggestedSize connection conn conn' room hreads hconn hid =>
    exact Function.update_of_ne (hne hreads) _ _
  | read handle bytes connection conn conn' n hreads hconn hid hn =>
    exact Function.update_of_ne (hne hreads) _ _
  | reply accepted hlen =>
    obtain ⟨-, -, hroom, -⟩ :=
      foldl_sendReply_conns (s.replies.zip accepted) { s with replies := [] }
    exact congrFun hroom p
  | _ => rfl

/-- Only `_on_connect` creates a `Connection`. -/
theorem next_of_next (hnext : s.Next a s') :
    s'.conns.next = s.conns.next ∨
      (∃ status accepted, a = .connect status accepted) ∧ s'.conns.next = s.conns.next + 1 := by
  cases hnext with
  | connect status accepted conn hid => exact Or.inr ⟨⟨status, accepted, rfl⟩, rfl⟩
  | reply accepted hlen =>
    have hconns := (foldl_sendReply_conns (s.replies.zip accepted) { s with replies := [] }).1
    exact Or.inl (congrArg Heap.next hconns)
  | _ => exact Or.inl rfl

/-- A client that is created, and read from. -/
theorem Sessions.connect {path : List (ReactorLoop × Action)} (h : s.Sessions opts A path)
    (hinv : s.Inv) {status : Int} {accepted : Bool}
    (hs : s.step opts A (.connect status accepted) = some s')
    (hlive : s'.conns.Live s.conns.next) (hreading : s'.reading s.conns.next = true) :
    ∃ conn, Connection.init s.conns.next opts.connectionOpts.readBufMinSize
        opts.connectionOpts.readBufMaxSize opts.protocolOpts = .ok conn ∧
      s'.Mirrors s.conns.next (.start conn) := by
  have hnew : s.reading s.conns.next = false :=
    Bool.eq_false_of_not_eq_true fun hread => Nat.lt_irrefl _ (hinv.reading _ hread)
  rcases connect_cases hs with rfl | ⟨conn, hconn, rfl⟩
  · exact absurd (hinv.connsWf.lt_next hlive) (Nat.lt_irrefl _)
  · refine ⟨conn, hinv.cnt ▸ hconn, ?_⟩
    -- It is read from, so it was accepted.
    have haccepted : accepted = true := by
      simpa [afterConnect, hinv.next, hnew] using hreading
    have hcloses := hinv.closes_new s.conns.next (Nat.le_refl _)
    exact { conn := Heap.objects_new_self
            status := by simp [afterConnect, hinv.next, hcloses, haccepted, Session.start]
            grant := (congrArg Prod.snd (h.fresh _ (Nat.le_refl _)).2).symm
            base := Or.inl rfl }

/-- One step. -/
theorem Sessions.snoc {path : List (ReactorLoop × Action)} (h : s.Sessions opts A path)
    (hinv : s.Inv) (hinv' : s'.Inv) (hs : s.step opts A a = some s') :
    s'.Sessions opts A (path ++ [(s, a)]) := by
  have hnext := next_of_step hs
  have hle : s.conns.next ≤ s'.conns.next := by
    rcases next_of_next hnext with heq | ⟨-, heq⟩
    · exact Nat.le_of_eq heq.symm
    · rw [heq]
      exact Nat.le_succ _
  constructor
  · -- A handle that is not there yet has had no callback.
    intro p hp
    have hold : s.conns.next ≤ p := Nat.le_trans hle hp
    obtain ⟨hcallbacks, hroom⟩ := h.fresh p hold
    rw [callbacksOn_snoc, hcallbacks, callbackOn_of_le hinv hnext hold]
    exact ⟨rfl, (room_of_le hinv hnext hold).trans hroom⟩
  · intro p hlive hreading
    rw [callbacksOn_snoc]
    by_cases hnew : p = s.conns.next
    · -- Only `_on_connect` makes it live, and its session starts there.
      subst hnew
      rw [(h.fresh _ (Nat.le_refl s.conns.next)).1,
        callbackOn_of_le hinv hnext (Nat.le_refl s.conns.next)]
      rcases next_of_next hnext with hsame | ⟨⟨status, accepted, rfl⟩, -⟩
      · have hlt := hinv'.connsWf.lt_next hlive
        rw [hsame] at hlt
        exact absurd hlt (Nat.lt_irrefl _)
      · obtain ⟨conn, hconn, hmirrors⟩ := h.connect hinv hs hlive hreading
        exact ⟨conn, hconn, trivial, hmirrors⟩
    · cases hc : callbackOn p a with
      | none =>
        -- The step is about something else.
        have hsame := unchanged_of_next hinv hnext hc hnew (Or.inl hlive)
        have hwas : s.conns.Live p := by
          unfold Heap.Live at hlive ⊢
          rw [← hsame.objects]
          exact hlive
        obtain ⟨conn, hconn, hpermitted, hmirrors⟩ := h.mirrors p hwas (hsame.reading ▸ hreading)
        rw [Option.toList_none, List.append_nil]
        exact ⟨conn, hconn, hpermitted, hsame.mirrors hmirrors⟩
      -- The callback is one that the session permits, and it is answered as the session does.
      | some c =>
        have hreads := reads_of_callbackOn hc hs
        have hwas := (hinv.conns p).mpr (hinv.open_of_reads hreads)
        obtain ⟨conn, hconn, hpermitted, hmirrors⟩ := h.mirrors p hwas hreads.1
        obtain ⟨hpermits, hmirrors'⟩ := hmirrors.callback hinv hc hs
        refine ⟨conn, hconn, hpermitted.snoc hpermits, ?_⟩
        rw [Option.toList_some, List.foldl_append]
        exact hmirrors'

/-- All handles at once. -/
theorem sessions_of_run {path : List (ReactorLoop × Action)}
    (hrun : Run (step opts A) init path s) :
    s.Paired ∧ (s.created.length < 2 ^ 64 → s.Inv ∧ s.Sessions opts A path) := by
  induction hrun with
  | nil =>
    exact ⟨.init, fun _ => ⟨.init, fun _ _ => ⟨rfl, rfl⟩, fun p hlive => nomatch hlive⟩⟩
  | @snoc path s s' a _ hs ih =>
    have hnext := next_of_step hs
    refine ⟨ih.1.next_step hnext, fun hlt => ?_⟩
    obtain ⟨hinv, hsessions⟩ := ih.2 (Nat.lt_of_le_of_lt (length_created_mono hnext) hlt)
    have hinv' := hinv.next_step ih.1 hnext hlt
    exact ⟨hinv', hsessions.snoc hinv hinv' hs⟩

/-- **The connections of a loop are sessions.** After any callbacks on any handles, while fewer
than `2 ^ 64` connections were created: the callbacks that were made on the handle of a client
that is read from are callbacks that its session permits, and its `Connection`, the room that
`on_alloc` has handed out, and whether it is being closed are as in the session. -/
theorem session_of_run {path : List (ReactorLoop × Action)} (hrun : Run (step opts A) init path s)
    (hfew : s.created.length < 2 ^ 64) {p : Ptr} (hlive : s.conns.Live p)
    (hreading : s.reading p = true) :
    ∃ conn, Connection.init p opts.connectionOpts.readBufMinSize
        opts.connectionOpts.readBufMaxSize opts.protocolOpts = .ok conn ∧
      (Session.start conn).Permitted A (callbacksOn p path) ∧
      s.Mirrors p ((callbacksOn p path).foldl (Session.handle A) (.start conn)) :=
  ((sessions_of_run hrun).2 hfew).2.mirrors p hlive hreading

/-- Two clients send a `PING` each, in turns, and the first goes. -/
def turnsActions : List Action :=
  [.connect 0 true, .connect 0 true, .alloc 0 64, .read 0 (Resp.pingFrame.take 5), .alloc 1 64,
    .read 1 Resp.pingFrame, .alloc 0 64, .read 0 (Resp.pingFrame.drop 5), .readEnd 1 0,
    .readEnd 0 (-4095)]

/-- The run of `turnsActions` goes through to its end. -/
theorem isSome_turnsActions :
    (exec (step smallOptions .standard) init turnsActions).isSome = true := by
  decide +kernel

/-- In the run of `turnsActions`, what the loop has of the first client is the session that saw
the first client's callbacks only. -/
theorem session_of_run_turns :
    ∃ path s, Run (step smallOptions .standard) init path s ∧
      path.map Prod.snd = turnsActions ∧
      ∃ conn, Connection.init 0 smallOptions.connectionOpts.readBufMinSize
          smallOptions.connectionOpts.readBufMaxSize smallOptions.protocolOpts = .ok conn ∧
        (Session.start conn).Permitted .standard (callbacksOn 0 path) ∧
        s.Mirrors 0 ((callbacksOn 0 path).foldl (Session.handle .standard) (.start conn)) := by
  obtain ⟨path, hrun, hacts⟩ := Run.exec turnsActions .nil
    (Option.some_get isSome_turnsActions).symm
  exact ⟨path, _, hrun, hacts,
    session_of_run hrun (by decide +kernel) (by decide +kernel) (by decide +kernel)⟩

/-- **No callback of a loop ends in a failed assertion.** Between any limits, after any callbacks
on any handles, while fewer than `2 ^ 64` connections were created: whatever callback libuv may
make next on a client, the assertions of `on_alloc`, `on_read` and the read buffer hold in it.
And no callback was given a deleted object before. -/
theorem unfailed_of_run (hmin : 0 < opts.connectionOpts.readBufMinSize)
    (hle : opts.connectionOpts.readBufMinSize ≤ opts.connectionOpts.readBufMaxSize)
    (hmax : opts.connectionOpts.readBufMaxSize ≤ 2 ^ 63) (hresp : opts.protocolOpts = .resp)
    {path : List (ReactorLoop × Action)} (hrun : Run (step opts A) init path s)
    (hfew : s.created.length < 2 ^ 64) {p : Ptr} (hreads : s.Reads p) :
    s.fault = false ∧ ∃ conn, s.conns.objects p = some conn ∧
      (∀ suggestedSize condition, conn.onAlloc suggestedSize ≠ .error (.assertion condition)) ∧
      (∀ bytes condition, bytes ≠ [] → bytes.length ≤ (s.room p).2 →
        Connection.onRead A { conn with readBuf := conn.readBuf.write (s.room p).1 bytes }
          bytes.length ≠ .error (.assertion condition)) ∧
      ∀ nread condition, nread ≤ 0 → conn.onRead A nread ≠ .error (.assertion condition) := by
  obtain ⟨hinv, hsessions⟩ := (sessions_of_run hrun).2 hfew
  have hlive := (hinv.conns p).mpr (hinv.open_of_reads hreads)
  obtain ⟨start, hstart, hpermitted, hmirrors⟩ := hsessions.mirrors p hlive hreads.1
  rw [hresp] at hstart
  have hsafe := Session.Safe.run _ (Or.inl (Session.start_ready hmin hle hmax hstart).1)
    hpermitted
  generalize (callbacksOn p path).foldl (Session.handle A) (.start start) = session
    at hmirrors hsafe
  have hopened := hmirrors.opened hreads
  -- After any callback that the session permits next, no assertion has failed.
  have hnext : ∀ c, session.Permits c → (session.handle A c).Unfailed :=
    fun c hc => (hsafe.handle hc).unfailed
  refine ⟨hinv.fault, _, hmirrors.conn, fun suggestedSize condition herror => ?_,
    fun bytes condition hne hlen herror => ?_, fun nread condition hnonpos herror => ?_⟩
  · refine hnext (.event (.alloc suggestedSize)) hopened condition ?_
    show (session.step A (.alloc suggestedSize)).status = _
    rw [Session.step, herror]
  · have hpos := List.length_pos_of_ne_nil hne
    have hgrant := hmirrors.grant
    have hbase := hmirrors.base.resolve_left (by omega)
    refine hnext (.event (.data bytes)) ⟨hopened, hne, by omega⟩ condition ?_
    show (session.step A (.data bytes)).status = _
    rw [Session.step, hbase]
    simp only [herror]
    rfl
  · -- Such a read closes the connection, or does nothing.
    unfold Connection.onRead at herror
    rw [if_neg (by omega)] at herror
    split at herror <;> cases herror

/-- At the end of `turnsActions` no deleted object was used, and no further callback on the second
client can break an assertion. -/
theorem unfailed_of_run_turns :
    ∃ path s, Run (step smallOptions .standard) init path s ∧
      path.map Prod.snd = turnsActions ∧ s.fault = false ∧
      ∃ conn, s.conns.objects 1 = some conn ∧
        ∀ nread condition, nread ≤ 0 →
          conn.onRead .standard nread ≠ .error (.assertion condition) := by
  obtain ⟨path, hrun, hacts⟩ := Run.exec turnsActions .nil
    (Option.some_get isSome_turnsActions).symm
  obtain ⟨hfault, conn, hconn, -, -, hend⟩ := unfailed_of_run (by decide) (by decide) (by decide)
    rfl hrun (by decide +kernel) (by decide +kernel : ReactorLoop.Reads _ 1)
  exact ⟨path, _, hrun, hacts, hfault, conn, hconn, hend⟩

end ReactorLoop

end VectorEngine
