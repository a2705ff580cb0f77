import VectorEngine.Proofs.Session.Chunks

/-!
# `VectorEngine.Proofs.Session.Limit`: the request size limit

On a stream of valid frames, a session makes `Progress`: the first frames are complete and
dispatched, and the data is a proper prefix of the next one. `drain_frames_prefix` is what
the parser does with such data, and `run_progress` follows a run.

The room that `on_alloc` hands out is used up exactly when the data has reached the limit.
So `request_limit_exact` says that the limit cuts off the frames that are longer, and no
others.
-/

set_option autoImplicit false

namespace VectorEngine

open VectorEngine.Resp
open VectorEngine.Stream

variable {A : Allocator}

/-- `t` is a proper prefix of the next frame. Behind the last frame it is empty. -/
def Incomplete : List ByteString → ByteString → Prop
  | [], t => t = []
  | u :: _, t => ∃ x, x ≠ [] ∧ u = t ++ x

/-- Nothing has arrived of the next frame. -/
theorem incomplete_nil {cmds : List RespCommand} {us : List ByteString}
    (hframes : List.Forall₂ Frame cmds us) : Incomplete us [] := by
  cases hframes with
  | nil => rfl
  | @cons cmd u _ _ hu _ =>
    have hne : u ≠ [] := List.ne_nil_of_length_pos (by
      have := hu.length_ge.1
      omega)
    exact ⟨u, hne, rfl⟩

/-- What has arrived of the next frame does not reach a limit that the frame is within. -/
theorem Incomplete.length_ne {us : List ByteString} {i : Nat} {t : ByteString} {maxSize : Nat}
    (h : Incomplete (us.drop i) t) (hpos : 0 < maxSize)
    (hwithin : ∀ u ∈ us.take (i + 1), u.length ≤ maxSize) : t.length ≠ maxSize := by
  cases hdrop : us.drop i with
  | nil =>
    -- There is no next frame.
    rw [hdrop] at h
    have ht : t = [] := h
    rw [ht, List.length_nil]
    omega
  | cons u rest =>
    rw [hdrop] at h
    obtain ⟨x, hx, hu⟩ := h
    have hmem : u ∈ us.take (i + 1) := by
      rw [List.take_add, hdrop]
      simp
    have hule := hwithin u hmem
    have hpos := List.length_pos_of_ne_nil hx
    rw [hu, List.length_append] at hule
    omega

/-- The parser on a part of a stream of frames: it takes those that are complete. -/
theorem drain_frames_prefix (hA : A.Succeeds) {cmds : List RespCommand}
    {us : List ByteString} (hframes : List.Forall₂ Frame cmds us)
    (hlen : ∀ u ∈ us, u.length < 2 ^ 63) : ∀ {l x : List Byte}, l ++ x = us.flatten →
      l.length < 2 ^ 32 →
      ∃ i t, i ≤ us.length ∧ l = (us.take i).flatten ++ t ∧ Incomplete (us.drop i) t ∧
        (scanCommand A).drain l = .ok (cmds.take i, t) := by
  induction hframes with
  | nil =>
    intro l x hl _
    have hnil : l = [] := (List.append_eq_nil_iff.mp hl).1
    subst hnil
    exact ⟨0, [], Nat.le_refl _, rfl, rfl, Scanner.drain_more rfl⟩
  | @cons cmd u cmds us hu hus ih =>
    intro l x hl hshort
    have hu63 := hlen u (by simp)
    have hstr : ∀ s ∈ cmd.name :: cmd.args, s.length < 2 ^ 63 := by
      intro s hs
      have := hu.length_ge.2 s hs
      omega
    rw [List.flatten_cons] at hl
    -- Either `l` ends inside the first frame, or it holds all of it.
    rcases List.append_eq_append_iff.mp hl with ⟨c, hc, -⟩ | ⟨c, hc, hx⟩
    · by_cases hempty : c = []
      · rw [hempty, List.append_nil] at hc
        subst hc
        refine ⟨1, [], by simp, by simp, incomplete_nil hus, ?_⟩
        have hdone := scanCommand_complete (hu.countable hshort)
          ⟨hA.reserve _, fun s hs => hA.string _ (hstr s hs)⟩ _ hu []
        rw [List.append_nil] at hdone
        rw [Scanner.drain_done (consumes_scanCommand A) hdone, Scanner.drain_more rfl]
        rfl
      · refine ⟨0, l, Nat.zero_le _, rfl, ⟨c, hempty, hc⟩, ?_⟩
        exact Scanner.drain_more (scanCommand_more (hc ▸ hu) hempty hstr hA)
    · subst hc
      rw [List.length_append] at hshort
      obtain ⟨i, t, hi, ht, hinc, hdrain⟩ :=
        ih (fun u' hu' => hlen u' (by simp [hu'])) hx.symm (by omega)
      have hdone := scanCommand_complete (hu.countable (by omega))
        ⟨hA.reserve _, fun s hs => hA.string _ (hstr s hs)⟩ _ hu c
      refine ⟨i + 1, t, by simpa using hi, ?_, hinc, ?_⟩
      · rw [List.take_succ_cons, List.flatten_cons, List.append_assoc, ← ht]
      · rw [Scanner.drain_done (consumes_scanCommand A) hdone, hdrain]
        rfl

namespace Session

variable {s : Session} {R : ByteString} {cmds : List RespCommand} {us : List ByteString}

/-- The session has received `R`: the first `i` frames, which are dispatched and within the
limit, and `t` of the next one, which is the data. -/
structure Progress (cmds : List RespCommand) (us : List ByteString) (maxSize : Nat)
    (R : ByteString) (s : Session) (i : Nat) (t : ByteString) : Prop where
  ready : s.Ready
  limit : s.limit = maxSize
  le : i ≤ us.length
  received : R = (us.take i).flatten ++ t
  incomplete : Incomplete (us.drop i) t
  dispatched : s.dispatched.flatten = (cmds.take i).map RespTaskCreator.create
  data : s.data = t
  within : ∀ u ∈ us.take i, u.length ≤ maxSize

/-- A callback makes progress. -/
theorem step_progress (hA : A.Succeeds) {maxSize : Nat} (hmax : maxSize < 2 ^ 32)
    (hframes : List.Forall₂ Frame cmds us) (hlen : ∀ u ∈ us, u.length < 2 ^ 63) {i : Nat}
    {t : ByteString} (h : s.Progress cmds us maxSize R i t) {e : ReadEvent}
    (hallows : s.Allows e) (hreceived : R ++ e.bytes <+: us.flatten) :
    ∃ i' t', (s.step A e).Progress cmds us maxSize (R ++ e.bytes) i' t' := by
  cases e with
  | alloc suggestedSize =>
    obtain ⟨hready, hdata, hdisp, hlimit⟩ := step_alloc A h.ready suggestedSize
    have hbytes : R ++ ReadEvent.bytes (.alloc suggestedSize) = R := List.append_nil R
    rw [hbytes]
    exact ⟨i, t, hready, hlimit.trans h.limit, h.le, h.received, h.incomplete,
      hdisp ▸ h.dispatched, hdata.trans h.data, h.within⟩
  | idle =>
    have hbytes : R ++ ReadEvent.bytes .idle = R := List.append_nil R
    rw [hbytes, step_idle]
    exact ⟨i, t, h⟩
  | data bytes =>
    have hread := h.ready.length_read_le hallows
    rw [h.data, h.limit] at hread
    -- What is left of the stream, from the start of the frame that is being received.
    obtain ⟨x, hx⟩ := hreceived
    have hrest : t ++ bytes ++ x = (us.drop i).flatten := by
      have hsplit : us.flatten = (us.take i).flatten ++ (us.drop i).flatten := by
        rw [← List.flatten_append, List.take_append_drop]
      rw [hsplit, h.received] at hx
      simpa [ReadEvent.bytes] using hx
    obtain ⟨j, t', hj, ht', hinc, hdrain⟩ := drain_frames_prefix hA
      (List.forall₂_drop i hframes) (fun u hu => hlen u (List.mem_of_mem_drop hu)) hrest
      (by omega)
    rw [← h.data] at hdrain
    obtain ⟨hready, hdata, hdisp, hlimit⟩ := step_data_ok h.ready hallows hdrain
    have htake : ∀ {α : Type} (l : List α), l.take (i + j) = l.take i ++ (l.drop i).take j :=
      fun l => List.take_add
    refine ⟨i + j, t', hready, hlimit.trans h.limit, ?_, ?_, ?_, ?_, hdata, ?_⟩
    · rw [List.length_drop] at hj
      have := h.le
      omega
    · rw [htake, List.flatten_append, List.append_assoc, ← ht', h.received, List.append_assoc]
      rfl
    · rw [← List.drop_drop]
      exact hinc
    · rw [hdisp, h.dispatched, htake, List.map_append]
    · intro u hu
      rw [htake, List.mem_append] at hu
      rcases hu with hu | hu
      · exact h.within u hu
      · -- A frame that is complete now was in the buffer as a whole.
        have hle := (List.sublist_flatten_of_mem hu).length_le
        rw [ht', List.length_append] at hread
        omega

/-- A run makes progress. -/
theorem run_progress (hA : A.Succeeds) {maxSize : Nat} (hmax : maxSize < 2 ^ 32)
    (hframes : List.Forall₂ Frame cmds us) (hlen : ∀ u ∈ us, u.length < 2 ^ 63)
    (events : List ReadEvent) : ∀ {s : Session} {R : ByteString} {i : Nat} {t : ByteString},
    s.Progress cmds us maxSize R i t → s.Admissible A events →
    R ++ VectorEngine.received events <+: us.flatten →
    ∃ i' t', (s.run A events).Progress cmds us maxSize (R ++ VectorEngine.received events)
      i' t' := by
  induction events with
  | nil =>
    intro s R i t h _ _
    rw [VectorEngine.received, List.append_nil]
    exact ⟨i, t, h⟩
  | cons e events ih =>
    intro s R i t h hadm hreceived
    rw [received_cons, ← List.append_assoc] at hreceived ⊢
    have hprefix : R ++ e.bytes <+: us.flatten :=
      (List.prefix_append _ _).trans hreceived
    obtain ⟨i', t', h'⟩ := step_progress hA hmax hframes hlen h hadm.1 hprefix
    exact ih h' hadm.2 hreceived

end Session

open Session

/-- **The request size limit is exact.** On a stream of valid frames, all complete frames are
dispatched, each of them is within the limit, and the data is the part of the next frame that has
arrived. `on_alloc` hands out nothing exactly when that part has reached the limit, which does not
happen while the frames are within it. The limit is on one frame and not on the stream, since the
bytes of a complete frame leave the buffer in the read that completes it. -/
theorem request_limit_exact (A : Allocator) (hA : A.Succeeds) (id : ConnectionId)
    (minSize maxSize : Nat) (hmin : 0 < minSize) (hle : minSize ≤ maxSize)
    (hmax : maxSize < 2 ^ 32) (conn : Connection)
    (hconn : Connection.init id minSize maxSize .resp = .ok conn) (cmds : List RespCommand)
    (us : List ByteString) (hframes : List.Forall₂ Frame cmds us)
    (hlen : ∀ u ∈ us, u.length < 2 ^ 63) (events : List ReadEvent)
    (hadm : (start conn).Admissible A events) (hreceived : received events <+: us.flatten) :
    ∃ i t, i ≤ us.length ∧ received events = (us.take i).flatten ++ t ∧
      Incomplete (us.drop i) t ∧
      ((start conn).run A events).status = .opened ∧
      ((start conn).run A events).dispatched.flatten
        = (cmds.take i).map RespTaskCreator.create ∧
      ((start conn).run A events).conn.readBuf.data = t ∧
      (∀ u ∈ us.take i, u.length ≤ maxSize) ∧
      ∀ suggestedSize, 0 < suggestedSize →
        ∃ conn' base len,
          ((start conn).run A events).conn.onAlloc suggestedSize = .ok (conn', base, len) ∧
          (len = 0 ↔ t.length = maxSize) ∧
          ((∀ u ∈ us.take (i + 1), u.length ≤ maxSize) → 0 < len) := by
  obtain ⟨hready, hdata, hlimit⟩ := start_ready hmin hle (by omega) hconn
  have hstart : (start conn).Progress cmds us maxSize [] 0 [] :=
    ⟨hready, hlimit, Nat.zero_le _, rfl, incomplete_nil hframes, rfl, hdata,
      fun u hu => nomatch hu⟩
  obtain ⟨i, t, h⟩ := run_progress hA hmax hframes hlen events hstart hadm hreceived
  refine ⟨i, t, h.le, h.received, h.incomplete, h.ready.opened, h.dispatched, h.data, h.within,
    fun suggestedSize hpos => ?_⟩
  obtain ⟨conn', len, halloc, hiff⟩ := onAlloc_spec h.ready hpos
  rw [h.data, h.limit] at hiff
  refine ⟨conn', _, len, halloc, hiff, fun hwithin => ?_⟩
  -- The next frame is within the limit, and its part is shorter.
  have hshort : t.length ≠ maxSize := h.incomplete.length_ne (by omega) hwithin
  have hne : len ≠ 0 := fun h0 => hshort (hiff.mp h0)
  omega

/-- The first eight bytes of a `PING` fill a buffer of at most eight. They are the data, as no
frame is complete, and nothing was dispatched. -/
theorem request_limit_exact_ping :
    ∃ conn, Connection.init 0 4 8 .resp = .ok conn ∧
      ∃ i t, received [.alloc 8, .data (pingFrame.take 8)] = ([pingFrame].take i).flatten ++ t ∧
        ((start conn).run .ample [.alloc 8, .data (pingFrame.take 8)]).dispatched.flatten
          = ([ping].take i).map RespTaskCreator.create ∧
        ((start conn).run .ample [.alloc 8, .data (pingFrame.take 8)]).conn.readBuf.data = t := by
  refine ⟨_, rfl, ?_⟩
  obtain ⟨i, t, -, hreceived, -, -, hdispatched, hdata, -⟩ :=
    request_limit_exact .ample Allocator.ample_succeeds 0 4 8 (by decide) (by decide)
      (by decide) _ rfl [ping] [pingFrame] (.cons frame_pingFrame .nil) (by decide +kernel)
      [.alloc 8, .data (pingFrame.take 8)] (by decide +kernel)
      ⟨pingFrame.drop 8, by decide +kernel⟩
  exact ⟨i, t, hreceived, hdispatched, hdata⟩

end VectorEngine
