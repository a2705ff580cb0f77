import VectorEngine.Proofs.Session.Chunks

/-!
# `VectorEngine.Proofs.Session.Errors`: what a malformed request takes with it

`parse` throws away the commands it has collected when it meets a malformed one. So the
commands of the read that brings the error are lost, and those of earlier reads are not.
`valid_dispatched_iff` says which ends of reads save the commands before the error.
-/

set_option autoImplicit false

namespace VectorEngine

open VectorEngine.Resp
open VectorEngine.Stream
open Session

variable {A : Allocator}

/-- Callbacks that come earlier deliver a prefix. -/
theorem received_mono {before events : List ReadEvent} (h : before <+: events) :
    received before <+: received events := by
  obtain ⟨rest, rfl⟩ := h
  exact ⟨received rest, (received_append before rest).symm⟩

/-- The parser behind frames that it can take. -/
theorem drain_frames {cmds : List RespCommand} {us : List ByteString}
    (hframes : List.Forall₂ Frame cmds us) (hcmds : ∀ cmd ∈ cmds, Countable cmd ∧ Granted A cmd)
    {m r : ByteString} {new : List RespCommand}
    (hm : (scanCommand A).drain m = .ok (new, r)) :
    (scanCommand A).drain (us.flatten ++ m) = .ok (cmds ++ new, r) := by
  rw [Scanner.drain_complete (consumes_scanCommand A) hframes
    (fun cmd h => scanCommand_complete (hcmds cmd h).1 (hcmds cmd h).2) m, hm,
    Scanner.prepend_ok]

/-- If the parser took as many commands off `R` as there are frames at the front, then it took
those of the frames, and did not throw behind them. -/
theorem saved_of_length_le {cmds all : List RespCommand} {us : List ByteString}
    (hframes : List.Forall₂ Frame cmds us) {R x M r : ByteString}
    (hM : M.length < 2 ^ 64) (hx : R ++ x = us.flatten ++ M)
    (hall : (scanCommand A).drain R = .ok (all, r)) (hlen : cmds.length ≤ all.length) :
    (∀ cmd ∈ cmds, Countable cmd ∧ Granted A cmd) ∧ us.flatten.length ≤ R.length ∧
      ∃ q, parse A (R.drop us.flatten.length) = .ok q := by
  obtain ⟨new, m, -, hm, hdrain, hmem⟩ := Scanner.drain_spelt (consumes_scanCommand A)
    (scanCommand_sound A) frame_unambiguous hframes hx hall hlen
  have hdrop : R.drop us.flatten.length = m := by
    rw [hm, List.drop_left]
  have hm64 : m.length < 2 ^ 64 := by
    have hlen' := congrArg List.length hx
    rw [hm, List.append_assoc, List.length_append, List.length_append,
      List.length_append] at hlen'
    omega
  refine ⟨fun cmd hcmd => ?_, ?_, ?_⟩
  · obtain ⟨l, r, hdone⟩ := hmem cmd hcmd
    exact scanCommand_done_granted hdone
  · rw [hm, List.length_append]
    omega
  · obtain ⟨n, hn, -⟩ := parse_of_drain hm64 hdrain
    exact ⟨_, hdrop ▸ hn⟩

/-- If `R` holds the frames at the front, and the parser does not throw behind them, then it
takes their commands off `R` first. -/
theorem drain_of_saved {cmds : List RespCommand} {us : List ByteString}
    (hframes : List.Forall₂ Frame cmds us) (hcmds : ∀ cmd ∈ cmds, Countable cmd ∧ Granted A cmd)
    {R M : ByteString} (hM : M.length < 2 ^ 64) (hR : R <+: us.flatten ++ M)
    (hlen : us.flatten.length ≤ R.length) {q : List RespCommand × Nat}
    (hparse : parse A (R.drop us.flatten.length) = .ok q) :
    ∃ new r, (scanCommand A).drain R = .ok (cmds ++ new, r) := by
  obtain ⟨m, rfl⟩ : us.flatten <+: R :=
    List.prefix_of_prefix_length_le (List.prefix_append _ _) hR hlen
  have hm64 : m.length < 2 ^ 64 := by
    have hle := hR.length_le
    rw [List.length_append, List.length_append] at hle
    omega
  obtain ⟨new, n⟩ := q
  rw [List.drop_left, parse_ok_iff hm64] at hparse
  exact ⟨new, _, drain_frames hframes hcmds hparse.2⟩

/-- **When a malformed request spares the valid ones before it.** In a run that ends with a throw,
the commands of the frames at the front were dispatched exactly when the parser can take each of
them, and some read ended behind them where what had arrived of the rest did not make the parser
throw. The read that throws dispatches nothing, so that the commands in front of the malformed one
depend on an earlier read to have ended between the two. -/
theorem valid_dispatched_iff (A : Allocator) (id : ConnectionId) (minSize maxSize : Nat)
    (hmin : 0 < minSize) (hle : minSize ≤ maxSize) (hmax : maxSize ≤ 2 ^ 63)
    (conn : Connection) (hconn : Connection.init id minSize maxSize .resp = .ok conn)
    (cmds : List RespCommand) (us : List ByteString) (hframes : List.Forall₂ Frame cmds us)
    (M : ByteString) (hM : M.length < 2 ^ 64) (events : List ReadEvent)
    (hadm : (start conn).Admissible A events)
    (hreceived : received events <+: us.flatten ++ M)
    (hclosed : ((start conn).run A events).status ≠ .opened) :
    cmds.map RespTaskCreator.create <+: ((start conn).run A events).dispatched.flatten ↔
      (∀ cmd ∈ cmds, Countable cmd ∧ Granted A cmd) ∧
        ∃ before, before <+: events ∧ us.flatten.length ≤ (received before).length ∧
          ∃ q, parse A ((received before).drop us.flatten.length) = .ok q := by
  rcases run_tracks events (start_tracks (A := A) hmin hle hmax hconn) hadm with
    htracks | ⟨before, e, rfl, hbefore, ⟨err, herror⟩, -, hdisp⟩
  · exact absurd htracks.ready.opened hclosed
  · rw [List.nil_append] at hbefore herror
    obtain ⟨all, hall, hdispatched⟩ := hbefore.parsed
    rw [hdisp, hdispatched]
    have hsub : received before <+: received (before ++ [e]) :=
      received_mono (List.prefix_append before [e])
    constructor
    · intro hprefix
      have hlen := hprefix.length_le
      rw [List.length_map, List.length_map] at hlen
      obtain ⟨x, hx⟩ := hsub.trans hreceived
      -- The commands are all from the reads before the one that threw.
      obtain ⟨hcmds, hbehind, hparse⟩ := saved_of_length_le hframes hM hx hall hlen
      exact ⟨hcmds, before, List.prefix_append before [e], hbehind, hparse⟩
    · rintro ⟨hcmds, early, hearly, hlen, q, hparse⟩
      obtain ⟨new, r, hdrain⟩ := drain_of_saved hframes hcmds hM
        ((received_mono hearly).trans hreceived) hlen hparse
      -- It was not the last read, which threw.
      have hnot : early <+: before := by
        rcases List.prefix_concat_iff.mp hearly with heq | hpre
        · rw [heq, herror] at hdrain
          cases hdrain
        · exact hpre
      obtain ⟨y, hy⟩ := received_mono hnot
      have hmore := Scanner.drain_append_of_ok (stable_scanCommand A) (consumes_scanCommand A)
        hdrain y
      rw [hy, hall] at hmore
      obtain ⟨rest, -, rfl⟩ := Scanner.prepend_eq_ok.mp hmore.symm
      rw [List.append_assoc, List.map_append]
      exact List.prefix_append _ _

/-- A `PING` is dispatched when the error behind it arrives in a read of its own, and is lost
when it arrives in the same read. -/
theorem valid_not_dispatched :
    ∃ conn, Connection.init 0 16 64 .resp = .ok conn ∧
      parse .ample (bytesOf "x") = .error (.error "expect *") ∧
      (start conn).Admissible .ample [.alloc 16, .data (pingFrame ++ bytesOf "x")] ∧
      ((start conn).run .ample [.alloc 16, .data (pingFrame ++ bytesOf "x")]).status
        = .closing ∧
      ¬ [.ping] <+: ((start conn).run .ample
        [.alloc 16, .data (pingFrame ++ bytesOf "x")]).dispatched.flatten ∧
      ((start conn).run .ample
        [.alloc 16, .data pingFrame, .alloc 16, .data (bytesOf "x")]).dispatched
        = [[.ping]] := by
  exact ⟨_, rfl, by decide +kernel, by decide +kernel, by decide +kernel, by decide +kernel,
    by decide +kernel⟩

/-- The `PING` and the error in two reads. The first read ends behind the `PING`, where nothing of
the error has arrived, so that the `PING` is dispatched. -/
theorem valid_dispatched_iff_ping :
    ∃ conn, Connection.init 0 16 64 .resp = .ok conn ∧
      [.ping] <+: ((start conn).run .ample
        [.alloc 16, .data pingFrame, .alloc 16, .data (bytesOf "x")]).dispatched.flatten := by
  refine ⟨_, rfl, ?_⟩
  have hcountable : Countable ping := frame_pingFrame.countable (by decide)
  have hgranted : Granted .ample ping :=
    ⟨rfl, fun s hs => if_pos (by rw [List.mem_singleton.mp hs]; decide)⟩
  have hbehind : parse .ample ((received [.alloc 16, .data pingFrame]).drop
      [pingFrame].flatten.length) = .ok ([], 0) := by decide +kernel
  refine (valid_dispatched_iff .ample 0 16 64 (by decide) (by decide) (by decide) _ rfl
    [ping] [pingFrame] (.cons frame_pingFrame .nil) (bytesOf "x") (by decide) _
    (by decide +kernel) ⟨[], by decide +kernel⟩ (by decide +kernel)).mpr ⟨fun cmd hcmd => ?_, ?_⟩
  · rw [List.mem_singleton.mp hcmd]
    exact ⟨hcountable, hgranted⟩
  · exact ⟨[.alloc 16, .data pingFrame], ⟨[.alloc 16, .data (bytesOf "x")], rfl⟩,
      by decide +kernel, _, hbehind⟩

end VectorEngine
