import VectorEngine.Proofs.Resp.Grammar
import VectorEngine.Resp.Builder

/-!
# `VectorEngine.Proofs.Resp.Encoding`: parsing undoes encoding

The builder writes frames of the grammar that the parser reads (`frame_command`). The round
trip follows from the completeness of the parser on frames, and from the fact that no proper
prefix of a frame is taken or refused.
-/

set_option autoImplicit false

namespace VectorEngine.Resp

open VectorEngine.Stream
open VectorEngine.Numeral

variable {A : Allocator}

/-- A rendered length line. -/
theorem numLine_render (c : Char) {n : Nat} (hn : n < 2 ^ 64) :
    NumLine c n (c.toUInt8 :: render n ++ CRLF) where
  spelt := ⟨render n, isNumeral_render n, rfl⟩
  lt := hn

/-- What `bulk_string` writes is a bulk string of the grammar, as long as the length of the string
can be written as a number of 64 bits. -/
theorem bulkString_bulkString {s : ByteString} (hs : s.length < 2 ^ 64) :
    BulkString s (RespReplyBuilder.bulkString s) :=
  ⟨_, numLine_render '$' hs, rfl⟩

/-- The builder writes a frame. -/
theorem frame_command {cmd : RespCommand} (hargs : cmd.args.length + 1 < 2 ^ 64)
    (hstr : ∀ s ∈ cmd.name :: cmd.args, s.length < 2 ^ 64) :
    Frame cmd (RespReplyBuilder.command cmd) := by
  refine ⟨_, _, numLine_render '*' hargs, ?_, rfl⟩
  rw [List.forall₂_map_right_iff, List.forall₂_same]
  exact fun s hs => bulkString_bulkString (hstr s hs)

/-- The strings of a command are shorter than its encoding, and so is their number. -/
theorem length_command_ge (cmd : RespCommand) :
    cmd.args.length + 1 ≤ (RespReplyBuilder.command cmd).length ∧
      ∀ s ∈ cmd.name :: cmd.args, s.length ≤ (RespReplyBuilder.command cmd).length := by
  have hmem : ∀ ss : List ByteString,
      ss.length ≤ (ss.map RespReplyBuilder.bulkString).flatten.length ∧
        ∀ s ∈ ss, s.length ≤ (ss.map RespReplyBuilder.bulkString).flatten.length := by
    intro ss
    induction ss with
    | nil => simp
    | cons s ss ih =>
      have hlen : s.length + 1 ≤ (RespReplyBuilder.bulkString s).length := by
        simp [RespReplyBuilder.bulkString]
        omega
      rw [List.map_cons, List.flatten_cons, List.length_append, List.length_cons]
      constructor
      · have := ih.1
        omega
      · intro s' hs'
        rcases List.mem_cons.mp hs' with rfl | hs'
        · omega
        · have := ih.2 s' hs'
          omega
  obtain ⟨hcount, hstr⟩ := hmem (cmd.name :: cmd.args)
  unfold RespReplyBuilder.command
  rw [List.length_append]
  constructor
  · rw [List.length_cons] at hcount
    omega
  · intro s hs
    have := hstr s hs
    omega

/-- An encoding shorter than `2 ^ 32` bytes is a sequence of frames, each of which the
parser takes. -/
theorem encode_frames {cmds : List RespCommand} (hlen : (encode cmds).length < 2 ^ 32) :
    List.Forall₂ Frame cmds (cmds.map RespReplyBuilder.command) ∧
      ∀ cmd ∈ cmds, Countable cmd ∧ ∀ s ∈ cmd.name :: cmd.args, s.length < 2 ^ 63 := by
  have hframe : ∀ cmd ∈ cmds, Frame cmd (RespReplyBuilder.command cmd) ∧
      (RespReplyBuilder.command cmd).length < 2 ^ 32 := by
    intro cmd hcmd
    have hle : (RespReplyBuilder.command cmd).length ≤ (encode cmds).length := by
      rw [encode_eq]
      exact (List.sublist_flatten_of_mem (List.mem_map_of_mem hcmd)).length_le
    obtain ⟨hcount, hstr⟩ := length_command_ge cmd
    refine ⟨frame_command (by omega) fun s hs => ?_, by omega⟩
    have := hstr s hs
    omega
  constructor
  · rw [List.forall₂_map_right_iff, List.forall₂_same]
    exact fun cmd hcmd => (hframe cmd hcmd).1
  · intro cmd hcmd
    obtain ⟨h, hshort⟩ := hframe cmd hcmd
    refine ⟨h.countable hshort, fun s hs => ?_⟩
    have := h.length_ge.2 s hs
    omega

/-- **Parsing undoes encoding.** The commands come back in order, whatever their bytes are, and a
proper prefix of one more encoding is left alone. An encoding is a frame, and on a part of one the
parser asks for more, since no failure can be taken back by later bytes. -/
theorem parse_encode (A : Allocator) (hA : A.Succeeds) (cmds : List RespCommand)
    (cmd : RespCommand) (hstr : ∀ s ∈ cmd.name :: cmd.args, s.length < 2 ^ 63)
    (hargs : cmd.args.length + 1 < 2 ^ 63) (T x : ByteString) (hT : encode [cmd] = T ++ x)
    (hx : x ≠ []) (hlen : (encode cmds ++ T).length < 2 ^ 32) :
    parse A (encode cmds ++ T) = .ok (cmds, (encode cmds).length) := by
  have hE : (encode cmds).length < 2 ^ 32 := by
    rw [List.length_append] at hlen
    omega
  obtain ⟨hframes, hcmds⟩ := encode_frames hE
  have htail : scanCommand A T = .more := by
    have hframe : Frame cmd (T ++ x) := by
      rw [← hT, encode_eq, List.map_singleton, List.flatten_singleton]
      refine frame_command (by omega) fun s hs => ?_
      have := hstr s hs
      omega
    exact scanCommand_more hframe hx hstr hA
  have hdrain : (scanCommand A).drain (encode cmds ++ T) = .ok (cmds, T) := by
    have hcomplete := Scanner.drain_complete (consumes_scanCommand A) hframes
      (fun c hc => scanCommand_complete (hcmds c hc).1
        ⟨hA.reserve _, fun s hs => hA.string _ ((hcmds c hc).2 s hs)⟩) T
    rw [← encode_eq, Scanner.drain_more htail, Scanner.prepend_ok, List.append_nil] at hcomplete
    exact hcomplete
  rw [parse_eq_drain A (by omega), hdrain]
  simp

/-- A `PING`, and the start of a command whose argument looks like a line end. The `PING` comes
back, and the start of the other command is left for the next read. -/
theorem parse_encode_ping :
    parse .ample (encode [ping] ++ bytesOf "*2\r\n$4\r\nECHO\r\n$2\r\n\r")
      = .ok ([ping], (encode [ping]).length) :=
  parse_encode .ample Allocator.ample_succeeds [ping]
    { name := bytesOf "ECHO", args := [CRLF] } (by decide) (by decide) _
    (bytesOf "\n\r\n") (by decide +kernel) (by decide) (by decide +kernel)

end VectorEngine.Resp
