import VectorEngine.Proofs.Resp.Encoding
import VectorEngine.Stream.Spelling

/-!
# `VectorEngine.Proofs.Resp.NormalForm`: what the parser took, encoded again

A command has many frames, since a length line may have leading zeros. The builder writes the
shortest of them (`shortest_frame`). `parse_normal_form` says what that means for a buffer: the
bytes that the parser took can be replaced by the encoding of the commands it returned. The
parser returns the same commands, takes the same part of what follows, and the buffer becomes
no longer; it stays as long only when it does not change.

Nothing is assumed of the allocator. What it granted for the frames it grants for the encoding,
as it is asked for the same sizes.
-/

set_option autoImplicit false

namespace VectorEngine.Resp

open VectorEngine.Stream
open VectorEngine.Numeral

variable {A : Allocator}

/-- A length line without leading zeros. -/
theorem shortest_numLine (c : Char) :
    Shortest (NumLine c) fun n => c.toUInt8 :: render n ++ CRLF := by
  rintro n u ⟨⟨ds, hds, rfl⟩, -⟩
  obtain ⟨k, rfl⟩ := hds.eq_zeros_append
  simp only [List.cons_append, List.length_cons, List.length_append, List.length_replicate]
  refine ⟨by omega, fun heq => ?_⟩
  have hk : k = 0 := by omega
  rw [hk]
  rfl

/-- `bulk_string` is a shortest spelling of its string: any other has more zeros in front of the
length. -/
theorem shortest_bulkString : Shortest BulkString RespReplyBuilder.bulkString := by
  rintro s u ⟨line, hline, rfl⟩
  exact shortest_append (shortest_numLine '$' s.length line hline)
    ⟨Nat.le_refl _, fun _ => rfl⟩

/-- The builder writes the shortest frame. -/
theorem shortest_frame : Shortest Frame RespReplyBuilder.command := by
  rintro cmd u ⟨line, us, hline, hus, rfl⟩
  exact shortest_append (shortest_numLine '*' _ line hline) (shortest_bulkString.sequence hus)

/-- What the parser took is frames that it can take. -/
theorem drain_taken {l r : List Byte} {cmds : List RespCommand}
    (h : (scanCommand A).drain l = .ok (cmds, r)) :
    ∀ cmd ∈ cmds, Countable cmd ∧ Granted A cmd := by
  refine Scanner.drain_ok_induction (consumes_scanCommand A)
    (P := fun _ cmds _ => ∀ cmd ∈ cmds, Countable cmd ∧ Granted A cmd)
    (fun _ _ cmd hcmd => nomatch hcmd) (fun l cmd r' cmds r hdone _ ih => ?_) h
  intro cmd' hcmd'
  rcases List.mem_cons.mp hcmd' with rfl | hcmd'
  · exact scanCommand_done_granted hdone
  · exact ih cmd' hcmd'

/-- The encoding is parsed like the frames that were taken. -/
theorem drain_encoded {l r : List Byte} {cmds : List RespCommand} (hlen : l.length < 2 ^ 64)
    (h : (scanCommand A).drain l = .ok (cmds, r)) :
    (scanCommand A).drain (encode cmds ++ r) = .ok (cmds, r) := by
  obtain ⟨us, hus, hl⟩ :=
    Scanner.drain_sound (consumes_scanCommand A) (scanCommand_sound A) h
  have hframes : List.Forall₂ Frame cmds (cmds.map RespReplyBuilder.command) := by
    rw [List.forall₂_map_right_iff, List.forall₂_same]
    intro cmd hcmd
    -- The strings lie in the input, so they are short enough for their length lines.
    obtain ⟨u, hmem, hu⟩ := Scanner.exists_spelling hus cmd hcmd
    have hle : u.length ≤ l.length := by
      have hsub := (List.sublist_flatten_of_mem hmem).length_le
      rw [hl, List.length_append]
      omega
    obtain ⟨hcount, hstr⟩ := hu.length_ge
    refine frame_command (by omega) fun s hs => ?_
    have hs := hstr s hs
    omega
  have hrest : (scanCommand A).drain r = .ok ([], r) :=
    Scanner.drain_more (Scanner.drain_rest (consumes_scanCommand A) h)
  have hcomplete := Scanner.drain_complete (consumes_scanCommand A) hframes
    (fun cmd hcmd => scanCommand_complete (drain_taken h cmd hcmd).1 (drain_taken h cmd hcmd).2) r
  rw [hrest, ← encode_eq, Scanner.prepend_ok, List.append_nil] at hcomplete
  exact hcomplete

/-- **What the parser took has a normal form.** For every buffer on which the parser returns:
with the encoding of the commands in place of the bytes that were counted, the buffer is parsed
to the same commands, and all of the encoding is counted. The encoding is no longer than what
it replaces, and as long only when it is the same bytes. -/
theorem parse_normal_form (A : Allocator) {B : ByteString} (hB : B.length < 2 ^ 64)
    {cmds : List RespCommand} {n : Nat} (h : parse A B = .ok (cmds, n)) :
    parse A (encode cmds ++ B.drop n) = .ok (cmds, (encode cmds).length) ∧
      (encode cmds).length ≤ n ∧ ((encode cmds).length = n ↔ B.take n = encode cmds) := by
  obtain ⟨hn, hdrain⟩ := (parse_ok_iff hB).mp h
  obtain ⟨us, hus, hl⟩ :=
    Scanner.drain_sound (consumes_scanCommand A) (scanCommand_sound A) hdrain
  have htaken : us.flatten = B.take n :=
    List.append_cancel_right (hl.symm.trans (List.take_append_drop n B).symm)
  obtain ⟨hle, hsame⟩ := shortest_frame.sequence hus
  rw [← encode_eq, htaken, List.length_take, Nat.min_eq_left hn] at hle hsame
  refine ⟨?_, hle, fun heq => hsame heq, fun heq => ?_⟩
  · have hshort : (encode cmds ++ B.drop n).length < 2 ^ 64 := by
      rw [List.length_append, List.length_drop]
      omega
    rw [parse_ok_iff hshort, List.drop_left, List.length_append]
    exact ⟨Nat.le_add_right _ _, drain_encoded hB hdrain⟩
  · rw [← heq, List.length_take, Nat.min_eq_left hn]

/-- A `PING` with zeros in front of its lengths, and the start of another request. -/
def zerosFrame : ByteString := bytesOf "*001\r\n$04\r\nPING\r\n*1\r"

/-- On a request with zeros in front of its numbers: it is parsed, the encoding of its commands is
shorter than what was consumed, and the two have the same length just if they are the same bytes.
-/
theorem parse_normal_form_zeros :
    parse .ample (encode [ping] ++ zerosFrame.drop 17) = .ok ([ping], (encode [ping]).length) ∧
      (encode [ping]).length ≤ 17 ∧
      ((encode [ping]).length = 17 ↔ zerosFrame.take 17 = encode [ping]) :=
  parse_normal_form .ample (by decide) (by decide +kernel)

end VectorEngine.Resp
