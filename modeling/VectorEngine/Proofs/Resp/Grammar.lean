import VectorEngine.Proofs.Resp.Loop

/-!
# `VectorEngine.Proofs.Resp.Grammar`: what the parser accepts

A `Frame` of a command is its argument count and its bulk strings, each with a length line
in which leading zeros are allowed. The grammar is stated without the parser.

`scanCommand_sound`: a command that the parser takes is spelt by the bytes it takes.
`scanCommand_complete`: a complete frame is taken, if storage is granted and the argument
count stays below the range of the 32-bit counter. `scanCommand_more`: of a frame that is
not complete yet, no part is an error.

`parse_sound_maximal` puts these together for a buffer shorter than `2 ^ 32` bytes.
-/

set_option autoImplicit false

namespace VectorEngine.Resp

open VectorEngine.Stream
open VectorEngine.Numeral

variable {A : Allocator} {l r : List Byte}

/-- `'*'`, the number of bulk strings, the line end, and the bulk strings: the name of the
command and its arguments. -/
def Frame (cmd : RespCommand) (u : List Byte) : Prop :=
  ∃ h us, NumLine '*' (cmd.args.length + 1) h ∧
    List.Forall₂ BulkString (cmd.name :: cmd.args) us ∧ u = h ++ us.flatten

/-! ### Lengths -/

/-- The shortest length line is the letter, one digit and the line end. -/
theorem NumLine.length_ge {c : Char} {n : Nat} {u : List Byte} (h : NumLine c n u) :
    4 ≤ u.length := by
  obtain ⟨⟨ds, hds, rfl⟩, -⟩ := h
  have hpos := List.length_pos_of_ne_nil hds.ne_nil
  simp [CRLF]
  omega

/-- A bulk string is its payload and at least six bytes more. -/
theorem BulkString.length_ge {s u : List Byte} (h : BulkString s u) :
    s.length + 6 ≤ u.length := by
  obtain ⟨h, hh, rfl⟩ := h
  have hlen := hh.length_ge
  simp [CRLF]
  omega

/-- Bulk strings are at least six bytes each, and each payload fits in. -/
theorem bulkStrings_length {ss us : List (List Byte)} (h : List.Forall₂ BulkString ss us) :
    6 * ss.length ≤ us.flatten.length ∧ ∀ s ∈ ss, s.length + 6 ≤ us.flatten.length := by
  induction h with
  | nil => simp
  | @cons s u ss us hu hus ih =>
    have hlen := hu.length_ge
    obtain ⟨ihcount, ihmem⟩ := ih
    rw [List.flatten_cons, List.length_append, List.length_cons]
    constructor
    · omega
    · intro s' hs'
      rcases List.mem_cons.mp hs' with rfl | hs'
      · omega
      · have := ihmem s' hs'
        omega

/-- A frame is at least ten bytes, six more for each argument, and each payload fits in. -/
theorem Frame.length_ge {cmd : RespCommand} {u : List Byte} (h : Frame cmd u) :
    6 * cmd.args.length + 10 ≤ u.length ∧
      ∀ s ∈ cmd.name :: cmd.args, s.length + 10 ≤ u.length := by
  obtain ⟨h, us, hh, hus, rfl⟩ := h
  have hlen := hh.length_ge
  obtain ⟨hcount, hmem⟩ := bulkStrings_length hus
  rw [List.length_cons] at hcount
  rw [List.length_append]
  constructor
  · omega
  · intro s hs
    have := hmem s hs
    omega

/-- The length of the shortest frame with `n` arguments: a count without leading zeros, and
`n + 1` empty bulk strings. -/
def shortest (n : Nat) : Nat := (render (n + 1)).length + 3 + 6 * (n + 1)

/-- So a buffer of `m` bytes holds `(m - 10) / 6` arguments at most, and each digit of the count
behind the first one takes a byte of that away. -/
theorem shortest_ge (n : Nat) : 6 * n + 10 ≤ shortest n := by
  have hpos := List.length_pos_of_ne_nil (isNumeral_render (n + 1)).ne_nil
  unfold shortest
  omega

/-- No frame with that many arguments is shorter. A numeral has the digits that `render` writes,
and zeros in front make it longer. -/
theorem Frame.shortest_le {cmd : RespCommand} {u : List Byte} (h : Frame cmd u) :
    shortest cmd.args.length ≤ u.length := by
  obtain ⟨line, us, ⟨⟨ds, hds, rfl⟩, -⟩, hus, rfl⟩ := h
  obtain ⟨hcount, -⟩ := bulkStrings_length hus
  obtain ⟨k, rfl⟩ := hds.eq_zeros_append
  have hCRLF : CRLF.length = 2 := rfl
  simp only [List.length_append, List.length_cons, List.length_replicate] at hcount ⊢
  unfold shortest
  omega

/-- Bulk strings that are all empty. -/
theorem bulkStrings_replicate {u : List Byte} (h : BulkString [] u) (n : Nat) :
    List.Forall₂ BulkString (List.replicate n []) (List.replicate n u) := by
  induction n with
  | zero => exact .nil
  | succ n ih => exact .cons h ih

/-- There is a frame of the shortest length, for each count that a `std::size_t` can hold. -/
theorem exists_frame_shortest {n : Nat} (hn : n + 1 < 2 ^ 64) :
    ∃ cmd u, Frame cmd u ∧ cmd.args.length = n ∧ u.length = shortest n := by
  have hempty : BulkString [] (bytesOf "$0\r\n\r\n") :=
    ⟨bytesOf "$0\r\n", ⟨⟨render 0, isNumeral_render 0, by decide +kernel⟩, by decide +kernel⟩,
      by decide +kernel⟩
  have hline : NumLine '*' ((List.replicate n ([] : ByteString)).length + 1)
      ('*'.toUInt8 :: render (n + 1) ++ CRLF) := by
    rw [List.length_replicate]
    exact ⟨⟨render (n + 1), isNumeral_render _, rfl⟩, hn⟩
  have hlength : (bytesOf "$0\r\n\r\n").length = 6 := by decide +kernel
  have hframe : Frame ⟨[], List.replicate n []⟩ _ :=
    ⟨_, _, hline, bulkStrings_replicate hempty (n + 1), rfl⟩
  refine ⟨_, _, hframe, by simp, ?_⟩
  unfold shortest
  simp [CRLF, hlength]
  omega

/-- **What a buffer could contain.** The arguments of some frame are no more than fit, and as
many as fit are the arguments of some frame. -/
theorem shortest_le_iff {n m : Nat} (hn : n + 1 < 2 ^ 64) :
    shortest n ≤ m ↔ ∃ cmd u, Frame cmd u ∧ cmd.args.length = n ∧ u.length ≤ m := by
  constructor
  · intro h
    obtain ⟨cmd, u, hframe, hargs, hlength⟩ := exists_frame_shortest hn
    exact ⟨cmd, u, hframe, hargs, hlength ▸ h⟩
  · rintro ⟨cmd, u, hframe, rfl, hle⟩
    exact Nat.le_trans hframe.shortest_le hle

/-! ### The grammar is unambiguous -/

/-- Two lines with a number that begin the same input are the same number and leave the same rest:
the line ends at its first carriage return. -/
theorem NumLine.unique {c : Char} {n n' : Nat} {u u' : List Byte} (h : NumLine c n u)
    (h' : NumLine c n' u') {r r' : List Byte} (heq : u ++ r = u' ++ r') : n = n' ∧ r = r' := by
  have hdone : scanNum c (u ++ r) = .done n r := scanNum_done_iff.mpr ⟨u, h, rfl⟩
  have hdone' : scanNum c (u ++ r) = .done n' r' := scanNum_done_iff.mpr ⟨u', h', heq⟩
  rw [hdone] at hdone'
  cases hdone'
  exact ⟨rfl, rfl⟩

/-- Two bulk strings that begin the same input are equal, by the length that stands in front. -/
theorem bulkString_unambiguous : Scanner.Unambiguous BulkString := by
  rintro s s' _ _ r r' ⟨line, hline, rfl⟩ ⟨line', hline', rfl⟩ heq
  simp only [List.append_assoc] at heq
  obtain ⟨hlen, hrest⟩ := hline.unique hline' heq
  obtain ⟨rfl, hend⟩ := List.append_inj hrest hlen
  exact ⟨rfl, List.append_cancel_left hend⟩

/-- Two frames that begin the same input are equal. The count says how many strings there are, and
each of them is unambiguous. -/
theorem frame_unambiguous : Scanner.Unambiguous Frame := by
  rintro cmd cmd' _ _ r r' ⟨line, us, hline, hus, rfl⟩ ⟨line', us', hline', hus', rfl⟩ heq
  simp only [List.append_assoc] at heq
  obtain ⟨hcount, hrest⟩ := hline.unique hline' heq
  obtain ⟨hstrings, hr⟩ := bulkString_unambiguous.sequence hus hus' (by simpa using hcount) hrest
  rw [List.cons.injEq] at hstrings
  obtain ⟨name, args⟩ := cmd
  obtain ⟨name', args'⟩ := cmd'
  obtain ⟨rfl, rfl⟩ := hstrings
  exact ⟨rfl, hr⟩

/-! ### Soundness -/

/-- What `_parse_argv` accepts is a bulk string of the grammar. -/
theorem scanArgv_sound (A : Allocator) : (scanArgv A).Sound BulkString := by
  intro l s r h
  obtain ⟨u, hu, -, -, rfl⟩ := scanArgv_done_iff.mp h
  exact ⟨u, hu, rfl⟩

/-- The parts of a command that the parser takes. -/
theorem scanCommand_done_iff {cmd : RespCommand} :
    scanCommand A l = .done cmd r ↔
      ∃ r₁ r₂, scanNum '*' l = .done (cmd.args.length + 1) r₁ ∧
        scanArgv A r₁ = .done cmd.name r₂ ∧ A.reserve cmd.args.length = none ∧
        cmd.args.length < 2 ^ 32 ∧ (scanArgv A).times cmd.args.length r₂ = .done cmd.args r := by
  constructor
  · intro h
    obtain ⟨argc, r₁, hargc, h⟩ := Verdict.bind_eq_done.mp h
    split at h
    · cases h
    · rename_i hzero
      obtain ⟨name, r₂, hname, h⟩ := Verdict.bind_eq_done.mp h
      obtain ⟨_, r₃, hreserve, h⟩ := Verdict.bind_eq_done.mp h
      obtain ⟨args, r₄, hargs, h⟩ := Verdict.bind_eq_done.mp h
      cases h
      unfold scanReserve at hreserve
      split at hreserve
      · cases hreserve
      · rename_i hA
        cases hreserve
        unfold scanArgs at hargs
        split at hargs
        · rename_i hcount
          -- The number of arguments is what was announced, less the name.
          have hlen := (Scanner.times_sound (scanArgv_sound A) _ hargs).1
          have hargc' : argc = args.length + 1 := by omega
          refine ⟨r₁, r₂, hargc' ▸ hargc, hname, ?_, ?_, ?_⟩
          · rw [hlen]
            exact hA
          · show args.length < 2 ^ 32
            omega
          · rw [hlen]
            exact hargs
        · -- From `2 ^ 32` on the loop never comes to its end.
          exact absurd hargs (Scanner.endless_ne_done _ _ _)
  · rintro ⟨r₁, r₂, hargc, hname, hA, hcount, hargs⟩
    rw [scanCommand_of_name hargc (Nat.succ_ne_zero _) hname hA]
    show (scanArgs A cmd.args.length r₂).bind _ = _
    unfold scanArgs
    rw [if_pos hcount, hargs]
    rfl

/-- A command that the parser takes is spelt by the bytes it takes. -/
theorem scanCommand_sound (A : Allocator) : (scanCommand A).Sound Frame := by
  intro l cmd r h
  obtain ⟨r₁, r₂, hargc, hname, -, -, hargs⟩ := scanCommand_done_iff.mp h
  obtain ⟨line, hline, rfl⟩ := scanNum_done_iff.mp hargc
  obtain ⟨u, hu, rfl⟩ := scanArgv_sound A hname
  obtain ⟨-, us, hus, rfl⟩ := Scanner.times_sound (scanArgv_sound A) _ hargs
  exact ⟨line ++ (u :: us).flatten, ⟨line, u :: us, hline, .cons hu hus, rfl⟩, by simp⟩

/-! ### Completeness -/

/-- Storage is granted for the command: for its argument vector and for each string. It is a
question about the allocator and the sizes in the command, not about the buffer. -/
structure Granted (A : Allocator) (cmd : RespCommand) : Prop where
  reserve : A.reserve cmd.args.length = none
  string : ∀ s ∈ cmd.name :: cmd.args, A.string s.length = none

/-- A bulk string at the front is taken if its storage is granted. -/
theorem scanArgv_append {s u : List Byte} (hu : BulkString s u) (hwrap : ¬ SumWraps s.length)
    (r : List Byte) :
    scanArgv A (u ++ r) =
      match A.string s.length with
      | some e => .fail (.std e)
      | none => .done s r := by
  obtain ⟨h, hh, rfl⟩ := hu
  have hnum : scanNum '$' (h ++ (s ++ (CRLF ++ r))) = .done s.length (s ++ (CRLF ++ r)) :=
    scanNum_done_iff.mpr ⟨h, hh, rfl⟩
  show (scanNum '$' _).bind (scanPayload A) = _
  rw [List.append_assoc, List.append_assoc, hnum]
  exact scanPayload_append hwrap r

/-- A bulk string of the grammar is accepted, if its length does not wrap behind the `+ 2` and its
copy is granted. -/
theorem scanArgv_complete {s : List Byte} (hwrap : ¬ SumWraps s.length)
    (hA : A.string s.length = none) : (scanArgv A).CompleteOn BulkString s := by
  intro u hu r
  rw [scanArgv_append hu hwrap, hA]

/-- A frame that the parser can take: no length wraps, and the counter of the inner loop
reaches the argument count. -/
structure Countable (cmd : RespCommand) : Prop where
  args : cmd.args.length < 2 ^ 32
  sum : ∀ s ∈ cmd.name :: cmd.args, ¬ SumWraps s.length

/-- A command that the parser took was one that it can take, and its storage was granted. -/
theorem scanCommand_done_granted {cmd : RespCommand} (h : scanCommand A l = .done cmd r) :
    Countable cmd ∧ Granted A cmd := by
  obtain ⟨r₁, r₂, -, hname, hreserve, hcount, hargs⟩ := scanCommand_done_iff.mp h
  have hstr : ∀ s ∈ cmd.name :: cmd.args, ¬ SumWraps s.length ∧ A.string s.length = none := by
    intro s hs
    have hdone : ∃ l' r', scanArgv A l' = .done s r' := by
      rcases List.mem_cons.mp hs with rfl | hs
      · exact ⟨_, _, hname⟩
      · exact Scanner.times_mem _ hargs s hs
    obtain ⟨l', r', hdone⟩ := hdone
    obtain ⟨-, -, hwrap, hstring, -⟩ := scanArgv_done_iff.mp hdone
    exact ⟨hwrap, hstring⟩
  exact ⟨⟨hcount, fun s hs => (hstr s hs).1⟩, ⟨hreserve, fun s hs => (hstr s hs).2⟩⟩

/-- A frame shorter than `2 ^ 32` bytes is one that the parser can take. -/
theorem Frame.countable {cmd : RespCommand} {u : List Byte} (h : Frame cmd u)
    (hlen : u.length < 2 ^ 32) : Countable cmd := by
  obtain ⟨hargs, hmem⟩ := h.length_ge
  refine ⟨by omega, fun s hs => ?_⟩
  have := hmem s hs
  unfold SumWraps
  omega

/-- A complete frame is taken. -/
theorem scanCommand_complete {cmd : RespCommand} (hc : Countable cmd) (hA : Granted A cmd) :
    (scanCommand A).CompleteOn Frame cmd := by
  rintro _ ⟨h, us, hh, hus, rfl⟩ r
  cases hus with
  | @cons _ u _ us hu hus =>
    refine scanCommand_done_iff.mpr ⟨u ++ (us.flatten ++ r), us.flatten ++ r, ?_, ?_,
      hA.reserve, hc.args, ?_⟩
    · exact scanNum_done_iff.mpr ⟨h, hh, by simp⟩
    · exact scanArgv_complete (hc.sum _ (by simp)) (hA.string _ (by simp)) u hu _
    · exact Scanner.times_complete hus (fun s hs => scanArgv_complete (hc.sum s (by simp [hs]))
        (hA.string s (by simp [hs]))) r

/-- On complete bulk strings the inner loop never reports an incomplete request, whatever
the allocator does. -/
theorem times_scanArgv_ne_more {ss us : List (List Byte)}
    (h : List.Forall₂ BulkString ss us) (hwrap : ∀ s ∈ ss, ¬ SumWraps s.length)
    (r : List Byte) : (scanArgv A).times ss.length (us.flatten ++ r) ≠ .more := by
  induction h with
  | nil => exact fun h => nomatch h
  | @cons s u ss us hu hus ih =>
    have htail := ih fun s' hs' => hwrap s' (by simp [hs'])
    have hhead := scanArgv_append (A := A) hu (hwrap s (by simp)) (us.flatten ++ r)
    show (scanArgv A ((u :: us).flatten ++ r)).bind _ ≠ _
    rw [List.flatten_cons, List.append_assoc, hhead]
    cases A.string s.length with
    | some e => exact fun h => nomatch h
    | none =>
      show ((scanArgv A).times ss.length (us.flatten ++ r)).bind _ ≠ _
      cases ht : (scanArgv A).times ss.length (us.flatten ++ r) with
      | done as r' => exact fun h => nomatch h
      | more => exact absurd ht htail
      | fail e => exact fun h => nomatch h

/-- On a complete frame the parser never reports an incomplete request, whatever the
allocator does. -/
theorem scanCommand_ne_more {cmd : RespCommand} {u : List Byte} (h : Frame cmd u)
    (hc : Countable cmd) (r : List Byte) : scanCommand A (u ++ r) ≠ .more := by
  obtain ⟨h, us, hh, hus, rfl⟩ := h
  cases hus with
  -- The first string is the name.
  | @cons _ u _ us hu hus =>
    have hnum : scanNum '*' (h ++ (u :: us).flatten ++ r)
        = .done (cmd.args.length + 1) (u ++ (us.flatten ++ r)) :=
      scanNum_done_iff.mpr ⟨h, hh, by simp⟩
    -- The name is complete, so that it is taken or its storage is refused.
    have hname := scanArgv_append (A := A) hu (hc.sum _ (by simp)) (us.flatten ++ r)
    -- So is each of the arguments.
    have hargs := times_scanArgv_ne_more (A := A) hus (fun s hs => hc.sum s (by simp [hs])) r
    show (scanNum '*' _).bind _ ≠ _
    rw [hnum, Verdict.bind_done, if_neg (by omega)]
    show (scanArgv A (u ++ (us.flatten ++ r))).bind _ ≠ _
    rw [hname]
    cases A.string cmd.name.length with
    | some e => exact fun h => nomatch h
    | none =>
      show (scanReserve A cmd.args.length (us.flatten ++ r)).bind _ ≠ _
      unfold scanReserve
      cases A.reserve cmd.args.length with
      | some e => exact fun h => nomatch h
      | none =>
        show (scanArgs A cmd.args.length (us.flatten ++ r)).bind _ ≠ _
        unfold scanArgs
        rw [if_pos hc.args]
        cases ht : (scanArgv A).times cmd.args.length (us.flatten ++ r) with
        | done as r' => exact fun h => nomatch h
        | more => exact absurd ht hargs
        | fail e => exact fun h => nomatch h

/-- On a frame with more arguments than the 32-bit counter can count, the parser waits for
more, even when the frame is complete. -/
theorem scanCommand_uncountable {cmd : RespCommand} {u : List Byte} (h : Frame cmd u)
    (hcount : 2 ^ 32 ≤ cmd.args.length)
    (hwrap : ∀ s ∈ cmd.name :: cmd.args, ¬ SumWraps s.length) (hA : Granted A cmd) :
    scanCommand A u = .more := by
  obtain ⟨line, us, hline, hus, rfl⟩ := h
  cases hus with
  | @cons _ u _ us hu hus =>
    have hnum : scanNum '*' (line ++ (u :: us).flatten)
        = .done (cmd.args.length + 1) (u ++ us.flatten) :=
      scanNum_done_iff.mpr ⟨line, hline, by simp⟩
    have hname := scanArgv_complete (A := A) (hwrap _ (by simp)) (hA.string _ (by simp)) u hu
      us.flatten
    -- The endless loop takes all arguments, and then waits for one that does not come.
    have hdrain : (scanArgv A).drain us.flatten = .ok (cmd.args, []) := by
      have hall := Scanner.drain_complete (consumes_scanArgv A) hus
        (fun s hs => scanArgv_complete (hwrap s (by simp [hs])) (hA.string s (by simp [hs]))) []
      rw [List.append_nil, Scanner.drain_more (show scanArgv A [] = .more from rfl)] at hall
      simpa using hall
    rw [scanCommand_of_name hnum (Nat.succ_ne_zero _) hname hA.reserve]
    show (scanArgs A cmd.args.length us.flatten).bind _ = _
    unfold scanArgs Scanner.endless
    rw [if_neg (by omega), hdrain]
    rfl

/-- Of a frame that is not complete yet, no part is an error. -/
theorem scanCommand_more {cmd : RespCommand} {t x : List Byte} (h : Frame cmd (t ++ x))
    (hx : x ≠ []) (hlen : ∀ s ∈ cmd.name :: cmd.args, s.length < 2 ^ 63) (hA : A.Succeeds) :
    scanCommand A t = .more := by
  have hwrap : ∀ s ∈ cmd.name :: cmd.args, ¬ SumWraps s.length := by
    intro s hs
    have := hlen s hs
    unfold SumWraps
    omega
  have hgranted : Granted A cmd := ⟨hA.reserve _, fun s hs => hA.string _ (hlen s hs)⟩
  by_cases hcount : cmd.args.length < 2 ^ 32
  · have hdone := scanCommand_complete ⟨hcount, hwrap⟩ hgranted _ h []
    rw [List.append_nil] at hdone
    exact (stable_scanCommand A).more_of_done hdone hx
  · exact (stable_scanCommand A).more_of_append
      (scanCommand_uncountable h (by omega) hwrap hgranted)

/-! ### The shortest request -/

/-- `PING`, without arguments. -/
def ping : RespCommand := { name := bytesOf "PING", args := [] }

/-- `PING`, as bytes. -/
def pingFrame : ByteString := bytesOf "*1\r\n$4\r\nPING\r\n"

/-- The frame of `PING`, for the results that need a buffer on which all goes well. -/
theorem frame_pingFrame : Frame ping pingFrame := by
  have hcount : NumLine '*' 1 (bytesOf "*1\r\n") :=
    ⟨⟨render 1, isNumeral_render 1, by decide +kernel⟩, by decide +kernel⟩
  have hlen : NumLine '$' 4 (bytesOf "$4\r\n") :=
    ⟨⟨render 4, isNumeral_render 4, by decide +kernel⟩, by decide +kernel⟩
  have hname : BulkString ping.name (bytesOf "$4\r\nPING\r\n") :=
    ⟨bytesOf "$4\r\n", hlen, by decide +kernel⟩
  exact ⟨bytesOf "*1\r\n", [bytesOf "$4\r\nPING\r\n"], hcount, .cons hname .nil,
    by decide +kernel⟩

/-! ### What `parse` accepts -/

/-- What `drain` leaves, as the bytes behind those it took. -/
theorem drain_rest_eq_drop {buf r : List Byte} {cmds : List RespCommand}
    (h : (scanCommand A).drain buf = .ok (cmds, r)) : r = buf.drop (buf.length - r.length) := by
  obtain ⟨u, hu⟩ := Scanner.drain_suffix (consumes_scanCommand A) h
  have hn : buf.length - r.length = u.length := by
    rw [hu, List.length_append]
    omega
  rw [hn]
  conv => rhs; rw [hu]
  exact List.drop_left.symm

/-- A result of `parse`, in terms of what `drain` takes and leaves. -/
theorem parse_ok_iff {buf : ByteString} (hbuf : buf.length < 2 ^ 64)
    {cmds : List RespCommand} {n : Nat} :
    parse A buf = .ok (cmds, n) ↔
      n ≤ buf.length ∧ (scanCommand A).drain buf = .ok (cmds, buf.drop n) := by
  rw [parse_eq_drain A hbuf]
  constructor
  · intro h
    cases hd : (scanCommand A).drain buf with
    | error e =>
      rw [hd] at h
      cases h
    | ok q =>
      obtain ⟨cs, r⟩ := q
      rw [hd] at h
      cases h
      rw [← drain_rest_eq_drop hd]
      exact ⟨by omega, rfl⟩
  · rintro ⟨hn, hd⟩
    have hlen : buf.length - (buf.drop n).length = n := by
      rw [List.length_drop]
      omega
    rw [hd]
    simp only [hlen]

/-- `parse` accepts what `drain` accepts. -/
theorem parse_of_drain {buf r : ByteString} (hbuf : buf.length < 2 ^ 64)
    {cmds : List RespCommand} (h : (scanCommand A).drain buf = .ok (cmds, r)) :
    ∃ n, parse A buf = .ok (cmds, n) ∧ r = buf.drop n := by
  refine ⟨buf.length - r.length, ?_, drain_rest_eq_drop h⟩
  rw [parse_eq_drain A hbuf, h]

/-- **What the parser accepts is right and maximal.** The bytes it counts are exactly the frames
of the commands it returns, and no complete frame is left at the front of the rest. Soundness is
proved of the scanners that the parser follows, one grammar rule at a time, and is lifted to
sequences by `drain_sound`. Maximality is `drain_rest`: on what is left the parser asks for more.
-/
theorem parse_sound_maximal (A : Allocator) (B : ByteString) (hB : B.length < 2 ^ 32)
    (cmds : List RespCommand) (n : Nat) (h : parse A B = .ok (cmds, n)) :
    n ≤ B.length ∧ (∃ us, List.Forall₂ Frame cmds us ∧ B.take n = us.flatten) ∧
      (∀ cmd u r, Frame cmd u → B.drop n ≠ u ++ r) ∧ (0 < n ↔ cmds ≠ []) := by
  obtain ⟨hn, hd⟩ := (parse_ok_iff (by omega)).mp h
  have hrest : (B.drop n).length = B.length - n := List.length_drop
  refine ⟨hn, ?_, ?_, ?_⟩
  · obtain ⟨us, hus, hflat⟩ :=
      Scanner.drain_sound (consumes_scanCommand A) (scanCommand_sound A) hd
    have hsplit : B.take n ++ B.drop n = us.flatten ++ B.drop n := by
      rw [List.take_append_drop]
      exact hflat
    exact ⟨us, hus, List.append_cancel_right hsplit⟩
  · intro cmd u r hu heq
    have hle : u.length ≤ (B.drop n).length := by
      rw [heq, List.length_append]
      omega
    have hmore := Scanner.drain_rest (consumes_scanCommand A) hd
    rw [heq] at hmore
    exact scanCommand_ne_more hu (hu.countable (by omega)) r hmore
  · rw [← Scanner.drain_length_lt_iff (consumes_scanCommand A) hd]
    omega

/-- On a `PING` and the start of another request, the parser takes the fourteen bytes of the
`PING`, and what it leaves does not begin with a frame. -/
theorem parse_sound_maximal_ping :
    parse .ample (pingFrame ++ bytesOf "*1\r") = .ok ([ping], 14) ∧
      ∀ cmd u r, Frame cmd u → (pingFrame ++ bytesOf "*1\r").drop 14 ≠ u ++ r := by
  have h : parse .ample (pingFrame ++ bytesOf "*1\r") = .ok ([ping], 14) := by
    decide +kernel
  exact ⟨h, (parse_sound_maximal .ample _ (by decide) _ _ h).2.2.1⟩

end VectorEngine.Resp
