import VectorEngine.Proofs.Resp.Bounds

/-!
# `VectorEngine.Proofs.Resp.View`: the parser and its view

The log of a run only grows (`Extends`). So the sum `len + 2` of each bulk length that the
parser reads is in the log at the end (`parseRun_sum`). Together with the bound of
`parseLoop_run` on what else is in the log, `stays_in_view_iff` says which buffers make the
parser leave its view.
-/

set_option autoImplicit false

namespace VectorEngine.Resp

open VectorEngine.Stream
open ParserM

variable {A : Allocator} {buf : ByteString} {s : Cursor} {l l' : List Byte} {α β : Type}

/-! ### Logs grow -/

/-- The step keeps what was logged before it. -/
def Extends (x : ParserM α) : Prop := ∀ (s : Cursor) (e : Event), e ∈ s.log → e ∈ (x s).2.log

/-- A value is returned without a look at the buffer, and the log is what it was. -/
theorem Extends.pure (a : α) : Extends (Pure.pure a : ParserM α) := fun _ _ h => h

/-- What raises an exception logs nothing of its own. The accesses before it stay in the log,
which is why the log is read from the state and not from the result. -/
theorem Extends.raise (e : Abrupt) : Extends (ParserM.raise e : ParserM α) := fun _ _ h => h

/-- To read the window is no access to the buffer. -/
theorem Extends.view : Extends ParserM.view := fun _ _ h => h

/-- An event is written behind those that are in the log. -/
theorem Extends.emit (e : Event) : Extends (ParserM.emit e) :=
  fun _ _ h => List.mem_append_left _ h

/-- `remove_prefix` moves the window and looks at no byte. -/
theorem Extends.removePrefix (n : Nat) : Extends (ParserM.removePrefix n) :=
  fun _ _ h => List.mem_append_left _ h

/-- A byte that is read through a pointer is one event, whether it is in the buffer or not. -/
theorem Extends.deref (buf : ByteString) (p : Nat) : Extends (ParserM.deref buf p) :=
  fun _ _ h => List.mem_append_left _ h

/-- `std::from_chars` logs the bytes that it looks at, in one event behind the others. -/
theorem Extends.fromChars (buf : ByteString) : Extends (ParserM.fromChars buf) :=
  fun _ _ h => List.mem_append_left _ h

/-- `reserve` leaves the log alone, and that also if it is refused. -/
theorem Extends.reserve (A : Allocator) (n : Nat) : Extends (ParserM.reserve A n) :=
  fun _ _ h => List.mem_append_left _ h

/-- The copy of an argument is one event. Where the allocation is refused there is none, and where
the bytes are not in the buffer it is logged and is a wild read. -/
theorem Extends.string (buf : ByteString) (A : Allocator) (n : Nat) :
    Extends (ParserM.string buf A n) := by
  intro s e h
  unfold ParserM.string
  cases A.string n with
  | some x => exact List.mem_append_left _ h
  | none => exact List.mem_append_left _ h

/-- What the first step logs is still there after the second. -/
theorem Extends.mem_bind {x : ParserM α} {f : α → ParserM β} (hf : ∀ a, Extends (f a))
    {s : Cursor} {e : Event} (h : e ∈ (x s).2.log) : e ∈ ((x >>= f) s).2.log := by
  rcases hx : x s with ⟨a | a, s'⟩
  · rw [hx] at h
    rw [bind_error hx]
    exact h
  · rw [hx] at h
    rw [bind_ok hx]
    exact hf a s' e h

/-- A sequence of two steps keeps the log if each of them does. With it a function of the parser
is taken apart along its `do`, line by line. -/
theorem Extends.bind {x : ParserM α} {f : α → ParserM β} (hx : Extends x)
    (hf : ∀ a, Extends (f a)) : Extends (x >>= f) :=
  fun s e h => Extends.mem_bind hf (hx s e h)

/-- A branch keeps the log if both of its sides do. -/
theorem Extends.ite {p : Prop} [Decidable p] {x y : ParserM α} (hx : Extends x)
    (hy : Extends y) : Extends (if p then x else y) := by
  by_cases h : p
  · rw [if_pos h]
    exact hx
  · rw [if_neg h]
    exact hy

/-! ### The functions of the parser -/

/-- The test for a line end reads two bytes and is two events. -/
theorem Extends.crlfAt (buf : ByteString) (p : Nat) : Extends (ParserM.crlfAt buf p) := by
  refine (Extends.deref buf p).bind fun b => ?_
  refine Extends.ite ?_ (Extends.pure _)
  exact (Extends.deref buf _).bind fun b' => Extends.pure _

/-- Behind the digits `_parse_num` looks for the line end, and each of its looks is one more
event. -/
theorem Extends.parseLineEnd (buf : ByteString) (v : StringView) (ptr n : Nat) :
    Extends (Resp.parseLineEnd buf v ptr n) := by
  refine Extends.ite (Extends.pure _) ?_
  refine (Extends.crlfAt buf ptr).bind fun crlf => Extends.ite ?_ (Extends.raise _)
  exact (Extends.removePrefix _).bind fun _ => Extends.pure _

/-- `_parse_num` only adds to the log, on every one of its paths: no digit, no line end, a letter
that is not the expected one. -/
theorem Extends.parseNum (buf : ByteString) (c : Char) : Extends (Resp.parseNum buf c) := by
  unfold Resp.parseNum
  refine Extends.view.bind fun v => Extends.ite (Extends.pure _) ?_
  refine (Extends.deref buf _).bind fun front => Extends.ite (Extends.raise _) ?_
  refine (Extends.removePrefix 1).bind fun _ => ?_
  refine Extends.view.bind fun v' => Extends.ite (Extends.pure _) ?_
  refine (Extends.fromChars buf).bind fun q => ?_
  rcases q with ⟨ptr, e | argc⟩
  · exact Extends.raise _
  · exact Extends.parseLineEnd buf v' ptr argc

/-- The payload of an argument: the sum that the check computes, the looks at the line end and the
copy are all written behind what was there. -/
theorem Extends.parsePayload (buf : ByteString) (A : Allocator) (v : StringView) (len : Nat) :
    Extends (Resp.parsePayload buf A v len) := by
  refine Extends.ite (Extends.pure _) ?_
  refine (Extends.crlfAt buf _).bind fun crlf => Extends.ite ?_ (Extends.raise _)
  refine (Extends.string buf A len).bind fun argv => ?_
  exact (Extends.removePrefix _).bind fun _ => Extends.pure _

/-- `_parse_argv` is a length and a payload. -/
theorem Extends.parseArgv (buf : ByteString) (A : Allocator) :
    Extends (Resp.parseArgv buf A) := by
  refine (Extends.parseNum buf '$').bind fun num => ?_
  cases num with
  | none => exact Extends.pure _
  | some len =>
    refine Extends.view.bind fun v => (Extends.emit _).bind fun _ => ?_
    exact Extends.parsePayload buf A v len

/-- The arguments are read in a loop, and the induction is on its fuel. Each turn only adds to the
log, so any number of them does. -/
theorem Extends.parseArgs (buf : ByteString) (A : Allocator) (count : Nat) :
    ∀ (fuel idx : Nat) (args : RespArgs), Extends (Resp.parseArgs buf A count fuel idx args) := by
  intro fuel
  induction fuel with
  | zero => exact fun idx args => Extends.raise _
  | succ fuel ih =>
    intro idx args
    refine Extends.ite (Extends.pure _) ?_
    refine (Extends.parseArgv buf A).bind fun argv => ?_
    cases argv with
    | none => exact Extends.pure _
    | some argv => exact ih _ _

/-- What follows `reserve` in a round of the outer loop. -/
theorem Extends.parseRest (buf : ByteString) (A : Allocator) (count fuel : Nat)
    (name : ByteString) :
    Extends (Resp.parseArgs buf A count fuel 0 [] >>= fun p =>
      if p.1 < count then Pure.pure none
      else Pure.pure (some { name := name, args := p.2 }) : ParserM (Option RespCommand)) :=
  (Extends.parseArgs buf A count fuel 0 []).bind fun _ =>
    Extends.ite (Extends.pure _) (Extends.pure _)

/-- `_parse_command` is a count, a name and the loop over the arguments. -/
theorem Extends.parseCommand (buf : ByteString) (A : Allocator) :
    Extends (Resp.parseCommand buf A) := by
  refine (Extends.parseNum buf '*').bind fun argc => ?_
  cases argc with
  | none => exact Extends.pure _
  | some argc =>
    refine Extends.ite (Extends.raise _) ?_
    refine (Extends.parseArgv buf A).bind fun name => ?_
    cases name with
    | none => exact Extends.pure _
    | some name =>
      refine (Extends.reserve A _).bind fun _ => ?_
      exact Extends.parseRest buf A _ _ name

/-- The loop of `parse` over the commands of the buffer. So whatever one command logged is in the
log of the whole call, however the commands behind it end. -/
theorem Extends.parseLoop (buf : ByteString) (A : Allocator) :
    ∀ (fuel : Nat) (cmds : List RespCommand) (n : Nat),
      Extends (Resp.parseLoop buf A fuel cmds n) := by
  intro fuel
  induction fuel with
  | zero => exact fun cmds n => Extends.raise _
  | succ fuel ih =>
    intro cmds n
    refine (Extends.parseCommand buf A).bind fun cmd => ?_
    cases cmd with
    | none => exact Extends.pure _
    | some cmd => exact (Extends.emit _).bind fun _ => Extends.view.bind fun v => ih _ _

/-! ### Each length that is read is logged -/

/-- Where a length is read, its sum is in the log: `_parse_argv` computes `len + 2` directly
behind the header, before it looks at anything else. -/
theorem parseArgv_sum (hbuf : buf.length < 2 ^ 64) (A : Allocator) (h : s.At buf l) {n : Nat}
    {r : List Byte} (hnum : scanNum '$' l = .done n r) :
    Event.sum n ∈ (parseArgv buf A s).2.log := by
  have hfollows := parseNum_follows (Φ := fun _ => True) hbuf (fun _ _ => trivial) '$' h
  obtain ⟨hrun, -⟩ := hfollows.done hnum
  unfold parseArgv
  rw [bind_ok hrun]
  -- The sum is logged before the length test.
  show Event.sum n ∈ ((ParserM.view >>= fun v => ParserM.emit (.sum n) >>= fun _ => _) _).2.log
  rw [bind_ok (view_run _)]
  refine Extends.mem_bind (fun _ => Extends.parsePayload buf A _ n) ?_
  exact List.mem_append_right _ (by simp)

/-- A length that is read behind `k` arguments leaves its sum in the log of the loop over the
arguments, if the loop comes that far: its index stays below `count - 1` for so long, or never
meets it because `count` is too large for 32 bits. -/
theorem parseArgs_sum (hbuf : buf.length < 2 ^ 64) (A : Allocator) (count : Nat) {k : Nat}
    (hafter : Scanner.After (scanArgv A) k l l') {n : Nat} {r : List Byte}
    (hnum : scanNum '$' l' = .done n r) :
    ∀ (fuel idx : Nat) (args : RespArgs) (s : Cursor), l.length < fuel → s.At buf l →
      idx < 2 ^ 32 → (idx + k < count ∨ 2 ^ 32 ≤ count) →
      Event.sum n ∈ (parseArgs buf A count fuel idx args s).2.log := by
  induction hafter with
  | zero l =>
    intro fuel idx args s hfuel h hidx hcount
    cases fuel with
    | zero => omega
    | succ fuel =>
      unfold parseArgs
      rw [if_neg (by omega)]
      refine Extends.mem_bind (fun argv => ?_) (parseArgv_sum hbuf A h hnum)
      cases argv with
      | none => exact Extends.pure _
      | some argv => exact Extends.parseArgs buf A count _ _ _
  | @succ l l' r₁ argv k hdone _ ih =>
    intro fuel idx args s hfuel h hidx hcount
    cases fuel with
    | zero => omega
    | succ fuel =>
      have hfollows := parseArgv_follows (Φ := fun _ => True) hbuf (fun _ _ => trivial) A h
        (fun _ _ _ _ _ _ => trivial)
      obtain ⟨hrun, hat⟩ := hfollows.done hdone
      have hlt := (consumes_scanArgv A).length_lt hdone
      unfold parseArgs
      rw [if_neg (by omega), bind_ok hrun]
      exact ih hnum fuel _ _ _ (by omega) hat (Nat.mod_lt _ (by decide)) (by omega)

/-- A length that is read somewhere in a command leaves its sum in the log of `_parse_command`.
The header is the name's or that of an argument, and the count says that it is asked for. -/
theorem parseCommand_sum (hbuf : buf.length < 2 ^ 64) (A : Allocator) (h : s.At buf l)
    (hargv : ArgvAt A l l') {n : Nat} {r : List Byte} (hnum : scanNum '$' l' = .done n r) :
    Event.sum n ∈ (parseCommand buf A s).2.log := by
  obtain ⟨argc, r₁, hargc, hzero, hplace⟩ := hargv
  obtain ⟨hrun, hat⟩ :=
    (parseNum_follows (Φ := fun _ => True) hbuf (fun _ _ => trivial) '*' h).done hargc
  unfold parseCommand parseArgc
  rw [bind_ok hrun]
  simp only
  rw [if_neg hzero]
  rcases hplace with rfl | ⟨name, r₂, k, hname, hreserve, hk, hafter⟩
  · refine Extends.mem_bind (fun name => ?_) (parseArgv_sum hbuf A hat hnum)
    cases name with
    | none => exact Extends.pure _
    | some name =>
      exact (Extends.reserve A _).bind fun _ => Extends.parseRest buf A _ _ name
  · have hfollows := parseArgv_follows (Φ := fun _ => True) hbuf (fun _ _ => trivial) A hat
      (fun _ _ _ _ _ _ => trivial)
    obtain ⟨hrun', hat'⟩ := hfollows.done hname
    have hpos := hat'.pos_add
    rw [bind_ok hrun']
    have hreturns : ∀ s : Cursor, ParserM.reserve A (argc - 1) s
        = (.ok (), { s with log := s.log ++ [.reserve (argc - 1)] }) := by
      intro s
      unfold ParserM.reserve
      rw [hreserve]
    simp only
    rw [bind_ok (hreturns _)]
    refine Extends.mem_bind (fun _ => Extends.ite (Extends.pure _) (Extends.pure _)) ?_
    exact parseArgs_sum hbuf A (argc - 1) hafter hnum (buf.length + 1) 0 [] _ (by omega)
      (hat'.of_view rfl) (by decide) (by omega)

/-- A length that is read behind some complete commands leaves its sum in the log of `parse`. This
is the half of `stays_in_view_iff` that finds the wild reads. -/
theorem parseLoop_sum (hbuf : buf.length < 2 ^ 64) (A : Allocator) {j : Nat}
    {l₁ : List Byte} (hafter : Scanner.After (scanCommand A) j l l₁) (hargv : ArgvAt A l₁ l')
    {n : Nat} {r : List Byte} (hnum : scanNum '$' l' = .done n r) :
    ∀ (fuel : Nat) (cmds : List RespCommand) (m : Nat) (s : Cursor), l.length < fuel →
      s.At buf l → Event.sum n ∈ (parseLoop buf A fuel cmds m s).2.log := by
  induction hafter with
  | zero l =>
    intro fuel cmds m s hfuel h
    cases fuel with
    | zero => omega
    | succ fuel =>
      refine Extends.mem_bind (fun cmd => ?_) (parseCommand_sum hbuf A h hargv hnum)
      cases cmd with
      | none => exact Extends.pure _
      | some cmd =>
        exact (Extends.emit _).bind fun _ => Extends.view.bind fun v =>
          Extends.parseLoop buf A _ _ _
  | @succ l l₁ r₁ cmd j hdone _ ih =>
    intro fuel cmds m s hfuel h
    cases fuel with
    | zero => omega
    | succ fuel =>
      have hfollows := parseCommand_follows (Φ := fun _ => True) hbuf (fun _ _ => trivial) A h
        (fun _ _ _ _ _ _ _ _ => trivial) (fun _ _ => trivial)
      obtain ⟨hrun, hat⟩ := hfollows.done hdone
      have hlt := (consumes_scanCommand A).length_lt hdone
      rw [parseLoop_some hrun]
      exact ih hargv fuel _ _ _ (by omega) (hat.of_view rfl)

/-- The sum of each bulk length that the parser reads is in the log of the run. -/
theorem parseRun_sum (hbuf : buf.length < 2 ^ 64) (A : Allocator) {j n : Nat} {l₁ r : List Byte}
    (hafter : Scanner.After (scanCommand A) j buf l₁) (hargv : ArgvAt A l₁ l')
    (hnum : scanNum '$' l' = .done n r) : Event.sum n ∈ (parseRun A buf).2.log :=
  parseLoop_sum hbuf A hafter hargv hnum (buf.length + 1) [] 0 (Cursor.start buf) (by omega)
    (Cursor.start_at buf)

/-! ### The view -/

/-- Whatever the allocator does, each byte that is compared or copied lies in the view of its
moment, no `remove_prefix` takes more than the view, and no sum `len + 2` wraps. The allocators
are those that the standard library can have: above the `max_size()` of a container `parse` ends
in `std::length_error`, and reads nothing behind it. -/
def StaysInView (B : ByteString) : Prop :=
  ∀ A : Allocator, A.Bounded → ∀ e ∈ (parseRun A B).2.log, e.InView

/-- **When the parser stays inside its view.** Exactly when `len + 2` does not wrap for any bulk
length that it reads. It reads most lengths while nothing is refused below `max_size()`. If a
length wraps, then some allocator lets the parser come to it, and its two reads behind the payload
are in front of the view. If none does, every access is where the scanner looks. -/
theorem stays_in_view_iff (B : ByteString) (hB : B.length < 2 ^ 64) :
    StaysInView B ↔ ∀ n, ReadsLength .standard B n → n + 2 < 2 ^ 64 := by
  constructor
  · intro h n hn
    -- The sum is logged, and what is logged is in view.
    obtain ⟨j, l, l', r, hafter, hargv, hnum⟩ := argvAt_of_readsLength hB hn
    exact h .standard Allocator.standard_bounded _ (parseRun_sum hB .standard hafter hargv hnum)
  · intro h A hA e he
    -- A length that `A` lets the parser read is read under the allocator that refuses less.
    have hlog := (parseLoop_run (Φ := Event.InView) hB (fun e he => he.1) A (B.length + 1) [] 0
      B (Cursor.start B) (by omega) (Cursor.start_at B)
      (fun j l₁ l' n r hafter hargv hnum hwraps => by
        have hlt := h n ((readsLength_of_argvAt hafter hargv hnum).mono hA.le_standard)
        unfold SumWraps at hwraps
        omega)
      (fun _ _ _ _ _ => trivial)).2
    rcases hlog e he with hstart | hin
    · cases hstart
    · exact hin

/-- On the bulk length two below the range the sum wraps to zero, and the parser compares the two
bytes in front of its view. The view is at the end of the buffer there, so that the bytes are in
the buffer, but they are those of the header. -/
theorem leaves_view :
    Event.sum (2 ^ 64 - 2) ∈ (parseRun .standard lengthRequest).2.log ∧
      Event.read ⟨27, 0⟩ 25 ∈ (parseRun .standard lengthRequest).2.log ∧
      ¬ (Event.read ⟨27, 0⟩ 25).InView ∧ ¬ StaysInView lengthRequest := by
  have hsum : Event.sum (2 ^ 64 - 2) ∈ (parseRun .standard lengthRequest).2.log := by
    decide +kernel
  have hread : Event.read ⟨27, 0⟩ 25 ∈ (parseRun .standard lengthRequest).2.log := by
    decide +kernel
  have hout : ¬ (Event.read ⟨27, 0⟩ 25).InView := by
    rintro ⟨h, -⟩
    simp at h
  exact ⟨hsum, hread, hout, fun h => hout (h .standard Allocator.standard_bounded _ hread)⟩

/-- The parser stays inside its view on a `PING`: it reads one length there, and logs no other
sum. -/
theorem stays_in_view_iff_ping : StaysInView pingFrame := by
  have hlog : ∀ e ∈ (parseRun .standard pingFrame).2.log, e.InView := by decide +kernel
  refine (stays_in_view_iff pingFrame (by decide)).mpr fun n hn => ?_
  obtain ⟨j, l, l', r, hafter, hargv, hnum⟩ := argvAt_of_readsLength (by decide) hn
  exact hlog _ (parseRun_sum (by decide) .standard hafter hargv hnum)

/-- The count that no vector has room for, and behind it a length that wraps. The length is never
read, as `reserve` throws in front of it. -/
example : ∀ e ∈ (parseRun .standard
    (countRequest ++ bytesOf "$18446744073709551615\r\nx")).2.log, e.InView := by
  decide +kernel

end VectorEngine.Resp
