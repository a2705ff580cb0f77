import VectorEngine.Proofs.Resp.Grammar

/-!
# `VectorEngine.Proofs.Resp.Counter`: the counter of the argument loop

The inner loop of `parse` counts its arguments with an `unsigned int`, and compares the counter
with `argc - 1`, which is a `std::size_t`. `argsTest` follows the loop call by call: the state in
which it comes to its test behind `n` successful calls of `_parse_argv`. The counter is `n`
modulo `2 ^ 32` there (`argsTest_counts`), and what the loop returns is one of these states
(`parseArgs_stops`).

`argument_count_iff` says when the loop honours its count: on every view with that many complete
arguments at its front, exactly if the count is below `2 ^ 32`. From there on the counter goes
back to zero before it has reached the count, the loop runs on beyond the last argument, and the
test behind the loop calls a complete request incomplete (`argument_count_fails`).
-/

set_option autoImplicit false

namespace VectorEngine.Resp

open VectorEngine.Stream
open VectorEngine.Numeral
open ParserM

/-- The inner loop of `parse` at its test, behind `n` successful calls of `_parse_argv`: the
counter, the arguments, and the cursor. `none` if the loop does not come that far. -/
def argsTest (buf : ByteString) (A : Allocator) (count : Nat) (s : Cursor) :
    Nat → Option (Nat × RespArgs × Cursor)
  | 0 => some (0, [], s)
  | n + 1 =>
    match argsTest buf A count s n with
    | none => none
    | some (idx, args, s') =>
      if idx = count then none
      else
        match parseArgv buf A s' with
        | (.ok (some argv), s'') => some ((idx + 1) % 2 ^ 32, args ++ [argv], s'')
        | _ => none

/-- One of the `count` arguments is not complete: `_parse_argv` answers `std::nullopt` for it. -/
def SomeIncomplete (buf : ByteString) (A : Allocator) (count : Nat) (s : Cursor) : Prop :=
  ∃ n, n < count ∧ ∃ idx args s', argsTest buf A count s n = some (idx, args, s') ∧
    (parseArgv buf A s').1 = .ok none

/-- The test `idx < argc - 1` behind the loop is true exactly when an argument is not
complete. -/
def TestTells (buf : ByteString) (A : Allocator) (count : Nat) (s : Cursor) : Prop :=
  ∀ idx args s', parseArgs buf A count (buf.length + 1) 0 [] s = (.ok (idx, args), s') →
    (idx < count ↔ SomeIncomplete buf A count s)

/-- What is asked of the inner loop, for `count = argc - 1` and a view with the arguments
`args` at its front:

- `stops`: behind exactly `count` successful calls its test ends it, with these arguments;
- `unwrapped`: no `++idx` wraps;
- `tells`: the test behind it tells whether an argument is not complete. -/
structure HonoursCount (buf : ByteString) (A : Allocator) (count : Nat) (s : Cursor)
    (args : RespArgs) : Prop where
  stops : ∃ s', argsTest buf A count s count = some (count, args, s') ∧
    parseArgs buf A count (buf.length + 1) 0 [] s = (.ok (count, args), s')
  unwrapped : ∀ n idx as s', argsTest buf A count s n = some (idx, as, s') →
    (argsTest buf A count s (n + 1)).isSome → idx + 1 < 2 ^ 32
  tells : TestTells buf A count s

variable {buf : ByteString} {A : Allocator} {count n idx : Nat} {s s' : Cursor} {as : RespArgs}

/-! ### From test to test -/

/-- The loop comes to its next test by one successful call. -/
theorem argsTest_succ {idx' : Nat} {as' : RespArgs} {s'' : Cursor}
    (h : argsTest buf A count s (n + 1) = some (idx', as', s'')) :
    ∃ idx as s' argv, argsTest buf A count s n = some (idx, as, s') ∧ idx ≠ count ∧
      parseArgv buf A s' = (.ok (some argv), s'') ∧ idx' = (idx + 1) % 2 ^ 32 ∧
      as' = as ++ [argv] := by
  rw [argsTest] at h
  cases hn : argsTest buf A count s n with
  | none =>
    rw [hn] at h
    cases h
  | some q =>
    obtain ⟨idx, as, s'⟩ := q
    simp only [hn] at h
    by_cases hidx : idx = count
    · rw [if_pos hidx] at h
      cases h
    · rw [if_neg hidx] at h
      rcases hargv : parseArgv buf A s' with ⟨(e | (_ | argv)), s₁⟩
      -- The call threw, answered `std::nullopt`, or returned an argument.
      · rw [hargv] at h
        cases h
      · rw [hargv] at h
        cases h
      · rw [hargv] at h
        cases h
        exact ⟨idx, as, s', argv, rfl, hidx, hargv, rfl, rfl⟩

/-- A successful call leads to the next test. -/
theorem argsTest_next {s'' : Cursor} {argv : ByteString}
    (h : argsTest buf A count s n = some (idx, as, s')) (hidx : idx ≠ count)
    (hargv : parseArgv buf A s' = (.ok (some argv), s'')) :
    argsTest buf A count s (n + 1) = some ((idx + 1) % 2 ^ 32, as ++ [argv], s'') := by
  rw [argsTest, h]
  simp only [if_neg hidx, hargv]

/-- The counter and the arguments count the calls, the counter modulo `2 ^ 32`. -/
theorem argsTest_counts : ∀ {n idx : Nat} {as : RespArgs} {s' : Cursor},
    argsTest buf A count s n = some (idx, as, s') → idx = n % 2 ^ 32 ∧ as.length = n := by
  intro n
  induction n with
  | zero =>
    intro idx as s' h
    cases h
    exact ⟨rfl, rfl⟩
  | succ n ih =>
    intro idx' as' s'' h
    obtain ⟨idx, as, s', argv, hn, -, -, rfl, rfl⟩ := argsTest_succ h
    obtain ⟨rfl, hlen⟩ := ih hn
    refine ⟨by omega, ?_⟩
    rw [List.length_append, hlen]
    rfl

/-- A test that the loop comes to is behind all earlier ones. -/
theorem argsTest_before {m : Nat} (hle : n ≤ m) (hm : (argsTest buf A count s m).isSome) :
    (argsTest buf A count s n).isSome := by
  induction m, hle using Nat.le_induction with
  | base => exact hm
  | succ m _ ih =>
    obtain ⟨q, hq⟩ := Option.isSome_iff_exists.mp hm
    obtain ⟨idx, as, s', argv, hprev, -⟩ := argsTest_succ hq
    exact ih (by rw [hprev]; rfl)

/-- A count that the counter reaches bounds the number of calls. -/
theorem argsTest_le (hcount : count < 2 ^ 32) : ∀ {n idx : Nat} {as : RespArgs} {s' : Cursor},
    argsTest buf A count s n = some (idx, as, s') → n ≤ count := by
  intro n
  induction n with
  | zero =>
    intro idx as s' _
    exact Nat.zero_le count
  | succ n ih =>
    intro idx' as' s'' h
    obtain ⟨idx, as, s', argv, hn, hne, -⟩ := argsTest_succ h
    have hle := ih hn
    obtain ⟨rfl, -⟩ := argsTest_counts hn
    -- The loop went on at `n`, which is the counter there.
    rw [Nat.mod_eq_of_lt (by omega)] at hne
    omega

/-! ### The loop and its tests -/

/-- From each test the loop goes on as from its start. -/
theorem parseArgs_of_test : ∀ {n idx : Nat} {as : RespArgs} {s' : Cursor} (fuel : Nat),
    argsTest buf A count s n = some (idx, as, s') →
    parseArgs buf A count (n + fuel) 0 [] s = parseArgs buf A count fuel idx as s' := by
  intro n
  induction n with
  | zero =>
    intro idx as s' fuel h
    cases h
    rw [Nat.zero_add]
  | succ n ih =>
    intro idx' as' s'' fuel h
    obtain ⟨idx, as, s', argv, hn, hidx, hargv, rfl, rfl⟩ := argsTest_succ h
    rw [Nat.add_right_comm, Nat.add_assoc, ih (fuel + 1) hn, parseArgs, if_neg hidx,
      bind_ok hargv]

/-- What the loop returns is the state of one of its tests: of the one that ended it, or of the
last one before an argument that is not complete. -/
theorem parseArgs_stops : ∀ {fuel n idx : Nat} {as : RespArgs} {s' : Cursor},
    argsTest buf A count s n = some (idx, as, s') →
    ∀ {idx' : Nat} {as' : RespArgs} {s'' : Cursor},
      parseArgs buf A count fuel idx as s' = (.ok (idx', as'), s'') →
      ∃ m t, argsTest buf A count s m = some (idx', as', t) ∧
        (idx' = count ∨ idx' ≠ count ∧ (parseArgv buf A t).1 = .ok none) := by
  intro fuel
  induction fuel with
  | zero =>
    intro n idx as s' _ idx' as' s'' h
    cases h
  | succ fuel ih =>
    intro n idx as s' hn idx' as' s'' h
    rw [parseArgs] at h
    by_cases hidx : idx = count
    · rw [if_pos hidx] at h
      cases h
      exact ⟨n, _, hn, Or.inl hidx⟩
    · rw [if_neg hidx] at h
      rcases hargv : parseArgv buf A s' with ⟨(e | (_ | argv)), s₁⟩
      · rw [bind_error hargv] at h
        cases h
      · rw [bind_ok hargv] at h
        cases h
        exact ⟨n, s', hn, Or.inr ⟨hidx, by rw [hargv]⟩⟩
      · rw [bind_ok hargv] at h
        exact ih (argsTest_next hn hidx hargv) h

/-- Below `2 ^ 32` the test behind the loop tells what it should, on every view. -/
theorem testTells_of_lt (hcount : count < 2 ^ 32) (s : Cursor) : TestTells buf A count s := by
  intro idx as s' h
  have hfirst : argsTest buf A count s 0 = some (0, [], s) := rfl
  obtain ⟨m, t, hm, hstop⟩ := parseArgs_stops hfirst h
  have hle := argsTest_le hcount hm
  obtain ⟨hidx, -⟩ := argsTest_counts hm
  rw [Nat.mod_eq_of_lt (by omega)] at hidx
  subst hidx
  constructor
  · intro hlt
    rcases hstop with heq | ⟨-, hnone⟩
    · omega
    · exact ⟨idx, hlt, idx, as, t, hm, hnone⟩
  · rintro ⟨n, hn, i, a, u, hat, hnone⟩
    by_contra hge
    -- Had the loop gone on to the count, the call at `n` would have returned an argument.
    have hlast : (argsTest buf A count s idx).isSome := by
      rw [hm]
      rfl
    have hnext : (argsTest buf A count s (n + 1)).isSome := argsTest_before (by omega) hlast
    obtain ⟨q, hq⟩ := Option.isSome_iff_exists.mp hnext
    obtain ⟨i', a', u', argv, hat', -, hargv, -⟩ := argsTest_succ hq
    rw [hat] at hat'
    cases hat'
    rw [hargv] at hnone
    cases hnone

/-! ### Complete arguments -/

/-- Over complete bulk strings the loop goes on until it has them all, as long as there are no
more of them than it should take. -/
theorem argsTest_complete (hbuf : buf.length < 2 ^ 64) {bs us : List ByteString}
    (hus : List.Forall₂ BulkString bs us) (r : List Byte) :
    ∀ {n : Nat} {as : RespArgs} {s' : Cursor},
      argsTest buf A count s n = some (n % 2 ^ 32, as, s') → s'.At buf (us.flatten ++ r) →
      n + bs.length ≤ count → (∀ b ∈ bs, A.string b.length = none) →
      ∃ t, argsTest buf A count s (n + bs.length)
        = some ((n + bs.length) % 2 ^ 32, as ++ bs, t) := by
  induction hus with
  | nil =>
    intro n as s' hn _ _ _
    exact ⟨s', by simpa using hn⟩
  | @cons b u bs us hu _ ih =>
    intro n as s' hn hat hle hA
    rw [List.length_cons] at hle
    have hpos := hat.pos_add
    have hlen := hu.length_ge
    rw [List.flatten_cons, List.append_assoc] at hat
    have hwrap : ¬ SumWraps b.length := by
      simp only [List.flatten_cons, List.length_append] at hpos
      unfold SumWraps
      omega
    have hdone := scanArgv_complete hwrap (hA b (by simp)) u hu (us.flatten ++ r)
    have hfollows := parseArgv_follows (Φ := fun _ => True) hbuf (fun _ _ => trivial) A hat
      fun _ _ _ _ _ _ => trivial
    obtain ⟨hargv, hat'⟩ := hfollows.done hdone
    -- The counter is at most the number of calls, which is below the count.
    have hidx : n % 2 ^ 32 ≠ count := by
      have hmod := Nat.mod_le n (2 ^ 32)
      omega
    have hnext := argsTest_next hn hidx hargv
    rw [show (n % 2 ^ 32 + 1) % 2 ^ 32 = (n + 1) % 2 ^ 32 by omega] at hnext
    obtain ⟨t, ht⟩ := ih hnext hat' (by omega) fun b' hb' => hA b' (by simp [hb'])
    rw [show n + 1 + bs.length = n + (b :: bs).length by rw [List.length_cons]; omega,
      List.append_assoc] at ht
    exact ⟨t, ht⟩

/-- On complete arguments the loop honours its count exactly if the count is below
`2 ^ 32`. -/
theorem honoursCount_iff (hbuf : buf.length < 2 ^ 64) {args us : List ByteString}
    {r : List Byte} (hat : s.At buf (us.flatten ++ r))
    (hus : List.Forall₂ BulkString args us) (hlen : args.length = count)
    (hA : ∀ a ∈ args, A.string a.length = none) :
    HonoursCount buf A count s args ↔ count < 2 ^ 32 := by
  constructor
  · intro h
    obtain ⟨t, ht, -⟩ := h.stops
    obtain ⟨hidx, -⟩ := argsTest_counts ht
    omega
  · intro hcount
    have hfirst : argsTest buf A count s 0 = some (0 % 2 ^ 32, [], s) := rfl
    obtain ⟨t, ht⟩ := argsTest_complete hbuf hus r hfirst hat (by omega) hA
    rw [Nat.zero_add, List.nil_append, hlen, Nat.mod_eq_of_lt hcount] at ht
    refine ⟨⟨t, ht, ?_⟩, ?_, testTells_of_lt hcount s⟩
    -- The view holds more bytes than arguments, so the rounds of the model suffice.
    · have hpos := hat.pos_add
      have hcost := (bulkStrings_length hus).1
      rw [List.length_append] at hpos
      have hfuel : buf.length + 1 = count + (buf.length - count + 1) := by omega
      rw [hfuel, parseArgs_of_test _ ht, parseArgs, if_pos rfl]
      rfl
    · intro n idx as s' hn hnext
      obtain ⟨q, hq⟩ := Option.isSome_iff_exists.mp hnext
      have hle := argsTest_le hcount hq
      obtain ⟨rfl, -⟩ := argsTest_counts hn
      omega

/-- `n` empty bulk strings. -/
theorem emptyStrings (n : Nat) :
    List.Forall₂ BulkString (List.replicate n []) (List.replicate n (bytesOf "$0\r\n\r\n")) := by
  have hline : NumLine '$' 0 (bytesOf "$0\r\n") :=
    ⟨⟨render 0, isNumeral_render 0, by decide +kernel⟩, by decide +kernel⟩
  have hempty : BulkString [] (bytesOf "$0\r\n\r\n") := ⟨_, hline, by decide +kernel⟩
  induction n with
  | zero => exact .nil
  | succ n ih => exact .cons hempty ih

/-- **When the argument loop honours its count.** For every count `argc - 1`: on every view with
that many complete arguments at its front, the loop honours the count exactly if it is below
`2 ^ 32`. Such a count makes the test behind the loop right on every view. -/
theorem argument_count_iff (buf : ByteString) (hbuf : buf.length < 2 ^ 64) (A : Allocator)
    (count : Nat) :
    (∀ s args us r, s.At buf (us.flatten ++ r) → List.Forall₂ BulkString args us →
        args.length = count → (∀ a ∈ args, A.string a.length = none) →
        (HonoursCount buf A count s args ↔ count < 2 ^ 32)) ∧
      (count < 2 ^ 32 → ∀ s, TestTells buf A count s) :=
  ⟨fun _ _ _ _ hat hus hlen hA => honoursCount_iff hbuf hat hus hlen hA,
    fun hcount s => testTells_of_lt hcount s⟩

/-- Two empty arguments in a buffer: the theorem at a count below `2 ^ 32`, where the loop honours
it. -/
theorem argument_count_iff_two :
    HonoursCount (bytesOf "$0\r\n\r\n$0\r\n\r\n") .ample 2
      (Cursor.start (bytesOf "$0\r\n\r\n$0\r\n\r\n")) [[], []] := by
  have hcounts := argument_count_iff (bytesOf "$0\r\n\r\n$0\r\n\r\n") (by decide) .ample 2
  refine (hcounts.1 _ _ _ [] ?_ (emptyStrings 2) rfl (by decide)).mpr (by decide)
  exact Cursor.start_at _

/-! ### Counts that the counter does not reach -/

/-- A complete request with so many arguments is not returned. -/
theorem parse_uncounted {cmd : RespCommand} (h : Frame cmd buf) (hbuf : buf.length < 2 ^ 64)
    (hcount : 2 ^ 32 ≤ cmd.args.length) (hA : Granted A cmd) : parse A buf = .ok ([], 0) := by
  have hwrap : ∀ s ∈ cmd.name :: cmd.args, ¬ SumWraps s.length := by
    intro s hs
    have hlen := h.length_ge.2 s hs
    unfold SumWraps
    omega
  rw [parse_eq_drain A hbuf, Scanner.drain_more (scanCommand_uncountable h hcount hwrap hA)]
  simp

/-- `PING` with `n` empty arguments. -/
def manyArgs (n : Nat) : RespCommand where
  name := bytesOf "PING"
  args := List.replicate n []

/-- The request of `manyArgs (2 ^ 32)`, up to its arguments. -/
def manyArgsHead : ByteString := bytesOf "*4294967297\r\n$4\r\nPING\r\n"

/-- The bytes of the arguments of `manyArgs n`. -/
def manyArgsTail (n : Nat) : List ByteString := List.replicate n (bytesOf "$0\r\n\r\n")

/-- Each argument of the family is the six bytes `$0\r\n\r\n`. -/
theorem length_manyArgsTail (n : Nat) : (manyArgsTail n).flatten.length = n * 6 := by
  unfold manyArgsTail
  rw [List.length_flatten, List.map_replicate, List.sum_replicate]
  rfl

/-- The request of `manyArgs (2 ^ 32)`. -/
theorem frame_manyArgs {n : Nat} (hn : n = 2 ^ 32) :
    Frame (manyArgs n) (manyArgsHead ++ (manyArgsTail n).flatten) := by
  have hcount : NumLine '*' (n + 1) (bytesOf "*4294967297\r\n") :=
    ⟨⟨render 4294967297, hn ▸ isNumeral_render 4294967297, by decide +kernel⟩, by omega⟩
  have hlen : NumLine '$' 4 (bytesOf "$4\r\n") :=
    ⟨⟨render 4, isNumeral_render 4, by decide +kernel⟩, by decide +kernel⟩
  have hname : BulkString (bytesOf "PING") (bytesOf "$4\r\nPING\r\n") :=
    ⟨bytesOf "$4\r\n", hlen, by decide +kernel⟩
  have hargs : (manyArgs n).args.length = n := List.length_replicate
  rw [← hargs] at hcount
  refine ⟨_, _, hcount, .cons hname (emptyStrings n), ?_⟩
  rw [List.flatten_cons, ← List.append_assoc]
  rfl

/-- A complete request with `2 ^ 32` arguments, and the loop at the first of them: behind the
last argument the counter is back at zero, the loop does not honour its count, and `parse`
returns nothing. -/
theorem argument_count_fails :
    ∃ (buf : ByteString) (s t : Cursor) (args us : List ByteString),
      Frame { name := bytesOf "PING", args := args } buf ∧ buf.length < 2 ^ 64 ∧
        s.At buf us.flatten ∧ List.Forall₂ BulkString args us ∧ args.length = 2 ^ 32 ∧
        argsTest buf .ample (2 ^ 32) s (2 ^ 32) = some (0, args, t) ∧
        ¬ HonoursCount buf .ample (2 ^ 32) s args ∧ parse .ample buf = .ok ([], 0) := by
  -- The number stays a variable: nothing here should compute with a list of that length.
  obtain ⟨n, hn⟩ : ∃ n : Nat, n = 2 ^ 32 := ⟨_, rfl⟩
  rw [← hn]
  have hframe := frame_manyArgs hn
  have hus : List.Forall₂ BulkString (manyArgs n).args (manyArgsTail n) := emptyStrings n
  have hlen : (manyArgs n).args.length = n := List.length_replicate
  have hbuf : (manyArgsHead ++ (manyArgsTail n).flatten).length < 2 ^ 64 := by
    have hhead : manyArgsHead.length = 23 := by decide
    rw [List.length_append, length_manyArgsTail, hhead]
    omega
  have hstring : ∀ a ∈ (manyArgs n).args, Allocator.ample.string a.length = none := by
    intro a ha
    rw [List.eq_of_mem_replicate ha]
    decide
  -- The cursor behind the name.
  obtain ⟨s, hat⟩ : ∃ s : Cursor, s.At (manyArgsHead ++ (manyArgsTail n).flatten)
      ((manyArgsTail n).flatten ++ []) :=
    ⟨⟨⟨manyArgsHead.length, (manyArgsTail n).flatten.length⟩, []⟩, by simp, by simp, by simp⟩
  have htest : ∃ t, argsTest (manyArgsHead ++ (manyArgsTail n).flatten) .ample n s
      (0 + (manyArgs n).args.length)
      = some ((0 + (manyArgs n).args.length) % 2 ^ 32, [] ++ (manyArgs n).args, t) :=
    argsTest_complete hbuf hus [] rfl hat (by omega) hstring
  obtain ⟨t, ht⟩ := htest
  have hwrapped : (0 + n) % 2 ^ 32 = 0 := by omega
  rw [hlen, hwrapped, Nat.zero_add, List.nil_append] at ht
  refine ⟨_, s, t, (manyArgs n).args, _, hframe, hbuf, ?_, hus, hlen, ht, ?_, ?_⟩
  · rw [List.append_nil] at hat
    exact hat
  · intro h
    have hlt := (honoursCount_iff hbuf hat hus hlen hstring).mp h
    omega
  · refine parse_uncounted hframe hbuf (by omega) ⟨rfl, fun a ha => ?_⟩
    rcases List.mem_cons.mp ha with rfl | ha
    · show Allocator.ample.string (bytesOf "PING").length = none
      decide
    · exact hstring a ha

end VectorEngine.Resp
