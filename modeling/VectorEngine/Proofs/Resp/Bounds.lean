import VectorEngine.Proofs.Resp.Grammar

/-!
# `VectorEngine.Proofs.Resp.Bounds`: what a peer can make the parser do

A peer announces numbers: the argument count of a command and the lengths of its strings.
`ReadsCount` and `ReadsLength` say, in terms of the grammar and of what the allocator grants,
which numbers the parser acts on in a buffer. Each place of a run where the parser acts on one
is of this form, and the parser gets to each of them (`readsLength_iff`,
`readsCount_of_reserveAt`, `reserveAt_of_readsCount`).

`only_errors_iff` says which buffers can only cost their own connection.
-/

set_option autoImplicit false

namespace VectorEngine.Resp

open VectorEngine.Stream
open VectorEngine.Numeral

variable {A : Allocator} {buf l l' : List Byte}

/-! ### The numbers that a buffer announces -/

/-- Behind complete frames, and in a command behind fewer complete bulk strings than were
announced, a length line announces `n`. A count that the 32-bit counter cannot reach is
never enough. The allocator grants what is asked for on the way: what the frames in front take,
the storage of the strings of the command, and behind its name the places for its arguments. -/
def ReadsLength (A : Allocator) (buf : ByteString) (n : Nat) : Prop :=
  ∃ cmds us argc line ss vs header r,
    List.Forall₂ Frame cmds us ∧ (∀ cmd ∈ cmds, cmd.args.length < 2 ^ 32 ∧ Granted A cmd) ∧
      NumLine '*' argc line ∧ argc ≠ 0 ∧ List.Forall₂ BulkString ss vs ∧
      (∀ s ∈ ss, A.string s.length = none) ∧ (ss ≠ [] → A.reserve (argc - 1) = none) ∧
      (ss.length < argc ∨ 2 ^ 32 < argc) ∧ NumLine '$' n header ∧
      buf = us.flatten ++ (line ++ (vs.flatten ++ (header ++ r)))

/-- Behind complete frames, a command with a complete name announces the count `argc`. -/
def ReadsCount (buf : ByteString) (argc : Nat) : Prop :=
  ∃ cmds us line name v r,
    List.Forall₂ Frame cmds us ∧ (∀ cmd ∈ cmds, cmd.args.length < 2 ^ 32) ∧
      NumLine '*' argc line ∧ argc ≠ 0 ∧ BulkString name v ∧
      buf = us.flatten ++ (line ++ (v ++ r))

/-- A length that one allocator lets the parser read is read under any that grants more. -/
theorem ReadsLength.mono {A' : Allocator} (hle : A.Le A') {n : Nat} (h : ReadsLength A buf n) :
    ReadsLength A' buf n := by
  obtain ⟨cmds, us, argc, line, ss, vs, header, r, hus, hcmds, hline, hzero, hvs, hss, hreserve,
    hmore, hheader, heq⟩ := h
  refine ⟨cmds, us, argc, line, ss, vs, header, r, hus, fun cmd hcmd => ?_, hline, hzero, hvs,
    fun s hs => hle.string _ (hss s hs), fun hne => hle.reserve _ (hreserve hne), hmore, hheader,
    heq⟩
  obtain ⟨hcount, hgranted⟩ := hcmds cmd hcmd
  exact ⟨hcount, hle.reserve _ hgranted.reserve, fun s hs => hle.string _ (hgranted.string s hs)⟩

/-- Behind the commands that the parser took are their frames, and the allocator granted them. -/
theorem after_scanCommand_sound {j : Nat} (h : Scanner.After (scanCommand A) j buf l) :
    ∃ cmds us, List.Forall₂ Frame cmds us ∧
      (∀ cmd ∈ cmds, cmd.args.length < 2 ^ 32 ∧ Granted A cmd) ∧ buf = us.flatten ++ l := by
  obtain ⟨cmds, us, -, hus, hbuf, hmem⟩ := h.sound (scanCommand_sound A)
  refine ⟨cmds, us, hus, fun cmd hcmd => ?_, hbuf⟩
  obtain ⟨l₁, r₁, hdone⟩ := hmem cmd hcmd
  obtain ⟨hcount, hgranted⟩ := scanCommand_done_granted hdone
  exact ⟨hcount.args, hgranted⟩

/-- A length that the parser reads is announced by the buffer, and nothing was refused on the
way to it. -/
theorem readsLength_of_argvAt {j n : Nat} {r : List Byte}
    (hafter : Scanner.After (scanCommand A) j buf l) (hargv : ArgvAt A l l')
    (hnum : scanNum '$' l' = .done n r) : ReadsLength A buf n := by
  obtain ⟨cmds, us, hus, hcmds, rfl⟩ := after_scanCommand_sound hafter
  obtain ⟨header, hheader, rfl⟩ := scanNum_done_iff.mp hnum
  obtain ⟨argc, r₁, hargc, hzero, hplace⟩ := hargv
  obtain ⟨line, hline, rfl⟩ := scanNum_done_iff.mp hargc
  rcases hplace with rfl | ⟨name, r₂, k, hname, hreserve, hk, hargs⟩
  · exact ⟨cmds, us, argc, line, [], [], header, r, hus, hcmds, hline, hzero, .nil, by simp,
      by simp, Or.inl (by simp; omega), hheader, rfl⟩
  · obtain ⟨v, hv, -, hstring, rfl⟩ := scanArgv_done_iff.mp hname
    obtain ⟨ss, vs, hlen, hvs, rfl, hmem⟩ := hargs.sound (scanArgv_sound A)
    refine ⟨cmds, us, argc, line, name :: ss, v :: vs, header, r, hus, hcmds, hline, hzero,
      .cons hv hvs, fun s hs => ?_, fun _ => hreserve, ?_, hheader, by simp⟩
    · rcases List.mem_cons.mp hs with rfl | hs
      · exact hstring
      · obtain ⟨l₁, r₁, hdone⟩ := hmem s hs
        obtain ⟨_, -, -, hstring', -⟩ := scanArgv_done_iff.mp hdone
        exact hstring'
    · rw [List.length_cons]
      omega

/-- A count for which the parser reserves storage is announced by the buffer. -/
theorem readsCount_of_reserveAt {j n : Nat} (hafter : Scanner.After (scanCommand A) j buf l)
    (hreserve : ReserveAt A l n) : ∃ argc, ReadsCount buf argc ∧ n = argc - 1 := by
  obtain ⟨cmds, us, hus, hcmds, rfl⟩ := after_scanCommand_sound hafter
  obtain ⟨argc, r, name, r₁, hargc, hzero, hname, rfl⟩ := hreserve
  obtain ⟨line, hline, rfl⟩ := scanNum_done_iff.mp hargc
  obtain ⟨v, hv, rfl⟩ := scanArgv_sound A hname
  exact ⟨argc, ⟨cmds, us, line, name, v, r₁, hus, fun cmd hcmd => (hcmds cmd hcmd).1, hline,
    hzero, hv, rfl⟩, rfl⟩

/-! ### The parser gets there -/

/-- Frames that are part of a buffer are taken, if the allocator grants them. -/
theorem after_frames (hbuf : buf.length < 2 ^ 64) {cmds : List RespCommand}
    {us : List ByteString} (hus : List.Forall₂ Frame cmds us)
    (hcmds : ∀ cmd ∈ cmds, cmd.args.length < 2 ^ 32 ∧ Granted A cmd) (heq : buf = us.flatten ++ l) :
    Scanner.After (scanCommand A) cmds.length buf l := by
  rw [heq]
  refine Scanner.After.of_complete hus (fun cmd hcmd => ?_) l
  -- The strings of the frame lie in the buffer, so that no length line wraps.
  obtain ⟨u, hu, hframe⟩ := Scanner.exists_spelling hus cmd hcmd
  have hle := (List.sublist_flatten_of_mem hu).length_le
  have hlen := congrArg List.length heq
  rw [List.length_append] at hlen
  obtain ⟨hcount, hgranted⟩ := hcmds cmd hcmd
  refine scanCommand_complete ⟨hcount, fun s hs => ?_⟩ hgranted
  have := hframe.length_ge.2 s hs
  unfold SumWraps
  omega

/-- A bulk string that is part of a buffer is taken, if the allocator grants its storage. -/
theorem scanArgv_of_granted (hbuf : buf.length < 2 ^ 64) {s v : ByteString}
    (hv : BulkString s v) (hle : v.length ≤ buf.length) (hA : A.string s.length = none) :
    (scanArgv A).CompleteOn BulkString s := by
  have hlen := hv.length_ge
  refine scanArgv_complete ?_ hA
  unfold SumWraps
  omega

/-- The parser reads each length that the buffer announces. -/
theorem argvAt_of_readsLength (hbuf : buf.length < 2 ^ 64) {n : Nat}
    (h : ReadsLength A buf n) :
    ∃ j l l' r, Scanner.After (scanCommand A) j buf l ∧ ArgvAt A l l' ∧
      scanNum '$' l' = .done n r := by
  obtain ⟨cmds, us, argc, line, ss, vs, header, r, hus, hcmds, hline, hzero, hvs, hss, hreserve,
    hmore, hheader, heq⟩ := h
  have hafter := after_frames hbuf hus hcmds heq
  refine ⟨cmds.length, _, header ++ r, r, hafter, ⟨argc, vs.flatten ++ (header ++ r),
    scanNum_done_iff.mpr ⟨line, hline, rfl⟩, hzero, ?_⟩, scanNum_done_iff.mpr
    ⟨header, hheader, rfl⟩⟩
  -- The header is that of the name, or some strings are in front of it.
  cases hvs with
  | nil => exact Or.inl rfl
  | @cons name v ss vs hv hvs =>
    have hmem : ∀ s ∈ name :: ss, (scanArgv A).CompleteOn BulkString s := by
      intro s hs
      obtain ⟨w, hw, hspelt⟩ := Scanner.exists_spelling (.cons hv hvs) s hs
      -- A string that is spelled in the buffer is no longer than the buffer.
      have hle := (List.sublist_flatten_of_mem hw).length_le
      have hlen := congrArg List.length heq
      simp only [List.length_append] at hlen
      exact scanArgv_of_granted hbuf hspelt (Nat.le_trans hle (by omega)) (hss s hs)
    have hname := hmem name (by simp) v hv (vs.flatten ++ (header ++ r))
    rw [List.length_cons] at hmore
    refine Or.inr ⟨name, vs.flatten ++ (header ++ r), ss.length, ?_,
      hreserve (List.cons_ne_nil _ _), by omega, ?_⟩
    · rw [List.flatten_cons, List.append_assoc]
      exact hname
    · exact Scanner.After.of_complete hvs (fun s hs => hmem s (by simp [hs])) _

/-- **The lengths that the parser reads.** The places of a run where `_parse_argv` reads a
length are those that the grammar describes. -/
theorem readsLength_iff (hbuf : buf.length < 2 ^ 64) {n : Nat} :
    ReadsLength A buf n ↔ ∃ j l l' r, Scanner.After (scanCommand A) j buf l ∧ ArgvAt A l l' ∧
      scanNum '$' l' = .done n r := by
  refine ⟨argvAt_of_readsLength hbuf, ?_⟩
  rintro ⟨j, l, l', r, hafter, hargv, hnum⟩
  exact readsLength_of_argvAt hafter hargv hnum

/-! ### An allocator that grants what fits -/

/-- The allocator grants what a buffer can really hold: places for no more arguments than a
frame of that length has, and the storage of a string that is no longer. -/
structure Grants (A : Allocator) (buf : ByteString) : Prop where
  reserve : ∀ n, shortest n ≤ buf.length → A.reserve n = none
  string : ∀ n, n ≤ buf.length → A.string n = none

/-- The allocator that grants what a buffer can really hold, and nothing more. -/
def fitting (buf : ByteString) : Allocator where
  reserve n := if shortest n ≤ buf.length then none else some .lengthError
  string n := if n ≤ buf.length then none else some .lengthError

/-- The allocator that was built from a buffer grants what the buffer needs, which is what it was
built for. -/
theorem grants_fitting (buf : ByteString) : Grants (fitting buf) buf where
  reserve _ h := if_pos h
  string _ h := if_pos h

/-- For a buffer of fewer than `2 ^ 60` bytes this is an allocator that the standard library can
have: what fits into the buffer is below the `max_size()` of both containers. -/
theorem fitting_bounded (hbuf : buf.length < 2 ^ 60) :
    (fitting buf).Bounded where
  reserve n hn := by
    have hge := shortest_ge n
    exact if_neg (by omega)
  string n hn := if_neg (by omega)

/-- What the frames of a buffer take is granted by an allocator that grants what fits. -/
theorem Grants.frames (hA : Grants A buf) {cmds : List RespCommand} {us : List ByteString}
    (hus : List.Forall₂ Frame cmds us) (heq : buf = us.flatten ++ l) :
    ∀ cmd ∈ cmds, Granted A cmd := by
  intro cmd hcmd
  obtain ⟨u, hu, hframe⟩ := Scanner.exists_spelling hus cmd hcmd
  have hle := (List.sublist_flatten_of_mem hu).length_le
  have hlen := congrArg List.length heq
  rw [List.length_append] at hlen
  have hshortest := hframe.shortest_le
  refine ⟨hA.reserve _ (by omega), fun s hs => ?_⟩
  have := hframe.length_ge.2 s hs
  exact hA.string _ (by omega)

/-- A length that the parser reads under some allocator is read under one that grants what fits,
if the counts on the way fit. -/
theorem ReadsLength.of_grants {A' : Allocator} (hA' : Grants A' buf)
    (hcounts : ∀ argc, ReadsCount buf argc → shortest (argc - 1) ≤ buf.length) {n : Nat}
    (h : ReadsLength A buf n) : ReadsLength A' buf n := by
  obtain ⟨cmds, us, argc, line, ss, vs, header, r, hus, hcmds, hline, hzero, hvs, -, -, hmore,
    hheader, heq⟩ := h
  have hgranted := hA'.frames hus heq
  refine ⟨cmds, us, argc, line, ss, vs, header, r, hus,
    fun cmd hcmd => ⟨(hcmds cmd hcmd).1, hgranted cmd hcmd⟩, hline, hzero, hvs, fun s hs => ?_,
    fun hne => ?_, hmore, hheader, heq⟩
  · obtain ⟨v, hv, hspelt⟩ := Scanner.exists_spelling hvs s hs
    have hle := (List.sublist_flatten_of_mem hv).length_le
    have hlen := congrArg List.length heq
    simp only [List.length_append] at hlen
    have := hspelt.length_ge
    exact hA'.string _ (by omega)
  · -- The name is complete, so that the count is one that the buffer announces.
    refine hA'.reserve _ (hcounts argc ?_)
    cases hvs with
    | nil => exact absurd rfl hne
    | @cons name v ss vs hv hvs =>
      refine ⟨cmds, us, line, name, v, vs.flatten ++ (header ++ r), hus,
        fun cmd hcmd => (hcmds cmd hcmd).1, hline, hzero, hv, ?_⟩
      rw [heq, List.flatten_cons, List.append_assoc]

/-- The parser reserves storage for each count that the buffer announces. -/
theorem reserveAt_of_readsCount (hbuf : buf.length < 2 ^ 64) (hA : Grants A buf) {argc : Nat}
    (h : ReadsCount buf argc) :
    ∃ j l, Scanner.After (scanCommand A) j buf l ∧ ReserveAt A l (argc - 1) := by
  obtain ⟨cmds, us, line, name, v, r, hus, hcounts, hline, hzero, hv, heq⟩ := h
  have hgranted := hA.frames hus heq
  have hafter := after_frames hbuf hus (fun cmd hcmd => ⟨hcounts cmd hcmd, hgranted cmd hcmd⟩) heq
  have hlen := congrArg List.length heq
  simp only [List.length_append] at hlen
  have hlength := hv.length_ge
  have hname := scanArgv_of_granted hbuf hv (by omega) (hA.string _ (by omega)) v hv r
  exact ⟨cmds.length, _, hafter, argc, v ++ r, name, r,
    scanNum_done_iff.mpr ⟨line, hline, rfl⟩, hzero, hname, rfl⟩

/-! ### How a command fails -/

/-- The inner loop fails exactly when some argument that it reads does. -/
theorem scanArgs_eq_fail {count : Nat} {e : Abrupt} :
    scanArgs A count l = .fail e ↔
      ∃ k l', (k < count ∨ 2 ^ 32 ≤ count) ∧ Scanner.After (scanArgv A) k l l' ∧
        scanArgv A l' = .fail e := by
  unfold scanArgs
  by_cases hcount : count < 2 ^ 32
  · rw [if_pos hcount, Scanner.times_eq_fail]
    constructor
    · rintro ⟨k, l', hk, h⟩
      exact ⟨k, l', Or.inl hk, h⟩
    · rintro ⟨k, l', hk, h⟩
      exact ⟨k, l', by omega, h⟩
  · rw [if_neg hcount, Scanner.endless_eq_fail, Scanner.drain_eq_error (consumes_scanArgv A)]
    constructor
    · rintro ⟨k, l', h⟩
      exact ⟨k, l', Or.inr (by omega), h⟩
    · rintro ⟨k, l', -, h⟩
      exact ⟨k, l', h⟩

/-- A command whose name or argument fails. -/
theorem scanCommand_fail_of_argvAt {e : Abrupt} (h : ArgvAt A l l')
    (hfail : scanArgv A l' = .fail e) : scanCommand A l = .fail e := by
  obtain ⟨argc, r, hargc, hzero, hplace⟩ := h
  rcases hplace with rfl | ⟨name, r₁, k, hname, hreserve, hk, hafter⟩
  · show (scanNum '*' l).bind _ = _
    rw [hargc, Verdict.bind_done, if_neg hzero]
    show (scanArgv A l').bind _ = _
    rw [hfail]
    rfl
  · rw [scanCommand_of_name hargc hzero hname hreserve,
      scanArgs_eq_fail.mpr ⟨k, l', hk, hafter, hfail⟩]
    rfl

/-- A command whose argument vector gets no storage. -/
theorem scanCommand_fail_of_reserveAt {n : Nat} {e : StdException} (h : ReserveAt A l n)
    (hrefused : A.reserve n = some e) : scanCommand A l = .fail (.std e) := by
  obtain ⟨argc, r, name, r₁, hargc, hzero, hname, rfl⟩ := h
  show (scanNum '*' l).bind _ = _
  rw [hargc, Verdict.bind_done, if_neg hzero]
  show (scanArgv A r).bind _ = _
  rw [hname]
  show (scanReserve A (argc - 1) r₁).bind _ = _
  unfold scanReserve
  rw [hrefused]
  rfl

/-- A bulk string fails with an `Error`, or because its storage is refused, or on the length
that passes both tests by wrapping. -/
theorem scanArgv_fail_cases {e : Abrupt} (h : scanArgv A l = .fail e) :
    e.IsError ∨ ∃ n r, scanNum '$' l = .done n r ∧
      (n = 2 ^ 64 - 2 ∨ (n ≤ r.length ∧ A.string n ≠ none)) := by
  rcases Verdict.bind_eq_fail.mp h with hnum | ⟨n, r, hnum, h⟩
  · exact Or.inl (scanNum_fails '$' hnum)
  · by_cases htop : n = 2 ^ 64 - 2
    · exact Or.inr ⟨n, r, hnum, Or.inl htop⟩
    · unfold scanPayload at h
      split at h
      · split at h
        · cases h
        · cases h
          exact Or.inl ⟨_, rfl⟩
      · split at h
        · cases h
        · rename_i hlen
          split at h
          · split at h
            · rename_i e' he
              exact Or.inr ⟨n, r, hnum, Or.inr ⟨by omega, by simp [he]⟩⟩
            · cases h
          · cases h
            exact Or.inl ⟨_, rfl⟩

/-- A command fails with an `Error`, or in a bulk string, or because the storage of its
argument vector is refused. -/
theorem scanCommand_fail_cases {e : Abrupt} (h : scanCommand A l = .fail e) :
    e.IsError ∨ (∃ l', ArgvAt A l l' ∧ scanArgv A l' = .fail e) ∨
      ∃ n, ReserveAt A l n ∧ A.reserve n ≠ none := by
  -- The failure is one of the count, of the name, of `reserve` or of an argument.
  rcases Verdict.bind_eq_fail.mp h with hargc | ⟨argc, r, hargc, h⟩
  · exact Or.inl (scanNum_fails '*' hargc)
  · by_cases hzero : argc = 0
    · rw [if_pos hzero] at h
      cases h
      exact Or.inl ⟨_, rfl⟩
    · rw [if_neg hzero] at h
      rcases Verdict.bind_eq_fail.mp h with hname | ⟨name, r₁, hname, h⟩
      · exact Or.inr (Or.inl ⟨r, ⟨argc, r, hargc, hzero, Or.inl rfl⟩, hname⟩)
      · by_cases hreserve : A.reserve (argc - 1) = none
        · rcases Verdict.bind_eq_fail.mp h with hfail | ⟨_, r₂, hdone, h⟩
          · unfold scanReserve at hfail
            rw [hreserve] at hfail
            cases hfail
          · unfold scanReserve at hdone
            rw [hreserve] at hdone
            cases hdone
            rcases Verdict.bind_eq_fail.mp h with hargs | ⟨args, r₃, -, h⟩
            · obtain ⟨k, l', hk, hafter, hfail⟩ := scanArgs_eq_fail.mp hargs
              exact Or.inr (Or.inl ⟨l', ⟨argc, r, hargc, hzero,
                Or.inr ⟨name, r₁, k, hname, hreserve, hk, hafter⟩⟩, hfail⟩)
            · cases h
        · exact Or.inr (Or.inr ⟨argc - 1, ⟨argc, r, name, r₁, hargc, hzero, hname, rfl⟩,
            hreserve⟩)

/-! ### A bad request only costs its own connection -/

/-- The request `B` costs no more than its own connection. While storage is granted for what
`B` can really hold, `parse` returns or throws `Error`. It reserves no more places than `B`
could contain arguments (`shortest_le_iff`), and makes no string longer than `B`. -/
structure OnlyErrors (B : ByteString) : Prop where
  ends : ∀ A, Grants A B → (∃ q, parse A B = .ok q) ∨ ∃ e, parse A B = .error e ∧ e.IsError
  reserve : ∀ A n, .reserve n ∈ (parseRun A B).2.log → shortest n ≤ B.length
  makes : ∀ A, ∀ e ∈ (parseRun A B).2.log, ∀ n, e.Makes n → n ≤ B.length

/-- A failure behind some commands is the failure of `parse`. -/
theorem parse_error_of_after (hbuf : buf.length < 2 ^ 64) {j : Nat} {e : Abrupt}
    (hafter : Scanner.After (scanCommand A) j buf l) (hfail : scanCommand A l = .fail e) :
    parse A buf = .error e :=
  (parse_error_iff hbuf).mpr
    ((Scanner.drain_eq_error (consumes_scanCommand A)).mpr ⟨j, l, hafter, hfail⟩)

/-- The rest of a buffer is no longer than the buffer. -/
theorem After.length_le {α : Type} {p : Scanner Abrupt Byte α} (hp : p.Suffixes) {k : Nat}
    (h : Scanner.After p k l l') : l'.length ≤ l.length := by
  induction h with
  | zero l => exact Nat.le_refl _
  | succ hdone _ ih =>
    obtain ⟨u, hu⟩ := hp hdone
    rw [hu, List.length_append]
    omega

/-- What the parser reads in a command is part of the command's bytes. -/
theorem ArgvAt.length_le (h : ArgvAt A l l') : l'.length ≤ l.length := by
  obtain ⟨argc, r, hargc, -, hplace⟩ := h
  have hr := (consumes_scanNum '*').length_lt hargc
  rcases hplace with rfl | ⟨name, r₁, k, hname, -, -, hafter⟩
  · omega
  · have hr₁ := (consumes_scanArgv A).length_lt hname
    have hl' := After.length_le (consumes_scanArgv A).suffixes hafter
    omega

/-- Where nothing but `Error` leaves `parse` under the allocator that grants just what fits,
each count fits. One that does not is refused by `reserve`. -/
theorem count_le_of_isError {B : ByteString} (hB : B.length < 2 ^ 64)
    (h : ∀ e, parse (fitting B) B = .error e → e.IsError) {argc : Nat}
    (hcount : ReadsCount B argc) : shortest (argc - 1) ≤ B.length := by
  obtain ⟨j, l, hafter, hreserve⟩ := reserveAt_of_readsCount hB (grants_fitting B) hcount
  by_contra hmany
  have hparse := parse_error_of_after hB hafter
    (scanCommand_fail_of_reserveAt hreserve (if_neg hmany))
  obtain ⟨what, hwhat⟩ := h _ hparse
  cases hwhat

/-- Nor is the length read that passes both tests by wrapping. The string that it announces
gets no storage, or is filled from bytes that are not there. -/
theorem not_top_of_isError {B : ByteString} (hB : B.length < 2 ^ 64)
    (h : ∀ e, parse (fitting B) B = .error e → e.IsError) :
    ¬ ReadsLength (fitting B) B (2 ^ 64 - 2) := by
  intro hlength
  obtain ⟨j, l, l', r, hafter, hargv, hnum⟩ := argvAt_of_readsLength hB hlength
  have hfail : ∃ e, scanArgv (fitting B) l' = .fail e ∧ ¬ e.IsError := by
    show ∃ e, (scanNum '$' l').bind (scanPayload (fitting B)) = .fail e ∧ ¬ e.IsError
    rw [hnum, Verdict.bind_done]
    unfold scanPayload
    rw [if_neg (by omega), if_pos rfl]
    cases (fitting B).string (2 ^ 64 - 2) with
    | some e => exact ⟨_, rfl, by rintro ⟨what, hwhat⟩; cases hwhat⟩
    | none => exact ⟨_, rfl, by rintro ⟨what, hwhat⟩; cases hwhat⟩
  obtain ⟨e, he, hnot⟩ := hfail
  exact hnot (h e (parse_error_of_after hB hafter (scanCommand_fail_of_argvAt hargv he)))

/-- Where `parse` throws under an allocator that grants what `B` can hold, it throws `Error`. -/
theorem OnlyErrors.isError {B : ByteString} (h : OnlyErrors B) (hA : Grants A B) {e : Abrupt}
    (hparse : parse A B = .error e) : e.IsError := by
  rcases h.ends A hA with ⟨q, hq⟩ | ⟨e', he', hError⟩
  · rw [hparse] at hq
    cases hq
  · rw [hparse] at he'
    cases he'
    exact hError

/-- What the parser asks for when no count and no length is out of bounds. -/
theorem parseRun_asks {B : ByteString} (hB : B.length < 2 ^ 64)
    (hcounts : ∀ argc, ReadsCount B argc → shortest (argc - 1) ≤ B.length)
    (hlength : ¬ ReadsLength (fitting B) B (2 ^ 64 - 2)) (A : Allocator) :
    Logs (fun e => (∀ n, e = .reserve n → shortest n ≤ B.length) ∧
      ∀ n, e.Makes n → n ≤ B.length) (Cursor.start B) (parseRun A B).2 := by
  -- An access asks for nothing.
  have haccess : ∀ e : Event, e.Access → (∀ n, e = .reserve n → shortest n ≤ B.length) ∧
      ∀ n, e.Makes n → n ≤ B.length := by
    intro e he
    constructor
    · rintro n rfl
      exact he.elim
    · rintro n (rfl | rfl)
      · exact he.elim
      · exact he.elim
  refine (parseLoop_run hB ?_ A (B.length + 1) [] 0 B (Cursor.start B) (by omega)
    (Cursor.start_at B) ?_ ?_).2
  · rintro e ⟨-, he | ⟨n, rfl | rfl, hn⟩⟩
    · exact haccess e he
    -- A string is made out of bytes of the buffer, or out of a name that was.
    · refine ⟨by simp, ?_⟩
      rintro m (h | h)
      · cases h
        exact hn
      · cases h
    · refine ⟨by simp, ?_⟩
      rintro m (h | h)
      · cases h
      · cases h
        exact hn
  · rintro j l₁ l' n r hafter hargv hnum - e (he | ⟨rfl, htop⟩)
    · exact haccess e he
    · have hread : ReadsLength A B (2 ^ 64 - 2) :=
        htop ▸ readsLength_of_argvAt hafter hargv hnum
      exact absurd (hread.of_grants (grants_fitting B) hcounts) hlength
  · intro j l₁ n hafter hreserve
    obtain ⟨argc, hcount, rfl⟩ := readsCount_of_reserveAt hafter hreserve
    constructor
    · intro m h
      cases h
      exact hcounts argc hcount
    · rintro m (h | h)
      · cases h
      · cases h

/-- How `parse` ends when no count and no length is out of bounds. -/
theorem parse_ends {B : ByteString} (hB : B.length < 2 ^ 64)
    (hcounts : ∀ argc, ReadsCount B argc → shortest (argc - 1) ≤ B.length)
    (hlength : ¬ ReadsLength (fitting B) B (2 ^ 64 - 2)) (hA : Grants A B) :
    (∃ q, parse A B = .ok q) ∨ ∃ e, parse A B = .error e ∧ e.IsError := by
  rw [parse_eq_drain A hB]
  cases hd : (scanCommand A).drain B with
  | ok q => exact Or.inl ⟨_, rfl⟩
  | error e =>
    refine Or.inr ⟨e, rfl, ?_⟩
    obtain ⟨j, l, hafter, hfail⟩ := (Scanner.drain_eq_error (consumes_scanCommand A)).mp hd
    have hl := After.length_le (consumes_scanCommand A).suffixes hafter
    -- The only failures that are no `Error` are the wild length and refused storage.
    rcases scanCommand_fail_cases hfail with hError | ⟨l', hargv, hfail'⟩ | ⟨n, hn, hrefused⟩
    · exact hError
    · rcases scanArgv_fail_cases hfail' with hError | ⟨n, r, hnum, htop | ⟨hle, hrefused⟩⟩
      · exact hError
      · have hread : ReadsLength A B (2 ^ 64 - 2) :=
          htop ▸ readsLength_of_argvAt hafter hargv hnum
        exact absurd (hread.of_grants (grants_fitting B) hcounts) hlength
      · -- The bytes of the string are there, so its storage is granted.
        have hl' := hargv.length_le
        have hr := (consumes_scanNum '$').length_lt hnum
        exact absurd (hA.string n (by omega)) hrefused
    · -- A count that fits in the buffer is granted.
      obtain ⟨argc, hcount, rfl⟩ := readsCount_of_reserveAt hafter hn
      exact absurd (hA.reserve _ (hcounts argc hcount)) hrefused

/-- **When a bad request only costs its own connection.** Each count announced in a command
whose name is complete is one that the buffer could hold, and no bulk length that the parser
reads is `2 ^ 64 - 2`. -/
theorem only_errors_iff (B : ByteString) (hB : B.length < 2 ^ 64) :
    OnlyErrors B ↔
      (∀ argc, ReadsCount B argc → shortest (argc - 1) ≤ B.length) ∧
        ¬ ReadsLength (fitting B) B (2 ^ 64 - 2) := by
  constructor
  · intro h
    have hError := fun e => h.isError (grants_fitting B) (e := e)
    exact ⟨fun argc hcount => count_le_of_isError hB hError hcount, not_top_of_isError hB hError⟩
  · rintro ⟨hcounts, hlength⟩
    refine ⟨fun A hA => parse_ends hB hcounts hlength hA, fun A n hn => ?_, fun A e he n hn => ?_⟩
    · rcases parseRun_asks hB hcounts hlength A _ hn with hstart | ⟨hreserve, -⟩
      · cases hstart
      · exact hreserve n rfl
    · rcases parseRun_asks hB hcounts hlength A _ he with hstart | ⟨-, hmakes⟩
      · cases hstart
      · exact hmakes n hn

/-- The largest count that fits, and a name. -/
def countRequest : ByteString := bytesOf "*18446744073709551615\r\n$0\r\n\r\n"

/-- A bulk length two below the range, which passes both tests of `_parse_argv`. -/
def lengthRequest : ByteString := bytesOf "*1\r\n$18446744073709551614\r\n"

/-- The standard library's `length_error` leaves the event loop on either request: on the first
for a count that no vector holds, and on the second for a length that no string has. -/
theorem only_errors_fails :
    parse .standard countRequest = .error (.std .lengthError) ∧
      parse .standard lengthRequest = .error (.std .lengthError) ∧
      ¬ OnlyErrors countRequest ∧ ¬ OnlyErrors lengthRequest := by
  have hcount : parse .standard countRequest = .error (.std .lengthError) := by decide +kernel
  have hlength : parse .standard lengthRequest = .error (.std .lengthError) := by decide +kernel
  have hgrants : ∀ B : ByteString, B.length < 100 → Grants .standard B := by
    intro B hB
    refine ⟨fun n hn => if_pos ?_, fun n hn => if_pos (by omega)⟩
    have hge := shortest_ge n
    omega
  have hnot : ∀ B : ByteString, B.length < 100 → parse .standard B = .error (.std .lengthError) →
      ¬ OnlyErrors B := by
    intro B hB hparse h
    rcases h.ends .standard (hgrants B hB) with ⟨q, hq⟩ | ⟨e, he, what, hwhat⟩
    · rw [hparse] at hq
      cases hq
    · rw [hparse] at he
      cases he
      cases hwhat
  exact ⟨hcount, hlength, hnot _ (by decide) hcount, hnot _ (by decide) hlength⟩

/-- A `PING` only costs its own connection: under the allocator that grants no more than fits it
is parsed, so that neither its count nor a length is out of bounds. -/
theorem only_errors_iff_ping : OnlyErrors pingFrame := by
  have hlength : pingFrame.length < 2 ^ 64 := by decide
  have hparse : parse (fitting pingFrame) pingFrame = .ok ([ping], 14) := by decide +kernel
  have hError : ∀ e, parse (fitting pingFrame) pingFrame = .error e → e.IsError := by
    intro e he
    rw [hparse] at he
    cases he
  exact (only_errors_iff pingFrame hlength).mpr
    ⟨fun argc hcount => count_le_of_isError hlength hError hcount,
      not_top_of_isError hlength hError⟩

end VectorEngine.Resp
