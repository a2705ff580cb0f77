import VectorEngine.Proofs.Resp.Run

/-!
# `VectorEngine.Proofs.Resp.Loop`: the loops of `RespCommandParser::parse`

The inner loop collects what `scanArgs` collects, and one round of the outer loop gives the
verdict of `scanCommand`. `ArgvAt` and `ReserveAt` name the places of a command where the
parser reads a bulk length or reserves storage, which are the only places where it can
leave its view or ask for more than it was sent.

The main result is `parse_eq_drain`: `parse` takes commands off the buffer with
`scanCommand` until it meets an incomplete one or a failure. It holds for every buffer that
a `std::string_view` can have, and it says that the loops never run out of rounds
(`parse_ne_diverges`).
-/

set_option autoImplicit false

namespace VectorEngine.Resp

open VectorEngine.Stream
open ParserM

variable {buf : ByteString} {s : Cursor} {l : List Byte} {α : Type} {Φ : Event → Prop}

/-! ### The loop over the arguments -/

/-- The inner loop, for a count that its counter reaches, and behind it the completeness
test. `m` is what is left to collect. -/
theorem parseArgs_follows_times (hbuf : buf.length < 2 ^ 64) (hΦ : ∀ e, e.Tame buf → Φ e)
    (A : Allocator) (count : Nat) (hcount : count < 2 ^ 32) (build : RespArgs → α) :
    ∀ (fuel idx m : Nat) (args : RespArgs) (l : List Byte) (s : Cursor), idx + m = count →
      l.length < fuel → s.At buf l →
      (∀ k l' n r, k < m → Scanner.After (scanArgv A) k l l' → scanNum '$' l' = .done n r →
        SumWraps n → ∀ e, e.Wrapped n → Φ e) →
      Follows buf Φ
        (((scanArgv A).times m l).bind fun as r => .done (build (args ++ as)) r) s
        (parseArgs buf A count fuel idx args >>= fun p =>
          if p.1 < count then pure none else pure (some (build p.2))) := by
  intro fuel
  induction fuel with
  | zero => intro idx m args l s _ hfuel; omega
  | succ fuel ih =>
    intro idx m args l s hidx hfuel h hwrap
    unfold parseArgs
    -- Nothing is left: the counter has reached the count, and the test behind the loop passes.
    cases m with
    | zero =>
      rw [if_pos (by omega)]
      show Follows buf Φ (.done (build (args ++ [])) l) s
        (if idx < count then pure none else pure (some (build args)))
      rw [if_neg (by omega), List.append_nil]
      exact Follows.some h
    | succ m =>
      have hargv := parseArgv_follows hbuf hΦ A h fun n r hn hw e he =>
        hwrap 0 l n r (by omega) (.zero l) hn hw e he
      rw [if_neg (by omega), bind_assoc]
      show Follows buf Φ (((scanArgv A l).bind _).bind _) s _
      rw [Verdict.bind_assoc]
      -- An argument that is not complete ends the loop with the counter below the count.
      refine hargv.bind ?_ fun argv r s' hdone h' => ?_
      · show (if idx < count then pure none else pure (some (build args))) =
          (pure none : ParserM (Option α))
        rw [if_pos (by omega)]
      · have hlt := (consumes_scanArgv A).length_lt hdone
        -- The count is below `2 ^ 32`, so the counter does not wrap on the way to it.
        have hnext := ih ((idx + 1) % 2 ^ 32) m (args ++ [argv]) r s'
          (by rw [Nat.mod_eq_of_lt (by omega)]; omega) (by omega) h'
          fun k l' n r' hk hafter => hwrap (k + 1) l' n r' (by omega) (.succ hdone hafter)
        have hverdict : ((((scanArgv A).times m).andThen fun as => Scanner.succeed (argv :: as)) r
              ).bind (fun as r => .done (build (args ++ as)) r)
            = ((scanArgv A).times m r).bind
                (fun as r => .done (build (args ++ [argv] ++ as)) r) := by
          show (((scanArgv A).times m r).bind _).bind _ = _
          rw [Verdict.bind_assoc]
          congr 1
          funext as r'
          rw [List.append_assoc]
          rfl
        rw [hverdict]
        exact hnext

/-- The inner loop, for a count that its counter never reaches: it stops only at an
argument that is not complete, or throws. -/
theorem parseArgs_follows_endless (hbuf : buf.length < 2 ^ 64) (hΦ : ∀ e, e.Tame buf → Φ e)
    (A : Allocator) (count : Nat) (hcount : 2 ^ 32 ≤ count) (build : RespArgs → α) :
    ∀ (fuel idx : Nat) (args : RespArgs) (l : List Byte) (s : Cursor), idx < 2 ^ 32 →
      l.length < fuel → s.At buf l →
      (∀ k l' n r, Scanner.After (scanArgv A) k l l' → scanNum '$' l' = .done n r →
        SumWraps n → ∀ e, e.Wrapped n → Φ e) →
      Follows buf Φ ((scanArgv A).endless l) s
        (parseArgs buf A count fuel idx args >>= fun p =>
          if p.1 < count then pure none else pure (some (build p.2))) := by
  intro fuel
  induction fuel with
  | zero => intro idx args l s _ hfuel; omega
  | succ fuel ih =>
    intro idx args l s hidx hfuel h hwrap
    have hargv := parseArgv_follows hbuf hΦ A h fun n r hn hw e he =>
      hwrap 0 l n r (.zero l) hn hw e he
    -- The counter stays below `2 ^ 32`, so it never equals the count.
    unfold parseArgs
    rw [if_neg (by omega), bind_assoc, Scanner.endless_eq (consumes_scanArgv A)]
    refine hargv.bind ?_ fun argv r s' hdone h' => ?_
    · show (if idx < count then pure none else pure (some (build args))) =
        (pure none : ParserM (Option α))
      rw [if_pos (by omega)]
    · have hlt := (consumes_scanArgv A).length_lt hdone
      exact ih ((idx + 1) % 2 ^ 32) (args ++ [argv]) r s' (Nat.mod_lt _ (by decide))
        (by omega) h' fun k l' n r' hafter => hwrap (k + 1) l' n r' (.succ hdone hafter)

/-- The inner loop and the completeness test behind it follow `scanArgs`. -/
theorem parseArgs_follows (hbuf : buf.length < 2 ^ 64) (hΦ : ∀ e, e.Tame buf → Φ e)
    (A : Allocator) (count : Nat) (build : RespArgs → α) (h : s.At buf l)
    (hwrap : ∀ k l' n r, (k < count ∨ 2 ^ 32 ≤ count) → Scanner.After (scanArgv A) k l l' →
      scanNum '$' l' = .done n r → SumWraps n → ∀ e, e.Wrapped n → Φ e) :
    Follows buf Φ ((scanArgs A count l).bind fun args r => .done (build args) r) s
      (parseArgs buf A count (buf.length + 1) 0 [] >>= fun p =>
        if p.1 < count then pure none else pure (some (build p.2))) := by
  have hpos := h.pos_add
  unfold scanArgs
  by_cases hcount : count < 2 ^ 32
  · rw [if_pos hcount]
    exact parseArgs_follows_times hbuf hΦ A count hcount build (buf.length + 1) 0 count [] l s
      (by omega) (by omega) h fun k l' n r hk => hwrap k l' n r (Or.inl hk)
  -- A verdict that is never an item does not care what would be built from it.
  · have hnever : ((scanArgv A).endless l).bind (fun (args : RespArgs) r => .done (build args) r)
        = ((scanArgv A).endless l : Verdict Abrupt Byte α) := by
      unfold Scanner.endless
      cases Scanner.drain (scanArgv A) l <;> rfl
    rw [if_neg hcount, hnever]
    exact parseArgs_follows_endless hbuf hΦ A count (by omega) build (buf.length + 1) 0 [] l s
      (by decide) (by omega) h fun k l' n r => hwrap k l' n r (Or.inr (by omega))

/-! ### One command -/

/-- In the command at the front of `l`, `_parse_argv` is called on `l'`. -/
def ArgvAt (A : Allocator) (l l' : List Byte) : Prop :=
  ∃ argc r, scanNum '*' l = .done argc r ∧ argc ≠ 0 ∧
    (l' = r ∨ ∃ name r₁ k, scanArgv A r = .done name r₁ ∧ A.reserve (argc - 1) = none ∧
      (k < argc - 1 ∨ 2 ^ 32 ≤ argc - 1) ∧ Scanner.After (scanArgv A) k r₁ l')

/-- In the command at the front of `l`, `args.reserve(n)` is called. -/
def ReserveAt (A : Allocator) (l : List Byte) (n : Nat) : Prop :=
  ∃ argc r name r₁, scanNum '*' l = .done argc r ∧ argc ≠ 0 ∧
    scanArgv A r = .done name r₁ ∧ n = argc - 1

/-- One round of the outer loop follows `scanCommand`. -/
theorem parseCommand_follows (hbuf : buf.length < 2 ^ 64) (hΦ : ∀ e, e.Tame buf → Φ e)
    (A : Allocator) (h : s.At buf l)
    (hwrap : ∀ l' n r, ArgvAt A l l' → scanNum '$' l' = .done n r → SumWraps n →
      ∀ e, e.Wrapped n → Φ e)
    (hreserve : ∀ n, ReserveAt A l n → Φ (.reserve n)) :
    Follows buf Φ (scanCommand A l) s (parseCommand buf A) := by
  unfold parseCommand
  refine (parseNum_follows hbuf hΦ '*' h).bind rfl fun argc r s₁ hargc h₁ => ?_
  simp only
  by_cases hzero : argc = 0
  · rw [if_pos hzero, if_pos hzero]
    exact Follows.raise _
  · rw [if_neg hzero, if_neg hzero]
    have hname := parseArgv_follows hbuf hΦ A h₁ fun n r' hn hw e he =>
      hwrap r n r' ⟨argc, r, hargc, hzero, Or.inl rfl⟩ hn hw e he
    refine hname.bind rfl fun name r₁ s₂ hdone h₂ => ?_
    have hΦr : Φ (.reserve (argc - 1)) :=
      hreserve (argc - 1) ⟨argc, r, name, r₁, hargc, hzero, hdone, rfl⟩
    show Follows buf Φ ((scanReserve A (argc - 1) r₁).bind _) s₂ _
    unfold scanReserve
    cases hA : A.reserve (argc - 1) with
    | some e =>
      refine Follows.of_error ?_ ((Logs.refl s₂).snoc hΦr rfl)
      unfold ParserM.reserve
      rw [hA]
    | none =>
      have hreturns : Returns Φ () s₂ (ParserM.reserve A (argc - 1)) := by
        refine ⟨?_, rfl, (Logs.refl s₂).snoc hΦr rfl⟩
        unfold ParserM.reserve
        rw [hA]
      refine Follows.of_returns hreturns fun s₃ hv₃ => ?_
      exact parseArgs_follows hbuf hΦ A (argc - 1)
        (fun args => ({ name := name, args := args } : RespCommand)) (h₂.of_view hv₃)
        fun k l' n r' hk hafter hn hw e he =>
          hwrap l' n r' ⟨argc, r, hargc, hzero, Or.inr ⟨name, r₁, k, hdone, hA, hk, hafter⟩⟩
            hn hw e he

/-- The name of a command that was taken is part of the bytes that were taken. -/
theorem scanCommand_name_le {A : Allocator} {cmd : RespCommand} {r : List Byte}
    (h : scanCommand A l = .done cmd r) : cmd.name.length ≤ l.length := by
  obtain ⟨argc, r₁, hargc, h⟩ := Verdict.bind_eq_done.mp h
  have hr₁ := (consumes_scanNum '*').length_lt hargc
  by_cases hzero : argc = 0
  · rw [if_pos hzero] at h
    cases h
  · rw [if_neg hzero] at h
    obtain ⟨name, r₂, hname, h⟩ := Verdict.bind_eq_done.mp h
    obtain ⟨_, r₃, -, h⟩ := Verdict.bind_eq_done.mp h
    obtain ⟨args, r₄, -, h⟩ := Verdict.bind_eq_done.mp h
    cases h
    obtain ⟨_, ⟨header, -, rfl⟩, -, -, rfl⟩ := scanArgv_done_iff.mp hname
    simp only [List.length_append] at hr₁
    show name.length ≤ l.length
    omega

/-! ### The outer loop -/

/-- What the outer loop returns, given what `drain` takes off the rest of the buffer. -/
def loopResult (buf : ByteString) (cmds : List RespCommand) (bytesParsed : Nat)
    (d : Except Abrupt (List RespCommand × List Byte)) :
    Except Abrupt (List RespCommand × Nat) :=
  match d with
  | .ok (cs, r) => .ok (cmds ++ cs, if cs = [] then bytesParsed else buf.length - r.length)
  | .error e => .error e

/-- One round of the outer loop that found a command: the name is copied, and the loop goes on
behind the command. The copy leaves the view where it is. -/
theorem parseLoop_some {A : Allocator} {fuel bytesParsed : Nat} {cmds : List RespCommand}
    {cmd : RespCommand} {s' : Cursor} (hrun : parseCommand buf A s = (.ok (some cmd), s')) :
    parseLoop buf A (fuel + 1) cmds bytesParsed s
      = parseLoop buf A fuel (cmds ++ [cmd]) s'.view.pos (emit (.copy cmd.name.length) s').2 := by
  show (parseCommand buf A >>= _) s = _
  rw [bind_ok hrun]
  rfl

/-- The outer loop drains the rest of the buffer. -/
theorem parseLoop_run (hbuf : buf.length < 2 ^ 64) (hΦ : ∀ e, e.Tame buf → Φ e)
    (A : Allocator) :
    ∀ (fuel : Nat) (cmds : List RespCommand) (bytesParsed : Nat) (l : List Byte) (s : Cursor),
      l.length < fuel → s.At buf l →
      (∀ j l₁ l' n r, Scanner.After (scanCommand A) j l l₁ → ArgvAt A l₁ l' →
        scanNum '$' l' = .done n r → SumWraps n → ∀ e, e.Wrapped n → Φ e) →
      (∀ j l₁ n, Scanner.After (scanCommand A) j l l₁ → ReserveAt A l₁ n → Φ (.reserve n)) →
      (parseLoop buf A fuel cmds bytesParsed s).1
          = loopResult buf cmds bytesParsed ((scanCommand A).drain l) ∧
        Logs Φ s (parseLoop buf A fuel cmds bytesParsed s).2 := by
  intro fuel
  induction fuel with
  | zero => intro cmds bytesParsed l s hfuel; omega
  | succ fuel ih =>
    intro cmds bytesParsed l s hfuel h hwrap hreserve
    have hcmd := parseCommand_follows hbuf hΦ A h (fun l' n r => hwrap 0 l l' n r (.zero l))
      fun n => hreserve 0 l n (.zero l)
    have hagrees := hcmd.agrees
    cases hscan : scanCommand A l with
    | done cmd r =>
      rw [hscan] at hagrees
      -- A command: the loop goes on behind it, with less input and less fuel.
      have hlt := (consumes_scanCommand A).length_lt hscan
      have hat := hagrees.2
      have hpos := hat.pos_add
      have hname := scanCommand_name_le hscan
      have hle := h.pos_add
      have hcopy : Returns Φ () (parseCommand buf A s).2 (emit (.copy cmd.name.length)) :=
        emit_returns (hΦ _ ⟨trivial, Or.inr ⟨_, Or.inr rfl, by omega⟩⟩)
      obtain ⟨hrun, hlog⟩ := ih (cmds ++ [cmd]) (parseCommand buf A s).2.view.pos r
        (emit (.copy cmd.name.length) (parseCommand buf A s).2).2 (by omega)
        (hat.of_view hcopy.view)
        (fun j l₁ l' n r' hafter => hwrap (j + 1) l₁ l' n r' (.succ hscan hafter))
        (fun j l₁ n hafter => hreserve (j + 1) l₁ n (.succ hscan hafter))
      rw [parseLoop_some (Prod.ext hagrees.1 rfl)]
      refine ⟨?_, hcmd.log.trans (hcopy.log.trans hlog)⟩
      rw [Scanner.drain_done (consumes_scanCommand A) hscan, hrun]
      cases hd : (scanCommand A).drain r with
      | error e => rfl
      | ok q =>
        obtain ⟨cs, r'⟩ := q
        -- Without a further command the count stays at the end of this one.
        by_cases hcs : cs = []
        · subst hcs
          have hr' := Scanner.drain_nil (consumes_scanCommand A) hd
          simp [loopResult, hr']
          omega
        · simp [loopResult, hcs]
    | more =>
      rw [hscan] at hagrees
      unfold parseLoop
      rw [bind_ok (Prod.ext hagrees rfl), Scanner.drain_more hscan]
      exact ⟨by simp [loopResult], hcmd.log⟩
    | fail e =>
      rw [hscan] at hagrees
      unfold parseLoop
      rw [bind_error (Prod.ext hagrees rfl), Scanner.drain_fail hscan]
      exact ⟨rfl, hcmd.log⟩

/-! ### `parse` -/

/-- **`parse` drains the buffer.** It returns the commands that `scanCommand` takes off the
buffer and the number of bytes before what is left, or ends as the first failure says. -/
theorem parse_eq_drain (A : Allocator) (hbuf : buf.length < 2 ^ 64) :
    parse A buf =
      match (scanCommand A).drain buf with
      | .ok (cmds, r) => .ok (cmds, buf.length - r.length)
      | .error e => .error e := by
  have hrun := (parseLoop_run (Φ := fun _ => True) hbuf (fun _ _ => trivial) A
    (buf.length + 1) [] 0 buf (Cursor.start buf) (by omega) (Cursor.start_at buf)
    (fun _ _ _ _ _ _ _ _ _ _ _ => trivial) (fun _ _ _ _ _ => trivial)).1
  show (parseLoop buf A (buf.length + 1) [] 0 (Cursor.start buf)).1 = _
  rw [hrun]
  cases hd : (scanCommand A).drain buf with
  | error e => rfl
  | ok q =>
    obtain ⟨cs, r⟩ := q
    by_cases hcs : cs = []
    · subst hcs
      have hr := Scanner.drain_nil (consumes_scanCommand A) hd
      simp [loopResult, hr]
    · simp [loopResult, hcs]

/-- `parse` throws what `drain` fails with. -/
theorem parse_error_iff {A : Allocator} (hbuf : buf.length < 2 ^ 64) {e : Abrupt} :
    parse A buf = .error e ↔ (scanCommand A).drain buf = .error e := by
  rw [parse_eq_drain A hbuf]
  cases (scanCommand A).drain buf with
  | error e' => exact ⟨fun h => by cases h; rfl, fun h => by cases h; rfl⟩
  | ok q => exact ⟨fun h => (nomatch h), fun h => (nomatch h)⟩

/-! ### The loops end -/

/-- A length line fails with an `Error`. -/
theorem scanNum_fails (c : Char) : (scanNum c).FailsIn Abrupt.IsError := by
  intro l e h
  match l with
  | [] => cases h
  | b :: l =>
    -- One failure for the letter, one for the number, and one for the line end.
    simp only [scanNum] at h
    split at h
    · cases h
      exact ⟨_, rfl⟩
    · split at h
      · cases h
      · split at h
        · cases h
          exact ⟨_, rfl⟩
        · split at h
          · split at h
            · cases h
            · cases h
              exact ⟨_, rfl⟩
          · cases h

/-- An argument fails only in ways that the source has: an exception or a wild read. -/
theorem scanPayload_raises (A : Allocator) (len : Nat) :
    (scanPayload A len).FailsIn Abrupt.Raised := by
  intro l e h
  unfold scanPayload at h
  split at h
  · split at h
    · cases h
    · cases h
      exact .error _
  · split at h
    · split at h
      · cases h
        exact .std _
      · cases h
        exact .wildRead
    · split at h
      · cases h
      · split at h
        · split at h
          · cases h
            exact .std _
          · cases h
        · cases h
          exact .error _

/-- The scanners fail in an exception or in a read outside the storage. -/
theorem scanCommand_raises (A : Allocator) : (scanCommand A).FailsIn Abrupt.Raised := by
  have hargv : (scanArgv A).FailsIn Abrupt.Raised :=
    ((scanNum_fails '$').mono fun _ h => h.raised).andThen (scanPayload_raises A)
  have hargs : ∀ count, (scanArgs A count).FailsIn Abrupt.Raised := by
    intro count
    unfold scanArgs
    split
    · exact hargv.times count
    · exact hargv.endless (consumes_scanArgv A)
  have hreserve : ∀ n, (scanReserve A n).FailsIn Abrupt.Raised := by
    intro n l e h
    unfold scanReserve at h
    split at h
    · cases h
      exact .std _
    · cases h
  refine ((scanNum_fails '*').mono fun _ h => h.raised).andThen fun argc => ?_
  split
  · exact Scanner.FailsIn.reject (.error _)
  · exact hargv.andThen fun name => (hreserve _).andThen fun _ =>
      (hargs _).andThen fun args => Scanner.FailsIn.succeed _

/-- The loops of `parse` never run out of rounds. -/
theorem parse_ne_diverges (A : Allocator) (hbuf : buf.length < 2 ^ 64) :
    parse A buf ≠ .error .diverges := by
  intro h
  have hdrain := (parse_error_iff hbuf).mp h
  exact ((scanCommand_raises A).drain (consumes_scanCommand A) hdrain).ne_diverges rfl

end VectorEngine.Resp
