import VectorEngine.Proofs.Resp.Grammar

/-!
# `VectorEngine.Proofs.Resp.Cost`: what a parse costs

The numbers that a peer announces make the parser loop and copy: an argument count bounds the
inner loop, and a bulk length is what is copied. `parse_cost_le` says that no number makes the
parser work for more than the bytes that are there. It compares and copies at most two bytes
for each one of the buffer, and four more.

An item that is complete is paid for by the bytes that it takes off the view, two for each. What
a bulk string costs is its bytes and at most one more, the one behind the number that
`std::from_chars` looks at in vain, so that as much as the length of the string is left over. A
name is copied a second time into its command, and is paid for by what its bulk string left over
(`Paid`). A string that is moved costs nothing. What the two bulk lengths make the parser copy
that wrap in `len + 2` is not counted, as nobody knows what happens then.
-/

set_option autoImplicit false

namespace VectorEngine.Resp

open VectorEngine.Stream
open VectorEngine.Numeral
open ParserM

variable {α β : Type} {buf : ByteString} {s : Cursor} {l : List Byte} {k m : Nat}

/-- The bytes that are compared or copied. -/
def Event.bytes : Event → Nat
  | .read _ _ => 1
  | .span _ _ n => n
  | .copy n => n
  | _ => 0

/-- The bytes that the parser has compared or copied so far. -/
def Cursor.looked (s : Cursor) : Nat := (s.log.map Event.bytes).sum

/-- One more event in the log is its bytes more that were looked at. -/
theorem Cursor.looked_snoc {s' : Cursor} {e : Event} (h : s'.log = s.log ++ [e]) :
    s'.looked = s.looked + e.bytes := by
  simp [looked, h]

/-! ### Steps -/

/-- The step `x` compares and copies no more than `k` bytes. -/
def Costs (k : Nat) (s : Cursor) (x : ParserM α) : Prop := (x s).2.looked ≤ s.looked + k

/-- A bound may be made wider, so that the branches of a function can be measured by one number.
-/
theorem Costs.mono {x : ParserM α} (h : Costs k s x) (hle : k ≤ m) : Costs m s x :=
  Nat.le_trans h (Nat.add_le_add_left hle _)

/-- Costs add along a sequence. -/
theorem Costs.bind {x : ParserM α} {f : α → ParserM β} (hx : Costs k s x)
    (hf : ∀ a, x s = (.ok a, (x s).2) → Costs m (x s).2 (f a)) : Costs (k + m) s (x >>= f) := by
  cases hrun : (x s).1 with
  | error e =>
    have hbind : (x >>= f) s = (.error e, (x s).2) := bind_error (Prod.ext hrun rfl)
    unfold Costs at hx ⊢
    rw [hbind]
    show (x s).2.looked ≤ _
    omega
  | ok a =>
    have hok : x s = (.ok a, (x s).2) := Prod.ext hrun rfl
    have hnext : Costs m (x s).2 (f a) := hf a hok
    unfold Costs at hx hnext ⊢
    rw [bind_ok hok]
    omega

/-- Reading the view is free. -/
theorem Costs.of_view {f : StringView → ParserM α} (h : Costs k s (f s.view)) :
    Costs k s (ParserM.view >>= f) := h

/-- A value is returned for nothing. -/
theorem pure_costs (a : α) : Costs 0 s (pure a : ParserM α) := Nat.le_refl _

/-- An exception is thrown for nothing. -/
theorem raise_costs (e : Abrupt) : Costs 0 s (raise e : ParserM α) := Nat.le_refl _

/-- A step costs what it logs. -/
theorem costs_of_snoc {x : ParserM α} {e : Event} (h : (x s).2.log = s.log ++ [e]) :
    Costs e.bytes s x := Nat.le_of_eq (Cursor.looked_snoc h)

/-- `remove_prefix` is arithmetic on two members of the view. -/
theorem removePrefix_costs (n : Nat) : Costs 0 s (removePrefix n) :=
  costs_of_snoc (e := .removePrefix s.view n) rfl

/-- The event of the sum `len + 2` stands for no byte. -/
theorem emit_sum_costs (len : Nat) : Costs 0 s (emit (.sum len)) :=
  costs_of_snoc (e := .sum len) rfl

/-- `reserve` looks at no byte of the buffer. -/
theorem reserve_costs (A : Allocator) (n : Nat) : Costs 0 s (reserve A n) :=
  costs_of_snoc (e := .reserve n) rfl

/-- One byte is read through a pointer. -/
theorem deref_costs (p : Nat) : Costs 1 s (deref buf p) :=
  costs_of_snoc (e := .read s.view p) rfl

/-- The test for a line end looks at two bytes at the most: the second one only if the first is
`\r`. -/
theorem crlfAt_costs (p : Nat) : Costs 2 s (crlfAt buf p) := by
  unfold crlfAt
  refine (deref_costs p).bind (m := 1) fun b _ => ?_
  split
  · exact (deref_costs (sizeAdd p 1)).bind (m := 0) fun b' _ => pure_costs _
  · exact (pure_costs false).mono (by omega)

/-- Behind the buffer there is no byte to go on with, and the step ends in a wild read. -/
theorem deref_none {p : Nat} (hp : buf[p]? = none) (s : Cursor) :
    deref buf p s = (.error .wildRead, (deref buf p s).2) := by
  simp [deref, hp]

/-- The test for a line end leaves the window where it is. -/
theorem view_crlfAt (buf : ByteString) (s : Cursor) (p : Nat) :
    (crlfAt buf p s).2.view = s.view := by
  unfold crlfAt
  cases hp : buf[p]? with
  | none =>
    rw [bind_error (deref_none hp s)]
    rfl
  | some b =>
    rw [bind_ok (deref_run hp s)]
    split
    · cases hp' : buf[sizeAdd p 1]? with
      | none =>
        rw [bind_error (deref_none hp' _)]
        rfl
      | some b' =>
        rw [bind_ok (deref_run hp' _)]
        rfl
    · rfl

/-- `std::from_chars` looks at the digits, and at the byte behind them. -/
theorem fromChars_costs (h : s.At buf l) :
    Costs ((l.takeWhile isDigit).length + 1) s (fromChars buf) := by
  have hchars : (buf.drop s.view.pos).take s.view.size = l := by
    rw [h.drop, h.size, List.take_length]
  have hlog : (fromChars buf s).2.log = s.log ++ [.span s.view s.view.pos
      (min ((l.takeWhile isDigit).length + 1) s.view.size)] := by
    unfold fromChars
    rw [hchars]
  have hlooked := Cursor.looked_snoc hlog
  have hle : (Event.span s.view s.view.pos
      (min ((l.takeWhile isDigit).length + 1) s.view.size)).bytes
        ≤ (l.takeWhile isDigit).length + 1 := Nat.min_le_left _ _
  unfold Costs
  omega

/-- A string is copied when it is in the view, or its storage was refused. -/
theorem string_costs {A : Allocator} {n : Nat} (h : s.At buf l)
    (hwild : (string buf A n s).1 ≠ .error .wildRead) :
    Costs (min n l.length) s (string buf A n) := by
  have hpos := h.pos_add
  unfold Costs
  cases hA : A.string n with
  -- Refused storage costs nothing.
  | some e =>
    have hrun : (string buf A n s).2 = { s with log := s.log ++ [.construct n] } := by
      unfold ParserM.string
      rw [hA]
    rw [hrun, Cursor.looked_snoc (e := .construct n) rfl]
    show s.looked + 0 ≤ _
    omega
  | none =>
    have hrun : string buf A n s
        = (if s.view.pos + n ≤ buf.length then .ok ((buf.drop s.view.pos).take n)
            else .error .wildRead,
           { s with log := s.log ++ [.construct n, .span s.view s.view.pos n] }) := by
      unfold ParserM.string
      rw [hA]
    rw [hrun] at hwild ⊢
    -- A span that leaves the buffer is a wild read.
    have hin : s.view.pos + n ≤ buf.length := by
      by_contra hout
      exact hwild (if_neg hout)
    have hlooked : Cursor.looked
        { s with log := s.log ++ [.construct n, .span s.view s.view.pos n] } = s.looked + n := by
      simp [Cursor.looked, Event.bytes]
    show Cursor.looked _ ≤ _
    rw [hlooked]
    omega

/-! ### `_parse_num` and `_parse_argv` -/

/-- A length line costs its digits, the letter, the byte behind the digits, and the line end. -/
theorem parseNum_costs (hbuf : buf.length < 2 ^ 64) (c : Char) (h : s.At buf l) :
    Costs (((l.drop 1).takeWhile isDigit).length + 4) s (parseNum buf c) := by
  unfold parseNum
  refine Costs.of_view ?_
  cases l with
  | nil =>
    -- The window is empty, and nothing is looked at.
    rw [if_pos (by rw [h.size]; rfl)]
    exact (pure_costs none).mono (by omega)
  | cons b l =>
    rw [if_neg (by rw [h.size]; simp), List.drop_one, List.tail_cons]
    -- One byte for the letter.
    refine ((deref_costs s.view.pos).bind (m := (l.takeWhile isDigit).length + 3)
      fun front _ => ?_).mono (by omega)
    have h₁ : (deref buf s.view.pos s).2.At buf (b :: l) := h.of_view rfl
    split
    · exact (raise_costs _).mono (by omega)
    · refine ((removePrefix_costs 1).bind (m := (l.takeWhile isDigit).length + 3)
        fun _ _ => ?_).mono (by omega)
      have h₂ : (removePrefix 1 (deref buf s.view.pos s).2).2.At buf l :=
        removePrefix_at (u := [b]) hbuf h₁
      generalize (removePrefix 1 (deref buf s.view.pos s).2).2 = s₂ at h₂ ⊢
      refine Costs.of_view ?_
      split
      · exact (pure_costs none).mono (by omega)
      · -- The digits and the byte behind them, and then two for the line end.
        refine ((fromChars_costs h₂).bind (m := 2) fun out _ => ?_).mono (by omega)
        obtain ⟨ptr, result⟩ := out
        cases result with
        | error e => exact (raise_costs _).mono (by omega)
        | ok n =>
          show Costs 2 _ (if _ then pure none else crlfAt buf ptr >>= _)
          split
          · exact (pure_costs none).mono (by omega)
          · refine (crlfAt_costs ptr).bind (m := 0) fun crlf _ => ?_
            split
            · exact (removePrefix_costs _).bind (m := 0) fun _ _ => pure_costs _
            · exact raise_costs _

/-- A sequence that did not run wild did not do so in its first step. -/
theorem ne_wild_of_bind {x : ParserM α} {f : α → ParserM β}
    (h : ((x >>= f) s).1 ≠ .error .wildRead) : (x s).1 ≠ .error .wildRead := by
  intro hx
  refine h ?_
  rw [bind_error (Prod.ext hx rfl)]

/-- Nor in what came behind it. -/
theorem ne_wild_of_bind_ok {x : ParserM α} {f : α → ParserM β} {a : α}
    (h : ((x >>= f) s).1 ≠ .error .wildRead) (hx : x s = (.ok a, (x s).2)) :
    (f a (x s).2).1 ≠ .error .wildRead := by
  rw [bind_ok hx] at h
  exact h

/-- The line end is compared, and the string is copied. -/
theorem parsePayload_costs {A : Allocator} {len : Nat} (h : s.At buf l)
    (hwild : (parsePayload buf A s.view len s).1 ≠ .error .wildRead) :
    Costs (min len l.length + 2) s (parsePayload buf A s.view len) := by
  unfold parsePayload at hwild ⊢
  split at hwild
  · rename_i hshort
    rw [if_pos hshort]
    exact (pure_costs none).mono (by omega)
  · rename_i hshort
    rw [if_neg hshort]
    refine ((crlfAt_costs (sizeAdd s.view.pos len)).bind (m := min len l.length)
      fun crlf hcrlf => ?_).mono (by omega)
    have hrest := ne_wild_of_bind_ok hwild hcrlf
    have h₁ := h.of_view (view_crlfAt buf s (sizeAdd s.view.pos len))
    split at hrest
    · rename_i htrue
      rw [if_pos htrue]
      refine ((string_costs h₁ (ne_wild_of_bind hrest)).bind (m := 0) fun argv _ => ?_)
      exact (removePrefix_costs _).bind (m := 0) fun _ _ => pure_costs _
    · rename_i hfalse
      rw [if_neg hfalse]
      exact (raise_costs _).mono (by omega)

/-! ### Items pay for themselves -/

/-- An item pays for itself with two for each byte that it takes, and `c` is left over from it.
Where the parser stops instead, the bytes that are there pay, and four more. -/
structure Paid (c : α → Nat) (buf : ByteString) (l : List Byte) (s : Cursor)
    (x : ParserM (Option α)) : Prop where
  item : ∀ a, x s = (.ok (some a), (x s).2) → ∃ r, (x s).2.At buf r ∧
    (x s).2.looked + c a + 2 * r.length ≤ s.looked + 2 * l.length
  stop : (x s).1 ≠ .error .wildRead → (x s).2.looked ≤ s.looked + 2 * l.length + 4

variable {c : α → Nat} {d : β → Nat}

/-- One step after another. What the first one leaves over need not come from the second. -/
theorem Paid.bind {x : ParserM (Option α)} {f : Option α → ParserM (Option β)}
    (hx : Paid c buf l s x) (hnone : f none = pure none)
    (hsome : ∀ a r, x s = (.ok (some a), (x s).2) → (x s).2.At buf r →
      Paid (fun b => d b - c a) buf r (x s).2 (f (some a))) : Paid d buf l s (x >>= f) := by
  cases hrun : (x s).1 with
  | error e =>
    have hbind : (x >>= f) s = (.error e, (x s).2) := bind_error (Prod.ext hrun rfl)
    -- An exception of the first step is one of both.
    refine ⟨fun a ha => ?_, fun hwild => ?_⟩
    · rw [hbind] at ha
      cases ha
    · rw [hbind] at hwild ⊢
      exact hx.stop (by rw [hrun]; exact fun heq => hwild (by cases heq; rfl))
  | ok out =>
    have hok : x s = (.ok out, (x s).2) := Prod.ext hrun rfl
    cases out with
    | none =>
      have hbind : (x >>= f) s = (.ok none, (x s).2) := by
        rw [bind_ok hok, hnone]
        rfl
      refine ⟨fun a ha => ?_, fun _ => ?_⟩
      · rw [hbind] at ha
        cases ha
      · rw [hbind]
        exact hx.stop (by rw [hrun]; exact fun h => nomatch h)
    | some a =>
      -- What the first step has left pays for the rest.
      obtain ⟨r, hat, hpaid⟩ := hx.item a hok
      have hnext := hsome a r hok hat
      refine ⟨fun b hb => ?_, fun hwild => ?_⟩
      · rw [bind_ok hok] at hb ⊢
        obtain ⟨r', hat', hpaid'⟩ := hnext.item b hb
        exact ⟨r', hat', by omega⟩
      · have hstop := hnext.stop (ne_wild_of_bind_ok hwild hok)
        rw [bind_ok hok]
        omega

/-- Less may be left over. -/
theorem Paid.mono {x : ParserM (Option α)} {c' : α → Nat} (hx : Paid c buf l s x)
    (hle : ∀ a, c' a ≤ c a) : Paid c' buf l s x where
  item a ha := by
    obtain ⟨r, hat, hpaid⟩ := hx.item a ha
    have := hle a
    exact ⟨r, hat, by omega⟩
  stop := hx.stop

/-- Many functions of the parser begin by reading their window, and this costs nothing. -/
theorem Paid.of_view {f : StringView → ParserM (Option α)} (h : Paid c buf l s (f s.view)) :
    Paid c buf l s (ParserM.view >>= f) := ⟨h.item, h.stop⟩

/-- A step that leaves the view alone and looks at nothing. -/
theorem Paid.of_free {x : ParserM β} {f : β → ParserM (Option α)} (hx : Costs 0 s x)
    (hview : (x s).2.view = s.view) (hf : ∀ b s', s'.view = s.view → Paid c buf l s' (f b)) :
    Paid c buf l s (x >>= f) := by
  unfold Costs at hx
  cases hrun : (x s).1 with
  | error e =>
    have hbind : (x >>= f) s = (.error e, (x s).2) := bind_error (Prod.ext hrun rfl)
    refine ⟨fun a ha => ?_, fun _ => ?_⟩
    · rw [hbind] at ha
      cases ha
    · rw [hbind]
      show (x s).2.looked ≤ _
      omega
  | ok b =>
    have hok : x s = (.ok b, (x s).2) := Prod.ext hrun rfl
    have hnext := hf b (x s).2 hview
    refine ⟨fun a ha => ?_, fun hwild => ?_⟩
    · rw [bind_ok hok] at ha ⊢
      obtain ⟨r, hat, hpaid⟩ := hnext.item a ha
      exact ⟨r, hat, by omega⟩
    · have hstop := hnext.stop (ne_wild_of_bind_ok hwild hok)
      rw [bind_ok hok]
      omega

/-- An exception pays for itself: it consumed nothing and looked at nothing. -/
theorem Paid.raise (e : Abrupt) : Paid c buf l s (ParserM.raise e : ParserM (Option α)) where
  item a h := by cases h
  stop _ := by
    show s.looked ≤ _
    omega

/-- So does an end of the input. -/
theorem Paid.none : Paid c buf l s (pure none : ParserM (Option α)) where
  item a h := by cases h
  stop _ := by
    show s.looked ≤ _
    omega

/-- An item that takes nothing leaves nothing over. -/
theorem Paid.some {a : α} (h : s.At buf l) (ha : c a = 0) : Paid c buf l s (pure (some a)) where
  item b hb := by
    cases hb
    refine ⟨l, h, ?_⟩
    show s.looked + c a + 2 * l.length ≤ _
    omega
  stop _ := by
    show s.looked ≤ _
    omega

/-- A step that followed its scanner and returned an item: the scanner has taken it. -/
theorem Follows.of_ok {Φ : Event → Prop} {v : Verdict Abrupt Byte α} {x : ParserM (Option α)}
    (h : Follows buf Φ v s x) {a : α} (hx : x s = (.ok (.some a), (x s).2)) :
    ∃ r, v = .done a r ∧ (x s).2.At buf r := by
  have hagrees := h.agrees
  have hfst : (x s).1 = .ok (.some a) := by rw [hx]
  cases hv : v with
  | done c r =>
    rw [hv] at hagrees
    have heq := hagrees.1.symm.trans hfst
    cases heq
    exact ⟨r, rfl, hagrees.2⟩
  | more =>
    rw [hv] at hagrees
    cases hagrees.symm.trans hfst
  | fail e =>
    rw [hv] at hagrees
    cases hagrees.symm.trans hfst

/-- A length line has a digit at least, which pays for the byte behind the digits. -/
theorem parseNum_paid (hbuf : buf.length < 2 ^ 64) (c : Char) (h : s.At buf l) :
    Paid (fun _ => 0) buf l s (parseNum buf c) := by
  have hcosts := parseNum_costs hbuf c h
  have hfollows := parseNum_follows (Φ := fun _ => True) hbuf (fun _ _ => trivial) c h
  unfold Costs at hcosts
  refine ⟨fun n hn => ?_, fun _ => ?_⟩
  · obtain ⟨r, hdone, hat⟩ := hfollows.of_ok hn
    obtain ⟨u, ⟨⟨ds, hds, rfl⟩, -⟩, rfl⟩ := scanNum_done_iff.mp hdone
    have hpos := List.length_pos_of_ne_nil hds.ne_nil
    have hrun : ((c.toUInt8 :: ds ++ CRLF ++ r).drop 1).takeWhile isDigit = ds := by
      have hsplit : (c.toUInt8 :: ds ++ CRLF ++ r).drop 1 = ds ++ CR :: LF :: r := by simp [CRLF]
      rw [hsplit]
      exact takeWhile_digits hds.digits isDigit_CR (LF :: r)
    have hlength : (c.toUInt8 :: ds ++ CRLF ++ r).length = ds.length + 3 + r.length := by
      simp [CRLF]
      omega
    rw [hrun] at hcosts
    exact ⟨r, hat, by omega⟩
  · have hle := (List.takeWhile_sublist (p := isDigit) (l := l.drop 1)).length_le
    rw [List.length_drop] at hle
    omega

/-- A string that was built is in the buffer. -/
theorem parsePayload_some {A : Allocator} {len : Nat} {argv : ByteString}
    (hrun : (parsePayload buf A s.view len s).1 = .ok (some argv)) :
    s.view.pos + len ≤ buf.length := by
  unfold parsePayload at hrun
  split at hrun
  · cases hrun
  · have hview := view_crlfAt buf s (sizeAdd s.view.pos len)
    -- The window is where it was behind the test for the line end, so that the copy is at its
    -- start.
    rcases hcrlf : crlfAt buf (sizeAdd s.view.pos len) s with ⟨e | crlf, s'⟩
    · rw [bind_error hcrlf] at hrun
      cases hrun
    · rw [hcrlf] at hview
      rw [bind_ok hcrlf] at hrun
      split at hrun
      · by_contra hout
        -- The copy would leave the buffer.
        have hstring : ∃ e, (string buf A len s').1 = .error e := by
          unfold ParserM.string
          cases A.string len with
          | some e => exact ⟨_, rfl⟩
          | none => exact ⟨_, if_neg (by rw [hview]; exact hout)⟩
        obtain ⟨e, he⟩ := hstring
        rw [bind_error (Prod.ext he rfl)] at hrun
        cases hrun
      · cases hrun

/-- A payload pays for its own copy, and for another one. The view is behind a length line, so
that a length that wraps is never in the buffer. -/
theorem parsePayload_paid (hbuf : buf.length < 2 ^ 64) (A : Allocator) (h : s.At buf l)
    (hpos : 2 ≤ s.view.pos) (len : Nat) :
    Paid List.length buf l s (parsePayload buf A s.view len) := by
  refine ⟨fun argv hargv => ?_, fun hwild => ?_⟩
  · have hin : s.view.pos + len ≤ buf.length := parsePayload_some (by rw [hargv])
    have hlen : len + 2 < 2 ^ 64 := by omega
    have hfollows :=
      parsePayload_follows (Φ := fun _ => True) hbuf (fun _ _ => trivial) A h hlen
    have htame : (parsePayload buf A s.view len s).1 ≠ .error .wildRead := by
      rw [hargv]
      exact fun heq => nomatch heq
    have hcosts := parsePayload_costs h htame
    unfold Costs at hcosts
    obtain ⟨r, hdone, hat⟩ := hfollows.of_ok hargv
    obtain ⟨rfl, -, -, rfl⟩ := scanPayload_done_iff.mp hdone
    have hlength : (argv ++ (CRLF ++ r)).length = argv.length + 2 + r.length := by
      simp [CRLF]
      omega
    exact ⟨r, hat, by omega⟩
  · have hcosts := parsePayload_costs h hwild
    unfold Costs at hcosts
    omega

/-- A bulk string leaves its own length over. -/
theorem parseArgv_paid (hbuf : buf.length < 2 ^ 64) (A : Allocator) (h : s.At buf l) :
    Paid List.length buf l s (parseArgv buf A) := by
  unfold parseArgv
  refine (parseNum_paid hbuf '$' h).bind rfl fun len r hlen hat => ?_
  have hfollows := parseNum_follows (Φ := fun _ => True) hbuf (fun _ _ => trivial) '$' h
  obtain ⟨r', hdone, hat'⟩ := hfollows.of_ok hlen
  obtain ⟨u, hu, rfl⟩ := scanNum_done_iff.mp hdone
  obtain ⟨hpos, -⟩ := before_numLine h hat' hu
  generalize (parseNum buf '$' s).2 = s₁ at hat hpos
  refine Paid.of_view ?_
  refine Paid.of_free (emit_sum_costs len) rfl fun _ s₂ hview => ?_
  rw [← hview] at hpos ⊢
  exact parsePayload_paid hbuf A (hat.of_view hview) hpos len

/-! ### The loops -/

/-- The inner loop, and the completeness test behind it. The counter never passes the count, so
that a loop that stops early fails the test. -/
theorem parseArgs_paid (hbuf : buf.length < 2 ^ 64) (A : Allocator) (count : Nat)
    (build : RespArgs → α) (hbuild : ∀ args, c (build args) = 0) :
    ∀ (fuel idx : Nat) (args : RespArgs) (l : List Byte) (s : Cursor), idx ≤ count →
      s.At buf l →
      Paid c buf l s (parseArgs buf A count fuel idx args >>= fun p =>
        if p.1 < count then pure none else pure (some (build p.2))) := by
  -- The induction is on the fuel. What an argument leaves over is dropped at once, so that the
  -- bound does not grow with the count.
  intro fuel
  induction fuel with
  | zero => exact fun idx args l s _ _ => Paid.raise .diverges
  | succ fuel ih =>
    intro idx args l s hidx h
    unfold parseArgs
    by_cases hend : idx = count
    · rw [if_pos hend]
      show Paid c buf l s (if idx < count then pure none else pure (some (build args)))
      rw [if_neg (by omega)]
      exact Paid.some h (hbuild args)
    · rw [if_neg hend, bind_assoc]
      -- The length of an argument is left over too, and is not needed.
      refine ((parseArgv_paid hbuf A h).mono fun _ => Nat.zero_le _).bind ?_ fun argv r _ hat => ?_
      · show (if idx < count then pure none else pure (some (build args))) =
          (pure none : ParserM (Option α))
        rw [if_pos (by omega)]
      · -- The counter wraps, and stays below the count either way.
        have hle := Nat.mod_le (idx + 1) (2 ^ 32)
        exact ih _ _ r _ (by omega) hat

/-- One round of the outer loop. What the name left over is still there at its end. -/
theorem parseCommand_paid (hbuf : buf.length < 2 ^ 64) (A : Allocator) (h : s.At buf l) :
    Paid (fun cmd => cmd.name.length) buf l s (parseCommand buf A) := by
  unfold parseCommand
  refine (parseNum_paid hbuf '*' h).bind rfl fun argc r _ hat => ?_
  simp only
  split
  · exact Paid.raise _
  · refine (parseArgv_paid hbuf A hat).bind rfl fun name r' _ hat' => ?_
    refine Paid.of_free (reserve_costs A (argc - 1)) rfl fun _ s' hview => ?_
    exact parseArgs_paid hbuf A (argc - 1)
      (fun args => ({ name := name, args := args } : RespCommand)) (fun _ => Nat.sub_self _)
      (buf.length + 1) 0 [] r' s' (Nat.zero_le _) (hat'.of_view hview)

/-- The outer loop. A command has paid for itself and for the copy of its name. -/
theorem parseLoop_paid (hbuf : buf.length < 2 ^ 64) (A : Allocator) :
    ∀ (fuel : Nat) (cmds : List RespCommand) (bytesParsed : Nat) (l : List Byte) (s : Cursor),
      s.At buf l → (parseLoop buf A fuel cmds bytesParsed s).1 ≠ .error .wildRead →
      (parseLoop buf A fuel cmds bytesParsed s).2.looked ≤ s.looked + 2 * l.length + 4 := by
  intro fuel
  induction fuel with
  | zero =>
    intro cmds bytesParsed l s _ _
    show s.looked ≤ _
    omega
  | succ fuel ih =>
    intro cmds bytesParsed l s h hwild
    -- What a command leaves over is one for each byte of its name, and this is what the copy
    -- costs.
    have hpaid := parseCommand_paid hbuf A h
    rcases hrun : parseCommand buf A s with ⟨e | cmd, s'⟩
    · unfold parseLoop at hwild ⊢
      rw [bind_error hrun] at hwild ⊢
      have hstop := hpaid.stop (by rw [hrun]; exact fun heq => hwild (by cases heq; rfl))
      rw [hrun] at hstop
      exact hstop
    · cases cmd with
      | none =>
        unfold parseLoop
        rw [bind_ok hrun]
        have hstop := hpaid.stop (by simp [hrun])
        rw [hrun] at hstop
        exact hstop
      | some cmd =>
        obtain ⟨r, hat, hitem⟩ := hpaid.item cmd (by rw [hrun])
        rw [hrun] at hat hitem
        replace hat : s'.At buf r := hat
        replace hitem : s'.looked + cmd.name.length + 2 * r.length ≤ s.looked + 2 * l.length :=
          hitem
        -- The copy is logged in front of the next round.
        have hcopy : (emit (.copy cmd.name.length) s').2.looked = s'.looked + cmd.name.length :=
          Cursor.looked_snoc (e := .copy cmd.name.length) rfl
        rw [parseLoop_some hrun] at hwild ⊢
        have hnext := ih (cmds ++ [cmd]) s'.view.pos r (emit (.copy cmd.name.length) s').2
          (hat.of_view rfl) hwild
        omega

/-! ### `parse` -/

/-- **A parse is linear in the bytes that are there.** Whatever numbers the bytes announce, and
whether the parser returns or throws, it compares and copies at most two bytes for each byte of
the buffer, and four more. Only a read outside the view is excluded, as what follows it is
undefined. -/
theorem parse_cost_le (A : Allocator) (hbuf : buf.length < 2 ^ 64)
    (hwild : parse A buf ≠ .error .wildRead) :
    (parseRun A buf).2.looked ≤ 2 * buf.length + 4 := by
  have hloop := parseLoop_paid hbuf A (buf.length + 1) [] 0 buf (Cursor.start buf)
    (Cursor.start_at buf) hwild
  have hstart : (Cursor.start buf).looked = 0 := rfl
  rw [hstart] at hloop
  show (parseLoop buf A (buf.length + 1) [] 0 (Cursor.start buf)).2.looked ≤ _
  omega

/-- A command that announces far more arguments than it brings. -/
def hugeRequest : ByteString := bytesOf "*999\r\n$4\r\nPING\r\n$0\r\n\r\n"

/-- A `PING` costs twenty bytes, four of them for the second copy of its name. The count of 999
behind it costs nothing: the parser stops behind the one argument that is there. -/
theorem parse_cost_le_huge :
    (parseRun .ample (pingFrame ++ hugeRequest)).2.looked = 45 ∧
      (parseRun .ample (pingFrame ++ hugeRequest)).2.looked
        ≤ 2 * (pingFrame ++ hugeRequest).length + 4 :=
  ⟨by decide +kernel, parse_cost_le .ample (by decide +kernel) (by decide +kernel)⟩

end VectorEngine.Resp
