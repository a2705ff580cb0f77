import VectorEngine.Proofs.Resp.Scan

/-!
# `VectorEngine.Proofs.Resp.Run`: the parser follows its scanners

A cursor is `At` the bytes that its view covers, which are always the rest of the buffer.
`Follows` says that a step of the parser, started at some bytes, gives the verdict of a
scanner on them, leaves the view behind the item, and logs nothing but events of a given
kind. `Follows.bind` composes steps. `parseNum_follows` and `parseArgv_follows` go through
the two functions that touch the buffer. `_parse_num` never leaves the view.
`_parse_argv` leaves it exactly on the two bulk lengths that wrap in `len + 2`.
-/

set_option autoImplicit false

namespace VectorEngine.Resp

open VectorEngine.Stream
open VectorEngine.Numeral
open ParserM

/-! ### Events -/

/-- The event stays inside the view of its moment, and a sum stays inside `std::size_t`. -/
def Event.InView : Event → Prop
  | .read v p => v.pos ≤ p ∧ p < v.pos + v.size
  | .span v first n => v.pos ≤ first ∧ first + n ≤ v.pos + v.size
  | .removePrefix v n => n ≤ v.size
  | .sum len => len + 2 < 2 ^ 64
  | .reserve _ => True
  | .construct _ => True
  | .copy _ => True

/-- Whether an access was inside its window is a comparison of positions, so that the log of a run
on a fixed buffer can be checked. -/
instance : DecidablePred Event.InView
  | .read v p => inferInstanceAs (Decidable (v.pos ≤ p ∧ p < v.pos + v.size))
  | .span v first n => inferInstanceAs (Decidable (v.pos ≤ first ∧ first + n ≤ v.pos + v.size))
  | .removePrefix v n => inferInstanceAs (Decidable (n ≤ v.size))
  | .sum len => inferInstanceAs (Decidable (len + 2 < 2 ^ 64))
  | .reserve _ => inferInstanceAs (Decidable True)
  | .construct _ => inferInstanceAs (Decidable True)
  | .copy _ => inferInstanceAs (Decidable True)

/-- The event looks at the view or moves it, and asks for no storage. -/
def Event.Access : Event → Prop
  | .reserve _ => False
  | .construct _ => False
  | .copy _ => False
  | _ => True

/-- The event makes a `std::string` of `n` bytes. -/
def Event.Makes (n : Nat) (e : Event) : Prop := e = .construct n ∨ e = .copy n

/-- The event stays inside the view. A string it makes is no longer than the buffer. -/
def Event.Tame (buf : ByteString) (e : Event) : Prop :=
  e.InView ∧ (e.Access ∨ ∃ n, e.Makes n ∧ n ≤ buf.length)

/-! ### Cursors -/

/-- The view covers exactly the rest `l` of the buffer. Positions are numbers of 64 bits that do
not wrap in a buffer that is shorter. -/
structure Cursor.At (buf : ByteString) (s : Cursor) (l : List Byte) : Prop where
  drop : buf.drop s.view.pos = l
  size : s.view.size = l.length
  pos_le : s.view.pos ≤ buf.length

variable {buf : ByteString} {s : Cursor} {l : List Byte}

/-- What is before the window and what is in it are together the whole buffer. -/
theorem Cursor.At.pos_add (h : s.At buf l) : s.view.pos + l.length = buf.length := by
  have hlen := congrArg List.length h.drop
  have hpos := h.pos_le
  rw [List.length_drop] at hlen
  omega

/-- Only the view matters. -/
theorem Cursor.At.of_view {s' : Cursor} (h : s.At buf l) (hv : s'.view = s.view) :
    s'.At buf l where
  drop := by rw [hv]; exact h.drop
  size := by rw [hv]; exact h.size
  pos_le := by rw [hv]; exact h.pos_le

/-- A byte of the window is the byte of the buffer at its position, and there is none behind the
window. -/
theorem Cursor.At.getElem? (h : s.At buf l) (k : Nat) :
    buf[s.view.pos + k]? = l[k]? := by
  rw [← h.drop, List.getElem?_drop]

/-- `parse` starts at the whole buffer. -/
theorem Cursor.start_at (buf : ByteString) : (Cursor.start buf).At buf buf where
  drop := rfl
  size := rfl
  pos_le := Nat.zero_le _

/-- `remove_prefix` of the front part of the view moves the cursor to the rest. -/
theorem removePrefix_at {u r : List Byte} (hbuf : buf.length < 2 ^ 64)
    (h : s.At buf (u ++ r)) : (removePrefix u.length s).2.At buf r := by
  have hpos := h.pos_add
  have hsize := h.size
  rw [List.length_append] at hpos hsize
  have hadd : sizeAdd s.view.pos u.length = s.view.pos + u.length :=
    sizeAdd_of_lt (by omega)
  have hsub : sizeSub s.view.size u.length = r.length := by
    rw [sizeSub_of_le (by omega) (by omega)]
    omega
  refine ⟨?_, hsub, ?_⟩
  · show buf.drop (sizeAdd s.view.pos u.length) = r
    rw [hadd, ← List.drop_drop, h.drop, List.drop_left]
  · show sizeAdd s.view.pos u.length ≤ buf.length
    omega

/-! ### Steps -/

variable {α γ : Type} {Φ : Event → Prop}

/-- The new entries of a log are of the kind `Φ`. -/
def Logs (Φ : Event → Prop) (s s' : Cursor) : Prop := ∀ e ∈ s'.log, e ∈ s.log ∨ Φ e

/-- What logs nothing logs only events that are allowed. -/
theorem Logs.refl (s : Cursor) : Logs Φ s s := fun _ h => Or.inl h

/-- Two steps that log only allowed events do so together. -/
theorem Logs.trans {s s' s'' : Cursor} (h : Logs Φ s s') (h' : Logs Φ s' s'') :
    Logs Φ s s'' := by
  intro e he
  rcases h' e he with he' | he'
  · exact h e he'
  · exact Or.inr he'

/-- One entry more. -/
theorem Logs.snoc {s s' : Cursor} {e : Event} (h : Logs Φ s s') (he : Φ e)
    {s'' : Cursor} (hs : s''.log = s'.log ++ [e]) : Logs Φ s s'' := by
  intro e' he'
  rw [hs, List.mem_append, List.mem_singleton] at he'
  rcases he' with he' | rfl
  · exact h e' he'
  · exact Or.inr he

/-- The step `x` returns `a` and leaves the view where it is. The log grows by events of the kind
`Φ`. -/
structure Returns (Φ : Event → Prop) (a : α) (s : Cursor) (x : ParserM α) : Prop where
  ok : (x s).1 = .ok a
  view : (x s).2.view = s.view
  log : Logs Φ s (x s).2

/-- What a step does agrees with the verdict of a scanner: an item is returned and the
cursor is behind it, a request that is not complete gives `std::nullopt`, and a failure is
thrown. -/
def Agrees (buf : ByteString) (v : Verdict Abrupt Byte α)
    (out : Except Abrupt (Option α) × Cursor) : Prop :=
  match v with
  | .done a r => out.1 = .ok (some a) ∧ out.2.At buf r
  | .more => out.1 = .ok none
  | .fail e => out.1 = .error e

/-- The step `x` agrees with the verdict and logs events of the kind `Φ`. An item moves the view
behind itself, an end of the input is a `nullptr`, and a failure is an exception. So the parser
can be proved about as a scanner on lists. -/
structure Follows (buf : ByteString) (Φ : Event → Prop) (v : Verdict Abrupt Byte α)
    (s : Cursor) (x : ParserM (Option α)) : Prop where
  agrees : Agrees buf v (x s)
  log : Logs Φ s (x s).2

/-- A step that only looks, and then a step that follows. -/
theorem Follows.of_returns {x : ParserM γ} {f : γ → ParserM (Option α)} {c : γ}
    {v : Verdict Abrupt Byte α} (hx : Returns Φ c s x)
    (hf : ∀ s', s'.view = s.view → Follows buf Φ v s' (f c)) :
    Follows buf Φ v s (x >>= f) := by
  -- The log of `x` is in front of the log of what follows, and its view is the old one.
  have hrun : (x >>= f) s = f c (x s).2 := bind_ok (Prod.ext hx.ok rfl)
  have hnext := hf (x s).2 hx.view
  constructor
  · rw [hrun]
    exact hnext.agrees
  · rw [hrun]
    exact hx.log.trans hnext.log

/-- One step after another. -/
theorem Follows.bind {x : ParserM (Option α)} {f : Option α → ParserM (Option γ)}
    {v : Verdict Abrupt Byte α} {g : α → Scanner Abrupt Byte γ}
    (hx : Follows buf Φ v s x) (hnone : f none = pure none)
    (hsome : ∀ a r s', v = .done a r → s'.At buf r → Follows buf Φ (g a r) s' (f (some a))) :
    Follows buf Φ (v.bind g) s (x >>= f) := by
  have hagrees := hx.agrees
  have hlog := hx.log
  cases hv : v with
  | done a r =>
      rw [hv] at hagrees
      have hrun : (x >>= f) s = f (some a) (x s).2 := bind_ok (Prod.ext hagrees.1 rfl)
      have hnext := hsome a r (x s).2 hv hagrees.2
      exact ⟨hrun ▸ hnext.agrees, hrun ▸ hlog.trans hnext.log⟩
  | more =>
      rw [hv] at hagrees
      have hrun : (x >>= f) s = (.ok none, (x s).2) := by
        rw [bind_ok (Prod.ext hagrees rfl), hnone]
        rfl
      exact ⟨hrun ▸ rfl, hrun ▸ hlog⟩
  | fail e =>
      rw [hv] at hagrees
      have hrun : (x >>= f) s = (.error e, (x s).2) := bind_error (Prod.ext hagrees rfl)
      exact ⟨hrun ▸ rfl, hrun ▸ hlog⟩

/-- A step that followed its scanner to an item returned it, and its cursor is behind it. -/
theorem Follows.done {v : Verdict Abrupt Byte α} {x : ParserM (Option α)}
    (h : Follows buf Φ v s x) {a : α} {r : List Byte} (hv : v = .done a r) :
    x s = (.ok (.some a), (x s).2) ∧ (x s).2.At buf r := by
  have hagrees := h.agrees
  rw [hv] at hagrees
  exact ⟨Prod.ext hagrees.1 rfl, hagrees.2⟩

/-- An exception follows the verdict that says that there is one. -/
theorem Follows.raise (e : Abrupt) :
    Follows buf Φ (.fail e : Verdict Abrupt Byte α) s (ParserM.raise e) :=
  ⟨rfl, Logs.refl s⟩

/-- `nullptr` follows the verdict that asks for more input. -/
theorem Follows.none :
    Follows buf Φ (.more : Verdict Abrupt Byte α) s (pure none) :=
  ⟨rfl, Logs.refl s⟩

/-! ### The primitive steps -/

/-- To read the window logs nothing and returns the window. -/
theorem view_returns : Returns Φ s.view s ParserM.view := ⟨rfl, rfl, Logs.refl s⟩

/-- To log an event that is allowed is allowed. -/
theorem emit_returns {e : Event} (he : Φ e) : Returns Φ () s (emit e) :=
  ⟨rfl, rfl, (Logs.refl s).snoc he rfl⟩

/-- A read inside the buffer. -/
theorem deref_returns {p : Nat} {b : Byte} (hp : buf[p]? = some b)
    (he : Φ (.read s.view p)) : Returns Φ b s (deref buf p) := by
  have hrun := deref_run hp s
  refine ⟨?_, ?_, ?_⟩
  · rw [hrun]
  · rw [hrun]
  · exact (Logs.refl s).snoc he (by rw [hrun])

/-- A read inside the view is tame. -/
theorem read_tame (h : s.At buf l) {k : Nat} (hk : k < l.length) :
    (Event.read s.view (s.view.pos + k)).Tame buf := by
  have hsize := h.size
  exact ⟨⟨by omega, by omega⟩, Or.inl trivial⟩

/-- The test for the line end, on two bytes inside the buffer. -/
theorem crlfAt_returns {p : Nat} {b₀ b₁ : Byte} (h₀ : buf[p]? = some b₀)
    (h₁ : buf[sizeAdd p 1]? = some b₁) (he₀ : Φ (.read s.view p))
    (he₁ : Φ (.read s.view (sizeAdd p 1))) :
    Returns Φ (decide ([b₀, b₁] = CRLF)) s (crlfAt buf p) := by
  have hread := deref_returns h₀ he₀
  have hread' := deref_returns (Φ := Φ) (s := (deref buf p s).2) h₁ (hread.view ▸ he₁)
  by_cases hcr : b₀ = CR
  · -- The second byte is read only behind a `'\r'`.
    have hrun : crlfAt buf p s
        = (.ok (decide (b₁ = LF)), (deref buf (sizeAdd p 1) (deref buf p s).2).2) := by
      unfold crlfAt
      rw [bind_ok (Prod.ext hread.ok rfl), if_pos hcr, bind_ok (Prod.ext hread'.ok rfl)]
      rfl
    refine ⟨?_, ?_, ?_⟩
    · rw [hrun]
      simp [CRLF, hcr]
    · rw [hrun]
      exact hread'.view.trans hread.view
    · rw [hrun]
      exact hread.log.trans hread'.log
  · have hrun : crlfAt buf p s = (.ok false, (deref buf p s).2) := by
      unfold crlfAt
      rw [bind_ok (Prod.ext hread.ok rfl), if_neg hcr]
      rfl
    refine ⟨?_, ?_, ?_⟩
    · rw [hrun]
      simp [CRLF, hcr]
    · rw [hrun]
      exact hread.view
    · rw [hrun]
      exact hread.log

/-- The test for the line end, inside the view. -/
theorem crlfAt_returns_at (hbuf : buf.length < 2 ^ 64) (hΦ : ∀ e, e.Tame buf → Φ e)
    (h : s.At buf l) {k : Nat} (hk : k + 2 ≤ l.length) :
    Returns Φ (decide ((l.drop k).take 2 = CRLF)) s (crlfAt buf (s.view.pos + k)) := by
  have hpos := h.pos_add
  have hnext : sizeAdd (s.view.pos + k) 1 = s.view.pos + (k + 1) := by
    rw [sizeAdd_of_lt (by omega), Nat.add_assoc]
  have htake : (l.drop k).take 2 = [l[k], l[k + 1]] := by
    rw [List.drop_eq_getElem_cons (by omega), List.drop_eq_getElem_cons (by omega)]
    rfl
  rw [htake]
  refine crlfAt_returns ?_ ?_ (hΦ _ (read_tame h (by omega))) ?_
  · rw [h.getElem?]
    exact List.getElem?_eq_getElem _
  · rw [hnext, h.getElem?]
    exact List.getElem?_eq_getElem _
  · rw [hnext]
    exact hΦ _ (read_tame h (by omega))

/-- What `std::from_chars` finds at the front of the view. -/
def charsResult (l : List Byte) : Except Errc Nat :=
  if l.takeWhile isDigit = [] then .error .invalidArgument
  else if 2 ^ 64 ≤ value (l.takeWhile isDigit) then .error .resultOutOfRange
  else .ok (value (l.takeWhile isDigit))

/-- `std::from_chars` returns what the digits at the head of the window say, and a pointer behind
the last of them. It looks at these digits and at the byte behind them, if there is one, so that
it stays in its window. -/
theorem fromChars_returns (hΦ : ∀ e, e.Tame buf → Φ e) (h : s.At buf l) :
    Returns Φ (s.view.pos + (l.takeWhile isDigit).length, charsResult l) s
      (fromChars buf) := by
  have hsize := h.size
  -- The view covers the rest of the buffer, so that is where the digits are looked for.
  have hchars : (buf.drop s.view.pos).take s.view.size = l := by
    rw [h.drop, hsize, List.take_length]
  have hin : (Event.span s.view s.view.pos
      (min ((l.takeWhile isDigit).length + 1) s.view.size)).InView := ⟨by omega, by omega⟩
  refine ⟨?_, rfl, (Logs.refl s).snoc
    (hΦ _ ⟨hin, Or.inl trivial⟩) ?_⟩
  · unfold fromChars
    rw [hchars]
    rfl
  · unfold fromChars
    rw [hchars]

/-- Dropping the front part of the view, and then a step that follows. -/
theorem Follows.of_removePrefix {v : Verdict Abrupt Byte α} {f : Unit → ParserM (Option α)}
    (hbuf : buf.length < 2 ^ 64) (hΦ : ∀ e, e.Tame buf → Φ e) {u r : List Byte}
    (h : s.At buf (u ++ r)) (hf : ∀ s', s'.At buf r → Follows buf Φ v s' (f ())) :
    Follows buf Φ v s (removePrefix u.length >>= f) := by
  have hsize := h.size
  rw [List.length_append] at hsize
  have hin : (Event.removePrefix s.view u.length).InView := by
    show u.length ≤ s.view.size
    omega
  have hlog : Logs Φ s (removePrefix u.length s).2 := (Logs.refl s).snoc
    (hΦ _ ⟨hin, Or.inl trivial⟩) rfl
  have hrun : (removePrefix u.length >>= f) s = f () (removePrefix u.length s).2 := bind_ok rfl
  have hnext := hf _ (removePrefix_at hbuf h)
  exact ⟨hrun ▸ hnext.agrees, hrun ▸ hlog.trans hnext.log⟩

/-- A step that throws ends what follows it. -/
theorem Follows.of_error {x : ParserM γ} {f : γ → ParserM (Option α)} {e : Abrupt}
    (hx : (x s).1 = .error e) (hlog : Logs Φ s (x s).2) :
    Follows buf Φ (.fail e : Verdict Abrupt Byte α) s (x >>= f) := by
  have hrun : (x >>= f) s = (.error e, (x s).2) := bind_error (Prod.ext hx rfl)
  exact ⟨hrun ▸ rfl, hrun ▸ hlog⟩

/-- The construction of a string: refused storage is an exception, and a copy that leaves
the buffer is a wild read. -/
theorem Follows.of_string {A : Allocator} {n : Nat} {v : Verdict Abrupt Byte α}
    {f : ByteString → ParserM (Option α)} (h : s.At buf l) (hc : Φ (.construct n))
    (hcopy : A.string n = .none → Φ (.span s.view s.view.pos n))
    (hrefused : ∀ e, A.string n = .some e → v = .fail (.std e))
    (hwild : A.string n = .none → l.length < n → v = .fail .wildRead)
    (hf : ∀ s', A.string n = .none → n ≤ l.length → s'.view = s.view →
      Follows buf Φ v s' (f (l.take n))) :
    Follows buf Φ v s (ParserM.string buf A n >>= f) := by
  have hpos := h.pos_add
  cases hstring : A.string n with
  | some e =>
      have hrun : ParserM.string buf A n s
          = (.error (.std e), { s with log := s.log ++ [.construct n] }) := by
        unfold ParserM.string
        rw [hstring]
      rw [hrefused e hstring]
      refine Follows.of_error ?_ ?_
      · rw [hrun]
      · rw [hrun]
        exact (Logs.refl s).snoc hc rfl
  | none =>
      have hrun : ParserM.string buf A n s
          = (if s.view.pos + n ≤ buf.length then .ok ((buf.drop s.view.pos).take n)
              else .error .wildRead,
             { s with log := s.log ++ [.construct n, .span s.view s.view.pos n] }) := by
        unfold ParserM.string
        rw [hstring]
      have hlog : Logs Φ s (ParserM.string buf A n s).2 := by
        have hfirst : Logs Φ s { s with log := s.log ++ [.construct n] } :=
          (Logs.refl s).snoc hc rfl
        rw [hrun]
        exact hfirst.snoc (hcopy hstring) (by simp)
      -- The copy stays in the buffer exactly when the view has the bytes.
      by_cases hlen : n ≤ l.length
      · refine Follows.of_returns ⟨?_, by rw [hrun], hlog⟩ fun s' hv => hf s' hstring hlen hv
        rw [hrun, if_pos (by omega), h.drop]
      · rw [hwild hstring (by omega)]
        refine Follows.of_error ?_ hlog
        rw [hrun, if_neg (by omega)]

/-- A value follows the verdict that the item was read, and the window is at the rest of the
input. -/
theorem Follows.some {a : α} (h : s.At buf l) :
    Follows buf Φ (.done a l) s (pure (some a)) :=
  ⟨⟨rfl, h⟩, Logs.refl s⟩

/-! ### `_parse_num` -/

/-- The end of `_parse_num`, behind the number: the view `v` starts at the digits, and `ptr`
is behind them. -/
def parseLineEnd (buf : ByteString) (v : StringView) (ptr n : Nat) : ParserM (Option Nat) := do
  if ptr + 2 > v.pos + v.size then
    return none
  let crlf ← crlfAt buf ptr
  if crlf then
    removePrefix (ptr + 2 - v.pos)
    return some n
  else
    raise (.error "expect '\\r\\n'")

/-- What it answers on the bytes behind the digits. -/
def scanLineEnd (n : Nat) : Scanner Abrupt Byte Nat
  | b₁ :: b₂ :: r =>
    if b₁ = CR ∧ b₂ = LF then .done n r else .fail (.error "expect '\\r\\n'")
  | _ => .more

/-- Behind the digits `_parse_num` asks for a line end, and does with the bytes there what the
verdict says: it goes on behind it, asks for more, or throws. -/
theorem parseLineEnd_follows (hbuf : buf.length < 2 ^ 64) (hΦ : ∀ e, e.Tame buf → Φ e)
    {ds : List Byte} (h : s.At buf (ds ++ l)) (n : Nat) :
    Follows buf Φ (scanLineEnd n l) s (parseLineEnd buf s.view (s.view.pos + ds.length) n) := by
  have hsize := h.size
  rw [List.length_append] at hsize
  unfold parseLineEnd
  -- What is left behind the digits decides whether the line end is there to test.
  cases l with
  | nil =>
    rw [List.length_nil] at hsize
    rw [if_pos (by omega)]
    exact Follows.none
  | cons b₁ rest =>
    cases rest with
    | nil =>
      rw [List.length_singleton] at hsize
      rw [if_pos (by omega)]
      exact Follows.none
    | cons b₂ r =>
      rw [List.length_cons, List.length_cons] at hsize
      rw [if_neg (by omega)]
      -- Both bytes are in the view, so the test for the line end is on `b₁` and `b₂`.
      have hcrlf := crlfAt_returns_at hbuf hΦ h (k := ds.length) (by
        rw [List.length_append, List.length_cons, List.length_cons]
        omega)
      have htwo : ((ds ++ b₁ :: b₂ :: r).drop ds.length).take 2 = [b₁, b₂] := by
        rw [List.drop_left]
        rfl
      rw [htwo] at hcrlf
      refine Follows.of_returns hcrlf fun s' hv => ?_
      have h' := h.of_view hv
      simp only [scanLineEnd]
      by_cases hend : b₁ = CR ∧ b₂ = LF
      · obtain ⟨rfl, rfl⟩ := hend
        have hsplit : ds ++ CR :: LF :: r = (ds ++ CRLF) ++ r := by
          rw [List.append_assoc]
          rfl
        have hdist : s.view.pos + ds.length + 2 - s.view.pos = (ds ++ CRLF).length := by
          rw [List.length_append]
          show _ = _ + 2
          omega
        rw [if_pos ⟨rfl, rfl⟩, if_pos (by decide), hdist]
        rw [hsplit] at h'
        exact Follows.of_removePrefix hbuf hΦ h' fun s'' h'' => Follows.some h''
      · rw [if_neg hend, if_neg (by simpa [CRLF] using hend)]
        exact Follows.raise _

/-- `parseNum` follows `scanNum`, and stays inside the view. -/
theorem parseNum_follows (hbuf : buf.length < 2 ^ 64) (hΦ : ∀ e, e.Tame buf → Φ e) (c : Char)
    (h : s.At buf l) : Follows buf Φ (scanNum c l) s (parseNum buf c) := by
  unfold parseNum
  refine Follows.of_returns view_returns fun s₁ hv₁ => ?_
  have h₁ := h.of_view hv₁
  cases l with
  | nil =>
    -- An empty view.
    rw [if_pos (by rw [h.size]; rfl)]
    exact Follows.none
  | cons b l =>
    rw [if_neg (by rw [h.size]; simp), ← hv₁]
    have hfront : Returns Φ b s₁ (deref buf s₁.view.pos) :=
      deref_returns (h₁.getElem? 0) (hΦ _ (read_tame h₁ (k := 0) (by simp)))
    refine Follows.of_returns hfront fun s₂ hv₂ => ?_
    have h₂ := h₁.of_view hv₂
    simp only [scanNum]
    by_cases hb : b ≠ c.toUInt8
    · rw [if_pos hb, if_pos hb]
      exact Follows.raise _
    · rw [if_neg hb, if_neg hb]
      refine Follows.of_removePrefix (u := [b]) hbuf hΦ h₂ fun s₃ h₃ => ?_
      refine Follows.of_returns view_returns fun s₄ hv₄ => ?_
      have h₄ := h₃.of_view hv₄
      rw [← hv₄]
      by_cases hl : l = []
      · rw [if_pos hl, if_pos (by rw [h₄.size, hl]; rfl)]
        exact Follows.none
      · have hsize : ¬ s₄.view.size = 0 := by
          rw [h₄.size]
          simpa using hl
        rw [if_neg hl, if_neg hsize]
        refine Follows.of_returns (fromChars_returns hΦ h₄) fun s₅ hv₅ => ?_
        have h₅ := h₄.of_view hv₅
        by_cases hrun : l.takeWhile isDigit = [] ∨ 2 ^ 64 ≤ value (l.takeWhile isDigit)
        · have hresult : ∃ e, charsResult l = .error e := by
            unfold charsResult
            by_cases hnil : l.takeWhile isDigit = []
            · exact ⟨_, if_pos hnil⟩
            · exact ⟨_, by rw [if_neg hnil, if_pos (hrun.resolve_left hnil)]⟩
          obtain ⟨e, he⟩ := hresult
          rw [if_pos hrun, he]
          exact Follows.raise _
        -- A number. The pointer is behind its digits.
        · have hresult : charsResult l = .ok (value (l.takeWhile isDigit)) := by
            rw [not_or] at hrun
            unfold charsResult
            rw [if_neg hrun.1, if_neg hrun.2]
          rw [if_neg hrun, hresult, ← hv₅]
          rw [← List.takeWhile_append_dropWhile (p := isDigit) (l := l)] at h₅
          exact parseLineEnd_follows hbuf hΦ h₅ (value (l.takeWhile isDigit))

/-! ### `_parse_argv` -/

/-- What is logged on a bulk length `n` that wraps: any access, and a string only for the
length that passes the test for the line end. -/
def Event.Wrapped (n : Nat) (e : Event) : Prop :=
  e.Access ∨ (e = .construct n ∧ n = 2 ^ 64 - 2)

/-- The two bytes before the view, behind a length line. -/
theorem before_numLine {c : Char} {n : Nat} {u r : List Byte} {s' : Cursor}
    (h : s.At buf (u ++ r)) (h' : s'.At buf r) (hu : NumLine c n u) :
    2 ≤ s'.view.pos ∧ buf[s'.view.pos - 2]? = some CR ∧ buf[s'.view.pos - 1]? = some LF := by
  obtain ⟨⟨ds, -, rfl⟩, -⟩ := hu
  have hpos := h.pos_add
  have hpos' := h'.pos_add
  have hlen : (c.toUInt8 :: ds ++ CRLF ++ r).length = ds.length + 3 + r.length := by
    simp [CRLF]
    omega
  rw [hlen] at hpos
  -- The line end is what the length line ends with.
  have hCR := h.getElem? (ds.length + 1)
  have hLF := h.getElem? (ds.length + 2)
  rw [show s.view.pos + (ds.length + 1) = s'.view.pos - 2 from by omega] at hCR
  rw [show s.view.pos + (ds.length + 2) = s'.view.pos - 1 from by omega] at hLF
  refine ⟨by omega, ?_, ?_⟩
  · rw [hCR]
    simp [CRLF]
  · rw [hLF]
    simp [CRLF]

/-- `_parse_argv` behind the length line, where the view is `v`. -/
def parsePayload (buf : ByteString) (A : Allocator) (v : StringView) (len : Nat) :
    ParserM (Option ByteString) := do
  if v.size < sizeAdd len 2 then
    return none
  let crlf ← crlfAt buf (sizeAdd v.pos len)
  if crlf then
    let argv ← string buf A len
    removePrefix (sizeAdd len 2)
    return some argv
  else
    raise (.error "expect '\\r\\n'")

/-- The sum is in range, and the length test is what it should be. -/
theorem parsePayload_follows (hbuf : buf.length < 2 ^ 64) (hΦ : ∀ e, e.Tame buf → Φ e)
    (A : Allocator) (h : s.At buf l) {len : Nat} (hlen : len + 2 < 2 ^ 64) :
    Follows buf Φ (scanPayload A len l) s (parsePayload buf A s.view len) := by
  have hpos := h.pos_add
  have hsum : sizeAdd len 2 = len + 2 := sizeAdd_of_lt hlen
  unfold parsePayload scanPayload
  rw [if_neg (by omega), if_neg (by omega), hsum, h.size]
  by_cases hshort : l.length < len + 2
  · rw [if_pos hshort, if_pos hshort]
    exact Follows.none
  · rw [if_neg hshort, if_neg hshort, sizeAdd_of_lt (by omega)]
    refine Follows.of_returns (crlfAt_returns_at hbuf hΦ h (by omega)) fun s' hv => ?_
    have h' := h.of_view hv
    by_cases hcrlf : (l.drop len).take 2 = CRLF
    · rw [if_pos hcrlf, if_pos (decide_eq_true hcrlf)]
      have hsize := h'.size
      have hspan : (Event.span s'.view s'.view.pos len).InView := ⟨by omega, by omega⟩
      refine Follows.of_string h' (hΦ _ ⟨trivial, Or.inr ⟨len, Or.inl rfl, by omega⟩⟩)
        (fun _ => hΦ _ ⟨hspan, Or.inl trivial⟩) (fun e he => by rw [he])
        (fun _ hle => by omega) fun s'' he hle hv' => ?_
      have h'' := h'.of_view hv'
      have hdist : len + 2 = (l.take len ++ CRLF).length := by
        rw [List.length_append, List.length_take, Nat.min_eq_left hle]
        rfl
      rw [payload_split hcrlf, ← List.append_assoc] at h''
      simp only [he]
      rw [hdist]
      exact Follows.of_removePrefix hbuf hΦ h'' fun s₃ h₃ => Follows.some (hdist ▸ h₃)
    · rw [if_neg hcrlf, if_neg (by simpa using hcrlf)]
      exact Follows.raise _

/-- The sum wraps to one. Any byte passes the length test, and the byte before the view is no
`'\r'`. -/
theorem parsePayload_follows_one (A : Allocator) (h : s.At buf l) (hge : 2 ≤ s.view.pos)
    (hLF : buf[s.view.pos - 1]? = .some LF) (hbuf : buf.length < 2 ^ 64)
    (hΦ : ∀ e, e.Access → Φ e) {len : Nat} (hlen : len = 2 ^ 64 - 1) :
    Follows buf Φ (scanPayload A len l) s (parsePayload buf A s.view len) := by
  have hpos := h.pos_add
  have hsum : sizeAdd len 2 = 1 := by rw [hlen]; rfl
  unfold parsePayload scanPayload
  rw [if_pos hlen, hsum, h.size]
  cases l with
  | nil =>
    rw [if_pos rfl, if_pos (by simp)]
    exact Follows.none
  | cons b r =>
    have hp : sizeAdd s.view.pos len = s.view.pos - 1 := by
      unfold sizeAdd
      omega
    have hp' : sizeAdd (s.view.pos - 1) 1 = s.view.pos := by
      rw [sizeAdd_of_lt (by omega)]
      omega
    have hcrlf : Returns Φ (decide ([LF, b] = CRLF)) s (crlfAt buf (s.view.pos - 1)) := by
      refine crlfAt_returns hLF ?_ (hΦ _ trivial) (hΦ _ trivial)
      rw [hp']
      exact h.getElem? 0
    rw [if_neg (by simp), if_neg (by simp), hp]
    refine Follows.of_returns hcrlf fun s' hv => ?_
    exact Follows.raise _

/-- The sum wraps to zero. The length test passes, and so does the test for the line end, on
the two bytes before the view. -/
theorem parsePayload_follows_zero (A : Allocator) (h : s.At buf l) (hge : 2 ≤ s.view.pos)
    (hCR : buf[s.view.pos - 2]? = .some CR) (hLF : buf[s.view.pos - 1]? = .some LF)
    (hbuf : buf.length < 2 ^ 64) {len : Nat} (hlen : len = 2 ^ 64 - 2)
    (hΦ : ∀ e, e.Wrapped len → Φ e) :
    Follows buf Φ (scanPayload A len l) s (parsePayload buf A s.view len) := by
  have hpos := h.pos_add
  have hsum : sizeAdd len 2 = 0 := by rw [hlen]; rfl
  have hp : sizeAdd s.view.pos len = s.view.pos - 2 := by
    unfold sizeAdd
    omega
  have hp' : sizeAdd (s.view.pos - 2) 1 = s.view.pos - 1 := by
    rw [sizeAdd_of_lt (by omega)]
    omega
  have hcrlf : Returns Φ (decide ([CR, LF] = CRLF)) s (crlfAt buf (s.view.pos - 2)) := by
    refine crlfAt_returns hCR ?_ (hΦ _ (Or.inl trivial)) (hΦ _ (Or.inl trivial))
    rw [hp']
    exact hLF
  unfold parsePayload scanPayload
  rw [if_neg (by omega), if_pos hlen, hsum, if_neg (by omega), hp]
  refine Follows.of_returns hcrlf fun s' hv => ?_
  -- No view has that many bytes, so the copy leaves the buffer.
  refine Follows.of_string (h.of_view hv) (hΦ _ (Or.inr ⟨rfl, hlen⟩))
    (fun _ => hΦ _ (Or.inl trivial)) (fun e he => by rw [he]) (fun he _ => by rw [he])
    fun s'' he hle hv' => ?_
  omega

/-- `parseArgv` follows `scanArgv`. It stays inside the view unless the announced length
wraps. -/
theorem parseArgv_follows (hbuf : buf.length < 2 ^ 64) (hΦ : ∀ e, e.Tame buf → Φ e)
    (A : Allocator) (h : s.At buf l)
    (hwrap : ∀ n r, scanNum '$' l = .done n r → SumWraps n → ∀ e, e.Wrapped n → Φ e) :
    Follows buf Φ (scanArgv A l) s (parseArgv buf A) := by
  unfold parseArgv
  refine (parseNum_follows hbuf hΦ '$' h).bind rfl fun len r s₁ hnum h₁ => ?_
  obtain ⟨u, hu, rfl⟩ := scanNum_done_iff.mp hnum
  have hlt := hu.lt
  refine Follows.of_returns view_returns fun s₂ hv₂ => ?_
  have h₂ := h₁.of_view hv₂
  obtain ⟨hge, hCR, hLF⟩ := before_numLine h h₂ hu
  rw [← hv₂]
  -- The cases are the lengths that wrap, and all others.
  by_cases hlen₁ : len = 2 ^ 64 - 1
  · have hw := hwrap len r hnum (Or.inl hlen₁)
    refine Follows.of_returns (emit_returns (hw _ (Or.inl trivial))) fun s₃ hv₃ => ?_
    rw [← hv₃] at hge hLF ⊢
    exact parsePayload_follows_one A (h₂.of_view hv₃) hge hLF hbuf
      (fun e he => hw e (Or.inl he)) hlen₁
  · by_cases hlen₂ : len = 2 ^ 64 - 2
    · have hw := hwrap len r hnum (Or.inr hlen₂)
      refine Follows.of_returns (emit_returns (hw _ (Or.inl trivial))) fun s₃ hv₃ => ?_
      rw [← hv₃] at hge hCR hLF ⊢
      exact parsePayload_follows_zero A (h₂.of_view hv₃) hge hCR hLF hbuf hlen₂ hw
    · have hlen : len + 2 < 2 ^ 64 := by omega
      refine Follows.of_returns (emit_returns (hΦ _ ⟨hlen, Or.inl trivial⟩)) fun s₃ hv₃ => ?_
      rw [← hv₃]
      exact parsePayload_follows hbuf hΦ A (h₂.of_view hv₃) hlen

end VectorEngine.Resp
