import VectorEngine.Proofs.Resp.Grammar
import VectorEngine.Stream.Prompt

/-!
# `VectorEngine.Proofs.Resp.Verdicts`: malformed and incomplete requests

The parser throws on some buffers, and reports others as incomplete. Both are claims about what
may follow the buffer. They are compared with the frames whose bulk strings are short enough
for the length test of `_parse_argv` (`ShortFrame`).

`scanCommand_patient`: the start of a short frame is never rejected. `scanCommand_prompt`:
nothing else is held as incomplete for longer than three bytes. The three bytes are needed for
the length `2 ^ 64 - 1`: its length line may lack the line end, and behind the line end the
length test passes on one byte more.

`parse_verdicts` puts these together for a buffer shorter than `2 ^ 32` bytes.
-/

set_option autoImplicit false

namespace VectorEngine.Resp

open VectorEngine.Stream
open VectorEngine.Numeral

variable {A : Allocator} {l r : List Byte}

/-- A bulk string whose length leaves room for the line end in 64 bits. -/
def ShortString (s u : List Byte) : Prop := BulkString s u ∧ s.length ≤ 2 ^ 64 - 3

/-- A frame of short bulk strings. -/
def ShortFrame (cmd : RespCommand) (u : List Byte) : Prop :=
  Frame cmd u ∧ ∀ s ∈ cmd.name :: cmd.args, s.length ≤ 2 ^ 64 - 3

/-! ### The length line -/

/-- The inputs on which the scanner asks for the rest of a length line. -/
theorem scanNum_more {c : Char} (h : scanNum c l = .more) :
    l = [] ∨ l = [c.toUInt8] ∨ ∃ ds n, IsNumeral ds n ∧ n < 2 ^ 64 ∧
      (l = c.toUInt8 :: ds ∨ ∃ b, isDigit b = false ∧ l = c.toUInt8 :: ds ++ [b]) := by
  cases l with
  | nil => exact Or.inl rfl
  | cons b l =>
    right
    simp only [scanNum] at h
    split at h
    · cases h
    · rename_i hb
      rw [Decidable.not_not.mp hb]
      split at h
      · rename_i hnil
        left
        rw [hnil]
      · right
        split at h
        · cases h
        · rename_i hrun
          rw [not_or, Nat.not_le] at hrun
          have hsplit := List.takeWhile_append_dropWhile (p := isDigit) (l := l)
          refine ⟨l.takeWhile isDigit, _, ⟨hrun.1, fun _ => List.mem_takeWhile_imp, rfl⟩,
            hrun.2, ?_⟩
          split at h
          · split at h
            · cases h
            · cases h
          · rename_i hshort
            cases hdrop : l.dropWhile isDigit with
            | nil =>
              left
              rw [hdrop, List.append_nil] at hsplit
              rw [hsplit]
            | cons b₁ r =>
              right
              cases r with
              | nil =>
                refine ⟨b₁, ?_, ?_⟩
                · have hne : l.dropWhile isDigit ≠ [] := by
                    rw [hdrop]
                    exact List.cons_ne_nil _ _
                  have hhead := List.head_dropWhile_not isDigit hne
                  simpa [hdrop] using hhead
                · rw [hdrop] at hsplit
                  rw [List.cons_append, hsplit]
              | cons b₂ r => exact absurd hdrop (hshort b₁ b₂ r)

/-- The scanner behind a numeral, when two more bytes are there and the first is no digit. -/
theorem scanNum_ended {c : Char} {ds : List Byte} {n : Nat} (hds : IsNumeral ds n)
    (hn : n < 2 ^ 64) {b : Byte} (hb : isDigit b = false) (b' : Byte) (r : List Byte) :
    scanNum c (c.toUInt8 :: ds ++ b :: b' :: r)
      = if b = CR ∧ b' = LF then .done n r else .fail (.error "expect '\\r\\n'") := by
  have htake : (ds ++ b :: b' :: r).takeWhile isDigit = ds :=
    takeWhile_digits hds.digits hb (b' :: r)
  have hdrop : (ds ++ b :: b' :: r).dropWhile isDigit = b :: b' :: r :=
    dropWhile_digits hds.digits hb (b' :: r)
  have hsome : ds ++ b :: b' :: r ≠ [] := by simp
  have hrun : ¬ (ds = [] ∨ 2 ^ 64 ≤ value ds) := by
    rw [hds.value_eq, not_or, Nat.not_le]
    exact ⟨hds.ne_nil, hn⟩
  rw [List.cons_append, scanNum, if_neg (not_not.mpr rfl), if_neg hsome, htake, if_neg hrun, hdrop]
  simp only [hds.value_eq]

/-- A numeral that would leave 64 bits with one digit more must not get one. -/
theorem scanNum_overflow {c : Char} {ds : List Byte} {n : Nat} (hds : IsNumeral ds n)
    (hn : 2 ^ 64 ≤ n * 10) {b : Byte} (hb : isDigit b = true) (r : List Byte) :
    scanNum c (c.toUInt8 :: ds ++ b :: r) = .fail (.error "expect a positive integer") := by
  have htake : (ds ++ b :: r).takeWhile isDigit = ds ++ [b] ++ r.takeWhile isDigit := by
    rw [List.takeWhile_append_of_pos hds.digits, List.takeWhile_cons_of_pos hb,
      List.append_assoc]
    rfl
  have hvalue : 2 ^ 64 ≤ value (ds ++ [b] ++ r.takeWhile isDigit) := by
    have hgrown : value (ds ++ [b]) ≤ value (ds ++ [b] ++ r.takeWhile isDigit) :=
      value_le_value_append _ _
    have hshift : value (ds ++ [b]) = n * 10 ^ 1 + value [b] := by
      rw [value_append, hds.value_eq]
      rfl
    omega
  have hsome : ds ++ b :: r ≠ [] := by simp
  -- The run of digits has grown by `b` at least.
  rw [List.cons_append, scanNum, if_neg (not_not.mpr rfl), if_neg hsome, htake,
    if_pos (Or.inr hvalue)]

/-- A length line that goes on with another byte than the line end is rejected. -/
theorem scanNum_doomed {c : Char} {ds : List Byte} {n : Nat} (hds : IsNumeral ds n)
    (hn : n < 2 ^ 64) {b : Byte} (hb : isDigit b = false) (hcr : b ≠ CR) :
    Scanner.Doomed (scanNum c) 1 (c.toUInt8 :: ds ++ [b]) := by
  intro x hx
  cases x with
  | nil => exact absurd hx (Nat.not_lt_zero 0)
  | cons b' r =>
    refine ⟨.error "expect '\\r\\n'", ?_⟩
    rw [List.append_assoc]
    show scanNum c (c.toUInt8 :: ds ++ b :: b' :: r) = _
    rw [scanNum_ended hds hn hb b' r, if_neg (fun hand => hcr hand.1)]

/-- The start of a length line is never rejected. -/
theorem scanNum_patient {c : Char} {n : Nat} {x : List Byte} (h : NumLine c n (l ++ x))
    (hx : x ≠ []) : scanNum c l = .more :=
  (stable_scanNum c).more_of_done (scanNum_done_iff.mpr ⟨l ++ x, h, (List.append_nil _).symm⟩) hx

/-! ### Bulk strings -/

/-- What is behind the length line of a bulk string. -/
def Payload (len : Nat) (s u : List Byte) : Prop := s.length = len ∧ u = s ++ CRLF

/-- Up to three below `2^64` the sum `len + 2` is the one of the natural numbers. -/
theorem not_sumWraps {len : Nat} (h : len ≤ 2 ^ 64 - 3) : ¬ SumWraps len := by
  unfold SumWraps
  omega

/-- A payload that is not complete is not looked at. -/
theorem scanPayload_short {len : Nat} (hlen : len ≤ 2 ^ 64 - 3) (hl : l.length < len + 2) :
    scanPayload A len l = .more := by
  unfold scanPayload
  rw [if_neg (by omega), if_neg (by omega), if_pos hl]

/-- A payload with both bytes behind it is rejected when the first is no `CR`. -/
theorem scanPayload_ended {s x : List Byte} {b : Byte} (hlen : s.length ≤ 2 ^ 64 - 3)
    (hcr : b ≠ CR) (hx : 1 ≤ x.length) :
    scanPayload A s.length (s ++ [b] ++ x) = .fail (.error "expect '\\r\\n'") := by
  have hlong : ¬ (s ++ [b] ++ x).length < s.length + 2 := by
    rw [List.length_append, List.length_append, List.length_singleton]
    omega
  have hbytes : ¬ ((s ++ [b] ++ x).drop s.length).take 2 = CRLF := by
    rw [List.append_assoc, List.drop_left]
    intro heq
    exact hcr (List.cons.inj heq).1
  unfold scanPayload
  rw [if_neg (by omega), if_neg (by omega), if_neg hlong, if_neg hbytes]

/-- The payload may be any bytes, so that it is only the line end that can be wrong. -/
theorem scanPayload_prompt {len : Nat} (hlen : len ≤ 2 ^ 64 - 3) :
    Scanner.Prompt (scanPayload A len) (Payload len) 1 := by
  intro l h
  have hshort : l.length < len + 2 := by
    by_contra hlong
    unfold scanPayload at h
    rw [if_neg (by omega), if_neg (by omega), if_neg hlong] at h
    split at h
    · split at h
      · cases h
      · cases h
    · cases h
  by_cases hinside : l.length ≤ len
  · -- The line end has not begun, and any bytes complete the payload.
    left
    refine ⟨l ++ List.replicate (len - l.length) 0,
      List.replicate (len - l.length) 0 ++ CRLF, by simp [CRLF], ?_, ?_⟩
    · rw [List.length_append, List.length_replicate]
      omega
    · rw [List.append_assoc]
  · -- one byte of the line end is there
    have hlength : l.length = len + 1 := by omega
    have hne : l ≠ [] := List.ne_nil_of_length_pos (by omega)
    have hsplit : l.dropLast ++ [l.getLast hne] = l := List.dropLast_concat_getLast hne
    have hfront : l.dropLast.length = len := by
      rw [List.length_dropLast]
      omega
    by_cases hcr : l.getLast hne = CR
    · left
      refine ⟨l.dropLast, [LF], List.cons_ne_nil _ _, hfront, ?_⟩
      conv => lhs; rw [← hsplit]
      rw [hcr, List.append_assoc]
      rfl
    · right
      intro x hx
      rw [← hsplit, ← hfront]
      exact ⟨_, scanPayload_ended (by omega) hcr hx⟩

/-- The two lengths that wrap are rejected as soon as a byte is there. -/
theorem scanPayload_wraps {len : Nat} (hwrap : SumWraps len) (hl : l ≠ []) :
    ∃ e, scanPayload A len l = .fail e := by
  unfold scanPayload
  rcases hwrap with rfl | rfl
  · rw [if_pos rfl, if_neg hl]
    exact ⟨_, rfl⟩
  · rw [if_neg (by decide), if_pos rfl]
    cases A.string (2 ^ 64 - 2) with
    | some e => exact ⟨_, rfl⟩
    | none => exact ⟨_, rfl⟩

/-- A length that wraps is rejected when its numeral has ended and two more bytes are there. -/
theorem scanArgv_wraps {ds : List Byte} {n : Nat} (hds : IsNumeral ds n) (hn : n < 2 ^ 64)
    (hwrap : SumWraps n) {b : Byte} (hb : isDigit b = false) (b' b'' : Byte) (r : List Byte) :
    ∃ e, scanArgv A ('$'.toUInt8 :: ds ++ b :: b' :: b'' :: r) = .fail e := by
  show ∃ e, (scanNum '$' _).bind (scanPayload A) = .fail e
  rw [scanNum_ended hds hn hb b' (b'' :: r)]
  by_cases hend : b = CR ∧ b' = LF
  · rw [if_pos hend]
    exact scanPayload_wraps hwrap (List.cons_ne_nil b'' r)
  · rw [if_neg hend]
    exact ⟨_, rfl⟩

/-- The length line of a string with room for the line end can be followed by such a string. -/
theorem begins_string {ds : List Byte} {n : Nat} (hds : IsNumeral ds n) (hn : n ≤ 2 ^ 64 - 3) :
    Scanner.Begins ShortString ('$'.toUInt8 :: ds ++ CRLF) := by
  have hlength : (List.replicate n (0 : Byte)).length = n := List.length_replicate
  refine ⟨List.replicate n 0, List.replicate n 0 ++ CRLF, by simp [CRLF], ?_, by omega⟩
  refine ⟨'$'.toUInt8 :: ds ++ CRLF, ⟨⟨ds, ?_, rfl⟩, by omega⟩, rfl⟩
  rw [hlength]
  exact hds

/-- The empty input is the start of a string. -/
theorem begins_nil : Scanner.Begins ShortString [] := by
  have hzero : Scanner.Begins ShortString ('$'.toUInt8 :: render 0 ++ CRLF) :=
    begins_string (isNumeral_render 0) (by decide)
  exact Scanner.Begins.of_append (l := []) hzero

/-- A continuation of three bytes or more can be taken apart into its first three and the rest. -/
theorem exists_three {x : List Byte} (hx : 3 ≤ x.length) :
    ∃ b₀ b₁ b₂ r, x = b₀ :: b₁ :: b₂ :: r := by
  obtain ⟨b₀, x₁, rfl⟩ := List.exists_cons_of_length_pos (show 0 < x.length by omega)
  rw [List.length_cons] at hx
  obtain ⟨b₁, x₂, rfl⟩ := List.exists_cons_of_length_pos (show 0 < x₁.length by omega)
  rw [List.length_cons] at hx
  obtain ⟨b₂, r, rfl⟩ := List.exists_cons_of_length_pos (show 0 < x₂.length by omega)
  exact ⟨b₀, b₁, b₂, r, rfl⟩

/-- A length that wraps has the longest numerals there are. What follows such a numeral is
rejected, a further digit as well as the line end. -/
theorem scanArgv_doomed {ds : List Byte} {n : Nat} (hds : IsNumeral ds n) (hn : n < 2 ^ 64)
    (hwrap : SumWraps n) : Scanner.Doomed (scanArgv A) 3 ('$'.toUInt8 :: ds) := by
  intro x hx
  obtain ⟨b, b', b'', r, rfl⟩ := exists_three hx
  by_cases hdigit : isDigit b = true
  · have hbig : 2 ^ 64 ≤ n * 10 := by
      unfold SumWraps at hwrap
      omega
    exact ⟨_, Verdict.bind_eq_fail.mpr (Or.inl (scanNum_overflow hds hbig hdigit _))⟩
  · exact scanArgv_wraps hds hn hwrap (Bool.eq_false_of_not_eq_true hdigit) b' b'' r

/-- An unfinished length line starts a bulk string, or it is rejected three bytes later. -/
theorem scanLength_prompt (h : scanNum '$' l = .more) :
    Scanner.Begins ShortString l ∨ Scanner.Doomed (scanArgv A) 3 l := by
  have hzero : Scanner.Begins ShortString ('$'.toUInt8 :: render 0 ++ CRLF) :=
    begins_string (isNumeral_render 0) (by decide)
  rcases scanNum_more h with rfl | rfl | ⟨ds, n, hds, hn, hl⟩
  · exact Or.inl begins_nil
  · exact Or.inl (Scanner.Begins.of_append (l := ['$'.toUInt8]) hzero)
  · by_cases hroom : n ≤ 2 ^ 64 - 3
    · have hline := begins_string hds hroom
      rcases hl with rfl | ⟨b, hb, rfl⟩
      · exact Or.inl (Scanner.Begins.of_append hline)
      · by_cases hcr : b = CR
        · left
          subst hcr
          refine Scanner.Begins.of_append (y := [LF]) ?_
          rw [List.append_assoc]
          exact hline
        · exact Or.inr (((scanNum_doomed hds hn hb hcr).andThen _).mono (by decide))
    · right
      have hwrap : SumWraps n := by
        unfold SumWraps
        omega
      rcases hl with rfl | ⟨b, hb, rfl⟩
      · exact scanArgv_doomed hds hn hwrap
      · intro x hx
        obtain ⟨b₀, b₁, b₂, r, rfl⟩ := exists_three hx
        rw [List.append_assoc]
        exact scanArgv_wraps hds hn hwrap hb b₀ b₁ (b₂ :: r)

/-- What is held as the start of a bulk string is one, or is rejected three bytes later. -/
theorem scanArgv_prompt : Scanner.Prompt (scanArgv A) ShortString 3 := by
  intro l h
  rcases Verdict.bind_eq_more.mp h with hnum | ⟨n, r, hnum, hpayload⟩
  · exact scanLength_prompt hnum
  · obtain ⟨u, hu, rfl⟩ := scanNum_done_iff.mp hnum
    by_cases hroom : n ≤ 2 ^ 64 - 3
    · rcases scanPayload_prompt hroom hpayload with ⟨s, x, hx, hs, heq⟩ | hdoomed
      · left
        refine ⟨s, x, hx, ⟨u, hs ▸ hu, ?_⟩, hs ▸ hroom⟩
        rw [List.append_assoc, heq]
      · exact Or.inr ((Scanner.Doomed.of_done (stable_scanNum '$') hnum hdoomed).mono (by decide))
    · right
      have hwrap : SumWraps n := by
        have hlt := hu.lt
        unfold SumWraps
        omega
      refine Scanner.Doomed.of_done (stable_scanNum '$') hnum fun x hx => ?_
      have hsome : r ++ x ≠ [] := by
        refine List.ne_nil_of_length_pos ?_
        rw [List.length_append]
        omega
      exact scanPayload_wraps hwrap hsome

/-- The start of a short bulk string is never rejected. -/
theorem scanArgv_patient (bound : Nat) : Scanner.Patient (scanArgv A) ShortString bound := by
  rintro l - ⟨s, x, hx, ⟨line, hline, heq⟩, hroom⟩
  -- The input ends inside the length line, or inside what is behind it.
  rcases Scanner.inside_or_beyond heq with ⟨y, hy, rfl⟩ | ⟨y, rfl, hxy⟩
  · have hmore : scanNum '$' l = .more := scanNum_patient hline hy
    show (scanNum '$' l).bind _ = _
    rw [hmore]
    rfl
  · have hnum : scanNum '$' (line ++ y) = .done s.length y :=
      scanNum_done_iff.mpr ⟨line, hline, rfl⟩
    have hlength : y.length < s.length + 2 := by
      have hsum := congrArg List.length hxy
      have hpos := List.length_pos_of_ne_nil hx
      simp only [List.length_append, CRLF, List.length_cons, List.length_nil] at hsum
      omega
    show (scanNum '$' (line ++ y)).bind _ = _
    rw [hnum]
    exact scanPayload_short hroom hlength

/-- What `_parse_argv` accepts is a bulk string whose length does not wrap, whatever the
allocator. -/
theorem scanArgv_sound_short (A : Allocator) : (scanArgv A).Sound ShortString := by
  intro l s r h
  obtain ⟨u, hu, hwrap, -, rfl⟩ := scanArgv_done_iff.mp h
  refine ⟨u, ⟨hu, ?_⟩, rfl⟩
  obtain ⟨line, hline, -⟩ := hu
  have hlt := hline.lt
  unfold SumWraps at hwrap
  omega

/-- A short bulk string that is complete is taken. -/
theorem scanArgv_done (hA : A.Succeeds) {s u : List Byte} (hu : ShortString s u)
    (hlen : u.length < 2 ^ 32) (r : List Byte) : scanArgv A (u ++ r) = .done s r := by
  have hle := hu.1.length_ge
  exact scanArgv_complete (not_sumWraps hu.2) (hA.string _ (by omega)) u hu.1 r

/-! ### Commands -/

/-- On a short input the 32-bit counter of the inner loop does not matter. -/
theorem scanArgs_eq_times {count : Nat} (hl : l.length < 2 ^ 32) :
    scanArgs A count l = (scanArgv A).times count l := by
  unfold scanArgs
  by_cases hcount : count < 2 ^ 32
  · rw [if_pos hcount]
  · rw [if_neg hcount]
    exact Scanner.endless_eq_times (consumes_scanArgv A) count l (by omega)

/-- The command that the bulk strings of a frame make. -/
def commandOf (ss : List ByteString) : RespCommand where
  name := ss.headD []
  args := ss.tail

/-- On a short input a command is its count and so many bulk strings. -/
theorem scanCommand_eq_times (hA : A.Succeeds) {argc : Nat} (hargc : scanNum '*' l = .done argc r)
    (hzero : argc ≠ 0) (hr : r.length < 2 ^ 32) :
    scanCommand A l
      = ((scanArgv A).times argc r).bind fun ss r => .done (commandOf ss) r := by
  obtain ⟨n, rfl⟩ := Nat.exists_eq_succ_of_ne_zero hzero
  show (scanNum '*' l).bind _ = ((scanArgv A r).bind _).bind _
  rw [hargc, Verdict.bind_done, if_neg hzero]
  show (scanArgv A r).bind _ = _
  cases hname : scanArgv A r with
  | more => rfl
  | fail e => rfl
  | done name r₁ =>
    have hshort := (consumes_scanArgv A).length_lt hname
    show (scanReserve A n r₁).bind _ = (((scanArgv A).times n r₁).bind _).bind _
    unfold scanReserve
    rw [hA.reserve]
    show (scanArgs A n r₁).bind _ = _
    rw [scanArgs_eq_times (by omega)]
    cases (scanArgv A).times n r₁ with
    | more => rfl
    | fail e => rfl
    | done args r₂ => rfl

/-- A count and the start of so many bulk strings start a frame. -/
theorem begins_frame {n : Nat} {line : List Byte} (hline : NumLine '*' (n + 1) line)
    (hr : Scanner.Begins (Scanner.Sequence ShortString (n + 1)) r) :
    Scanner.Begins ShortFrame (line ++ r) := by
  obtain ⟨ss, x, hx, hlen, us, hus, heq⟩ := hr
  cases hus with
  | nil => cases hlen
  | @cons name u args us hname hargs =>
    have hcount : args.length = n := Nat.succ.inj hlen
    have hstrings : List.Forall₂ ShortString (name :: args) (u :: us) := .cons hname hargs
    refine ⟨{ name := name, args := args }, x, hx, ⟨line, u :: us, ?_, ?_, ?_⟩, ?_⟩
    · show NumLine '*' (args.length + 1) line
      rw [hcount]
      exact hline
    · exact hstrings.imp fun _ _ h => h.1
    · rw [List.append_assoc, heq]
    · intro s hs
      obtain ⟨v, -, hv⟩ := Scanner.exists_spelling hstrings s hs
      exact hv.2

/-- A count that is not zero starts a frame. -/
theorem begins_count {ds : List Byte} {n : Nat} (hds : IsNumeral ds (n + 1))
    (hn : n + 1 < 2 ^ 64) : Scanner.Begins ShortFrame ('*'.toUInt8 :: ds ++ CRLF) := by
  have hframe := begins_frame (r := []) ⟨⟨ds, hds, rfl⟩, hn⟩ (begins_nil.sequence n)
  rw [List.append_nil] at hframe
  exact hframe

/-- So does a numeral of zero: it may be a leading zero. -/
theorem begins_zero {ds : List Byte} (hds : IsNumeral ds 0) :
    Scanner.Begins ShortFrame ('*'.toUInt8 :: ds) := by
  have hone : IsNumeral (ds ++ [49]) (0 + 1) := by
    refine ⟨by simp, fun b hb => ?_, ?_⟩
    · rcases List.mem_append.mp hb with hb | hb
      · exact hds.digits b hb
      · cases List.mem_singleton.mp hb
        decide
    · rw [value_append, hds.value_eq]
      rfl
  have hcount := begins_count hone (by decide)
  refine Scanner.Begins.of_append (y := [49] ++ CRLF) ?_
  rw [List.cons_append, ← List.append_assoc]
  exact hcount

/-- An unfinished count starts a frame, or it is rejected one byte later. -/
theorem scanCount_prompt (h : scanNum '*' l = .more) :
    Scanner.Begins ShortFrame l ∨ Scanner.Doomed (scanCommand A) 1 l := by
  have hone : Scanner.Begins ShortFrame ('*'.toUInt8 :: render 1 ++ CRLF) :=
    begins_count (isNumeral_render 1) (by decide)
  rcases scanNum_more h with rfl | rfl | ⟨ds, n, hds, hn, hl⟩
  · exact Or.inl (Scanner.Begins.of_append (l := []) hone)
  · exact Or.inl (Scanner.Begins.of_append (l := ['*'.toUInt8]) hone)
  · rcases hl with rfl | ⟨b, hb, rfl⟩
    · left
      cases n with
      | zero => exact begins_zero hds
      | succ n => exact Scanner.Begins.of_append (begins_count hds hn)
    · by_cases hcr : b = CR
      · subst hcr
        cases n with
        | succ n =>
          left
          refine Scanner.Begins.of_append (y := [LF]) ?_
          rw [List.append_assoc]
          exact begins_count hds hn
        | zero =>
          -- The next byte ends a count of zero, or it is wrong.
          right
          intro x hx
          obtain ⟨b', r, rfl⟩ := List.exists_cons_of_length_pos hx
          rw [List.append_assoc]
          show ∃ e, (scanNum '*' ('*'.toUInt8 :: ds ++ CR :: b' :: r)).bind _ = .fail e
          rw [scanNum_ended hds hn hb b' r]
          by_cases hend : CR = CR ∧ b' = LF
          · rw [if_pos hend, Verdict.bind_done, if_pos rfl]
            exact ⟨_, rfl⟩
          · rw [if_neg hend]
            exact ⟨_, rfl⟩
      · exact Or.inr ((scanNum_doomed hds hn hb hcr).andThen _)

/-- What is held as the start of a command is one, or is rejected three bytes later. The input
stays short, so that the counter of the inner loop does not matter. -/
theorem scanCommand_prompt (hA : A.Succeeds) (hl : l.length < 2 ^ 32)
    (h : scanCommand A l = .more) :
    Scanner.Begins ShortFrame l ∨
      ∀ x, 3 ≤ x.length → (l ++ x).length < 2 ^ 32 → ∃ e, scanCommand A (l ++ x) = .fail e := by
  rcases Verdict.bind_eq_more.mp h with hnum | ⟨argc, r, hnum, hrest⟩
  · exact (scanCount_prompt hnum).imp_right fun hdoomed x hx _ =>
      hdoomed x (Nat.le_trans (by decide) hx)
  · have hzero : argc ≠ 0 := by
      rintro rfl
      cases hrest
    obtain ⟨line, hline, rfl⟩ := scanNum_done_iff.mp hnum
    obtain ⟨n, rfl⟩ := Nat.exists_eq_succ_of_ne_zero hzero
    have hr : r.length < 2 ^ 32 := by
      rw [List.length_append] at hl
      omega
    have hstrings : (scanArgv A).times (n + 1) r = .more := by
      rw [scanCommand_eq_times hA hnum hzero hr] at h
      rcases Verdict.bind_eq_more.mp h with ht | ⟨ss, r', -, hdone⟩
      · exact ht
      · cases hdone
    -- The counter aside, the rest is a repetition of bulk strings.
    rcases scanArgv_prompt.times (stable_scanArgv A) (scanArgv_sound_short A) (n + 1) hstrings with
      hbegins | hdoomed
    · exact Or.inl (begins_frame hline hbegins)
    · right
      intro x hx hlong
      obtain ⟨e, he⟩ := hdoomed x hx
      have hnum' : scanNum '*' (line ++ r ++ x) = .done (n + 1) (r ++ x) :=
        (stable_scanNum '*').done x hnum
      have hr' : (r ++ x).length < 2 ^ 32 := by
        rw [List.append_assoc, List.length_append] at hlong
        omega
      refine ⟨e, ?_⟩
      rw [scanCommand_eq_times hA hnum' hzero hr', he]
      rfl

/-- The start of a short frame is never rejected. -/
theorem scanCommand_patient (hA : A.Succeeds) :
    Scanner.Patient (scanCommand A) ShortFrame (2 ^ 32) := by
  rintro l hl ⟨cmd, x, hx, ⟨line, us, hline, hus, heq⟩, hroom⟩
  have hstrings : List.Forall₂ ShortString (cmd.name :: cmd.args) us := by
    refine (List.forall₂_and_left (p := fun s : ByteString => s.length ≤ 2 ^ 64 - 3) _ _).mpr
      ⟨hroom, hus⟩ |>.imp fun _ _ h => ⟨h.2, h.1⟩
  rcases Scanner.inside_or_beyond heq with ⟨y, hy, rfl⟩ | ⟨y, rfl, hxy⟩
  · have hmore : scanNum '*' l = .more := scanNum_patient hline hy
    show (scanNum '*' l).bind _ = _
    rw [hmore]
    rfl
  · have hlen : y.length < 2 ^ 32 := by
      rw [List.length_append] at hl
      omega
    have hnum : scanNum '*' (line ++ y) = .done (cmd.args.length + 1) y :=
      scanNum_done_iff.mpr ⟨line, hline, rfl⟩
    have htimes : (scanArgv A).times (cmd.args.length + 1) y = .more :=
      (scanArgv_patient (2 ^ 32)).times (fun s u hu hlen => scanArgv_done hA hu hlen)
        (cmd.args.length + 1) hlen ⟨cmd.name :: cmd.args, x, hx, rfl, us, hstrings, hxy⟩
    rw [scanCommand_eq_times hA hnum (Nat.succ_ne_zero _) hlen, htimes]
    rfl

/-- A short frame that is complete is taken. -/
theorem scanCommand_done (hA : A.Succeeds) {cmd : RespCommand} {u : List Byte}
    (hu : ShortFrame cmd u) (hlen : u.length < 2 ^ 32) (r : List Byte) :
    scanCommand A (u ++ r) = .done cmd r := by
  refine scanCommand_complete (hu.1.countable hlen)
    ⟨hA.reserve _, fun s hs => hA.string _ ?_⟩ u hu.1 r
  have hle := hu.1.length_ge.2 s hs
  omega

/-! ### The verdicts of `parse` -/

/-- Where `drain` fails, `parse` throws an exception or reads outside the storage. -/
theorem parse_raises {B : ByteString} (hB : B.length < 2 ^ 64) {e : Abrupt}
    (h : (scanCommand A).drain B = .error e) : ∃ e', e'.Raised ∧ parse A B = .error e' :=
  ⟨e, (scanCommand_raises A).drain (consumes_scanCommand A) h, (parse_error_iff hB).mpr h⟩

/-- **Malformed and incomplete are right.** When the parser throws, nothing that starts as the
buffer does is a sequence of frames, and it throws on all of that. When it leaves some bytes,
these are the start of a frame, or it throws as soon as three more bytes are there. -/
theorem parse_verdicts (hA : A.Succeeds) (B : ByteString) (hB : B.length < 2 ^ 32) :
    (∀ e, parse A B = .error e →
      (∀ x cmds us, List.Forall₂ ShortFrame cmds us → B ++ x ≠ us.flatten) ∧
        ∀ x, (B ++ x).length < 2 ^ 64 → ∃ e', e'.Raised ∧ parse A (B ++ x) = .error e') ∧
      ∀ cmds n, parse A B = .ok (cmds, n) → n < B.length →
        Scanner.Begins ShortFrame (B.drop n) ∨
          ∀ x, 3 ≤ x.length → (B ++ x).length < 2 ^ 32 →
            ∃ e, e.Raised ∧ parse A (B ++ x) = .error e := by
  have hc := consumes_scanCommand A
  have hs := stable_scanCommand A
  constructor
  · intro e h
    have hdrain : (scanCommand A).drain B = .error e := (parse_error_iff (by omega)).mp h
    constructor
    · intro x cmds us hus heq
      obtain ⟨q, hq⟩ := Scanner.drain_ok_of_begins hc (scanCommand_patient hA) rfl
        (fun _ _ hu hlen => scanCommand_done hA hu hlen) hus hB heq
      rw [hdrain] at hq
      cases hq
    · intro x hx
      exact parse_raises hx (Scanner.drain_error_append hs hc hdrain x)
  · intro cmds n h _
    obtain ⟨hn, hdrain⟩ := (parse_ok_iff (by omega)).mp h
    have hlen : (B.drop n).length < 2 ^ 32 := by
      rw [List.length_drop]
      omega
    rcases scanCommand_prompt hA hlen (Scanner.drain_rest hc hdrain) with hbegins | hrejected
    · exact Or.inl hbegins
    · right
      intro x hx hlong
      have hshort : (B.drop n ++ x).length < 2 ^ 32 := by
        rw [List.length_append, List.length_drop]
        rw [List.length_append] at hlong
        omega
      obtain ⟨e, he⟩ := hrejected x hx hshort
      refine parse_raises (e := e) (by omega) ?_
      rw [Scanner.drain_append_of_ok hs hc hdrain, Scanner.drain_fail he]
      rfl

/-- With two bytes more, the largest length is still held as incomplete. -/
example : parse .ample (bytesOf "*1\r\n$18446744073709551615\r\n") = .ok ([], 0) := by
  decide +kernel

/-- A `PING` and a wrong letter. -/
def wrongLetter : ByteString := pingFrame ++ bytesOf "+"

/-- A `PING` with the largest length of all, without its line end. -/
def largestLength : ByteString := bytesOf "*1\r\n$18446744073709551615"

/-- The two verdicts on two buffers. The one with a wrong letter is refused, and no continuation
makes it requests. The one with the largest length waits for more, and then either it begins a
request or three more bytes raise an exception. -/
theorem parse_verdicts_wrong :
    (∀ x cmds us, List.Forall₂ ShortFrame cmds us → wrongLetter ++ x ≠ us.flatten) ∧
      parse .ample largestLength = .ok ([], 0) ∧
      (Scanner.Begins ShortFrame largestLength ∨ ∀ x, 3 ≤ x.length →
        (largestLength ++ x).length < 2 ^ 32 →
          ∃ e, e.Raised ∧ parse .ample (largestLength ++ x) = .error e) := by
  have hwrong : parse .ample wrongLetter = .error (.error "expect *") := by decide +kernel
  have hlargest : parse .ample largestLength = .ok ([], 0) := by decide +kernel
  exact ⟨((parse_verdicts Allocator.ample_succeeds wrongLetter (by decide +kernel)).1 _ hwrong).1,
    hlargest, (parse_verdicts Allocator.ample_succeeds largestLength (by decide +kernel)).2 _ _
      hlargest (by decide +kernel)⟩

end VectorEngine.Resp
