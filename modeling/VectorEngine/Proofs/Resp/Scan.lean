import Mathlib.Data.List.TakeWhile
import VectorEngine.Resp.Parser
import VectorEngine.Stream.Scanner

/-!
# `VectorEngine.Proofs.Resp.Scan`: the parser as a scanner

Positions and sizes drop out here. `scanNum`, `scanArgv`, `scanArgs` and `scanCommand` say
what `parseNum`, `parseArgv`, `parseArgs` and `parseCommand` answer, as scanners of the
bytes from the view on.
-/

set_option autoImplicit false

namespace VectorEngine.Resp

open VectorEngine.Stream
open VectorEngine.Numeral

/-! ### The scanners -/

/-- What `parseNum` answers on the bytes of its view. -/
def scanNum (c : Char) : Scanner Abrupt Byte Nat
  | [] => .more
  | b :: l =>
    if b ≠ c.toUInt8 then .fail (.error ("expect " ++ c.toString))
    else if l = [] then .more
    else if l.takeWhile isDigit = [] ∨ 2 ^ 64 ≤ value (l.takeWhile isDigit) then
      .fail (.error "expect a positive integer")
    else
      match l.dropWhile isDigit with
      | b₁ :: b₂ :: r =>
        if b₁ = CR ∧ b₂ = LF then .done (value (l.takeWhile isDigit)) r
        else .fail (.error "expect '\\r\\n'")
      | _ => .more

/-- What `parseArgv` answers behind the length line. The two lengths at the top of the
range wrap in `len + 2`, so that the length test lets them through. -/
def scanPayload (A : Allocator) (len : Nat) : Scanner Abrupt Byte ByteString := fun l =>
  if len = 2 ^ 64 - 1 then
    if l = [] then .more else .fail (.error "expect '\\r\\n'")
  else if len = 2 ^ 64 - 2 then
    match A.string len with
    | some e => .fail (.std e)
    | none => .fail .wildRead
  else if l.length < len + 2 then .more
  else if (l.drop len).take 2 = CRLF then
    match A.string len with
    | some e => .fail (.std e)
    | none => .done (l.take len) (l.drop (len + 2))
  else .fail (.error "expect '\\r\\n'")

/-- What `parseArgv` answers. -/
def scanArgv (A : Allocator) : Scanner Abrupt Byte ByteString :=
  (scanNum '$').andThen (scanPayload A)

/-- What the inner loop of `parse` collects. A count that the 32-bit counter cannot reach
makes the loop go on for ever. -/
def scanArgs (A : Allocator) (count : Nat) : Scanner Abrupt Byte RespArgs :=
  if count < 2 ^ 32 then (scanArgv A).times count else (scanArgv A).endless

/-- What `args.reserve(n)` answers. -/
def scanReserve (A : Allocator) (n : Nat) : Scanner Abrupt Byte Unit := fun l =>
  match A.reserve n with
  | some e => .fail (.std e)
  | none => .done () l

/-- What one round of the outer loop of `parse` answers. -/
def scanCommand (A : Allocator) : Scanner Abrupt Byte RespCommand :=
  (scanNum '*').andThen fun argc =>
    if argc = 0 then Scanner.reject (.error "invalid request: zero argument")
    else
      (scanArgv A).andThen fun name =>
        (scanReserve A (argc - 1)).andThen fun _ =>
          (scanArgs A (argc - 1)).andThen fun args =>
            Scanner.succeed { name := name, args := args }

/-! ### The length line -/

/-- `c`, a numeral below `2 ^ 64`, and the line end. -/
structure NumLine (c : Char) (n : Nat) (u : List Byte) : Prop where
  spelt : ∃ ds, IsNumeral ds n ∧ u = c.toUInt8 :: ds ++ CRLF
  lt : n < 2 ^ 64

/-- The byte behind a number is not taken for one of its digits. -/
theorem isDigit_CR : isDigit CR = false := by decide

/-- The scanner takes exactly the length lines. -/
theorem scanNum_done_iff {c : Char} {l r : List Byte} {n : Nat} :
    scanNum c l = .done n r ↔ ∃ u, NumLine c n u ∧ l = u ++ r := by
  constructor
  · intro h
    match l with
    | [] => cases h
    | b :: l =>
      simp only [scanNum] at h
      split at h
      · cases h
      · rename_i hb
        split at h
        · cases h
        · split at h
          · cases h
          · rename_i hrun
            split at h
            · rename_i b₁ b₂ r' hdrop
              split at h
              · rename_i hcrlf
                obtain ⟨rfl, rfl⟩ := hcrlf
                cases h
                -- The only branch that takes something: the letter, the whole run of digits, the line end.
                rw [not_or, Nat.not_le] at hrun
                refine ⟨b :: l.takeWhile isDigit ++ CRLF,
                  ⟨⟨l.takeWhile isDigit, ?_, ?_⟩, hrun.2⟩, ?_⟩
                · exact ⟨hrun.1, fun _ => List.mem_takeWhile_imp, rfl⟩
                · rw [Decidable.not_not.mp hb]
                · have hsplit := List.takeWhile_append_dropWhile (p := isDigit) (l := l)
                  rw [hdrop] at hsplit
                  simpa [CRLF] using hsplit.symm
              · cases h
            · cases h
  · rintro ⟨u, ⟨⟨ds, hds, rfl⟩, hlt⟩, rfl⟩
    -- The run of digits ends at the `CR`, which is no digit.
    have htake : (ds ++ CR :: LF :: r).takeWhile isDigit = ds :=
      takeWhile_digits hds.digits isDigit_CR (LF :: r)
    have hdrop : (ds ++ CR :: LF :: r).dropWhile isDigit = CR :: LF :: r :=
      dropWhile_digits hds.digits isDigit_CR (LF :: r)
    have hl : c.toUInt8 :: ds ++ CRLF ++ r = c.toUInt8 :: (ds ++ CR :: LF :: r) := by
      simp [CRLF]
    rw [hl]
    simpa [scanNum, htake, hdrop, hds.value_eq, hds.ne_nil] using hlt

/-- Where `std::from_chars` finds no number, it finds none when more bytes have arrived: a
longer run of digits does not help. -/
theorem noNumber_append {l : List Byte} (hne : l ≠ []) (x : List Byte)
    (h : l.takeWhile isDigit = [] ∨ 2 ^ 64 ≤ value (l.takeWhile isDigit)) :
    (l ++ x).takeWhile isDigit = [] ∨ 2 ^ 64 ≤ value ((l ++ x).takeWhile isDigit) := by
  rcases h with hnil | hbig
  · left
    have hended : l.dropWhile isDigit ≠ [] := by
      intro hd
      have hsplit := List.takeWhile_append_dropWhile (p := isDigit) (l := l)
      rw [hnil, hd] at hsplit
      exact hne hsplit.symm
    rw [takeWhile_append_of_ended hended, hnil]
  · right
    obtain ⟨es, hes⟩ := exists_takeWhile_append l x
    rw [hes]
    exact Nat.le_trans hbig (value_le_value_append _ _)

/-- More input does not change what was made of a number that was read, or refused. -/
theorem stable_scanNum (c : Char) : (scanNum c).Stable where
  done {l n r} x h := by
    obtain ⟨u, hu, rfl⟩ := scanNum_done_iff.mp h
    exact scanNum_done_iff.mpr ⟨u, hu, by rw [List.append_assoc]⟩
  fail {l e} x h := by
    match l with
    | [] => cases h
    | b :: l =>
      simp only [scanNum, List.cons_append] at h ⊢
      split at h
      · rename_i hb
        rw [if_pos hb]
        exact h
      · rename_i hb
        rw [if_neg hb]
        split at h
        · cases h
        · rename_i hne
          rw [if_neg (by simp [hne])]
          split at h
          · rename_i hrun
            rw [if_pos (noNumber_append hne x hrun)]
            exact h
          · rename_i hrun
            split at h
            -- Two bytes behind the digits: the run has ended, and what arrives is behind them.
            · rename_i b₁ b₂ r hdrop
              have hended : l.dropWhile isDigit ≠ [] := by
                rw [hdrop]
                simp
              rw [takeWhile_append_of_ended hended, if_neg hrun,
                dropWhile_append_of_ended hended, hdrop]
              split at h
              · cases h
              · rename_i hcrlf
                simp only [List.cons_append]
                rw [if_neg hcrlf]
                exact h
            · cases h

/-- A number that was read is at least three bytes shorter in the rest: the letter and the line
end. -/
theorem consumes_scanNum (c : Char) : (scanNum c).Consumes := by
  intro l n r h
  obtain ⟨u, ⟨⟨ds, -, rfl⟩, -⟩, rfl⟩ := scanNum_done_iff.mp h
  exact ⟨_, by simp, rfl⟩

/-! ### Bulk strings -/

/-- `'$'`, the length of `s`, the line end, `s`, and the line end. -/
def BulkString (s u : List Byte) : Prop :=
  ∃ h, NumLine '$' s.length h ∧ u = h ++ (s ++ CRLF)

/-- `len + 2` leaves the range of `std::size_t`. -/
def SumWraps (len : Nat) : Prop := len = 2 ^ 64 - 1 ∨ len = 2 ^ 64 - 2

/-- The input before, at and behind the line end of a payload. -/
theorem payload_split {l : List Byte} {len : Nat} (h : (l.drop len).take 2 = CRLF) :
    l = l.take len ++ (CRLF ++ l.drop (len + 2)) := by
  have hrest : (l.drop len).take 2 ++ (l.drop len).drop 2 = l.drop len :=
    List.take_append_drop 2 (l.drop len)
  rw [h, List.drop_drop] at hrest
  rw [hrest, List.take_append_drop]

/-- The scanner on a complete payload: it is taken if its storage is granted. -/
theorem scanPayload_append {A : Allocator} {s : List Byte} (hlen : ¬ SumWraps s.length)
    (r : List Byte) :
    scanPayload A s.length (s ++ (CRLF ++ r)) =
      match A.string s.length with
      | some e => .fail (.std e)
      | none => .done s r := by
  obtain ⟨h₁, h₂⟩ := not_or.mp hlen
  have hcrlf : ((s ++ (CRLF ++ r)).drop s.length).take 2 = CRLF := by
    rw [List.drop_left]
    rfl
  have htake : (s ++ (CRLF ++ r)).take s.length = s := List.take_left
  have hdrop : (s ++ (CRLF ++ r)).drop (s.length + 2) = r := by
    rw [← List.drop_drop, List.drop_left]
    rfl
  have hlong : ¬ (s ++ (CRLF ++ r)).length < s.length + 2 := by
    simp [CRLF]
  unfold scanPayload
  rw [if_neg h₁, if_neg h₂, if_neg hlong, if_pos hcrlf, htake, hdrop]

/-- A payload is taken exactly when it has the announced length, its storage is granted,
and the line end follows. -/
theorem scanPayload_done_iff {A : Allocator} {len : Nat} {l r s : List Byte} :
    scanPayload A len l = .done s r ↔
      s.length = len ∧ ¬ SumWraps len ∧ A.string len = none ∧ l = s ++ (CRLF ++ r) := by
  constructor
  · intro h
    unfold scanPayload at h
    split at h
    · split at h <;> cases h
    · rename_i h₁
      split at h
      · split at h <;> cases h
      · rename_i h₂
        split at h
        · cases h
        · rename_i hlen
          split at h
          -- The only branch that takes something.
          · rename_i hcrlf
            split at h
            · cases h
            · rename_i hstring
              cases h
              refine ⟨?_, not_or.mpr ⟨h₁, h₂⟩, hstring, payload_split hcrlf⟩
              rw [List.length_take]
              omega
          · cases h
  · rintro ⟨rfl, hlen, hstring, rfl⟩
    rw [scanPayload_append hlen, hstring]

/-- More input does not change what was made of an argument. In the branch where `len + 2` wraps
this holds for another reason: whatever follows, the read is wild. -/
theorem stable_scanPayload (A : Allocator) (len : Nat) : (scanPayload A len).Stable where
  done {l s r} x h := by
    obtain ⟨hlen, hwrap, hstring, rfl⟩ := scanPayload_done_iff.mp h
    exact scanPayload_done_iff.mpr ⟨hlen, hwrap, hstring, by simp⟩
  fail {l e} x h := by
    unfold scanPayload at h ⊢
    split at h
    · rename_i h₁
      rw [if_pos h₁]
      split at h
      · cases h
      · rename_i hne
        rw [if_neg (by simp [hne])]
        exact h
    · rename_i h₁
      rw [if_neg h₁]
      split at h
      · rename_i h₂
        rw [if_pos h₂]
        exact h
      · rename_i h₂
        rw [if_neg h₂]
        split at h
        · cases h
        · rename_i hlen
          -- The two bytes behind the payload are there already.
          have hdrop : ((l ++ x).drop len).take 2 = (l.drop len).take 2 := by
            rw [List.drop_append_of_le_length (by omega),
              List.take_append_of_le_length (by rw [List.length_drop]; omega)]
          rw [if_neg (by rw [List.length_append]; omega), hdrop]
          split at h
          · rename_i hcrlf
            rw [if_pos hcrlf]
            split at h
            · exact h
            · cases h
          · rename_i hcrlf
            rw [if_neg hcrlf]
            exact h

/-- What is left behind an argument is an end of the input, so that nothing is read twice. -/
theorem suffixes_scanPayload (A : Allocator) (len : Nat) : (scanPayload A len).Suffixes := by
  intro l s r h
  obtain ⟨-, -, -, rfl⟩ := scanPayload_done_iff.mp h
  exact ⟨s ++ CRLF, by simp⟩

/-- A length and a payload, each of them stable. -/
theorem stable_scanArgv (A : Allocator) : (scanArgv A).Stable :=
  (stable_scanNum '$').andThen (stable_scanPayload A)

/-- An argument is at least its length line, so that the rest is shorter. -/
theorem consumes_scanArgv (A : Allocator) : (scanArgv A).Consumes :=
  (consumes_scanNum '$').andThen (suffixes_scanPayload A)

/-- An argument is taken exactly when a bulk string is at the front, its length line does
not wrap the length test, and its storage is granted. -/
theorem scanArgv_done_iff {A : Allocator} {l r s : List Byte} :
    scanArgv A l = .done s r ↔
      ∃ u, BulkString s u ∧ ¬ SumWraps s.length ∧ A.string s.length = none ∧
        l = u ++ r := by
  constructor
  · intro h
    obtain ⟨len, r', hnum, hpay⟩ := Verdict.bind_eq_done.mp h
    obtain ⟨u, hu, rfl⟩ := scanNum_done_iff.mp hnum
    obtain ⟨rfl, hwrap, hstring, rfl⟩ := scanPayload_done_iff.mp hpay
    exact ⟨u ++ (s ++ CRLF), ⟨u, hu, rfl⟩, hwrap, hstring, by simp⟩
  · rintro ⟨u, ⟨h, hh, rfl⟩, hwrap, hstring, rfl⟩
    have hnum : scanNum '$' (h ++ (s ++ (CRLF ++ r))) = .done s.length (s ++ (CRLF ++ r)) :=
      scanNum_done_iff.mpr ⟨h, hh, rfl⟩
    have hpay : scanPayload A s.length (s ++ (CRLF ++ r)) = .done s r :=
      scanPayload_done_iff.mpr ⟨rfl, hwrap, hstring, rfl⟩
    show (scanNum '$' _).bind (scanPayload A) = _
    rw [List.append_assoc, List.append_assoc, hnum]
    exact hpay

/-! ### Commands -/

/-- The arguments one after another are stable, since each of them is. -/
theorem stable_scanArgs (A : Allocator) (count : Nat) : (scanArgs A count).Stable := by
  unfold scanArgs
  split
  · exact (stable_scanArgv A).times count
  · exact (stable_scanArgv A).endless (consumes_scanArgv A)

/-- What is left behind the arguments is an end of the input. -/
theorem suffixes_scanArgs (A : Allocator) (count : Nat) : (scanArgs A count).Suffixes := by
  unfold scanArgs
  split
  · exact (consumes_scanArgv A).suffixes_times count
  -- A loop that never ends never takes its arguments.
  · intro l args r h
    exact absurd h (Scanner.endless_ne_done _ _ _)

/-- Whether `reserve` is granted does not depend on the input. -/
theorem stable_scanReserve (A : Allocator) (n : Nat) : (scanReserve A n).Stable where
  done {l a r} x h := by
    unfold scanReserve at h ⊢
    split at h
    · cases h
    · cases h
      rfl
  fail {l e} x h := by
    unfold scanReserve at h ⊢
    split at h
    · exact h
    · cases h

/-- `reserve` consumes nothing. -/
theorem suffixes_scanReserve (A : Allocator) (n : Nat) : (scanReserve A n).Suffixes := by
  intro l a r h
  unfold scanReserve at h
  split at h
  · cases h
  · cases h
    exact ⟨[], rfl⟩

/-- A command with a complete name, when storage for its arguments is granted: the rest is up to
the inner loop. -/
theorem scanCommand_of_name {A : Allocator} {l r r₁ : List Byte} {argc : Nat}
    {name : ByteString} (hargc : scanNum '*' l = .done argc r) (hzero : argc ≠ 0)
    (hname : scanArgv A r = .done name r₁) (hreserve : A.reserve (argc - 1) = none) :
    scanCommand A l
      = (scanArgs A (argc - 1) r₁).bind fun args r => .done { name := name, args := args } r := by
  show (scanNum '*' l).bind _ = _
  rw [hargc, Verdict.bind_done, if_neg hzero]
  show (scanArgv A r).bind _ = _
  rw [hname]
  show (scanReserve A (argc - 1) r₁).bind _ = _
  unfold scanReserve
  rw [hreserve]
  rfl

/-- More input does not change what was made of a command that was complete, or was refused. The
parser may therefore be called again on the same bytes as often as the chunks come in. -/
theorem stable_scanCommand (A : Allocator) : (scanCommand A).Stable := by
  refine (stable_scanNum '*').andThen fun argc => ?_
  split
  · exact Scanner.stable_reject _
  · refine (stable_scanArgv A).andThen fun name => ?_
    refine (stable_scanReserve A _).andThen fun _ => ?_
    exact (stable_scanArgs A _).andThen fun args => Scanner.stable_succeed _

/-- A command is at least the line of its count, so that the loop of `parse` ends. -/
theorem consumes_scanCommand (A : Allocator) : (scanCommand A).Consumes := by
  refine (consumes_scanNum '*').andThen fun argc => ?_
  split
  · exact Scanner.suffixes_reject _
  · have hargs : ∀ name, Scanner.Suffixes ((scanArgs A (argc - 1)).andThen fun args =>
        (Scanner.succeed { name := name, args := args } : Scanner Abrupt Byte RespCommand)) := by
      intro name
      exact (suffixes_scanArgs A _).andThen fun args => Scanner.suffixes_succeed _
    have hreserve : ∀ name, Scanner.Suffixes ((scanReserve A (argc - 1)).andThen fun _ =>
        (scanArgs A (argc - 1)).andThen fun args =>
          (Scanner.succeed { name := name, args := args } : Scanner Abrupt Byte RespCommand)) :=
      fun name => (suffixes_scanReserve A _).andThen fun _ => hargs name
    exact ((consumes_scanArgv A).andThen hreserve).suffixes

end VectorEngine.Resp
