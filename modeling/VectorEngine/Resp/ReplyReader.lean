import VectorEngine.Basic
import VectorEngine.Numeral.Decimal
import VectorEngine.Stream.Scanner

/-!
# `VectorEngine.Resp.ReplyReader`: how a client reads replies

The RESP reply grammar, as a scanner. A simple string and an error are lines up to the first
line end, an integer is a line with a number, a bulk string announces its length, and an
array announces the number of replies in it. `splitReply` takes the bytes of one complete
reply off the front.

This is the client's side. Nothing here is translated from the engine.
-/

set_option autoImplicit false

namespace VectorEngine.Resp

open VectorEngine.Stream
open VectorEngine.Numeral

/-- Why no reply starts at some bytes. The reader is not part of the source. It is the client that
the results about replies need, and follows the format that the builder writes. -/
inductive ReplyError where
  | badType
  | badNumber
  | badEnd
  | tooDeep
  deriving DecidableEq, Repr

namespace ReplyReader

/-- The text up to the first line end. -/
def line : Scanner ReplyError Byte (List Byte)
  | [] => .more
  | [_] => .more
  | b₁ :: b₂ :: l =>
    if b₁ = CR ∧ b₂ = LF then .done [] l
    else (line (b₂ :: l)).bind fun text r => .done (b₁ :: text) r

/-- A decimal number with an optional minus sign. -/
def readInt : List Byte → Option Int
  | [] => none
  | b :: ds =>
    if b = '-'.toUInt8 then
      if ds ≠ [] ∧ ds.all isDigit then some (-value ds) else none
    else if (b :: ds).all isDigit then some (value (b :: ds)) else none

/-- A line with a number. -/
def number : Scanner ReplyError Byte Int :=
  line.andThen fun text =>
    match readInt text with
    | some n => Scanner.succeed n
    | none => Scanner.reject .badNumber

/-- `n` bytes and the line end. -/
def payload (n : Nat) : Scanner ReplyError Byte Unit := fun l =>
  if l.length < n + 2 then .more
  else if (l.drop n).take 2 = CRLF then .done () (l.drop (n + 2))
  else .fail .badEnd

/-- One reply, with arrays nested at most `depth` deep. -/
def reply : Nat → Scanner ReplyError Byte Unit
  | 0 => Scanner.reject .tooDeep
  | depth + 1 => fun l =>
    match l with
    | [] => .more
    | b :: l =>
      if b = '+'.toUInt8 ∨ b = '-'.toUInt8 then
        (line.andThen fun _ => Scanner.succeed ()) l
      else if b = ':'.toUInt8 then
        (number.andThen fun _ => Scanner.succeed ()) l
      else if b = '$'.toUInt8 then
        (number.andThen fun n =>
          if n = -1 then Scanner.succeed ()
          else if n < 0 then Scanner.reject .badNumber
          else payload n.toNat) l
      else if b = '*'.toUInt8 then
        (number.andThen fun n =>
          if n = -1 then Scanner.succeed ()
          else if n < 0 then Scanner.reject .badNumber
          else ((reply depth).times n.toNat).andThen fun _ => Scanner.succeed ()) l
      else .fail .badType

end ReplyReader

/-- The bytes of one complete reply. An array cannot be nested deeper than the input is
long. -/
def splitReply : Scanner ReplyError Byte (List Byte) := fun l =>
  (ReplyReader.reply (l.length + 1) l).bind fun _ r => .done (l.take (l.length - r.length)) r

namespace ReplyReader

/-! ### Lines -/

/-- A text without a carriage return has no line end in it. -/
theorem not_crlf_infix_of_CR {text : List Byte} (h : CR ∉ text) : ¬ CRLF <:+: text := by
  intro hcrlf
  exact h (hcrlf.subset (by simp [CRLF]))

/-- A line is the text before the first line end. -/
theorem line_done_iff {l text r : List Byte} :
    line l = .done text r ↔ l = text ++ (CRLF ++ r) ∧ ¬ CRLF <:+: text := by
  induction l using line.induct generalizing text with
  | case1 =>
    constructor
    · intro h
      cases h
    · rintro ⟨h, -⟩
      cases text <;> cases h
  | case2 b =>
    constructor
    · intro h
      cases h
    · rintro ⟨h, -⟩
      -- One byte is too short for a text and a line end.
      have hlen := congrArg List.length h
      simp [CRLF] at hlen
      omega
  | case3 b₁ b₂ l hcrlf =>
    rw [line, if_pos hcrlf]
    obtain ⟨rfl, rfl⟩ := hcrlf
    constructor
    · intro h
      cases h
      exact ⟨rfl, not_crlf_infix_of_CR (by simp)⟩
    · rintro ⟨h, hno⟩
      -- A text that does not end here would start with the line end.
      match text with
      | [] =>
        cases h
        rfl
      | [c] =>
        cases h
      | c₁ :: c₂ :: text =>
        cases h
        exact absurd ⟨[], text, rfl⟩ hno
  | case4 b₁ b₂ l hcrlf ih =>
    rw [line, if_neg hcrlf]
    constructor
    · intro h
      obtain ⟨text', r', hline, h⟩ := Verdict.bind_eq_done.mp h
      cases h
      obtain ⟨hl, hno⟩ := ih.mp hline
      refine ⟨by rw [hl]; rfl, ?_⟩
      -- A line end inside `b₁ :: text'` is at its front, where `hcrlf` excludes it, or further on.
      rw [List.infix_cons_iff, not_or]
      refine ⟨?_, hno⟩
      rintro ⟨t, ht⟩
      cases ht
      cases hl
      exact hcrlf ⟨rfl, rfl⟩
    · rintro ⟨h, hno⟩
      match text with
      | [] =>
        cases h
        exact absurd ⟨rfl, rfl⟩ hcrlf
      | c :: text =>
        rw [List.cons_append, List.cons.injEq] at h
        obtain ⟨rfl, h⟩ := h
        have htail : ¬ CRLF <:+: text := fun hin => hno (List.infix_cons hin)
        rw [ih.mpr ⟨h, htail⟩]
        rfl

/-! ### Replies take bytes off the front -/

/-- A line is at least its line end. -/
theorem consumes_line : line.Consumes := by
  intro l text r h
  obtain ⟨rfl, -⟩ := line_done_iff.mp h
  exact ⟨text ++ CRLF, by simp [CRLF], by simp⟩

/-- A number is a line. -/
theorem consumes_number : number.Consumes := by
  refine consumes_line.andThen fun text => ?_
  split
  · exact Scanner.suffixes_succeed _
  · exact Scanner.suffixes_reject _

/-- What is left behind a payload is an end of the input. -/
theorem suffixes_payload (n : Nat) : (payload n).Suffixes := by
  intro l a r h
  unfold payload at h
  split at h
  · cases h
  · split at h
    · cases h
      exact ⟨l.take (n + 2), (List.take_append_drop (n + 2) l).symm⟩
    · cases h

/-- A reply is at least its first line, whatever its type. -/
theorem consumes_reply (depth : Nat) : (reply depth).Consumes := by
  induction depth with
  | zero =>
    intro l a r h
    cases h
  | succ depth ih =>
    intro l a r h
    match l with
    | [] => cases h
    | b :: l =>
      -- Whatever the type letter is, what follows it leaves a suffix.
      have hsuffix : ∀ p : Scanner ReplyError Byte Unit, p.Suffixes → p l = .done a r →
          ∃ u, u ≠ [] ∧ b :: l = u ++ r := by
        intro p hp hl
        obtain ⟨u, rfl⟩ := hp hl
        exact ⟨b :: u, by simp, rfl⟩
      simp only [reply] at h
      split at h
      · exact hsuffix _ (consumes_line.suffixes.andThen fun _ => Scanner.suffixes_succeed _) h
      · split at h
        · exact hsuffix _
            (consumes_number.suffixes.andThen fun _ => Scanner.suffixes_succeed _) h
        · split at h
          · refine hsuffix _ (consumes_number.suffixes.andThen fun n => ?_) h
            split
            · exact Scanner.suffixes_succeed _
            · split
              · exact Scanner.suffixes_reject _
              · exact suffixes_payload _
          · split at h
            · refine hsuffix _ (consumes_number.suffixes.andThen fun n => ?_) h
              split
              · exact Scanner.suffixes_succeed _
              · split
                · exact Scanner.suffixes_reject _
                · exact (ih.suffixes_times _).andThen fun _ => Scanner.suffixes_succeed _
            · cases h

end ReplyReader

open ReplyReader

/-- The bytes of a reply are those that were taken. -/
theorem splitReply_done {l a r : List Byte} (h : splitReply l = .done a r) :
    l = a ++ r ∧ ∃ depth, ReplyReader.reply (depth + 1) l = .done () r := by
  obtain ⟨⟨⟩, r', hreply, h'⟩ := Verdict.bind_eq_done.mp h
  cases h'
  obtain ⟨u, -, rfl⟩ := consumes_reply _ hreply
  refine ⟨?_, _, hreply⟩
  have hlen : (u ++ r).length - r.length = u.length := by
    rw [List.length_append]
    omega
  rw [hlen, List.take_left]

/-- The reader that takes a reply apart takes at least a line as well. -/
theorem consumes_splitReply : splitReply.Consumes := by
  intro l a r h
  obtain ⟨-, depth, hreply⟩ := splitReply_done h
  exact consumes_reply _ hreply

/-- A line with no line end inside is taken as one reply. -/
theorem splitReply_line {b : Byte} (hb : b = '+'.toUInt8 ∨ b = '-'.toUInt8)
    {text : List Byte} (htext : ¬ CRLF <:+: text) (r : List Byte) :
    splitReply (b :: text ++ CRLF ++ r) = .done (b :: text ++ CRLF) r := by
  have hline : line (text ++ (CRLF ++ r)) = .done text r := line_done_iff.mpr ⟨rfl, htext⟩
  have happend : b :: text ++ CRLF ++ r = b :: (text ++ (CRLF ++ r)) := by simp
  -- A line needs no nesting, so every depth will do.
  have hreply : ∀ depth, ReplyReader.reply (depth + 1) (b :: text ++ CRLF ++ r)
      = .done () r := by
    intro depth
    rw [happend]
    simp only [ReplyReader.reply]
    rw [if_pos hb]
    show (line (text ++ (CRLF ++ r))).bind _ = _
    rw [hline]
    rfl
  unfold splitReply
  rw [hreply, Verdict.bind_done]
  congr 1
  have hlen : (b :: text ++ CRLF ++ r).length - r.length = (b :: text ++ CRLF).length := by
    rw [List.length_append]
    omega
  rw [hlen, List.take_left]

/-- If a line is taken as one reply, then there is no line end inside. -/
theorem not_crlf_infix_of_splitReply {b : Byte} (hb : b = '+'.toUInt8 ∨ b = '-'.toUInt8)
    {text r : List Byte}
    (h : splitReply (b :: text ++ CRLF ++ r) = .done (b :: text ++ CRLF) r) :
    ¬ CRLF <:+: text := by
  obtain ⟨-, depth, hreply⟩ := splitReply_done h
  have happend : b :: text ++ CRLF ++ r = b :: (text ++ (CRLF ++ r)) := by simp
  rw [happend] at hreply
  simp only [ReplyReader.reply] at hreply
  rw [if_pos hb] at hreply
  obtain ⟨text', r', hline, hdone⟩ := Verdict.bind_eq_done.mp hreply
  cases hdone
  obtain ⟨heq, hno⟩ := line_done_iff.mp hline
  rwa [List.append_cancel_right heq]

end VectorEngine.Resp
