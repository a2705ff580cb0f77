import VectorEngine.Resp.Builder
import VectorEngine.Stream.Scanner

/-!
# `VectorEngine.Proofs.Resp.Decodable`: replies can be told apart

A `Token` is one call of an append function of the builder. Its bytes are a header and,
behind the header of a bulk string, a payload. A header is a type letter, a text without
`'\r'`, and the line end, so the front of any bytes has at most one header. The text of a bulk
string is the length of the payload, and the text of nil is no length.

`reply_encoding_decodable` says that the bytes determine the tokens: `append_ok` is the
simple string `OK`, and nothing else is confused.
-/

set_option autoImplicit false

namespace VectorEngine.Resp

open VectorEngine.Stream
open VectorEngine.Numeral

/-- A text that fits in a line. -/
def LineText : Type := { s : ByteString // CR ∉ s ∧ LF ∉ s }

/-- A call of an append function of `RespReplyBuilder`. The arguments carry what the program keeps
to: a status line and an error have no line break in their text. -/
inductive Token where
  | ok
  | simpleString (str : LineText)
  | error (err : LineText)
  | integer (num : Int)
  | bulkString (str : ByteString)
  | nil
  | array (size : Int)

namespace Token

/-- The call. -/
def append (b : RespReplyBuilder) : Token → RespReplyBuilder
  | .ok => b.appendOk
  | .simpleString str => b.appendSimpleString str.val
  | .error err => b.appendError err.val
  | .integer num => b.appendInteger num
  | .bulkString str => b.appendBulkString str
  | .nil => b.appendNil
  | .array size => b.appendArray size

/-- The bytes that the call appends. -/
def bytes (t : Token) : ByteString := (t.append RespReplyBuilder.init).data

/-- The data of a builder after calls. -/
def dataOf (ts : List Token) : ByteString :=
  (ts.foldl (fun b t => t.append b) RespReplyBuilder.init).data

/-- `OK` -/
def okText : LineText := ⟨bytesOf "OK", by decide⟩

/-- The token, with `append_ok` read as a simple string. -/
def identify : Token → Token
  | .ok => .simpleString okText
  | t => t

/-! ### Headers and payloads -/

/-- The type letter of the header. -/
def type : Token → Byte
  | .ok => '+'.toUInt8
  | .simpleString _ => '+'.toUInt8
  | .error _ => '-'.toUInt8
  | .integer _ => ':'.toUInt8
  | .bulkString _ => '$'.toUInt8
  | .nil => '$'.toUInt8
  | .array _ => '*'.toUInt8

/-- The text of the header. -/
def text : Token → ByteString
  | .ok => bytesOf "OK"
  | .simpleString str => str.val
  | .error err => err.val
  | .integer num => toString num
  | .bulkString str => render str.length
  | .nil => bytesOf "-1"
  | .array size => toString size

/-- What follows the header. -/
def payload : Token → ByteString
  | .bulkString str => str ++ CRLF
  | _ => []

/-- A call appends a header and a payload. -/
theorem data_append (b : RespReplyBuilder) (t : Token) :
    (t.append b).data = b.data ++ (t.type :: t.text ++ CRLF ++ t.payload) := by
  cases t with
  | ok => rfl
  | nil => rfl
  | bulkString str => exact RespReplyBuilder.buffer_appendBulkString b str
  | simpleString str => exact congrArg (b.data ++ ·) (List.append_nil _).symm
  | error err => exact congrArg (b.data ++ ·) (List.append_nil _).symm
  | integer num => exact congrArg (b.data ++ ·) (List.append_nil _).symm
  | array size => exact congrArg (b.data ++ ·) (List.append_nil _).symm

/-- What the builder writes for a token: the type, the text of its line, the line end and the
payload, if it has one. -/
theorem bytes_eq (t : Token) : t.bytes = t.type :: t.text ++ CRLF ++ t.payload :=
  data_append RespReplyBuilder.init t

/-- The string of the builder is the strings of its tokens one behind the other, so that it can be
decoded one token at a time. -/
theorem dataOf_eq (ts : List Token) : dataOf ts = (ts.map bytes).flatten := by
  have key : ∀ (ts : List Token) (b : RespReplyBuilder),
      (ts.foldl (fun b t => t.append b) b).data = b.data ++ (ts.map bytes).flatten := by
    intro ts
    induction ts with
    | nil => intro b; exact (List.append_nil _).symm
    | cons t ts ih =>
      intro b
      rw [List.foldl_cons, ih, data_append, ← bytes_eq, List.map_cons, List.flatten_cons,
        List.append_assoc]
  exact key ts RespReplyBuilder.init

/-- `identify` only identifies what cannot be told apart: it does not change a byte. -/
theorem bytes_identify (t : Token) : t.identify.bytes = t.bytes := by
  cases t <;> rfl

/-! ### The texts of headers -/

/-- Digits are not a carriage return, so that the line of a length ends where it should. -/
theorem CR_notMem_render (n : Nat) : CR ∉ render n := by
  intro h
  have hdigit := (isNumeral_render n).digits CR h
  exact absurd hdigit (by decide)

/-- Digits are not a minus sign, so that a negative number is told from a natural one by its first
byte. -/
theorem minus_notMem_render (n : Nat) : '-'.toUInt8 ∉ render n := by
  intro h
  have hdigit := (isNumeral_render n).digits _ h
  exact absurd hdigit (by decide)

/-- Different numbers have different digits: from the digits the number is read back. -/
theorem render_injective {m n : Nat} (h : render m = render n) : m = n := by
  rw [← value_render m, h, value_render]

/-- A negative number is written as a minus sign and the digits of its absolute value. -/
theorem toString_of_neg {n : Int} (h : n < 0) : toString n = '-'.toUInt8 :: render n.natAbs :=
  if_pos h

/-- A number that is not negative is written as its digits. -/
theorem toString_of_nonneg {n : Int} (h : ¬ n < 0) : toString n = render n.natAbs :=
  if_neg h

/-- No number that the builder writes has a carriage return in it. -/
theorem CR_notMem_toString (n : Int) : CR ∉ toString n := by
  by_cases h : n < 0
  · rw [toString_of_neg h, List.mem_cons, not_or]
    exact ⟨by decide, CR_notMem_render _⟩
  · rw [toString_of_nonneg h]
    exact CR_notMem_render _

/-- `std::to_string` writes different numbers differently. -/
theorem toString_injective {m n : Int} (h : toString m = toString n) : m = n := by
  by_cases hm : m < 0
  · by_cases hn : n < 0
    · rw [toString_of_neg hm, toString_of_neg hn] at h
      have habs := render_injective (List.cons.inj h).2
      omega
    · -- A minus sign is in one of them only.
      rw [toString_of_neg hm, toString_of_nonneg hn] at h
      exact absurd (h ▸ List.mem_cons_self) (minus_notMem_render _)
  · by_cases hn : n < 0
    · rw [toString_of_nonneg hm, toString_of_neg hn] at h
      exact absurd (h ▸ List.mem_cons_self) (minus_notMem_render _)
    · rw [toString_of_nonneg hm, toString_of_nonneg hn] at h
      have habs := render_injective h
      omega

/-- The text of a line has no carriage return. For a number this is a property of its digits, and a
status line or an error carries it along as a part of its token. -/
theorem CR_notMem_text (t : Token) : CR ∉ t.text := by
  cases t with
  | ok => decide
  | simpleString str => exact str.property.1
  | error err => exact err.property.1
  | integer num => exact CR_notMem_toString num
  | bulkString str => exact CR_notMem_render _
  | nil => decide
  | array size => exact CR_notMem_toString size

/-! ### The header determines the token -/

/-- The first `'\r'` ends the text of a header. -/
theorem text_unique {s s' r r' : List Byte} (hs : CR ∉ s) (hs' : CR ∉ s')
    (h : s ++ CR :: r = s' ++ CR :: r') : s = s' ∧ r = r' := by
  induction s generalizing s' with
  | nil =>
    cases s' with
    | nil => exact ⟨rfl, (List.cons.inj h).2⟩
    | cons c s' =>
      have hc : CR = c := (List.cons.inj h).1
      exact absurd (hc ▸ List.mem_cons_self) hs'
  | cons c s ih =>
    cases s' with
    | nil =>
      have hc : c = CR := (List.cons.inj h).1
      exact absurd (hc ▸ List.mem_cons_self) hs
    | cons c' s' =>
      obtain ⟨rfl, htail⟩ := List.cons.inj h
      obtain ⟨rfl, hr⟩ := ih (fun hin => hs (List.mem_cons_of_mem c hin))
        (fun hin => hs' (List.mem_cons_of_mem c hin)) htail
      exact ⟨rfl, hr⟩

/-- A length is not the text of nil. -/
theorem render_ne_nil (n : Nat) : render n ≠ bytesOf "-1" := fun h =>
  minus_notMem_render n (by rw [h]; decide)

/-- Tokens with one header, and with payloads that are the front of one input, are one
token. -/
theorem identify_unique {t t' : Token} {r r' : List Byte} (htype : t.type = t'.type)
    (htext : t.text = t'.text) (hrest : t.payload ++ r = t'.payload ++ r') :
    t.identify = t'.identify ∧ r = r' := by
  cases t with
  | ok =>
    cases t' with
    | ok => exact ⟨rfl, hrest⟩
    | simpleString str' => exact ⟨congrArg simpleString (Subtype.ext htext), hrest⟩
    | _ => exact absurd htype (ne_of_beq_false rfl)
  | simpleString str =>
    cases t' with
    | ok => exact ⟨congrArg simpleString (Subtype.ext htext), hrest⟩
    | simpleString str' => exact ⟨congrArg simpleString (Subtype.ext htext), hrest⟩
    | _ => exact absurd htype (ne_of_beq_false rfl)
  | error err =>
    cases t' with
    | error err' => exact ⟨congrArg error (Subtype.ext htext), hrest⟩
    | _ => exact absurd htype (ne_of_beq_false rfl)
  | integer num =>
    cases t' with
    | integer num' => exact ⟨congrArg integer (toString_injective htext), hrest⟩
    | _ => exact absurd htype (ne_of_beq_false rfl)
  | bulkString str =>
    cases t' with
    | bulkString str' =>
      -- The digits of the length say where the payload ends.
      have hlen : str.length = str'.length := render_injective htext
      have hsplit : str ++ (CRLF ++ r) = str' ++ (CRLF ++ r') := by
        rw [← List.append_assoc, ← List.append_assoc]
        exact hrest
      obtain ⟨rfl, htail⟩ := List.append_inj hsplit hlen
      exact ⟨rfl, List.append_cancel_left htail⟩
    -- No length has the digits of -1.
    | nil => exact absurd htext (render_ne_nil _)
    | _ => exact absurd htype (ne_of_beq_false rfl)
  | nil =>
    cases t' with
    | bulkString str' => exact absurd htext.symm (render_ne_nil _)
    | nil => exact ⟨rfl, hrest⟩
    | _ => exact absurd htype (ne_of_beq_false rfl)
  | array size =>
    cases t' with
    | array size' => exact ⟨congrArg array (toString_injective htext), hrest⟩
    | _ => exact absurd htype (ne_of_beq_false rfl)

/-- At most one token is at the front of any bytes. -/
theorem bytes_unique {t t' : Token} {r r' : List Byte} (h : t.bytes ++ r = t'.bytes ++ r') :
    t.identify = t'.identify ∧ r = r' := by
  rw [bytes_eq, bytes_eq] at h
  obtain ⟨htype, hrest⟩ := List.cons.inj h
  have hline : t.text ++ CR :: LF :: (t.payload ++ r)
      = t'.text ++ CR :: LF :: (t'.payload ++ r') := by
    simpa [CRLF] using hrest
  obtain ⟨htext, hpayload⟩ := text_unique (CR_notMem_text t) (CR_notMem_text t') hline
  exact identify_unique htype htext (List.cons.inj hpayload).2

/-- `u` spells the token `t`, up to `append_ok`. -/
def Spells (t : Token) (u : List Byte) : Prop := ∃ t₀ : Token, t₀.identify = t ∧ t₀.bytes = u

/-- No spelling of a token begins another one. This is what makes a sequence of replies decodable
without a separator. -/
theorem spells_unambiguous : Scanner.Unambiguous Spells := by
  rintro _ _ _ _ r r' ⟨t, rfl, rfl⟩ ⟨t', rfl, rfl⟩ h
  exact bytes_unique h

/-- Every token has at least a byte for its type. -/
theorem not_spells_nil (t : Token) : ¬ Spells t [] := by
  rintro ⟨t₀, -, h⟩
  rw [bytes_eq] at h
  cases h

/-- A list of tokens spells the bytes that the builder writes for it, token by token. -/
theorem spells_map (ts : List Token) :
    List.Forall₂ Spells (ts.map identify) (ts.map bytes) := by
  rw [List.forall₂_map_left_iff, List.forall₂_map_right_iff, List.forall₂_same]
  exact fun t _ => ⟨t, rfl, rfl⟩

/-- **The reply encoding is uniquely decodable.** Calls append bytes of their own, two sequences
of calls give the same data only if they are the same calls, and the bytes of no call are a proper
front part of the bytes of another. The type and the line determine the token, because the line
ends at its first carriage return. For a bulk string the line is its length, and so the payload
may be any bytes. -/
theorem reply_encoding_decodable :
    (∀ (b : RespReplyBuilder) (t : Token), (t.append b).data = b.data ++ t.bytes) ∧
      (∀ ts ts' : List Token,
        dataOf ts = dataOf ts' ↔ ts.map identify = ts'.map identify) ∧
      ∀ t t' : Token, t.bytes <+: t'.bytes → t.bytes = t'.bytes := by
  refine ⟨fun b t => ?_, fun ts ts' => ⟨fun h => ?_, fun h => ?_⟩, fun t t' hfront => ?_⟩
  · rw [data_append, bytes_eq]
  · rw [dataOf_eq, dataOf_eq] at h
    exact spells_unambiguous.flatten_inj not_spells_nil (spells_map ts) (spells_map ts') h
  · have hbytes : ∀ ts : List Token, ts.map bytes = (ts.map identify).map bytes := by
      intro ts
      rw [List.map_map]
      exact List.map_congr_left fun t _ => (bytes_identify t).symm
    rw [dataOf_eq, dataOf_eq, hbytes, h, ← hbytes]
  · obtain ⟨x, hx⟩ := hfront
    have hx' : t.bytes ++ x = t'.bytes ++ [] := hx.trans (List.append_nil _).symm
    obtain ⟨-, rfl⟩ := bytes_unique hx'
    rw [← hx, List.append_nil]

end Token

end VectorEngine.Resp
