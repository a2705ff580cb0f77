import VectorEngine.Resp.Parser

/-!
# `VectorEngine.Resp.Builder`: `RespReplyBuilder`

The builder appends to one buffer. Simple strings, errors, integers and array headers are
lines: a type letter, the text, and the line end. A bulk string announces its length first.
-/

set_option autoImplicit false

namespace VectorEngine.Resp

open VectorEngine.Numeral

/-- A reply is the bytes that go to the client. -/
abbrev RespReply := ByteString

/-- `std::to_string` of a `long long` or a `std::size_t`. -/
def toString (n : Int) : ByteString :=
  if n < 0 then bytesOf "-" ++ render n.natAbs else render n.natAbs

/-- `RespReplyBuilder`. The numbers it is given are `long long`. -/
structure RespReplyBuilder where
  buffer : ByteString
  deriving DecidableEq, Repr

namespace RespReplyBuilder

/-- The builder as it is constructed. -/
def init : RespReplyBuilder := { buffer := [] }

/-- `RespReplyBuilder::_append_string` -/
def appendString (b : RespReplyBuilder) (type : Char) (str : ByteString) : RespReplyBuilder :=
  let reply := type.toUInt8 :: (str ++ bytesOf "\r\n")
  { b with buffer := b.buffer ++ reply }

/-- `RespReplyBuilder::append_ok` -/
def appendOk (b : RespReplyBuilder) : RespReplyBuilder :=
  { b with buffer := b.buffer ++ bytesOf "+OK\r\n" }

/-- `RespReplyBuilder::append_simple_string` -/
def appendSimpleString (b : RespReplyBuilder) (str : ByteString) : RespReplyBuilder :=
  b.appendString '+' str

/-- `RespReplyBuilder::append_error` -/
def appendError (b : RespReplyBuilder) (err : ByteString) : RespReplyBuilder :=
  b.appendString '-' err

/-- `RespReplyBuilder::append_integer` -/
def appendInteger (b : RespReplyBuilder) (num : Int) : RespReplyBuilder :=
  b.appendString ':' (toString num)

/-- `RespReplyBuilder::append_bulk_string` -/
def appendBulkString (b : RespReplyBuilder) (str : ByteString) : RespReplyBuilder :=
  let len := toString str.length
  let reply := '$'.toUInt8 :: (len ++ bytesOf "\r\n" ++ str ++ bytesOf "\r\n")
  { b with buffer := b.buffer ++ reply }

/-- `RespReplyBuilder::append_nil` -/
def appendNil (b : RespReplyBuilder) : RespReplyBuilder :=
  { b with buffer := b.buffer ++ bytesOf "$-1\r\n" }

/-- `RespReplyBuilder::append_array` -/
def appendArray (b : RespReplyBuilder) (size : Int) : RespReplyBuilder :=
  b.appendString '*' (toString size)

/-- `RespReplyBuilder::data` -/
def data (b : RespReplyBuilder) : RespReply := b.buffer

/-! ### A command as an array of bulk strings -/

/-- `append_array(1 + args.size())`, `append_bulk_string(name)`, and `append_bulk_string` of
each argument: what a client sends for a command. -/
def appendCommand (b : RespReplyBuilder) (cmd : RespCommand) : RespReplyBuilder :=
  cmd.args.foldl appendBulkString
    ((b.appendArray (1 + cmd.args.length)).appendBulkString cmd.name)

end RespReplyBuilder

/-- Command after command. -/
def encode (cmds : List RespCommand) : ByteString :=
  (cmds.foldl RespReplyBuilder.appendCommand RespReplyBuilder.init).data

/-! ### What an append adds -/

namespace RespReplyBuilder

/-- A number that is not negative has no sign in front of its digits. -/
theorem toString_natCast (n : Nat) : toString n = render n := by
  unfold toString
  rw [if_neg (by omega), Int.natAbs_natCast]

/-- A status line or an error is its type, its text and a line end behind what was there. -/
theorem buffer_appendString (b : RespReplyBuilder) (type : Char) (str : ByteString) :
    (b.appendString type str).buffer = b.buffer ++ (type.toUInt8 :: str ++ CRLF) := rfl

/-- The bulk string of `str`. -/
def bulkString (str : ByteString) : ByteString :=
  '$'.toUInt8 :: render str.length ++ CRLF ++ (str ++ CRLF)

/-- A bulk string is its length line, its bytes and a line end behind what was there. -/
theorem buffer_appendBulkString (b : RespReplyBuilder) (str : ByteString) :
    (b.appendBulkString str).buffer = b.buffer ++ bulkString str := by
  have hreply : '$'.toUInt8 :: (toString str.length ++ bytesOf "\r\n" ++ str ++ bytesOf "\r\n")
      = bulkString str := by
    rw [toString_natCast]
    unfold bulkString
    rw [List.append_assoc, List.append_assoc, List.append_assoc]
    rfl
  show b.buffer ++ _ = _
  rw [hreply]

/-- Bulk strings one after another. -/
theorem buffer_foldl_appendBulkString (strs : List ByteString) (b : RespReplyBuilder) :
    (strs.foldl appendBulkString b).buffer = b.buffer ++ (strs.map bulkString).flatten := by
  induction strs generalizing b with
  | nil => simp
  | cons str strs ih =>
    rw [List.foldl_cons, ih, buffer_appendBulkString]
    simp

/-- The bytes of a command. -/
def command (cmd : RespCommand) : ByteString :=
  '*'.toUInt8 :: render (cmd.args.length + 1) ++ CRLF ++
    ((cmd.name :: cmd.args).map bulkString).flatten

/-- A request is its bytes behind what was there. -/
theorem buffer_appendCommand (b : RespReplyBuilder) (cmd : RespCommand) :
    (b.appendCommand cmd).buffer = b.buffer ++ command cmd := by
  have hcount : (1 + cmd.args.length : Int) = ((cmd.args.length + 1 : Nat) : Int) := by omega
  unfold appendCommand appendArray
  rw [buffer_foldl_appendBulkString, buffer_appendBulkString, buffer_appendString, hcount,
    toString_natCast]
  simp [command]

/-- Requests are appended in their order. -/
theorem buffer_foldl_appendCommand (cmds : List RespCommand) (b : RespReplyBuilder) :
    (cmds.foldl appendCommand b).buffer = b.buffer ++ (cmds.map command).flatten := by
  induction cmds generalizing b with
  | nil => simp
  | cons cmd cmds ih =>
    rw [List.foldl_cons, ih, buffer_appendCommand]
    simp

end RespReplyBuilder

/-- The encoding of some requests is the encodings of each of them, one behind the other. -/
theorem encode_eq (cmds : List RespCommand) :
    encode cmds = (cmds.map RespReplyBuilder.command).flatten :=
  RespReplyBuilder.buffer_foldl_appendCommand cmds RespReplyBuilder.init

end VectorEngine.Resp
