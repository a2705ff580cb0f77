import VectorEngine.Resp.Cursor

/-!
# `VectorEngine.Resp.Parser`: `RespCommandParser`

The parser of `resp.cpp`, function by function. `parseNum`, `parseArgc` and `parseArgv`
answer `none` where the source returns `std::nullopt`, on a request that is not complete
yet. `parseArgs` is the inner `for` loop of `parse` with its 32-bit counter, and
`parseLoop` the outer `while (true)`.

Each round of either loop takes at least one byte off the view, so the length of the buffer
bounds the number of rounds. The loops count down from that bound. `parse_ne_diverges`
(`Proofs/Resp/Loop.lean`) shows that the count never runs out.
-/

set_option autoImplicit false

namespace VectorEngine.Resp

open ParserM

/-- `std::vector<std::string>` -/
abbrev RespArgs := List ByteString

/-- A command of a request: its name, and its arguments in order. -/
structure RespCommand where
  name : ByteString
  args : RespArgs
  deriving DecidableEq, Repr

section
variable (buf : ByteString)

/-- `RespCommandParser::_parse_num` -/
def parseNum (c : Char) : ParserM (Option Nat) := do
  let v ← view
  if v.size = 0 then
    return none
  let front ← deref buf v.pos
  if front ≠ c.toUInt8 then
    raise (.error ("expect " ++ c.toString))
  else
    removePrefix 1
    let v ← view
    if v.size = 0 then
      return none
    let last := v.pos + v.size
    let (ptr, result) ← fromChars buf
    match result with
    | .error _ => raise (.error "expect a positive integer")
    | .ok argc =>
      if ptr + 2 > last then
        return none
      let crlf ← crlfAt buf ptr
      if crlf then
        removePrefix (ptr + 2 - v.pos)
        return some argc
      else
        raise (.error "expect '\\r\\n'")

/-- `RespCommandParser::_parse_argc` -/
def parseArgc : ParserM (Option Nat) := parseNum buf '*'

variable (A : Allocator)

/-- `RespCommandParser::_parse_argv` -/
def parseArgv : ParserM (Option ByteString) := do
  let num ← parseNum buf '$'
  match num with
  | none => return none
  | some len =>
    let v ← view
    emit (.sum len)
    if v.size < sizeAdd len 2 then
      return none
    let crlf ← crlfAt buf (sizeAdd v.pos len)
    if crlf then
      let argv ← string buf A len
      removePrefix (sizeAdd len 2)
      return some argv
    else
      raise (.error "expect '\\r\\n'")

/-- The inner loop of `parse`, for `count = argc - 1`. The counter `idx` is an
`unsigned int`. -/
def parseArgs (count : Nat) : Nat → Nat → RespArgs → ParserM (Nat × RespArgs)
  | 0, _, _ => raise .diverges
  | fuel + 1, idx, args => do
    if idx = count then
      return (idx, args)
    let argv ← parseArgv buf A
    match argv with
    | none => return (idx, args)
    | some argv => parseArgs count fuel ((idx + 1) % 2 ^ 32) (args ++ [argv])

/-- One round of the outer loop of `parse`: the next command, or `none` where the source
breaks out of the loop. -/
def parseCommand : ParserM (Option RespCommand) := do
  let argc ← parseArgc buf
  match argc with
  | none => return none
  | some argc =>
    if argc = 0 then
      raise (.error "invalid request: zero argument")
    else
      let name ← parseArgv buf A
      match name with
      | none => return none
      | some name =>
        reserve A (argc - 1)
        let (idx, args) ← parseArgs buf A (argc - 1) (buf.length + 1) 0 []
        if idx < argc - 1 then
          return none
        else
          return some { name := name, args := args }

/-- The outer loop of `parse`. `bytes_parsed` is `buffer.data() - first` behind the last
complete command. The arguments are moved into the command. The name is copied, and gets the
storage that a string of its length got before. -/
def parseLoop : Nat → List RespCommand → Nat → ParserM (List RespCommand × Nat)
  | 0, _, _ => raise .diverges
  | fuel + 1, cmds, bytesParsed => do
    let cmd ← parseCommand buf A
    match cmd with
    | none => return (cmds, bytesParsed)
    | some cmd =>
      emit (.copy cmd.name.length)
      let v ← view
      parseLoop fuel (cmds ++ [cmd]) v.pos

end

/-- The view that `parse` starts from: the whole buffer. -/
def Cursor.start (buf : ByteString) : Cursor := { view := ⟨0, buf.length⟩, log := [] }

/-- `RespCommandParser::parse`, with the log of the run. -/
def parseRun (A : Allocator) (buf : ByteString) :
    Except Abrupt (List RespCommand × Nat) × Cursor :=
  parseLoop buf A (buf.length + 1) [] 0 (Cursor.start buf)

/-- `RespCommandParser::parse` -/
def parse (A : Allocator) (buf : ByteString) : Except Abrupt (List RespCommand × Nat) :=
  (parseRun A buf).1

end VectorEngine.Resp
