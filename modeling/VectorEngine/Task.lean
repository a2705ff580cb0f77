import VectorEngine.Resp.Builder

/-!
# `VectorEngine.Task`: tasks and their replies

A command becomes a task by its name, lowered: `ping`, or an unknown command. Running a
task gives an output, and the output gives the bytes of the reply.

`RequestParserCreator` picks the parser of the connection's protocol. The JSON-RPC parser
is a stub that accepts nothing.
-/

set_option autoImplicit false

namespace VectorEngine

open Resp

/-! ### `str::to_lower` -/

namespace Str

/-- A `char` as the `int` that a C library call receives. `char` is signed. -/
def charToInt (c : Byte) : Int := if c.toNat < 128 then c.toNat else c.toNat - 256

/-- An `int` stored in a `char`. -/
def intToChar (n : Int) : Byte := UInt8.ofNat (n % 256).toNat

/-- `std::tolower` in the C locale. Outside its domain, `-1` to `255`, the standard promises
nothing. The C library of the target platforms returns such a value unchanged. -/
def tolower (c : Int) : Int := if 65 ≤ c ∧ c ≤ 90 then c + 32 else c

/-- `str::to_lower` -/
def toLower (str : ByteString) : ByteString :=
  str.map fun c => intToChar (tolower (charToInt c))

end Str

/-! ### Tasks -/

/-- The classes behind `TaskOutput`. -/
inductive TaskOutput where
  /-- `PingTaskOutput` -/
  | ping
  /-- `UnknownOutput` -/
  | unknown (cmd : RespCommand)
  deriving DecidableEq, Repr

/-- `TaskOutput::to_resp_reply` -/
def TaskOutput.toRespReply : TaskOutput → RespReply
  | .ping => (RespReplyBuilder.init.appendSimpleString (bytesOf "PONG")).data
  | .unknown cmd =>
    let errMsg := bytesOf "unknown command: " ++ cmd.name
    (RespReplyBuilder.init.appendError errMsg).data

/-- The classes behind `Task`. -/
inductive Task where
  /-- `PingTask` -/
  | ping
  /-- `UnknownTask` -/
  | unknown (cmd : RespCommand)
  deriving DecidableEq, Repr

/-- `Task::run`. An unknown task gives its command away, and no task is run twice. -/
def Task.run : Task → TaskOutput
  | .ping => .ping
  | .unknown cmd => .unknown cmd

/-- `RespResponseBuilder::build` -/
def RespResponseBuilder.build (output : TaskOutput) : ByteString := output.toRespReply

/-! ### `RespTaskCreator` -/

namespace RespTaskCreator

/-- `RespTaskCreator::_creators` -/
def creators : List (ByteString × (RespCommand → Task)) :=
  [(bytesOf "ping", fun _ => .ping)]

/-- `RespTaskCreator::_make_unknown_task` -/
def makeUnknownTask (cmd : RespCommand) : Task := .unknown cmd

/-- `RespTaskCreator::create` -/
def create (cmd : RespCommand) : Task :=
  match creators.lookup (Str.toLower cmd.name) with
  | none => makeUnknownTask cmd
  | some creator => creator cmd

/-- What `create` makes of a command. -/
theorem create_eq (cmd : RespCommand) :
    create cmd = if Str.toLower cmd.name = bytesOf "ping" then .ping else .unknown cmd := by
  show (match creators.lookup (Str.toLower cmd.name) with
    | none => Task.unknown cmd
    | some creator => creator cmd) = _
  by_cases h : Str.toLower cmd.name = bytesOf "ping"
  · rw [if_pos h, h]
    rfl
  · have hlookup : creators.lookup (Str.toLower cmd.name) = none := by
      simp [creators, h]
    rw [if_neg h, hlookup]

end RespTaskCreator

/-! ### `RequestParser` -/

/-- `RespRequestParser::parse` -/
def RespRequestParser.parse (A : Allocator) (buffer : ByteString) :
    Except Abrupt (List Task × Nat) := do
  let (cmds, len) ← Resp.parse A buffer
  return (cmds.map RespTaskCreator.create, len)

/-- `JsonRpcRequestParser::parse` -/
def JsonRpcRequestParser.parse (_buffer : ByteString) : Except Abrupt (List Task × Nat) :=
  .ok ([], 0)

/-- The protocols that `ProtocolFactory` can be asked for. -/
inductive ProtocolType where
  | resp
  | jsonRpc
  deriving DecidableEq, Repr

/-- `RequestParserCreator::create`, and `parse` of the parser it makes. -/
def RequestParserCreator.parse (type : ProtocolType) (A : Allocator) (buffer : ByteString) :
    Except Abrupt (List Task × Nat) :=
  match type with
  | .resp => RespRequestParser.parse A buffer
  | .jsonRpc => JsonRpcRequestParser.parse buffer

end VectorEngine
