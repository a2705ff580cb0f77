import VectorEngine.Basic
import VectorEngine.Numeral.Decimal

/-!
# `VectorEngine.Resp.Cursor`: the parser's moving `std::string_view`

`RespCommandParser` advances one `std::string_view` through the buffer it was given. The
view is a pair of a pointer and a size, and nothing checks either. The model keeps both as
numbers: `pos` is `data()` as an offset from the start of the buffer, and pointer
arithmetic wraps at `2 ^ 64` as it does on the machine. A read is a read of the buffer at
an offset, whether the view covers the offset or not.

Each access, each `remove_prefix`, each length sum, each allocation request and each copy of a
string is put in a log, what concerns the view together with the view of that moment, so that
what the parser did can be compared with what the view allowed.
-/

set_option autoImplicit false

namespace VectorEngine.Resp

open VectorEngine.Numeral

/-- `std::string_view`: `data()` as an offset into the buffer, and `size()`. An offset can go out
of the buffer, as a pointer can, and what is read there is a wild read. -/
structure StringView where
  pos : Nat
  size : Nat
  deriving DecidableEq, Repr

/-- What the parser does to its view and to the allocator. The log of these is what is asked in
the end: whether every read was inside the view, how many bytes were looked at, and how many
places were reserved. -/
inductive Event where
  /-- `*p` -/
  | read (view : StringView) (p : Nat)
  /-- A pass over the `n` bytes from `first` on, to compare or to copy them. -/
  | span (view : StringView) (first n : Nat)
  /-- `remove_prefix(n)` -/
  | removePrefix (view : StringView) (n : Nat)
  /-- The sum `len + 2` of the length test. -/
  | sum (len : Nat)
  /-- `args.reserve(n)` -/
  | reserve (n : Nat)
  /-- The construction of a `std::string` of `n` bytes. -/
  | construct (n : Nat)
  /-- `cmd.name = *name`: the copy of a `std::string` of `n` bytes into another one. -/
  | copy (n : Nat)
  deriving DecidableEq, Repr

/-- The state of the parser: its view, and the log of what it did. The buffer itself is a
parameter, since the parser does not change it. -/
structure Cursor where
  view : StringView
  log : List Event
  deriving DecidableEq, Repr

/-- A step of the parser. The log survives an exception. -/
def ParserM (α : Type) : Type := Cursor → Except Abrupt α × Cursor

namespace ParserM

/-- The functions of the parser throw, and leave the window and the log as they are at that
moment. So the state is threaded outside of the exception. -/
instance : Monad ParserM where
  pure a := fun s => (.ok a, s)
  bind x f := fun s =>
    match x s with
    | (.ok a, s') => f a s'
    | (.error e, s') => (.error e, s')

variable {α β : Type}

/-- A value is returned with the state as it is. -/
@[simp] theorem pure_run (a : α) (s : Cursor) : (pure a : ParserM α) s = (.ok a, s) := rfl

/-- A step that returned goes on with its result. -/
theorem bind_ok {x : ParserM α} {f : α → ParserM β} {s s' : Cursor} {a : α}
    (h : x s = (.ok a, s')) : (x >>= f) s = f a s' := by
  show (match x s with
    | (.ok a, s') => f a s'
    | (.error e, s') => (.error e, s')) = _
  rw [h]

/-- A step that threw ends the sequence. -/
theorem bind_error {x : ParserM α} {f : α → ParserM β} {s s' : Cursor} {e : Abrupt}
    (h : x s = (.error e, s')) : (x >>= f) s = (.error e, s') := by
  show (match x s with
    | (.ok a, s') => f a s'
    | (.error e, s') => (.error e, s')) = _
  rw [h]

/-- Sequencing is associative. -/
theorem bind_assoc {γ : Type} (x : ParserM α) (f : α → ParserM β) (g : β → ParserM γ) :
    x >>= f >>= g = x >>= fun a => f a >>= g := by
  funext s
  rcases h : x s with ⟨a | a, s'⟩
  · rw [bind_error h, bind_error (bind_error h)]
  · rw [bind_ok h]
    show (match (x >>= f) s with
      | (.ok a, s') => g a s'
      | (.error e, s') => (.error e, s')) = _
    rw [bind_ok h]
    rfl

/-- `throw` -/
def raise (e : Abrupt) : ParserM α := fun s => (.error e, s)

/-- An exception is thrown with the state as it is. -/
@[simp] theorem raise_run (e : Abrupt) (s : Cursor) :
    (raise e : ParserM α) s = (.error e, s) := rfl

/-- The current view. -/
def view : ParserM StringView := fun s => (.ok s.view, s)

/-- The window is read and not moved. -/
@[simp] theorem view_run (s : Cursor) : view s = (.ok s.view, s) := rfl

/-- Log an event. -/
def emit (e : Event) : ParserM Unit := fun s => (.ok (), { s with log := s.log ++ [e] })

/-- An event is written at the end of the log. -/
@[simp] theorem emit_run (e : Event) (s : Cursor) :
    emit e s = (.ok (), { s with log := s.log ++ [e] }) := rfl

/-- `buffer.remove_prefix(n)` -/
def removePrefix (n : Nat) : ParserM Unit := fun s =>
  (.ok (), { view := ⟨sizeAdd s.view.pos n, sizeSub s.view.size n⟩,
             log := s.log ++ [.removePrefix s.view n] })

/-- `remove_prefix` moves the start of the window and shortens it. Both are computed with 64 bits
and wrap. -/
@[simp] theorem removePrefix_run (n : Nat) (s : Cursor) :
    removePrefix n s
      = (.ok (), { view := ⟨sizeAdd s.view.pos n, sizeSub s.view.size n⟩,
                   log := s.log ++ [.removePrefix s.view n] }) := rfl

/-- `*p` -/
def deref (buf : ByteString) (p : Nat) : ParserM Byte := fun s =>
  (match buf[p]? with
    | some b => .ok b
    | none => .error .wildRead,
   { s with log := s.log ++ [.read s.view p] })

/-- A read inside the buffer returns the byte. -/
theorem deref_run {buf : ByteString} {p : Nat} {b : Byte} (h : buf[p]? = some b)
    (s : Cursor) : deref buf p s = (.ok b, { s with log := s.log ++ [.read s.view p] }) := by
  unfold deref
  rw [h]

/-- `*p == '\r' && *(p + 1) == '\n'` -/
def crlfAt (buf : ByteString) (p : Nat) : ParserM Bool := do
  let b ← deref buf p
  if b = CR then
    let b' ← deref buf (sizeAdd p 1)
    return decide (b' = LF)
  else
    return false

/-- The error codes of `std::from_chars`. -/
inductive Errc where
  | invalidArgument
  | resultOutOfRange
  deriving DecidableEq, Repr

/-- `std::from_chars(data(), data() + size(), value)` for a `std::size_t`, base ten. It
takes the longest run of digits. The result is the pointer behind the run and the value.
There is no sign and no white space, and leading zeros are digits like any other. -/
def fromChars (buf : ByteString) : ParserM (Nat × Except Errc Nat) := fun s =>
  let chars := (buf.drop s.view.pos).take s.view.size
  let run := chars.takeWhile isDigit
  let result : Except Errc Nat :=
    if run = [] then .error .invalidArgument
    else if 2 ^ 64 ≤ value run then .error .resultOutOfRange
    else .ok (value run)
  (.ok (s.view.pos + run.length, result),
   { s with log := s.log ++ [.span s.view s.view.pos (min (run.length + 1) s.view.size)] })

/-- `args.reserve(n)` -/
def reserve (A : Allocator) (n : Nat) : ParserM Unit := fun s =>
  (match A.reserve n with
    | some e => .error (.std e)
    | none => .ok (),
   { s with log := s.log ++ [.reserve n] })

/-- `std::string(buffer.data(), n)`: storage for `n` bytes, and a copy of the `n` bytes
from `data()` on. -/
def string (buf : ByteString) (A : Allocator) (n : Nat) : ParserM ByteString := fun s =>
  match A.string n with
  | some e => (.error (.std e), { s with log := s.log ++ [.construct n] })
  | none =>
    (if s.view.pos + n ≤ buf.length then .ok ((buf.drop s.view.pos).take n)
      else .error .wildRead,
     { s with log := s.log ++ [.construct n, .span s.view s.view.pos n] })

end ParserM

end VectorEngine.Resp
