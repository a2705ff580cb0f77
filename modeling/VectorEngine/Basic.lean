import Mathlib.Algebra.Group.Nat.Defs

/-!
# `VectorEngine.Basic`: bytes, `std::size_t`, and how a call ends

`std::size_t` is 64 bits wide on the target platforms. Sizes are natural numbers here, and
the operations that can leave the range carry an explicit `% 2 ^ 64` (`sizeAdd`,
`sizeSub`).

A call that does not return ends in an `Abrupt`. `Connection::on_read` catches the first
kind only, `sw::vengine::Error`.

What the standard library's allocator does with a request depends on the machine. An
`Allocator` gives the outcome of the two requests whose size the peer chooses.
-/

set_option autoImplicit false

namespace VectorEngine

/-- A `char` of a buffer. -/
abbrev Byte := UInt8

/-- The contents of a `std::string` or of a `std::string_view`. -/
abbrev ByteString := List Byte

/-- `'\r'` -/
def CR : Byte := 13

/-- `'\n'` -/
def LF : Byte := 10

/-- The line end of the protocol. -/
def CRLF : ByteString := [CR, LF]

/-- The bytes of an ASCII literal. -/
def bytesOf (s : String) : ByteString := s.toList.map Char.toUInt8

/-- `a + b` in `std::size_t`. -/
def sizeAdd (a b : Nat) : Nat := (a + b) % 2 ^ 64

/-- `a - b` in `std::size_t`. -/
def sizeSub (a b : Nat) : Nat := (a + 2 ^ 64 - b) % 2 ^ 64

/-- A sum that stays in range is the sum of the natural numbers. Most of the proofs about sizes
begin by showing that the range is not left. -/
theorem sizeAdd_of_lt {a b : Nat} (h : a + b < 2 ^ 64) : sizeAdd a b = a + b :=
  Nat.mod_eq_of_lt h

/-- A difference that is not negative is the difference of the natural numbers. -/
theorem sizeSub_of_le {a b : Nat} (h : b ≤ a) (ha : a < 2 ^ 64) : sizeSub a b = a - b := by
  unfold sizeSub
  omega

/-- The exceptions of the standard library that an allocation can throw. -/
inductive StdException where
  | lengthError
  | badAlloc
  deriving DecidableEq, Repr

/-- How a call ends when it does not return. An exception of the program and one of the standard
library are told apart, as `on_read` catches the first and not the second. -/
inductive Abrupt where
  /-- `sw::vengine::Error`, with its message. -/
  | error (what : String)
  /-- An exception of the standard library. -/
  | std (e : StdException)
  /-- A failed `assert`, with its condition. -/
  | assertion (condition : String)
  /-- A read outside the storage. -/
  | wildRead
  /-- A loop that does not end. -/
  | diverges
  deriving DecidableEq, Repr

/-- A sequence that returned is a first step that returned and a rest that did. -/
theorem ok_of_bind {ε α β : Type} {x : Except ε α} {f : α → Except ε β} {b : β}
    (h : x >>= f = .ok b) : ∃ a, x = .ok a ∧ f a = .ok b := by
  cases x with
  | error e => cases h
  | ok a => exact ⟨a, rfl, h⟩

/-- The exception is `sw::vengine::Error`. -/
def Abrupt.IsError (e : Abrupt) : Prop := ∃ what, e = .error what

/-- The call ends in an exception, or is lost in a read outside the storage. No assertion
failed, and no loop ran for ever. -/
inductive Abrupt.Raised : Abrupt → Prop where
  | error (what : String) : Raised (.error what)
  | std (e : StdException) : Raised (.std e)
  | wildRead : Raised .wildRead

/-- An `Error` is one of the ways in which the parser may really end. -/
theorem Abrupt.IsError.raised {e : Abrupt} (h : e.IsError) : e.Raised := by
  obtain ⟨what, rfl⟩ := h
  exact .error what

/-- What ends in an exception or in a wild read does not run for ever. -/
theorem Abrupt.Raised.ne_diverges {e : Abrupt} (h : e.Raised) : e ≠ .diverges := by
  rintro rfl
  cases h

/-- What the allocator does with a request whose size the peer announced: `none` when it is
granted. The numbers that the parser passes on are read from the input, so that a peer can ask for
any amount of storage, and every result about the parser has to say what it assumes of the
answers. -/
structure Allocator where
  /-- `std::vector<std::string>::reserve(n)` -/
  reserve : Nat → Option StdException
  /-- The storage of a `std::string` of `n` bytes. -/
  string : Nat → Option StdException

/-- Allocation succeeds: every `reserve` is granted, and every string shorter than
`2 ^ 63` bytes gets its storage. -/
structure Allocator.Succeeds (A : Allocator) : Prop where
  reserve : ∀ n, A.reserve n = none
  string : ∀ n, n < 2 ^ 63 → A.string n = none

/-- The allocator of a machine with memory to spare. Only a string longer than
`std::string::max_size()` is refused. -/
def Allocator.ample : Allocator where
  reserve _ := none
  string n := if n < 2 ^ 63 then none else some .lengthError

/-- The allocator with memory to spare is one under which allocation succeeds, so that results
about such allocators have an instance. -/
theorem Allocator.ample_succeeds : Allocator.ample.Succeeds where
  reserve _ := rfl
  string _ h := if_pos h

/-- The allocator of a machine whose memory never runs out before a container has reached its
`max_size()`: `2 ^ 58 - 1` strings of 32 bytes in a vector, `2 ^ 63 - 1` bytes in a string. -/
def Allocator.standard : Allocator where
  reserve n := if n < 2 ^ 58 then none else some .lengthError
  string n := if n < 2 ^ 63 then none else some .lengthError

/-- The allocator is one that the standard library can have. Below the `max_size()` of a
container the machine decides whether there is storage. Above it the container throws
`std::length_error` before any storage is asked for. -/
structure Allocator.Bounded (A : Allocator) : Prop where
  reserve : ∀ n, 2 ^ 58 ≤ n → A.reserve n = some .lengthError
  string : ∀ n, 2 ^ 63 ≤ n → A.string n = some .lengthError

/-- The allocator that only stops at `max_size()` is one that the standard library can have. It is
the witness where a result needs one. -/
theorem Allocator.standard_bounded : Allocator.standard.Bounded where
  reserve _ h := if_neg (by omega)
  string _ h := if_neg (by omega)

/-- What one allocator grants, the other grants as well. A read that comes about under the smaller
allocator comes about under the larger one. -/
structure Allocator.Le (A A' : Allocator) : Prop where
  reserve : ∀ n, A.reserve n = none → A'.reserve n = none
  string : ∀ n, A.string n = none → A'.string n = none

/-- No allocator of the standard library grants more than the one that never runs out. -/
theorem Allocator.Bounded.le_standard {A : Allocator} (h : A.Bounded) : A.Le .standard where
  reserve n hn := by
    refine if_pos (Nat.lt_of_not_le fun hlarge => ?_)
    rw [h.reserve n hlarge] at hn
    cases hn
  string n hn := by
    refine if_pos (Nat.lt_of_not_le fun hlarge => ?_)
    rw [h.string n hlarge] at hn
    cases hn

end VectorEngine
