import VectorEngine.Worker

/-!
# `VectorEngine.WorkerPool`: the construction of a pool

The constructor of `WorkerPool` reserves room for `num` workers and starts them one by one. Its
loop counts with an `unsigned int` and compares the counter with `num`, which is a
`std::size_t`. The standard library may refuse the room, the object of a worker, or its thread;
each of its answers is an action here. It is not free to grant what it likes: a vector of
pointers has no room for more than `2 ^ 60 - 1` of them.
-/

set_option autoImplicit false

namespace VectorEngine.WorkerPool

/-- What the constructor can throw. The constructor catches none of them. -/
inductive Thrown where
  /-- `sw::vengine::Error` -/
  | error (what : String)
  /-- An allocation failed. -/
  | std (e : StdException)
  /-- `std::system_error`: the thread of a worker could not be started. -/
  | systemError
  deriving DecidableEq, Repr

/-- Where `WorkerPool::WorkerPool(num)` is. It throws for a size of 0 and where something is
refused, and otherwise starts one worker after another. -/
inductive Construction where
  /-- At the test of `num`. -/
  | entered
  /-- At `_workers.reserve(num)`. -/
  | reserving
  /-- At the test of the loop, with its counter and `_workers.size()`. -/
  | filling (idx workers : Nat)
  /-- It has returned. -/
  | built (workers : Nat)
  | thrown (e : Thrown)
  deriving DecidableEq, Repr

/-- What the next step depends on. A thread can be started or refused, and `reserve` can get its
storage or not. -/
inductive Answer where
  /-- A test needs no answer. -/
  | test
  /-- `reserve` returns, or throws. -/
  | reserve (refused : Option StdException)
  /-- `push_back(make_unique<Worker>())` returns, or throws. -/
  | push (refused : Option Thrown)
  deriving DecidableEq, Repr

/-- The next step of the constructor. -/
def construct (num : Nat) : Construction → Answer → Option Construction
  | .entered, .test =>
    if num = 0 then some (.thrown (.error "size of worker pool must larger than 0"))
    else some .reserving
  -- `reserve` throws `std::length_error` above `max_size()`, and only there.
  | .reserving, .reserve none => if num < 2 ^ 60 then some (.filling 0 0) else none
  | .reserving, .reserve (some e) =>
    if e = .lengthError ↔ 2 ^ 60 ≤ num then some (.thrown (.std e)) else none
  | .filling idx workers, .test => if idx = num then some (.built workers) else none
  | .filling idx workers, .push none =>
    if idx ≠ num then some (.filling ((idx + 1) % 2 ^ 32) (workers + 1)) else none
  | .filling idx _, .push (some e) => if idx ≠ num then some (.thrown e) else none
  | _, _ => none

end VectorEngine.WorkerPool
