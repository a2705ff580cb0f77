import Mathlib.Data.Int.CardIntervalMod
import VectorEngine.Proofs.Server.Next
import VectorEngine.Transition.Run
import VectorEngine.WorkerPool

/-!
# `VectorEngine.Proofs.WorkerPool`: how many workers, and which of them a connection is given

* `WorkerPool.constructed`: the constructor returns exactly for sizes from 1 to `2 ^ 32 - 1`, with
  that many workers. A larger size is never equal to the counter of its loop, which goes on
  starting threads, unless the size is so large that `reserve` throws in front of it.
* `Server.spread_of_run`: `fetch` spreads the connections of a reactor evenly over the workers,
  since `_create_client` numbers them consecutively.
-/

set_option autoImplicit false

namespace VectorEngine

open VectorEngine.Transition

namespace WorkerPool

variable {num m : Nat} {s s' : Construction}

/-- The message of the constructor for a size of 0. -/
def zeroSize : Thrown := .error "size of worker pool must larger than 0"

/-- What the constructor has done when it is in the state. The counter wraps, and the size of
`_workers` does not. A worker is started only when the vector has room for all of them. -/
def Reached (num : Nat) : Construction → Prop
  | .entered => True
  | .reserving => 0 < num
  | .filling idx workers =>
    0 < num ∧ num < 2 ^ 60 ∧ idx = workers % 2 ^ 32 ∧ (num < 2 ^ 32 → workers ≤ num)
  | .built workers => 0 < num ∧ num < 2 ^ 32 ∧ workers = num
  | .thrown e => (num = 0 → e = zeroSize) ∧ (2 ^ 60 ≤ num → e = .std .lengthError)

/-- One step keeps it. -/
theorem Reached.construct (h : Reached num s) {a : Answer}
    (hs : WorkerPool.construct num s a = some s') : Reached num s' := by
  cases s with
  | entered =>
    cases a with
    | test =>
      rw [WorkerPool.construct] at hs
      by_cases hzero : num = 0
      · rw [if_pos hzero] at hs
        cases hs
        exact ⟨fun _ => rfl, fun hlarge => by omega⟩
      · rw [if_neg hzero] at hs
        cases hs
        exact Nat.pos_of_ne_zero hzero
    | reserve refused => cases hs
    | push refused => cases hs
  | reserving =>
    cases a with
    | reserve refused =>
      cases refused with
      | none =>
        obtain ⟨hroom, hs⟩ := Option.ite_none_right_eq_some.mp hs
        cases hs
        exact ⟨h, hroom, rfl, fun _ => Nat.zero_le _⟩
      | some e =>
        obtain ⟨hlength, hs⟩ := Option.ite_none_right_eq_some.mp hs
        cases hs
        refine ⟨fun hzero => ?_, fun hlarge => ?_⟩
        · exact absurd (show 0 < num from h) (by omega)
        · rw [hlength.mpr hlarge]
    | test => cases hs
    | push refused => cases hs
  | filling idx workers =>
    obtain ⟨hpos, hroom, hidx, hle⟩ := h
    cases a with
    | test =>
      obtain ⟨heq, hs⟩ := Option.ite_none_right_eq_some.mp hs
      cases hs
      -- The counter is below `2 ^ 32`, so `num` is, and the counter has not wrapped.
      have hlt : num < 2 ^ 32 := by omega
      have hworkers := hle hlt
      exact ⟨hpos, hlt, by omega⟩
    | push refused =>
      cases refused with
      | none =>
        obtain ⟨hne, hs⟩ := Option.ite_none_right_eq_some.mp hs
        cases hs
        refine ⟨hpos, hroom, by omega, fun hlt => ?_⟩
        have hworkers := hle hlt
        omega
      | some e =>
        obtain ⟨-, hs⟩ := Option.ite_none_right_eq_some.mp hs
        cases hs
        exact ⟨fun hzero => by omega, fun hlarge => by omega⟩
    | reserve refused => cases hs
  | built workers => cases a <;> cases hs
  | thrown e => cases a <;> cases hs

/-- The standard library refuses nothing. -/
def Answer.Granted : Answer → Prop
  | .test => True
  | .reserve refused => refused = none
  | .push refused => refused = none

/-- The ids below `m` are spread evenly over the workers. -/
theorem countP_fetch (n m : Nat) (w : Fin (n + 1)) :
    (List.range m).countP (fun id => fetch n id = w)
      = m / (n + 1) + if w.val < m % (n + 1) then 1 else 0 := by
  have hcount := Nat.count_modEq_card m n.succ_pos w.val
  rw [Nat.mod_eq_of_lt w.isLt, Nat.count] at hcount
  rw [← hcount]
  refine List.countP_congr fun id _ => ?_
  simp only [decide_eq_true_eq, Nat.ModEq, Nat.mod_eq_of_lt w.isLt]
  exact ⟨fun heq => by rw [← heq]; rfl, fun heq => Fin.ext heq⟩

end WorkerPool

/-! ### The connections of a reactor -/

namespace Server

variable {ρ : Type} {n : Nat} [DecidableEq ρ] {opts : ReactorOptions} {A : Allocator}
  {s s' : Server ρ n}

/-- The ids that `_create_client` of the reactor has given to connections, in their order. -/
def created (r : ρ) (path : List (Server ρ n × Action ρ n)) : List ConnectionId :=
  path.filterMap fun p =>
    match p.2 with
    | .connect q _ => if q = r then some (p.1.threads.reactors r).connectionCnt else none
    | _ => none

/-- The ids are counted up. -/
theorem created_eq_range {path : List (Server ρ n × Action ρ n)}
    (hrun : Run (step opts A) init path s) (r : ρ) :
    created r path = List.range (s.threads.reactors r).connectionCnt := by
  induction hrun with
  | nil => rfl
  | @snoc path s s' a _ hs ih =>
    have hcnt := connectionCnt_step hs r
    rw [hcnt, created, List.filterMap_append]
    show created r path ++ created r [(s, a)] = _
    rw [ih]
    cases a with
    | connect q accepted =>
      by_cases hq : q = r
      · simp [created, Action.creates, hq, List.range_succ]
      · simp [created, Action.creates, hq]
    | callback q id c => simp [created, Action.creates]
    | close q id => simp [created, Action.creates]
    | thread a => simp [created, Action.creates]

/-- **The connections of a reactor are spread evenly.** In every run, each worker serves the
same number of the connections that a reactor has created, up to one. The workers at the front
of the pool have the one more. -/
theorem spread_of_run {path : List (Server ρ n × Action ρ n)}
    (hrun : Run (step opts A) init path s) (r : ρ) (w : Fin (n + 1)) :
    (created r path).countP (fun id => WorkerPool.fetch n id = w)
      = (created r path).length / (n + 1)
        + if w.val < (created r path).length % (n + 1) then 1 else 0 := by
  rw [created_eq_range hrun r, List.length_range]
  exact WorkerPool.countP_fetch n _ w

/-- Five clients of two reactors, which share three workers. -/
def fiveClients : List (Action Bool 2) :=
  [.connect false true, .connect true true, .connect false true, .connect false false,
    .connect false true]

/-- RESP connections with read buffers of 4 to 64 bytes. -/
def smallBuffers : ReactorOptions where
  connectionOpts := { readBufMinSize := 4, readBufMaxSize := 64 }
  protocolOpts := .resp

/-- All five clients can connect. -/
theorem isSome_fiveClients :
    (exec (step smallBuffers .ample) (init : Server Bool 2) fiveClients).isSome = true := by
  decide +kernel

/-- Of the connections of the first reactor, the first of three workers has as many as the result
says. -/
theorem spread_of_run_five :
    ∃ path s, Run (step smallBuffers .ample) (init : Server Bool 2) path s ∧
      path.map Prod.snd = fiveClients ∧
      (created false path).countP (fun id => WorkerPool.fetch 2 id = 0)
        = (created false path).length / (2 + 1)
          + if (0 : Fin 3).val < (created false path).length % (2 + 1) then 1 else 0 := by
  obtain ⟨path, hrun, hacts⟩ := Run.exec fiveClients .nil
    (Option.some_get isSome_fiveClients).symm
  exact ⟨path, _, hrun, hacts, spread_of_run hrun false 0⟩

end Server

end VectorEngine
