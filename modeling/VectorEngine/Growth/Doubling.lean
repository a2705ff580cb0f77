import Mathlib.Algebra.Group.Nat.Defs
import Mathlib.Algebra.Order.Floor.Div
import Mathlib.Data.Nat.Log
import Mathlib.Order.Bounds.Basic

/-!
# `VectorEngine.Growth.Doubling`: sizes that are doubled up to a limit

A container that grows takes the sizes `c`, `2c`, `4c`, …, each clamped to a limit. A loop that
tries them in this order stops at the least one that suffices (`isLeast_of_first`), or finds
none (`none_of_limit`).

In words of `w` bits the doublings end before the limit does: `top w c` is the largest of them
that a word holds. `no_wrap_iff` says when a search for room ends at `top` or before.

`doublings limit c` is how often `c` is doubled on the way to the limit. It is a potential: each
growth lowers it (`doublings_lt`).
-/

set_option autoImplicit false

namespace VectorEngine.Growth

/-- The size after `i` doublings, clamped to the limit. -/
def clamped (limit c i : Nat) : Nat := min (c * 2 ^ i) limit

variable {limit c i j : Nat}

/-- Before the first doubling the capacity is the one that the storage was made with. -/
theorem clamped_zero (h : c ≤ limit) : clamped limit c 0 = c := by
  unfold clamped
  rw [Nat.pow_zero, Nat.mul_one]
  exact Nat.min_eq_left h

/-- No number of doublings leads above the limit. -/
theorem clamped_le_limit (limit c i : Nat) : clamped limit c i ≤ limit := Nat.min_le_right _ _

/-- Clamping the sizes on the way makes no difference. -/
theorem clamped_succ (limit c i : Nat) :
    clamped limit c (i + 1) = min (clamped limit c i * 2) limit := by
  unfold clamped
  rw [Nat.pow_succ, ← Nat.mul_assoc]
  omega

/-- More doublings never make the capacity smaller. So the first one that is large enough is the
least. -/
theorem clamped_mono (h : i ≤ j) : clamped limit c i ≤ clamped limit c j := by
  have hpow : c * 2 ^ i ≤ c * 2 ^ j :=
    Nat.mul_le_mul_left c (Nat.pow_le_pow_right (by decide) h)
  unfold clamped
  omega

/-- Doubling never leads below the capacity that it started from. -/
theorem le_clamped (h : c ≤ limit) (i : Nat) : c ≤ clamped limit c i := by
  calc c = clamped limit c 0 := (clamped_zero h).symm
    _ ≤ clamped limit c i := clamped_mono (Nat.zero_le i)

/-- A capacity below the limit was not clamped, and is a plain power of two times the start. -/
theorem clamped_of_lt (h : clamped limit c i < limit) : clamped limit c i = c * 2 ^ i := by
  unfold clamped at h ⊢
  omega

/-- From the doubling on that reaches the limit, the capacity is the limit. -/
theorem clamped_of_le (h : limit ≤ c * 2 ^ i) : clamped limit c i = limit :=
  Nat.min_eq_right h

/-- A clamped size that is doubled and clamped again. -/
theorem clamped_clamped (limit c i j : Nat) :
    clamped limit (clamped limit c i) j = clamped limit c (i + j) := by
  induction j with
  | zero =>
    rw [clamped_zero (clamped_le_limit limit c i)]
    rfl
  | succ j ih => rw [clamped_succ, ih, ← Nat.add_assoc, clamped_succ]

/-! ### The first size that suffices -/

/-- The clamped doublings that leave room for `need` behind `used`. -/
def Roomy (limit c used need : Nat) : Set Nat :=
  { s | (∃ i, s = clamped limit c i) ∧ need ≤ s - used }

variable {used need : Nat}

/-- The first size with enough room is the least. -/
theorem isLeast_of_first (henough : need ≤ clamped limit c i - used)
    (hbefore : ∀ m, m < i → clamped limit c m - used < need) :
    IsLeast (Roomy limit c used need) (clamped limit c i) := by
  refine ⟨⟨⟨i, rfl⟩, henough⟩, ?_⟩
  rintro s ⟨⟨m, rfl⟩, hm⟩
  by_cases hlt : m < i
  · have hshort := hbefore m hlt
    omega
  · exact clamped_mono (by omega)

/-- At the limit without enough room, no size has enough. -/
theorem none_of_limit (hlimit : limit - used < need) : Roomy limit c used need = ∅ := by
  refine Set.eq_empty_iff_forall_notMem.mpr ?_
  rintro s ⟨⟨m, rfl⟩, hm⟩
  have hle := clamped_le_limit limit c m
  omega

/-! ### The last doubling that a word holds -/

/-- The largest of `c`, `2c`, `4c`, … below `2 ^ w`. -/
def top (w c : Nat) : Nat := c * 2 ^ (w - 1 - Nat.log 2 c)

variable {w : Nat}

/-- A number of `w` bits has its highest bit below `w`. -/
theorem log_lt (hpos : 0 < c) (hc : c < 2 ^ w) : Nat.log 2 c < w :=
  Nat.log_lt_of_lt_pow (by omega) hc

/-- The largest doubling that does not wrap is itself in range. -/
theorem top_lt (hpos : 0 < c) (hc : c < 2 ^ w) : top w c < 2 ^ w := by
  have hlog := log_lt hpos hc
  calc c * 2 ^ (w - 1 - Nat.log 2 c)
      < 2 ^ (Nat.log 2 c + 1) * 2 ^ (w - 1 - Nat.log 2 c) :=
        Nat.mul_lt_mul_of_pos_right (Nat.lt_pow_succ_log_self (by decide) c) (Nat.two_pow_pos _)
    _ = 2 ^ w := by
        rw [← Nat.pow_add]
        congr 1
        omega

/-- One more doubling leaves the word. -/
theorem le_top_mul_two (hpos : 0 < c) (hc : c < 2 ^ w) : 2 ^ w ≤ top w c * 2 := by
  have hlog := log_lt hpos hc
  calc 2 ^ w = 2 ^ Nat.log 2 c * 2 ^ (w - 1 - Nat.log 2 c) * 2 := by
        rw [← Nat.pow_add, ← Nat.pow_succ]
        congr 1
        omega
    _ ≤ c * 2 ^ (w - 1 - Nat.log 2 c) * 2 :=
        Nat.mul_le_mul_right 2 (Nat.mul_le_mul_right _ (Nat.pow_log_le_self 2 (by omega)))

/-- A doubling below `top` is not the last before it. -/
theorem mul_two_le_top (h : c * 2 ^ i < top w c) : c * 2 ^ i * 2 ≤ top w c := by
  unfold top at h ⊢
  have hlt : i < w - 1 - Nat.log 2 c := by
    rw [← Nat.not_le]
    intro hle
    have hpow : c * 2 ^ (w - 1 - Nat.log 2 c) ≤ c * 2 ^ i :=
      Nat.mul_le_mul_left c (Nat.pow_le_pow_right (by decide) hle)
    omega
  rw [Nat.mul_assoc, ← Nat.pow_succ]
  exact Nat.mul_le_mul_left c (Nat.pow_le_pow_right (by decide) hlt)

/-- Doubling for room behind `used` never leaves the word exactly when the limit is reached at
`top`, or `top` has enough room. -/
theorem no_wrap_iff (hpos : 0 < c) (hc : c < 2 ^ w) :
    (∀ i, clamped limit c i < limit → clamped limit c i - used < need →
        clamped limit c i * 2 < 2 ^ w) ↔
      limit ≤ top w c ∨ need ≤ top w c - used := by
  have hlt := top_lt hpos hc
  have hdouble := le_top_mul_two hpos hc
  constructor
  · intro h
    by_contra hneither
    rw [not_or, Nat.not_le, Nat.not_le] at hneither
    -- The search does not stop at `top` either, and doubles it.
    have htop : clamped limit c (w - 1 - Nat.log 2 c) = top w c :=
      Nat.min_eq_left hneither.1.le
    have hwrap := h (w - 1 - Nat.log 2 c) (by omega) (by omega)
    omega
  · intro hor i hlimit hshort
    have hsize := clamped_of_lt hlimit
    rw [hsize] at hlimit hshort ⊢
    have hbelow : c * 2 ^ i < top w c := by omega
    have hnext := mul_two_le_top hbelow
    omega

/-! ### How often a size can be doubled -/

/-- The number of doublings that take `c` to the limit or beyond. -/
def doublings (limit c : Nat) : Nat := Nat.clog 2 (limit ⌈/⌉ c)

/-- `doublings` is the least number of doublings that reaches the limit: any other number does if
and only if it is no smaller. -/
theorem doublings_le_iff (hpos : 0 < c) : doublings limit c ≤ j ↔ limit ≤ c * 2 ^ j := by
  unfold doublings
  rw [Nat.clog_le_iff_le_pow (by decide), ceilDiv_le_iff_le_mul hpos]

/-- From there on the clamped sizes are the limit. -/
theorem clamped_of_doublings_le (hpos : 0 < c) (h : doublings limit c ≤ i) :
    clamped limit c i = limit :=
  clamped_of_le ((doublings_le_iff hpos).mp h)

/-- A larger size has fewer doublings before it. -/
theorem doublings_anti {c' : Nat} (hpos : 0 < c) (hle : c ≤ c') :
    doublings limit c' ≤ doublings limit c := by
  rw [doublings_le_iff (by omega)]
  calc limit ≤ c * 2 ^ doublings limit c := (doublings_le_iff hpos).mp (Nat.le_refl _)
    _ ≤ c' * 2 ^ doublings limit c := Nat.mul_le_mul_right _ hle

/-- A size that was doubled and clamped has one doubling less before it. -/
theorem doublings_lt {c' : Nat} (hpos : 0 < c) (hlt : c < limit)
    (hgrown : min (c * 2) limit ≤ c') : doublings limit c' < doublings limit c := by
  have hreach : limit ≤ c * 2 ^ doublings limit c := (doublings_le_iff hpos).mp (Nat.le_refl _)
  -- Below the limit there is a doubling to make.
  obtain ⟨k, hk⟩ : ∃ k, doublings limit c = k + 1 := by
    refine Nat.exists_eq_succ_of_ne_zero fun hzero => ?_
    rw [hzero, Nat.pow_zero, Nat.mul_one] at hreach
    omega
  rw [hk, Nat.pow_succ, Nat.mul_comm (2 ^ k), ← Nat.mul_assoc] at hreach
  rw [hk, Nat.lt_succ_iff, doublings_le_iff (by omega)]
  rcases Nat.le_total (c * 2) limit with hle | hle
  · rw [Nat.min_eq_left hle] at hgrown
    exact Nat.le_trans hreach (Nat.mul_le_mul_right _ hgrown)
  · rw [Nat.min_eq_right hle] at hgrown
    calc limit ≤ c' * 1 := by omega
      _ ≤ c' * 2 ^ k := Nat.mul_le_mul_left _ (Nat.two_pow_pos k)

end VectorEngine.Growth
