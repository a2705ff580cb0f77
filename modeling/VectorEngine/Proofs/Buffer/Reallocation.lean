import VectorEngine.Proofs.Buffer.Growth
import VectorEngine.Transition.Potential

/-!
# `VectorEngine.Proofs.Buffer.Reallocation`: how often the storage changes

`alloc` makes the storage longer, and `dealloc` gives it up for new storage of the least size
when little data is left. `growths_le_of_run` says that the storage does not grow more often
than that: between two shrinks it grows no more often than the least size can be doubled on the
way to the limit, whatever sizes are suggested. The potential is the number of doublings that
are left. `storage_of_run` says which sizes there are at all.

It is the growths that are counted, and not the allocations. `dealloc` makes a new string whenever
it leaves less than half of the least size. Where the new string is as long as the old one, this
is neither a growth nor a shrink.
-/

set_option autoImplicit false

namespace VectorEngine.ReadBuffer

open VectorEngine.Growth
open VectorEngine.Transition

variable {b b' : ReadBuffer} {call : Call}

/-- The call makes the storage longer. -/
def grows (b : ReadBuffer) (call : Call) : Nat :=
  match b.invoke call with
  | some b' => if b.buf.length < b'.buf.length then 1 else 0
  | none => 0

/-- The call makes the storage shorter. -/
def shrinks (b : ReadBuffer) (call : Call) : Nat :=
  match b.invoke call with
  | some b' => if b'.buf.length < b.buf.length then 1 else 0
  | none => 0

/-- A call doubles the storage some times, or gives it up for storage of the least size. -/
theorem Fits.storage_invoke (h : b.Fits) (hmax : b.maxSize ≤ 2 ^ 63)
    (hcall : b.invoke call = some b') :
    (∃ i, b'.buf.length = clamped b.maxSize b.buf.length i) ∨ b'.buf.length = b.minSize := by
  have hsame : b'.buf.length = b.buf.length →
      (∃ i, b'.buf.length = clamped b.maxSize b.buf.length i) ∨ b'.buf.length = b.minSize :=
    fun heq => Or.inl ⟨0, heq.trans (clamped_zero h.le_max).symm⟩
  cases call with
  | alloc suggestedSize =>
    obtain ⟨⟨b₁, base, room⟩, halloc, rfl⟩ := Option.map_eq_some_iff.mp hcall
    obtain ⟨b₂, i, halloc₂, -, -, -, -, -, hlen, -⟩ :=
      alloc_grows h suggestedSize (no_wrap_of_le hmax b.size suggestedSize b.buf.length)
    cases (ok_of_toOption halloc).symm.trans halloc₂
    exact Or.inl ⟨i, hlen⟩
  | write first bytes =>
    obtain ⟨hinside, hb'⟩ := Option.ite_none_right_eq_some.mp hcall
    cases hb'
    exact hsame (length_copyTo hinside)
  | occupy size =>
    have hoccupy : b.occupy size = .ok b' := ok_of_toOption hcall
    obtain ⟨-, -, hresult⟩ := ok_of_bind hoccupy
    cases hresult
    exact hsame rfl
  | dealloc size =>
    have hdealloc : b.dealloc size = .ok b' := ok_of_toOption hcall
    have hmin := h.min_le
    have hsize := h.size_le
    obtain ⟨_, hcheck, hresult⟩ := ok_of_bind hdealloc
    have hle : 0 < size ∧ size ≤ b.size := by
      unfold check at hcheck
      by_contra hnot
      rw [if_neg hnot] at hcheck
      cases hcheck
    have hmaxlt := h.max_lt
    have hlemax := h.le_max
    have hsub : sizeSub b.size size = b.size - size := sizeSub_of_le hle.2 (by omega)
    have hrest : ((b.buf.drop size).take (b.size - size)).length = b.size - size := by
      rw [List.length_take, List.length_drop]
      omega
    rw [hsub] at hresult
    by_cases hshrink : b.size - size < b.minSize / 2
    · simp only [if_pos hshrink] at hresult
      cases hresult
      refine Or.inr ?_
      show (copyTo (List.replicate b.minSize (0 : Byte)) 0 _).length = b.minSize
      rw [length_copyTo (by rw [hrest, List.length_replicate]; omega), List.length_replicate]
    · simp only [if_neg hshrink] at hresult
      cases hresult
      exact hsame (length_copyTo (by omega))

/-- Storage that grows is doubled at least, or reaches the limit. -/
theorem Fits.grown_le (h : b.Fits) (hmax : b.maxSize ≤ 2 ^ 63)
    (hcall : b.invoke call = some b') (hlonger : b.buf.length < b'.buf.length) :
    min (b.buf.length * 2) b.maxSize ≤ b'.buf.length := by
  rcases h.storage_invoke hmax hcall with ⟨i, hlen⟩ | hshrunk
  · -- It is doubled once or more.
    have hround : 1 ≤ i := by
      by_contra hzero
      rw [show i = 0 by omega, clamped_zero h.le_max] at hlen
      omega
    have hmono : clamped b.maxSize b.buf.length 1 ≤ clamped b.maxSize b.buf.length i :=
      clamped_mono hround
    rw [clamped, Nat.pow_one, ← hlen] at hmono
    exact hmono
  · have hmin := h.min_le
    omega

/-- A growth takes a doubling off what is left, and a shrink puts back all of them. -/
theorem doublings_invoke (h : b.Fits) (hmax : b.maxSize ≤ 2 ^ 63)
    (hcall : b.invoke call = some b') :
    doublings b'.maxSize b'.buf.length + b.grows call
      ≤ doublings b.maxSize b.buf.length + doublings b.maxSize b.minSize * b.shrinks call := by
  obtain ⟨hfits', hmin', hlimit'⟩ := h.invoke hcall
  have hpos : 0 < b.buf.length := Nat.lt_of_lt_of_le h.min_pos h.min_le
  have hgrows : b.grows call = if b.buf.length < b'.buf.length then 1 else 0 := by
    unfold grows
    rw [hcall]
  have hshrinks : b.shrinks call = if b'.buf.length < b.buf.length then 1 else 0 := by
    unfold shrinks
    rw [hcall]
  rw [hgrows, hshrinks, hlimit']
  rcases Nat.lt_trichotomy b.buf.length b'.buf.length with hlonger | hsame | hshorter
  · have hle' := hfits'.le_max
    have hless : doublings b.maxSize b'.buf.length < doublings b.maxSize b.buf.length :=
      doublings_lt hpos (by omega) (h.grown_le hmax hcall hlonger)
    rw [if_pos hlonger, if_neg (by omega)]
    omega
  · rw [if_neg (by omega), if_neg (by omega), hsame]
    omega
  · have hall : doublings b.maxSize b'.buf.length ≤ doublings b.maxSize b.minSize :=
      doublings_anti h.min_pos (hmin' ▸ hfits'.min_le)
    rw [if_neg (by omega), if_pos hshorter]
    omega

/-- A new buffer. -/
theorem fits_init {minSize maxSize : Nat} (hmin : 0 < minSize) (hle : minSize ≤ maxSize)
    (hmax : maxSize ≤ 2 ^ 63) :
    Fits { minSize := minSize, maxSize := maxSize, size := 0,
           buf := List.replicate minSize 0 } :=
  ⟨hmin, Nat.lt_of_le_of_lt hmax (by decide), Nat.zero_le _, by simp, by simpa using hle⟩

/-- **The storage grows no more often than it shrinks, up to a logarithm.** Between any limits up
to `2 ^ 63`, after any calls with any arguments: the number of calls that made the storage longer
is at most the number of doublings from the least size to the limit, once for each call that made
the storage shorter and once more. Between two shrinks the storage only grows, and it grows by a
doubling at least, so that the potential is the number of doublings that are left. -/
theorem growths_le_of_run {minSize maxSize : Nat} (hmin : 0 < minSize) (hle : minSize ≤ maxSize)
    (hmax : maxSize ≤ 2 ^ 63) :
    ∃ b₀, init minSize maxSize = .ok b₀ ∧ ∀ path b, Run invoke b₀ path b →
      total grows path ≤ doublings maxSize minSize * (total shrinks path + 1) := by
  refine ⟨_, init_ok hmin hle, fun path b hrun => ?_⟩
  -- The limits stay, and each call pays for its growth.
  have hstep : ∀ (b : ReadBuffer) (call : Call) (b' : ReadBuffer),
      (b.Fits ∧ b.minSize = minSize ∧ b.maxSize = maxSize) → b.invoke call = some b' →
      (b'.Fits ∧ b'.minSize = minSize ∧ b'.maxSize = maxSize) ∧
        doublings b'.maxSize b'.buf.length + b.grows call
          ≤ doublings b.maxSize b.buf.length + doublings maxSize minSize * b.shrinks call := by
    rintro b call b' ⟨hfits, rfl, rfl⟩ hcall
    obtain ⟨hfits', hmin', hmax'⟩ := hfits.invoke hcall
    exact ⟨⟨hfits', hmin', hmax'⟩, doublings_invoke hfits hmax hcall⟩
  obtain ⟨-, hpaid⟩ := hrun.work_le hstep ⟨fits_init hmin hle hmax, rfl, rfl⟩
  rw [total_mul] at hpaid
  simp only [List.length_replicate] at hpaid
  rw [Nat.mul_add, Nat.mul_one]
  omega

/-- Between the limits 4 and 64, the storage grows twice for a request, and shrinks behind it. -/
def twiceActions : List Call :=
  [.alloc 8, .occupy 8, .alloc 32, .dealloc 8, .alloc 64]

/-- The bound at limits 4 to 64, where four doublings lead from one to the other. The run of
`twiceActions` exists, and the bound holds for it as for every other run. -/
theorem growths_le_of_run_twice :
    ∃ b₀, init 4 64 = .ok b₀ ∧ (exec invoke b₀ twiceActions).isSome = true ∧
      ∀ path b, Run invoke b₀ path b →
        total grows path ≤ doublings 64 4 * (total shrinks path + 1) := by
  obtain ⟨b₀, hinit, hall⟩ := @growths_le_of_run 4 64 (by decide) (by decide) (by decide)
  cases hinit
  exact ⟨_, rfl, by decide +kernel, hall⟩

/-- **The sizes that the storage can have.** Between any limits up to `2 ^ 63`, after any calls
with any arguments: the storage has the least size or a clamped doubling of it. So there are no
more sizes than doublings on the way to the limit, and one. -/
theorem storage_of_run {minSize maxSize : Nat} (hmin : 0 < minSize) (hle : minSize ≤ maxSize)
    (hmax : maxSize ≤ 2 ^ 63) :
    ∃ b₀, init minSize maxSize = .ok b₀ ∧ ∀ path b, Run invoke b₀ path b →
      ∃ i, i ≤ doublings maxSize minSize ∧ b.buf.length = clamped maxSize minSize i := by
  refine ⟨_, init_ok hmin hle, fun path b hrun => ?_⟩
  have hstep : ∀ (b : ReadBuffer) (call : Call) (b' : ReadBuffer),
      (b.Fits ∧ b.minSize = minSize ∧ b.maxSize = maxSize ∧
        ∃ i, b.buf.length = clamped maxSize minSize i) → True → b.invoke call = some b' →
      b'.Fits ∧ b'.minSize = minSize ∧ b'.maxSize = maxSize ∧
        ∃ i, b'.buf.length = clamped maxSize minSize i := by
    rintro b call b' ⟨hfits, rfl, rfl, i, hlen⟩ - hcall
    obtain ⟨hfits', hmin', hmax'⟩ := hfits.invoke hcall
    refine ⟨hfits', hmin', hmax', ?_⟩
    rcases hfits.storage_invoke hmax hcall with ⟨j, hlen'⟩ | hshrunk
    · exact ⟨i + j, by rw [hlen', hlen, clamped_clamped]⟩
    · exact ⟨0, by rw [hshrunk, clamped_zero hle]⟩
  have hstart : (List.replicate minSize (0 : Byte)).length = clamped maxSize minSize 0 := by
    rw [List.length_replicate, clamped_zero hle]
  obtain ⟨-, -, -, i, hlen⟩ := (hrun.invariant hstep
    ⟨fits_init hmin hle hmax, rfl, rfl, 0, hstart⟩ fun _ _ => trivial).1
  -- Behind the last doubling nothing changes.
  by_cases hi : i ≤ doublings maxSize minSize
  · exact ⟨i, hi, hlen⟩
  · refine ⟨doublings maxSize minSize, Nat.le_refl _, ?_⟩
    rw [hlen, clamped_of_doublings_le hmin (by omega),
      clamped_of_doublings_le hmin (Nat.le_refl _)]

/-- The sizes at limits 4 to 64: after any calls the storage is one of the five sizes from 4 to
64. -/
theorem storage_of_run_twice :
    ∃ b₀, init 4 64 = .ok b₀ ∧ (exec invoke b₀ twiceActions).isSome = true ∧
      ∀ path b, Run invoke b₀ path b →
        ∃ i, i ≤ doublings 64 4 ∧ b.buf.length = clamped 64 4 i := by
  obtain ⟨b₀, hinit, hall⟩ := @storage_of_run 4 64 (by decide) (by decide) (by decide)
  cases hinit
  exact ⟨_, rfl, by decide +kernel, hall⟩

end VectorEngine.ReadBuffer
