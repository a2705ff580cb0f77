import VectorEngine.ReadBuffer
import VectorEngine.Transition.Run

/-!
# `VectorEngine.Proofs.Buffer.Growth`: how the storage of a read buffer grows

`Call` is whatever happens to a read buffer: calls of its methods that return, in any order and
with any arguments, and writes anywhere inside its storage. `fits_of_run` says that the data
stays inside the storage and the storage inside the limits. The two results about `alloc` are
about every buffer that such calls lead to.

* `alloc_grows_least`: with a limit up to `2 ^ 63`, the new storage has the least of the doubled
  and clamped sizes that leaves as much room as suggested, or its largest size.
* `growth_safe_iff`: with any limit, the growth loop ends without a wrap exactly when the limit
  is reached, or enough room found, at the largest doubling that a `std::size_t` holds.

The clamp to the limit stands behind the doubling. Above `2 ^ 63` the doubling can wrap first,
to zero if the storage is a power of two long, and zero is doubled for ever
(`growth_never_ends`). The loop of the model gives up after `growRounds` rounds;
`growLoop_diverges` says that no number of rounds would have been enough then.
-/

set_option autoImplicit false

namespace VectorEngine.ReadBuffer

open VectorEngine.Growth
open VectorEngine.Transition

/-- What can happen to a read buffer. -/
inductive Call where
  | alloc (suggestedSize : Nat)
  /-- Someone who holds a pointer into the storage writes there. -/
  | write (first : Nat) (bytes : ByteString)
  | occupy (size : Nat)
  | dealloc (size : Nat)
  deriving DecidableEq, Repr

/-- One call. `none` when it does not return, or when the write is not inside the storage. -/
def invoke (b : ReadBuffer) : Call → Option ReadBuffer
  | .alloc suggestedSize => (b.alloc suggestedSize).toOption.map Prod.fst
  | .write first bytes =>
    if first + bytes.length ≤ b.buf.length then some (b.write first bytes) else none
  | .occupy size => (b.occupy size).toOption
  | .dealloc size => (b.dealloc size).toOption

/-! ### What a call does to the storage -/

/-- The capacity behind one round of the growth loop. -/
def grown (maxSize capacity : Nat) : Nat :=
  if maxSize < capacity * 2 % 2 ^ 64 then maxSize else capacity * 2 % 2 ^ 64

/-- A capacity that has been clamped is no larger than the limit. -/
theorem grown_le (maxSize capacity : Nat) : grown maxSize capacity ≤ maxSize := by
  unfold grown
  split <;> omega

/-- One round of the growth loop. -/
theorem growLoop_succ (maxSize size suggestedSize rounds capacity remain : Nat) :
    growLoop maxSize size suggestedSize (rounds + 1) capacity remain =
      if remain < suggestedSize then
        if maxSize ≤ capacity then .ok (capacity, remain)
        else growLoop maxSize size suggestedSize rounds (grown maxSize capacity)
          (sizeSub (grown maxSize capacity) size)
      else .ok (capacity, remain) := rfl

/-- The loop never goes beyond the limit, whether a doubling wraps or not. -/
theorem growLoop_le {maxSize size suggestedSize : Nat} :
    ∀ (rounds capacity remain : Nat) {capacity' remain' : Nat}, capacity ≤ maxSize →
      growLoop maxSize size suggestedSize rounds capacity remain = .ok (capacity', remain') →
      capacity' ≤ maxSize := by
  intro rounds
  induction rounds with
  | zero =>
    intro capacity remain capacity' remain' hle h
    cases h
  | succ rounds ih =>
    intro capacity remain capacity' remain' hle h
    rw [growLoop_succ] at h
    split at h
    · split at h
      · cases h
        exact hle
      · exact ih _ _ (grown_le maxSize capacity) h
    · cases h
      exact hle

variable {b b' : ReadBuffer}

/-- Whatever the growth loop comes to, `alloc` only adds storage, within the limit. -/
theorem Fits.alloc (h : b.Fits) {suggestedSize base room : Nat}
    (halloc : b.alloc suggestedSize = .ok (b', base, room)) :
    b'.Fits ∧ b'.minSize = b.minSize ∧ b'.maxSize = b.maxSize := by
  have hsize := h.size_le
  have hmin := h.min_le
  -- `alloc` returned, so the loop did.
  obtain ⟨q, hrealloc, hresult⟩ := ok_of_bind halloc
  cases hresult
  have hloop : ∃ capacity remain, growLoop b.maxSize b.size suggestedSize growRounds b.buf.length
      (sizeSub b.buf.length b.size) = .ok (capacity, remain) := by
    obtain ⟨-, -, hrest⟩ := ok_of_bind hrealloc
    obtain ⟨⟨capacity, remain⟩, hloop, -⟩ := ok_of_bind hrest
    exact ⟨capacity, remain, hloop⟩
  obtain ⟨capacity, remain, hloop⟩ := hloop
  have hcap := growLoop_le _ _ _ h.le_max hloop
  rw [reallocIfNeeded_of_loop hsize hloop] at hrealloc
  by_cases hgrow : b.buf.length < capacity
  · rw [if_pos hgrow] at hrealloc
    cases hrealloc
    have hlen : (b.buf ++ List.replicate (capacity - b.buf.length) 0).length = capacity := by
      simp
      omega
    exact ⟨h.with_buf (by omega) (by omega) (by omega), rfl, rfl⟩
  · rw [if_neg hgrow] at hrealloc
    cases hrealloc
    exact ⟨h, rfl, rfl⟩

/-- The assertion of `occupy` keeps the data inside the storage, even where its sum wraps: the
new size is the sum that was compared. -/
theorem Fits.occupy (h : b.Fits) {size : Nat} (hoccupy : b.occupy size = .ok b') :
    b'.Fits ∧ b'.minSize = b.minSize ∧ b'.maxSize = b.maxSize := by
  unfold ReadBuffer.occupy check at hoccupy
  split at hoccupy
  · rename_i hle
    have hsum : sizeAdd b.size size ≤ b.buf.length := by
      unfold sizeAdd at hle ⊢
      rw [Nat.add_comm]
      exact hle
    cases hoccupy
    exact ⟨h.with_buf hsum h.min_le h.le_max, rfl, rfl⟩
  · cases hoccupy

/-- An operation that did not fail gave the value that `toOption` shows. -/
theorem ok_of_toOption {α : Type} {x : Except Abrupt α} {a : α} (h : x.toOption = some a) :
    x = .ok a := by
  cases x with
  | error e => cases h
  | ok a' =>
    cases h
    rfl

/-- One call. -/
theorem Fits.invoke (h : b.Fits) {call : Call} (hcall : b.invoke call = some b') :
    b'.Fits ∧ b'.minSize = b.minSize ∧ b'.maxSize = b.maxSize := by
  cases call with
  | alloc suggestedSize =>
    obtain ⟨⟨b₁, base, room⟩, halloc, rfl⟩ := Option.map_eq_some_iff.mp hcall
    exact h.alloc (ok_of_toOption halloc)
  | write first bytes =>
    simp only [ReadBuffer.invoke] at hcall
    split at hcall
    · rename_i hinside
      cases hcall
      -- A write inside the storage does not change its length.
      have hlen : (copyTo b.buf first bytes).length = b.buf.length := length_copyTo hinside
      refine ⟨h.with_buf ?_ ?_ ?_, rfl, rfl⟩
      · exact hlen ▸ h.size_le
      · exact hlen ▸ h.min_le
      · exact hlen ▸ h.le_max
    · cases hcall
  | occupy size => exact h.occupy (ok_of_toOption hcall)
  | dealloc size =>
    have hdealloc : b.dealloc size = .ok b' := ok_of_toOption hcall
    by_cases hsize : 0 < size ∧ size ≤ b.size
    · obtain ⟨b₁, hb₁, hfits, -, hmin, hmax⟩ := h.dealloc size hsize.1 hsize.2
      rw [hdealloc] at hb₁
      cases hb₁
      exact ⟨hfits, hmin, hmax⟩
    · unfold ReadBuffer.dealloc check at hdealloc
      rw [if_neg hsize] at hdealloc
      cases hdealloc

/-- In every buffer that calls lead to, the data is inside the storage and the storage between
the limits. -/
theorem fits_of_run {minSize maxSize : Nat} (hmin : 0 < minSize) (hle : minSize ≤ maxSize)
    (hmax : maxSize < 2 ^ 64) :
    ∃ b₀, init minSize maxSize = .ok b₀ ∧
      ∀ path b, Run invoke b₀ path b → b.Fits ∧ b.maxSize = maxSize := by
  obtain ⟨b₀, hinit, hfits₀, -, hlimit₀⟩ := init_fits hmin hle hmax
  refine ⟨b₀, hinit, fun path b hrun => ?_⟩
  -- Each call keeps the invariant and the limit.
  refine (Run.invariant (P := fun b => b.Fits ∧ b.maxSize = maxSize) (C := fun _ _ => True)
    ?_ hrun ⟨hfits₀, hlimit₀⟩ fun _ _ => trivial).1
  rintro b call b' ⟨hfits, hlimit⟩ - hcall
  obtain ⟨hfits', -, hmax'⟩ := hfits.invoke hcall
  exact ⟨hfits', hmax'.trans hlimit⟩

/-! ### The least size that suffices -/

/-- **`alloc` grows the storage to the least size that suffices.** Between any limits up to `2 ^
63`, after any calls and for any suggested size: the data stays, the room is what is behind it,
and the storage has the least of its doubled and clamped sizes that leaves as much room as
suggested, or its largest size. The room is empty only when the data fills the largest storage. A
doubling that would pass the limit is clamped to it, and counts as the last one. -/
theorem alloc_grows_least {minSize maxSize : Nat} (hmin : 0 < minSize) (hle : minSize ≤ maxSize)
    (hmax : maxSize ≤ 2 ^ 63) :
    ∃ b₀, init minSize maxSize = .ok b₀ ∧
      ∀ path b, Run invoke b₀ path b → ∀ suggestedSize,
        ∃ b', b.alloc suggestedSize = .ok (b', b.size, b'.buf.length - b.size) ∧
          b'.data = b.data ∧
          (IsLeast (Roomy maxSize b.buf.length b.size suggestedSize) b'.buf.length ∨
            Roomy maxSize b.buf.length b.size suggestedSize = ∅ ∧ b'.buf.length = maxSize) ∧
          (0 < suggestedSize → (b'.buf.length - b.size = 0 ↔ b.size = maxSize)) ∧
          b.buf.length ≤ b'.buf.length ∧ b'.buf.length ≤ maxSize := by
  obtain ⟨b₀, hinit, hreach⟩ := fits_of_run hmin hle (Nat.lt_of_le_of_lt hmax (by decide))
  refine ⟨b₀, hinit, fun path b hrun suggestedSize => ?_⟩
  obtain ⟨h, rfl⟩ := hreach path b hrun
  obtain ⟨b', i, halloc, -, hdata, -, -, -, hlen, hbefore, hstop⟩ :=
    alloc_grows h suggestedSize (no_wrap_of_le hmax b.size suggestedSize b.buf.length)
  have hsize := h.size_le
  have hcap := h.le_max
  have hgrow : b.buf.length ≤ b'.buf.length := hlen ▸ le_clamped hcap i
  have hlimit : b'.buf.length ≤ b.maxSize := hlen ▸ clamped_le_limit b.maxSize b.buf.length i
  refine ⟨b', halloc, hdata, ?_, ?_, hgrow, hlimit⟩
  · by_cases henough : suggestedSize ≤ b'.buf.length - b.size
    · rw [hlen] at henough ⊢
      exact Or.inl (isLeast_of_first henough hbefore)
    -- The loop stopped at the limit without enough room, so no smaller size has enough.
    · have hfull : b'.buf.length = b.maxSize := hstop.resolve_left henough
      rw [hfull] at henough
      exact Or.inr ⟨none_of_limit (by omega), hfull⟩
  · intro hpos
    constructor
    · intro hnone
      -- Without room the loop cannot have stopped for enough of it.
      have hfull : b'.buf.length = b.maxSize := hstop.resolve_left (by omega)
      omega
    · intro hfull
      omega

/-- Between the limits 1 and 3, with one byte of data: for two bytes of room, the storage grows
from 1 over 2 to 3, which is 4 clamped to the limit. -/
theorem alloc_grows_least_three :
    ∃ b', alloc { minSize := 1, maxSize := 3, size := 1, buf := [97] } 2 = .ok (b', 1, 2) ∧
      b'.data = [97] ∧ IsLeast (Roomy 3 1 1 2) b'.buf.length := by
  obtain ⟨b₀, hinit, hreach⟩ :=
    @alloc_grows_least 1 3 (by decide) (by decide) (by decide)
  cases hinit
  have hnew : Run invoke { minSize := 1, maxSize := 3, size := 0, buf := [0] } [] _ := .nil
  have hexec : exec invoke { minSize := 1, maxSize := 3, size := 0, buf := [0] }
      [.alloc 1, .write 0 [97], .occupy 1]
      = some { minSize := 1, maxSize := 3, size := 1, buf := [97] } := by decide +kernel
  obtain ⟨path, hrun, -⟩ := hnew.exec _ hexec
  obtain ⟨b', halloc, hdata, hleast, -⟩ := hreach path _ hrun 2
  have heval : alloc { minSize := 1, maxSize := 3, size := 1, buf := [97] } 2
      = .ok ({ minSize := 1, maxSize := 3, size := 1, buf := [97, 0, 0] }, 1, 2) := by
    decide +kernel
  rw [heval] at halloc
  cases halloc
  refine ⟨_, heval, hdata, hleast.resolve_right ?_⟩
  rintro ⟨hnone, -⟩
  have hmem : 3 ∈ Roomy 3 1 1 2 := ⟨⟨2, rfl⟩, by decide⟩
  rw [show Roomy 3 1 1 2 = ∅ from hnone] at hmem
  exact hmem

/-! ### The end of the loop -/

/-- In `alloc(suggestedSize)` the growth loop comes to its test with this capacity, and with this
much of it behind the data. The relation follows the loop turn by turn, with the wraps of its
arithmetic and with no bound on the number of turns. -/
inductive AtTest (b : ReadBuffer) (suggestedSize : Nat) : Nat → Nat → Prop where
  | first : AtTest b suggestedSize b.buf.length (sizeSub b.buf.length b.size)
  | next {capacity remain : Nat} : AtTest b suggestedSize capacity remain →
      remain < suggestedSize → capacity < b.maxSize →
      AtTest b suggestedSize (grown b.maxSize capacity)
        (sizeSub (grown b.maxSize capacity) b.size)

/-- The growth loop of `alloc(suggestedSize)` ends, no `capacity *= 2` on the way wraps, and no
`capacity - _size` underflows. -/
structure GrowthSafe (b : ReadBuffer) (suggestedSize : Nat) : Prop where
  ends : ∃ rounds result, growLoop b.maxSize b.size suggestedSize rounds b.buf.length
    (sizeSub b.buf.length b.size) = .ok result
  doubles : ∀ capacity remain, AtTest b suggestedSize capacity remain →
    remain < suggestedSize → capacity < b.maxSize → capacity * 2 < 2 ^ 64
  subtracts : ∀ capacity remain, AtTest b suggestedSize capacity remain → b.size ≤ capacity

/-- Below the limit, a doubling that does not wrap gives the next clamped size. -/
theorem grown_clamped {maxSize capacity i : Nat}
    (hdouble : clamped maxSize capacity i * 2 < 2 ^ 64) :
    grown maxSize (clamped maxSize capacity i) = clamped maxSize capacity (i + 1) := by
  unfold grown
  rw [Nat.mod_eq_of_lt hdouble, clamped_succ]
  split <;> omega

/-- The difference behind a clamped size does not underflow. -/
theorem Fits.sizeSub_clamped (h : b.Fits) (i : Nat) :
    sizeSub (clamped b.maxSize b.buf.length i) b.size
      = clamped b.maxSize b.buf.length i - b.size := by
  have hle := le_clamped h.le_max i
  have hcap := clamped_le_limit b.maxSize b.buf.length i
  have hsize := h.size_le
  have hmax := h.max_lt
  exact sizeSub_of_le (by omega) (by omega)

variable {suggestedSize : Nat}

/-- The loop comes to a clamped size when no size before it has enough room, and no doubling
before it wraps. -/
theorem atTest_clamped (h : b.Fits) : ∀ i, (∀ m, m < i →
      clamped b.maxSize b.buf.length m < b.maxSize ∧
        clamped b.maxSize b.buf.length m - b.size < suggestedSize ∧
        clamped b.maxSize b.buf.length m * 2 < 2 ^ 64) →
    AtTest b suggestedSize (clamped b.maxSize b.buf.length i)
      (clamped b.maxSize b.buf.length i - b.size) := by
  intro i
  induction i with
  | zero =>
    intro _
    have hfirst : AtTest b suggestedSize b.buf.length (sizeSub b.buf.length b.size) := .first
    rw [← h.sizeSub_clamped, clamped_zero h.le_max]
    exact hfirst
  | succ i ih =>
    intro hbefore
    obtain ⟨hlimit, hshort, hdouble⟩ := hbefore i (Nat.lt_succ_self i)
    have hlast := ih fun m hm => hbefore m (Nat.lt_succ_of_lt hm)
    have hnext := hlast.next hshort hlimit
    rw [grown_clamped hdouble, h.sizeSub_clamped] at hnext
    exact hnext

/-- As long as no doubling wraps, the loop only comes to clamped sizes. -/
theorem AtTest.exists_clamped (h : b.Fits)
    (hwrap : ∀ i, clamped b.maxSize b.buf.length i < b.maxSize →
      clamped b.maxSize b.buf.length i - b.size < suggestedSize →
      clamped b.maxSize b.buf.length i * 2 < 2 ^ 64)
    {capacity remain : Nat} (hat : AtTest b suggestedSize capacity remain) :
    ∃ i, capacity = clamped b.maxSize b.buf.length i ∧ remain = capacity - b.size := by
  induction hat with
  | first =>
    have hzero := clamped_zero h.le_max
    have hsub := h.sizeSub_clamped 0
    rw [hzero] at hsub
    exact ⟨0, hzero.symm, hsub⟩
  | next _ hshort hlimit ih =>
    obtain ⟨i, rfl, rfl⟩ := ih
    have hdouble := hwrap i hlimit hshort
    refine ⟨i + 1, grown_clamped hdouble, ?_⟩
    rw [grown_clamped hdouble, h.sizeSub_clamped]

/-- The loop is safe exactly when it doubles no clamped size out of the range. -/
theorem growthSafe_iff_no_wrap (h : b.Fits) :
    GrowthSafe b suggestedSize ↔
      ∀ i, clamped b.maxSize b.buf.length i < b.maxSize →
        clamped b.maxSize b.buf.length i - b.size < suggestedSize →
        clamped b.maxSize b.buf.length i * 2 < 2 ^ 64 := by
  constructor
  · intro hsafe i
    -- The loop comes to every clamped size that is not the last.
    induction i using Nat.strong_induction_on with
    | _ i ih =>
      intro hlimit hshort
      refine hsafe.doubles _ _ (atTest_clamped h i fun m hm => ?_) hshort hlimit
      have hmono : clamped b.maxSize b.buf.length m ≤ clamped b.maxSize b.buf.length i :=
        clamped_mono hm.le
      exact ⟨by omega, by omega, ih m hm (by omega) (by omega)⟩
  · intro hwrap
    refine ⟨?_, ?_, ?_⟩
    · have hpos : 1 ≤ b.buf.length := Nat.le_trans h.min_pos h.min_le
      have hmax := h.max_lt
      have hrounds : b.maxSize ≤ b.buf.length * 2 ^ (0 + 64) := by
        calc b.maxSize ≤ 1 * 2 ^ (0 + 64) := by omega
          _ ≤ b.buf.length * 2 ^ (0 + 64) := Nat.mul_le_mul_right _ hpos
      obtain ⟨j, hloop, -⟩ :=
        growLoop_clamped hmax h.size_le h.le_max hwrap 64 0 hrounds
      rw [← h.sizeSub_clamped, clamped_zero h.le_max] at hloop
      exact ⟨_, _, hloop⟩
    · intro capacity remain hat hshort hlimit
      obtain ⟨i, rfl, rfl⟩ := hat.exists_clamped h hwrap
      exact hwrap i hlimit hshort
    · intro capacity remain hat
      obtain ⟨i, rfl, -⟩ := hat.exists_clamped h hwrap
      exact Nat.le_trans h.size_le (le_clamped h.le_max i)

/-- **When the growth loop ends.** Between any limits that the constructor admits, after any
calls and for any suggested size: the loop ends without a wrap exactly when the largest doubling
of the storage that a `std::size_t` holds reaches the limit, or leaves as much room as
suggested. -/
theorem growth_safe_iff {minSize maxSize : Nat} (hmin : 0 < minSize) (hle : minSize ≤ maxSize)
    (hmax : maxSize < 2 ^ 64) :
    ∃ b₀, init minSize maxSize = .ok b₀ ∧
      ∀ path b, Run invoke b₀ path b → ∀ suggestedSize,
        (GrowthSafe b suggestedSize ↔
          maxSize ≤ top 64 b.buf.length ∨ suggestedSize ≤ top 64 b.buf.length - b.size) := by
  obtain ⟨b₀, hinit, hreach⟩ := fits_of_run hmin hle hmax
  refine ⟨b₀, hinit, fun path b hrun suggestedSize => ?_⟩
  obtain ⟨h, rfl⟩ := hreach path b hrun
  have hpos : 0 < b.buf.length := Nat.lt_of_lt_of_le h.min_pos h.min_le
  rw [growthSafe_iff_no_wrap h]
  exact no_wrap_iff hpos (Nat.lt_of_le_of_lt h.le_max h.max_lt)

/-- A new buffer between the limits 16 and 64. For a suggested size of 65536, which is more than
the limit, the loop ends at the limit. -/
theorem growth_safe_iff_small :
    GrowthSafe { minSize := 16, maxSize := 64, size := 0, buf := List.replicate 16 0 } 65536 := by
  obtain ⟨b₀, hinit, hreach⟩ := @growth_safe_iff 16 64 (by decide) (by decide) (by decide)
  cases hinit
  refine (hreach [] _ .nil 65536).mpr (Or.inl ?_)
  have htop := @le_top_mul_two 16 64 (by decide) (by decide)
  rw [List.length_replicate]
  omega

/-! ### Where it does not end -/

variable {maxSize size : Nat}

/-- A round after which the loop does not end is neither the last one nor at the limit. -/
theorem growLoop_succ_diverges {rounds capacity remain : Nat} :
    growLoop maxSize size suggestedSize (rounds + 1) capacity remain = .error .diverges ↔
      remain < suggestedSize ∧ ¬ maxSize ≤ capacity ∧
        growLoop maxSize size suggestedSize rounds (grown maxSize capacity)
          (sizeSub (grown maxSize capacity) size) = .error .diverges := by
  rw [growLoop_succ]
  by_cases hshort : remain < suggestedSize
  · by_cases hlimit : maxSize ≤ capacity
    · simp [hshort, hlimit]
    · simp [hshort, hlimit]
  · simp [hshort]

/-- Doubling zero gives zero: a capacity that has wrapped never grows again. -/
theorem grown_zero (maxSize : Nat) : grown maxSize 0 = 0 := by
  simp [grown]

/-- Zero is doubled for ever. -/
theorem growLoop_zero (hlimit : ¬ maxSize ≤ 0) (hshort : sizeSub 0 size < suggestedSize) :
    ∀ rounds, growLoop maxSize size suggestedSize rounds 0 (sizeSub 0 size)
      = .error .diverges := by
  intro rounds
  induction rounds with
  | zero => rfl
  | succ rounds ih =>
    refine growLoop_succ_diverges.mpr ⟨hshort, hlimit, ?_⟩
    rw [grown_zero]
    exact ih

/-- A loop that is not over two rounds after the doublings have wrapped to zero never ends. -/
theorem growLoop_diverges_of_wrap : ∀ (i capacity remain : Nat), capacity < 2 ^ 64 →
    capacity * 2 ^ i % 2 ^ 64 = 0 →
    growLoop maxSize size suggestedSize (i + 2) capacity remain = .error .diverges →
    ∀ rounds, growLoop maxSize size suggestedSize rounds capacity remain = .error .diverges := by
  intro i
  induction i with
  | zero =>
    intro capacity remain hlt hzero h rounds
    have hcap : capacity = 0 := by omega
    subst hcap
    obtain ⟨hremain, hlimit, hnext⟩ := growLoop_succ_diverges.mp h
    rw [grown_zero] at hnext
    -- The next test is at zero already, and all further ones are.
    obtain ⟨hshort, -, -⟩ := growLoop_succ_diverges.mp hnext
    cases rounds with
    | zero => rfl
    | succ rounds =>
      refine growLoop_succ_diverges.mpr ⟨hremain, hlimit, ?_⟩
      rw [grown_zero]
      exact growLoop_zero hlimit hshort rounds
  | succ i ih =>
    intro capacity remain hlt hzero h rounds
    obtain ⟨hremain, hlimit, hnext⟩ := growLoop_succ_diverges.mp h
    have hclamp : ¬ maxSize < capacity * 2 % 2 ^ 64 := by
      intro hclamp
      -- Clamped to the limit, the loop would have stopped at its next test.
      have hgrown : grown maxSize capacity = maxSize := if_pos hclamp
      rw [hgrown] at hnext
      obtain ⟨-, hbelow, -⟩ := growLoop_succ_diverges.mp hnext
      exact hbelow (Nat.le_refl maxSize)
    have hgrown : grown maxSize capacity = capacity * 2 % 2 ^ 64 := if_neg hclamp
    have hfewer : capacity * 2 % 2 ^ 64 * 2 ^ i % 2 ^ 64 = 0 := by
      rw [Nat.mod_mul_mod, Nat.mul_assoc, Nat.mul_comm 2, ← Nat.pow_succ]
      exact hzero
    cases rounds with
    | zero => rfl
    | succ rounds =>
      refine growLoop_succ_diverges.mpr ⟨hremain, hlimit, ?_⟩
      rw [hgrown] at hnext ⊢
      exact ih _ _ (Nat.mod_lt _ (by decide)) hfewer hnext rounds

/-- What does not end in `growRounds` rounds never ends: 64 doublings leave nothing of any
size. -/
theorem growLoop_diverges {capacity remain : Nat} (hlt : capacity < 2 ^ 64)
    (h : growLoop maxSize size suggestedSize growRounds capacity remain = .error .diverges) :
    ∀ rounds, growLoop maxSize size suggestedSize rounds capacity remain = .error .diverges :=
  growLoop_diverges_of_wrap 64 capacity remain hlt (Nat.mul_mod_left capacity (2 ^ 64)) h

/-- A new buffer between the limits 1 and `2 ^ 64 - 1` is asked for `2 ^ 64 - 1` bytes. The
doublings go from 1 to `2 ^ 63` and on to zero, and the loop never ends. -/
theorem growth_never_ends :
    ∃ b, init 1 (2 ^ 64 - 1) = .ok b ∧ Run invoke b [] b ∧
      (∀ rounds, growLoop b.maxSize b.size (2 ^ 64 - 1) rounds b.buf.length
        (sizeSub b.buf.length b.size) = .error .diverges) ∧
      ¬ GrowthSafe b (2 ^ 64 - 1) := by
  have hforever : ∀ rounds, growLoop (2 ^ 64 - 1) 0 (2 ^ 64 - 1) rounds 1 (sizeSub 1 0)
      = .error .diverges := growLoop_diverges (by decide) (by decide +kernel)
  refine ⟨_, init_ok (by decide) (by decide), .nil, hforever, fun hsafe => ?_⟩
  obtain ⟨rounds, result, hends⟩ := hsafe.ends
  have hboth := (hforever rounds).symm.trans hends
  cases hboth

end VectorEngine.ReadBuffer
