import VectorEngine.Basic
import VectorEngine.Growth.Doubling

/-!
# `VectorEngine.ReadBuffer`: `ReadBuffer`

The buffer is a string `_buf`, of which the first `_size` bytes are data. `alloc` makes room
behind the data and hands the room out, `occupy` takes over what was written there, and
`dealloc` removes bytes from the front.

The storage of `_buf` itself is granted: `resize` does not throw in this model.

The growth loop of `_realloc_if_needed` counts down from `growRounds`. Doubling a size 64
times passes every limit or wraps to zero, and zero is doubled for ever. `growLoop_diverges`
(`Proofs/Buffer/Growth.lean`) shows that what does not end in so many rounds never ends.
-/

set_option autoImplicit false

namespace VectorEngine

open VectorEngine.Growth

/-- The members of `ReadBuffer`: the two limits, the number of bytes that were received, and the
string that they are at the front of. -/
structure ReadBuffer where
  minSize : Nat
  maxSize : Nat
  size : Nat
  buf : ByteString
  deriving DecidableEq, Repr

/-- `std::copy`: `src` in the place of the bytes of `dst` from `first` on. -/
def copyTo (dst : ByteString) (first : Nat) (src : ByteString) : ByteString :=
  dst.take first ++ src ++ dst.drop (first + src.length)

namespace ReadBuffer

/-- `assert` -/
def check (condition : String) (p : Prop) [Decidable p] : Except Abrupt Unit :=
  if p then .ok () else .error (.assertion condition)

/-- `ReadBuffer::ReadBuffer` -/
def init (minSize maxSize : Nat) : Except Abrupt ReadBuffer := do
  check "_min_size > 0 && _min_size <= _max_size" (0 < minSize ∧ minSize ≤ maxSize)
  return { minSize := minSize, maxSize := maxSize, size := 0,
           buf := List.replicate minSize 0 }

/-- `ReadBuffer::data` -/
def data (b : ReadBuffer) : ByteString := b.buf.take b.size

/-- The number of rounds after which the growth loop is known not to end. -/
def growRounds : Nat := 66

/-- The growth loop of `_realloc_if_needed`. It returns the capacity and what remains of it
behind the data. -/
def growLoop (maxSize size suggestedSize : Nat) : Nat → Nat → Nat → Except Abrupt (Nat × Nat)
  | 0, _, _ => .error .diverges
  | rounds + 1, capacity, remain =>
    if remain < suggestedSize then
      if maxSize ≤ capacity then
        -- The limit is reached already.
        .ok (capacity, remain)
      else
        let doubled := capacity * 2 % 2 ^ 64
        let capacity := if maxSize < doubled then maxSize else doubled
        growLoop maxSize size suggestedSize rounds capacity (sizeSub capacity size)
    else
      .ok (capacity, remain)

/-- `ReadBuffer::_realloc_if_needed` -/
def reallocIfNeeded (b : ReadBuffer) (suggestedSize : Nat) :
    Except Abrupt (ReadBuffer × Nat) := do
  check "capacity >= _size" (b.size ≤ b.buf.length)
  let (capacity, remain) ←
    growLoop b.maxSize b.size suggestedSize growRounds b.buf.length
      (sizeSub b.buf.length b.size)
  if b.buf.length < capacity then
    return ({ b with buf := b.buf ++ List.replicate (capacity - b.buf.length) 0 }, remain)
  else
    return (b, remain)

/-- `ReadBuffer::alloc`: the offset of the room in `_buf`, and its length. -/
def alloc (b : ReadBuffer) (suggestedSize : Nat) : Except Abrupt (ReadBuffer × Nat × Nat) := do
  let (b, remain) ← b.reallocIfNeeded suggestedSize
  return (b, b.size, remain)

/-- What libuv does between `alloc` and `occupy`: it writes at the pointer it was given. -/
def write (b : ReadBuffer) (first : Nat) (bytes : ByteString) : ReadBuffer :=
  { b with buf := copyTo b.buf first bytes }

/-- `ReadBuffer::occupy` -/
def occupy (b : ReadBuffer) (size : Nat) : Except Abrupt ReadBuffer := do
  check "size + _size <= _buf.size()" (sizeAdd size b.size ≤ b.buf.length)
  return { b with size := sizeAdd b.size size }

/-- `ReadBuffer::dealloc` -/
def dealloc (b : ReadBuffer) (size : Nat) : Except Abrupt ReadBuffer := do
  check "size > 0 && size <= _size" (0 < size ∧ size ≤ b.size)
  let rest := (b.buf.drop size).take (b.size - size)
  let buf :=
    if sizeSub b.size size < b.minSize / 2 then
      copyTo (List.replicate b.minSize 0) 0 rest
    else
      copyTo b.buf 0 rest
  return { b with buf := buf, size := sizeSub b.size size }

/-! ### The invariant -/

/-- The data lies inside the storage, and the storage inside the limits. The last bound is what
`std::string::max_size` leaves of the sizes. Behind it a doubling of the capacity can wrap. -/
structure Wf (b : ReadBuffer) : Prop where
  min_pos : 0 < b.minSize
  max_le : b.maxSize ≤ 2 ^ 63
  size_le : b.size ≤ b.buf.length
  min_le : b.minSize ≤ b.buf.length
  le_max : b.buf.length ≤ b.maxSize

/-- `Wf` for any limits that a `std::size_t` can hold. -/
structure Fits (b : ReadBuffer) : Prop where
  min_pos : 0 < b.minSize
  max_lt : b.maxSize < 2 ^ 64
  size_le : b.size ≤ b.buf.length
  min_le : b.minSize ≤ b.buf.length
  le_max : b.buf.length ≤ b.maxSize

variable {b : ReadBuffer}

/-- The bytes that `data()` shows are as many as `size()` says. -/
theorem Wf.length_data (h : b.Wf) : b.data.length = b.size := by
  have hle := h.size_le
  unfold data
  rw [List.length_take]
  omega

/-- The size is bounded by the limit. -/
theorem Wf.size_le_max (h : b.Wf) : b.size ≤ b.maxSize :=
  Nat.le_trans h.size_le h.le_max

/-- A buffer whose limits the standard library can provide is one whose limits a `std::size_t` can
hold. -/
theorem Wf.fits (h : b.Wf) : b.Fits where
  min_pos := h.min_pos
  max_lt := Nat.lt_of_le_of_lt h.max_le (by decide)
  size_le := h.size_le
  min_le := h.min_le
  le_max := h.le_max

/-- The converse, for a limit of at most `2^63`. -/
theorem Fits.wf (h : b.Fits) (hmax : b.maxSize ≤ 2 ^ 63) : b.Wf where
  min_pos := h.min_pos
  max_le := hmax
  size_le := h.size_le
  min_le := h.min_le
  le_max := h.le_max

/-- New storage within the limits. -/
theorem Fits.with_buf (h : b.Fits) {buf : ByteString} {size : Nat} (hsize : size ≤ buf.length)
    (hmin : b.minSize ≤ buf.length) (hmax : buf.length ≤ b.maxSize) :
    ({ b with buf := buf, size := size } : ReadBuffer).Fits where
  min_pos := h.min_pos
  max_lt := h.max_lt
  size_le := hsize
  min_le := hmin
  le_max := hmax

/-- An assertion that holds lets the function go on. -/
theorem check_ok {condition : String} {p : Prop} [Decidable p] (h : p) :
    check condition p = .ok () := if_pos h

/-- The assertion of the constructor holds. -/
theorem init_ok {minSize maxSize : Nat} (hmin : 0 < minSize) (hle : minSize ≤ maxSize) :
    init minSize maxSize = .ok { minSize := minSize, maxSize := maxSize, size := 0,
                                 buf := List.replicate minSize 0 } := by
  unfold init
  rw [check_ok ⟨hmin, hle⟩]
  rfl

/-- The constructor accepts limits that are positive and in order, and the buffer that it makes is
empty. -/
theorem init_fits {minSize maxSize : Nat} (hmin : 0 < minSize) (hle : minSize ≤ maxSize)
    (hmax : maxSize < 2 ^ 64) :
    ∃ b, init minSize maxSize = .ok b ∧ b.Fits ∧ b.data = [] ∧ b.maxSize = maxSize :=
  ⟨_, init_ok hmin hle, ⟨hmin, hmax, Nat.zero_le _, by simp, by simpa using hle⟩, rfl, rfl⟩

/-- A new buffer is empty. -/
theorem init_spec {minSize maxSize : Nat} (hmin : 0 < minSize) (hle : minSize ≤ maxSize)
    (hmax : maxSize ≤ 2 ^ 63) :
    ∃ b, init minSize maxSize = .ok b ∧ b.Wf ∧ b.data = [] ∧ b.maxSize = maxSize := by
  obtain ⟨b, hinit, hfits, hdata, hlimit⟩ :=
    init_fits hmin hle (Nat.lt_of_le_of_lt hmax (by decide))
  exact ⟨b, hinit, hfits.wf (hlimit ▸ hmax), hdata, hlimit⟩

/-! ### `alloc` -/

/-- The growth loop, as long as no doubling wraps: it goes through the doubled and clamped
sizes, and stops at the first that leaves enough room, or at the limit. -/
theorem growLoop_clamped {maxSize size suggestedSize capacity : Nat} (hmax : maxSize < 2 ^ 64)
    (hsize : size ≤ capacity) (hcap : capacity ≤ maxSize)
    (hwrap : ∀ i, clamped maxSize capacity i < maxSize →
      clamped maxSize capacity i - size < suggestedSize →
      clamped maxSize capacity i * 2 < 2 ^ 64) :
    ∀ rounds i, maxSize ≤ capacity * 2 ^ (i + rounds) →
      ∃ j, growLoop maxSize size suggestedSize (rounds + 1) (clamped maxSize capacity i)
          (clamped maxSize capacity i - size)
          = .ok (clamped maxSize capacity j, clamped maxSize capacity j - size) ∧
        (∀ m, i ≤ m → m < j → clamped maxSize capacity m - size < suggestedSize) ∧
        (suggestedSize ≤ clamped maxSize capacity j - size ∨
          clamped maxSize capacity j = maxSize) := by
  intro rounds
  induction rounds with
  | zero =>
    intro i hgrow
    -- No doubling is left to do: the storage has its largest size.
    have hlimit : clamped maxSize capacity i = maxSize := clamped_of_le hgrow
    refine ⟨i, ?_, fun m hm hlt => absurd hlt (by omega), Or.inr hlimit⟩
    unfold growLoop
    by_cases hremain : clamped maxSize capacity i - size < suggestedSize
    · rw [if_pos hremain, if_pos hlimit.ge]
    · rw [if_neg hremain]
  | succ rounds ih =>
    intro i hgrow
    have hle := clamped_le_limit maxSize capacity i
    rw [growLoop]
    by_cases hremain : clamped maxSize capacity i - size < suggestedSize
    · rw [if_pos hremain]
      by_cases hlimit : maxSize ≤ clamped maxSize capacity i
      · rw [if_pos hlimit]
        exact ⟨i, rfl, fun m hm hlt => absurd hlt (by omega), Or.inr (by omega)⟩
      · rw [if_neg hlimit]
        -- Below the limit the doubling does not wrap, and the next size is the clamped double.
        have hdouble : clamped maxSize capacity i * 2 % 2 ^ 64 = clamped maxSize capacity i * 2 :=
          Nat.mod_eq_of_lt (hwrap i (by omega) hremain)
        have hnext : (if maxSize < clamped maxSize capacity i * 2 then maxSize
            else clamped maxSize capacity i * 2) = clamped maxSize capacity (i + 1) := by
          rw [clamped_succ]
          split <;> omega
        have hsub : size ≤ clamped maxSize capacity (i + 1) :=
          Nat.le_trans hsize (le_clamped hcap (i + 1))
        have hfit : clamped maxSize capacity (i + 1) < 2 ^ 64 :=
          Nat.lt_of_le_of_lt (clamped_le_limit maxSize capacity (i + 1)) hmax
        simp only [hdouble, hnext]
        rw [sizeSub_of_le hsub hfit]
        obtain ⟨j, hloop, hbefore, hstop⟩ := ih (i + 1) (by
          rw [show i + 1 + rounds = i + (rounds + 1) by omega]
          exact hgrow)
        refine ⟨j, hloop, fun m hm hlt => ?_, hstop⟩
        rcases Nat.eq_or_lt_of_le hm with rfl | hm
        · exact hremain
        · exact hbefore m hm hlt
    · rw [if_neg hremain]
      exact ⟨i, rfl, fun m hm hlt => absurd hlt (by omega), Or.inl (by omega)⟩

/-- `_realloc_if_needed` behind its loop: more storage, if the loop came to more. -/
theorem reallocIfNeeded_of_loop {suggestedSize capacity remain : Nat}
    (hsize : b.size ≤ b.buf.length)
    (hloop : growLoop b.maxSize b.size suggestedSize growRounds b.buf.length
      (sizeSub b.buf.length b.size) = .ok (capacity, remain)) :
    b.reallocIfNeeded suggestedSize =
      if b.buf.length < capacity then
        .ok ({ b with buf := b.buf ++ List.replicate (capacity - b.buf.length) 0 }, remain)
      else .ok (b, remain) := by
  unfold reallocIfNeeded
  rw [check_ok hsize, hloop]
  rfl

/-- `alloc`, as long as no doubling wraps. It keeps the data, and the room it hands out is all
that is behind the data. The storage has the first of the doubled and clamped sizes that
leaves as much room as suggested, or its largest size. -/
theorem alloc_grows (h : b.Fits) (suggestedSize : Nat)
    (hwrap : ∀ i, clamped b.maxSize b.buf.length i < b.maxSize →
      clamped b.maxSize b.buf.length i - b.size < suggestedSize →
      clamped b.maxSize b.buf.length i * 2 < 2 ^ 64) :
    ∃ b' i, b.alloc suggestedSize = .ok (b', b.size, b'.buf.length - b.size) ∧ b'.Fits ∧
      b'.data = b.data ∧ b'.size = b.size ∧ b'.minSize = b.minSize ∧ b'.maxSize = b.maxSize ∧
      b'.buf.length = clamped b.maxSize b.buf.length i ∧
      (∀ m, m < i → clamped b.maxSize b.buf.length m - b.size < suggestedSize) ∧
      (suggestedSize ≤ b'.buf.length - b.size ∨ b'.buf.length = b.maxSize) := by
  have hmin := h.min_pos
  have hmax := h.max_lt
  have hsize := h.size_le
  have hminle := h.min_le
  have hlemax := h.le_max
  -- The storage is never empty, so 65 doublings take it to any limit.
  have hrounds : b.maxSize ≤ b.buf.length * 2 ^ (0 + 65) := by
    calc b.maxSize ≤ 1 * 2 ^ (0 + 65) := by omega
      _ ≤ b.buf.length * 2 ^ (0 + 65) := Nat.mul_le_mul_right _ (by omega)
  obtain ⟨i, hloop, hbefore, hstop⟩ := growLoop_clamped hmax hsize hlemax hwrap 65 0 hrounds
  rw [clamped_zero hlemax, ← sizeSub_of_le hsize (by omega)] at hloop
  have hle := le_clamped hlemax i
  have hcap := clamped_le_limit b.maxSize b.buf.length i
  have hfirst : ∀ m, m < i → clamped b.maxSize b.buf.length m - b.size < suggestedSize :=
    fun m hm => hbefore m (Nat.zero_le m) hm
  generalize hc : clamped b.maxSize b.buf.length i = capacity at hloop hstop hle hcap
  unfold alloc
  rw [reallocIfNeeded_of_loop hsize hloop]
  by_cases hgrow : b.buf.length < capacity
  · rw [if_pos hgrow]
    have hlen : (b.buf ++ List.replicate (capacity - b.buf.length) 0).length = capacity := by
      rw [List.length_append, List.length_replicate]
      omega
    refine ⟨{ b with buf := b.buf ++ List.replicate (capacity - b.buf.length) 0 }, i, ?_, ?_, ?_,
      rfl, rfl, rfl, hlen.trans hc.symm, hfirst, ?_⟩
    · rw [hlen]
      rfl
    · exact h.with_buf (by omega) (by omega) (by omega)
    · exact List.take_append_of_le_length hsize
    · rw [hlen]
      exact hstop
  -- The loop did not grow the storage, and nothing is allocated.
  · have heq : capacity = b.buf.length := by omega
    rw [if_neg hgrow, heq]
    exact ⟨b, i, rfl, h, rfl, rfl, rfl, rfl, (hc.trans heq).symm, hfirst, heq ▸ hstop⟩

/-- Below `2 ^ 63` no doubling wraps. -/
theorem no_wrap_of_le {maxSize : Nat} (hmax : maxSize ≤ 2 ^ 63) (size suggestedSize capacity : Nat) :
    ∀ i, clamped maxSize capacity i < maxSize →
      clamped maxSize capacity i - size < suggestedSize →
      clamped maxSize capacity i * 2 < 2 ^ 64 :=
  fun i hlimit _ => by omega

/-- `alloc` keeps the data. The room it hands out is all that is behind the data, and it is
as long as suggested, or the storage has reached its limit. -/
theorem alloc_spec (h : b.Wf) (suggestedSize : Nat) :
    ∃ b', b.alloc suggestedSize = .ok (b', b.size, b'.buf.length - b.size) ∧ b'.Wf ∧
      b'.data = b.data ∧ b'.size = b.size ∧ b'.minSize = b.minSize ∧ b'.maxSize = b.maxSize ∧
      (suggestedSize ≤ b'.buf.length - b.size ∨ b'.buf.length = b.maxSize) := by
  obtain ⟨b', _, halloc, hfits, hdata, hsize, hmin, hmax, -, -, hstop⟩ :=
    alloc_grows h.fits suggestedSize (no_wrap_of_le h.max_le b.size suggestedSize b.buf.length)
  exact ⟨b', halloc, hfits.wf (hmax ▸ h.max_le), hdata, hsize, hmin, hmax, hstop⟩

/-! ### `occupy` -/

/-- A `std::copy` into a string does not change its length. -/
theorem length_copyTo {dst src : ByteString} {first : Nat}
    (h : first + src.length ≤ dst.length) : (copyTo dst first src).length = dst.length := by
  unfold copyTo
  rw [List.length_append, List.length_append, List.length_take, List.length_drop]
  omega

/-- Bytes that were written into the room become data. -/
theorem occupy_spec (h : b.Wf) {bytes : ByteString}
    (hroom : b.size + bytes.length ≤ b.buf.length) :
    ∃ b', (b.write b.size bytes).occupy bytes.length = .ok b' ∧ b'.Wf ∧
      b'.data = b.data ++ bytes ∧ b'.minSize = b.minSize ∧ b'.maxSize = b.maxSize := by
  have hmax := h.max_le
  have hlemax := h.le_max
  have hlen : (copyTo b.buf b.size bytes).length = b.buf.length := length_copyTo hroom
  have hadd : sizeAdd bytes.length b.size = bytes.length + b.size := sizeAdd_of_lt (by omega)
  have hadd' : sizeAdd b.size bytes.length = b.size + bytes.length := sizeAdd_of_lt (by omega)
  refine ⟨{ b with buf := copyTo b.buf b.size bytes, size := b.size + bytes.length }, ?_, ?_, ?_,
    rfl, rfl⟩
  · have hcheck : sizeAdd bytes.length (b.write b.size bytes).size
        ≤ (b.write b.size bytes).buf.length := by
      show sizeAdd bytes.length b.size ≤ (copyTo b.buf b.size bytes).length
      rw [hadd, hlen]
      omega
    unfold occupy
    rw [check_ok hcheck]
    show Except.ok { b with buf := copyTo b.buf b.size bytes,
                            size := sizeAdd b.size bytes.length } = _
    rw [hadd']
  · have hminle := h.min_le
    exact (h.fits.with_buf (by omega) (by omega) (by omega)).wf hmax
  -- The data in front of the new bytes was not touched by the write.
  · have hfront : (b.buf.take b.size ++ bytes).length = b.size + bytes.length := by
      rw [List.length_append, List.length_take, Nat.min_eq_left h.size_le]
    show (copyTo b.buf b.size bytes).take (b.size + bytes.length) = _
    unfold copyTo
    rw [← hfront, List.take_left]
    rfl

/-! ### `dealloc` -/

/-- `dealloc` removes bytes from the front of the data, and the storage stays within the
limits. -/
theorem Fits.dealloc (h : b.Fits) (size : Nat) (hpos : 0 < size) (hle : size ≤ b.size) :
    ∃ b', b.dealloc size = .ok b' ∧ b'.Fits ∧ b'.data = b.data.drop size ∧
      b'.minSize = b.minSize ∧ b'.maxSize = b.maxSize := by
  have hmax := h.max_lt
  have hsize := h.size_le
  have hminle := h.min_le
  have hlemax := h.le_max
  have hsub : sizeSub b.size size = b.size - size := sizeSub_of_le hle (by omega)
  -- What stays is the same in both branches; only its storage differs.
  have hrest : ((b.buf.drop size).take (b.size - size)).length = b.size - size := by
    rw [List.length_take, List.length_drop]
    omega
  have hdata : (b.buf.drop size).take (b.size - size) = b.data.drop size := by
    unfold data
    rw [List.drop_take]
  have hcopy : ∀ dst : ByteString, b.size - size ≤ dst.length →
      (copyTo dst 0 ((b.buf.drop size).take (b.size - size))).length = dst.length ∧
        (copyTo dst 0 ((b.buf.drop size).take (b.size - size))).take (b.size - size)
          = b.data.drop size := by
    intro dst hdst
    refine ⟨length_copyTo (by omega), ?_⟩
    unfold copyTo
    rw [List.take_zero, List.nil_append, List.take_append_of_le_length (by omega),
      List.take_of_length_le (by omega), hdata]
  unfold ReadBuffer.dealloc
  rw [check_ok ⟨hpos, hle⟩, hsub]
  by_cases hshrink : b.size - size < b.minSize / 2
  -- Shrink: what stays is copied to the front of new storage of the least size.
  · obtain ⟨hlen, htake⟩ := hcopy (List.replicate b.minSize 0) (by simp; omega)
    rw [List.length_replicate] at hlen
    simp only [if_pos hshrink]
    exact ⟨_, rfl, h.with_buf (by omega) (by omega) (by omega), htake, rfl, rfl⟩
  -- No shrink: what stays moves to the front of the same storage.
  · obtain ⟨hlen, htake⟩ := hcopy b.buf (by omega)
    simp only [if_neg hshrink]
    exact ⟨_, rfl, h.with_buf (by omega) (by omega) (by omega), htake, rfl, rfl⟩

/-- `dealloc` removes bytes from the front of the data. -/
theorem dealloc_spec (h : b.Wf) (size : Nat) (hpos : 0 < size) (hle : size ≤ b.size) :
    ∃ b', b.dealloc size = .ok b' ∧ b'.Wf ∧ b'.data = b.data.drop size ∧
      b'.minSize = b.minSize ∧ b'.maxSize = b.maxSize := by
  obtain ⟨b', hdealloc, hfits, hdata, hmin, hmax⟩ := h.fits.dealloc size hpos hle
  exact ⟨b', hdealloc, hfits.wf (hmax ▸ h.max_le), hdata, hmin, hmax⟩

end ReadBuffer

end VectorEngine
