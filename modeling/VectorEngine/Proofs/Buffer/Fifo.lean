import VectorEngine.ReadBuffer
import VectorEngine.Transition.Run

/-!
# `VectorEngine.Proofs.Buffer.Fifo`: a read buffer is a queue of bytes

The user of a read buffer asks for room with `alloc`, writes into it and calls `occupy`, and
takes bytes away from the front with `dealloc`. A `Fifo` is what this is for: the bytes that
went in, and how many of them have left. `refines_fifo` says that the data of the buffer is
the content of the queue after any operations, whatever re-allocations, shrinks and copies
they caused, and that the storage stays between the limits.

The room of an `alloc` can be used once. It begins behind the data of that time, so that a
later `occupy` or `dealloc` moves the end of the data away from it, and what is written there
then is not what `occupy` takes over. `room_used_twice` shows both. `Permits` is the contract
without this condition, and `Current` is the condition.
-/

set_option autoImplicit false

namespace VectorEngine

open VectorEngine.Transition

/-- An operation on a read buffer. -/
inductive BufferOp where
  | alloc (suggestedSize : Nat)
  /-- The bytes are written at the pointer that the last `alloc` returned, and `occupy` takes
  them over. -/
  | occupy (bytes : ByteString)
  | dealloc (size : Nat)
  deriving DecidableEq, Repr

/-- A read buffer, and what its user knows of the last `alloc`. -/
structure BufferUse where
  buffer : ReadBuffer
  /-- The pointer that the last `alloc` returned, as an offset into the storage. -/
  base : Nat
  /-- The length that the last `alloc` returned. -/
  room : Nat
  /-- No byte was occupied or removed since the last `alloc`. -/
  current : Bool
  deriving DecidableEq, Repr

namespace BufferUse

/-- Before the first `alloc`. -/
def start (b : ReadBuffer) : BufferUse where
  buffer := b
  base := 0
  room := 0
  current := false

/-- One operation. -/
def perform (u : BufferUse) : BufferOp → Except Abrupt BufferUse
  | .alloc suggestedSize => do
    let (b, base, room) ← u.buffer.alloc suggestedSize
    return { buffer := b, base := base, room := room, current := true }
  | .occupy bytes => do
    let b ← (u.buffer.write u.base bytes).occupy bytes.length
    return { u with buffer := b, current := u.current && bytes.isEmpty }
  | .dealloc size => do
    let b ← u.buffer.dealloc size
    return { u with buffer := b, current := false }

/-- What the signatures and the assertions ask for: no more is written than the last `alloc`
granted, and no more is removed than there is. -/
def Permits (u : BufferUse) : BufferOp → Prop
  | .alloc _ => True
  | .occupy bytes => bytes.length ≤ u.room
  | .dealloc size => 0 < size ∧ size ≤ u.buffer.data.length

/-- The room that is written to is still the one behind the data. -/
def Current (u : BufferUse) : BufferOp → Prop
  | .occupy bytes => bytes = [] ∨ u.current = true
  | _ => True

/-- The contract of a read buffer. -/
def Legal (u : BufferUse) (op : BufferOp) : Prop := u.Permits op ∧ u.Current op

/-- Whether the buffer's assertions permit an operation is a comparison of sizes. -/
instance (u : BufferUse) : (op : BufferOp) → Decidable (u.Permits op)
  | .alloc _ => isTrue trivial
  | .occupy bytes => inferInstanceAs (Decidable (bytes.length ≤ u.room))
  | .dealloc size => inferInstanceAs (Decidable (0 < size ∧ size ≤ u.buffer.data.length))

/-- Whether an operation uses the room that was handed out last can be looked at. -/
instance (u : BufferUse) : (op : BufferOp) → Decidable (u.Current op)
  | .alloc _ => isTrue trivial
  | .occupy bytes => inferInstanceAs (Decidable (bytes = [] ∨ u.current = true))
  | .dealloc _ => isTrue trivial

/-- So can the two together, and a list of operations can be evaluated. -/
instance (u : BufferUse) (op : BufferOp) : Decidable (u.Legal op) :=
  inferInstanceAs (Decidable (u.Permits op ∧ u.Current op))

end BufferUse

/-! ### The queue -/

/-- The bytes that went into a queue, and the number of them that have left it. The abstract queue
keeps all that ever went in, so that removing is counting. -/
structure Fifo where
  written : ByteString
  removed : Nat
  deriving DecidableEq, Repr

namespace Fifo

/-- The queue before the first byte, with nothing written and nothing removed. -/
def empty : Fifo where
  written := []
  removed := 0

/-- What is in the queue. -/
def content (f : Fifo) : ByteString := f.written.drop f.removed

/-- No operation but `occupy` adds bytes, and none but `dealloc` removes any. -/
def perform (f : Fifo) : BufferOp → Fifo
  | .alloc _ => f
  | .occupy bytes => { f with written := f.written ++ bytes }
  | .dealloc size => { f with removed := f.removed + size }

/-- No more has left the queue than went in. -/
def Wf (f : Fifo) : Prop := f.removed ≤ f.written.length

variable {f : Fifo}

/-- The content is what was written, less what was removed from its front. -/
theorem length_content (f : Fifo) : f.content.length = f.written.length - f.removed :=
  List.length_drop

/-- Bytes that are occupied come behind the content, in their order. -/
theorem content_occupy (h : f.Wf) (bytes : ByteString) :
    (f.perform (.occupy bytes)).content = f.content ++ bytes :=
  List.drop_append_of_le_length h

/-- What is given back is the front of the content. -/
theorem content_dealloc (f : Fifo) (size : Nat) :
    (f.perform (.dealloc size)).content = f.content.drop size := by
  show f.written.drop (f.removed + size) = (f.written.drop f.removed).drop size
  rw [List.drop_drop]

/-- Writing keeps the queue well formed: no more was removed than was written. -/
theorem Wf.occupy (h : f.Wf) (bytes : ByteString) : (f.perform (.occupy bytes)).Wf := by
  show f.removed ≤ (f.written ++ bytes).length
  rw [List.length_append]
  exact Nat.le_trans h (Nat.le_add_right _ _)

/-- So does giving back bytes of the content, and no more than it has. -/
theorem Wf.dealloc (h : f.Wf) {size : Nat} (hle : size ≤ f.content.length) :
    (f.perform (.dealloc size)).Wf := by
  have hcontent := f.length_content
  unfold Wf at h
  show f.removed + size ≤ f.written.length
  omega

end Fifo

/-! ### The refinement -/

namespace BufferUse

/-- The read buffer holds the content of the queue, between the limits. -/
structure Refines (minSize maxSize : Nat) (u : BufferUse) (f : Fifo) : Prop where
  wf : u.buffer.Wf
  min_eq : u.buffer.minSize = minSize
  max_eq : u.buffer.maxSize = maxSize
  content : u.buffer.data = f.content
  fifo : f.Wf
  /-- The room that was not used yet is what is behind the data. -/
  room : u.current = true →
    u.base = u.buffer.size ∧ u.base + u.room ≤ u.buffer.buf.length

variable {minSize maxSize : Nat} {u : BufferUse} {f : Fifo}

/-- Writing nothing changes nothing, wherever. -/
theorem write_nil (b : ReadBuffer) (first : Nat) : b.write first [] = b := by
  unfold ReadBuffer.write copyTo
  rw [List.append_nil, List.length_nil, Nat.add_zero, List.take_append_drop]

/-- `alloc` succeeds and leaves the content alone: it makes room behind the data, moving or
enlarging the storage where it has to, and the abstract queue does nothing. -/
theorem Refines.alloc (h : Refines minSize maxSize u f) (suggestedSize : Nat) :
    ∃ u', u.perform (.alloc suggestedSize) = .ok u' ∧
      Refines minSize maxSize u' (f.perform (.alloc suggestedSize)) := by
  obtain ⟨b, hb, hwf, hdata, hsize, hmin, hmax, -⟩ := ReadBuffer.alloc_spec h.wf suggestedSize
  have hle := hwf.size_le
  refine ⟨{ buffer := b, base := u.buffer.size, room := b.buf.length - u.buffer.size,
            current := true }, ?_, ?_⟩
  · unfold perform
    simp only [hb]
    rfl
  · refine ⟨hwf, hmin.trans h.min_eq, hmax.trans h.max_eq, hdata.trans h.content, h.fifo,
      fun _ => ⟨hsize.symm, ?_⟩⟩
    show u.buffer.size + (b.buf.length - u.buffer.size) ≤ b.buf.length
    omega

/-- An `occupy` of nothing changes nothing. -/
theorem perform_occupy_nil (h : u.buffer.Wf) : u.perform (.occupy []) = .ok u := by
  have hmax := h.max_le
  have hlemax := h.size_le_max
  have hsize : sizeAdd u.buffer.size 0 = u.buffer.size := sizeAdd_of_lt (by omega)
  have hcheck : sizeAdd 0 u.buffer.size ≤ u.buffer.buf.length := by
    rw [sizeAdd_of_lt (by omega), Nat.zero_add]
    exact h.size_le
  have hoccupy : (u.buffer.write u.base []).occupy 0 = .ok u.buffer := by
    rw [write_nil]
    unfold ReadBuffer.occupy
    rw [ReadBuffer.check_ok hcheck, hsize]
    rfl
  show ((u.buffer.write u.base []).occupy 0 >>= _) = _
  rw [hoccupy]
  show Except.ok { u with current := u.current && true } = Except.ok u
  rw [Bool.and_true]

/-- A legal `occupy` succeeds: the bytes lie in the room behind the data, and become the end of
the content. -/
theorem Refines.occupy (h : Refines minSize maxSize u f) {bytes : ByteString}
    (hlegal : u.Legal (.occupy bytes)) :
    ∃ u', u.perform (.occupy bytes) = .ok u' ∧
      Refines minSize maxSize u' (f.perform (.occupy bytes)) := by
  obtain ⟨hroom, rfl | hcurrent⟩ := hlegal
  · refine ⟨u, perform_occupy_nil h.wf, ?_⟩
    show Refines minSize maxSize u { f with written := f.written ++ [] }
    rw [List.append_nil]
    exact h
  · obtain ⟨hbase, hfits⟩ := h.room hcurrent
    have hlen : bytes.length ≤ u.room := hroom
    have hfit : u.buffer.size + bytes.length ≤ u.buffer.buf.length := by omega
    obtain ⟨b, hb, hwf, hdata, hmin, hmax⟩ := ReadBuffer.occupy_spec h.wf hfit
    refine ⟨{ u with buffer := b, current := u.current && bytes.isEmpty }, ?_, ?_⟩
    · unfold perform
      simp only [hbase, hb]
      rfl
    · refine ⟨hwf, hmin.trans h.min_eq, hmax.trans h.max_eq, ?_, h.fifo.occupy bytes, ?_⟩
      · rw [Fifo.content_occupy h.fifo, ← h.content]
        exact hdata
      · intro hstill
        -- Only an `occupy` of nothing leaves the room as it was.
        obtain ⟨-, hnil⟩ := Bool.and_eq_true_iff.mp hstill
        cases List.isEmpty_iff.mp hnil
        have hsame := perform_occupy_nil h.wf
        unfold perform at hsame
        simp only [hbase, hb] at hsame
        injection hsame with hsame
        have hbuf : b = u.buffer := congrArg BufferUse.buffer hsame
        rw [hbuf]
        exact h.room hcurrent

/-- A legal `dealloc` succeeds: what is left of the data is the rest of the content, whether it
stays where it is, is moved to the front, or goes into a fresh string. -/
theorem Refines.dealloc (h : Refines minSize maxSize u f) {size : Nat}
    (hlegal : u.Legal (.dealloc size)) :
    ∃ u', u.perform (.dealloc size) = .ok u' ∧
      Refines minSize maxSize u' (f.perform (.dealloc size)) := by
  obtain ⟨⟨hpos, hle⟩, -⟩ := hlegal
  obtain ⟨b, hb, hwf, hdata, hmin, hmax⟩ :=
    ReadBuffer.dealloc_spec h.wf size hpos (h.wf.length_data ▸ hle)
  refine ⟨{ u with buffer := b, current := false }, ?_, ?_⟩
  · unfold perform
    simp only [hb]
    rfl
  · refine ⟨hwf, hmin.trans h.min_eq, hmax.trans h.max_eq, ?_,
      h.fifo.dealloc (h.content ▸ hle), fun hstill => nomatch hstill⟩
    rw [Fifo.content_dealloc, ← h.content]
    exact hdata

/-- Each legal operation succeeds, and does to the data what it does to the queue. -/
theorem Refines.step (h : Refines minSize maxSize u f) (op : BufferOp) (hlegal : u.Legal op) :
    ∃ u', u.perform op = .ok u' ∧ Refines minSize maxSize u' (f.perform op) := by
  cases op with
  | alloc suggestedSize => exact h.alloc suggestedSize
  | occupy bytes => exact h.occupy hlegal
  | dealloc size => exact h.dealloc hlegal

/-- A new buffer is an empty queue. -/
theorem Refines.start (hmin : 0 < minSize) (hle : minSize ≤ maxSize) (hmax : maxSize ≤ 2 ^ 63) :
    ∃ b, ReadBuffer.init minSize maxSize = .ok b ∧
      Refines minSize maxSize (BufferUse.start b) Fifo.empty := by
  obtain ⟨b, hb, hwf, hdata, -⟩ := ReadBuffer.init_spec hmin hle hmax
  have heq := ReadBuffer.init_ok hmin hle
  rw [hb] at heq
  cases heq
  exact ⟨_, hb, hwf, rfl, rfl, hdata, Nat.zero_le _, fun hcurrent => nomatch hcurrent⟩

end BufferUse

/-- A read buffer between any limits, after any legal operations from its construction: the data
is what was occupied without what was removed, the storage is between the limits, and a further
legal operation appends the bytes of an `occupy`, drops the bytes of a `dealloc`, and keeps the
data otherwise. Reallocations, shrinking and moving to the front are not visible in the queue:
each operation is an operation of the queue or none. -/
theorem ReadBuffer.refines_fifo {minSize maxSize : Nat} (hmin : 0 < minSize)
    (hle : minSize ≤ maxSize) (hmax : maxSize ≤ 2 ^ 63) :
    ∃ b, ReadBuffer.init minSize maxSize = .ok b ∧
      ∀ ops, Along BufferUse.perform BufferUse.Legal (.start b) ops →
        ∃ u f, ops.foldlM BufferUse.perform (.start b) = .ok u ∧
          f = ops.foldl Fifo.perform .empty ∧
          u.buffer.data = f.written.drop f.removed ∧ f.removed ≤ f.written.length ∧
          u.buffer.size ≤ u.buffer.buf.length ∧
          minSize ≤ u.buffer.buf.length ∧ u.buffer.buf.length ≤ maxSize ∧
          ∀ op, u.Legal op → ∃ u', u.perform op = .ok u' ∧
            u'.buffer.data = (match op with
              | .alloc _ => u.buffer.data
              | .occupy bytes => u.buffer.data ++ bytes
              | .dealloc size => u.buffer.data.drop size) := by
  obtain ⟨b, hb, hstart⟩ := BufferUse.Refines.start hmin hle hmax
  refine ⟨b, hb, fun ops hops => ?_⟩
  obtain ⟨u, hu, h⟩ :=
    Along.refines (R := BufferUse.Refines minSize maxSize)
      (fun _ _ op hR hlegal => hR.step op hlegal) hstart hops
  refine ⟨u, _, hu, rfl, h.content, h.fifo, h.wf.size_le, ?_, ?_, fun op hlegal => ?_⟩
  · exact h.min_eq ▸ h.wf.min_le
  · exact h.max_eq ▸ h.wf.le_max
  · obtain ⟨u', hu', h'⟩ := h.step op hlegal
    refine ⟨u', hu', ?_⟩
    cases op with
    | alloc suggestedSize => exact h'.content.trans h.content.symm
    | occupy bytes => rw [h'.content, Fifo.content_occupy h.fifo, h.content]
    | dealloc size => rw [h'.content, Fifo.content_dealloc, h.content]

/-- Between the limits 16 and 64: `PING` arrives in two reads, and its first two bytes are taken
away. The other two are the data. -/
theorem ReadBuffer.refines_fifo_ping :
    ∃ u, [BufferOp.alloc 65536, .occupy (bytesOf "PI"), .alloc 65536, .occupy (bytesOf "NG"),
        .dealloc 2].foldlM BufferUse.perform
          (.start { minSize := 16, maxSize := 64, size := 0, buf := List.replicate 16 0 })
        = .ok u ∧
      u.buffer.data = bytesOf "NG" := by
  obtain ⟨b, hb, hops⟩ := @ReadBuffer.refines_fifo 16 64 (by decide) (by decide) (by decide)
  cases hb
  obtain ⟨u, f, hu, rfl, hdata, -⟩ := hops
    [.alloc 65536, .occupy (bytesOf "PI"), .alloc 65536, .occupy (bytesOf "NG"), .dealloc 2]
    (by decide +kernel)
  exact ⟨u, hu, hdata⟩

/-- A new buffer between the limits: the operations are within `Permits`, and the data is not
the content of the queue. -/
def ReadBuffer.NotFifo (minSize maxSize : Nat) (ops : List BufferOp) : Prop :=
  ∃ b u, ReadBuffer.init minSize maxSize = .ok b ∧
    Along BufferUse.perform BufferUse.Permits (.start b) ops ∧
    ops.foldlM BufferUse.perform (.start b) = .ok u ∧
    u.buffer.data ≠ (ops.foldl Fifo.perform .empty).content

/-- The contract without its last condition does not make the data a queue. With both limits
2, the room of one `alloc` is written to twice: `b` replaces `a`, and a byte that nobody wrote
is taken over. With the limits 1 and 2, `a` is removed between the `alloc` and the write of
`b`: `b` lands one byte too far, and `a` is taken over again. -/
theorem ReadBuffer.room_used_twice :
    ReadBuffer.NotFifo 2 2 [.alloc 1, .occupy (bytesOf "a"), .occupy (bytesOf "b")] ∧
      ReadBuffer.NotFifo 1 2 [.alloc 1, .occupy (bytesOf "a"), .alloc 1, .dealloc 1,
        .occupy (bytesOf "b")] := by
  refine ⟨⟨{ minSize := 2, maxSize := 2, size := 0, buf := [0, 0] },
      ⟨{ minSize := 2, maxSize := 2, size := 2, buf := [98, 0] }, 0, 2, false⟩, rfl, ?_, rfl, ?_⟩,
    ⟨{ minSize := 1, maxSize := 2, size := 0, buf := [0] },
      ⟨{ minSize := 1, maxSize := 2, size := 1, buf := [97, 98] }, 1, 1, false⟩, rfl, ?_, rfl, ?_⟩⟩
  · decide +kernel
  · decide +kernel
  · decide +kernel
  · decide +kernel

end VectorEngine
