import Mathlib.Logic.Function.Basic

/-!
# `VectorEngine.Memory.Heap`: objects that are created and deleted

A heap holds objects of one type under names that are counted up and never used again. So a
pointer to a deleted object is told from a pointer to a newer object, and a use of it shows.
The heap counts how often each object was deleted.

`Wf` is what holds as long as only live objects are deleted: each object is deleted at most
once, and is live until then.
-/

set_option autoImplicit false

namespace VectorEngine.Memory

/-- The name of an object. -/
abbrev Ptr := Nat

variable {α : Type}

/-- A heap of objects of one type. Pointers are handed out in order and never again, so that the
address of a deleted object is not reused, and each `delete` is counted. -/
structure Heap (α : Type) where
  /-- The name of the next object. -/
  next : Ptr
  objects : Ptr → Option α
  /-- The number of times an object was deleted. -/
  deletes : Ptr → Nat

namespace Heap

/-- The heap before the first `new`. -/
def empty : Heap α where
  next := 0
  objects _ := none
  deletes _ := 0

/-- `new`. The name of the object is `h.next`. -/
def new (h : Heap α) (a : α) : Heap α :=
  { h with next := h.next + 1, objects := Function.update h.objects h.next (some a) }

/-- An assignment to an object. -/
def store (h : Heap α) (p : Ptr) (a : α) : Heap α :=
  { h with objects := Function.update h.objects p (some a) }

/-- `delete` -/
def delete (h : Heap α) (p : Ptr) : Heap α :=
  { h with
    objects := Function.update h.objects p none
    deletes := Function.update h.deletes p (h.deletes p + 1) }

/-- The object was created and is not deleted. -/
def Live (h : Heap α) (p : Ptr) : Prop := (h.objects p).isSome = true

/-- Whether an object is there can be looked at, so that runs with `delete` can be evaluated. -/
instance (h : Heap α) (p : Ptr) : Decidable (h.Live p) :=
  inferInstanceAs (Decidable ((h.objects p).isSome = true))

variable {h : Heap α} {p q : Ptr} {a : α}

/-- `new` hands out one pointer. -/
@[simp] theorem next_new : (h.new a).next = h.next + 1 := rfl

/-- An assignment hands out no pointer. -/
@[simp] theorem next_store : (h.store p a).next = h.next := rfl

/-- Nor does a `delete`: the address of a deleted object is not handed out a second time. -/
@[simp] theorem next_delete : (h.delete p).next = h.next := rfl

/-- A `new` deletes nothing. -/
@[simp] theorem deletes_new : (h.new a).deletes = h.deletes := rfl

/-- An assignment deletes nothing. -/
@[simp] theorem deletes_store : (h.store p a).deletes = h.deletes := rfl

/-- The new object is behind the new pointer. -/
@[simp] theorem objects_new_self : (h.new a).objects h.next = some a := by simp [new]

/-- What was assigned is read back. -/
@[simp] theorem objects_store_self : (h.store p a).objects p = some a := by simp [store]

/-- Nothing is behind a pointer that was deleted. -/
@[simp] theorem objects_delete_self : (h.delete p).objects p = none := by simp [delete]

/-- The other objects are where they were before a `new`. -/
theorem objects_new_of_ne (hne : q ≠ h.next) : (h.new a).objects q = h.objects q := by
  simp [new, hne]

/-- The other objects are as they were before an assignment. -/
theorem objects_store_of_ne (hne : q ≠ p) : (h.store p a).objects q = h.objects q := by
  simp [store, hne]

/-- The other objects are as they were before a `delete`. -/
theorem objects_delete_of_ne (hne : q ≠ p) : (h.delete p).objects q = h.objects q := by
  simp [delete, hne]

/-- A `delete` is counted for its own pointer. -/
@[simp] theorem deletes_delete_self : (h.delete p).deletes p = h.deletes p + 1 := by
  simp [delete]

/-- A `delete` is counted for no other pointer. -/
theorem deletes_delete_of_ne (hne : q ≠ p) : (h.delete p).deletes q = h.deletes q := by
  simp [delete, hne]

/-- An object is there if something is behind its pointer. -/
theorem live_iff : h.Live p ↔ ∃ a, h.objects p = some a := Option.isSome_iff_exists

/-! ### What is live -/

/-- Behind a `new` the live objects are the new one and those that were live before. -/
theorem live_new : (h.new a).Live q ↔ q = h.next ∨ h.Live q := by
  by_cases hq : q = h.next
  · subst hq
    simp [Live]
  · unfold Live
    rw [objects_new_of_ne hq]
    simp [hq]

/-- Behind a `delete` the live objects are those that were live before, but for the deleted one.
-/
theorem live_delete : (h.delete p).Live q ↔ q ≠ p ∧ h.Live q := by
  by_cases hq : q = p
  · subst hq
    simp [Live]
  · unfold Live
    rw [objects_delete_of_ne hq]
    simp [hq]

/-- An assignment to a live object leaves the same objects live. -/
theorem live_store (hp : h.Live p) : (h.store p a).Live q ↔ h.Live q := by
  by_cases hq : q = p
  · subst hq
    exact ⟨fun _ => hp, fun _ => live_iff.mpr ⟨a, objects_store_self⟩⟩
  · unfold Live
    rw [objects_store_of_ne hq]

/-! ### The invariant -/

/-- The objects with a name below `next` that were not deleted are live, and no object was
deleted twice. -/
structure Wf (h : Heap α) : Prop where
  live_iff : ∀ p, h.Live p ↔ p < h.next ∧ h.deletes p = 0
  once : ∀ p, h.deletes p ≤ 1
  fresh : ∀ p, h.next ≤ p → h.deletes p = 0

/-- The empty heap has handed out no pointer, so that nothing is to be shown. -/
theorem Wf.empty : (Heap.empty : Heap α).Wf where
  live_iff p := by simp [Heap.empty, Live]
  once _ := Nat.zero_le 1
  fresh _ _ := rfl

/-- `new` keeps a heap well formed: its pointer was never handed out before, and has never been
deleted. -/
theorem Wf.new (hwf : h.Wf) (a : α) : (h.new a).Wf where
  live_iff p := by
    rw [live_new, hwf.live_iff, next_new, deletes_new]
    have hnext := hwf.fresh h.next (Nat.le_refl _)
    constructor
    · rintro (rfl | ⟨hp, hdel⟩)
      · exact ⟨Nat.lt_succ_self _, hnext⟩
      · exact ⟨Nat.lt_succ_of_lt hp, hdel⟩
    · rintro ⟨hp, hdel⟩
      rcases Nat.lt_succ_iff_lt_or_eq.mp hp with hp | rfl
      · exact Or.inr ⟨hp, hdel⟩
      · exact Or.inl rfl
  once p := hwf.once p
  fresh p hp := hwf.fresh p (Nat.le_of_succ_le hp)

/-- An assignment to a live object keeps a heap well formed. -/
theorem Wf.store (hwf : h.Wf) (hp : h.Live p) (a : α) : (h.store p a).Wf where
  live_iff q := by rw [live_store hp, hwf.live_iff, next_store, deletes_store]
  once q := hwf.once q
  fresh q hq := hwf.fresh q hq

/-- The first `delete` of an object keeps a heap well formed. A second one would not, which is why
the object has to be live. -/
theorem Wf.delete (hwf : h.Wf) (hp : h.Live p) : (h.delete p).Wf := by
  obtain ⟨hlt, hdel⟩ := (hwf.live_iff p).mp hp
  constructor
  · intro q
    rw [live_delete, hwf.live_iff, next_delete]
    by_cases hq : q = p
    · subst hq
      simp [hdel]
    · rw [deletes_delete_of_ne hq]
      exact ⟨fun h => h.2, fun h => ⟨hq, h⟩⟩
  · intro q
    by_cases hq : q = p
    · subst hq
      rw [deletes_delete_self]
      omega
    · rw [deletes_delete_of_ne hq]
      exact hwf.once q
  · intro q hq
    have hne : q ≠ p := fun heq => Nat.not_le.mpr hlt (heq ▸ hq)
    rw [deletes_delete_of_ne hne]
    exact hwf.fresh q hq

/-- What was created and is not live was deleted once. -/
theorem Wf.deletes_eq_one (hwf : h.Wf) (hlt : p < h.next) (hdead : ¬ h.Live p) :
    h.deletes p = 1 := by
  have hle := hwf.once p
  have hne : h.deletes p ≠ 0 := fun h0 => hdead ((hwf.live_iff p).mpr ⟨hlt, h0⟩)
  omega

/-- What is live was not deleted. -/
theorem Wf.deletes_eq_zero (hwf : h.Wf) (hp : h.Live p) : h.deletes p = 0 :=
  ((hwf.live_iff p).mp hp).2

/-- What is live was created. -/
theorem Wf.lt_next (hwf : h.Wf) (hp : h.Live p) : p < h.next := ((hwf.live_iff p).mp hp).1

end Heap

end VectorEngine.Memory
