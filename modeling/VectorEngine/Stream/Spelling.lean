import Mathlib.Data.List.Forall2

/-!
# `VectorEngine.Stream.Spelling`: shortest spellings

A grammar may spell an item in several ways. `Shortest G f` says that `f` writes each item in the
shortest way, and that no other spelling is as short. Sequences inherit it
(`Shortest.sequence`).
-/

set_option autoImplicit false

namespace VectorEngine.Stream

variable {α β : Type}

/-- `f` writes the one shortest spelling of each item. -/
def Shortest (G : α → List β → Prop) (f : α → List β) : Prop :=
  ∀ a u, G a u → (f a).length ≤ u.length ∧ ((f a).length = u.length → u = f a)

/-- The parts of a spelling are shortest where the whole is. -/
theorem shortest_append {u v u' v' : List β}
    (hu : u'.length ≤ u.length ∧ (u'.length = u.length → u = u'))
    (hv : v'.length ≤ v.length ∧ (v'.length = v.length → v = v')) :
    (u' ++ v').length ≤ (u ++ v).length ∧
      ((u' ++ v').length = (u ++ v).length → u ++ v = u' ++ v') := by
  simp only [List.length_append]
  refine ⟨Nat.add_le_add hu.1 hv.1, fun heq => ?_⟩
  rw [hu.2 (by omega), hv.2 (by omega)]

/-- The shortest spellings, one after another, are the shortest of the sequence. -/
theorem Shortest.sequence {G : α → List β → Prop} {f : α → List β} (hf : Shortest G f)
    {as : List α} {us : List (List β)} (h : List.Forall₂ G as us) :
    (as.map f).flatten.length ≤ us.flatten.length ∧
      ((as.map f).flatten.length = us.flatten.length → us.flatten = (as.map f).flatten) := by
  induction h with
  | nil => exact ⟨Nat.le_refl _, fun _ => rfl⟩
  | @cons a u as us hu _ ih => exact shortest_append (hf a u hu) ih

end VectorEngine.Stream
