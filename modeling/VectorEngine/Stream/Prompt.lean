import VectorEngine.Stream.Scanner

/-!
# `VectorEngine.Stream.Prompt`: when a scanner is right to ask for more

A scanner that asks for more input makes a claim about input that it has not seen. Two
properties say that the claim is right, for a grammar.

A scanner is `Patient` when it asks for more on every input that a spelling goes beyond, so
that it never rejects what may become an item. It is `Prompt k` when it asks for more on no
other input, except on some that it rejects as soon as `k` more symbols are there. Both lift to
counted repetitions. A patient scanner never fails on the start of a sequence of items
(`drain_ok_of_begins`).

`endless_eq_times`: on an input with too few symbols, items without end are a counted
repetition that is not over.
-/

set_option autoImplicit false

namespace VectorEngine.Stream.Scanner

variable {ε β α γ : Type} {p : Scanner ε β α} {G : α → List β → Prop} {k : Nat}

/-- The input is the start of a spelling that goes beyond it. -/
def Begins (G : α → List β → Prop) (l : List β) : Prop := ∃ a x, x ≠ [] ∧ G a (l ++ x)

/-- The scanner rejects the input when `k` more symbols are there. -/
def Doomed (p : Scanner ε β α) (k : Nat) (l : List β) : Prop :=
  ∀ x, k ≤ x.length → ∃ e, p (l ++ x) = .fail e

/-- An input on which the scanner asks for more is the start of an item, or is rejected when
`k` more symbols are there. -/
def Prompt (p : Scanner ε β α) (G : α → List β → Prop) (k : Nat) : Prop :=
  ∀ ⦃l : List β⦄, p l = .more → Begins G l ∨ Doomed p k l

/-- The scanner asks for more on the start of an item that is shorter than `bound`. -/
def Patient (p : Scanner ε β α) (G : α → List β → Prop) (bound : Nat) : Prop :=
  ∀ ⦃l : List β⦄, l.length < bound → Begins G l → p l = .more

/-- `n` items in a sequence. -/
def Sequence (G : α → List β → Prop) (n : Nat) (as : List α) (u : List β) : Prop :=
  as.length = n ∧ ∃ us, List.Forall₂ G as us ∧ u = us.flatten

/-- A part of a start is a start. -/
theorem Begins.of_append {l y : List β} (h : Begins G (l ++ y)) : Begins G l := by
  obtain ⟨a, x, hx, ha⟩ := h
  refine ⟨a, y ++ x, fun hnil => hx (List.append_eq_nil_iff.mp hnil).2, ?_⟩
  rw [← List.append_assoc]
  exact ha

/-- An input that is rejected when `k` more symbols are there is rejected when more than that are.
-/
theorem Doomed.mono {k' : Nat} {l : List β} (h : Doomed p k l) (hle : k ≤ k') : Doomed p k' l :=
  fun x hx => h x (Nat.le_trans hle hx)

/-- What follows a rejection does not matter. -/
theorem Doomed.andThen {l : List β} (h : Doomed p k l) (f : α → Scanner ε β γ) :
    Doomed (p.andThen f) k l := by
  intro x hx
  obtain ⟨e, he⟩ := h x hx
  exact ⟨e, Verdict.bind_eq_fail.mpr (Or.inl he)⟩

/-- What is behind an item is rejected there. -/
theorem Doomed.of_done (hs : Stable p) {f : α → Scanner ε β γ} {l r : List β} {a : α}
    (hp : p l = .done a r) (h : Doomed (f a) k r) : Doomed (p.andThen f) k l := by
  intro x hx
  obtain ⟨e, he⟩ := h x hx
  exact ⟨e, Verdict.bind_eq_fail.mpr (Or.inr ⟨a, r ++ x, hs.done x hp, he⟩)⟩

/-- An input that `u` and something else begin with ends inside `u`, or it has `u` and goes on
behind it. -/
theorem inside_or_beyond {l x u v : List β} (h : l ++ x = u ++ v) :
    (∃ y, y ≠ [] ∧ u = l ++ y) ∨ ∃ y, l = u ++ y ∧ y ++ x = v := by
  rcases List.append_eq_append_iff.mp h with ⟨y, hy, hxy⟩ | ⟨y, hy, hxy⟩
  · by_cases hnil : y = []
    · right
      subst hnil
      exact ⟨[], by rw [hy, List.append_nil, List.append_nil], hxy⟩
    · exact Or.inl ⟨y, hnil, hy⟩
  · exact Or.inr ⟨y, hy, hxy.symm⟩

/-! ### Sequences of items -/

/-- A sequence of items is one of them and a sequence of the others. -/
theorem Sequence.cons {n : Nat} {a : α} {as : List α} {u v : List β} (hu : G a u)
    (hv : Sequence G n as v) : Sequence G (n + 1) (a :: as) (u ++ v) := by
  obtain ⟨hlen, us, hus, rfl⟩ := hv
  exact ⟨by rw [List.length_cons, hlen], u :: us, .cons hu hus, rfl⟩

/-- There is a sequence of each length when there is an item. -/
theorem exists_sequence (hitem : ∃ a u, G a u) (n : Nat) : ∃ as u, Sequence G n as u := by
  obtain ⟨a, u, hu⟩ := hitem
  induction n with
  | zero => exact ⟨[], [], rfl, [], .nil, rfl⟩
  | succ n ih =>
    obtain ⟨as, v, hv⟩ := ih
    exact ⟨a :: as, u ++ v, hv.cons hu⟩

/-- The start of an item starts a sequence. -/
theorem Begins.sequence {l : List β} (h : Begins G l) (n : Nat) :
    Begins (Sequence G (n + 1)) l := by
  obtain ⟨a, x, hx, ha⟩ := h
  obtain ⟨as, v, hv⟩ := exists_sequence ⟨a, l ++ x, ha⟩ n
  refine ⟨a :: as, x ++ v, fun hnil => hx (List.append_eq_nil_iff.mp hnil).1, ?_⟩
  rw [← List.append_assoc]
  exact hv.cons ha

/-- An item and the start of a sequence start a longer sequence. -/
theorem Begins.behind {n : Nat} {a : α} {u r : List β} (hu : G a u)
    (h : Begins (Sequence G n) r) : Begins (Sequence G (n + 1)) (u ++ r) := by
  obtain ⟨as, x, hx, has⟩ := h
  refine ⟨a :: as, x, hx, ?_⟩
  rw [List.append_assoc]
  exact has.cons hu

/-- A repetition of a prompt scanner is prompt. -/
theorem Prompt.times (hp : Prompt p G k) (hs : Stable p) (hsound : Sound p G) (n : Nat) :
    Prompt (p.times n) (Sequence G n) k := by
  induction n with
  | zero => exact fun l h => nomatch h
  | succ n ih =>
    intro l h
    rcases Verdict.bind_eq_more.mp h with hl | ⟨a, r, hl, hr⟩
    · rcases hp hl with hbegins | hdoomed
      · exact Or.inl (hbegins.sequence n)
      · exact Or.inr (hdoomed.andThen _)
    · have hrest : p.times n r = .more := by
        rcases Verdict.bind_eq_more.mp hr with hrest | ⟨as, r', -, hsucceed⟩
        · exact hrest
        · cases hsucceed
      rcases ih hrest with hbegins | hdoomed
      · obtain ⟨u, hu, rfl⟩ := hsound hl
        exact Or.inl (hbegins.behind hu)
      · exact Or.inr (Doomed.of_done hs hl (hdoomed.andThen _))

/-- A repetition of a patient scanner is patient, if the scanner takes complete items. -/
theorem Patient.times {bound : Nat} (hp : Patient p G bound)
    (hdone : ∀ a u, G a u → u.length < bound → ∀ r, p (u ++ r) = .done a r) (n : Nat) :
    Patient (p.times n) (Sequence G n) bound := by
  induction n with
  | zero =>
    rintro l - ⟨as, x, hx, hlen, us, hus, heq⟩
    cases hus with
    | nil => exact absurd (List.append_eq_nil_iff.mp heq).2 hx
    | cons _ _ => cases hlen
  | succ n ih =>
    rintro l hlt ⟨as, x, hx, hlen, us, hus, heq⟩
    cases hus with
    | nil => cases hlen
    | @cons a u as us hu hus =>
      rw [List.flatten_cons] at heq
      -- The input ends inside the first item, or the item is taken and the rest is shorter.
      rcases inside_or_beyond heq with ⟨y, hy, rfl⟩ | ⟨y, rfl, hxy⟩
      · have hmore : p l = .more := hp hlt ⟨a, y, hy, hu⟩
        show (p l).bind _ = _
        rw [hmore]
        rfl
      · rw [List.length_append] at hlt
        have htail : p.times n y = .more :=
          ih (by omega) ⟨as, x, hx, Nat.succ.inj hlen, us, hus, hxy⟩
        show (p (u ++ y)).bind _ = _
        rw [hdone a u hu (by omega) y]
        show (p.times n y).bind _ = _
        rw [htail]
        rfl

/-! ### Draining -/

/-- A patient scanner that takes complete items does not fail on the start of a sequence. -/
theorem drain_ok_of_begins {bound : Nat} (hc : Consumes p) (hp : Patient p G bound)
    (hnil : p [] = .more) (hdone : ∀ a u, G a u → u.length < bound → ∀ r, p (u ++ r) = .done a r)
    {as : List α} {us : List (List β)} (has : List.Forall₂ G as us) :
    ∀ {l x : List β}, l.length < bound → l ++ x = us.flatten → ∃ q, drain p l = .ok q := by
  induction has with
  | nil =>
    intro l x _ heq
    rw [(List.append_eq_nil_iff.mp heq).1]
    exact ⟨_, drain_more hnil⟩
  | @cons a u as us hu hus ih =>
    intro l x hlt heq
    rw [List.flatten_cons] at heq
    rcases inside_or_beyond heq with ⟨y, hy, rfl⟩ | ⟨y, rfl, hxy⟩
    · exact ⟨_, drain_more (hp hlt ⟨a, y, hy, hu⟩)⟩
    · rw [List.length_append] at hlt
      obtain ⟨q, hq⟩ := ih (show y.length < bound by omega) hxy
      rw [drain_done hc (hdone a u hu (by omega) y), hq]
      exact ⟨_, rfl⟩

/-- A failure is not revised by what arrives later. -/
theorem drain_error_append (hs : Stable p) (hc : Consumes p) {l : List β} {e : ε}
    (h : drain p l = .error e) (x : List β) : drain p (l ++ x) = .error e := by
  rw [drain_append hs hc, h]

/-! ### Items without end -/

/-- A repetition of more items than there are symbols does not come to its end. -/
theorem endless_eq_times (hc : Consumes p) : ∀ (n : Nat) (l : List β), l.length < n →
    (endless p : Scanner ε β (List α)) l = p.times n l := by
  intro n
  induction n with
  | zero => exact fun l h => absurd h (Nat.not_lt_zero _)
  | succ n ih =>
    intro l hlt
    rw [endless_eq hc]
    show _ = (p l).bind fun a r => (p.times n r).bind fun as => succeed (a :: as)
    cases hl : p l with
    | more => rfl
    | fail e => rfl
    | done a r =>
      -- One symbol less at least, and one item less.
      have hshort := hc.length_lt hl
      show (endless p : Scanner ε β (List α)) r = (p.times n r).bind fun as => succeed (a :: as)
      rw [← ih r (by omega)]
      cases hr : (endless p : Scanner ε β (List α)) r with
      | more => rfl
      | fail e => rfl
      | done as r' => exact absurd hr (endless_ne_done r as r')

end VectorEngine.Stream.Scanner
