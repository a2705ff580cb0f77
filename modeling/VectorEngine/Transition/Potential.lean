import Mathlib.Algebra.BigOperators.Group.Finset.Piecewise
import VectorEngine.Transition.Run

/-!
# `VectorEngine.Transition.Potential`: how long a system can go on by itself

Some actions of a system are its own, and the others come from outside. Which they are may
depend on the state: an action that changes nothing is no step of the system's. A potential is a
number for each state that every own step lowers, and that an action from outside raises by no
more than its cost.

* `Run.work_le`: the work of a run is no more than the potential at its start and the costs of
  its steps. `Run.steps_le` is the case where each own step is the work.
* `Run.length_le` and `Run.exists_rest`: without actions from outside the system takes no more
  steps than its potential, and it can be left to itself until it rests. `Run.comes_to_rest` puts
  the two together.

The potential of a system with many parts is a sum over the parts. `sum_update` is the sum after
one of them has changed.
-/

set_option autoImplicit false

namespace VectorEngine.Transition

variable {σ α : Type} {step : σ → α → Option σ}

/-- None of the actions is possible. -/
def AtRest (step : σ → α → Option σ) (own : α → Prop) (s : σ) : Prop :=
  ∀ a, own a → step s a = none

/-- None of the actions is possible that are the system's own in the state. `AtRest` is the case
in which they are the same in every state. -/
def Rests (step : σ → α → Option σ) (own : σ → α → Prop) (s : σ) : Prop :=
  ∀ a, own s a → step s a = none

/-- The sum over the steps of a path. -/
def total (f : σ → α → Nat) : List (σ × α) → Nat
  | [] => 0
  | p :: path => f p.1 p.2 + total f path

/-- Nothing is added up along the empty path. -/
@[simp] theorem total_nil (f : σ → α → Nat) : total f [] = 0 := rfl

/-- The first step of a path is counted and then the others. -/
@[simp] theorem total_cons (f : σ → α → Nat) (p : σ × α) (path : List (σ × α)) :
    total f (p :: path) = f p.1 p.2 + total f path := rfl

/-- The last step of a path may also be counted behind the others, which is how a run grows. -/
@[simp] theorem total_snoc (f : σ → α → Nat) (path : List (σ × α)) (p : σ × α) :
    total f (path ++ [p]) = total f path + f p.1 p.2 := by
  induction path with
  | nil => simp
  | cons q path ih => simp [ih, Nat.add_assoc]

/-- A constant factor. -/
theorem total_mul (k : Nat) (f : σ → α → Nat) (path : List (σ × α)) :
    total (fun s a => k * f s a) path = k * total f path := by
  induction path with
  | nil => rfl
  | cons p path ih => rw [total_cons, total_cons, ih, Nat.mul_add]

/-- The potential method. `work` is what the system does by itself, and `cost` is what comes from
outside. -/
theorem Run.work_le {P : σ → Prop} {potential : σ → Nat} {work cost : σ → α → Nat}
    (hstep : ∀ s a s', P s → step s a = some s' →
      P s' ∧ potential s' + work s a ≤ potential s + cost s a)
    {s₀ s : σ} {path : List (σ × α)} (h : Run step s₀ path s) (hstart : P s₀) :
    P s ∧ potential s + total work path ≤ potential s₀ + total cost path := by
  induction h with
  | nil => exact ⟨hstart, by simp⟩
  | @snoc path s s' a _ hs ih =>
    obtain ⟨hP, hle⟩ := ih
    obtain ⟨hP', hnext⟩ := hstep s a s' hP hs
    refine ⟨hP', ?_⟩
    simp only [total_snoc]
    omega

/-- The potential method for the number of own steps. Each of them lowers the potential, and an
action from outside raises it by its cost at most. -/
theorem Run.steps_le {potential : σ → Nat} {own : σ → α → Prop} [∀ s, DecidablePred (own s)]
    {cost : α → Nat}
    (hown : ∀ {s s' : σ} {a : α}, own s a → step s a = some s' → potential s' < potential s)
    (houtside : ∀ {s s' : σ} {a : α}, ¬ own s a → step s a = some s' →
      potential s' ≤ potential s + cost a)
    {s₀ s : σ} {path : List (σ × α)} (h : Run step s₀ path s) :
    potential s + total (fun s a => if own s a then 1 else 0) path
      ≤ potential s₀ + total (fun _ => cost) path := by
  have hstep : ∀ s a s', True → step s a = some s' →
      True ∧ potential s' + (if own s a then 1 else 0) ≤ potential s + cost a := by
    intro s a s' _ hs
    refine ⟨trivial, ?_⟩
    by_cases ha : own s a
    · have hlt := hown ha hs
      rw [if_pos ha]
      omega
    · have hle := houtside ha hs
      rw [if_neg ha]
      omega
  exact (h.work_le hstep trivial).2

/-- By itself the system takes no more steps than its potential. -/
theorem Run.length_le {P : σ → Prop} {potential : σ → Nat} {own : σ → α → Prop}
    (hstep : ∀ s a s', P s → own s a → step s a = some s' → P s' ∧ potential s' < potential s)
    {s₀ s : σ} {path : List (σ × α)} (h : Run step s₀ path s) (hstart : P s₀)
    (hown : ∀ p ∈ path, own p.1 p.2) : P s ∧ path.length + potential s ≤ potential s₀ := by
  induction h with
  | nil => exact ⟨hstart, by simp⟩
  | @snoc path s s' a _ hs ih =>
    obtain ⟨hP, hle⟩ := ih fun p hp => hown p (by simp [hp])
    obtain ⟨hP', hlt⟩ := hstep s a s' hP (hown (s, a) (by simp)) hs
    refine ⟨hP', ?_⟩
    rw [List.length_append, List.length_singleton]
    omega

/-- The system can be left to itself until it rests. -/
theorem Run.exists_rest {P : σ → Prop} {potential : σ → Nat} {own : σ → α → Prop}
    (hstep : ∀ s a s', P s → own s a → step s a = some s' → P s' ∧ potential s' < potential s)
    (s : σ) (hs : P s) :
    ∃ path s', Run step s path s' ∧ (∀ p ∈ path, own p.1 p.2) ∧ P s' ∧ Rests step own s' ∧
      path.length + potential s' ≤ potential s := by
  -- By induction on the potential: the system rests, or takes an own step.
  induction hn : potential s using Nat.strong_induction_on generalizing s with
  | _ n ih =>
    subst hn
    by_cases hrest : Rests step own s
    · exact ⟨[], s, .nil, (fun p hp => nomatch hp), hs, hrest, by simp⟩
    · obtain ⟨a, hown, hsome⟩ : ∃ a, own s a ∧ step s a ≠ none := by
        simpa [Rests] using hrest
      obtain ⟨t, ht⟩ := Option.ne_none_iff_exists'.mp hsome
      obtain ⟨hPt, hlt⟩ := hstep s a t hs hown ht
      obtain ⟨path, s', hrun, hpath, hP', hrest', hlen⟩ := ih (potential t) hlt t hPt rfl
      have hfirst : Run step s ([] ++ [(s, a)]) t := Run.nil.snoc ht
      refine ⟨(s, a) :: path, s', hfirst.append hrun, fun p hp => ?_, hP', hrest', ?_⟩
      · rcases List.mem_cons.mp hp with rfl | hp
        · exact hown
        · exact hpath p hp
      · rw [List.length_cons]
        omega

/-- The system comes to rest in whatever order it goes on, and rests only where `Q` holds. -/
theorem Run.comes_to_rest {P Q : σ → Prop} {potential : σ → Nat} {own : σ → α → Prop}
    (hstep : ∀ s a s', P s → own s a → step s a = some s' → P s' ∧ potential s' < potential s)
    (hrest : ∀ s, P s → Rests step own s → Q s) (s : σ) (hs : P s) :
    (∀ path s', Run step s path s' → (∀ p ∈ path, own p.1 p.2) →
      path.length ≤ potential s ∧ (Rests step own s' → Q s')) ∧
    ∃ path s', Run step s path s' ∧ (∀ p ∈ path, own p.1 p.2) ∧ Q s' := by
  constructor
  · intro path s' hrun hown
    obtain ⟨hP, hlength⟩ := hrun.length_le hstep hs hown
    exact ⟨by omega, hrest s' hP⟩
  · obtain ⟨path, s', hrun, hown, hP, hatRest, -⟩ := Run.exists_rest hstep s hs
    exact ⟨path, s', hrun, hown, hrest s' hP hatRest⟩

/-- The sum over the parts of a system, of which one has changed. -/
theorem sum_update {ι β : Type} [Fintype ι] [DecidableEq ι] (g : ι → β) (f : β → Nat) (i : ι)
    (x : β) : (∑ j, f (Function.update g i x j)) + f (g i) = (∑ j, f (g j)) + f x := by
  have hnew := Finset.add_sum_erase Finset.univ (fun j => f (Function.update g i x j))
    (Finset.mem_univ i)
  have hold := Finset.add_sum_erase Finset.univ (fun j => f (g j)) (Finset.mem_univ i)
  have hothers : ∑ j ∈ Finset.univ.erase i, f (Function.update g i x j)
      = ∑ j ∈ Finset.univ.erase i, f (g j) := by
    refine Finset.sum_congr rfl fun j hj => ?_
    rw [Function.update_of_ne (Finset.ne_of_mem_erase hj)]
  simp only [Function.update_self] at hnew
  omega

end VectorEngine.Transition
