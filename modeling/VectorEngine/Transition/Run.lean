/-!
# `VectorEngine.Transition.Run`: runs of a system of atomic steps

A system is a partial function from states and actions to states: `step s a` is `none` when
the action is not possible in `s`. A `Run` records the states that it left and the actions
that it took there.

`Run.invariant` is the induction rule: what a step preserves holds in every state of a run.
The rule may assume a condition on the steps, for runs that meet it. `exec` runs a list of
actions, so that a concrete run is evaluated, and with `restrict` a condition on its steps is
evaluated along with it. `Run.simulation` carries a run over to another system.

The last section is about a system whose operations can fail, used by a caller that keeps to
a contract. `Along.refines` is its refinement rule: when each operation within the contract
succeeds and does what an abstract system does, so does every list of them.
-/

set_option autoImplicit false

namespace VectorEngine.Transition

variable {σ α : Type} {step : σ → α → Option σ}

/-- A run from `s₀` to `s`, through the states and actions of the list. The states are kept beside
the actions, so that a property of the steps can be stated of the states in which they are taken.
-/
inductive Run (step : σ → α → Option σ) (s₀ : σ) : List (σ × α) → σ → Prop where
  | nil : Run step s₀ [] s₀
  | snoc {path : List (σ × α)} {s s' : σ} {a : α} :
      Run step s₀ path s → step s a = some s' → Run step s₀ (path ++ [(s, a)]) s'

/-- What the steps that meet `C` preserve holds along a run whose steps all meet `C`. -/
theorem Run.invariant {P : σ → Prop} {C : σ → α → Prop}
    (hstep : ∀ s a s', P s → C s a → step s a = some s' → P s') {s₀ s : σ}
    {path : List (σ × α)} (h : Run step s₀ path s) (hstart : P s₀)
    (hcond : ∀ p ∈ path, C p.1 p.2) : P s ∧ ∀ p ∈ path, P p.1 := by
  induction h with
  | nil => exact ⟨hstart, fun p hp => nomatch hp⟩
  | @snoc path s s' a _ hs ih =>
    have hbefore : ∀ p ∈ path, C p.1 p.2 := fun p hp => hcond p (by simp [hp])
    have hlast : C s a := hcond (s, a) (by simp)
    obtain ⟨hP, hpath⟩ := ih hbefore
    refine ⟨hstep s a s' hP hlast hs, fun p hp => ?_⟩
    rcases List.mem_append.mp hp with hp | hp
    · exact hpath p hp
    · cases List.mem_singleton.mp hp
      exact hP

/-- Each step of a run leads to a state of the run. -/
theorem Run.exists_next {s₀ s : σ} {path : List (σ × α)} (h : Run step s₀ path s) :
    ∀ p ∈ path, ∃ s', step p.1 p.2 = some s' ∧ (s' = s ∨ ∃ q ∈ path, q.1 = s') := by
  induction h with
  | nil => exact fun p hp => nomatch hp
  | @snoc path s s' a _ hs ih =>
    intro p hp
    rcases List.mem_append.mp hp with hp | hp
    · obtain ⟨t, ht, hor⟩ := ih p hp
      rcases hor with rfl | ⟨q, hq, rfl⟩
      · exact ⟨t, ht, Or.inr ⟨(t, a), by simp, rfl⟩⟩
      · exact ⟨q.1, ht, Or.inr ⟨q, by simp [hq], rfl⟩⟩
    · cases List.mem_singleton.mp hp
      exact ⟨s', hs, Or.inl rfl⟩

/-- Run a list of actions. -/
def exec (step : σ → α → Option σ) (s : σ) : List α → Option σ
  | [] => some s
  | a :: as =>
    match step s a with
    | some s' => exec step s' as
    | none => none

/-- To take a list of one action is to take that action. -/
theorem exec_singleton {s s' : σ} {a : α} (h : step s a = some s') :
    exec step s [a] = some s' := by
  simp [exec, h]

/-- A run goes on with a list of actions. -/
theorem Run.exec {s₀ : σ} (as : List α) : ∀ {s s' : σ} {path : List (σ × α)},
    Run step s₀ path s → Transition.exec step s as = some s' →
    ∃ path', Run step s₀ path' s' ∧ path'.map Prod.snd = path.map Prod.snd ++ as := by
  induction as with
  | nil =>
    intro s s' path h hexec
    cases hexec
    exact ⟨path, h, by simp⟩
  | cons a as ih =>
    intro s s' path h hexec
    rw [Transition.exec] at hexec
    cases hs : step s a with
    | none =>
      rw [hs] at hexec
      cases hexec
    | some t =>
      rw [hs] at hexec
      obtain ⟨path', hrun, hacts⟩ := ih (h.snoc hs) hexec
      exact ⟨path', hrun, by simp [hacts]⟩

/-- Two runs, one after the other. -/
theorem Run.append {s₀ s s' : σ} {path path' : List (σ × α)} (h : Run step s₀ path s)
    (h' : Run step s path' s') : Run step s₀ (path ++ path') s' := by
  induction h' with
  | nil =>
    rw [List.append_nil]
    exact h
  | snoc _ hs ih =>
    rw [← List.append_assoc]
    exact ih.snoc hs

/-- The system in which a step is possible only where it meets the condition. -/
def restrict (C : σ → α → Prop) [∀ s, DecidablePred (C s)] (step : σ → α → Option σ) :
    σ → α → Option σ := fun s a => if C s a then step s a else none

/-- A run of the restricted system is a run of the system itself, and all of its steps meet the
condition. -/
theorem Run.of_restrict {C : σ → α → Prop} [∀ s, DecidablePred (C s)] {s₀ s : σ}
    {path : List (σ × α)} (h : Run (restrict C step) s₀ path s) :
    Run step s₀ path s ∧ ∀ p ∈ path, C p.1 p.2 := by
  induction h with
  | nil => exact ⟨.nil, fun p hp => nomatch hp⟩
  | @snoc path s s' a _ hs ih =>
    obtain ⟨hrun, hpath⟩ := ih
    obtain ⟨hC, hs⟩ := Option.ite_none_right_eq_some.mp hs
    refine ⟨hrun.snoc hs, fun p hp => ?_⟩
    rcases List.mem_append.mp hp with hp | hp
    · exact hpath p hp
    · cases List.mem_singleton.mp hp
      exact hC

/-! ### Simulation -/

/-- The simulation rule. When the abstract system can follow each step with a list of its own
actions, which may be empty, it can follow a whole run. An invariant of the run is a part of
the relation. -/
theorem Run.simulation {τ β : Type} {abstract : τ → β → Option τ} {R : σ → τ → Prop}
    (hstep : ∀ s t a s', R s t → step s a = some s' →
      ∃ bs t', Transition.exec abstract t bs = some t' ∧ R s' t')
    {s₀ s : σ} {t₀ : τ} {path : List (σ × α)} (h : Run step s₀ path s) (hstart : R s₀ t₀) :
    ∃ path' t, Run abstract t₀ path' t ∧ R s t := by
  induction h with
  | nil => exact ⟨[], t₀, .nil, hstart⟩
  | @snoc path s s' a _ hs ih =>
    obtain ⟨before, t, hrun, hR⟩ := ih
    obtain ⟨bs, t', hexec, hR'⟩ := hstep s t a s' hR hs
    obtain ⟨path', hrun', -⟩ := Run.exec bs hrun hexec
    exact ⟨path', t', hrun', hR'⟩

/-! ### Operations that can fail -/

section Contract

variable {τ ε : Type} {op : σ → α → Except ε σ} {permits : σ → α → Prop}

/-- The caller keeps to the contract, as long as the operations succeed. -/
def Along (op : σ → α → Except ε σ) (permits : σ → α → Prop) : σ → List α → Prop
  | _, [] => True
  | s, a :: as => permits s a ∧ ∀ s', op s a = .ok s' → Along op permits s' as

/-- Whether the actions of a list are permitted is decided by taking them, one after another. -/
instance decidableAlong [∀ s a, Decidable (permits s a)] :
    (s : σ) → (as : List α) → Decidable (Along op permits s as)
  | _, [] => isTrue trivial
  | s, a :: as =>
    match h : op s a with
    | .ok s' =>
      have := decidableAlong s' as
      decidable_of_iff (permits s a ∧ Along op permits s' as)
        ⟨fun hand => ⟨hand.1, fun t ht => by rw [h] at ht; cases ht; exact hand.2⟩,
          fun hand => ⟨hand.1, hand.2 s' h⟩⟩
    | .error _ =>
      decidable_of_iff (permits s a)
        ⟨fun ha => ⟨ha, fun t ht => by rw [h] at ht; cases ht⟩, fun hand => hand.1⟩

/-- When each operation within the contract succeeds and keeps the relation to an abstract
system, every list of them does. -/
theorem Along.refines {R : σ → τ → Prop} {abstract : τ → α → τ}
    (hop : ∀ s t a, R s t → permits s a → ∃ s', op s a = .ok s' ∧ R s' (abstract t a)) :
    ∀ {as : List α} {s : σ} {t : τ}, R s t → Along op permits s as →
      ∃ s', as.foldlM op s = .ok s' ∧ R s' (as.foldl abstract t) := by
  intro as
  induction as with
  | nil => exact fun hR _ => ⟨_, rfl, hR⟩
  | cons a as ih =>
    intro s t hR h
    obtain ⟨s₁, hs₁, hR₁⟩ := hop s t a hR h.1
    obtain ⟨s', hs', hR'⟩ := ih hR₁ (h.2 s₁ hs₁)
    refine ⟨s', ?_, hR'⟩
    rw [List.foldlM_cons, hs₁]
    exact hs'

end Contract

end VectorEngine.Transition
