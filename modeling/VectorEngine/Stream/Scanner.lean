import Mathlib.Data.List.Forall2

/-!
# `VectorEngine.Stream.Scanner`: incremental scanners over a byte stream

A scanner looks at the front of its input and answers with one of three verdicts: an item
and the input left behind it, the input ends before the item does, or no item can start
here. This is the shape of every parser that reads from a socket.

Two properties carry the theory. A scanner is `Stable` when an item or a failure is not
revised by input that arrives later. It `Consumes` when an item takes at least one symbol.
Both are closed under `andThen`, `times` and `endless`.

`drain` takes as many items as the input holds. `drain_append` is the law behind every
statement about chunks: draining a concatenation is draining the first part, and then
draining what it left together with the second. `drain_ok_of_append` says that a prefix of
an accepted input is accepted.

A grammar `G a u` relates an item to the symbols that spell it. `Sound` and `CompleteOn`
tie a scanner to a grammar, and `drain_sound` and `drain_complete` lift the tie to
sequences of items.
-/

set_option autoImplicit false

namespace VectorEngine.Stream

variable {ε β α γ : Type}

/-- What a scanner says about the front of its input. -/
inductive Verdict (ε β α : Type) where
  /-- The item `a` is at the front, and `rest` follows it. -/
  | done (a : α) (rest : List β)
  /-- The input ends before the item does. -/
  | more
  /-- No item starts here. -/
  | fail (e : ε)
  deriving DecidableEq, Repr

/-- A scanner reads the front of a list of symbols. -/
abbrev Scanner (ε β α : Type) := List β → Verdict ε β α

/-- Continue with the item and the input behind it. -/
def Verdict.bind (v : Verdict ε β α) (f : α → Scanner ε β γ) : Verdict ε β γ :=
  match v with
  | .done a rest => f a rest
  | .more => .more
  | .fail e => .fail e

/-- After an item the next scanner gets what the item left behind. -/
@[simp] theorem Verdict.bind_done (a : α) (rest : List β) (f : α → Scanner ε β γ) :
    (Verdict.done a rest).bind f = f a rest := rfl

/-- After the end of the input there is nothing for the next scanner. -/
@[simp] theorem Verdict.bind_more (f : α → Scanner ε β γ) :
    (Verdict.more : Verdict ε β α).bind f = .more := rfl

/-- After a failure the next scanner is not asked. -/
@[simp] theorem Verdict.bind_fail (e : ε) (f : α → Scanner ε β γ) :
    (Verdict.fail e : Verdict ε β α).bind f = .fail e := rfl

/-- The verdicts of three scanners in a row do not depend on how they are grouped, so that a
nested sequence can be read as a flat one. -/
theorem Verdict.bind_assoc {δ : Type} (v : Verdict ε β α) (f : α → Scanner ε β γ)
    (g : γ → Scanner ε β δ) :
    (v.bind f).bind g = v.bind fun a r => (f a r).bind g := by
  cases v <;> rfl

/-- A composite verdict is an item exactly when both parts are. -/
theorem Verdict.bind_eq_done {v : Verdict ε β α} {f : α → Scanner ε β γ} {c : γ}
    {r : List β} :
    v.bind f = .done c r ↔ ∃ a r', v = .done a r' ∧ f a r' = .done c r := by
  cases v with
  | done a r' =>
    constructor
    · intro h
      exact ⟨a, r', rfl, h⟩
    · rintro ⟨a', r'', h, hf⟩
      cases h
      exact hf
  | more => simp
  | fail e => simp

/-- A composite verdict is a failure exactly when one of the parts is. -/
theorem Verdict.bind_eq_fail {v : Verdict ε β α} {f : α → Scanner ε β γ} {e : ε} :
    v.bind f = .fail e ↔ v = .fail e ∨ ∃ a r', v = .done a r' ∧ f a r' = .fail e := by
  cases v with
  | done a r' =>
    constructor
    · intro h
      exact Or.inr ⟨a, r', rfl, h⟩
    · rintro (h | ⟨a', r'', h, hf⟩)
      · cases h
      · cases h
        exact hf
  | more => simp
  | fail e' => simp

/-- A composite verdict asks for more exactly when one of the parts does. -/
theorem Verdict.bind_eq_more {v : Verdict ε β α} {f : α → Scanner ε β γ} :
    v.bind f = .more ↔ v = .more ∨ ∃ a r', v = .done a r' ∧ f a r' = .more := by
  cases v with
  | done a r' =>
    constructor
    · intro h
      exact Or.inr ⟨a, r', rfl, h⟩
    · rintro (h | ⟨a', r'', h, hf⟩)
      · cases h
      · cases h
        exact hf
  | more => simp
  | fail e => simp

namespace Scanner

/-- The item that takes no input. -/
def succeed (a : α) : Scanner ε β α := fun l => .done a l

/-- No item, whatever the input. -/
def reject (e : ε) : Scanner ε β α := fun _ => .fail e

/-- One scanner after another. -/
def andThen (p : Scanner ε β α) (f : α → Scanner ε β γ) : Scanner ε β γ :=
  fun l => (p l).bind f

/-! ### Stability -/

/-- Input that arrives later revises neither an item nor a failure. This is what makes a scanner
usable on a stream: a verdict that was given on the first part of the input stands. -/
structure Stable (p : Scanner ε β α) : Prop where
  done : ∀ {l : List β} {a : α} {r : List β} (x : List β),
    p l = .done a r → p (l ++ x) = .done a (r ++ x)
  fail : ∀ {l : List β} {e : ε} (x : List β), p l = .fail e → p (l ++ x) = .fail e

/-- An item takes at least one symbol off the front. -/
def Consumes (p : Scanner ε β α) : Prop :=
  ∀ ⦃l : List β⦄ ⦃a : α⦄ ⦃r : List β⦄, p l = .done a r → ∃ u, u ≠ [] ∧ l = u ++ r

/-- An item leaves a suffix of the input. -/
def Suffixes (p : Scanner ε β α) : Prop :=
  ∀ ⦃l : List β⦄ ⦃a : α⦄ ⦃r : List β⦄, p l = .done a r → ∃ u, l = u ++ r

/-- What consumes leaves a suffix. -/
theorem Consumes.suffixes {p : Scanner ε β α} (h : Consumes p) : Suffixes p := by
  intro l a r hl
  obtain ⟨u, -, hu⟩ := h hl
  exact ⟨u, hu⟩

/-- What consumes leaves a shorter input. -/
theorem Consumes.length_lt {p : Scanner ε β α} (h : Consumes p) {l : List β} {a : α}
    {r : List β} (hl : p l = .done a r) : r.length < l.length := by
  obtain ⟨u, hne, hu⟩ := h hl
  have hpos := List.length_pos_of_ne_nil hne
  rw [hu, List.length_append]
  omega

/-- The item that takes no input is there whatever follows. -/
theorem stable_succeed (a : α) : Stable (succeed a : Scanner ε β α) where
  done x h := by
    cases h
    rfl
  fail x h := by cases h

/-- What is rejected on every input is rejected on a longer one. -/
theorem stable_reject (e : ε) : Stable (reject e : Scanner ε β α) where
  done x h := by cases h
  fail x h := h

/-- A sequence of stable scanners is stable. -/
theorem Stable.andThen {p : Scanner ε β α} {f : α → Scanner ε β γ} (hp : Stable p)
    (hf : ∀ a, Stable (f a)) : Stable (p.andThen f) where
  done {l c r} x h := by
    obtain ⟨a, r', hpl, hfr⟩ := Verdict.bind_eq_done.mp h
    show (p (l ++ x)).bind f = _
    rw [hp.done x hpl]
    exact (hf a).done x hfr
  fail {l e} x h := by
    show (p (l ++ x)).bind f = _
    rcases Verdict.bind_eq_fail.mp h with hpl | ⟨a, r', hpl, hfr⟩
    · rw [hp.fail x hpl]
      rfl
    · rw [hp.done x hpl]
      exact (hf a).fail x hfr

/-- A sequence consumes when its first part does and the rest leaves suffixes. -/
theorem Consumes.andThen {p : Scanner ε β α} {f : α → Scanner ε β γ} (hp : Consumes p)
    (hf : ∀ a, Suffixes (f a)) : Consumes (p.andThen f) := by
  intro l c r h
  obtain ⟨a, r', hpl, hfr⟩ := Verdict.bind_eq_done.mp h
  obtain ⟨u, hne, hu⟩ := hp hpl
  obtain ⟨u', hu'⟩ := hf a hfr
  exact ⟨u ++ u', by simp [hne], by rw [hu, hu', List.append_assoc]⟩

/-- The whole input is a suffix of itself. -/
theorem suffixes_succeed (a : α) : Suffixes (succeed a : Scanner ε β α) := by
  intro l a' r h
  cases h
  exact ⟨[], rfl⟩

/-- Where there is never an item, nothing has to be left behind one. -/
theorem suffixes_reject (e : ε) : Suffixes (reject e : Scanner ε β α) := by
  intro l a r h
  cases h

/-- A sequence leaves a suffix when both parts do. -/
theorem Suffixes.andThen {p : Scanner ε β α} {f : α → Scanner ε β γ} (hp : Suffixes p)
    (hf : ∀ a, Suffixes (f a)) : Suffixes (p.andThen f) := by
  intro l c r h
  obtain ⟨a, r', hpl, hfr⟩ := Verdict.bind_eq_done.mp h
  obtain ⟨u, rfl⟩ := hp hpl
  obtain ⟨u', rfl⟩ := hf a hfr
  exact ⟨u ++ u', by rw [List.append_assoc]⟩

/-- A stable scanner that takes an item from `l` never asks for more on an extension. -/
theorem Stable.ne_more {p : Scanner ε β α} (hp : Stable p) {l : List β} {a : α}
    {r : List β} (h : p l = .done a r) (x : List β) : p (l ++ x) ≠ .more := by
  rw [hp.done x h]
  simp

/-- A proper prefix of an item asks for more. A failure or a shorter item on the prefix
would be stable, and contradict the item on the whole. -/
theorem Stable.more_of_done {p : Scanner ε β α} (hp : Stable p) {t x : List β} {a : α}
    (h : p (t ++ x) = .done a []) (hx : x ≠ []) : p t = .more := by
  cases ht : p t with
  | more => rfl
  | done a' r' =>
    -- The item would leave `x` on the whole as well, and `x` is not empty.
    rw [hp.done x ht] at h
    simp [hx] at h
  | fail e =>
    rw [hp.fail x ht] at h
    cases h

/-- An input that is not complete with later input is not complete without it. -/
theorem Stable.more_of_append {p : Scanner ε β α} (hp : Stable p) {t x : List β}
    (h : p (t ++ x) = .more) : p t = .more := by
  cases ht : p t with
  | more => rfl
  | done a r => exact absurd h (hp.ne_more ht x)
  | fail e =>
    rw [hp.fail x ht] at h
    cases h

/-! ### Counted repetition -/

/-- Exactly `n` items. -/
def times (p : Scanner ε β α) : Nat → Scanner ε β (List α)
  | 0 => succeed []
  | n + 1 => p.andThen fun a => (times p n).andThen fun as => succeed (a :: as)

/-- A counted repetition of a stable scanner is stable, one item after the other. -/
theorem Stable.times {p : Scanner ε β α} (hp : Stable p) (n : Nat) :
    Stable (p.times n) := by
  induction n with
  | zero => exact stable_succeed []
  | succ n ih => exact hp.andThen fun a => ih.andThen fun as => stable_succeed (a :: as)

/-- A counted repetition leaves a suffix. It need not consume, since it may be repeated zero
times. -/
theorem Consumes.suffixes_times {p : Scanner ε β α} (hp : Consumes p) (n : Nat) :
    Suffixes (p.times n) := by
  induction n with
  | zero => exact suffixes_succeed []
  | succ n ih =>
    exact hp.suffixes.andThen fun a => ih.andThen fun as => suffixes_succeed (a :: as)

/-! ### Draining -/

/-- The loop behind `drain`: take items while there are any, with `fuel` rounds. -/
def drainLoop (p : Scanner ε β α) : Nat → List β → Except ε (List α × List β)
  | 0, l => .ok ([], l)
  | fuel + 1, l =>
    match p l with
    | .done a r =>
      match drainLoop p fuel r with
      | .ok (as, l') => .ok (a :: as, l')
      | .error e => .error e
    | .more => .ok ([], l)
    | .fail e => .error e

/-- Take every item the input holds. The result is the items and the input behind the last
of them. A consuming scanner takes at most one item per symbol, so the length is enough
fuel. -/
def drain (p : Scanner ε β α) (l : List β) : Except ε (List α × List β) :=
  drainLoop p (l.length + 1) l

/-- Past the length of the input, more fuel changes nothing. -/
theorem drainLoop_eq_drain {p : Scanner ε β α} (hc : Consumes p) :
    ∀ (fuel : Nat) (l : List β), l.length < fuel → drainLoop p fuel l = drain p l := by
  -- Two amounts of fuel agree once both exceed the length: an item takes at least one symbol,
  -- so both still exceed the length of what it leaves.
  have key : ∀ (fuel fuel' : Nat) (l : List β), l.length < fuel → l.length < fuel' →
      drainLoop p fuel l = drainLoop p fuel' l := by
    intro fuel
    induction fuel with
    | zero => intro fuel' l h; omega
    | succ fuel ih =>
      intro fuel' l h h'
      cases fuel' with
      | zero => omega
      | succ fuel' =>
        cases hp : p l with
        | done a r =>
          have hlt := hc.length_lt hp
          simp only [drainLoop, hp, ih fuel' r (by omega) (by omega)]
        | more => simp only [drainLoop, hp]
        | fail e => simp only [drainLoop, hp]
  intro fuel l h
  exact key fuel (l.length + 1) l h (by omega)

/-- Prepend items to the result of a drain. -/
def prepend (as : List α) (d : Except ε (List α × List β)) : Except ε (List α × List β) :=
  d.map fun q => (as ++ q.1, q.2)

/-- Items go before the items of a drain. -/
@[simp] theorem prepend_ok (as bs : List α) (r : List β) :
    prepend as (.ok (bs, r) : Except ε (List α × List β)) = .ok (as ++ bs, r) := rfl

/-- A drain that failed has no items to go before. -/
@[simp] theorem prepend_error (as : List α) (e : ε) :
    prepend as (.error e : Except ε (List α × List β)) = .error e := rfl

/-- No items before a drain are no change. -/
@[simp] theorem prepend_nil (d : Except ε (List α × List β)) : prepend [] d = d := by
  cases d <;> rfl

/-- Items in front of items are one list in front, which is what collects the parts of an input
that arrived in pieces. -/
theorem prepend_prepend (as bs : List α) (d : Except ε (List α × List β)) :
    prepend as (prepend bs d) = prepend (as ++ bs) d := by
  cases d with
  | error e => rfl
  | ok q => simp [prepend, Except.map]

/-- A prepended result is accepted exactly when the result is. -/
theorem prepend_eq_ok {as cs : List α} {d : Except ε (List α × List β)} {r : List β} :
    prepend as d = .ok (cs, r) ↔ ∃ bs, d = .ok (bs, r) ∧ cs = as ++ bs := by
  cases d with
  | error e => simp
  | ok q =>
    obtain ⟨bs, r'⟩ := q
    simp only [prepend_ok, Except.ok.injEq, Prod.mk.injEq]
    constructor
    · rintro ⟨rfl, rfl⟩
      exact ⟨bs, ⟨rfl, rfl⟩, rfl⟩
    · rintro ⟨bs', ⟨rfl, rfl⟩, rfl⟩
      exact ⟨rfl, rfl⟩

/-- An item at the front goes first, and the drain continues behind it. -/
theorem drain_done {p : Scanner ε β α} (hc : Consumes p) {l : List β} {a : α} {r : List β}
    (h : p l = .done a r) : drain p l = prepend [a] (drain p r) := by
  have hlt := hc.length_lt h
  show drainLoop p (l.length + 1) l = _
  simp only [drainLoop, h, drainLoop_eq_drain hc l.length r hlt]
  cases drain p r <;> rfl

/-- An incomplete item at the front is left alone. -/
theorem drain_more {p : Scanner ε β α} {l : List β} (h : p l = .more) :
    drain p l = .ok ([], l) := by
  simp only [drain, drainLoop, h]

/-- A failure at the front fails the drain. -/
theorem drain_fail {p : Scanner ε β α} {l : List β} {e : ε} (h : p l = .fail e) :
    drain p l = .error e := by
  simp only [drain, drainLoop, h]

/-- Induction along a drain: one case for each verdict at the front. -/
theorem drain_induction {p : Scanner ε β α} (hc : Consumes p) {P : List β → Prop}
    (done : ∀ l a r, p l = .done a r → P r → P l) (more : ∀ l, p l = .more → P l)
    (fail : ∀ l e, p l = .fail e → P l) : ∀ l, P l := by
  intro l
  induction hn : l.length using Nat.strongRecOn generalizing l with
  | ind n ih =>
    subst hn
    cases h : p l with
    | done a r => exact done l a r h (ih r.length (hc.length_lt h) r rfl)
    | more => exact more l h
    | fail e => exact fail l e h

/-- Induction along a drain that accepts its input: the items it took, one by one, and the
incomplete item behind them. -/
theorem drain_ok_induction {p : Scanner ε β α} (hc : Consumes p)
    {P : List β → List α → List β → Prop} (more : ∀ l, p l = .more → P l [] l)
    (done : ∀ l a r' as r, p l = .done a r' → drain p r' = .ok (as, r) → P r' as r →
      P l (a :: as) r) :
    ∀ {l : List β} {as : List α} {r : List β}, drain p l = .ok (as, r) → P l as r := by
  intro l
  induction l using drain_induction hc with
  | done l a r' hp ih =>
    intro as r h
    rw [drain_done hc hp, prepend_eq_ok] at h
    obtain ⟨bs, hbs, rfl⟩ := h
    exact done l a r' bs r hp hbs (ih hbs)
  | more l hp =>
    intro as r h
    rw [drain_more hp] at h
    cases h
    exact more l hp
  | fail l e hp =>
    -- A failure at the front accepts nothing.
    intro as r h
    rw [drain_fail hp] at h
    cases h

/-- What a drain leaves is an incomplete item. -/
theorem drain_rest {p : Scanner ε β α} (hc : Consumes p) {l : List β} {as : List α}
    {r : List β} (h : drain p l = .ok (as, r)) : p r = .more :=
  drain_ok_induction hc (P := fun _ _ r => p r = .more) (fun _ hp => hp)
    (fun _ _ _ _ _ _ _ ih => ih) h

/-- What a drain leaves is a suffix of its input. -/
theorem drain_suffix {p : Scanner ε β α} (hc : Consumes p) {l : List β} {as : List α}
    {r : List β} (h : drain p l = .ok (as, r)) : ∃ u, l = u ++ r := by
  refine drain_ok_induction hc (P := fun l _ r => ∃ u, l = u ++ r) (fun _ _ => ⟨[], rfl⟩)
    (fun l a r' as r hp _ ih => ?_) h
  obtain ⟨u, hu⟩ := ih
  obtain ⟨u', -, hu'⟩ := hc hp
  exact ⟨u' ++ u, by rw [hu', hu, List.append_assoc]⟩

/-- A drain took an item exactly when it left less than it was given. -/
theorem drain_length_lt_iff {p : Scanner ε β α} (hc : Consumes p) {l : List β}
    {as : List α} {r : List β} (h : drain p l = .ok (as, r)) :
    r.length < l.length ↔ as ≠ [] := by
  cases hp : p l with
  | done a r' =>
    rw [drain_done hc hp, prepend_eq_ok] at h
    obtain ⟨bs, hbs, rfl⟩ := h
    obtain ⟨u, hu⟩ := drain_suffix hc hbs
    have hlt := hc.length_lt hp
    have hle : r'.length = u.length + r.length := by rw [hu, List.length_append]
    simp
    omega
  | more =>
    rw [drain_more hp] at h
    cases h
    simp
  | fail e =>
    rw [drain_fail hp] at h
    cases h

/-- A drain that took nothing left everything. -/
theorem drain_nil {p : Scanner ε β α} (hc : Consumes p) {l r : List β}
    (h : drain p l = .ok ([], r)) : r = l := by
  obtain ⟨u, rfl⟩ := drain_suffix hc h
  have hnot : ¬ r.length < (u ++ r).length := fun hlt => (drain_length_lt_iff hc h).mp hlt rfl
  rw [List.length_append] at hnot
  have hnil : u = [] := List.length_eq_zero_iff.mp (by omega)
  rw [hnil, List.nil_append]

/-- **The append law.** Draining `l ++ x` is draining `l`, and then draining what it left
together with `x`. -/
theorem drain_append {p : Scanner ε β α} (hs : Stable p) (hc : Consumes p)
    (l x : List β) :
    drain p (l ++ x) =
      match drain p l with
      | .ok (as, r) => prepend as (drain p (r ++ x))
      | .error e => .error e := by
  -- By stability the items and the failure of `l` are those of `l ++ x`. Only where `l` ends
  -- inside an item does the scanner see `x`.
  induction l using drain_induction hc with
  | done l a r hp ih =>
    rw [drain_done hc (hs.done x hp), ih, drain_done hc hp]
    cases drain p r with
    | error e => rfl
    | ok q => exact prepend_prepend [a] q.1 (drain p (q.2 ++ x))
  | more l hp =>
    rw [drain_more hp]
    exact (prepend_nil _).symm
  | fail l e hp => rw [drain_fail (hs.fail x hp), drain_fail hp]

/-- The append law behind an accepted part. -/
theorem drain_append_of_ok {p : Scanner ε β α} (hs : Stable p) (hc : Consumes p)
    {l : List β} {as : List α} {r : List β} (h : drain p l = .ok (as, r)) (x : List β) :
    drain p (l ++ x) = prepend as (drain p (r ++ x)) := by
  rw [drain_append hs hc, h]

/-- A prefix of an accepted input is accepted, and its items come first. -/
theorem drain_ok_of_append {p : Scanner ε β α} (hs : Stable p) (hc : Consumes p)
    {l x : List β} {cs : List α} {r : List β} (h : drain p (l ++ x) = .ok (cs, r)) :
    ∃ as bs l', drain p l = .ok (as, l') ∧ drain p (l' ++ x) = .ok (bs, r) ∧
      cs = as ++ bs := by
  rw [drain_append hs hc] at h
  cases hl : drain p l with
  | error e =>
    rw [hl] at h
    cases h
  | ok q =>
    obtain ⟨as, l'⟩ := q
    rw [hl] at h
    obtain ⟨bs, hbs, hcs⟩ := prepend_eq_ok.mp h
    exact ⟨as, bs, l', rfl, hbs, hcs⟩

/-- Items without end: whatever the input holds, one more item is expected. -/
def endless (p : Scanner ε β α) : Scanner ε β γ := fun l =>
  match drain p l with
  | .ok _ => .more
  | .error e => .fail e

/-- Items without end are never all there. -/
theorem endless_ne_done {p : Scanner ε β α} (l : List β) (c : γ) (r : List β) :
    (endless p : Scanner ε β γ) l ≠ .done c r := by
  unfold endless
  split <;> simp

/-- Items without end are stable, for want of an item: a failure on some input is one on a longer
input. -/
theorem Stable.endless {p : Scanner ε β α} (hs : Stable p) (hc : Consumes p) :
    Stable (endless p : Scanner ε β γ) where
  done x h := absurd h (endless_ne_done _ _ _)
  fail {l e} x h := by
    unfold Scanner.endless at h ⊢
    rw [drain_append hs hc]
    cases hd : drain p l with
    | ok q =>
      -- Then the verdict on `l` was `more`.
      rw [hd] at h
      cases h
    | error e' =>
      rw [hd] at h
      cases h
      rfl

/-- One more item, and again items without end. -/
theorem endless_eq {p : Scanner ε β α} (hc : Consumes p) (l : List β) :
    (endless p : Scanner ε β γ) l = (p l).bind fun _ r => endless p r := by
  unfold endless
  cases hp : p l with
  | done a r =>
    rw [drain_done hc hp, Verdict.bind_done]
    cases drain p r <;> rfl
  | more =>
    rw [drain_more hp]
    rfl
  | fail e =>
    rw [drain_fail hp]
    rfl

/-! ### Where a scanner gets to -/

/-- The input `l'` is what `k` items at the front of `l` leave. -/
inductive After (p : Scanner ε β α) : Nat → List β → List β → Prop where
  | zero (l : List β) : After p 0 l l
  | succ {l l' r : List β} {a : α} {k : Nat} :
      p l = .done a r → After p k r l' → After p (k + 1) l l'

/-- A drain fails exactly when the scanner fails behind some items. -/
theorem drain_eq_error {p : Scanner ε β α} (hc : Consumes p) {l : List β} {e : ε} :
    drain p l = .error e ↔ ∃ k l', After p k l l' ∧ p l' = .fail e := by
  constructor
  · intro h
    induction l using drain_induction hc with
    | done l a r hp ih =>
      rw [drain_done hc hp] at h
      cases hr : drain p r with
      | ok q =>
        rw [hr] at h
        cases h
      | error e' =>
        rw [hr] at h
        cases h
        obtain ⟨k, l', hafter, hfail⟩ := ih hr
        exact ⟨k + 1, l', .succ hp hafter, hfail⟩
    | more l hp =>
      rw [drain_more hp] at h
      cases h
    | fail l e' hp =>
      rw [drain_fail hp] at h
      cases h
      exact ⟨0, l, .zero l, hp⟩
  · rintro ⟨k, l', hafter, hfail⟩
    induction hafter with
    | zero l => exact drain_fail hfail
    | succ hp _ ih =>
      rw [drain_done hc hp, ih hfail]
      rfl

/-- A counted repetition fails exactly when the scanner fails behind fewer items. -/
theorem times_eq_fail {p : Scanner ε β α} : ∀ (n : Nat) {l : List β} {e : ε},
    p.times n l = .fail e ↔ ∃ k l', k < n ∧ After p k l l' ∧ p l' = .fail e := by
  intro n
  induction n with
  | zero =>
    intro l e
    constructor
    · intro h
      cases h
    · rintro ⟨k, l', hk, -⟩
      omega
  | succ n ih =>
    intro l e
    constructor
    · intro h
      rcases Verdict.bind_eq_fail.mp h with hp | ⟨a, r, hp, h⟩
      · exact ⟨0, l, Nat.succ_pos n, .zero l, hp⟩
      · rcases Verdict.bind_eq_fail.mp h with hr | ⟨as, r', -, h⟩
        · obtain ⟨k, l', hk, hafter, hfail⟩ := ih.mp hr
          exact ⟨k + 1, l', by omega, .succ hp hafter, hfail⟩
        · cases h
    · rintro ⟨k, l', hk, hafter, hfail⟩
      cases hafter with
      | zero l =>
        show (p l).bind _ = _
        rw [hfail]
        rfl
      | @succ _ _ r a k hp hafter =>
        have hr := ih.mpr ⟨k, l', by omega, hafter, hfail⟩
        show (p l).bind _ = _
        rw [hp]
        show (p.times n r).bind _ = _
        rw [hr]
        rfl

/-- Items without end fail exactly when the drain does. -/
theorem endless_eq_fail {p : Scanner ε β α} {l : List β} {e : ε} :
    (endless p : Scanner ε β γ) l = .fail e ↔ drain p l = .error e := by
  unfold endless
  cases drain p l with
  | ok q => simp
  | error e' => simp

/-! ### The failures of a scanner -/

/-- Every failure of the scanner is of the kind `P`. -/
def FailsIn (P : ε → Prop) (p : Scanner ε β α) : Prop :=
  ∀ ⦃l : List β⦄ ⦃e : ε⦄, p l = .fail e → P e

/-- A scanner fails with a wider class of errors if it fails with a narrower one. -/
theorem FailsIn.mono {P Q : ε → Prop} {p : Scanner ε β α} (hp : FailsIn P p)
    (hPQ : ∀ e, P e → Q e) : FailsIn Q p := fun _ e h => hPQ e (hp h)

/-- The item that takes no input does not fail. -/
theorem FailsIn.succeed {P : ε → Prop} (a : α) :
    FailsIn P (Scanner.succeed a : Scanner ε β α) := by
  intro l e h
  cases h

/-- The scanner that rejects everything fails with its own error. -/
theorem FailsIn.reject {P : ε → Prop} {e : ε} (he : P e) :
    FailsIn P (Scanner.reject e : Scanner ε β α) := by
  intro l e' h
  cases h
  exact he

/-- A sequence fails only as one of its parts does. -/
theorem FailsIn.andThen {P : ε → Prop} {p : Scanner ε β α} {f : α → Scanner ε β γ}
    (hp : FailsIn P p) (hf : ∀ a, FailsIn P (f a)) : FailsIn P (p.andThen f) := by
  intro l e h
  rcases Verdict.bind_eq_fail.mp h with hpl | ⟨a, r, -, hfr⟩
  · exact hp hpl
  · exact hf a hfr

/-- A counted repetition fails only as the item does. -/
theorem FailsIn.times {P : ε → Prop} {p : Scanner ε β α} (hp : FailsIn P p) (n : Nat) :
    FailsIn P (p.times n) := by
  intro l e h
  obtain ⟨k, l', -, -, hfail⟩ := (times_eq_fail n).mp h
  exact hp hfail

/-- A drain fails only as the item does. -/
theorem FailsIn.drain {P : ε → Prop} {p : Scanner ε β α} (hp : FailsIn P p)
    (hc : Consumes p) {l : List β} {e : ε} (h : p.drain l = .error e) : P e := by
  obtain ⟨k, l', -, hfail⟩ := (drain_eq_error hc).mp h
  exact hp hfail

/-- Items without end fail only as the item does. -/
theorem FailsIn.endless {P : ε → Prop} {p : Scanner ε β α} (hp : FailsIn P p)
    (hc : Consumes p) : FailsIn P (Scanner.endless p : Scanner ε β γ) := by
  intro l e h
  exact hp.drain hc (endless_eq_fail.mp h)

/-! ### Grammars -/

/-- Every item the scanner takes is spelt by the symbols it takes. -/
def Sound (p : Scanner ε β α) (G : α → List β → Prop) : Prop :=
  ∀ ⦃l : List β⦄ ⦃a : α⦄ ⦃r : List β⦄, p l = .done a r → ∃ u, G a u ∧ l = u ++ r

/-- The scanner takes every spelling of `a` for `a`, whatever follows it. -/
def CompleteOn (p : Scanner ε β α) (G : α → List β → Prop) (a : α) : Prop :=
  ∀ (u : List β), G a u → ∀ r, p (u ++ r) = .done a r

/-- The symbols at the front of an input spell at most one item. -/
def Unambiguous (G : α → List β → Prop) : Prop :=
  ∀ ⦃a a' : α⦄ ⦃u u' r r' : List β⦄, G a u → G a' u' → u ++ r = u' ++ r' → a = a' ∧ r = r'

/-- Each item of a sequence is spelt by one of the spellings. -/
theorem exists_spelling {G : α → List β → Prop} {as : List α} {us : List (List β)}
    (h : List.Forall₂ G as us) : ∀ a ∈ as, ∃ u ∈ us, G a u := by
  intro a ha
  obtain ⟨i, hi, rfl⟩ := List.mem_iff_getElem.mp ha
  have hi' : i < us.length := h.length_eq ▸ hi
  exact ⟨us[i], List.getElem_mem hi', List.Forall₂.get h hi hi'⟩

/-- The symbols at the front spell at most one sequence of a given length. -/
theorem Unambiguous.sequence {G : α → List β → Prop} (hG : Unambiguous G) {as bs : List α}
    {us vs : List (List β)} {r r' : List β} (has : List.Forall₂ G as us)
    (hbs : List.Forall₂ G bs vs) (hlen : as.length = bs.length)
    (heq : us.flatten ++ r = vs.flatten ++ r') : as = bs ∧ r = r' := by
  induction has generalizing bs vs with
  | nil =>
    cases hbs with
    | nil => exact ⟨rfl, heq⟩
    | cons _ _ => cases hlen
  | cons hu hus ih =>
    cases hbs with
    | nil => cases hlen
    | cons hv hvs =>
      rw [List.flatten_cons, List.flatten_cons, List.append_assoc, List.append_assoc] at heq
      obtain ⟨rfl, hrest⟩ := hG hu hv heq
      obtain ⟨rfl, hr⟩ := ih hvs (Nat.succ.inj hlen) hrest
      exact ⟨rfl, hr⟩

/-- A whole input spells at most one sequence, if no item is spelt by nothing. -/
theorem Unambiguous.flatten_inj {G : α → List β → Prop} (hG : Unambiguous G)
    (hne : ∀ a, ¬ G a []) {as bs : List α} {us vs : List (List β)}
    (has : List.Forall₂ G as us) (hbs : List.Forall₂ G bs vs)
    (heq : us.flatten = vs.flatten) : as = bs := by
  induction has generalizing bs vs with
  | nil =>
    cases hbs with
    | nil => rfl
    | @cons b v bs vs hv hvs =>
      have hnil : v = [] := (List.append_eq_nil_iff.mp heq.symm).1
      exact absurd (hnil ▸ hv) (hne b)
  | @cons a u as us hu hus ih =>
    cases hbs with
    | nil =>
      have hnil : u = [] := (List.append_eq_nil_iff.mp heq).1
      exact absurd (hnil ▸ hu) (hne a)
    | cons hv hvs =>
      obtain ⟨rfl, hrest⟩ := hG hu hv heq
      rw [ih hvs hrest]

/-- Each item of a counted repetition was taken by the scanner. -/
theorem times_mem {p : Scanner ε β α} : ∀ (n : Nat) {l : List β} {as : List α} {r : List β},
    p.times n l = .done as r → ∀ a ∈ as, ∃ l' r', p l' = .done a r' := by
  intro n
  induction n with
  | zero =>
    intro l as r h a ha
    cases h
    cases ha
  | succ n ih =>
    intro l as r h a ha
    obtain ⟨b, r₁, hb, h₁⟩ := Verdict.bind_eq_done.mp h
    obtain ⟨bs, r₂, hbs, h₂⟩ := Verdict.bind_eq_done.mp h₁
    cases h₂
    rcases List.mem_cons.mp ha with rfl | ha
    · exact ⟨l, r₁, hb⟩
    · exact ih hbs a ha

/-- A counted repetition of a sound scanner is sound: what it takes off the input is a spelling of
each of its items, in their order. -/
theorem times_sound {p : Scanner ε β α} {G : α → List β → Prop} (hp : Sound p G) :
    ∀ (n : Nat) {l : List β} {as : List α} {r : List β}, p.times n l = .done as r →
      as.length = n ∧ ∃ us, List.Forall₂ G as us ∧ l = us.flatten ++ r := by
  intro n
  induction n with
  | zero =>
    intro l as r h
    cases h
    exact ⟨rfl, [], .nil, rfl⟩
  | succ n ih =>
    intro l as r h
    obtain ⟨a, r₁, ha, h₁⟩ := Verdict.bind_eq_done.mp h
    obtain ⟨as', r₂, has, h₂⟩ := Verdict.bind_eq_done.mp h₁
    cases h₂
    obtain ⟨u, hu, rfl⟩ := hp ha
    obtain ⟨hlen, us, hus, rfl⟩ := ih has
    exact ⟨by simp [hlen], u :: us, .cons hu hus, by simp⟩

/-- A counted repetition accepts the spellings of its items, if the scanner accepts each of them.
-/
theorem times_complete {p : Scanner ε β α} {G : α → List β → Prop} {as : List α}
    {us : List (List β)} (h : List.Forall₂ G as us) (hp : ∀ a ∈ as, CompleteOn p G a)
    (r : List β) : p.times as.length (us.flatten ++ r) = .done as r := by
  induction h with
  | nil => rfl
  | @cons a u as us hu hus ih =>
    have hhead := hp a (by simp) u hu (us.flatten ++ r)
    have htail := ih fun a' ha' => hp a' (by simp [ha'])
    show (p ((u :: us).flatten ++ r)).bind _ = _
    rw [List.flatten_cons, List.append_assoc, hhead]
    show (p.times as.length (us.flatten ++ r)).bind _ = _
    rw [htail]
    rfl

/-- What a drain takes off the input is a spelling of each of its items. No hypothesis on the
input is made, so this holds of requests and of garbage. -/
theorem drain_sound {p : Scanner ε β α} {G : α → List β → Prop} (hc : Consumes p)
    (hp : Sound p G) {l : List β} {as : List α} {r : List β}
    (h : drain p l = .ok (as, r)) :
    ∃ us, List.Forall₂ G as us ∧ l = us.flatten ++ r := by
  refine drain_ok_induction hc
    (P := fun l as r => ∃ us, List.Forall₂ G as us ∧ l = us.flatten ++ r)
    (fun _ _ => ⟨[], .nil, rfl⟩) (fun l a r' as r hl _ ih => ?_) h
  obtain ⟨us, hus, rfl⟩ := ih
  obtain ⟨u, hu, rfl⟩ := hp hl
  exact ⟨u :: us, .cons hu hus, by simp⟩

/-- A drain takes every item whose spelling is in front and goes on behind the last of them. -/
theorem drain_complete {p : Scanner ε β α} {G : α → List β → Prop} (hc : Consumes p)
    {as : List α} {us : List (List β)} (h : List.Forall₂ G as us)
    (hp : ∀ a ∈ as, CompleteOn p G a) (r : List β) :
    drain p (us.flatten ++ r) = prepend as (drain p r) := by
  induction h with
  | nil => exact (prepend_nil _).symm
  | @cons a u as us hu hus ih =>
    have hhead := hp a (by simp) u hu (us.flatten ++ r)
    rw [List.flatten_cons, List.append_assoc, drain_done hc hhead,
      ih fun a' ha' => hp a' (by simp [ha']), prepend_prepend]
    rfl

/-- What the items of a sound scanner left is behind their spellings. -/
theorem After.sound {p : Scanner ε β α} {G : α → List β → Prop} (hp : Sound p G) {k : Nat}
    {l l' : List β} (h : After p k l l') :
    ∃ as us, as.length = k ∧ List.Forall₂ G as us ∧ l = us.flatten ++ l' ∧
      ∀ a ∈ as, ∃ l₁ r₁, p l₁ = .done a r₁ := by
  induction h with
  | zero l => exact ⟨[], [], rfl, .nil, rfl, fun a ha => nomatch ha⟩
  | @succ l l' r a k hdone _ ih =>
    obtain ⟨as, us, hlen, hus, rfl, hmem⟩ := ih
    obtain ⟨u, hu, rfl⟩ := hp hdone
    refine ⟨a :: as, u :: us, by simp [hlen], .cons hu hus, by simp, fun b hb => ?_⟩
    rcases List.mem_cons.mp hb with rfl | hb
    · exact ⟨_, _, hdone⟩
    · exact hmem b hb

/-- Behind the spellings of items, a complete scanner is behind the items. -/
theorem After.of_complete {p : Scanner ε β α} {G : α → List β → Prop} {as : List α}
    {us : List (List β)} (h : List.Forall₂ G as us) (hp : ∀ a ∈ as, CompleteOn p G a)
    (l' : List β) : After p as.length (us.flatten ++ l') l' := by
  induction h with
  | nil => exact .zero l'
  | @cons a u as us hu hus ih =>
    have hhead := hp a (by simp) u hu (us.flatten ++ l')
    rw [List.flatten_cons, List.append_assoc]
    exact .succ hhead (ih fun a' ha' => hp a' (by simp [ha']))

/-- A drain of input that starts as the spellings of `as` do, and that took as many items:
it took `as`, and went on behind them. -/
theorem drain_spelt {p : Scanner ε β α} {G : α → List β → Prop} (hc : Consumes p)
    (hp : Sound p G) (hG : Unambiguous G) {as : List α} {us : List (List β)}
    (has : List.Forall₂ G as us) :
    ∀ {l x m : List β} {bs : List α} {r : List β}, l ++ x = us.flatten ++ m →
      drain p l = .ok (bs, r) → as.length ≤ bs.length →
      ∃ cs l', bs = as ++ cs ∧ l = us.flatten ++ l' ∧ drain p l' = .ok (cs, r) ∧
        ∀ a ∈ as, ∃ l₁ r₁, p l₁ = .done a r₁ := by
  induction has with
  | nil =>
    intro l x m bs r _ h _
    exact ⟨bs, l, rfl, rfl, h, fun a ha => nomatch ha⟩
  | @cons a u as us hu hus ih =>
    intro l x m bs r hl h hlen
    cases hscan : p l with
    | done b r₁ =>
      rw [drain_done hc hscan, prepend_eq_ok] at h
      obtain ⟨bs', hbs', rfl⟩ := h
      obtain ⟨v, hv, rfl⟩ := hp hscan
      rw [List.flatten_cons, List.append_assoc, List.append_assoc] at hl
      -- The item taken is spelt by the same symbols as `a`.
      obtain ⟨rfl, hrest⟩ := hG hv hu hl
      have huv : v = u := List.append_cancel_right (hrest ▸ hl)
      subst huv
      obtain ⟨cs, l', rfl, rfl, hcs, hmem⟩ := ih hrest hbs' (by simpa using hlen)
      refine ⟨cs, l', rfl, by simp, hcs, fun a ha => ?_⟩
      rcases List.mem_cons.mp ha with rfl | ha
      · exact ⟨_, _, hscan⟩
      · exact hmem a ha
    | more =>
      -- The drain took nothing, and `as` is not empty.
      rw [drain_more hscan] at h
      cases h
      simp at hlen
    | fail e =>
      rw [drain_fail hscan] at h
      cases h

/-! ### What an item leaves of the last chunk -/

/-- An item does not depend on what is behind it. -/
def Local (p : Scanner ε β α) : Prop :=
  ∀ ⦃u r : List β⦄ ⦃a : α⦄, p (u ++ r) = .done a r → ∀ r', p (u ++ r') = .done a r'

/-- Where each item that is taken has all its spellings taken, items are local. -/
theorem Sound.isLocal {p : Scanner ε β α} {G : α → List β → Prop} (hs : Sound p G)
    (hcomplete : ∀ ⦃l : List β⦄ ⦃a : α⦄ ⦃r : List β⦄, p l = .done a r → CompleteOn p G a) :
    Local p := by
  intro u r a h r'
  obtain ⟨u', hu', heq⟩ := hs h
  rw [List.append_cancel_right heq]
  exact hcomplete h u' hu' r'

/-- When a chunk completes an incomplete item, what is left lies inside the chunk. -/
theorem Local.rest_lt {p : Scanner ε β α} (hl : Local p) (hc : Consumes p) {l x r : List β}
    {as : List α} (hmore : p l = .more) (h : drain p (l ++ x) = .ok (as, r)) (hne : as ≠ []) :
    r.length < x.length := by
  cases hp : p (l ++ x) with
  | done a r₁ =>
    rw [drain_done hc hp, prepend_eq_ok] at h
    obtain ⟨bs, hbs, -⟩ := h
    obtain ⟨v, rfl⟩ := drain_suffix hc hbs
    obtain ⟨u, -, hu⟩ := hc hp
    -- An item that ends in front of the chunk would have been taken before.
    have hchunk : (v ++ r).length < x.length := by
      by_contra hle
      rcases List.append_eq_append_iff.mp hu with ⟨w, hl', hx⟩ | ⟨w, hl', hx⟩
      · have hlen := congrArg List.length hx
        rw [List.length_append] at hlen
        have hnil : w = [] := List.length_eq_zero_iff.mp (by omega)
        rw [hnil, List.append_nil] at hl'
        rw [hu, hl'] at hp
        have hdone := hl hp []
        rw [List.append_nil, hmore] at hdone
        cases hdone
      · rw [hu] at hp
        have hdone := hl hp w
        rw [← hl', hmore] at hdone
        cases hdone
    rw [List.length_append] at hchunk
    omega
  | more =>
    rw [drain_more hp] at h
    cases h
    exact absurd rfl hne
  | fail e =>
    rw [drain_fail hp] at h
    cases h

end Scanner

end VectorEngine.Stream
