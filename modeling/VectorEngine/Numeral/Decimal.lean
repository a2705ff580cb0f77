import Mathlib.Data.Nat.Digits.Lemmas

/-!
# `VectorEngine.Numeral.Decimal`: decimal numerals as byte strings

A numeral is a nonempty run of the bytes `0` to `9`. `value` reads it, leading zeros
included, and `render` writes the numeral without leading zeros. `value_render` is the
round trip, and `IsNumeral.eq_zeros_append` says that there are no other numerals than those.

A reader takes the longest run of digits at the front of its input. `takeWhile_digits` and
`dropWhile_digits` say where such a run ends when something else follows it, and
`value_le_value_append` says that a longer run never has a smaller value.
-/

set_option autoImplicit false

namespace VectorEngine.Numeral

/-- One of the bytes `0` to `9`. -/
def isDigit (b : UInt8) : Bool := decide (48 ≤ b.toNat ∧ b.toNat ≤ 57)

/-- The value of a digit byte. -/
def digitVal (b : UInt8) : Nat := b.toNat - 48

/-- The byte of a digit below ten. -/
def digitByte (d : Nat) : UInt8 := UInt8.ofNat (48 + d)

/-- The value of a run of digits, most significant first. -/
def value (ds : List UInt8) : Nat := ds.foldl (fun acc b => acc * 10 + digitVal b) 0

/-- The numeral of `n` without leading zeros. -/
def render (n : Nat) : List UInt8 :=
  if n = 0 then [48] else (Nat.digits 10 n).reverse.map digitByte

/-- `ds` is a numeral of `n`. Leading zeros are allowed. A number has infinitely many numerals for
this reason, and one of them is shortest. -/
structure IsNumeral (ds : List UInt8) (n : Nat) : Prop where
  ne_nil : ds ≠ []
  digits : ∀ b ∈ ds, isDigit b = true
  value_eq : value ds = n

/-! ### Digits -/

/-- The byte of a digit is as far behind `'0'` as the digit says. -/
theorem toNat_digitByte {d : Nat} (h : d < 10) : (digitByte d).toNat = 48 + d := by
  unfold digitByte
  rw [UInt8.toNat_ofNat']
  omega

/-- The byte of a digit is one of the bytes `0` to `9`. -/
theorem isDigit_digitByte {d : Nat} (h : d < 10) : isDigit (digitByte d) = true := by
  unfold isDigit
  rw [toNat_digitByte h]
  exact decide_eq_true ⟨by omega, by omega⟩

/-- Reading the byte of a digit gives the digit back. -/
theorem digitVal_digitByte {d : Nat} (h : d < 10) : digitVal (digitByte d) = d := by
  unfold digitVal
  rw [toNat_digitByte h]
  omega

/-! ### Values -/

/-- The fold behind `value`, from an arbitrary accumulator. -/
theorem foldl_value (ds : List UInt8) (acc : Nat) :
    ds.foldl (fun acc b => acc * 10 + digitVal b) acc
      = acc * 10 ^ ds.length + value ds := by
  -- The accumulator is general: the hypothesis is used with it, and with the zero of `value`.
  induction ds generalizing acc with
  | nil => simp [value]
  | cons b ds ih =>
      have hcons : value (b :: ds) = (0 * 10 + digitVal b) * 10 ^ ds.length + value ds :=
        ih (0 * 10 + digitVal b)
      rw [List.foldl_cons, ih, hcons, List.length_cons, Nat.pow_succ]
      ring

/-- More digits shift the value up. -/
theorem value_append (ds es : List UInt8) :
    value (ds ++ es) = value ds * 10 ^ es.length + value es := by
  show (ds ++ es).foldl _ 0 = _
  rw [List.foldl_append]
  exact foldl_value es (value ds)

/-- A longer run of digits never has a smaller value. -/
theorem value_le_value_append (ds es : List UInt8) : value ds ≤ value (ds ++ es) := by
  rw [value_append]
  have hpow : 1 ≤ 10 ^ es.length := Nat.one_le_pow _ _ (by decide)
  calc value ds = value ds * 1 := (Nat.mul_one _).symm
    _ ≤ value ds * 10 ^ es.length := Nat.mul_le_mul_left _ hpow
    _ ≤ value ds * 10 ^ es.length + value es := Nat.le_add_right _ _

/-- The value of rendered digits is what Mathlib's `Nat.ofDigits` reads, least significant
digit first. -/
theorem value_map_digitByte (ds : List Nat) (h : ∀ d ∈ ds, d < 10) :
    value (ds.reverse.map digitByte) = Nat.ofDigits 10 ds := by
  induction ds with
  | nil => rfl
  | cons d ds ih =>
      have hd : d < 10 := h d (by simp)
      have htail := ih fun d' hd' => h d' (by simp [hd'])
      -- The digit `d` is the last one written, and the lowest one of `Nat.ofDigits`.
      rw [List.reverse_cons, List.map_append, value_append, htail, Nat.ofDigits_cons]
      show Nat.ofDigits 10 ds * 10 ^ 1 + (0 * 10 + digitVal (digitByte d)) = _
      rw [digitVal_digitByte hd]
      omega

/-! ### The rendered numeral -/

/-- The round trip: reading what `render` writes. -/
theorem value_render (n : Nat) : value (render n) = n := by
  unfold render
  split
  · rename_i h
    rw [h]
    rfl
  · rw [value_map_digitByte _ fun d hd => Nat.digits_lt_base (by decide) hd,
      Nat.ofDigits_digits]

/-- `render` writes a numeral. -/
theorem isNumeral_render (n : Nat) : IsNumeral (render n) n where
  ne_nil := by
    unfold render
    split
    · simp
    · rename_i h
      simp [Nat.digits_ne_nil_iff_ne_zero.mpr h]
  digits := by
    intro b hb
    unfold render at hb
    split at hb
    · cases List.mem_singleton.mp hb
      decide
    · obtain ⟨d, hd, rfl⟩ := List.mem_map.mp hb
      exact isDigit_digitByte (Nat.digits_lt_base (by decide) (List.mem_reverse.mp hd))
  value_eq := value_render n

/-- Writing the value of a digit byte gives the byte back, so that digits and their bytes
correspond one to one. -/
theorem digitByte_digitVal {b : UInt8} (h : isDigit b = true) : digitByte (digitVal b) = b := by
  have hrange : 48 ≤ b.toNat ∧ b.toNat ≤ 57 := of_decide_eq_true h
  refine UInt8.toNat_inj.mp ?_
  rw [toNat_digitByte (by unfold digitVal; omega)]
  unfold digitVal
  omega

/-- A numeral that begins with no zero is the one that `render` writes. -/
theorem eq_render_of_head {b : UInt8} {ds : List UInt8} {n : Nat} (h : IsNumeral (b :: ds) n)
    (hb : digitVal b ≠ 0) : b :: ds = render n := by
  -- The digits, least significant first. The last of them is not zero.
  have hdigits : (((b :: ds).map digitVal).reverse.reverse).map digitByte = b :: ds := by
    rw [List.reverse_reverse, List.map_map]
    refine (List.map_congr_left fun d hd => ?_).trans (List.map_id _)
    exact digitByte_digitVal (h.digits d hd)
  have hlt : ∀ d ∈ ((b :: ds).map digitVal).reverse, d < 10 := by
    intro d hd
    obtain ⟨b', hb', rfl⟩ := List.mem_map.mp (List.mem_reverse.mp hd)
    have hrange : 48 ≤ b'.toNat ∧ b'.toNat ≤ 57 := of_decide_eq_true (h.digits b' hb')
    unfold digitVal
    omega
  have hvalue : Nat.ofDigits 10 ((b :: ds).map digitVal).reverse = n := by
    rw [← value_map_digitByte _ hlt, hdigits]
    exact h.value_eq
  have hall : Nat.digits 10 n = ((b :: ds).map digitVal).reverse := by
    rw [← hvalue]
    refine Nat.digits_ofDigits 10 (by decide) _ hlt fun hne => ?_
    simpa using hb
  have hpos : n ≠ 0 := by
    rintro rfl
    simp at hall
  rw [render, if_neg hpos, hall, hdigits]

/-- A numeral is the one that `render` writes, behind some zeros. -/
theorem IsNumeral.eq_zeros_append : ∀ {ds : List UInt8} {n : Nat}, IsNumeral ds n →
    ∃ k, ds = List.replicate k 48 ++ render n := by
  intro ds
  induction ds with
  | nil => exact fun h => absurd rfl h.ne_nil
  | cons b ds ih =>
    intro n h
    by_cases hb : digitVal b = 0
    · have hzero : b = 48 := by
        rw [← digitByte_digitVal (h.digits b (by simp)), hb]
        rfl
      have hvalue : value ds = n := by
        have hcons : value (b :: ds) = (0 * 10 + digitVal b) * 10 ^ ds.length + value ds :=
          value_append [b] ds
        rw [h.value_eq, hb] at hcons
        simpa using hcons.symm
      cases ds with
      | nil => exact ⟨0, by rw [← hvalue, hzero]; rfl⟩
      | cons b' ds =>
        obtain ⟨k, hk⟩ := ih ⟨List.cons_ne_nil _ _, fun d hd => h.digits d (by simp [hd]), hvalue⟩
        exact ⟨k + 1, by rw [List.replicate_succ, List.cons_append, ← hk, hzero]⟩
    · exact ⟨0, eq_render_of_head h hb⟩

/-! ### The run of digits at the front of an input -/

/-- A run of digits before a byte that is none is the whole run at the front. -/
theorem takeWhile_digits {ds : List UInt8} (hds : ∀ b ∈ ds, isDigit b = true) {b : UInt8}
    (hb : isDigit b = false) (r : List UInt8) :
    (ds ++ b :: r).takeWhile isDigit = ds := by
  rw [List.takeWhile_append_of_pos hds, List.takeWhile_cons, hb]
  simp

/-- Behind a run of digits comes the byte that ends it. -/
theorem dropWhile_digits {ds : List UInt8} (hds : ∀ b ∈ ds, isDigit b = true) {b : UInt8}
    (hb : isDigit b = false) (r : List UInt8) :
    (ds ++ b :: r).dropWhile isDigit = b :: r := by
  rw [List.dropWhile_append_of_pos hds, List.dropWhile_cons, hb]
  simp

/-- A run of digits that has ended does not grow when more input arrives. -/
theorem takeWhile_append_of_ended {l : List UInt8} (h : l.dropWhile isDigit ≠ [])
    (x : List UInt8) : (l ++ x).takeWhile isDigit = l.takeWhile isDigit := by
  -- The run is not the whole of `l`, so what arrives is behind its end.
  have hlen : (l.takeWhile isDigit).length ≠ l.length := by
    intro heq
    have hsplit := congrArg List.length (List.takeWhile_append_dropWhile (p := isDigit) (l := l))
    rw [List.length_append] at hsplit
    exact h (List.length_eq_zero_iff.mp (by omega))
  rw [List.takeWhile_append, if_neg hlen]

/-- What follows a run of digits that has ended grows by what arrives. -/
theorem dropWhile_append_of_ended {l : List UInt8} (h : l.dropWhile isDigit ≠ [])
    (x : List UInt8) : (l ++ x).dropWhile isDigit = l.dropWhile isDigit ++ x := by
  rw [List.dropWhile_append, if_neg (by simpa using h)]

/-- Arriving input only ever extends the run of digits. -/
theorem exists_takeWhile_append (l x : List UInt8) :
    ∃ es, (l ++ x).takeWhile isDigit = l.takeWhile isDigit ++ es := by
  by_cases h : l.dropWhile isDigit = []
  · have hall : l.takeWhile isDigit = l := by
      have hsplit := List.takeWhile_append_dropWhile (p := isDigit) (l := l)
      rwa [h, List.append_nil] at hsplit
    rw [List.takeWhile_append, if_pos (by rw [hall]), hall]
    exact ⟨_, rfl⟩
  · exact ⟨[], by rw [takeWhile_append_of_ended h, List.append_nil]⟩

end VectorEngine.Numeral
