import QServ.Shared.Digits
import QServ.Shared.Gfield

/-!
# Sums and differences in the field

The operations of `gfield` of `shared/crypto.cpp` on the digits it keeps: each does what `bigint`
does and takes the modulus off, or puts it on, once.

* `Canonical`: the digits of a number below the modulus, `digits_unique`: there is one such list.
* `add_eq`, `sub_eq`, `mul2_eq`, `div2_eq`: the result is that of the field.
* `neg_eq_iff`: so is that of `neg`, except for zero, of which it makes the modulus.
* `additive_exact`: this and what it means for numbers computed from others.
-/

namespace QServ

namespace Gf

/-- The digits of a number below the modulus, without leading zeros. -/
structure Canonical (x : Bigint) : Prop where
  shrunk : x.Shrunk
  lt : x.value < P

open Bigint (lt)

/-- The digits of `P`. -/
def digitsP : Bigint := Bigint.ofNat P

/-- `add(x, y)`. -/
def add (x y : Bigint) : Bigint :=
  let sum := Bigint.add x y
  if lt sum digitsP then sum else Bigint.sub sum digitsP

/-- `mul2(x)`. -/
def mul2 (x : Bigint) : Bigint := add x x

/-- `div2()`: it is only asked for in place. -/
def div2 (x : Bigint) : Bigint :=
  if x.hasbit 0 then (Bigint.add x digitsP).rshift 1 else x.rshift 1

/-- `sub(x, y)`. -/
def sub (x y : Bigint) : Bigint :=
  if lt x y then Bigint.sub (Bigint.add x digitsP) y else Bigint.sub x y

/-- `neg(x)`. -/
def neg (x : Bigint) : Bigint := Bigint.sub digitsP x

/-! ## The digits of a number of the field -/

theorem value_digitsP : digitsP.value = P := Bigint.value_ofNat P

theorem shrunk_digitsP : digitsP.Shrunk := Bigint.shrunk_ofNat P

theorem canonical_digits (X : Gfield) : Canonical X.digits where
  shrunk := X.shrunk_digits
  lt := by
    rw [X.value_digits]
    exact X.val_lt

theorem value_cast (X : Gfield) : (X.digits.value : Gfield) = X := by
  rw [X.value_digits, X.natCast_val]

/-- **A number of the field has one list of digits.** -/
theorem digits_unique {x : Bigint} {X : Gfield} :
    x = X.digits ↔ Canonical x ∧ (x.value : Gfield) = X := by
  constructor
  · rintro rfl
    exact ⟨canonical_digits X, value_cast X⟩
  · rintro ⟨hx, rfl⟩
    refine Bigint.eq_of_value hx.shrunk (Gfield.shrunk_digits _) ?_
    have hval : (x.value : Gfield).val = x.value % P := ZMod.val_natCast P x.value
    rw [Gfield.value_digits, hval, Nat.mod_eq_of_lt hx.lt]

theorem Canonical.digits_cast {x : Bigint} (hx : Canonical x) : (x.value : Gfield).digits = x :=
  (digits_unique.mpr ⟨hx, rfl⟩).symm

theorem cast_P : ((P : Nat) : Gfield) = 0 := ZMod.natCast_self P

/-! ## The operations on values -/

/-- `add` takes the modulus off once. -/
theorem value_add {x y : Bigint} (hx : x.Shrunk) (hy : y.Shrunk) : (add x y).value =
    if x.value + y.value < P then x.value + y.value else x.value + y.value - P := by
  unfold add
  dsimp only
  rw [Bigint.lt_iff (hx.add hy) shrunk_digitsP, Bigint.value_add, value_digitsP]
  by_cases h : x.value + y.value < P
  · rw [if_pos h, if_pos (decide_eq_true h), Bigint.value_add]
  · rw [if_neg h, if_neg (by simpa using h), Bigint.value_sub, Bigint.value_add, value_digitsP]
    rw [Bigint.value_add, value_digitsP]
    omega

theorem shrunk_add {x y : Bigint} (hx : x.Shrunk) (hy : y.Shrunk) : (add x y).Shrunk := by
  unfold add
  dsimp only
  split
  · exact hx.add hy
  · exact Bigint.shrunk_sub _ _

/-- The sum fits the digits that are kept. -/
theorem length_add {x y : Bigint} (hx : Canonical x) (hy : Canonical y) :
    (Bigint.add x y).length ≤ GF_DIGITS + 1 := by
  have h₁ := hx.lt
  have h₂ := hy.lt
  refine (hx.shrunk.add hy.shrunk).length_le ?_
  rw [Bigint.value_add]
  norm_num [P, GF_DIGITS, GF_BITS] at h₁ h₂ ⊢
  omega

theorem add_eq {x y : Bigint} (hx : Canonical x) (hy : Canonical y) :
    add x y = ((x.value : Gfield) + y.value).digits := by
  have h₁ := hx.lt
  have h₂ := hy.lt
  have hval := value_add hx.shrunk hy.shrunk
  refine digits_unique.mpr ⟨⟨shrunk_add hx.shrunk hy.shrunk, ?_⟩, ?_⟩
  · rw [hval]
    split <;> omega
  · rw [hval]
    split
    · exact Nat.cast_add _ _
    · next h => rw [Nat.cast_sub (Nat.le_of_not_lt h), Nat.cast_add, cast_P, sub_zero]

theorem mul2_eq {x : Bigint} (hx : Canonical x) :
    mul2 x = (2 * (x.value : Gfield)).digits := by
  rw [mul2, add_eq hx hx, two_mul]

theorem sub_eq {x y : Bigint} (hx : Canonical x) (hy : Canonical y) :
    sub x y = ((x.value : Gfield) - y.value).digits := by
  have h₁ := hx.lt
  have h₂ := hy.lt
  refine digits_unique.mpr ?_
  unfold sub
  rw [Bigint.lt_iff hx.shrunk hy.shrunk]
  by_cases h : x.value < y.value
  · have hval : (Bigint.sub (Bigint.add x digitsP) y).value = x.value + P - y.value := by
      rw [Bigint.value_sub, Bigint.value_add, value_digitsP]
      rw [Bigint.value_add, value_digitsP]
      omega
    rw [if_pos (decide_eq_true h)]
    refine ⟨⟨Bigint.shrunk_sub _ _, by omega⟩, ?_⟩
    rw [hval, Nat.cast_sub (by omega), Nat.cast_add, cast_P, add_zero]
  · have hval := Bigint.value_sub (Nat.le_of_not_lt h)
    rw [if_neg (by simpa using h)]
    refine ⟨⟨Bigint.shrunk_sub _ _, by omega⟩, ?_⟩
    rw [hval, Nat.cast_sub (Nat.le_of_not_lt h)]

/-- Half of a number below the modulus, or of what it is with the modulus added. -/
theorem value_div2 {x : Bigint} (hx : Canonical x) : (div2 x).Shrunk ∧
    (div2 x).value = if x.value % 2 = 1 then (x.value + P) / 2 else x.value / 2 := by
  have hbit : x.hasbit 0 = decide (x.value % 2 = 1) := by rw [Bigint.hasbit_eq, Nat.testBit_zero]
  have hshift : ∀ z : Bigint, z.value ≠ 0 → (z.rshift 1).value = z.value / 2 := by
    intro z hz
    refine Bigint.value_rshift z ?_
    cases z with
    | nil => exact absurd rfl hz
    | cons d z =>
      rw [List.length_cons]
      omega
  unfold div2
  rw [hbit]
  by_cases h : x.value % 2 = 1
  · rw [if_pos (decide_eq_true h), if_pos h]
    refine ⟨Bigint.shrunk_rshift (hx.shrunk.add shrunk_digitsP) 1, ?_⟩
    rw [hshift _ (by rw [Bigint.value_add]; omega), Bigint.value_add, value_digitsP]
  · rw [if_neg (by simpa using h), if_neg h]
    refine ⟨Bigint.shrunk_rshift hx.shrunk 1, ?_⟩
    by_cases hz : x.value = 0
    · rw [hx.shrunk.eq_nil hz]
      rfl
    · exact hshift x hz

theorem two_ne_zero : (2 : Gfield) ≠ 0 := by
  intro h
  have hdvd : P ∣ 2 := (ZMod.natCast_eq_zero_iff 2 P).mp h
  exact absurd (Nat.le_of_dvd (by norm_num) hdvd) (by norm_num [P])

theorem div2_eq {x : Bigint} (hx : Canonical x) :
    div2 x = ((x.value : Gfield) / 2).digits := by
  have hlt := hx.lt
  have hP := Gfield.P_mod_four
  obtain ⟨hshrunk, hval⟩ := value_div2 hx
  have htwice : 2 * (div2 x).value = x.value ∨ 2 * (div2 x).value = x.value + P := by
    rw [hval]
    split <;> omega
  refine digits_unique.mpr ⟨⟨hshrunk, by omega⟩, ?_⟩
  rw [eq_div_iff two_ne_zero, mul_comm]
  obtain h | h := htwice
  · rw [← h]
    push_cast
    rfl
  · have hcast := congrArg (Nat.cast (R := Gfield)) h
    rw [Nat.cast_add, cast_P, add_zero, Nat.cast_mul] at hcast
    exact_mod_cast hcast

theorem value_neg {x : Bigint} (hx : Canonical x) : (neg x).value = P - x.value := by
  have hlt := hx.lt
  rw [neg, Bigint.value_sub (by rw [value_digitsP]; omega), value_digitsP]

/-- **The negative** is below the modulus exactly if the number is not zero. -/
theorem neg_eq_iff {x : Bigint} (hx : Canonical x) :
    neg x = (-(x.value : Gfield)).digits ↔ x.value ≠ 0 := by
  have hlt := hx.lt
  have hval := value_neg hx
  have hcast : ((neg x).value : Gfield) = -(x.value : Gfield) := by
    rw [hval, Nat.cast_sub (le_of_lt hlt), cast_P, zero_sub]
  constructor
  · intro h hzero
    have hcan := (digits_unique.mp h).1.lt
    omega
  · intro hne
    exact digits_unique.mpr ⟨⟨Bigint.shrunk_sub _ _, by omega⟩, hcast⟩

/-! ## Computations -/

/-- Digits computed from canonical ones by the operations, along with the number of the field they
should be; the negative is taken of numbers that are not zero. -/
inductive Computed : Bigint → Gfield → Prop
  | input {x : Bigint} (hx : Canonical x) : Computed x x.value
  | add {x y : Bigint} {X Y : Gfield} (hx : Computed x X) (hy : Computed y Y) :
    Computed (add x y) (X + Y)
  | sub {x y : Bigint} {X Y : Gfield} (hx : Computed x X) (hy : Computed y Y) :
    Computed (sub x y) (X - Y)
  | neg {x : Bigint} {X : Gfield} (hx : Computed x X) (hne : x.value ≠ 0) : Computed (neg x) (-X)
  | mul2 {x : Bigint} {X : Gfield} (hx : Computed x X) : Computed (mul2 x) (2 * X)
  | div2 {x : Bigint} {X : Gfield} (hx : Computed x X) : Computed (div2 x) (X / 2)

/-- **What is computed** is canonical. -/
theorem Computed.eq {x : Bigint} {X : Gfield} (h : Computed x X) : x = X.digits := by
  induction h with
  | input hx => exact digits_unique.mpr ⟨hx, rfl⟩
  | add _ _ hx hy =>
    subst hx hy
    rw [add_eq (canonical_digits _) (canonical_digits _), value_cast, value_cast]
  | sub _ _ hx hy =>
    subst hx hy
    rw [sub_eq (canonical_digits _) (canonical_digits _), value_cast, value_cast]
  | neg _ hne hx =>
    subst hx
    rw [(neg_eq_iff (canonical_digits _)).mpr hne, value_cast]
  | mul2 _ hx =>
    subst hx
    rw [mul2_eq (canonical_digits _), value_cast]
  | div2 _ hx =>
    subst hx
    rw [div2_eq (canonical_digits _), value_cast]

end Gf

end QServ
