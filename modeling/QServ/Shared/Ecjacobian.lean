import QServ.Lib.ShortCurve
import QServ.Shared.Gfield

/-!
# The curve

`ecjacobian` of `shared/crypto.cpp`: points of the curve `y^2 = x^3 - 3x + B` in coordinates
`(x, y, z)` that stand for `(x/z^2, y/z^3)`, and for the neutral point when `z` is zero.

* `Denotes`: the point of Mathlib's group that coordinates stand for.
* `Is.mul2`, `Is.add`, `Is.mul`: the operations are those of the group, and `operations_exact`
  says so of all coordinates that satisfy the equation of the curve.
* `parse_print`: a point travels as a sign and the digits of `x`.
-/

namespace QServ

/-- `ecjacobian`. -/
structure Ecjacobian where
  x : Gfield
  y : Gfield
  z : Gfield
deriving DecidableEq

namespace Ecjacobian

/-- `ecjacobian::B`. -/
def B : Gfield := 0x64210519e59c80e70fa7e9ab72243049feb8deecc146b9b1

/-- `ecjacobian::base`. -/
def base : Ecjacobian where
  x := 0x188da80eb03090f67cbf20eb43a18800f4ff0afd82ff1012
  y := 0x07192b95ffc8da78631011ed6b24cdd573f977a11e794811
  z := 1

/-- `ecjacobian::origin`. -/
def origin : Ecjacobian := ⟨1, 1, 0⟩

/-- `mul2()`. -/
def mul2 (q : Ecjacobian) : Ecjacobian :=
  if q.z = 0 then q
  else if q.y = 0 then origin
  else
    let c := q.z * q.z
    let d := (q.x - c) * (c + q.x)
    let c := d + d + d
    let z := q.z * q.y + q.z * q.y
    let a := q.y * q.y
    let b := a + a
    let d := (q.x + q.x) * b
    let x := c * c - d - d
    let a := b * b + b * b
    ⟨x, (d - x) * c - a, z⟩

/-- The end of `add(q)`, from what the two points are on the common denominator: the sums `c` and
`d`, the differences `a` and `b`, and the product `z` of the denominators. -/
def addends (p : Ecjacobian) (a b c d z : Gfield) : Ecjacobian :=
  if a = 0 then if b = 0 then p.mul2 else origin
  else
    let z := z * a
    let e := a * a
    let f := c * e
    let x := b * b - f
    ⟨x, ((f - x - x) * b - e * a * d) / 2, z⟩

/-- `add(q)`. -/
def add (p q : Ecjacobian) : Ecjacobian :=
  if q.z = 0 then p
  else if p.z = 0 then q
  else
    let a := p.z * p.z
    let b := q.y * a * p.z
    let a := a * q.x
    if q.z = 1 then addends p (p.x - a) (p.y - b) (p.x + a) (p.y + b) p.z
    else
      let e := q.z * q.z
      let f := p.y * e * q.z
      let e := e * p.x
      addends p (e - a) (f - b) (e + a) (f + b) (p.z * q.z)

/-- `mul(p, q)`: the bits of `q` from the highest on. -/
def mul (p : Ecjacobian) (q : Bigint) : Ecjacobian :=
  DoubleAdd.run mul2 (fun r => r.add p) q.hasbit q.numbits origin

/-- `normalize()`. -/
def normalize (q : Ecjacobian) : Ecjacobian :=
  if q.z = 0 ∨ q.z = 1 then q
  else
    let z := q.z⁻¹
    let tmp := z * z
    ⟨q.x * tmp, q.y * tmp * z, 1⟩

/-- `calcy(ybit)`: the `y` that belongs to `x`, zero when there is none. -/
def calcy (x : Gfield) (ybit : Bool) : Gfield :=
  (Gfield.sqrt (x * x * x - (x + x + x) + B)).elim 0 fun y => if y.odd ≠ ybit then -y else y

/-- `print(buf)`. -/
def print (q : Ecjacobian) : List Char :=
  let q := q.normalize
  (if q.y.odd then '-' else '+') :: q.x.printdigits

/-- `parse(s)`. -/
def parse (s : List Char) : Ecjacobian :=
  let x := Gfield.parse s.tail
  ⟨x, calcy x (s.head? == some '-'), 1⟩

/-! ## The group -/

open ShortCurve

instance : NeZero (2 : Gfield) := by
  refine ⟨fun h => ?_⟩
  have hdvd : P ∣ 2 := (ZMod.natCast_eq_zero_iff 2 P).mp h
  exact absurd (Nat.le_of_dvd (by norm_num) hdvd) (by norm_num [P])

/-- A point of the curve. -/
abbrev Point : Type := (curve B).Point

/-- The point the coordinates stand for. -/
def Is (q : Ecjacobian) (Q : Point) : Prop := Denotes B q.x q.y q.z Q

theorem is_origin : origin.Is 0 := .zero rfl

theorem Is.eq_zero {q : Ecjacobian} {Q : Point} (h : q.Is Q) (hz : q.z = 0) : Q = 0 := by
  cases h with
  | zero => rfl
  | affine _ hne => exact absurd hz hne

theorem Is.mul2 {q : Ecjacobian} {Q : Point} (h : q.Is Q) : q.mul2.Is (Q + Q) := by
  unfold Ecjacobian.mul2
  cases h with
  | zero hz =>
    rw [if_pos hz, add_zero]
    exact .zero hz
  | @affine u v huv hz hx hy =>
    rw [if_neg hz]
    by_cases hv : v = 0
    · rw [if_pos (by rw [hy, hv, zero_mul]), add_self_eq_zero hv]
      exact is_origin
    · rw [if_neg (by rw [hy]; exact mul_ne_zero hv (pow_ne_zero 3 hz))]
      refine Denotes.double huv hz hv hx hy ?_ ?_ ?_
      · ring
      · ring
      · ring

/-- The end of `add`, when its arguments are what the coordinates are on the denominator `z`. -/
theorem is_addends {p : Ecjacobian} {u₁ v₁ u₂ v₂ z X₁ Y₁ X₂ Y₂ : Gfield}
    (h₁ : (curve B).Nonsingular u₁ v₁) (h₂ : (curve B).Nonsingular u₂ v₂)
    (hp : p.Is (.some u₁ v₁ h₁)) (hz : z ≠ 0) (hX₁ : X₁ = u₁ * z ^ 2) (hX₂ : X₂ = u₂ * z ^ 2)
    (hY₁ : Y₁ = v₁ * z ^ 3) (hY₂ : Y₂ = v₂ * z ^ 3) :
    (addends p (X₁ - X₂) (Y₁ - Y₂) (X₁ + X₂) (Y₁ + Y₂) z).Is
      ((.some u₁ v₁ h₁ : Point) + .some u₂ v₂ h₂) := by
  have hX : X₁ - X₂ = 0 ↔ u₁ = u₂ := by
    rw [hX₁, hX₂, sub_eq_zero, mul_left_inj' (pow_ne_zero 2 hz)]
  have hY : Y₁ - Y₂ = 0 ↔ v₁ = v₂ := by
    rw [hY₁, hY₂, sub_eq_zero, mul_left_inj' (pow_ne_zero 3 hz)]
  unfold addends
  by_cases hu : u₁ = u₂
  · rw [if_pos (hX.mpr hu)]
    subst hu
    by_cases hv : v₁ = v₂
    · rw [if_pos (hY.mpr hv)]
      subst hv
      exact hp.mul2
    · rw [if_neg (mt hY.mp hv), add_eq_zero_of_ne hv]
      exact is_origin
  · rw [if_neg (mt hX.mp hu)]
    exact Denotes.sum h₁ h₂ hz one_ne_zero hu (by rw [mul_one, hX₁]) (by rw [mul_one, hX₂])
      (by rw [mul_one, hY₁]) (by rw [mul_one, hY₂]) (by rw [mul_one])

theorem Is.add {p q : Ecjacobian} {P Q : Point} (hp : p.Is P) (hq : q.Is Q) :
    (p.add q).Is (P + Q) := by
  have hp' := hp
  have hq' := hq
  unfold Ecjacobian.add
  cases hq with
  | zero hz =>
    rw [if_pos hz, add_zero]
    exact hp'
  | @affine u₂ v₂ h₂ hz₂ hx₂ hy₂ =>
    rw [if_neg hz₂]
    cases hp with
    | zero hz =>
      rw [if_pos hz, zero_add]
      exact hq'
    | @affine u₁ v₁ h₁ hz₁ hx₁ hy₁ =>
      rw [if_neg hz₁]
      dsimp only
      by_cases hone : q.z = 1
      · rw [if_pos hone]
        rw [hone, one_pow, mul_one] at hx₂ hy₂
        refine is_addends h₁ h₂ hp' hz₁ hx₁ ?_ hy₁ ?_
        · rw [hx₂]
          ring
        · rw [hy₂]
          ring
      · rw [if_neg hone]
        refine is_addends h₁ h₂ hp' (mul_ne_zero hz₁ hz₂) ?_ ?_ ?_ ?_
        · rw [hx₁]
          ring
        · rw [hx₂]
          ring
        · rw [hy₁]
          ring
        · rw [hy₂]
          ring

/-- Coordinates of one point. -/
theorem is_some {q : Ecjacobian} {u v : Gfield} (h : (curve B).Nonsingular u v)
    (hq : q = ⟨u, v, 1⟩) : q.Is (.some u v h) := by
  subst hq
  exact .affine h one_ne_zero (by simp) (by simp)

/-- **Scalar multiplication** takes the multiple in the group. -/
theorem Is.mul {p : Ecjacobian} {P : Point} (hp : p.Is P) {q : Bigint} (hq : q.Shrunk) :
    (p.mul q).Is (q.value • P) := by
  have hbits : q.hasbit = q.value.testBit := funext q.hasbit_eq
  have hdbl : ∀ (r : Ecjacobian) (k : ℕ), r.Is (k • P) → r.mul2.Is ((2 * k) • P) := fun r k h => by
    rw [two_mul, add_nsmul]
    exact h.mul2
  have hadd : ∀ (r : Ecjacobian) (k : ℕ), r.Is (k • P) → (r.add p).Is ((k + 1) • P) :=
    fun r k h => by
      rw [succ_nsmul]
      exact h.add hp
  have hzero : origin.Is ((0 : ℕ) • P) := by
    rw [zero_nsmul]
    exact is_origin
  unfold Ecjacobian.mul
  rw [hbits]
  exact DoubleAdd.run_of_step hdbl hadd hzero (Bigint.value_lt_numbits hq)

/-- The coordinates of a point that is not the neutral one, with `z` one. -/
theorem normalize_of_is {q : Ecjacobian} {u v : Gfield} {h : (curve B).Nonsingular u v}
    (hq : q.Is (.some u v h)) : q.normalize = ⟨u, v, 1⟩ := by
  unfold normalize
  cases hq with
  | affine _ hz hx hy =>
    by_cases hone : q.z = 1
    · rw [if_pos (Or.inr hone)]
      rw [hone, one_pow, mul_one] at hx hy
      rw [← hx, ← hy, ← hone]
    · rw [if_neg (by simp [hz, hone])]
      obtain ⟨hu, hv⟩ := div_z hz hx hy
      dsimp only
      rw [hu, hv]

/-! ## Coordinates that are given -/

/-- No point of the curve is singular. -/
theorem discriminant_ne_zero : (curve B).Δ ≠ 0 := by
  have hΔ : (curve B).Δ = 16 * (4 * 27 - 27 * (B * B)) := by
    simp only [WeierstrassCurve.Δ, WeierstrassCurve.b₂, WeierstrassCurve.b₄, WeierstrassCurve.b₆,
      WeierstrassCurve.b₈, curve]
    ring
  rw [hΔ]
  decide +kernel

/-- The coordinates are infinite or satisfy the equation of the curve. -/
def OnCurve (q : Ecjacobian) : Prop := q.z = 0 ∨ ShortCurve.OnCurve B q.x q.y q.z

open Classical in
/-- The point of the group that coordinates on the curve stand for. -/
noncomputable def point (q : Ecjacobian) : Point := if h : ∃ Q, q.Is Q then h.choose else 0

theorem OnCurve.is_point {q : Ecjacobian} (h : q.OnCurve) : q.Is q.point := by
  have hex : ∃ Q, q.Is Q := (denotes_iff discriminant_ne_zero).mpr h
  unfold point
  rw [dif_pos hex]
  exact hex.choose_spec

theorem Is.onCurve {q : Ecjacobian} {Q : Point} (h : q.Is Q) : q.OnCurve :=
  (denotes_iff discriminant_ne_zero).mp ⟨Q, h⟩

theorem Is.point_eq {q : Ecjacobian} {Q : Point} (h : q.Is Q) : q.point = Q :=
  h.onCurve.is_point.unique h

/-- Dividing by the denominators leaves the point what it is. -/
theorem Is.normalize {q : Ecjacobian} {Q : Point} (h : q.Is Q) : q.normalize.Is Q := by
  cases hQ : Q with
  | zero =>
    subst hQ
    cases h with
    | zero hz =>
      have hq : q.normalize = q := by
        unfold Ecjacobian.normalize
        rw [if_pos (Or.inl hz)]
      rw [hq]
      exact .zero hz
  | some u v huv =>
    subst hQ
    exact is_some huv (normalize_of_is h)

/-- What `normalize` leaves has `z` one, unless it is infinite. -/
theorem normalize_eq {q : Ecjacobian} (hz : q.z ≠ 0) :
    q.normalize = ⟨q.x / q.z ^ 2, q.y / q.z ^ 3, 1⟩ := by
  unfold normalize
  by_cases hone : q.z = 1
  · rw [if_pos (Or.inr hone), hone, one_pow, one_pow, div_one, div_one, ← hone]
  · rw [if_neg (by simp [hz, hone])]
    have hx : q.x * (q.z⁻¹ * q.z⁻¹) = q.x / q.z ^ 2 := by
      field_simp
    have hy : q.y * (q.z⁻¹ * q.z⁻¹) * q.z⁻¹ = q.y / q.z ^ 3 := by
      field_simp
    dsimp only
    rw [hx, hy]

/-- **The operations are those of the group** on all coordinates of the curve: the sum, the double,
the coordinates with `z` one and the multiple by a number of any length. -/
theorem operations_exact {p q : Ecjacobian} (hp : p.OnCurve) (hq : q.OnCurve) :
    ((p.add q).OnCurve ∧ (p.add q).point = p.point + q.point) ∧
    (p.mul2.OnCurve ∧ p.mul2.point = p.point + p.point) ∧
    (p.normalize.OnCurve ∧ p.normalize.point = p.point ∧
      (p.z = 0 → p.normalize = p) ∧
      (p.z ≠ 0 → p.normalize = ⟨p.x / p.z ^ 2, p.y / p.z ^ 3, 1⟩)) ∧
    ∀ k : Bigint, k.Shrunk → (p.mul k).OnCurve ∧ (p.mul k).point = k.value • p.point := by
  have hP := hp.is_point
  have hQ := hq.is_point
  have hadd := hP.add hQ
  have hdouble := hP.mul2
  have hnorm := hP.normalize
  refine ⟨⟨hadd.onCurve, hadd.point_eq⟩, ⟨hdouble.onCurve, hdouble.point_eq⟩,
    ⟨hnorm.onCurve, hnorm.point_eq, fun hz => ?_, normalize_eq⟩, fun k hk => ?_⟩
  · unfold normalize
    rw [if_pos (Or.inl hz)]
  · have hmul := hP.mul hk
    exact ⟨hmul.onCurve, hmul.point_eq⟩

/-- The base point is added to its inverse and taken five times. -/
theorem operations_exact_base :
    ((base.add ⟨base.x, -base.y, 1⟩).OnCurve ∧ (base.mul [5]).OnCurve) ∧
      (base.mul [5]).point = Bigint.value [5] • base.point := by
  have hbase : base.OnCurve := Or.inr (by unfold ShortCurve.OnCurve; decide +kernel)
  have hneg : OnCurve ⟨base.x, -base.y, 1⟩ := Or.inr (by unfold ShortCurve.OnCurve; decide +kernel)
  have h := operations_exact hbase hneg
  have hmul := h.2.2.2 [5] (by unfold Bigint.Shrunk; decide)
  exact ⟨⟨h.1.1, hmul.1⟩, hmul.2⟩

/-! ## Points as text -/

/-- The sign tells a point from its inverse, and there is no other with the same `x`. -/
theorem calcy_odd {u v : Gfield} (h : (curve B).Nonsingular u v) (hv : v ≠ 0) :
    calcy u v.odd = v := by
  obtain ⟨r, hr, hrv⟩ := Gfield.sqrt_sq v
  rw [equation_iff.mp h.1] at hr
  unfold calcy
  rw [hr, Option.elim_some]
  obtain rfl | rfl := hrv
  · rw [if_neg (by simp)]
  · rw [if_pos (by simp [Gfield.odd_neg hv]), neg_neg]

/-- **A point is read back from its text.** -/
theorem parse_print {q : Ecjacobian} {u v : Gfield} {h : (curve B).Nonsingular u v}
    (hq : q.Is (.some u v h)) (hv : v ≠ 0) : parse q.print = ⟨u, v, 1⟩ := by
  unfold parse print
  rw [normalize_of_is hq]
  have hsign : (some (if v.odd then '-' else '+') == some '-') = v.odd := by
    cases v.odd <;> decide
  simp only [List.head?_cons, List.tail_cons, Gfield.parse_printdigits, hsign, calcy_odd h hv]

end Ecjacobian

end QServ
