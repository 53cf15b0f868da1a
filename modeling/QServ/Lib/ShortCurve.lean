import Mathlib.AlgebraicGeometry.EllipticCurve.Affine.Point
import Mathlib.Tactic.FieldSimp

/-!
# Curves `y^2 = x^3 - 3x + b`

Points of such a curve over a field, in coordinates `(x, y, z)` that stand for
`(x/z^2, y/z^3)`, and for the neutral point when `z` is zero.

* `Denotes`: the point of the group that coordinates stand for, `denotes_iff`: which ones do.
* `Denotes.double`, `Denotes.sum`: doubling and adding without a division.
-/

namespace ShortCurve

open WeierstrassCurve.Affine

variable {F : Type*} [Field F]

/-- The curve. -/
def curve (b : F) : WeierstrassCurve.Affine F := { a₁ := 0, a₂ := 0, a₃ := 0, a₄ := -3, a₆ := b }

variable {b : F}

/-- The point that coordinates stand for. -/
inductive Denotes (b x y z : F) : (curve b).Point → Prop
  | zero (hz : z = 0) : Denotes b x y z 0
  | affine {u v : F} (h : (curve b).Nonsingular u v) (hz : z ≠ 0) (hx : x = u * z ^ 2)
      (hy : y = v * z ^ 3) : Denotes b x y z (.some u v h)

theorem negY_eq (x y : F) : (curve b).negY x y = -y := by
  simp [negY, curve]

theorem addX_eq (x₁ x₂ l : F) : (curve b).addX x₁ x₂ l = l ^ 2 - x₁ - x₂ := by
  simp [addX, curve]

theorem addY_eq (x₁ x₂ y₁ l : F) :
    (curve b).addY x₁ x₂ y₁ l = -(l * (l ^ 2 - x₁ - x₂ - x₁) + y₁) := by
  rw [addY, negAddY, negY_eq, addX_eq]

theorem equation_iff {u v : F} :
    (curve b).Equation u v ↔ v ^ 2 = u * u * u - (u + u + u) + b := by
  rw [WeierstrassCurve.Affine.equation_iff]
  simp only [curve]
  constructor <;> intro h <;> linear_combination h

/-- With `v` not zero the tangent is not vertical. -/
theorem nonsingular [NeZero (2 : F)] {u v : F} (h : v ^ 2 = u * u * u - (u + u + u) + b)
    (hv : v ≠ 0) : (curve b).Nonsingular u v := by
  rw [nonsingular_iff']
  refine ⟨equation_iff.mpr h, Or.inr ?_⟩
  simpa [curve] using ⟨NeZero.ne 2, hv⟩

/-- Dividing by the denominators gives the point back. -/
theorem div_z {x y z u v : F} (hz : z ≠ 0) (hx : x = u * z ^ 2) (hy : y = v * z ^ 3) :
    x * (z⁻¹ * z⁻¹) = u ∧ y * (z⁻¹ * z⁻¹) * z⁻¹ = v := by
  subst hx hy
  constructor <;> field_simp

/-- A number that is not zero differs from its negative. -/
theorem ne_neg [NeZero (2 : F)] {y : F} (hy : y ≠ 0) : y ≠ -y := by
  intro h
  have hsum : 2 * y = 0 := by linear_combination h
  exact mul_ne_zero (NeZero.ne 2) hy hsum

/-- The point is told by the coordinates. -/
theorem Denotes.unique {x y z : F} {p q : (curve b).Point} (hp : Denotes b x y z p)
    (hq : Denotes b x y z q) : p = q := by
  cases hp with
  | zero hz =>
    cases hq with
    | zero => rfl
    | affine _ hne => exact absurd hz hne
  | affine _ hne hx hy =>
    cases hq with
    | zero hz => exact absurd hz hne
    | affine _ _ hx' hy' =>
      have hu := mul_right_cancel₀ (pow_ne_zero 2 hne) (hx.symm.trans hx')
      have hv := mul_right_cancel₀ (pow_ne_zero 3 hne) (hy.symm.trans hy')
      subst hu hv
      rfl

/-- Coordinates that satisfy the equation of the curve with its denominators multiplied out. -/
def OnCurve (b x y z : F) : Prop := y ^ 2 = x ^ 3 - 3 * x * z ^ 4 + b * z ^ 6

/-- **Coordinates stand for a point** exactly if they are those of the neutral one or satisfy the
equation, where no point of the curve is singular. -/
theorem denotes_iff (hb : (curve b).Δ ≠ 0) {x y z : F} :
    (∃ p, Denotes b x y z p) ↔ z = 0 ∨ OnCurve b x y z := by
  constructor
  · rintro ⟨p, hp⟩
    cases hp with
    | zero hz => exact .inl hz
    | @affine u v h hz hx hy =>
      right
      have heq := equation_iff.mp h.1
      rw [OnCurve, hx, hy]
      linear_combination z ^ 6 * heq
  · intro h
    by_cases hz : z = 0
    · exact ⟨0, .zero hz⟩
    · have hon := h.resolve_left hz
      have heq : (curve b).Equation (x / z ^ 2) (y / z ^ 3) := by
        rw [OnCurve] at hon
        rw [equation_iff]
        field_simp
        linear_combination hon
      refine ⟨.some _ _ ((equation_iff_nonsingular_of_Δ_ne_zero hb).mp heq), .affine _ hz ?_ ?_⟩
      · rw [div_mul_cancel₀ _ (pow_ne_zero 2 hz)]
      · rw [div_mul_cancel₀ _ (pow_ne_zero 3 hz)]

section operations

variable [DecidableEq F]

/-- A point with `y` zero is its own inverse. -/
theorem add_self_eq_zero {x y : F} {h : (curve b).Nonsingular x y} (hy : y = 0) :
    Point.some x y h + Point.some x y h = 0 := by
  refine Point.add_self_of_Y_eq ?_
  rw [negY_eq, hy, neg_zero]

/-- So are two points with the same `x` of each other, unless they are one. -/
theorem add_eq_zero_of_ne {u v₁ v₂ : F} {h₁ : (curve b).Nonsingular u v₁}
    {h₂ : (curve b).Nonsingular u v₂} (hne : v₁ ≠ v₂) : Point.some u v₁ h₁ + Point.some u v₂ h₂ = 0 :=
  Point.add_of_Y_eq rfl ((Y_eq_of_X_eq h₁.1 h₂.1 rfl).resolve_left hne)

variable [NeZero (2 : F)]

theorem slope_self {x y : F} (hy : y ≠ 0) :
    (curve b).slope x x y y = (3 * x ^ 2 - 3) / (2 * y) := by
  have hne : y ≠ (curve b).negY x y := by
    rw [negY_eq]
    exact ne_neg hy
  rw [slope_of_Y_ne rfl hne, negY_eq]
  simp only [curve]
  congr 1 <;> ring

/-- **Doubling**: `c` over the new `z` is the slope of the tangent. -/
theorem Denotes.double {x y z : F} (h : (curve b).Nonsingular x y) (hz : z ≠ 0) (hy : y ≠ 0)
    {X Y c d a : F} (hX : X = x * z ^ 2) (hY : Y = y * z ^ 3)
    (hc : c = 3 * ((X - z * z) * (z * z + X))) (hd : d = 4 * X * (Y * Y))
    (ha : a = 8 * (Y * Y) ^ 2) :
    Denotes b (c * c - d - d) ((d - (c * c - d - d)) * c - a) (z * Y + z * Y)
      (Point.some x y h + Point.some x y h) := by
  have hne : y ≠ (curve b).negY x y := by
    rw [negY_eq]
    exact ne_neg hy
  have h2 : (2 : F) ≠ 0 := NeZero.ne 2
  rw [Point.add_self_of_Y_ne hne]
  subst hX hY hc hd ha
  have hz' : z * (y * z ^ 3) + z * (y * z ^ 3) ≠ 0 := by
    rw [← two_mul]
    exact mul_ne_zero h2 (mul_ne_zero hz (mul_ne_zero hy (pow_ne_zero 3 hz)))
  refine Denotes.affine _ hz' ?_ ?_
  · rw [addX_eq, slope_self hy]
    field_simp
    ring
  · rw [addY_eq, slope_self hy]
    field_simp
    ring

/-- **Adding** two points with different `x`, from what their coordinates are on the common
denominator. -/
theorem Denotes.sum {x₁ y₁ z₁ x₂ y₂ z₂ : F} (h₁ : (curve b).Nonsingular x₁ y₁)
    (h₂ : (curve b).Nonsingular x₂ y₂) (hz₁ : z₁ ≠ 0) (hz₂ : z₂ ≠ 0) (hx : x₁ ≠ x₂)
    {u₁ u₂ s₁ s₂ z : F} (hu₁ : u₁ = x₁ * (z₁ * z₂) ^ 2) (hu₂ : u₂ = x₂ * (z₁ * z₂) ^ 2)
    (hs₁ : s₁ = y₁ * (z₁ * z₂) ^ 3) (hs₂ : s₂ = y₂ * (z₁ * z₂) ^ 3) (hz : z = z₁ * z₂) :
    let a := u₁ - u₂
    let r := s₁ - s₂
    let f := (u₁ + u₂) * (a * a)
    let x := r * r - f
    Denotes b x (((f - x - x) * r - a * a * a * (s₁ + s₂)) / 2) (z * a)
      (Point.some x₁ y₁ h₁ + Point.some x₂ y₂ h₂) := by
  intro a r f x
  have h2 : (2 : F) ≠ 0 := NeZero.ne 2
  have hd : x₁ - x₂ ≠ 0 := sub_ne_zero.mpr hx
  have hzne : z ≠ 0 := by
    rw [hz]
    exact mul_ne_zero hz₁ hz₂
  rw [← hz] at hu₁ hu₂ hs₁ hs₂
  have ha : a = (x₁ - x₂) * z ^ 2 := by
    simp only [a, hu₁, hu₂]
    ring
  have hza : z * a ≠ 0 := by
    rw [ha]
    exact mul_ne_zero hzne (mul_ne_zero hd (pow_ne_zero 2 hzne))
  rw [Point.add_of_X_ne hx]
  refine Denotes.affine _ hza ?_ ?_
  · rw [addX_eq, slope_of_X_ne hx, ha]
    simp only [x, f, r, ha, hu₁, hu₂, hs₁, hs₂]
    field_simp
    ring
  · rw [addY_eq, slope_of_X_ne hx, ha]
    simp only [x, f, r, ha, hu₁, hu₂, hs₁, hs₂]
    field_simp
    ring

end operations

end ShortCurve
