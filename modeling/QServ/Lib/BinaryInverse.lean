import Mathlib.Algebra.Field.Basic
import Mathlib.Data.Nat.Cast.Basic
import Mathlib.Data.Nat.GCD.Basic
import Mathlib.Data.Nat.Size
import Mathlib.Tactic.FieldSimp
import Mathlib.Tactic.LinearCombination
import Mathlib.Tactic.Ring

/-!
# Inverses by halving and subtracting

Two numbers, with a factor for each in a field in which two is not zero.  A round takes the factors
of two out of both and the smaller number from the larger one, and does the same to the factors.

* `Tracks`: the numbers are their factors times one number of the field, `Round.tracks`: a round
  keeps that.
* `Round.coprime`: numbers without a common divisor stay so.
* `Round.weight_lt`: the numbers get shorter by a bit in each round but the first.
* `Tracks.inverse`: when one number is gone, the other has the inverse as its factor.
-/

namespace BinaryInverse

variable {F : Type*} [Field F]

/-- The numbers and their factors. -/
structure State (F : Type*) where
  u : ℕ
  v : ℕ
  a : F
  c : F

/-- A number without its factors of two, and a factor divided as often. -/
def Halved (n : ℕ) (a : F) (m : ℕ) (b : F) : Prop :=
  m % 2 = 1 ∧ ∃ k, n = 2 ^ k * m ∧ a = ((2 ^ k : ℕ) : F) * b

/-- A round. -/
inductive Round : State F → State F → Prop
  | left {s : State F} {u v : ℕ} {a c : F} (hu : Halved s.u s.a u a) (hv : Halved s.v s.c v c)
    (h : v ≤ u) : Round s ⟨u - v, v, a - c, c⟩
  | right {s : State F} {u v : ℕ} {a c : F} (hu : Halved s.u s.a u a) (hv : Halved s.v s.c v c)
    (h : u < v) : Round s ⟨u, v - u, a, c - a⟩

/-- The numbers are their factors times `x`. -/
def Tracks (x : F) (s : State F) : Prop := (s.u : F) = s.a * x ∧ (s.v : F) = s.c * x

variable {x : F} {s t : State F}

theorem Halved.tracks (h2 : (2 : F) ≠ 0) {n m : ℕ} {a b : F} (h : Halved n a m b)
    (hn : (n : F) = a * x) : (m : F) = b * x := by
  obtain ⟨-, k, rfl, rfl⟩ := h
  have hpow : ((2 ^ k : ℕ) : F) ≠ 0 := by
    rw [Nat.cast_pow, Nat.cast_ofNat]
    exact pow_ne_zero k h2
  refine mul_left_cancel₀ hpow ?_
  rw [← Nat.cast_mul, hn, mul_assoc]

/-- **A round** keeps the factors those of the numbers. -/
theorem Round.tracks (h2 : (2 : F) ≠ 0) (h : Round s t) (hs : Tracks x s) : Tracks x t := by
  cases h with
  | left hu hv hle =>
    have hu' := hu.tracks h2 hs.1
    have hv' := hv.tracks h2 hs.2
    refine ⟨?_, hv'⟩
    rw [Nat.cast_sub hle, hu', hv', sub_mul]
  | right hu hv hlt =>
    have hu' := hu.tracks h2 hs.1
    have hv' := hv.tracks h2 hs.2
    refine ⟨hu', ?_⟩
    rw [Nat.cast_sub (le_of_lt hlt), hu', hv', sub_mul]

theorem Halved.dvd {n m : ℕ} {a b : F} (h : Halved n a m b) : m ∣ n := by
  obtain ⟨-, k, rfl, -⟩ := h
  exact Nat.dvd_mul_left m (2 ^ k)

theorem Round.coprime (h : Round s t) (hs : Nat.Coprime s.u s.v) : Nat.Coprime t.u t.v := by
  cases h with
  | left hu hv hle =>
    have hodd := (hs.coprime_dvd_left hu.dvd).coprime_dvd_right hv.dvd
    exact (Nat.coprime_sub_self_left hle).mpr hodd
  | right hu hv hlt =>
    have hodd := (hs.coprime_dvd_left hu.dvd).coprime_dvd_right hv.dvd
    exact (Nat.coprime_sub_self_right (le_of_lt hlt)).mpr hodd

/-- The second number is never gone. -/
theorem Round.pos (h : Round s t) : 0 < t.v := by
  cases h with
  | left _ hv _ =>
    have hodd := hv.1
    dsimp only
    omega
  | right _ _ hlt => exact Nat.sub_pos_of_lt hlt

/-- The bits of both numbers, and one more when both are odd. -/
def weight (s : State F) : ℕ := (s.u * s.v).size + s.u * s.v % 2

theorem size_lt_of_double {m n : ℕ} (h : 2 * m ≤ n) (hn : 0 < n) : m.size < n.size := by
  rw [Nat.lt_size]
  rcases Nat.eq_zero_or_pos m with rfl | hm
  · simpa using Nat.succ_le_of_lt hn
  · have hpos := Nat.size_pos.mpr hm
    have hlow : 2 ^ (m.size - 1) ≤ m := Nat.lt_size.mp (by omega)
    calc 2 ^ m.size = 2 * 2 ^ (m.size - 1) := by
          rw [← pow_succ']
          congr 1
          omega
      _ ≤ n := by omega

/-- From the odd parts to what is left of them. -/
theorem weight_lt_of_halved {p u v : ℕ} {a c : F} (hu : Halved s.u s.a u a)
    (hv : Halved s.v s.c v c) (hlt : p < u * v) (heven : p % 2 = 0) :
    p.size + p % 2 < weight s := by
  obtain ⟨hu1, i, hi, -⟩ := hu
  obtain ⟨hv1, j, hj, -⟩ := hv
  have hodd : u * v % 2 = 1 := by rw [Nat.mul_mod, hu1, hv1]
  have hprod : s.u * s.v = 2 ^ (i + j) * (u * v) := by
    rw [hi, hj, pow_add]
    ring
  unfold weight
  rw [hprod, heven, Nat.add_zero]
  rcases Nat.eq_zero_or_pos (i + j) with hzero | hpos
  · rw [hzero, pow_zero, one_mul, hodd]
    exact Nat.lt_succ_of_le (Nat.size_le_size (le_of_lt hlt))
  · have hpow : 2 ≤ 2 ^ (i + j) := by
      calc 2 = 2 ^ 1 := rfl
        _ ≤ 2 ^ (i + j) := Nat.pow_le_pow_right (by norm_num) hpos
    have hdouble : 2 * (u * v) ≤ 2 ^ (i + j) * (u * v) := Nat.mul_le_mul_right _ hpow
    have hsize := size_lt_of_double (m := p) (n := 2 ^ (i + j) * (u * v)) (by omega) (by omega)
    omega

/-- **The bits get fewer.** -/
theorem Round.weight_lt (h : Round s t) : weight t < weight s := by
  cases h with
  | @left u v a c hu hv hle =>
    refine weight_lt_of_halved hu hv ?_ ?_
    · have hpos : 0 < v := by have := hv.1; omega
      have hless : u - v < u := by omega
      exact Nat.mul_lt_mul_of_pos_right hless hpos
    · have h₁ := hu.1
      have h₂ := hv.1
      rw [Nat.mul_mod, show (u - v) % 2 = 0 by omega, Nat.zero_mul, Nat.zero_mod]
  | @right u v a c hu hv hlt =>
    refine weight_lt_of_halved hu hv ?_ ?_
    · have hpos : 0 < u := by have := hu.1; omega
      have hless : v - u < v := by omega
      exact Nat.mul_lt_mul_of_pos_left hless hpos
    · have h₁ := hu.1
      have h₂ := hv.1
      rw [Nat.mul_mod, show (v - u) % 2 = 0 by omega, Nat.mul_zero, Nat.zero_mod]

/-- **The end**: the number that is left is one. -/
theorem Tracks.inverse (hs : Tracks x s) (hcop : Nat.Coprime s.u s.v) (hu : s.u = 0) :
    s.c * x = 1 := by
  rw [hu, Nat.coprime_zero_left] at hcop
  rw [← hs.2, hcop, Nat.cast_one]

end BinaryInverse
