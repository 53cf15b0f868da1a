import Mathlib.Algebra.Order.Group.Nat
import Mathlib.Data.Nat.Bitwise
import Mathlib.NumberTheory.LucasPrimality

/-!
# Doubling and adding

The bits of a number from the highest to the lowest: the result is doubled at each of them and
a summand added where the bit is set.

* `run_of_step`: what `k` doublings and additions have to do with `k` they have at the end with
  the whole number.
* `powmod_eq`: written with products, it is a power modulo a number.
* `prime_of_factors`: Lucas's test on powers that are computed so.
-/

namespace DoubleAdd

variable {α : Type*}

/-- The bits below a place, from the highest to the lowest. -/
def run (dbl add : α → α) (bit : ℕ → Bool) : ℕ → α → α
  | 0, a => a
  | i + 1, a => run dbl add bit i (if bit i then add (dbl a) else dbl a)

variable {dbl add : α → α} {R : α → ℕ → Prop} {v : ℕ}

/-- The number above a place, after the next bit. -/
theorem shiftRight_succ (v i : ℕ) :
    v >>> i = 2 * (v >>> (i + 1)) + if v.testBit i then 1 else 0 := by
  simp only [Nat.testBit_eq_decide_div_mod_eq, Nat.shiftRight_eq_div_pow, decide_eq_true_eq,
    pow_succ, ← Nat.div_div_eq_div_mul]
  split <;> omega

/-- A relation that both operations keep, from the bits above a place to all of them. -/
theorem run_of_shiftRight (hdbl : ∀ a k, R a k → R (dbl a) (2 * k))
    (hadd : ∀ a k, R a k → R (add a) (k + 1)) :
    ∀ (i : ℕ) (a : α), R a (v >>> i) → R (run dbl add v.testBit i a) v
  | 0, _, h => h
  | i + 1, a, h => by
    refine run_of_shiftRight hdbl hadd i _ ?_
    rw [shiftRight_succ]
    split
    · exact hadd _ _ (hdbl _ _ h)
    · exact hdbl _ _ h

/-- **All the bits**: a relation that holds of the start and of zero. -/
theorem run_of_step (hdbl : ∀ a k, R a k → R (dbl a) (2 * k))
    (hadd : ∀ a k, R a k → R (add a) (k + 1)) {a : α} (ha : R a 0) {i : ℕ} (hv : v < 2 ^ i) :
    R (run dbl add v.testBit i a) v := by
  refine run_of_shiftRight hdbl hadd i a ?_
  rwa [Nat.shiftRight_eq_div_pow, Nat.div_eq_of_lt hv]

/-! ## Powers -/

/-- `a ^ e` modulo `m`, of the lowest bits of `e`. -/
def powmod (m a e bits : ℕ) : ℕ := run (fun r => r * r % m) (fun r => r * a % m) e.testBit bits 1

theorem powmod_eq {m a e bits : ℕ} (he : e < 2 ^ bits) :
    ((powmod m a e bits : ℕ) : ZMod m) = (a : ZMod m) ^ e := by
  let R : ℕ → ℕ → Prop := fun r k => (r : ZMod m) = (a : ZMod m) ^ k
  have hdbl : ∀ r k, R r k → R (r * r % m) (2 * k) := fun r k h => by
    show ((r * r % m : ℕ) : ZMod m) = (a : ZMod m) ^ (2 * k)
    rw [ZMod.natCast_mod, Nat.cast_mul, two_mul, pow_add, show (r : ZMod m) = _ from h]
  have hadd : ∀ r k, R r k → R (r * a % m) (k + 1) := fun r k h => by
    show ((r * a % m : ℕ) : ZMod m) = (a : ZMod m) ^ (k + 1)
    rw [ZMod.natCast_mod, Nat.cast_mul, pow_succ, show (r : ZMod m) = _ from h]
  have hone : R 1 0 := by simp [R]
  exact run_of_step hdbl hadd hone he

/-- **Lucas's test**: the factors of `p - 1` are prime and `a` is of order `p - 1`. -/
theorem prime_of_factors {p : ℕ} (a bits : ℕ) {fs : List ℕ} (hfs : ∀ q ∈ fs, q.Prime)
    (hprod : fs.prod = p - 1) (hbits : 1 < p ∧ p ≤ 2 ^ bits)
    (hfull : powmod p a (p - 1) bits % p = 1)
    (hpart : ∀ q ∈ fs, powmod p a ((p - 1) / q) bits % p ≠ 1) : p.Prime := by
  have hpow : ∀ e, e ≤ p - 1 → ((a : ZMod p) ^ e = 1 ↔ powmod p a e bits % p = 1) := fun e he => by
    rw [← powmod_eq (show e < 2 ^ bits by omega), ← Nat.cast_one, ZMod.natCast_eq_natCast_iff',
      Nat.mod_eq_of_lt hbits.1]
  refine lucas_primality p a ((hpow _ le_rfl).mpr hfull) fun q hq hdvd => ?_
  rw [← hprod] at hdvd
  obtain ⟨r, hr, hqr⟩ := (Prime.dvd_prod_iff hq.prime).mp hdvd
  rw [(Nat.prime_dvd_prime_iff_eq hq (hfs r hr)).mp hqr, Ne, hpow _ (Nat.div_le_self _ _)]
  exact hpart r hr

end DoubleAdd
