import Mathlib.NumberTheory.LegendreSymbol.Basic
import Mathlib.Tactic.NormNum.Prime
import QServ.Lib.DoubleAdd
import QServ.Shared.Bigint

/-!
# The field of the curve

`gfield` of `shared/crypto.cpp`: the numbers modulo the prime `2^192 - 2^64 - 1`, kept below it,
so that a number of the field has one list of digits.

* `prime_P`: the modulus is prime.
* `sqrt_sq`: `sqrt` finds a root of every square.
* `hasbit_neg`: of a number and its negative one is odd.
-/

namespace QServ

/-- `gfield::P`. -/
def P : Nat := 0xfffffffffffffffffffffffffffffffeffffffffffffffff

/-- `GF_BITS`. -/
def GF_BITS : Nat := 192

/-- `GF_DIGITS`. -/
def GF_DIGITS : Nat := (GF_BITS + 15) / 16

/-! ## The modulus is prime -/

open DoubleAdd

/-- Small numbers are left to `norm_num`; the largest factor of the next one comes from the one
before. -/
theorem prime_P : Nat.Prime P := by
  unfold P
  have h252 : Nat.Prime 252396031 := by
    have hfs : ∀ q ∈ [2, 3, 5, 8413201], q.Prime := by norm_num
    exact prime_of_factors 3 28 hfs (by decide +kernel) (by decide +kernel) (by decide +kernel)
      (by decide +kernel)
  have h455 : Nat.Prime 455827231987 := by
    have hfs : ∀ q ∈ [252396031, 2, 3, 7, 43], q.Prime :=
      List.forall_mem_cons.mpr ⟨h252, by norm_num⟩
    exact prime_of_factors 2 39 hfs (by decide +kernel) (by decide +kernel) (by decide +kernel)
      (by decide +kernel)
  have h593 : Nat.Prime 5933177618131140283 := by
    have hfs : ∀ q ∈ [455827231987, 2, 3, 3, 723127], q.Prime :=
      List.forall_mem_cons.mpr ⟨h455, by norm_num⟩
    exact prime_of_factors 2 63 hfs (by decide +kernel) (by decide +kernel) (by decide +kernel)
      (by decide +kernel)
  have h288 : Nat.Prime 288626509448065367648032903 := by
    have hfs : ∀ q ∈ [5933177618131140283, 2, 3, 19, 19, 37, 607], q.Prime :=
      List.forall_mem_cons.mpr ⟨h593, by norm_num⟩
    exact prime_of_factors 6 88 hfs (by decide +kernel) (by decide +kernel) (by decide +kernel)
      (by decide +kernel)
  have h108 : Nat.Prime 108341181769254293 := by
    have hfs : ∀ q ∈ [2, 2, 17, 43, 2477, 54251, 275729], q.Prime := by norm_num
    exact prime_of_factors 2 57 hfs (by decide +kernel) (by decide +kernel) (by decide +kernel)
      (by decide +kernel)
  have hfs : ∀ q ∈ [288626509448065367648032903, 108341181769254293, 2, 59, 149309, 11393611],
      q.Prime :=
    List.forall_mem_cons.mpr ⟨h288, List.forall_mem_cons.mpr ⟨h108, by norm_num⟩⟩
  exact prime_of_factors 11 192 hfs (by decide +kernel) (by decide +kernel) (by decide +kernel)
    (by decide +kernel)

instance : Fact (Nat.Prime P) := ⟨prime_P⟩

/-! ## The field -/

/-- A number modulo `P`. -/
def Gfield : Type := ZMod P

end QServ

instance : Field QServ.Gfield := inferInstanceAs (Field (ZMod QServ.P))

instance : DecidableEq QServ.Gfield := inferInstanceAs (DecidableEq (ZMod QServ.P))

namespace QServ

namespace Gfield

/-- The number below `P`. -/
def val (x : Gfield) : Nat := ZMod.val x

/-- The digits of the number. -/
def digits (x : Gfield) : Bigint := Bigint.ofNat x.val

/-- `parse(s)` of the `gfint` the number is kept in. -/
def parse (s : List Char) : Gfield := (Bigint.parse (GF_DIGITS + 1) s).value

/-- `printdigits(buf)`. -/
def printdigits (x : Gfield) : List Char := Bigint.printdigits x.digits

/-- `hasbit(0)`. -/
def odd (x : Gfield) : Bool := x.digits.hasbit 0

/-- `legendre(x)`. -/
def legendre (x : Gfield) : Int :=
  let L := x ^ ((P - 1) / 2)
  if L = 0 then 0 else if L = 1 then 1 else -1

/-- `sqrt(x)`: nothing when there is no root. -/
def sqrt (x : Gfield) : Option Gfield :=
  if x = 0 then some 0
  else if legendre x = 0 then some 0
  else if legendre x = -1 then none
  else some (x ^ ((P + 1) / 4))

end Gfield

/-! ## What the field has from the numbers modulo `P` -/

namespace Gfield

theorem val_lt (x : Gfield) : x.val < P := ZMod.val_lt (n := P) x

theorem natCast_val (x : Gfield) : (x.val : Gfield) = x := ZMod.natCast_zmod_val (n := P) x

theorem neg_val {x : Gfield} (hx : x ≠ 0) : (-x).val = P - x.val := by
  have h : (-x).val = if x = 0 then 0 else P - x.val := ZMod.neg_val (n := P) x
  rw [h, if_neg hx]

theorem pow_card {x : Gfield} (hx : x ≠ 0) : x ^ (P - 1) = 1 :=
  ZMod.pow_card_sub_one_eq_one (p := P) hx

theorem P_mod_four : P % 4 = 3 := by norm_num [P]

/-! ## Roots -/

theorem sq_pow_half {y : Gfield} (hy : y ≠ 0) : (y ^ 2) ^ ((P - 1) / 2) = 1 := by
  have hP := P_mod_four
  rw [← pow_mul, show 2 * ((P - 1) / 2) = P - 1 by omega]
  exact pow_card hy

/-- With `P` of the form `4k + 3` the root of a square is a power of it. -/
theorem sq_pow_quarter {y : Gfield} (hy : y ≠ 0) :
    (y ^ 2) ^ ((P + 1) / 4) = y ∨ (y ^ 2) ^ ((P + 1) / 4) = -y := by
  have hP := P_mod_four
  rw [← sq_eq_sq_iff_eq_or_eq_neg]
  calc ((y ^ 2) ^ ((P + 1) / 4)) ^ 2 = (y ^ 2) ^ ((P - 1) / 2) * y ^ 2 := by
        rw [← pow_mul, ← pow_succ, show (P + 1) / 4 * 2 = (P - 1) / 2 + 1 by omega]
    _ = y ^ 2 := by rw [sq_pow_half hy, one_mul]

theorem legendre_sq {y : Gfield} (hy : y ≠ 0) : legendre (y ^ 2) = 1 := by
  have hL : (y ^ 2) ^ ((P - 1) / 2) = 1 := sq_pow_half hy
  unfold legendre
  rw [hL]
  simp

/-- The root of a square is the number it is the square of, or its negative. -/
theorem sqrt_sq (y : Gfield) : ∃ r, sqrt (y ^ 2) = some r ∧ (r = y ∨ r = -y) := by
  by_cases hy : y = 0
  · exact ⟨0, by simp [sqrt, hy], by simp [hy]⟩
  · refine ⟨(y ^ 2) ^ ((P + 1) / 4), ?_, sq_pow_quarter hy⟩
    unfold sqrt
    rw [if_neg (pow_ne_zero 2 hy), legendre_sq hy, if_neg one_ne_zero, if_neg (by decide)]

/-! ## Digits -/

theorem value_digits (x : Gfield) : x.digits.value = x.val := Bigint.value_ofNat _

theorem shrunk_digits (x : Gfield) : x.digits.Shrunk := Bigint.shrunk_ofNat _

theorem length_digits (x : Gfield) : x.digits.length ≤ GF_DIGITS := by
  have hlt := x.val_lt
  exact Bigint.length_ofNat_le (lt_of_lt_of_le hlt (by norm_num [P, GF_DIGITS, GF_BITS]))

/-- A number of the field is printed and parsed back. -/
theorem parse_printdigits (x : Gfield) : parse (printdigits x) = x := by
  have hlen := x.length_digits
  unfold parse printdigits
  rw [Bigint.parse_printdigits x.shrunk_digits (by omega), value_digits, natCast_val]

theorem odd_eq (x : Gfield) : x.odd = decide (x.val % 2 = 1) := by
  rw [odd, Bigint.hasbit_eq, value_digits, Nat.testBit_zero]

/-- The modulus is odd, so that of a number and its negative one is. -/
theorem odd_neg {x : Gfield} (hx : x ≠ 0) : (-x).odd = !x.odd := by
  have hlt := x.val_lt
  have hP := P_mod_four
  have hparity : (P - x.val) % 2 = 1 ↔ ¬ x.val % 2 = 1 := by omega
  simp only [odd_eq, neg_val hx, hparity, decide_not]

end Gfield

end QServ
