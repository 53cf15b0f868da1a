import Mathlib.Data.Nat.Digits.Defs

/-!
# Characters and numerals

Text as its characters, and numbers as they are printed in decimal.

* `word`, `decimal`: the characters of a literal and of `%d`.
* `decimal_spec`: a number that is not negative is printed in numerals that stand for it.
-/

namespace QServ

/-- The characters of a text. -/
def word (s : String) : List UInt8 := s.toList.map fun c => UInt8.ofNat c.toNat

/-- `%i`. -/
def decimal (n : Int) : List UInt8 :=
  let digits := if n = 0 then [48] else (Nat.digits 10 n.natAbs).reverse.map fun d =>
    UInt8.ofNat (48 + d)
  if n < 0 then 45 :: digits else digits

/-- `isspace(c)`. -/
def isspace (c : UInt8) : Bool := (9 ≤ c && c ≤ 13) || c = 32

/-- `'0'` to `'9'`. -/
def isnumeral (c : UInt8) : Bool := 48 ≤ c && c ≤ 57

/-- The number that numerals stand for. -/
def numeral (digits : List UInt8) : Nat :=
  Nat.ofDigits 10 (digits.reverse.map fun c => c.toNat - 48)

theorem isnumeral_digit {d : Nat} (h : d < 10) :
    isnumeral (UInt8.ofNat (48 + d)) = true ∧ (UInt8.ofNat (48 + d)).toNat - 48 = d := by
  have key : ∀ d : Fin 10, isnumeral (UInt8.ofNat (48 + d)) = true ∧
      (UInt8.ofNat (48 + d)).toNat - 48 = d := by decide
  exact key ⟨d, h⟩

/-- A number that is not negative is written in numerals, and they stand for it. -/
theorem decimal_spec {n : Int} (h : 0 ≤ n) :
    (∀ c ∈ decimal n, isnumeral c = true) ∧ decimal n ≠ [] ∧ numeral (decimal n) = n := by
  unfold decimal
  rw [if_neg (by omega)]
  split
  · next hn =>
    subst hn
    decide +kernel
  · next hn =>
    have hdigit : ∀ d ∈ Nat.digits 10 n.natAbs, d < 10 :=
      fun d hd => Nat.digits_lt_base (by decide) hd
    refine ⟨?_, ?_, ?_⟩
    · intro c hc
      obtain ⟨d, hd, rfl⟩ := List.mem_map.mp hc
      exact (isnumeral_digit (hdigit d (List.mem_reverse.mp hd))).1
    · simp only [ne_eq, List.map_eq_nil_iff, List.reverse_eq_nil_iff]
      exact Nat.digits_ne_nil_iff_ne_zero.mpr (by omega)
    · unfold numeral
      rw [← List.map_reverse, List.reverse_reverse, List.map_map]
      have hmap : (Nat.digits 10 n.natAbs).map
          ((fun c : UInt8 => c.toNat - 48) ∘ fun d => UInt8.ofNat (48 + d)) =
          Nat.digits 10 n.natAbs := by
        conv_rhs => rw [← List.map_id (Nat.digits 10 n.natAbs)]
        apply List.map_congr_left
        intro d hd
        exact (isnumeral_digit (hdigit d hd)).2
      rw [hmap, Nat.ofDigits_digits]
      omega

theorem not_mem_decimal {n : Int} (h : 0 ≤ n) {c : UInt8} (hc : isnumeral c = false) :
    c ∉ decimal n := by
  intro hmem
  have := (decimal_spec h).1 c hmem
  rw [hc] at this
  cases this

end QServ
