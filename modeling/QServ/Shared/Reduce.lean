import QServ.Shared.Gfdigits

/-!
# Products in the field

`mul`, `square` and `reduce` of `gfield`.  The product of two numbers has 384 bits, and what is above
the lowest 192 is added to them in words of 64 bits where the form of the modulus puts it; after each
addition the modulus is taken off at most once.

* `reduce_spec`: the result is congruent to the product, and is below the modulus unless the highest
  word is all ones and the product is just above a multiple of the modulus.
* `mul_exact`: so for `mul` and `square`.
-/

namespace QServ.Gf

open Bigint (lt shrink)

/-- Four digits of `result` from a place on, with zeros after its end. -/
def word (result : Bigint) (i : Nat) : Bigint :=
  let part := (result.drop i).take 4
  part ++ List.replicate (4 - part.length) 0

/-- `reduce(result)`. -/
def reduce (result : Bigint) : Bigint :=
  let r := shrink (result.take GF_DIGITS)
  if 12 < result.length then
    let s := word result 12
    let r := add r (shrink (s ++ s))
    if 16 < result.length then
      let s := word result 16
      let r := add r (shrink (List.replicate 4 0 ++ s ++ s))
      if 20 < result.length then
        let s := word result 20
        add r (shrink (s ++ s ++ s))
      else r
    else r
  else if lt r digitsP then r
  else Bigint.sub r digitsP

/-- `mul(x, y)`. -/
def mul (x y : Bigint) : Bigint := reduce (Bigint.mul x y)

/-- `square(x)`. -/
def square (x : Bigint) : Bigint := mul x x

/-! ## The words of the product -/

theorem length_word (result : Bigint) (i : Nat) : (word result i).length = 4 := by
  unfold word
  simp only [List.length_append, List.length_replicate, List.length_take, List.length_drop]
  omega

theorem value_append_zeros (x : Bigint) (n : Nat) :
    (x ++ List.replicate n 0).value = x.value := by
  rw [Bigint.value_append, Bigint.value_replicate_zero, Nat.mul_zero, Nat.add_zero]

theorem value_word (result : Bigint) (i : Nat) :
    (word result i).value = result.value / 65536 ^ i % 65536 ^ 4 := by
  unfold word
  dsimp only
  rw [value_append_zeros, Bigint.value_take, Bigint.value_drop]

/-- A word in two places. -/
theorem value_word_word (result : Bigint) (i : Nat) :
    Bigint.value (word result i ++ word result i) = (word result i).value * (1 + 2 ^ 64) := by
  rw [Bigint.value_append, length_word]
  ring

/-! ## The additions -/

/-- One addition of `reduce`. -/
def once (r s : Nat) : Nat := if r + s < P then r + s else r + s - P

theorem once_eq (r s : Nat) : ∃ k, once r s + k * P = r + s := by
  unfold once
  split
  · exact ⟨0, by omega⟩
  · exact ⟨1, by omega⟩

/-- Three additions. -/
theorem once_once_once {r s₁ s₂ s₃ T m : Nat} (hT : T = r + s₁ + s₂ + s₃ + m * P) :
    ∃ k, once (once (once r s₁) s₂) s₃ + k * P = T := by
  obtain ⟨k₁, h₁⟩ := once_eq r s₁
  obtain ⟨k₂, h₂⟩ := once_eq (once r s₁) s₂
  obtain ⟨k₃, h₃⟩ := once_eq (once (once r s₁) s₂) s₃
  refine ⟨k₁ + k₂ + k₃ + m, ?_⟩
  simp only [Nat.add_mul]
  omega

theorem once_zero {r : Nat} (h : r < P) : once r 0 = r := if_pos h

/-- Numbers whose highest word is all ones and that are just above a multiple of the modulus. -/
def Overlooked (T : Nat) : Prop :=
  2 ^ 64 * (2 ^ 256 * (2 ^ 64 - 1)) ≤ T ∧ ∃ k, k * P ≤ T ∧ T < k * P + 2 ^ 64

section words

variable {T L a b c : Nat} (hL : L < 2 ^ 192) (ha : a < 2 ^ 64) (hb : b < 2 ^ 64)
  (hc : c < 2 ^ 64) (hT : T = L + 2 ^ 192 * a + 2 ^ 256 * b + 2 ^ 64 * (2 ^ 256 * c))
  (hmax : T ≤ (P - 1) * (P - 1)) (hzero : P ∣ T → T = 0)

include hL ha in
/-- The first word is too small to leave the modulus in the sum. -/
theorem first_lt : once L (a * (1 + 2 ^ 64)) < P := by
  unfold once
  split
  · assumption
  · simp only [P] at *
    omega

include hL ha hb in
/-- The second word leaves it at most once. -/
theorem second_le : once (once L (a * (1 + 2 ^ 64))) (b * (2 ^ 64 + 2 ^ 128)) ≤ P ∧
    (once (once L (a * (1 + 2 ^ 64))) (b * (2 ^ 64 + 2 ^ 128)) = P → b = 2 ^ 64 - 1) := by
  have h₁ := first_lt hL ha
  generalize once L (a * (1 + 2 ^ 64)) = r at h₁
  unfold once
  split <;> simp only [P] at * <;> omega

include hT in
/-- All that is taken off is the modulus. -/
theorem words_congr : ∃ k, once (once (once L (a * (1 + 2 ^ 64))) (b * (2 ^ 64 + 2 ^ 128)))
    (c * (1 + 2 ^ 64 + 2 ^ 128)) + k * P = T := by
  refine once_once_once (m := a + 2 ^ 64 * b + (2 ^ 128 + 1) * c) ?_
  rw [hT]
  simp only [P]
  ring

include hL ha hb hT hzero in
/-- Without a third word the second leaves the modulus in no sum: it would divide the product. -/
theorem second_lt (hc0 : c = 0) :
    once (once L (a * (1 + 2 ^ 64))) (b * (2 ^ 64 + 2 ^ 128)) < P := by
  obtain ⟨hle, -⟩ := second_le hL ha hb
  refine lt_of_le_of_ne hle fun heq => ?_
  obtain ⟨k, hk⟩ := words_congr hT
  have hpos : 0 < P := prime_P.pos
  rw [hc0, heq, Nat.zero_mul, once, if_neg (by omega)] at hk
  have hdvd : P ∣ T := ⟨k, by rw [← hk]; ring_nf; omega⟩
  have hT0 := hzero hdvd
  rw [hT0] at hT
  have hr : once (once L (a * (1 + 2 ^ 64))) (b * (2 ^ 64 + 2 ^ 128)) = 0 := by
    have hL0 : L = 0 := by omega
    have ha0 : a = 0 := by omega
    have hb0 : b = 0 := by omega
    rw [hL0, ha0, hb0]
    decide +kernel
  omega

include hL ha hb hc hT hmax in
/-- **The third word** leaves it exactly if it is all ones and too little is below it. -/
theorem third_lt_iff : once (once (once L (a * (1 + 2 ^ 64))) (b * (2 ^ 64 + 2 ^ 128)))
    (c * (1 + 2 ^ 64 + 2 ^ 128)) < P ↔ ¬ Overlooked T := by
  obtain ⟨hle, heq⟩ := second_le hL ha hb
  obtain ⟨k, hk⟩ := words_congr (b := b) hT
  generalize once (once L (a * (1 + 2 ^ 64))) (b * (2 ^ 64 + 2 ^ 128)) = r at hle heq hk ⊢
  constructor
  · rintro hlt ⟨hbig, m, hm, hm'⟩
    -- the multiples are the same, so that the result would be less than one word
    have hmk : m = k := by
      simp only [P] at *
      omega
    have hsmall : once r (c * (1 + 2 ^ 64 + 2 ^ 128)) < 2 ^ 64 := by
      rw [hmk] at hm'
      omega
    have hones : c = 2 ^ 64 - 1 := by omega
    unfold once at hsmall
    split at hsmall
    · rw [hones] at hsmall
      omega
    · rw [hones] at hsmall
      simp only [P] at *
      omega
  · intro hnot
    by_contra hge
    refine hnot ?_
    have hval : once r (c * (1 + 2 ^ 64 + 2 ^ 128)) < P + 2 ^ 64 ∧ c = 2 ^ 64 - 1 := by
      unfold once at hge ⊢
      split at hge
      · omega
      · next hsum =>
        rw [if_neg hsum]
        simp only [P] at *
        omega
    refine ⟨by omega, k + 1, ?_, ?_⟩
    · rw [Nat.add_mul]
      omega
    · rw [Nat.add_mul]
      omega

end words

/-! ## The reduction -/

/-- The lowest twelve digits. -/
theorem value_low (result : Bigint) :
    (shrink (result.take GF_DIGITS)).value = result.value % 2 ^ 192 := by
  rw [Bigint.value_shrink, Bigint.value_take]
  rfl

theorem value_word_eq (result : Bigint) {i n : Nat} (h : 65536 ^ i = n) :
    (word result i).value = result.value / n % 2 ^ 64 := by
  rw [value_word, h]
  norm_num

/-- The product is its words. -/
theorem words_eq {T : Nat} (h : T < 65536 ^ 24) : T = T % 2 ^ 192 +
    2 ^ 192 * (T / 2 ^ 192 % 2 ^ 64) + 2 ^ 256 * (T / 2 ^ 256 % 2 ^ 64) +
      2 ^ 64 * (2 ^ 256 * (T / (2 ^ 64 * 2 ^ 256) % 2 ^ 64)) := by
  norm_num at h ⊢
  omega

/-- An addition of digits that may have leading zeros. -/
theorem add_once {r s : Bigint} {x y : Nat} (hr : r.Shrunk ∧ r.value = x) (hs : s.value = y) :
    (add r (shrink s)).Shrunk ∧ (add r (shrink s)).value = once x y := by
  obtain ⟨hshrunk, rfl⟩ := hr
  subst hs
  refine ⟨shrunk_add hshrunk (Bigint.shrunk_shrink s), ?_⟩
  rw [value_add hshrunk (Bigint.shrunk_shrink s), Bigint.value_shrink]
  rfl

section reduce

variable {result : Bigint} {L a b c : Nat} (hL : L < 2 ^ 192) (ha : a < 2 ^ 64) (hb : b < 2 ^ 64)
  (hT : result.value = L + 2 ^ 192 * a + 2 ^ 256 * b + 2 ^ 64 * (2 ^ 256 * c))
  (hzero : P ∣ result.value → result.value = 0)
  (hlow : (shrink (result.take GF_DIGITS)).value = L) (h₁ : (word result 12).value = a)
  (h₂ : (word result 16).value = b) (h₃ : (word result 20).value = c)

include hL ha hb hT hzero hlow h₁ h₂ h₃ in
/-- The value of the reduction: an addition that is left out would be one of zero. -/
theorem value_reduce : (reduce result).Shrunk ∧ (reduce result).value =
    once (once (once L (a * (1 + 2 ^ 64))) (b * (2 ^ 64 + 2 ^ 128)))
      (c * (1 + 2 ^ 64 + 2 ^ 128)) := by
  have hs₁ : Bigint.value (word result 12 ++ word result 12) = a * (1 + 2 ^ 64) := by
    rw [Bigint.value_append, length_word, h₁]
    ring
  have hs₂ : Bigint.value (List.replicate 4 0 ++ word result 16 ++ word result 16) =
      b * (2 ^ 64 + 2 ^ 128) := by
    rw [List.append_assoc, Bigint.value_append, Bigint.value_append, length_word,
      Bigint.value_replicate_zero, List.length_replicate, h₂]
    ring
  have hs₃ : Bigint.value (word result 20 ++ word result 20 ++ word result 20) =
      c * (1 + 2 ^ 64 + 2 ^ 128) := by
    rw [List.append_assoc, Bigint.value_append, Bigint.value_append, length_word, h₃]
    ring
  have hfirst := first_lt hL ha
  have hr₀ : (shrink (result.take GF_DIGITS)).Shrunk ∧ _ := ⟨Bigint.shrunk_shrink _, hlow⟩
  have hr₁ := add_once hr₀ hs₁
  have hr₂ := add_once hr₁ hs₂
  have hr₃ := add_once hr₂ hs₃
  have hbound := Bigint.value_lt result
  have hpow : ∀ k, result.length ≤ k → result.value < 65536 ^ k := fun k hk =>
    lt_of_lt_of_le hbound (Nat.pow_le_pow_right (by norm_num) hk)
  have hnone : ∀ s : Nat, 0 * s = 0 := Nat.zero_mul
  unfold reduce
  dsimp only
  by_cases h12 : 12 < result.length
  · rw [if_pos h12]
    by_cases h16 : 16 < result.length
    · rw [if_pos h16]
      by_cases h20 : 20 < result.length
      · rw [if_pos h20]
        exact hr₃
      · have hlt := hpow 20 (Nat.le_of_not_lt h20)
        have hc0 : c = 0 := by
          norm_num at hlt hT
          omega
        have hsecond := second_lt hL ha hb hT hzero hc0
        rw [if_neg h20, hc0, hnone, once_zero hsecond]
        exact hr₂
    · have hlt := hpow 16 (Nat.le_of_not_lt h16)
      have hc0 : c = 0 := by
        norm_num at hlt hT
        omega
      have hb0 : b = 0 := by
        norm_num at hlt hT
        omega
      rw [if_neg h16, hc0, hb0, hnone, hnone, once_zero hfirst, once_zero hfirst]
      exact hr₁
  · have hlt := hpow 12 (Nat.le_of_not_lt h12)
    have hc0 : c = 0 := by
      norm_num at hlt hT
      omega
    have hb0 : b = 0 := by
      norm_num at hlt hT
      omega
    have ha0 : a = 0 := by
      norm_num at hlt hT
      omega
    rw [ha0, hnone] at hfirst
    rw [if_neg h12, ha0, hb0, hc0, hnone, hnone, hnone, once_zero hfirst, once_zero hfirst]
    rw [Bigint.lt_iff (Bigint.shrunk_shrink _) shrunk_digitsP, value_digitsP, hlow]
    unfold once
    by_cases h : L < P
    · rw [if_pos (decide_eq_true h), Nat.add_zero, if_pos h]
      exact hr₀
    · rw [if_neg (by simpa using h), Nat.add_zero, if_neg h, Bigint.value_sub, hlow, value_digitsP]
      · exact ⟨Bigint.shrunk_sub _ _, rfl⟩
      · rw [hlow, value_digitsP]
        omega

end reduce

/-! ## Products -/

section mul

variable {x y : Bigint} (hx : Canonical x) (hy : Canonical y)

include hx hy

/-- The product of numbers below the modulus. -/
theorem product_le : (Bigint.mul x y).value ≤ (P - 1) * (P - 1) := by
  have h₁ := hx.lt
  have h₂ := hy.lt
  rw [Bigint.value_mul]
  exact Nat.mul_le_mul (by omega) (by omega)

/-- The modulus is prime: it divides no product but zero. -/
theorem product_zero (h : P ∣ (Bigint.mul x y).value) : (Bigint.mul x y).value = 0 := by
  rw [Bigint.value_mul] at h ⊢
  rcases prime_P.dvd_mul.mp h with h | h
  · rw [Nat.eq_zero_of_dvd_of_lt h hx.lt, Nat.zero_mul]
  · rw [Nat.eq_zero_of_dvd_of_lt h hy.lt, Nat.mul_zero]

/-- **The product**, which is congruent, and below the modulus unless it is overlooked. -/
theorem mul_spec : (mul x y).Shrunk ∧ (∃ k, (mul x y).value + k * P = x.value * y.value) ∧
    ((mul x y).value < P ↔ ¬ Overlooked (x.value * y.value)) := by
  have hle := product_le hx hy
  have hzero := product_zero hx hy
  have hmul := Bigint.value_mul x y
  have hfit : (Bigint.mul x y).value < 65536 ^ 24 := by
    refine lt_of_le_of_lt hle ?_
    norm_num [P]
  have hT := words_eq hfit
  have hL := Nat.mod_lt (Bigint.mul x y).value (Nat.two_pow_pos 192)
  have ha := Nat.mod_lt ((Bigint.mul x y).value / 2 ^ 192) (Nat.two_pow_pos 64)
  have hb := Nat.mod_lt ((Bigint.mul x y).value / 2 ^ 256) (Nat.two_pow_pos 64)
  have hc := Nat.mod_lt ((Bigint.mul x y).value / (2 ^ 64 * 2 ^ 256)) (Nat.two_pow_pos 64)
  obtain ⟨hshrunk, hval⟩ := value_reduce hL ha hb hT hzero (value_low _)
    (value_word_eq _ (by norm_num)) (value_word_eq _ (by norm_num)) (value_word_eq _ (by norm_num))
  have hcongr := words_congr hT
  have hiff := third_lt_iff hL ha hb hc hT hle
  rw [← hval, hmul] at hcongr hiff
  exact ⟨hshrunk, hcongr, hiff⟩

/-- The digits are those of the product in the field, unless it is overlooked. -/
theorem mul_eq_iff : mul x y = ((x.value : Gfield) * y.value).digits ↔
    ¬ Overlooked (x.value * y.value) := by
  obtain ⟨hshrunk, ⟨k, hk⟩, hiff⟩ := mul_spec hx hy
  have hcast : ((mul x y).value : Gfield) = (x.value : Gfield) * y.value := by
    have h := congrArg (Nat.cast (R := Gfield)) hk
    rwa [Nat.cast_add, Nat.cast_mul, cast_P, mul_zero, add_zero, Nat.cast_mul] at h
  rw [← hiff, digits_unique]
  exact ⟨fun h => h.1.lt, fun h => ⟨⟨hshrunk, h⟩, hcast⟩⟩

/-- **Products and squares** are congruent to those of the field, and are their canonical digits
exactly if the product is not just above a multiple of the modulus with a highest word of ones. -/
theorem mul_exact :
    ((∃ k, (mul x y).value + k * P = x.value * y.value) ∧
      (mul x y = ((x.value : Gfield) * y.value).digits ↔ ¬ Overlooked (x.value * y.value))) ∧
    (∃ k, (square x).value + k * P = x.value * x.value) ∧
      (square x = ((x.value : Gfield) * x.value).digits ↔ ¬ Overlooked (x.value * x.value)) :=
  ⟨⟨(mul_spec hx hy).2.1, mul_eq_iff hx hy⟩, (mul_spec hx hx).2.1, mul_eq_iff hx hx⟩

end mul

theorem mul_exact_small : Canonical [3] ∧
    (square [3] = ((Bigint.value [3] : Gfield) * Bigint.value [3]).digits ↔
      ¬ Overlooked (Bigint.value [3] * Bigint.value [3])) := by
  have hcan : ∀ d : UInt16, d ≠ 0 → Canonical [d] := fun d hd =>
    ⟨by simpa [Bigint.Shrunk] using hd, by
      have hlt := d.toNat_lt
      norm_num [P, Bigint.value]
      omega⟩
  exact ⟨hcan 3 (by decide), (mul_exact (hcan 3 (by decide)) (hcan 5 (by decide))).2.2⟩

/-- The square of minus one is the modulus and one. -/
theorem square_minus_one : Canonical (Bigint.ofNat (P - 1)) ∧
    (square (Bigint.ofNat (P - 1))).value = P + 1 ∧
    square (Bigint.ofNat (P - 1)) ≠
      (((Bigint.ofNat (P - 1)).value : Gfield) * (Bigint.ofNat (P - 1)).value).digits := by
  have hcan : Canonical (Bigint.ofNat (P - 1)) :=
    ⟨Bigint.shrunk_ofNat _, by rw [Bigint.value_ofNat]; norm_num [P]⟩
  have hval : (square (Bigint.ofNat (P - 1))).value = P + 1 := by decide +kernel
  refine ⟨hcan, hval, fun h => ?_⟩
  have hlt := (digits_unique.mp h).1.lt
  omega

end QServ.Gf
