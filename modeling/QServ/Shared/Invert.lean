import QServ.Lib.BinaryInverse
import QServ.Lib.Loop
import QServ.Shared.Gfdigits

/-!
# Inverses in the field

`gfield::invert`: the halving and subtracting of `BinaryInverse` on digits.  The halvings of a factor
are saved up until the modulus has to be added to make it even.

* `halve_spec`: the loop over the zero bits takes the factors of two out.
* `round_spec`: a round of the main loop is one of `BinaryInverse`, of numbers that fit the digits.
* `invert_exact`: it ends, with the inverse or, for zero, without one.
-/

namespace QServ.Gf

open Bigint (lt)

/-- A factor and the shifts that are due. -/
structure Shifts where
  A : Bigint
  ushift : Nat
  ashift : Nat
deriving DecidableEq

/-- A round of `while(!u.hasbit(ushift))`, at the end of which both are shifted. -/
def shiftround (u : Bigint) (s : Shifts) : Shifts ⊕ (Bigint × Bigint) :=
  if u.hasbit s.ushift then .inr (u.rshift s.ushift, s.A.rshift s.ashift)
  else if s.A.hasbit s.ashift then
    .inl ⟨Bigint.add (if s.ashift = 0 then s.A else s.A.rshift s.ashift) digitsP, s.ushift + 1, 1⟩
  else .inl ⟨s.A, s.ushift + 1, s.ashift + 1⟩

/-- The loop, of no more rounds than so many. -/
def halve (n : Nat) (u A : Bigint) : Option (Bigint × Bigint) :=
  Loop.loop (fun s => some (shiftround u s)) n ⟨A, 0, 0⟩

/-- `u`, `v`, `A` and `C`. -/
structure Inverting where
  u : Bigint
  v : Bigint
  A : Bigint
  C : Bigint
deriving DecidableEq

/-- `if(A < C) A.add(P)` and `A.sub(C)`. -/
def subtract (A C : Bigint) : Bigint := Bigint.sub (if lt A C then Bigint.add A digitsP else A) C

/-- A round of `while(!u.iszero())`, after which `C` is taken below the modulus. -/
def round (n : Nat) (s : Inverting) : Option (Inverting ⊕ Bigint) :=
  if s.u.iszero then some (.inr (if lt s.C digitsP then s.C else Bigint.sub s.C digitsP))
  else do
    let (u, A) ← halve n s.u s.A
    let (v, C) ← halve n s.v s.C
    if lt u v then some (.inl ⟨u, Bigint.sub v u, A, subtract C A⟩)
    else some (.inl ⟨Bigint.sub u v, v, subtract A C, C⟩)

/-- The start of the main loop. -/
def start (x : Bigint) : Inverting := ⟨x, digitsP, [1], []⟩

/-- `invert(x)`, with no more rounds of any loop than `n`: the inverse, or nothing when it returns
false. -/
def invert (n : Nat) (x : Bigint) : Option (Option Bigint) :=
  if x.isEmpty then some none else (Loop.loop (round n) n (start x)).map some

/-! ## Halving -/

open BinaryInverse (Halved)

/-- A number of the main loop fits the digits that are kept. -/
structure Kept (A : Bigint) : Prop where
  shrunk : A.Shrunk
  le : A.value ≤ P

/-- A shift by zero bits. -/
theorem value_rshift_pow {x : Bigint} (hx : x.Shrunk) {n m : Nat} (h : x.value = 2 ^ n * m) :
    (x.rshift n).value = m := by
  rcases Nat.eq_zero_or_pos m with rfl | hm
  · have hnil : x = [] := hx.eq_nil h
    rw [hnil]
    rfl
  · have hlt := Bigint.value_lt x
    have hpow : 2 ^ n < 2 ^ (16 * x.length) := by
      calc 2 ^ n ≤ 2 ^ n * m := Nat.le_mul_of_pos_right _ hm
        _ = x.value := h.symm
        _ < 65536 ^ x.length := hlt
        _ = 2 ^ (16 * x.length) := by
          rw [pow_mul]
          rfl
    have hn := (Nat.pow_lt_pow_iff_right (by norm_num : 1 < 2)).mp hpow
    rw [Bigint.value_rshift x (le_of_lt hn), h, Nat.mul_div_cancel_left _ (Nat.two_pow_pos n)]

/-- The bit in front of zeros. -/
theorem hasbit_pow {x : Bigint} {n m : Nat} (h : x.value = 2 ^ n * m) :
    x.hasbit n = decide (m % 2 = 1) := by
  rw [Bigint.hasbit_eq, h, Nat.testBit_two_pow_mul, Nat.sub_self, Nat.testBit_zero]
  simp

/-- What the loop over the zero bits keeps: `u` is shifted and the factor halved as often, with the
halvings that are due left out of `A`. -/
def Shifting (u A₀ : Bigint) (s : Shifts) : Prop :=
  ∃ m L, u.value = 2 ^ s.ushift * m ∧ 0 < m ∧ s.A.Shrunk ∧ s.A.value = 2 ^ s.ashift * L ∧ L ≤ P ∧
    s.A.value ≤ 2 * P ∧ (A₀.value : Gfield) = ((2 ^ s.ushift : Nat) : Gfield) * (L : Gfield)

/-- The end of the loop. -/
def HalvedTo (u A₀ : Bigint) (r : Bigint × Bigint) : Prop :=
  r.1.Shrunk ∧ Kept r.2 ∧ Halved u.value (A₀.value : Gfield) r.1.value (r.2.value : Gfield)

variable {u A₀ : Bigint}

/-- A round of the loop. -/
theorem shiftround_spec (hu : u.Shrunk) {s : Shifts} (h : Shifting u A₀ s) :
    Loop.Round (Shifting u A₀) (fun s => u.value.size - s.ushift) (HalvedTo u A₀) s
      (shiftround u s) := by
  obtain ⟨m, L, hum, hm, hA, hAL, hL, hA2, hcast⟩ := h
  have hP := Gfield.P_mod_four
  have hsize : s.ushift < u.value.size := by
    rw [Nat.lt_size, hum]
    exact Nat.le_mul_of_pos_right _ hm
  -- one halving more
  have hhalf : ∀ L', (L : Gfield) = 2 * (L' : Gfield) →
      (A₀.value : Gfield) = ((2 ^ (s.ushift + 1) : Nat) : Gfield) * (L' : Gfield) :=
    fun L' hL' => by
    rw [hcast, hL', pow_succ, Nat.cast_mul, Nat.cast_ofNat, mul_assoc]
  have hu' : ¬ m % 2 = 1 → u.value = 2 ^ (s.ushift + 1) * (m / 2) := fun heven => by
    rw [hum, pow_succ, mul_assoc]
    congr 1
    omega
  unfold shiftround
  rw [hasbit_pow hum, hasbit_pow hAL]
  by_cases hodd : m % 2 = 1
  · rw [if_pos (decide_eq_true hodd)]
    have hval := value_rshift_pow hu hum
    have hvalA := value_rshift_pow hA hAL
    refine ⟨Bigint.shrunk_rshift hu _, ⟨Bigint.shrunk_rshift hA _, ?_⟩, ?_⟩
    · rw [hvalA]
      exact hL
    · rw [hval, hvalA]
      exact ⟨hodd, s.ushift, hum, hcast⟩
  · rw [if_neg (by simpa using hodd)]
    have hless : u.value.size - (s.ushift + 1) < u.value.size - s.ushift := by omega
    by_cases hoddL : L % 2 = 1
    · -- the factor is odd: it is shifted as far as is due, and the modulus makes it even
      rw [if_pos (decide_eq_true hoddL)]
      have hvalA : Bigint.value (if s.ashift = 0 then s.A else s.A.rshift s.ashift) = L := by
        split
        · next hzero =>
          rw [hAL, hzero, pow_zero, one_mul]
        · exact value_rshift_pow hA hAL
      have hshrunk : Bigint.Shrunk (if s.ashift = 0 then s.A else s.A.rshift s.ashift) := by
        split
        · exact hA
        · exact Bigint.shrunk_rshift hA _
      have hsum : (Bigint.add (if s.ashift = 0 then s.A else s.A.rshift s.ashift) digitsP).value =
          L + P := by
        rw [Bigint.value_add, hvalA, value_digitsP]
      refine ⟨⟨m / 2, (L + P) / 2, hu' hodd, by omega, hshrunk.add shrunk_digitsP, ?_, by omega, ?_,
        hhalf _ ?_⟩, hless⟩
      · dsimp only
        rw [hsum]
        omega
      · dsimp only
        rw [hsum]
        omega
      · have htwice : L + P = 2 * ((L + P) / 2) := by omega
        have h := congrArg (Nat.cast (R := Gfield)) htwice
        rwa [Nat.cast_add, cast_P, add_zero, Nat.cast_mul, Nat.cast_ofNat] at h
    · rw [if_neg (by simpa using hoddL)]
      refine ⟨⟨m / 2, L / 2, hu' hodd, by omega, hA, ?_, by omega, hA2, hhalf _ ?_⟩, hless⟩
      · dsimp only
        rw [hAL, pow_succ, mul_assoc]
        congr 1
        omega
      · have htwice : L = 2 * (L / 2) := by omega
        have h := congrArg (Nat.cast (R := Gfield)) htwice
        rwa [Nat.cast_mul, Nat.cast_ofNat] at h

/-- **The zero bits** are taken out of a number that is not zero. -/
theorem halve_spec (hu : u.Shrunk) (hpos : 0 < u.value) (hA : Kept A₀) {n : Nat}
    (hn : u.value.size < n) : Loop.Yields (halve n u A₀) (HalvedTo u A₀) := by
  refine Loop.loop_spec (Shifting u A₀) (fun s => u.value.size - s.ushift) (HalvedTo u A₀)
    (fun s hs => ⟨_, rfl, shiftround_spec hu hs⟩) n _ ?_ (by simpa using hn)
  have hle := hA.le
  exact ⟨u.value, A₀.value, by simp, hpos, hA.shrunk, by simp, hle, by dsimp only; omega, by simp⟩

/-! ## The main loop -/

/-- The state as numbers and their factors in the field. -/
def Inverting.numbers (s : Inverting) : BinaryInverse.State Gfield :=
  ⟨s.u.value, s.v.value, (s.A.value : Gfield), (s.C.value : Gfield)⟩

/-- The numbers fit and have no common divisor. -/
structure Sound (s : Inverting) : Prop where
  u : Kept s.u
  v : Kept s.v
  A : Kept s.A
  C : Kept s.C
  pos : 0 < s.v.value
  coprime : Nat.Coprime s.u.value s.v.value

/-- The difference of the factors. -/
theorem subtract_spec {A C : Bigint} (hA : Kept A) (hC : Kept C) : Kept (subtract A C) ∧
    ((subtract A C).value : Gfield) = (A.value : Gfield) - C.value := by
  have hleA := hA.le
  have hleC := hC.le
  unfold subtract
  rw [Bigint.lt_iff hA.shrunk hC.shrunk]
  by_cases h : A.value < C.value
  · rw [if_pos (decide_eq_true h)]
    have hsum : (Bigint.add A digitsP).value = A.value + P := by
      rw [Bigint.value_add, value_digitsP]
    have hval : (Bigint.sub (Bigint.add A digitsP) C).value = A.value + P - C.value := by
      rw [Bigint.value_sub (by omega), hsum]
    refine ⟨⟨Bigint.shrunk_sub _ _, by omega⟩, ?_⟩
    rw [hval, Nat.cast_sub (by omega), Nat.cast_add, cast_P, add_zero]
  · rw [if_neg (by simpa using h)]
    have hval := Bigint.value_sub (Nat.le_of_not_lt h)
    refine ⟨⟨Bigint.shrunk_sub _ _, by omega⟩, ?_⟩
    rw [hval, Nat.cast_sub (Nat.le_of_not_lt h)]

theorem Kept.size_le {A : Bigint} (h : Kept A) : A.value.size ≤ 192 := by
  rw [Nat.size_le]
  refine lt_of_le_of_lt h.le ?_
  norm_num [P]

theorem Halved.le {n m : Nat} {a b : Gfield} (h : Halved n a m b) (hn : 0 < n) : m ≤ n :=
  Nat.le_of_dvd hn h.dvd

/-- **A round** before the end is one of `BinaryInverse`. -/
theorem round_spec {n : Nat} (hn : 192 < n) {s : Inverting} (hs : Sound s)
    (hu : s.u.value ≠ 0) : ∃ t, round n s = some (.inl t) ∧ Sound t ∧
      BinaryInverse.Round s.numbers t.numbers := by
  have hposu := Nat.pos_of_ne_zero hu
  obtain ⟨⟨u, A⟩, hhalveu, hushrunk, hA, hhu⟩ :=
    halve_spec hs.u.shrunk hposu hs.A (lt_of_le_of_lt hs.u.size_le hn)
  obtain ⟨⟨v, C⟩, hhalvev, hvshrunk, hC, hhv⟩ :=
    halve_spec hs.v.shrunk hs.pos hs.C (lt_of_le_of_lt hs.v.size_le hn)
  dsimp only at hushrunk hA hhu hvshrunk hC hhv
  have hleu : u.value ≤ P := le_trans (Halved.le hhu hposu) hs.u.le
  have hlev : v.value ≤ P := le_trans (Halved.le hhv hs.pos) hs.v.le
  have hne : s.u.iszero = false := by
    rw [Bool.eq_false_iff, Ne, hs.u.shrunk.iszero_iff]
    exact hu
  have hround : round n s = if lt u v then some (.inl ⟨u, Bigint.sub v u, A, subtract C A⟩)
      else some (.inl ⟨Bigint.sub u v, v, subtract A C, C⟩) := by
    unfold round
    rw [hne, hhalveu, hhalvev]
    rfl
  -- it remains to see that the state after the round is sound
  have hstep : ∀ t : Inverting, Kept t.u → Kept t.v → Kept t.A → Kept t.C →
      BinaryInverse.Round s.numbers t.numbers →
      Sound t ∧ BinaryInverse.Round s.numbers t.numbers := fun t h₁ h₂ h₃ h₄ hr =>
    ⟨⟨h₁, h₂, h₃, h₄, hr.pos, hr.coprime hs.coprime⟩, hr⟩
  rw [hround, Bigint.lt_iff hushrunk hvshrunk]
  by_cases h : u.value < v.value
  · rw [if_pos (decide_eq_true h)]
    have hval := Bigint.value_sub (le_of_lt h)
    have hle : (Bigint.sub v u).value ≤ P := by omega
    obtain ⟨hCA, hcast⟩ := subtract_spec hC hA
    refine ⟨_, rfl, hstep _ ⟨hushrunk, hleu⟩ ⟨Bigint.shrunk_sub _ _, hle⟩ hA hCA ?_⟩
    have hr := BinaryInverse.Round.right (s := s.numbers) hhu hhv h
    unfold Inverting.numbers at hr ⊢
    rw [hval, hcast]
    exact hr
  · rw [if_neg (by simpa using h)]
    have hval := Bigint.value_sub (Nat.le_of_not_lt h)
    have hle : (Bigint.sub u v).value ≤ P := by omega
    obtain ⟨hAC, hcast⟩ := subtract_spec hA hC
    refine ⟨_, rfl, hstep _ ⟨Bigint.shrunk_sub _ _, hle⟩ ⟨hvshrunk, hlev⟩ hAC hC ?_⟩
    have hr := BinaryInverse.Round.left (s := s.numbers) hhu hhv (Nat.le_of_not_lt h)
    unfold Inverting.numbers at hr ⊢
    rw [hval, hcast]
    exact hr

/-- What the factors have to do with the number that is inverted. -/
def Tracks (x : Bigint) (s : Inverting) : Prop :=
  (s.u.value : Gfield) = s.A.value * (x.value : Gfield) ∧
    (s.v.value : Gfield) = s.C.value * (x.value : Gfield)

variable {x : Bigint}

theorem tracks_iff {s : Inverting} :
    Tracks x s ↔ BinaryInverse.Tracks (x.value : Gfield) s.numbers := Iff.rfl

theorem kept_digitsP : Kept digitsP := ⟨shrunk_digitsP, le_of_eq value_digitsP⟩

theorem sound_start (hx : Canonical x) (hne : x.value ≠ 0) : Sound (start x) where
  u := ⟨hx.shrunk, le_of_lt hx.lt⟩
  v := kept_digitsP
  A := by
    show Kept [1]
    exact ⟨by unfold Bigint.Shrunk; decide, by decide +kernel⟩
  C := ⟨Bigint.shrunk_nil, Nat.zero_le P⟩
  pos := by
    show 0 < digitsP.value
    rw [value_digitsP]
    exact prime_P.pos
  coprime := by
    show Nat.Coprime x.value digitsP.value
    rw [value_digitsP, Nat.coprime_comm]
    exact prime_P.coprime_iff_not_dvd.mpr fun h => hne (Nat.eq_zero_of_dvd_of_lt h hx.lt)

theorem tracks_start (x : Bigint) : Tracks x (start x) := by
  refine ⟨?_, ?_⟩
  · simp [start, Bigint.value]
  · show ((digitsP.value : Nat) : Gfield) = _
    rw [value_digitsP, cast_P]
    simp [start, Bigint.value]

/-- The states of the main loop at the head of each round. -/
def Reached (n : Nat) (x : Bigint) : Inverting → Prop :=
  Relation.ReflTransGen (fun s t => round n s = some (.inl t)) (start x)

/-- A round that is made is not the last. -/
theorem round_inl {n : Nat} (hn : 192 < n) {s t : Inverting} (hs : Sound s)
    (h : round n s = some (.inl t)) : Sound t ∧ BinaryInverse.Round s.numbers t.numbers := by
  have hu : s.u.value ≠ 0 := fun hzero => by
    have hz := hs.u.shrunk.iszero_iff.mpr hzero
    unfold round at h
    rw [hz] at h
    simp at h
  obtain ⟨t', ht', hsound, hr⟩ := round_spec hn hs hu
  rw [h] at ht'
  obtain rfl : t = t' := by simpa using ht'
  exact ⟨hsound, hr⟩

/-- **At the head of each round** the numbers are their factors times `x`. -/
theorem reached_tracks {n : Nat} (hn : 192 < n) (hx : Canonical x) (hne : x.value ≠ 0)
    {s : Inverting} (h : Reached n x s) : Sound s ∧ Tracks x s := by
  induction h with
  | refl => exact ⟨sound_start hx hne, tracks_start x⟩
  | tail _ hstep ih =>
    obtain ⟨hsound, hr⟩ := round_inl hn ih.1 hstep
    exact ⟨hsound, tracks_iff.mpr (hr.tracks two_ne_zero (tracks_iff.mp ih.2))⟩

/-! ## The end -/

/-- The inverse of a number. -/
def Inverse (x y : Bigint) : Prop := Canonical y ∧ x.value * y.value % P = 1

theorem inverse_iff {y : Bigint} (hy : Canonical y) :
    Inverse x y ↔ (x.value : Gfield) * y.value = 1 := by
  have hone : (1 : Nat) % P = 1 := by norm_num [P]
  have hcast : ((x.value * y.value : Nat) : Gfield) = ((1 : Nat) : Gfield) ↔
      x.value * y.value % P = 1 % P := ZMod.natCast_eq_natCast_iff' _ _ P
  rw [hone, Nat.cast_mul, Nat.cast_one] at hcast
  rw [hcast]
  exact ⟨fun h => h.2, fun h => ⟨hy, h⟩⟩

/-- There is one. -/
theorem Inverse.unique {y z : Bigint} (hy : Inverse x y) (hz : Inverse x z) : z = y := by
  have h₁ := (inverse_iff hy.1).mp hy
  have h₂ := (inverse_iff hz.1).mp hz
  rw [← hz.1.digits_cast, ← hy.1.digits_cast]
  congr 1
  calc (z.value : Gfield) = z.value * (x.value * y.value) := by rw [h₁, mul_one]
    _ = (x.value * z.value) * y.value := by ring
    _ = y.value := by rw [h₂, one_mul]

/-- When `u` is zero the round ends with the inverse. -/
theorem round_zero {n : Nat} {s : Inverting} (hs : Sound s) (ht : Tracks x s)
    (hu : s.u.value = 0) : ∃ y, round n s = some (.inr y) ∧ Inverse x y := by
  have hz := hs.u.shrunk.iszero_iff.mpr hu
  have hone : (s.C.value : Gfield) * x.value = 1 :=
    (tracks_iff.mp ht).inverse hs.coprime hu
  have hlt : s.C.value < P := by
    refine lt_of_le_of_ne hs.C.le fun heq => ?_
    rw [heq, cast_P, zero_mul] at hone
    exact zero_ne_one hone
  refine ⟨s.C, ?_, (inverse_iff ⟨hs.C.shrunk, hlt⟩).mpr (by rw [mul_comm]; exact hone)⟩
  unfold round
  rw [if_pos hz, Bigint.lt_iff hs.C.shrunk shrunk_digitsP, value_digitsP,
    if_pos (decide_eq_true hlt)]

/-- The bits there are at the start. -/
theorem weight_start (hx : Canonical x) : BinaryInverse.weight (start x).numbers ≤ 385 := by
  have hmul : x.value * digitsP.value < 2 ^ (192 + 192) := by
    rw [value_digitsP]
    calc x.value * P < P * P := Nat.mul_lt_mul_of_pos_right hx.lt prime_P.pos
      _ ≤ 2 ^ 192 * 2 ^ 192 := Nat.mul_le_mul (by norm_num [P]) (by norm_num [P])
      _ = 2 ^ (192 + 192) := (pow_add 2 192 192).symm
  have hsize := Nat.size_le.mpr hmul
  have hmod := Nat.mod_lt (x.value * digitsP.value) (by norm_num : 0 < 2)
  show (x.value * digitsP.value).size + x.value * digitsP.value % 2 ≤ 385
  omega

/-- The main loop ends with the inverse. -/
theorem loop_inverse (hx : Canonical x) (hne : x.value ≠ 0) {n : Nat} (hn : 385 < n) :
    Loop.Yields (Loop.loop (round n) n (start x)) (Inverse x) := by
  have hn' : 192 < n := by omega
  refine Loop.loop_spec (fun s => Sound s ∧ Tracks x s)
    (fun s => BinaryInverse.weight s.numbers) (Inverse x) ?_ n _
    ⟨sound_start hx hne, tracks_start x⟩ (lt_of_le_of_lt (weight_start hx) hn)
  rintro s ⟨hs, ht⟩
  by_cases hu : s.u.value = 0
  · obtain ⟨y, hround, hy⟩ := round_zero (n := n) hs ht hu
    exact ⟨_, hround, hy⟩
  · obtain ⟨t, hround, hsound, hr⟩ := round_spec hn' hs hu
    exact ⟨_, hround, ⟨hsound, tracks_iff.mpr (hr.tracks two_ne_zero (tracks_iff.mp ht))⟩,
      hr.weight_lt⟩

/-- **Inversion** ends within 386 rounds of each loop: of a number that is not zero with its one
inverse, of zero without one, and at the head of each round `u` is `A` times `x` and `v` is `C` times
`x`. -/
theorem invert_exact {x : Bigint} (hx : Canonical x) {n : Nat} (hn : 385 < n) :
    (x.value = 0 → invert n x = some none) ∧
    (x.value ≠ 0 → ∃ y, invert n x = some (some y) ∧ Inverse x y ∧ ∀ z, Inverse x z → z = y) ∧
    ∀ s, x.value ≠ 0 → Reached n x s →
      (s.u.value : Gfield) = s.A.value * (x.value : Gfield) ∧
      (s.v.value : Gfield) = s.C.value * (x.value : Gfield) := by
  refine ⟨fun hzero => ?_, fun hne => ?_, fun s hne hs =>
    (reached_tracks (by omega) hx hne hs).2⟩
  · rw [hx.shrunk.eq_nil hzero]
    rfl
  · obtain ⟨y, hloop, hy⟩ := loop_inverse hx hne hn
    refine ⟨y, ?_, hy, fun z hz => hy.unique hz⟩
    unfold invert
    have hempty : ¬ x.isEmpty = true := fun h => hne (hx.shrunk.iszero_iff.mp h)
    rw [if_neg hempty, hloop]
    rfl

/-- The inverse of two. -/
theorem invert_exact_two : ∃ y, invert 386 [2] = some (some y) ∧ Inverse [2] y := by
  have hcan : Canonical [2] := ⟨by unfold Bigint.Shrunk; decide, by decide +kernel⟩
  obtain ⟨y, hy, hinv, -⟩ := (invert_exact hcan (n := 386) (by omega)).2.1 (by decide)
  exact ⟨y, hy, hinv⟩

end QServ.Gf
