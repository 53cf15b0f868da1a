import QServ.Shared.Bigint

/-!
# Arithmetic of big numbers

The operations of `bigint` of `shared/crypto.cpp` digit by digit, with carries of 32 bits.

* `value_add`, `value_sub`, `value_mul`, `value_rshift`: what they do to the values.
* `lt_iff`: the order of the digits is that of the values.
* `Shrunk.add`: no operation leaves a zero in the highest place.
-/

namespace QServ

/-- `dbldigit`. -/
abbrev Dbldigit := UInt32

namespace Bigint

/-! ## The operations -/

/-- The loop of `add` when `y` has no more digits: until the carry is used up, then the rest of `x`
is copied. -/
def ripple (carry : Dbldigit) : Bigint → Bigint
  | [] => if carry = 0 then [] else [carry.toUInt16]
  | d :: x =>
    if carry = 0 then d :: x
    else
      let carry := carry + d.toUInt32
      carry.toUInt16 :: ripple (carry >>> 16) x

/-- The loop of `add`. -/
def addcarry (carry : Dbldigit) : Bigint → Bigint → Bigint
  | x, [] => ripple carry x
  | x, e :: y =>
    let carry := carry + ((x.headD 0).toUInt32 + e.toUInt32)
    carry.toUInt16 :: addcarry (carry >>> 16) x.tail y

/-- `add(x, y)`. -/
def add (x y : Bigint) : Bigint := addcarry 0 x y

/-- The loop of `sub` when `y` has no more digits.  It is asserted that no borrow is left after the
digits of `x`. -/
def settle (borrow : Dbldigit) : Bigint → Bigint
  | [] => []
  | d :: x =>
    if borrow = 0 then d :: x
    else
      let borrow := 65536 + d.toUInt32 - 0 - borrow
      borrow.toUInt16 :: settle (borrow >>> 16 ^^^ 1) x

/-- The loop of `sub`. -/
def subborrow (borrow : Dbldigit) : Bigint → Bigint → Bigint
  | x, [] => settle borrow x
  | [], _ :: _ => []
  | d :: x, e :: y =>
    let borrow := 65536 + d.toUInt32 - e.toUInt32 - borrow
    borrow.toUInt16 :: subborrow (borrow >>> 16 ^^^ 1) x y

/-- `sub(x, y)`, of which it is asserted that `x >= y`. -/
def sub (x y : Bigint) : Bigint := shrink (subborrow 0 x y)

/-- The inner loop of `mul`: the digit `d` of `x` times those of `y` on top of what is there, and the
carry in the place after them. -/
def mulrow (d : UInt16) (carry : Dbldigit) : Bigint → Bigint → Bigint
  | _, [] => [carry.toUInt16]
  | digits, e :: y =>
    let carry := carry + (d.toUInt32 * e.toUInt32 + (digits.headD 0).toUInt32)
    carry.toUInt16 :: mulrow d (carry >>> 16) digits.tail y

/-- The outer loop of `mul`: each row leaves its lowest digit as it will be. -/
def mulrows (y : Bigint) : Bigint → Bigint → Bigint
  | digits, [] => digits
  | digits, d :: x =>
    let row := mulrow d 0 digits y
    row.headD 0 :: mulrows y row.tail x

/-- `mul(x, y)`. -/
def mul (x y : Bigint) : Bigint :=
  if x = [] ∨ y = [] then [] else shrink (mulrows y (List.replicate y.length 0) x)

/-- The loop of `rshift`. -/
def shiftdigits (n carry : Nat) : Bigint → Bigint
  | [] => [UInt16.ofNat carry]
  | tmp :: x => UInt16.ofNat (tmp.toNat <<< (16 - n) ||| carry) :: shiftdigits n (tmp.toNat >>> n) x

/-- `rshift(n)`, for `n` up to the number of bits there are places for. -/
def rshift (x : Bigint) (n : Nat) : Bigint :=
  if x = [] ∨ n = 0 then x
  else
    let dig := (n - 1) / 16
    let n := (n - 1) % 16 + 1
    shrink ((shiftdigits n ((x.getD dig 0).toNat >>> n) (x.drop (dig + 1))).take
      (x.length - (dig + n / 16)))

/-- The loop of `operator<`, from the highest digits on. -/
def below : List UInt16 → List UInt16 → Bool
  | d :: x, e :: y => if d < e then true else if e < d then false else below x y
  | _, _ => false

/-- `operator<`. -/
def lt (x y : Bigint) : Bool :=
  if x.length < y.length then true
  else if y.length < x.length then false
  else below x.reverse y.reverse

/-- `iszero()`. -/
def iszero (x : Bigint) : Bool := x.isEmpty

/-! ## Digits without leading zeros -/

/-- No zero is in the highest place, if none of the numbers left by dropping digits is zero. -/
theorem shrunk_cons {d : UInt16} {ds : Bigint} :
    Shrunk (d :: ds) ↔ Shrunk ds ∧ value (d :: ds) ≠ 0 := by
  constructor
  · intro h
    exact ⟨h.tail, fun hv => absurd (h.eq_nil hv) (by simp)⟩
  · rintro ⟨h, hv⟩
    cases ds with
    | nil =>
      intro hlast
      have hd : d = 0 := by simpa using hlast
      exact hv (by simp [hd, value])
    | cons e es => simpa [Shrunk, List.getLast?_cons_cons] using h

theorem shrunk_nil : Shrunk [] := by simp [Shrunk]

/-- `iszero` is exact without leading zeros. -/
theorem Shrunk.iszero_iff {x : Bigint} (h : Shrunk x) : x.iszero = true ↔ x.value = 0 := by
  rw [iszero, List.isEmpty_iff]
  exact ⟨fun hx => by rw [hx, value], h.eq_nil⟩

theorem value_headD_tail (x : Bigint) : (x.headD 0).toNat + 65536 * value x.tail = value x := by
  cases x with
  | nil => rfl
  | cons d ds => rfl

/-- The number of digits is that of the powers of the base up to the value. -/
theorem Shrunk.length_le {x : Bigint} (h : Shrunk x) {n : Nat} (hv : value x < 65536 ^ n) :
    x.length ≤ n := by
  induction x generalizing n with
  | nil => exact Nat.zero_le n
  | cons d ds ih =>
    have hne := (shrunk_cons.mp h).2
    cases n with
    | zero => exact absurd (by simpa using hv) hne
    | succ n =>
      rw [value, pow_succ] at hv
      have hds := ih h.tail (n := n) (by omega)
      simpa using hds

/-! ## Addition -/

/-- A number of 32 bits in two digits. -/
theorem toNat_split (c : Dbldigit) : c.toUInt16.toNat + 65536 * (c >>> 16).toNat = c.toNat := by
  have hc := c.toNat_lt
  simp only [UInt32.toNat_toUInt16, UInt32.toNat_shiftRight, Nat.shiftRight_eq_div_pow]
  have h16 : (16 : UInt32).toNat % 32 = 16 := rfl
  rw [h16]
  omega

theorem value_ripple {carry : Dbldigit} (hc : carry.toNat ≤ 1) (x : Bigint) :
    value (ripple carry x) = carry.toNat + value x := by
  induction x generalizing carry with
  | nil =>
    unfold ripple
    split
    · next h => simp [h, value]
    · have hsplit := toNat_split carry
      simp only [value]
      omega
  | cons d ds ih =>
    have hd := d.toNat_lt
    unfold ripple
    split
    · next h => simp [h]
    · have hsum : (carry + d.toUInt32).toNat = carry.toNat + d.toNat := by
        rw [UInt32.toNat_add, UInt16.toNat_toUInt32]
        omega
      have hsplit := toNat_split (carry + d.toUInt32)
      have hdigit := (carry + d.toUInt32).toUInt16.toNat_lt
      dsimp only
      rw [value, ih (by omega), value]
      omega

theorem value_addcarry {carry : Dbldigit} (hc : carry.toNat ≤ 1) (x y : Bigint) :
    value (addcarry carry x y) = carry.toNat + (value x + value y) := by
  induction y generalizing carry x with
  | nil => rw [addcarry, value_ripple hc, value, add_zero]
  | cons e y ih =>
    have he := e.toNat_lt
    have hd := (x.headD 0).toNat_lt
    have hx := value_headD_tail x
    have hsum : (carry + ((x.headD 0).toUInt32 + e.toUInt32)).toNat =
        carry.toNat + ((x.headD 0).toNat + e.toNat) := by
      simp only [UInt32.toNat_add, UInt16.toNat_toUInt32]
      omega
    have hsplit := toNat_split (carry + ((x.headD 0).toUInt32 + e.toUInt32))
    have hdigit := (carry + ((x.headD 0).toUInt32 + e.toUInt32)).toUInt16.toNat_lt
    rw [addcarry, value, ih (by omega), value]
    omega

/-- **The sum**. -/
theorem value_add (x y : Bigint) : value (add x y) = value x + value y := by
  rw [add, value_addcarry (by decide)]
  exact Nat.zero_add _

theorem Shrunk.ripple {x : Bigint} (h : Shrunk x) {carry : Dbldigit} (hc : carry.toNat ≤ 1) :
    Shrunk (Bigint.ripple carry x) := by
  induction x generalizing carry with
  | nil =>
    unfold Bigint.ripple
    split
    · exact shrunk_nil
    · next hne =>
      have hval := value_ripple hc []
      unfold Bigint.ripple at hval
      rw [if_neg hne] at hval
      refine shrunk_cons.mpr ⟨shrunk_nil, fun hv => hne ?_⟩
      rw [← UInt32.toNat_inj]
      simp only [value] at hval hv
      simp
      omega
  | cons d ds ih =>
    have hval := value_ripple hc (d :: ds)
    have hne := (shrunk_cons.mp h).2
    have hd := d.toNat_lt
    unfold Bigint.ripple at hval ⊢
    split
    · exact h
    · next hcne =>
      have hsum : (carry + d.toUInt32).toNat = carry.toNat + d.toNat := by
        rw [UInt32.toNat_add, UInt16.toNat_toUInt32]
        omega
      have hsplit := toNat_split (carry + d.toUInt32)
      rw [if_neg hcne] at hval
      refine shrunk_cons.mpr ⟨ih h.tail (by omega), ?_⟩
      dsimp only at hval ⊢
      omega

/-- A sum has no leading zeros, with no need to drop any. -/
theorem Shrunk.add {x y : Bigint} (hx : Shrunk x) (hy : Shrunk y) : Shrunk (x.add y) := by
  have hcarry : ∀ (y x : Bigint) (carry : Dbldigit), carry.toNat ≤ 1 → Shrunk x → Shrunk y →
      Shrunk (addcarry carry x y) := by
    intro y
    induction y with
    | nil => exact fun x carry hc hx _ => hx.ripple hc
    | cons e y ih =>
      intro x carry hc hx hy
      have hval := value_addcarry hc x (e :: y)
      have hne := (shrunk_cons.mp hy).2
      have htail : Shrunk x.tail := by
        cases x with
        | nil => exact shrunk_nil
        | cons d ds => exact hx.tail
      have he := e.toNat_lt
      have hd := (x.headD 0).toNat_lt
      have hsum : (carry + ((x.headD 0).toUInt32 + e.toUInt32)).toNat =
          carry.toNat + ((x.headD 0).toNat + e.toNat) := by
        simp only [UInt32.toNat_add, UInt16.toNat_toUInt32]
        omega
      have hsplit := toNat_split (carry + ((x.headD 0).toUInt32 + e.toUInt32))
      rw [addcarry] at hval ⊢
      exact shrunk_cons.mpr ⟨ih _ _ (by omega) htail hy.tail, by omega⟩
  exact hcarry y x 0 (by decide) hx hy

/-! ## Subtraction -/

theorem shrunk_sub (x y : Bigint) : Shrunk (x.sub y) := shrunk_shrink _

/-- A step of `sub`: the digit and the borrow after it. -/
theorem toNat_borrow {borrow : Dbldigit} (hb : borrow.toNat ≤ 1) (d e : UInt16) :
    let next := 65536 + d.toUInt32 - e.toUInt32 - borrow
    next.toUInt16.toNat + e.toNat + borrow.toNat =
        d.toNat + 65536 * (next >>> 16 ^^^ 1).toNat ∧
      (next >>> 16 ^^^ 1).toNat ≤ 1 := by
  intro next
  have hd := d.toNat_lt
  have he := e.toNat_lt
  have hnext : next.toNat = 65536 + d.toNat - e.toNat - borrow.toNat := by
    have hsum : (65536 + d.toUInt32).toNat = 65536 + d.toNat := by
      rw [UInt32.toNat_add, UInt16.toNat_toUInt32]
      simp
      omega
    rw [UInt32.toNat_sub_of_le, UInt32.toNat_sub_of_le, hsum, UInt16.toNat_toUInt32]
    · rw [UInt32.le_iff_toNat_le, hsum, UInt16.toNat_toUInt32]
      omega
    · rw [UInt32.le_iff_toNat_le, UInt32.toNat_sub_of_le, hsum, UInt16.toNat_toUInt32]
      · omega
      · rw [UInt32.le_iff_toNat_le, hsum, UInt16.toNat_toUInt32]
        omega
  have hsplit := toNat_split next
  have hdigit := next.toUInt16.toNat_lt
  have hxor : (next >>> 16 ^^^ 1).toNat = (next >>> 16).toNat ^^^ 1 := UInt32.toNat_xor _ _
  obtain hzero | hone : (next >>> 16).toNat = 0 ∨ (next >>> 16).toNat = 1 := by omega
  · rw [hzero] at hxor
    have hval : (next >>> 16 ^^^ 1).toNat = 1 := hxor
    omega
  · rw [hone] at hxor
    have hval : (next >>> 16 ^^^ 1).toNat = 0 := hxor
    omega

theorem value_settle {borrow : Dbldigit} (hb : borrow.toNat ≤ 1) {x : Bigint}
    (h : borrow.toNat ≤ value x) : value (settle borrow x) = value x - borrow.toNat := by
  induction x generalizing borrow with
  | nil => simp [settle, value]
  | cons d ds ih =>
    unfold settle
    split
    · next hzero => simp [hzero]
    · obtain ⟨hdigit, hnext⟩ := toNat_borrow hb d 0
      have hzero : (0 : UInt16).toUInt32 = 0 := rfl
      have hzero' : (0 : UInt16).toNat = 0 := rfl
      have hlt := (65536 + d.toUInt32 - 0 - borrow).toUInt16.toNat_lt
      rw [hzero, hzero'] at hdigit
      rw [hzero] at hnext
      rw [value] at h
      dsimp only
      rw [value, ih hnext (by omega), value]
      omega

theorem value_subborrow {borrow : Dbldigit} (hb : borrow.toNat ≤ 1) {x y : Bigint}
    (h : value y + borrow.toNat ≤ value x) :
    value (subborrow borrow x y) = value x - (value y + borrow.toNat) := by
  induction y generalizing borrow x with
  | nil =>
    rw [value, Nat.zero_add] at h ⊢
    rw [subborrow, value_settle hb h]
  | cons e y ih =>
    cases x with
    | nil => simp only [subborrow, value, Nat.zero_sub]
    | cons d x =>
      obtain ⟨hdigit, hnext⟩ := toNat_borrow hb d e
      have hlt := (65536 + d.toUInt32 - e.toUInt32 - borrow).toUInt16.toNat_lt
      simp only [value] at h
      simp only [subborrow, value]
      rw [ih hnext (by omega)]
      omega

/-- **The difference**, where it is asserted to be one. -/
theorem value_sub {x y : Bigint} (h : value y ≤ value x) :
    value (x.sub y) = value x - value y := by
  have hzero : (0 : Dbldigit).toNat = 0 := rfl
  rw [sub, value_shrink, value_subborrow (by decide) (by rwa [hzero, Nat.add_zero]), hzero,
    Nat.add_zero]

/-! ## Order -/

theorem below_eq {x y : List UInt16} (hlen : x.length = y.length) :
    below x y = decide (value x.reverse < value y.reverse) := by
  induction x generalizing y with
  | nil =>
    cases y with
    | nil => rfl
    | cons e y => simp at hlen
  | cons d x ih =>
    cases y with
    | nil => simp at hlen
    | cons e y =>
      have hlen' : x.length = y.length := by simpa using hlen
      have hx := value_lt x.reverse
      have hy := value_lt y.reverse
      have hone : ∀ c : UInt16, value [c] = c.toNat := fun c => by simp [value]
      rw [List.length_reverse] at hx hy
      rw [← hlen'] at hy
      simp only [below, ih hlen', List.reverse_cons, value_append, List.length_reverse, ← hlen',
        hone]
      generalize 65536 ^ x.length = b at hx hy ⊢
      split
      · next hde =>
        have hnat := UInt16.lt_iff_toNat_lt.mp hde
        have hmul : b * (d.toNat + 1) ≤ b * e.toNat := Nat.mul_le_mul_left b hnat
        rw [Nat.mul_add] at hmul
        exact (decide_eq_true (by omega)).symm
      · next hde =>
        rw [UInt16.lt_iff_toNat_lt] at hde
        split
        · next hed =>
          have hnat := UInt16.lt_iff_toNat_lt.mp hed
          have hmul : b * (e.toNat + 1) ≤ b * d.toNat := Nat.mul_le_mul_left b hnat
          rw [Nat.mul_add] at hmul
          exact (decide_eq_false (by omega)).symm
        · next hed =>
          rw [UInt16.lt_iff_toNat_lt] at hed
          have heq : d.toNat = e.toNat := by omega
          rw [heq]
          exact decide_eq_decide.mpr (by omega)

/-- A longer number without leading zeros is a greater one. -/
theorem Shrunk.value_lt_of_length {x y : Bigint} (hy : Shrunk y) (h : x.length < y.length) :
    value x < value y := by
  by_contra hge
  have hlen := hy.length_le (lt_of_le_of_lt (Nat.le_of_not_lt hge) (value_lt x))
  omega

/-- **The order** of digits without leading zeros. -/
theorem lt_iff {x y : Bigint} (hx : Shrunk x) (hy : Shrunk y) :
    lt x y = decide (value x < value y) := by
  unfold lt
  split
  · next h => exact (decide_eq_true (hy.value_lt_of_length h)).symm
  · split
    · next h =>
      have hlt := hx.value_lt_of_length h
      exact (decide_eq_false (by omega)).symm
    · have hlen : x.reverse.length = y.reverse.length := by
        simp only [List.length_reverse]
        omega
      rw [below_eq hlen, List.reverse_reverse, List.reverse_reverse]

/-! ## Multiplication -/

/-- A product of two digits, a digit and a carry fit the 32 bits. -/
theorem toNat_product {carry : Dbldigit} (hc : carry.toNat < 65536) (d e a : UInt16) :
    (carry + (d.toUInt32 * e.toUInt32 + a.toUInt32)).toNat =
        carry.toNat + (d.toNat * e.toNat + a.toNat) ∧
      carry.toNat + (d.toNat * e.toNat + a.toNat) < 65536 * 65536 := by
  have hd := d.toNat_lt
  have he := e.toNat_lt
  have ha := a.toNat_lt
  have hmul : d.toNat * e.toNat ≤ 65535 * 65535 := Nat.mul_le_mul (by omega) (by omega)
  simp only [UInt32.toNat_add, UInt32.toNat_mul, UInt16.toNat_toUInt32]
  omega

theorem length_mulrow (d : UInt16) (carry : Dbldigit) (digits y : Bigint) :
    (mulrow d carry digits y).length = y.length + 1 := by
  induction y generalizing carry digits with
  | nil => rfl
  | cons e y ih => rw [mulrow, List.length_cons, ih, List.length_cons]

/-- A row: the digits of `y` times `d` on top of as many that are there. -/
theorem value_mulrow {carry : Dbldigit} (hc : carry.toNat < 65536) (d : UInt16) {digits y : Bigint}
    (hlen : digits.length ≤ y.length) :
    value (mulrow d carry digits y) = carry.toNat + (d.toNat * value y + value digits) := by
  induction y generalizing carry digits with
  | nil =>
    have hnil : digits = [] := by simpa using hlen
    have hcarry : carry.toUInt16.toNat = carry.toNat := by
      rw [UInt32.toNat_toUInt16]
      exact Nat.mod_eq_of_lt hc
    simp [mulrow, value, hnil, hcarry]
  | cons e y ih =>
    obtain ⟨hsum, hfit⟩ := toNat_product hc d e (digits.headD 0)
    have hsplit := toNat_split (carry + (d.toUInt32 * e.toUInt32 + (digits.headD 0).toUInt32))
    have hdigits := value_headD_tail digits
    have htail : digits.tail.length ≤ y.length := by
      rw [List.length_tail]
      simp only [List.length_cons] at hlen
      omega
    have hswap : d.toNat * (e.toNat + 65536 * value y) =
        d.toNat * e.toNat + 65536 * (d.toNat * value y) := by ring
    rw [mulrow, value, ih (by omega) htail, value, ← hdigits, hswap]
    omega

theorem value_mulrows (y x : Bigint) {digits : Bigint} (hlen : digits.length = y.length) :
    value (mulrows y digits x) = value digits + value x * value y := by
  induction x generalizing digits with
  | nil => simp [mulrows, value]
  | cons d x ih =>
    have hcarry : (0 : Dbldigit).toNat < 65536 := by decide
    have hrow := value_mulrow hcarry d (le_of_eq hlen)
    have htail : (mulrow d 0 digits y).tail.length = y.length := by
      rw [List.length_tail, length_mulrow]
      rfl
    have hhead := value_headD_tail (mulrow d 0 digits y)
    have hzero : (0 : Dbldigit).toNat = 0 := rfl
    rw [hzero, Nat.zero_add] at hrow
    rw [mulrows, value, ih htail, value, add_mul]
    have hswap : 65536 * value x * value y = 65536 * (value x * value y) := by ring
    rw [hswap]
    omega

theorem value_replicate_zero (n : Nat) : value (List.replicate n 0) = 0 := by
  induction n with
  | zero => rfl
  | succ n ih => rw [List.replicate_succ, value, ih]; rfl

/-- **The product**. -/
theorem value_mul (x y : Bigint) : value (x.mul y) = value x * value y := by
  unfold mul
  split
  · next h =>
    rcases h with rfl | rfl
    · simp [value]
    · simp [value]
  · rw [value_shrink, value_mulrows y x List.length_replicate, value_replicate_zero, Nat.zero_add]

theorem shrunk_mul (x y : Bigint) : Shrunk (x.mul y) := by
  unfold mul
  split
  · exact shrunk_nil
  · exact shrunk_shrink _

/-! ## Shifting -/

/-- The loop of `rshift`: the bits that are shifted out of a digit go to the top of the one below. -/
theorem value_shiftdigits {n carry : Nat} (hn : n ≤ 16) (hc : carry < 2 ^ (16 - n)) (x : Bigint) :
    value (shiftdigits n carry x) = carry + 2 ^ (16 - n) * value x := by
  have hpow : 2 ^ n * 2 ^ (16 - n) = 65536 := by
    rw [← pow_add, Nat.add_sub_cancel' hn]
    rfl
  have hle : 2 ^ (16 - n) ≤ 65536 := Nat.le_of_dvd (by norm_num) ⟨2 ^ n, by rw [← hpow]; ring⟩
  induction x generalizing carry with
  | nil =>
    simp only [shiftdigits, value, UInt16.toNat_ofNat']
    omega
  | cons tmp x ih =>
    have htmp : tmp.toNat < 2 ^ n * 2 ^ (16 - n) := by
      rw [hpow]
      exact tmp.toNat_lt
    have hnext : tmp.toNat >>> n < 2 ^ (16 - n) := by
      rw [Nat.shiftRight_eq_div_pow]
      exact Nat.div_lt_of_lt_mul htmp
    have hor : tmp.toNat <<< (16 - n) ||| carry = 2 ^ (16 - n) * tmp.toNat + carry := by
      rw [← Nat.shiftLeft_add_eq_or_of_lt hc, Nat.shiftLeft_eq, Nat.mul_comm]
    -- `tmp` is what goes up and what stays
    have hdiv := Nat.div_add_mod tmp.toNat (2 ^ n)
    have hmod := Nat.mod_lt tmp.toNat (Nat.two_pow_pos n)
    have hlow : 2 ^ (16 - n) * tmp.toNat =
        65536 * (tmp.toNat >>> n) + 2 ^ (16 - n) * (tmp.toNat % 2 ^ n) := by
      rw [Nat.shiftRight_eq_div_pow, ← hpow]
      nth_rewrite 1 [← hdiv]
      ring
    have hfit : 2 ^ (16 - n) * (tmp.toNat % 2 ^ n) + carry < 65536 := by
      have hmul : 2 ^ (16 - n) * (tmp.toNat % 2 ^ n + 1) ≤ 2 ^ (16 - n) * 2 ^ n :=
        Nat.mul_le_mul_left _ hmod
      rw [Nat.mul_comm _ (2 ^ n), hpow, Nat.mul_add] at hmul
      omega
    have hdigit : (65536 * (tmp.toNat >>> n) + 2 ^ (16 - n) * (tmp.toNat % 2 ^ n) + carry) %
        2 ^ 16 = 2 ^ (16 - n) * (tmp.toNat % 2 ^ n) + carry := by
      omega
    rw [shiftdigits, value, ih hnext, value, UInt16.toNat_ofNat', hor, hlow, hdigit]
    calc _ = carry + (65536 * (tmp.toNat >>> n) + 2 ^ (16 - n) * (tmp.toNat % 2 ^ n)) +
          2 ^ (16 - n) * (65536 * value x) := by ring
      _ = _ := by
        rw [← hlow]
        ring

theorem length_shiftdigits (n carry : Nat) (x : Bigint) :
    (shiftdigits n carry x).length = x.length + 1 := by
  induction x generalizing carry with
  | nil => rfl
  | cons tmp x ih => rw [shiftdigits, List.length_cons, ih, List.length_cons]

theorem value_drop (x : Bigint) (k : Nat) : value (x.drop k) = value x / 65536 ^ k := by
  induction k generalizing x with
  | zero => simp
  | succ k ih =>
    cases x with
    | nil => simp [value]
    | cons d x =>
      have hd := d.toNat_lt
      rw [List.drop_succ_cons, ih, value, pow_succ', ← Nat.div_div_eq_div_mul]
      congr 1
      omega

theorem value_take (x : Bigint) (k : Nat) : value (x.take k) = value x % 65536 ^ k := by
  have hsplit := value_append (x.take k) (x.drop k)
  rw [List.take_append_drop] at hsplit
  by_cases hk : k ≤ x.length
  · have hlt := value_lt (x.take k)
    rw [List.length_take_of_le hk] at hsplit hlt
    rw [hsplit, Nat.add_mul_mod_self_left, Nat.mod_eq_of_lt hlt]
  · have hpow : 65536 ^ x.length ≤ 65536 ^ k := Nat.pow_le_pow_right (by norm_num) (by omega)
    rw [List.take_of_length_le (by omega), Nat.mod_eq_of_lt (lt_of_lt_of_le (value_lt x) hpow)]

/-- **The shift** divides. -/
theorem value_rshift (x : Bigint) {n : Nat} (hn : n ≤ 16 * x.length) :
    value (x.rshift n) = value x / 2 ^ n := by
  unfold rshift
  split
  · next h =>
    rcases h with rfl | rfl
    · simp [value]
    · simp
  · next h =>
    have hpos : n ≠ 0 := fun h0 => h (Or.inr h0)
    obtain ⟨dig, k, hdig, hk, hk0, hk16⟩ : ∃ dig k, (n - 1) / 16 = dig ∧ (n - 1) % 16 + 1 = k ∧
        0 < k ∧ k ≤ 16 := ⟨_, _, rfl, rfl, by omega, by omega⟩
    have hnk : n = 16 * dig + k := by omega
    have hlen : dig < x.length := by omega
    dsimp only
    rw [hdig, hk]
    -- the digits from `dig` on, the first of which gives the carry
    have hdrop : x.drop dig = x.getD dig 0 :: x.drop (dig + 1) := by
      rw [List.drop_eq_getElem_cons hlen]
      simp [hlen]
    have hval := value_drop x dig
    rw [hdrop, value] at hval
    have hpow : 2 ^ k * 2 ^ (16 - k) = 65536 := by
      rw [← pow_add, Nat.add_sub_cancel' hk16]
      rfl
    have hcarry : (x.getD dig 0).toNat >>> k < 2 ^ (16 - k) := by
      rw [Nat.shiftRight_eq_div_pow]
      refine Nat.div_lt_of_lt_mul ?_
      rw [hpow]
      exact (x.getD dig 0).toNat_lt
    have hall : value (shiftdigits k ((x.getD dig 0).toNat >>> k) (x.drop (dig + 1))) =
        value x / 2 ^ n := by
      rw [value_shiftdigits hk16 hcarry, Nat.shiftRight_eq_div_pow, hnk, pow_add, pow_mul,
        ← Nat.div_div_eq_div_mul]
      have h16 : (2 : Nat) ^ 16 = 65536 := rfl
      rw [h16, ← hval, ← hpow, Nat.mul_assoc, Nat.add_mul_div_left _ _ (Nat.two_pow_pos k)]
    have hfit : value x / 2 ^ n < 65536 ^ (x.length - (dig + k / 16)) := by
      refine Nat.div_lt_of_lt_mul ?_
      calc value x < 65536 ^ x.length := value_lt x
        _ = 2 ^ (16 * x.length) := by
          rw [pow_mul]
          rfl
        _ ≤ 2 ^ n * 65536 ^ (x.length - (dig + k / 16)) := by
          have h16 : (65536 : Nat) = 2 ^ 16 := rfl
          rw [h16, ← pow_mul, ← pow_add]
          refine Nat.pow_le_pow_right (by norm_num) ?_
          omega
    rw [value_shrink, value_take, hall, Nat.mod_eq_of_lt hfit]

theorem shrunk_rshift {x : Bigint} (h : Shrunk x) (n : Nat) : Shrunk (x.rshift n) := by
  unfold rshift
  split
  · exact h
  · exact shrunk_shrink _

end Bigint

end QServ
