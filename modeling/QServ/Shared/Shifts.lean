import QServ.Shared.Bignums

/-!
# Shifts of big numbers

`rshift` and `lshift` of `bigint` of `shared/crypto.cpp` on numbers in their arrays.  The loop of
`rshift` goes up with the carry; that of `lshift` goes down, so that the bits that leave a digit are
put into the one below.

* `Bignums.rshift`, `Bignums.lshift`: the loops.
* `Spills`: the bits that leave the digits are such that it does not matter where they go.
* `shifts_exact`: when a shift in place multiplies or divides.
-/

namespace QServ

namespace Bignums

/-! ## The operations -/

/-- The loop of `rshift`, from `i` on with so many to come. -/
def rshiftdigits (dst x dig n : Nat) :
    Nat → Nat → UInt16 → Bignums → Option (Bignums × UInt16)
  | 0, _, carry, m => some (m, carry)
  | k + 1, i, carry, m => do
    let tmp ← m.digit x (i + dig + 1)
    let m ← m.put dst i (UInt16.ofNat (tmp.toNat <<< (16 - n) ||| carry.toNat))
    rshiftdigits dst x dig n k (i + 1) (UInt16.ofNat (tmp.toNat >>> n)) m

/-- `rshift(x, n)`; `digits[len-dig-1]` is before the array if `dig` is not below the length. -/
def rshift (m : Bignums) (dst x n : Nat) : Option Bignums :=
  let len := (m dst).len
  if len = 0 ∨ n = 0 then some m
  else do
    let dig := (n - 1) / 16
    let n := (n - 1) % 16 + 1
    let d ← m.digit x dig
    let (m, carry) ← rshiftdigits dst x dig n (len - dig - 1) 0 (UInt16.ofNat (d.toNat >>> n)) m
    let m ← if len ≤ dig then none else m.put dst (len - dig - 1) carry
    some ((m.setlen dst (len - (dig + n / 16))).shrink dst)

/-- The loop of `lshift`, from the digit below `i` down. -/
def lshiftdigits (dst x dig n : Nat) : Nat → UInt16 → Bignums → Option (Bignums × UInt16)
  | 0, carry, m => some (m, carry)
  | i + 1, carry, m => do
    let tmp ← m.digit x i
    let m ← m.put dst (i + dig) (UInt16.ofNat (tmp.toNat <<< n ||| carry.toNat))
    lshiftdigits dst x dig n i (UInt16.ofNat (tmp.toNat >>> (16 - n))) m

/-- `lshift(x, n)`. -/
def lshift (m : Bignums) (dst x n : Nat) : Option Bignums :=
  let len := (m dst).len
  if len = 0 ∨ n = 0 then some m
  else do
    let dig := n / 16
    let n := n % 16
    let (m, carry) ← lshiftdigits dst x dig n len 0 m
    let len := len + dig
    let m := m.setlen dst len
    let m ← if carry = 0 then some m else (m.put dst len carry).map fun m => m.setlen dst (len + 1)
    if dig = 0 then some m else m.clear dst dig

end Bignums

namespace Bigint

/-! ## What the loops leave -/

/-- The bits that leave a digit at the top. -/
def spill (n : Nat) (d : UInt16) : UInt16 := UInt16.ofNat (d.toNat >>> (16 - n))

/-- The carry after the loop of `lshift`. -/
def carryout (n : Nat) (carry : UInt16) : Bigint → UInt16
  | [] => carry
  | d :: _ => spill n d

/-- The digits that the loop of `lshift` writes. -/
def raise (n : Nat) (carry : UInt16) : Bigint → Bigint
  | [] => []
  | d :: x => UInt16.ofNat (d.toNat <<< n ||| (carryout n carry x).toNat) :: raise n carry x

/-- The digits after `lshift(n)`. -/
def lshift (x : Bigint) (n : Nat) : Bigint :=
  if x = [] ∨ n = 0 then x
  else
    let carry := carryout (n % 16) 0 x
    List.replicate (n / 16) 0 ++ raise (n % 16) 0 x ++ if carry = 0 then [] else [carry]

/-- No bits leave a digit, or the same ones leave every other digit from the lowest to the highest
and none the digits between. -/
def Spills (n : Nat) (x : Bigint) : Prop :=
  (∀ d ∈ x, spill n d = 0) ∨ ∃ c k, x.map (spill n) = c :: (List.replicate k [0, c]).flatten

/-! ## Digits of the same number -/

/-- As many digits that denote the same number are the same. -/
theorem eq_of_value_of_length {x y : Bigint} (hlen : x.length = y.length)
    (h : value x = value y) : x = y := by
  induction x generalizing y with
  | nil => exact (List.eq_nil_of_length_eq_zero hlen.symm).symm
  | cons d x ih =>
    cases y with
    | nil => cases hlen
    | cons e y =>
      have hd := d.toNat_lt
      have he := e.toNat_lt
      rw [value, value] at h
      have hde : d = e := by
        rw [← UInt16.toNat_inj]
        omega
      rw [hde, ih (Nat.succ.inj hlen) (by omega)]

/-- A number without leading zeros needs its highest digit. -/
theorem Shrunk.le_value {x : Bigint} (h : Shrunk x) (hne : x ≠ []) :
    65536 ^ (x.length - 1) ≤ value x := by
  by_contra hlt
  have hlen := h.length_le (Nat.lt_of_not_le hlt)
  have hpos := List.length_pos_iff.mpr hne
  omega

theorem shrunk_of_le {x : Bigint} (h : 65536 ^ (x.length - 1) ≤ value x) : Shrunk x := by
  intro hlast
  obtain ⟨y, rfl⟩ := List.getLast?_eq_some_iff.mp hlast
  have hlt := value_lt y
  rw [value_append, List.length_append] at h
  simp [value] at h
  omega

/-! ## The bits that leave the digits -/

theorem toNat_spill {n : Nat} (hn : n ≤ 16) (d : UInt16) :
    (spill n d).toNat = d.toNat / 2 ^ (16 - n) ∧ (spill n d).toNat < 2 ^ n := by
  have hd := d.toNat_lt
  have hval : (spill n d).toNat = d.toNat / 2 ^ (16 - n) := by
    rw [spill, UInt16.toNat_ofNat', Nat.shiftRight_eq_div_pow]
    exact Nat.mod_eq_of_lt (Nat.lt_of_le_of_lt (Nat.div_le_self ..) hd)
  refine ⟨hval, ?_⟩
  rw [hval]
  refine Nat.div_lt_of_lt_mul ?_
  rwa [← pow_add, Nat.sub_add_cancel hn]

/-- A digit after a round of `lshift`, and what leaves it. -/
theorem toNat_raised {n : Nat} (hn : n ≤ 16) (d c : UInt16) (hc : c.toNat < 2 ^ n) :
    (UInt16.ofNat (d.toNat <<< n ||| c.toNat)).toNat + 65536 * (spill n d).toNat =
      2 ^ n * d.toNat + c.toNat := by
  have hpow : 2 ^ n * 2 ^ (16 - n) = 65536 := by
    rw [← pow_add, Nat.add_sub_cancel' hn]
    rfl
  have hor : d.toNat <<< n ||| c.toNat = 2 ^ n * d.toNat + c.toNat := by
    rw [← Nat.shiftLeft_add_eq_or_of_lt hc, Nat.shiftLeft_eq, Nat.mul_comm]
  have hdiv := Nat.div_add_mod d.toNat (2 ^ (16 - n))
  have hmod := Nat.mod_lt d.toNat (Nat.two_pow_pos (16 - n))
  -- what stays in the digit has room for the carry
  have hsplit : 2 ^ n * d.toNat =
      65536 * (spill n d).toNat + 2 ^ n * (d.toNat % 2 ^ (16 - n)) := by
    rw [(toNat_spill hn d).1, ← hpow]
    nth_rewrite 1 [← hdiv]
    ring
  have hfit : 2 ^ n * (d.toNat % 2 ^ (16 - n)) + c.toNat < 65536 := by
    have hmul : 2 ^ n * (d.toNat % 2 ^ (16 - n) + 1) ≤ 2 ^ n * 2 ^ (16 - n) :=
      Nat.mul_le_mul_left _ hmod
    rw [hpow, Nat.mul_add] at hmul
    omega
  rw [hor, UInt16.toNat_ofNat', hsplit]
  omega

theorem carryout_lt {n : Nat} (hn : n ≤ 16) {c : UInt16} (hc : c.toNat < 2 ^ n) (x : Bigint) :
    (carryout n c x).toNat < 2 ^ n := by
  cases x with
  | nil => exact hc
  | cons d x => exact (toNat_spill hn d).2

/-- **What the loop of `lshift` does to the value**: the bits that leave each digit are gone, and
are put two places lower. -/
theorem value_raise {n : Nat} (hn : n ≤ 16) {c : UInt16} (hc : c.toNat < 2 ^ n) (d : UInt16)
    (x : Bigint) : value (raise n c (d :: x)) + 65536 * value ((d :: x).map (spill n)) =
      2 ^ n * value (d :: x) + value (x.map (spill n) ++ [c]) := by
  induction x generalizing d with
  | nil =>
    have hdigit := toNat_raised hn d c hc
    simp only [raise, carryout, List.map_cons, List.map_nil, List.nil_append, value]
    omega
  | cons e x ih =>
    have hdigit := toNat_raised hn d (spill n e) (toNat_spill hn e).2
    have hrest := ih e
    have hraise : value (raise n c (d :: e :: x)) =
        (UInt16.ofNat (d.toNat <<< n ||| (spill n e).toNat)).toNat +
          65536 * value (raise n c (e :: x)) := rfl
    have hspill : value ((d :: e :: x).map (spill n)) =
        (spill n d).toNat + 65536 * value ((e :: x).map (spill n)) := rfl
    have hcarries : value ((e :: x).map (spill n) ++ [c]) =
        (spill n e).toNat + 65536 * value (x.map (spill n) ++ [c]) := rfl
    have hval : value (d :: e :: x) = d.toNat + 65536 * value (e :: x) := rfl
    rw [hraise, hspill, hcarries, hval]
    calc _ = ((UInt16.ofNat (d.toNat <<< n ||| (spill n e).toNat)).toNat +
            65536 * (spill n d).toNat) +
          65536 * (value (raise n c (e :: x)) + 65536 * value ((e :: x).map (spill n))) := by ring
      _ = _ := by
        rw [hdigit, hrest]
        ring

/-! ## Where it does not matter where the bits go -/

/-- A word that may be written before or after two zeros is nothing but zeros, and one that may be
written before or after a zero and something else is made of such pairs. -/
theorem commutes_pair {c : UInt16} : ∀ {w : List UInt16}, w ++ [0, c] = 0 :: c :: w →
    (c = 0 ∧ ∀ d ∈ w, d = 0) ∨ ∃ k, w = (List.replicate k [0, c]).flatten
  | [], _ => .inr ⟨0, rfl⟩
  | [a], h => by
    obtain ⟨rfl, h⟩ := List.cons.inj h
    obtain ⟨rfl, -⟩ := List.cons.inj h
    exact .inl ⟨rfl, by simp⟩
  | a :: b :: w, h => by
    obtain ⟨rfl, h⟩ := List.cons.inj h
    obtain ⟨rfl, h⟩ := List.cons.inj h
    obtain ⟨hb, hall⟩ | ⟨k, hw⟩ := commutes_pair h
    · refine .inl ⟨hb, fun d hd => ?_⟩
      obtain rfl | hd := List.mem_cons.mp hd
      · rfl
      · obtain rfl | hd := List.mem_cons.mp hd
        · exact hb
        · exact hall d hd
    · refine .inr ⟨k + 1, ?_⟩
      rw [hw, List.replicate_succ, List.flatten_cons]
      rfl

theorem pairs_commute (c : UInt16) (k : Nat) : (List.replicate k [0, c]).flatten ++ [0, c] =
    0 :: c :: (List.replicate k [0, c]).flatten := by
  induction k with
  | zero => rfl
  | succ k ih =>
    rw [List.replicate_succ, List.flatten_cons, List.append_assoc, ih]
    rfl

theorem spills_iff {n : Nat} {d : UInt16} {x : Bigint} : Spills n (d :: x) ↔
    x.map (spill n) ++ [0, spill n d] = 0 :: (d :: x).map (spill n) := by
  rw [List.map_cons]
  refine ⟨?_, fun h => ?_⟩
  · rintro (hzero | ⟨c, k, hmap⟩)
    · have hx : x.map (spill n) = List.replicate x.length 0 := by
        rw [List.eq_replicate_iff]
        refine ⟨List.length_map _, fun e he => ?_⟩
        obtain ⟨b, hb, rfl⟩ := List.mem_map.mp he
        exact hzero b (List.mem_cons_of_mem _ hb)
      have hd := hzero d (.head _)
      rw [hd, hx]
      have hpair : ([0, 0] : List UInt16) = List.replicate 2 0 := rfl
      rw [hpair, List.replicate_append_replicate]
      rfl
    · rw [List.map_cons] at hmap
      obtain ⟨hd, hx⟩ := List.cons.inj hmap
      rw [hd, hx]
      exact pairs_commute c k
  · obtain ⟨hd, hall⟩ | ⟨k, hx⟩ := commutes_pair h
    · refine .inl fun e he => ?_
      obtain rfl | he := List.mem_cons.mp he
      · exact hd
      · exact hall _ (List.mem_map_of_mem he)
    · refine .inr ⟨spill n d, k, ?_⟩
      rw [List.map_cons, hx]

theorem length_raise (n : Nat) (c : UInt16) (x : Bigint) : (raise n c x).length = x.length := by
  induction x with
  | nil => rfl
  | cons d x ih => rw [raise, List.length_cons, ih, List.length_cons]

theorem raise_append (n : Nat) (c : UInt16) (x : Bigint) (d : UInt16) : raise n c (x ++ [d]) =
    raise n (spill n d) x ++ [UInt16.ofNat (d.toNat <<< n ||| c.toNat)] := by
  induction x with
  | nil => rfl
  | cons e x ih =>
    rw [List.cons_append, raise, ih, raise, List.cons_append]
    cases x <;> rfl

theorem carryout_append (n : Nat) (c : UInt16) (x : Bigint) (d : UInt16) :
    carryout n c (x ++ [d]) = carryout n (spill n d) x := by
  cases x <;> rfl

/-- The digits with the carry after them. -/
theorem value_raise_eq_iff {n : Nat} (hn : n ≤ 16) (d : UInt16) (x : Bigint) :
    value (raise n 0 (d :: x) ++ [spill n d]) = 2 ^ n * value (d :: x) ↔ Spills n (d :: x) := by
  have hzero : (0 : UInt16).toNat < 2 ^ n := Nat.two_pow_pos n
  have hraise := value_raise hn hzero d x
  have hlen : (x.map (spill n) ++ [0, spill n d]).length =
      (0 :: (d :: x).map (spill n)).length := by simp
  rw [spills_iff]
  have hleft : value (raise n 0 (d :: x) ++ [spill n d]) =
      value (raise n 0 (d :: x)) + 65536 ^ (x.length + 1) * (spill n d).toNat := by
    rw [value_append, length_raise]
    rfl
  have hright : value (0 :: (d :: x).map (spill n)) = 65536 * value ((d :: x).map (spill n)) := by
    rw [value]
    exact Nat.zero_add _
  have hput : value (x.map (spill n) ++ [0, spill n d]) = value (x.map (spill n) ++ [0]) +
      65536 ^ (x.length + 1) * (spill n d).toNat := by
    have happ : x.map (spill n) ++ [0, spill n d] = (x.map (spill n) ++ [0]) ++ [spill n d] := by
      simp
    rw [happ, value_append, List.length_append, List.length_map]
    rfl
  refine ⟨fun h => eq_of_value_of_length hlen ?_, fun h => ?_⟩
  · rw [hleft] at h
    omega
  · have hval := congrArg value h
    rw [hleft]
    omega

/-- A shift to the left of some digits is one by whole digits of one by less. -/
theorem value_lshift {d : UInt16} {x : Bigint} {n : Nat} (hn : n ≠ 0) :
    value (lshift (d :: x) n) =
      65536 ^ (n / 16) * value (raise (n % 16) 0 (d :: x) ++ [spill (n % 16) d]) := by
  have hne : ¬(d :: x = [] ∨ n = 0) := by simp [hn]
  rw [lshift, if_neg hne]
  dsimp only
  rw [List.append_assoc, value_append, value_replicate_zero, List.length_replicate, Nat.zero_add,
    carryout]
  split
  · next hzero =>
    rw [hzero, value_append, value_append]
    simp [value]
  · rfl

/-- **The digits of a shift to the left** are right where it does not matter where the bits that
leave a digit go. -/
theorem lshift_iff {x : Bigint} (h : Shrunk x) (n : Nat) :
    (value (lshift x n) = value x * 2 ^ n ∧ Shrunk (lshift x n)) ↔ Spills (n % 16) x := by
  cases x with
  | nil => exact ⟨fun _ => .inl nofun, fun _ => ⟨(Nat.zero_mul _).symm, h⟩⟩
  | cons d x =>
    by_cases hn : n = 0
    · subst hn
      have hnone : Spills 0 (d :: x) := by
        refine .inl fun e _ => ?_
        have hlt := (toNat_spill (Nat.zero_le 16) e).2
        rw [← UInt16.toNat_inj]
        exact Nat.lt_one_iff.mp hlt
      exact ⟨fun _ => hnone, fun _ => ⟨(Nat.mul_one _).symm, h⟩⟩
    · have hpow : value (d :: x) * 2 ^ n =
          65536 ^ (n / 16) * (2 ^ (n % 16) * value (d :: x)) := by
        have hbase : (65536 : Nat) = 2 ^ 16 := rfl
        rw [← Nat.mul_assoc, hbase, ← pow_mul, ← pow_add, Nat.div_add_mod, Nat.mul_comm]
      have hiff := value_raise_eq_iff (show n % 16 ≤ 16 by omega) d x
      rw [value_lshift hn, hpow, Nat.mul_right_inj (pow_ne_zero _ (by decide)), hiff]
      refine ⟨fun hall => hall.1, fun hspills => ⟨hspills, shrunk_of_le ?_⟩⟩
      have hval := value_lshift (d := d) (x := x) hn
      have hlen : (lshift (d :: x) n).length = n / 16 + (x.length + 1) +
          (if spill (n % 16) d = 0 then 0 else 1) := by
        rw [lshift, if_neg (by simp [hn])]
        dsimp only [carryout]
        rw [List.length_append, List.length_append, List.length_replicate, length_raise]
        split <;> rfl
      by_cases hspill : spill (n % 16) d = 0
      · -- the number itself has no leading zeros
        rw [if_pos hspill] at hlen
        have hle := h.le_value (List.cons_ne_nil d x)
        rw [hval, hiff.mpr hspills, hlen]
        calc 65536 ^ (n / 16 + (x.length + 1) + 0 - 1)
            = 65536 ^ (n / 16) * 65536 ^ x.length := by
              rw [← pow_add]
              congr 1
          _ ≤ 65536 ^ (n / 16) * value (d :: x) := Nat.mul_le_mul_left _ hle
          _ ≤ 65536 ^ (n / 16) * (2 ^ (n % 16) * value (d :: x)) :=
              Nat.mul_le_mul_left _ (Nat.le_mul_of_pos_left _ (Nat.two_pow_pos _))
      · -- the carry is the highest digit
        rw [if_neg hspill] at hlen
        have hpos : 0 < (spill (n % 16) d).toNat := by
          refine Nat.pos_of_ne_zero fun hzero => hspill ?_
          rw [← UInt16.toNat_inj, hzero]
          rfl
        rw [hval, hlen, value_append, length_raise]
        calc 65536 ^ (n / 16 + (x.length + 1) + 1 - 1)
            = 65536 ^ (n / 16) * (65536 ^ (x.length + 1) * 1) := by
              rw [Nat.mul_one, ← pow_add]
              congr 1
          _ ≤ 65536 ^ (n / 16) * (65536 ^ (x.length + 1) * value [spill (n % 16) d]) :=
              Nat.mul_le_mul_left _ (Nat.mul_le_mul_left _ hpos)
          _ ≤ _ := Nat.mul_le_mul_left _ (Nat.le_add_left _ _)

end Bigint

namespace Bignums

variable {m : Bignums} {x : Nat}

/-! ## The loop of `rshift` -/

/-- **The loop of `rshift`** with some digits written. -/
theorem rshiftdigits_written (hx : (m x).Fits) {dig n : Nat} {rest ds : Bigint} (carry : UInt16)
    (hrest : (m x).used.drop (ds.length + dig + 1) = rest) :
    ∃ out c, Bigint.shiftdigits n carry.toNat rest = out ++ [c] ∧ out.length = rest.length ∧
      rshiftdigits x x dig n rest.length ds.length carry (m.written x ds) =
        some (m.written x (ds ++ out), c) := by
  induction rest generalizing ds carry with
  | nil =>
    refine ⟨[], carry, ?_, rfl, ?_⟩
    · rw [Bigint.shiftdigits, UInt16.ofNat_toNat, List.nil_append]
    · rw [List.append_nil]
      rfl
  | cons tmp rest ih =>
    have hlen := length_used hx
    have hin : ds.length + dig + 1 < (m x).used.length := by
      have := congrArg List.length hrest
      rw [List.length_drop, List.length_cons] at this
      omega
    have hroom : ds.length < (m x).digits.length := by
      have : (m x).len ≤ (m x).digits.length := hx
      omega
    have hdigit : (m.written x ds).digit x (ds.length + dig + 1) = some tmp := by
      rw [digit_written (by omega), digit_eq hx (by omega), hrest]
      rfl
    let e := UInt16.ofNat (tmp.toNat <<< (16 - n) ||| carry.toNat)
    have hnext : (m x).used.drop ((ds ++ [e]).length + dig + 1) = rest := by
      rw [List.length_append, List.length_singleton,
        show ds.length + 1 + dig + 1 = ds.length + dig + 1 + 1 by omega, ← List.drop_drop, hrest]
      rfl
    have hcarry : (UInt16.ofNat (tmp.toNat >>> n)).toNat = tmp.toNat >>> n := by
      rw [UInt16.toNat_ofNat', Nat.shiftRight_eq_div_pow]
      exact Nat.mod_eq_of_lt (Nat.lt_of_le_of_lt (Nat.div_le_self ..) tmp.toNat_lt)
    obtain ⟨out, c, hout, hlenout, hloop⟩ := ih (UInt16.ofNat (tmp.toNat >>> n)) hnext
    refine ⟨e :: out, c, ?_, by rw [List.length_cons, List.length_cons, hlenout], ?_⟩
    · rw [Bigint.shiftdigits, ← hcarry, hout]
      rfl
    · rw [List.length_append, List.length_singleton, List.append_assoc, List.singleton_append]
        at hloop
      rw [List.length_cons, rshiftdigits, hdigit]
      change (Bignums.put _ x ds.length e).bind _ = _
      rw [put_written hroom e]
      exact hloop

/-- The first digits of the array with some of them in use. -/
theorem stores_setlen {z : Bigint} {l : Nat} (hz : z.length ≤ (m x).digits.length)
    (hl : l ≤ z.length) : Stores m x (z.take l) ((m.written x z).setlen x l) where
  used := by
    rw [setlen, Function.update_self, digits_written, Bignum.used]
    exact List.take_append_of_le_length hl
  fits := by
    rw [setlen, Function.update_self, digits_written]
    exact hl.trans ((Nat.le_add_right _ _).trans_eq List.length_append.symm)
  room := by
    rw [setlen, Function.update_self, digits_written, List.length_append, List.length_drop]
    omega
  others v hv := by
    rw [setlen, Function.update_of_ne hv, written, write_of_ne hv]

theorem Stores.refl (hx : (m x).Fits) : Stores m x (m x).used m := ⟨rfl, hx, rfl, fun _ _ => rfl⟩

/-- **A shift to the right** by no more than there are digits. -/
theorem rshift_stores (hx : (m x).Fits) {n : Nat} (h : (m x).len = 0 ∨ n ≤ 16 * (m x).len) :
    ∃ m', m.rshift x x n = some m' ∧ Stores m x ((m x).used.rshift n) m' := by
  have hlen := length_used hx
  unfold rshift
  dsimp only
  by_cases htriv : (m x).len = 0 ∨ n = 0
  · have hsame : (m x).used.rshift n = (m x).used := by
      rw [Bigint.rshift, if_pos]
      exact htriv.imp_left fun hzero => List.eq_nil_of_length_eq_zero (hlen.trans hzero)
    rw [if_pos htriv, hsame]
    exact ⟨m, rfl, .refl hx⟩
  · have hn := h.resolve_left fun hzero => htriv (.inl hzero)
    have hpos : n ≠ 0 := fun hzero => htriv (.inr hzero)
    rw [if_neg htriv]
    obtain ⟨dig, k, hdig, hk, hk16⟩ : ∃ dig k, (n - 1) / 16 = dig ∧ (n - 1) % 16 + 1 = k ∧
        k ≤ 16 := ⟨_, _, rfl, rfl, by omega⟩
    have hlt : dig < (m x).len := by omega
    have hroom : (m x).len ≤ (m x).digits.length := hx
    rw [hdig, hk, digit_eq hx hlt]
    have hhead : ((m x).used.drop dig).headD 0 = (m x).used.getD dig 0 := by
      rw [List.headD_eq_head?_getD, List.head?_drop, List.getD_eq_getElem?_getD]
    rw [hhead]
    have hrest : (m x).used.drop (([] : Bigint).length + dig + 1) = (m x).used.drop (dig + 1) := by
      rw [List.length_nil, Nat.zero_add]
    obtain ⟨out, c, hout, hlenout, hloop⟩ := rshiftdigits_written (n := k) hx
      (UInt16.ofNat (((m x).used.getD dig 0).toNat >>> k)) hrest
    have hcarry : (UInt16.ofNat (((m x).used.getD dig 0).toNat >>> k)).toNat =
        ((m x).used.getD dig 0).toNat >>> k := by
      rw [UInt16.toNat_ofNat', Nat.shiftRight_eq_div_pow]
      exact Nat.mod_eq_of_lt (Nat.lt_of_le_of_lt (Nat.div_le_self ..) (UInt16.toNat_lt _))
    rw [List.length_drop, hlen, List.length_nil, written_nil, ← Nat.sub_sub] at hloop
    rw [List.length_drop, hlen, ← Nat.sub_sub] at hlenout
    have hshift : (m x).used.rshift n =
        Bigint.shrink ((out ++ [c]).take ((m x).len - (dig + k / 16))) := by
      rw [Bigint.rshift, if_neg, ← hout, hcarry]
      · dsimp only
        rw [hdig, hk, hlen]
      · rintro (hnil | hzero)
        · rw [hnil] at hlen
          exact htriv (.inl hlen.symm)
        · exact hpos hzero
    have hput : (m.written x out).put x ((m x).len - dig - 1) c =
        some (m.written x (out ++ [c])) := by
      rw [← hlenout]
      exact put_written (by omega) c
    have hall : (out ++ [c]).length = (m x).len - dig := by
      rw [List.length_append, List.length_singleton]
      omega
    refine ⟨((m.written x (out ++ [c])).setlen x ((m x).len - (dig + k / 16))).shrink x, ?_, ?_⟩
    · rw [List.nil_append] at hloop
      simp only [Option.bind_eq_bind, Option.bind_some, hloop, if_neg (Nat.not_le.mpr hlt), hput]
    · rw [hshift]
      exact Stores.shrink (stores_setlen (by omega) (by omega))

/-- A shift to the right by more writes before the array. -/
theorem rshift_eq_none {n : Nat} (hlen : (m x).len ≠ 0) (h : 16 * (m x).len < n) :
    m.rshift x x n = none := by
  have hdig : (m x).len ≤ (n - 1) / 16 := by omega
  have hzero : (m x).len - (n - 1) / 16 - 1 = 0 := by omega
  unfold rshift
  dsimp only
  rw [if_neg (by omega), hzero]
  cases m.digit x ((n - 1) / 16) with
  | none => rfl
  | some d => simp only [Option.bind_eq_bind, Option.bind_some, rshiftdigits, if_pos hdig,
      Option.bind_none]

/-! ## The loop of `lshift` -/

/-- Some digits of the array from a place on are these. -/
def raised (m : Bignums) (x p : Nat) (ds : Bigint) : Bignums :=
  m.write x ((m x).digits.take p ++ ds ++ (m x).digits.drop (p + ds.length))

theorem digits_raised {p : Nat} {ds : Bigint} : (m.raised x p ds x).digits =
    (m x).digits.take p ++ ds ++ (m x).digits.drop (p + ds.length) := by
  rw [raised, write_dst]

theorem raised_nil (p : Nat) : m.raised x p [] = m := by
  rw [raised, write, List.append_nil, List.length_nil, Nat.add_zero, List.take_append_drop,
    Function.update_eq_self]

/-- The digit below is written. -/
theorem put_raised {p : Nat} {ds : Bigint} (h : p < (m x).digits.length) (c : UInt16) :
    (m.raised x (p + 1) ds).put x p c = some (m.raised x p (c :: ds)) := by
  have htake : ((m x).digits.take p).length = p := List.length_take_of_le (le_of_lt h)
  have hroom : p < (m.raised x (p + 1) ds x).digits.length := by
    rw [digits_raised, List.length_append, List.length_append, List.length_take]
    omega
  rw [put, if_pos hroom, digits_raised, raised, write_write, List.take_succ_eq_append_getElem h,
    List.append_assoc, List.append_assoc, List.set_append_right _ _ (le_of_eq htake), htake,
    Nat.sub_self, List.singleton_append, List.set_cons_zero, raised, List.append_assoc,
    List.cons_append, List.length_cons, Nat.add_assoc, Nat.add_comm 1]

/-- The digits below are as before. -/
theorem digit_raised {p i : Nat} (ds : Bigint) (h : i < p) (hi : i < (m x).digits.length) :
    (m.raised x p ds).digit x i = m.digit x i := by
  unfold digit
  rw [digits_raised, List.append_assoc, List.getElem?_append_left (by rw [List.length_take]; omega),
    List.getElem?_take_of_lt h]

/-- **The loop of `lshift`** with some digits written. -/
theorem lshiftdigits_raised (hx : (m x).Fits) (dig n : Nat) : ∀ {i : Nat} (ds : Bigint)
    (carry : UInt16), i ≤ (m x).len → i + dig ≤ (m x).digits.length →
    lshiftdigits x x dig n i carry (m.raised x (i + dig) ds) =
      some (m.raised x dig (Bigint.raise n carry ((m x).used.take i) ++ ds),
        Bigint.carryout n carry ((m x).used.take i)) := by
  intro i
  induction i with
  | zero =>
    intro ds carry _ _
    rw [Nat.zero_add]
    rfl
  | succ i ih =>
    intro ds carry hi hroom
    have hlen := length_used hx
    have hcap : (m x).len ≤ (m x).digits.length := hx
    have hlt : i < (m x).used.length := by omega
    have hdigit : (m.raised x (i + 1 + dig) ds).digit x i = some (m x).used[i] := by
      rw [digit_raised ds (by omega) (by omega), digit_eq hx (by omega),
        List.drop_eq_getElem_cons hlt]
      rfl
    let e := UInt16.ofNat ((m x).used[i].toNat <<< n ||| carry.toNat)
    have hput : (m.raised x (i + 1 + dig) ds).put x (i + dig) e =
        some (m.raised x (i + dig) (e :: ds)) := by
      rw [Nat.add_right_comm]
      exact put_raised (by omega) e
    have hloop := ih (e :: ds) (Bigint.spill n (m x).used[i]) (by omega) (by omega)
    rw [lshiftdigits, hdigit]
    change (Bignums.put _ x (i + dig) e).bind _ = _
    rw [hput, List.take_succ_eq_append_getElem hlt, Bigint.raise_append, Bigint.carryout_append,
      List.append_assoc]
    exact hloop

/-- The next digit above is written. -/
theorem put_above (p : Nat) (ds : Bigint) (h : p + ds.length < (m x).digits.length) (c : UInt16) :
    (m.raised x p ds).put x (p + ds.length) c = some (m.raised x p (ds ++ [c])) := by
  have hlen : ((m x).digits.take p ++ ds).length = p + ds.length := by
    rw [List.length_append, List.length_take_of_le (by omega)]
  have hroom : p + ds.length < (m.raised x p ds x).digits.length := by
    rw [digits_raised, List.length_append, hlen, List.length_drop]
    omega
  rw [put, if_pos hroom, digits_raised, raised, write_write,
    List.set_append_right _ _ (le_of_eq hlen), hlen, Nat.sub_self, List.drop_eq_getElem_cons h,
    List.set_cons_zero, raised, List.length_append, List.length_singleton, Nat.add_assoc]
  simp only [List.append_assoc, List.singleton_append]

theorem setlen_setlen (l l' : Nat) : (m.setlen x l).setlen x l' = m.setlen x l' := by
  simp only [setlen, Function.update_idem, Function.update_self]

theorem put_setlen (l i : Nat) (c : UInt16) :
    (m.setlen x l).put x i c = (m.put x i c).map fun m => m.setlen x l := by
  simp only [put, setlen, write, Function.update_self, Function.update_idem]
  split <;> simp

/-- A number whose first digits are these, and in use. -/
theorem stores_update {z rest : Bigint} (h : z.length + rest.length = (m x).digits.length) :
    Stores m x z (Function.update m x ⟨z.length, z ++ rest⟩) where
  used := by rw [Function.update_self, Bignum.used, List.take_left]
  fits := by
    rw [Function.update_self]
    exact (Nat.le_add_right _ _).trans_eq List.length_append.symm
  room := by rw [Function.update_self, List.length_append, h]
  others v hv := Function.update_of_ne hv ..

theorem setlen_raised (p l : Nat) (ds : Bigint) : (m.raised x p ds).setlen x l =
    Function.update m x ⟨l, (m x).digits.take p ++ ds ++ (m x).digits.drop (p + ds.length)⟩ := by
  rw [setlen, digits_raised, raised, write, Function.update_idem]

/-- The number with the digits that are written from a place on, and zeros below. -/
theorem stores_cleared (p : Nat) (ds : Bigint) (h : p + ds.length ≤ (m x).digits.length) :
    ∃ m', (if p = 0 then some ((m.raised x p ds).setlen x (p + ds.length))
        else ((m.raised x p ds).setlen x (p + ds.length)).clear x p) = some m' ∧
      Stores m x (List.replicate p 0 ++ ds) m' := by
  have hstores : Stores m x (List.replicate p 0 ++ ds) (Function.update m x
      ⟨p + ds.length, List.replicate p 0 ++ ds ++ (m x).digits.drop (p + ds.length)⟩) := by
    have hlen : (List.replicate p 0 ++ ds).length = p + ds.length := by
      rw [List.length_append, List.length_replicate]
    rw [← hlen]
    exact stores_update (by rw [List.length_drop]; omega)
  refine ⟨_, ?_, hstores⟩
  rw [setlen_raised]
  split
  · next hp =>
    subst hp
    rfl
  · have htake : ((m x).digits.take p).length = p := List.length_take_of_le (by omega)
    rw [clear, Function.update_self, if_pos (by simp [htake]), write, Function.update_idem,
      Function.update_self, List.append_assoc, List.append_assoc, List.drop_left' htake]

/-- **A shift to the left** with room for the digits that are shifted: there is room for the carry,
too, or it is written behind the array. -/
theorem lshift_cases (hx : (m x).Fits) {n : Nat}
    (hroom : (m x).len ≠ 0 → (m x).len + n / 16 ≤ (m x).digits.length) :
    (∃ m', m.lshift x x n = some m' ∧ Stores m x (Bigint.lshift (m x).used n) m') ∨
      m.lshift x x n = none ∧ (m x).digits.length < (Bigint.lshift (m x).used n).length := by
  have hlen := length_used hx
  unfold lshift
  dsimp only
  by_cases htriv : (m x).len = 0 ∨ n = 0
  · have hsame : Bigint.lshift (m x).used n = (m x).used := by
      rw [Bigint.lshift, if_pos]
      exact htriv.imp_left fun hzero => List.eq_nil_of_length_eq_zero (hlen.trans hzero)
    rw [if_pos htriv, hsame]
    exact .inl ⟨m, rfl, .refl hx⟩
  · have hused : ¬((m x).used = [] ∨ n = 0) := by
      rintro (hnil | hzero)
      · rw [hnil] at hlen
        exact htriv (.inl hlen.symm)
      · exact htriv (.inr hzero)
    have hroom := hroom fun hzero => htriv (.inl hzero)
    rw [Bigint.lshift, if_neg hused, if_neg htriv]
    dsimp only
    generalize n / 16 = dig at hroom ⊢
    generalize n % 16 = k
    have hraise := Bigint.length_raise k 0 (m x).used
    have hloop := lshiftdigits_raised hx dig k [] 0 (le_refl _) hroom
    rw [raised_nil, List.append_nil, ← hlen, List.take_length] at hloop
    rw [← hlen, hloop]
    generalize hc : Bigint.carryout k 0 (m x).used = c at hloop ⊢
    generalize Bigint.raise k 0 (m x).used = ds at hraise hloop ⊢
    rw [← hraise] at hloop ⊢
    have hlength : (m x).used.length + dig = dig + ds.length := by omega
    simp only [Option.bind_eq_bind, Option.bind_some]
    rw [hraise, hlength]
    by_cases hcarry : c = 0
    · obtain ⟨m', hm', hstores⟩ := stores_cleared (m := m) (x := x) dig ds (by omega)
      refine .inl ⟨m', ?_, ?_⟩
      · simp only [if_pos hcarry]
        exact hm'
      · rw [if_pos hcarry, List.append_nil]
        exact hstores
    · have htop : dig + (ds ++ [c]).length = dig + ds.length + 1 := by
        rw [List.length_append, List.length_singleton, Nat.add_assoc]
      by_cases hfit : dig + (ds ++ [c]).length ≤ (m x).digits.length
      · obtain ⟨m', hm', hstores⟩ := stores_cleared dig (ds ++ [c]) hfit
        have hput := put_above (m := m) (x := x) dig ds (by omega) c
        refine .inl ⟨m', ?_, ?_⟩
        · simp only [if_neg hcarry, put_setlen, hput, Option.map_some, setlen_setlen]
          rw [← htop]
          exact hm'
        · rw [if_neg hcarry, List.append_assoc]
          exact hstores
      · -- the carry is behind the array
        have hput : (m.raised x dig ds).put x (dig + ds.length) c = none := by
          have htake : ((m x).digits.take dig).length = dig := List.length_take_of_le (by omega)
          rw [put, digits_raised, if_neg]
          simp only [List.length_append, htake, List.length_drop]
          omega
        refine .inr ⟨?_, ?_⟩
        · simp only [if_neg hcarry, put_setlen, hput, Option.map_none]
          split <;> rfl
        · rw [if_neg hcarry, List.append_assoc, List.length_append, List.length_replicate]
          omega

/-! ## Shifts in place -/

/-- There is room for the digits that are shifted where there is for the number. -/
theorem room_of_fits (hx : (m x).Fits) (hshrunk : (m x).used.Shrunk) {n : Nat}
    (hfits : (m x).used.value * 2 ^ n < 65536 ^ (m x).digits.length) (hne : (m x).len ≠ 0) :
    (m x).len + n / 16 ≤ (m x).digits.length := by
  have hlen := length_used hx
  have hle := hshrunk.le_value fun hnil => hne (by rw [← hlen, hnil]; rfl)
  have hpow : 65536 ^ (n / 16) ≤ 2 ^ n := by
    have hbase : (65536 : Nat) = 2 ^ 16 := rfl
    rw [hbase, ← pow_mul]
    exact Nat.pow_le_pow_right (by decide) (Nat.mul_div_le n 16)
  have hlt : 65536 ^ ((m x).len - 1 + n / 16) < 65536 ^ (m x).digits.length := by
    rw [pow_add, ← hlen]
    exact Nat.lt_of_le_of_lt (Nat.mul_le_mul hle hpow) hfits
  have := (Nat.pow_lt_pow_iff_right (by decide)).mp hlt
  omega

/-- **Shifts in place.**  A shift to the right divides unless it is by more than there are digits,
and one to the left multiplies if it does not matter where the bits go that leave a digit. -/
theorem shifts_exact (m : Bignums) (x n : Nat) (hx : (m x).Fits) (hshrunk : (m x).used.Shrunk) :
    ((∃ z m', m.rshift x x n = some m' ∧ Stores m x z m' ∧ z.value = (m x).used.value / 2 ^ n ∧
        z.Shrunk) ↔ (m x).len = 0 ∨ n ≤ 16 * (m x).len) ∧
    ((m x).used.value * 2 ^ n < 65536 ^ (m x).digits.length →
      ((∃ z m', m.lshift x x n = some m' ∧ Stores m x z m' ∧
        z.value = (m x).used.value * 2 ^ n ∧ z.Shrunk) ↔ Bigint.Spills (n % 16) (m x).used)) := by
  have hlen := length_used hx
  refine ⟨⟨?_, fun h => ?_⟩, fun hfits => ?_⟩
  · rintro ⟨z, m', hrun, -⟩
    by_contra hno
    rw [not_or, Nat.not_le] at hno
    rw [rshift_eq_none hno.1 hno.2] at hrun
    cases hrun
  · obtain ⟨m', hrun, hstores⟩ := rshift_stores hx h
    refine ⟨_, m', hrun, hstores, ?_, Bigint.shrunk_rshift hshrunk n⟩
    obtain hzero | hn := h
    · rw [List.eq_nil_of_length_eq_zero (hlen.trans hzero)]
      exact (Nat.zero_div _).symm
    · exact Bigint.value_rshift _ (by rwa [hlen])
  · rw [← Bigint.lshift_iff hshrunk n]
    have hcases := lshift_cases hx (room_of_fits hx hshrunk hfits)
    refine ⟨?_, fun ⟨hval, hsh⟩ => ?_⟩
    · rintro ⟨z, m', hrun, hstores, hval, hsh⟩
      obtain ⟨m'', hrun', hstores'⟩ | ⟨hnone, -⟩ := hcases
      · obtain rfl := Option.some.inj (hrun.symm.trans hrun')
        rw [← hstores'.used, hstores.used]
        exact ⟨hval, hsh⟩
      · rw [hnone] at hrun
        cases hrun
    · obtain ⟨m', hrun, hstores⟩ | ⟨-, hroom⟩ := hcases
      · exact ⟨_, m', hrun, hstores, hval, hsh⟩
      · rw [← hval] at hfits
        have := hsh.length_le hfits
        omega

/-- A number of one digit is doubled into two, and halved. -/
theorem shifts_exact_digit :
    (∃ z m', Bignums.rshift (fun _ => ⟨1, [32768, 0]⟩) 0 0 1 = some m' ∧
      Stores (fun _ => ⟨1, [32768, 0]⟩) 0 z m' ∧ z.value = 32768 / 2 ^ 1 ∧ z.Shrunk) ∧
    ∃ z m', Bignums.lshift (fun _ => ⟨1, [32768, 0]⟩) 0 0 1 = some m' ∧
      Stores (fun _ => ⟨1, [32768, 0]⟩) 0 z m' ∧ z.value = 32768 * 2 ^ 1 ∧ z.Shrunk := by
  have hexact := shifts_exact (fun _ => ⟨1, [32768, 0]⟩) 0 1 (show 1 ≤ 2 by decide)
    (show [(32768 : UInt16)].getLast? ≠ some 0 by decide)
  refine ⟨hexact.1.mpr (.inr (show 1 ≤ 16 by decide)), (hexact.2 ?_).mpr (.inr ⟨1, 0, rfl⟩)⟩
  exact show 32768 * 2 ^ 1 < 65536 ^ 2 by decide

/-- A number of two digits is not doubled: the bit that leaves the lower digit is put above both;
and a shift to the right by more than there are digits writes before the array. -/
theorem shifts_not_exact :
    (¬∃ z m', Bignums.lshift (fun _ => ⟨2, [32768, 1, 0, 0]⟩) 0 0 1 = some m' ∧
      Stores (fun _ => ⟨2, [32768, 1, 0, 0]⟩) 0 z m' ∧
        z.value = Bigint.value [32768, 1] * 2 ^ 1) ∧
    Bignums.rshift (fun _ => ⟨1, [5, 0, 0, 0]⟩) 0 0 17 = none := by
  have hdouble : (Bignums.lshift (fun _ => ⟨2, [32768, 1, 0, 0]⟩) 0 0 1).map
      (fun m => (m 0).used) = some [0, 2, 1] := by decide +kernel
  refine ⟨?_, by rfl⟩
  rintro ⟨z, m', hrun, hstores, hval⟩
  rw [hrun, Option.map_some, hstores.used] at hdouble
  obtain rfl := Option.some.inj hdouble
  revert hval
  decide

end Bignums

end QServ
