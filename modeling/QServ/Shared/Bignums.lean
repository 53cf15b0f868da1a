import Mathlib.Logic.Function.Basic
import QServ.Lib.Loop
import QServ.Shared.Digits

/-!
# Big numbers in their arrays

The operations of `bigint` of `shared/crypto.cpp` on numbers with a length and an array of a fixed
size, of which one is the destination and may be an operand, too.  A digit outside its array is
none.

* `Bignums.add`, `Bignums.sub`, `Bignums.mul`: the loops.
* `Stores`: the destination has the digits that the operation on digits alone gives, and no other
  number is changed.
* `bignums_exact`: they are the operations on natural numbers.
-/

namespace QServ

/-- A `bigint` of `digits.length` digits. -/
structure Bignum where
  len : Nat
  digits : List UInt16
deriving DecidableEq, Repr

namespace Bignum

/-- `digits[0]` up to `digits[len-1]`. -/
def used (x : Bignum) : Bigint := x.digits.take x.len

/-- The digits in use are in the array. -/
def Fits (x : Bignum) : Prop := x.len ≤ x.digits.length

/-- The loop of `shrink` from a length on. -/
def shrinklen (digits : List UInt16) : Nat → Nat
  | 0 => 0
  | len + 1 => if digits.getD len 0 = 0 then shrinklen digits len else len + 1

/-- `shrink()`. -/
def shrink (x : Bignum) : Bignum := { x with len := shrinklen x.digits x.len }

/-- These digits are put into the array. -/
def filled (x : Bignum) (z : Bigint) : Bignum := ⟨z.length, z ++ x.digits.drop z.length⟩

end Bignum

/-- The numbers of a program. -/
abbrev Bignums := Nat → Bignum

namespace Bignums

open Loop

/-! ## The operations -/

/-- `x.digits[i]`. -/
def digit (m : Bignums) (x i : Nat) : Option UInt16 := (m x).digits[i]?

/-- `i < x.len ? x.digits[i] : 0`. -/
def digitbelow (m : Bignums) (x i : Nat) : Option UInt16 :=
  if i < (m x).len then m.digit x i else some 0

/-- The array of a number as it is after writes. -/
def write (m : Bignums) (dst : Nat) (digits : List UInt16) : Bignums :=
  Function.update m dst ⟨(m dst).len, digits⟩

/-- `digits[i] = d`. -/
def put (m : Bignums) (dst i : Nat) (d : UInt16) : Option Bignums :=
  if i < (m dst).digits.length then
    some (m.write dst ((m dst).digits.set i d))
  else none

/-- `if(i < x.len && this != &x) memcpy(&digits[i], &x.digits[i], (x.len - i)*sizeof(digit));` -/
def copyrest (m : Bignums) (dst x i : Nat) : Option Bignums :=
  if i < (m x).len ∧ dst ≠ x then
    if (m x).len ≤ (m dst).digits.length then
      some (m.write dst ((m dst).digits.take i ++ (m x).used.drop i ++
        (m dst).digits.drop (m x).len))
    else none
  else some m

/-- `len = n`. -/
def setlen (m : Bignums) (dst n : Nat) : Bignums :=
  Function.update m dst ⟨n, (m dst).digits⟩

/-- `shrink()`. -/
def shrink (m : Bignums) (dst : Nat) : Bignums := Function.update m dst (m dst).shrink

/-- A round of the loop of `add`, with `carry` and `i`. -/
def addstep (dst x y : Nat) :
    Bignums × Dbldigit × Nat → Option ((Bignums × Dbldigit × Nat) ⊕ (Bignums × Nat))
  | (m, carry, i) =>
    if i < (m y).len ∨ carry ≠ 0 then do
      let d ← m.digitbelow x i
      let e ← m.digitbelow y i
      let carry := carry + (d.toUInt32 + e.toUInt32)
      let m ← m.put dst i carry.toUInt16
      some (.inl (m, carry >>> 16, i + 1))
    else some (.inr (m, i))

/-- More rounds than there are digits in both, and one for the carry. -/
def rounds (m : Bignums) (x y : Nat) : Nat := (m x).len + (m y).len + 2

/-- `add(x, y)`. -/
def add (m : Bignums) (dst x y : Nat) : Option Bignums := do
  let maxlen := max (m x).len (m y).len
  let (m, i) ← loop (addstep dst x y) (m.rounds x y) (m, 0, 0)
  let m ← m.copyrest dst x i
  some (m.setlen dst (max i maxlen))

/-- A round of the loop of `sub`, with `borrow` and `i`. -/
def substep (dst x y : Nat) :
    Bignums × Dbldigit × Nat → Option ((Bignums × Dbldigit × Nat) ⊕ (Bignums × Nat))
  | (m, borrow, i) =>
    if i < (m y).len ∨ borrow ≠ 0 then do
      let d ← m.digit x i
      let e ← m.digitbelow y i
      let borrow := 65536 + d.toUInt32 - e.toUInt32 - borrow
      let m ← m.put dst i borrow.toUInt16
      some (.inl (m, borrow >>> 16 ^^^ 1, i + 1))
    else some (.inr (m, i))

/-- `sub(x, y)`, of which it is asserted that `x >= y`. -/
def sub (m : Bignums) (dst x y : Nat) : Option Bignums := do
  let (m, i) ← loop (substep dst x y) (m.rounds x y) (m, 0, 0)
  let m ← m.copyrest dst x i
  some ((m.setlen dst (m x).len).shrink dst)

/-- `memset(digits, 0, n*sizeof(digit));` -/
def clear (m : Bignums) (dst n : Nat) : Option Bignums :=
  if n ≤ (m dst).digits.length then
    some (m.write dst (List.replicate n 0 ++ (m dst).digits.drop n))
  else none

/-- The loop over the digits of `y` in `mul`, from `j` on with so many to come. -/
def multiplydigit (dst x y i : Nat) :
    Nat → Nat → Dbldigit → Bignums → Option (Bignums × Dbldigit)
  | 0, _, carry, m => some (m, carry)
  | n + 1, j, carry, m => do
    let d ← m.digit x i
    let e ← m.digit y j
    let a ← m.digit dst (i + j)
    let carry := carry + (d.toUInt32 * e.toUInt32 + a.toUInt32)
    let m ← m.put dst (i + j) carry.toUInt16
    multiplydigit dst x y i n (j + 1) (carry >>> 16) m

/-- The loop over the digits of `x` in `mul`, from `i` on with so many to come. -/
def multiply (dst x y : Nat) : Nat → Nat → Bignums → Option Bignums
  | 0, _, m => some m
  | n + 1, i, m => do
    let (m, carry) ← multiplydigit dst x y i (m y).len 0 0 m
    let m ← m.put dst (i + (m y).len) carry.toUInt16
    multiply dst x y n (i + 1) m

/-- `mul(x, y)`. -/
def mul (m : Bignums) (dst x y : Nat) : Option Bignums :=
  if (m x).len = 0 ∨ (m y).len = 0 then some (m.setlen dst 0)
  else do
    let m ← m.clear dst (m y).len
    let m ← multiply dst x y (m x).len 0 m
    some ((m.setlen dst ((m x).len + (m y).len)).shrink dst)

/-- `parse(s)`: `parsedigits` leaves an array that is too small as it is. -/
def parse (m : Bignums) (dst : Nat) (s : List Char) : Bignums :=
  shrink (Function.update m dst
    ((m dst).filled (Bigint.parsedigits (m dst).digits.length s))) dst

end Bignums

namespace Bigint

/-- The loops of `operator==`, from the highest digits on. -/
def same : List UInt16 → List UInt16 → Bool
  | d :: x, e :: y => if d ≠ e then false else same x y
  | _, _ => true

/-- `operator==`. -/
def eq (x y : Bigint) : Bool := if x.length ≠ y.length then false else same x.reverse y.reverse

/-- `operator!=`. -/
def ne (x y : Bigint) : Bool := !eq x y

/-- `operator>`. -/
def gt (x y : Bigint) : Bool := lt y x

/-- `operator<=`. -/
def le (x y : Bigint) : Bool := !lt y x

/-- `operator>=`. -/
def ge (x y : Bigint) : Bool := !lt x y

end Bigint

/-! ## Writes from the first digit on -/

namespace Bignums

section

variable {m : Bignums} {dst x y : Nat} {ds : Bigint}

theorem write_dst (m : Bignums) (dst : Nat) (ds : List UInt16) :
    m.write dst ds dst = ⟨(m dst).len, ds⟩ := Function.update_self ..

theorem write_of_ne {v : Nat} (h : v ≠ dst) (ds : List UInt16) : m.write dst ds v = m v :=
  Function.update_of_ne h ..

theorem len_write (m : Bignums) (dst : Nat) (ds : List UInt16) (v : Nat) :
    (m.write dst ds v).len = (m v).len := by
  by_cases h : v = dst
  · rw [h, write_dst]
  · rw [write_of_ne h]

theorem write_write (m : Bignums) (dst : Nat) (ds es : List UInt16) :
    (m.write dst ds).write dst es = m.write dst es := by
  unfold write
  rw [Function.update_idem, Function.update_self]

/-- The first digits of the array are these. -/
def written (m : Bignums) (dst : Nat) (ds : Bigint) : Bignums :=
  m.write dst (ds ++ (m dst).digits.drop ds.length)

theorem written_nil (m : Bignums) (dst : Nat) : m.written dst [] = m := by
  rw [written, write, List.nil_append, List.length_nil, List.drop_zero, Function.update_eq_self]

theorem len_written (v : Nat) : (m.written dst ds v).len = (m v).len := len_write ..

theorem digits_written : (m.written dst ds dst).digits = ds ++ (m dst).digits.drop ds.length := by
  rw [written, write_dst]

/-- The next digit is written. -/
theorem put_written (h : ds.length < (m dst).digits.length) (c : UInt16) :
    (m.written dst ds).put dst ds.length c = some (m.written dst (ds ++ [c])) := by
  have hroom : ds.length < (m.written dst ds dst).digits.length := by
    rw [digits_written, List.length_append, List.length_drop]
    omega
  rw [put, if_pos hroom, digits_written, written, write_write, List.set_append_right _ _ le_rfl,
    Nat.sub_self, List.drop_eq_getElem_cons h, List.set_cons_zero, written, List.append_assoc,
    List.singleton_append, List.length_append, List.length_singleton]

/-- The digits behind are as before. -/
theorem digit_written {i : Nat} (h : ds.length ≤ i) (v : Nat) :
    (m.written dst ds).digit v i = m.digit v i := by
  unfold digit
  by_cases hv : v = dst
  · rw [hv, digits_written, List.getElem?_append_right h, List.getElem?_drop,
      Nat.add_sub_cancel' h]
  · rw [written, write_of_ne hv]

theorem digitbelow_written {i : Nat} (h : ds.length ≤ i) (v : Nat) :
    (m.written dst ds).digitbelow v i = m.digitbelow v i := by
  unfold digitbelow
  rw [len_written, digit_written h]

theorem digit_eq (h : (m x).Fits) {i : Nat} (hi : i < (m x).len) :
    m.digit x i = some (((m x).used.drop i).headD 0) := by
  have hlt : i < (m x).digits.length := lt_of_lt_of_le hi h
  rw [digit, Bignum.used, List.headD_eq_head?_getD, List.head?_drop,
    List.getElem?_take_of_lt hi, List.getElem?_eq_getElem hlt]
  rfl

theorem length_used (h : (m x).Fits) : (m x).used.length = (m x).len := by
  rw [Bignum.used, List.length_take, Nat.min_eq_left h]

theorem digitbelow_eq (h : (m x).Fits) (i : Nat) :
    m.digitbelow x i = some (((m x).used.drop i).headD 0) := by
  unfold digitbelow
  split
  · next hi => exact digit_eq h hi
  · next hi =>
    have hlen := length_used h
    rw [List.drop_of_length_le (by omega)]
    rfl

/-- The destination with the first digits of the array in use. -/
def stored (m : Bignums) (dst : Nat) (z : Bigint) : Bignums :=
  (m.written dst z).setlen dst z.length

/-- The destination has these digits, and the other numbers are as they were. -/
structure Stores (m : Bignums) (dst : Nat) (z : Bigint) (m' : Bignums) : Prop where
  used : (m' dst).used = z
  fits : (m' dst).Fits
  room : (m' dst).digits.length = (m dst).digits.length
  others : ∀ v, v ≠ dst → m' v = m v

theorem stored_dst {z : Bigint} :
    m.stored dst z dst = ⟨z.length, z ++ (m dst).digits.drop z.length⟩ := by
  rw [stored, setlen, Function.update_self, digits_written]

theorem stores_stored {z : Bigint} (h : z.length ≤ (m dst).digits.length) :
    Stores m dst z (m.stored dst z) where
  used := by rw [stored_dst, Bignum.used, List.take_left]
  fits := by
    rw [stored_dst]
    exact (Nat.le_add_right _ _).trans_eq List.length_append.symm
  room := by
    rw [stored_dst, List.length_append, List.length_drop]
    omega
  others v hv := by
    rw [stored, setlen, Function.update_of_ne hv, written, write_of_ne hv]

theorem shrinklen_le (digits : List UInt16) (n : Nat) : Bignum.shrinklen digits n ≤ n := by
  induction n with
  | zero => exact le_rfl
  | succ n ih =>
    rw [Bignum.shrinklen]
    split <;> omega

theorem take_shrinklen (digits : List UInt16) : ∀ {n : Nat}, n ≤ digits.length →
    digits.take (Bignum.shrinklen digits n) = Bigint.shrink (digits.take n) := by
  intro n
  induction n with
  | zero => exact fun _ => rfl
  | succ n ih =>
    intro h
    have hn : n < digits.length := h
    rw [Bignum.shrinklen, List.getD_eq_getElem?_getD, List.getElem?_eq_getElem hn,
      Option.getD_some, Bigint.shrink, List.take_succ_eq_append_getElem hn]
    split
    · next hzero =>
      rw [ih (by omega), hzero, List.rdropWhile_concat_pos _ _ _ (by simp), Bigint.shrink]
    · next hzero =>
      rw [List.rdropWhile_concat_neg _ _ _ (by simpa using hzero),
        ← List.take_succ_eq_append_getElem hn]

theorem Stores.shrink {z : Bigint} {m' : Bignums} (h : Stores m dst z m') :
    Stores m dst (Bigint.shrink z) (m'.shrink dst) where
  used := by
    have hfits := h.fits
    rw [Bignums.shrink, Function.update_self, ← h.used]
    exact take_shrinklen _ hfits
  fits := by
    have hfits := h.fits
    rw [Bignums.shrink, Function.update_self]
    exact (shrinklen_le _ _).trans hfits
  room := by
    rw [Bignums.shrink, Function.update_self]
    exact h.room
  others v hv := by
    rw [Bignums.shrink, Function.update_of_ne hv]
    exact h.others v hv

/-- The rest of an operand is there, or is copied. -/
theorem copyrest_written (hx : (m x).Fits) {all : Bigint} {i : Nat} (hi : i ≤ all.length)
    (hroom : all.length ≤ (m dst).digits.length) (hrest : all.drop i = (m x).used.drop i) :
    (m.written dst (all.take i)).copyrest dst x i = some (m.written dst all) := by
  have hlen := length_used hx
  have htake : (all.take i).length = i := by rw [List.length_take, Nat.min_eq_left hi]
  have hall := congrArg List.length hrest
  rw [List.length_drop, List.length_drop, hlen] at hall
  unfold copyrest
  rw [len_written]
  by_cases hdst : dst = x
  · subst hdst
    rw [if_neg (fun h => h.2 rfl)]
    congr 1
    rw [written, written, htake]
    -- what is behind the digits that were written is the rest of the operand
    have hdigits : (m dst).digits.drop i = all.drop i ++ (m dst).digits.drop all.length := by
      by_cases hlt : i < (m dst).len
      · have hlenall : all.length = (m dst).len := by omega
        rw [hrest, hlenall, Bignum.used, List.drop_take]
        conv_lhs => rw [← List.take_append_drop ((m dst).len - i) ((m dst).digits.drop i)]
        rw [List.drop_drop, Nat.add_sub_cancel' (by omega)]
      · rw [List.drop_of_length_le (show all.length ≤ i by omega), List.nil_append]
        congr 1
        omega
    rw [hdigits, ← List.append_assoc, List.take_append_drop]
  · by_cases hlt : i < (m x).len
    · have hlenall : all.length = (m x).len := by omega
      have hcap : (m.written dst (all.take i) dst).digits.length = (m dst).digits.length := by
        rw [digits_written, List.length_append, List.length_drop, htake]
        omega
      have hother : m.written dst (all.take i) x = m x := by
        rw [written, write_of_ne (Ne.symm hdst)]
      rw [if_pos ⟨hlt, hdst⟩, hcap, if_pos (by omega), hother, digits_written]
      congr 1
      have hdrop : (all.take i ++ (m dst).digits.drop i).drop (m x).len =
          (m dst).digits.drop (m x).len := by
        rw [List.drop_append, List.drop_of_length_le (by omega), List.nil_append, List.drop_drop,
          htake]
        congr 1
        omega
      rw [written, write_write, written, htake, ← hrest, List.take_left' htake, hdrop,
        List.take_append_drop, hlenall]
    · rw [if_neg (fun h => hlt h.1), List.take_of_length_le (by omega)]

end

end Bignums


/-! ## The loops of `add` and `sub` -/

namespace Bigint

/-- A round of `addcarry`, as long as there are digits in `y` or a carry. -/
theorem addcarry_step {carry : Dbldigit} (hc : carry.toNat ≤ 1) (x y : Bigint)
    (h : y ≠ [] ∨ carry ≠ 0) : ∃ next : Dbldigit,
      next = carry + ((x.headD 0).toUInt32 + (y.headD 0).toUInt32) ∧ (next >>> 16).toNat ≤ 1 ∧
      addcarry carry x y = next.toUInt16 :: addcarry (next >>> 16) x.tail y.tail := by
  refine ⟨_, rfl, ?_, ?_⟩
  · have hx := (x.headD 0).toNat_lt
    have hy := (y.headD 0).toNat_lt
    have hsum : (carry + ((x.headD 0).toUInt32 + (y.headD 0).toUInt32)).toNat =
        carry.toNat + ((x.headD 0).toNat + (y.headD 0).toNat) := by
      simp only [UInt32.toNat_add, UInt16.toNat_toUInt32]
      omega
    have hsplit := toNat_split (carry + ((x.headD 0).toUInt32 + (y.headD 0).toUInt32))
    have hdigit := (carry + ((x.headD 0).toUInt32 + (y.headD 0).toUInt32)).toUInt16.toNat_lt
    omega
  · cases y with
    | cons e y => rfl
    | nil =>
      have hne : carry ≠ 0 := h.resolve_left fun h => h rfl
      have hzero : (([] : Bigint).headD 0).toUInt32 = 0 := rfl
      rw [hzero, UInt32.add_zero, addcarry, List.tail_nil, addcarry]
      cases x with
      | nil =>
        have hone : carry = 1 := by
          rw [ne_eq, ← UInt32.toNat_inj] at hne
          rw [← UInt32.toNat_inj]
          have h0 : (0 : UInt32).toNat = 0 := rfl
          have h1 : (1 : UInt32).toNat = 1 := rfl
          omega
        rw [hone]
        rfl
      | cons d x =>
        rw [ripple, if_neg hne]
        rfl

theorem Shrunk.drop {x : Bigint} (h : Shrunk x) : ∀ i, Shrunk (x.drop i)
  | 0 => h
  | i + 1 => by
    rw [← List.tail_drop]
    have hi := h.drop i
    cases hx : x.drop i with
    | nil => exact shrunk_nil
    | cons d ds =>
      rw [hx] at hi
      exact hi.tail

theorem addcarry_done (x : Bigint) : addcarry 0 x [] = x := by
  rw [addcarry]
  cases x with
  | nil => rfl
  | cons d x => rfl

/-- A round of `subborrow`, as long as there are digits in `y` or a borrow. -/
theorem subborrow_step {borrow : Dbldigit} {x y : Bigint} (hx : x ≠ []) (h : y ≠ [] ∨ borrow ≠ 0) :
    subborrow borrow x y =
      (65536 + (x.headD 0).toUInt32 - (y.headD 0).toUInt32 - borrow).toUInt16 ::
        subborrow ((65536 + (x.headD 0).toUInt32 - (y.headD 0).toUInt32 - borrow) >>> 16 ^^^ 1)
          x.tail y.tail := by
  obtain ⟨d, x, rfl⟩ := List.exists_cons_of_ne_nil hx
  cases y with
  | cons e y => rfl
  | nil =>
    have hne : borrow ≠ 0 := h.resolve_left fun h => h rfl
    have hzero : (([] : Bigint).headD 0).toUInt32 = 0 := rfl
    rw [subborrow, settle, if_neg hne, hzero, List.tail_nil, List.tail_cons, subborrow]
    rfl

theorem subborrow_done (x : Bigint) : subborrow 0 x [] = x := by
  rw [subborrow]
  cases x with
  | nil => rfl
  | cons d x => rfl

theorem length_subborrow (borrow : Dbldigit) {x y : Bigint} (h : y.length ≤ x.length) :
    (subborrow borrow x y).length = x.length := by
  have hsettle : ∀ (x : Bigint) (borrow : Dbldigit), (settle borrow x).length = x.length := by
    intro x
    induction x with
    | nil => exact fun _ => rfl
    | cons d x ih =>
      intro borrow
      rw [settle]
      split
      · rfl
      · rw [List.length_cons, ih, List.length_cons]
  induction y generalizing borrow x with
  | nil => rw [subborrow, hsettle]
  | cons e y ih =>
    cases x with
    | nil => simp at h
    | cons d x =>
      rw [subborrow, List.length_cons, ih _ (by simpa using h), List.length_cons]

end Bigint

namespace Bignums

open Loop

section

variable {m : Bignums} {dst x y : Nat} {all : Bigint}

/-- In the loop the first `i` of the digits that are computed are written; those to come are
computed from what is left of the operands. -/
structure Partway (compute : Dbldigit → Bigint → Bigint → Bigint) (m : Bignums) (dst x y : Nat)
    (all : Bigint) (s : Bignums × Dbldigit × Nat) : Prop where
  state : s.1 = m.written dst (all.take s.2.2)
  index : s.2.2 ≤ all.length
  rest : all.drop s.2.2 = compute s.2.1 ((m x).used.drop s.2.2) ((m y).used.drop s.2.2)
  carry : s.2.1.toNat ≤ 1

/-- The loop has ended. -/
structure Ended (m : Bignums) (dst x y : Nat) (all : Bigint) (r : Bignums × Nat) : Prop where
  state : r.1 = m.written dst (all.take r.2)
  index : r.2 ≤ all.length
  passed : (m y).len ≤ r.2
  rest : all.drop r.2 = (m x).used.drop r.2

theorem left_of_lt (hy : (m y).Fits) (i : Nat) : i < (m y).len ↔ (m y).used.drop i ≠ [] := by
  have hlen := length_used hy
  rw [ne_eq, List.drop_eq_nil_iff]
  omega

/-- One more digit. -/
theorem Partway.put {compute : Dbldigit → Bigint → Bigint → Bigint}
    {s : Bignums × Dbldigit × Nat} (h : Partway compute m dst x y all s)
    (hroom : all.length ≤ (m dst).digits.length) {c : UInt16} {rest : Bigint}
    (hrest : all.drop s.2.2 = c :: rest) :
    s.1.put dst s.2.2 c = some (m.written dst (all.take (s.2.2 + 1))) ∧
      s.2.2 + 1 ≤ all.length ∧ all.drop (s.2.2 + 1) = rest := by
  have hlt : s.2.2 < all.length := by
    by_contra hge
    rw [List.drop_of_length_le (by omega)] at hrest
    exact List.cons_ne_nil _ _ hrest.symm
  have hc : all[s.2.2] = c ∧ all.drop (s.2.2 + 1) = rest := by
    rw [List.drop_eq_getElem_cons hlt] at hrest
    exact List.cons.inj hrest
  have htake : (all.take s.2.2).length = s.2.2 := by rw [List.length_take, Nat.min_eq_left h.index]
  have hfits : (all.take s.2.2).length < (m dst).digits.length := by omega
  have hput := put_written hfits c
  rw [htake, ← hc.1, ← List.take_succ_eq_append_getElem hlt, hc.1, ← h.state] at hput
  exact ⟨hput, hlt, hc.2⟩

theorem Partway.digitbelow {compute : Dbldigit → Bigint → Bigint → Bigint}
    {s : Bignums × Dbldigit × Nat} (h : Partway compute m dst x y all s) {v : Nat}
    (hv : (m v).Fits) : s.1.digitbelow v s.2.2 = some (((m v).used.drop s.2.2).headD 0) := by
  rw [h.state, digitbelow_written (by rw [List.length_take]; omega), digitbelow_eq hv]

theorem tail_drop_used (v i : Nat) : ((m v).used.drop i).tail = (m v).used.drop (i + 1) := by
  rw [List.tail_drop]

theorem addstep_spec (hx : (m x).Fits) (hy : (m y).Fits)
    (hroom : all.length ≤ (m dst).digits.length) (s : Bignums × Dbldigit × Nat)
    (h : Partway Bigint.addcarry m dst x y all s) :
    Yields (addstep dst x y s)
      (Round (Partway Bigint.addcarry m dst x y all) (fun s => all.length - s.2.2)
        (Ended m dst x y all) s) := by
  obtain ⟨m', carry, i⟩ := s
  have hlen : (m' y).len = (m y).len := by
    have hstate := h.state
    dsimp only at hstate
    rw [hstate, len_written]
  unfold addstep
  dsimp only
  split
  · next hgo =>
    rw [hlen, left_of_lt hy] at hgo
    obtain ⟨next, hnext, hcarry, hcons⟩ :=
      Bigint.addcarry_step h.carry ((m x).used.drop i) ((m y).used.drop i) hgo
    obtain ⟨hput, hidx, hrest⟩ := h.put hroom (h.rest.trans hcons)
    have hd := h.digitbelow hx
    have he := h.digitbelow hy
    dsimp only at hput hd he hidx hrest
    refine ⟨.inl (m.written dst (all.take (i + 1)), next >>> 16, i + 1), ?_,
      ⟨rfl, hidx, ?_, hcarry⟩, ?_⟩
    · simp only [hd, he, ← hnext, hput, Option.bind_eq_bind, Option.bind_some]
    · rw [hrest, tail_drop_used, tail_drop_used]
    · dsimp only
      omega
  · next hstop =>
    rw [hlen] at hstop
    obtain ⟨hi, hcarry⟩ := not_or.mp hstop
    have hzero : carry = 0 := not_not.mp hcarry
    have hnil : (m y).used.drop i = [] := by
      rw [left_of_lt hy] at hi
      exact not_not.mp hi
    refine ⟨.inr (m', i), rfl, h.state, h.index, Nat.le_of_not_lt hi, ?_⟩
    have hrest := h.rest
    dsimp only at hrest
    rw [hrest, hzero, hnil, Bigint.addcarry_done]

theorem length_addcarry_le (carry : Dbldigit) (x y : Bigint) :
    (Bigint.addcarry carry x y).length ≤ max x.length y.length + 1 := by
  have hripple : ∀ (x : Bigint) (carry : Dbldigit),
      (Bigint.ripple carry x).length ≤ x.length + 1 := by
    intro x
    induction x with
    | nil =>
      intro carry
      rw [Bigint.ripple]
      split <;> simp
    | cons d x ih =>
      intro carry
      rw [Bigint.ripple]
      split
      · exact Nat.le_succ _
      · have := ih ((carry + d.toUInt32) >>> 16)
        simp only [List.length_cons]
        omega
  induction y generalizing carry x with
  | nil =>
    rw [Bigint.addcarry]
    have := hripple x carry
    simpa using this
  | cons e y ih =>
    rw [Bigint.addcarry]
    have := ih ((carry + ((x.headD 0).toUInt32 + e.toUInt32)) >>> 16) x.tail
    simp only [List.length_cons, List.length_tail] at this ⊢
    omega

/-- **`add`**, into any destination that has room for the digits. -/
theorem add_stores (hx : (m x).Fits) (hy : (m y).Fits)
    (hroom : (Bigint.add (m x).used (m y).used).length ≤ (m dst).digits.length) :
    ∃ m', m.add dst x y = some m' ∧ Stores m dst (Bigint.add (m x).used (m y).used) m' := by
  obtain ⟨all, hall⟩ : ∃ all, Bigint.add (m x).used (m y).used = all := ⟨_, rfl⟩
  rw [hall] at hroom ⊢
  have hlenx := length_used hx
  have hleny := length_used hy
  have hbound : all.length ≤ max (m x).len (m y).len + 1 := by
    rw [← hall, ← hlenx, ← hleny]
    exact length_addcarry_le ..
  have hstart : Partway Bigint.addcarry m dst x y all (m, 0, 0) :=
    ⟨by rw [List.take_zero, written_nil], Nat.zero_le _, hall.symm, Nat.zero_le _⟩
  obtain ⟨⟨m', i⟩, hloop, hstate, hidx, hpass, hrest⟩ := loop_spec _ _ _
    (addstep_spec hx hy hroom) (m.rounds x y) (m, 0, 0) hstart (by dsimp only; unfold rounds; omega)
  dsimp only at hstate hidx hpass hrest
  have hcopy := copyrest_written hx hidx hroom hrest
  have hmax : max i (max (m x).len (m y).len) = all.length := by
    have hlen := congrArg List.length hrest
    rw [List.length_drop, List.length_drop, hlenx] at hlen
    omega
  refine ⟨m.stored dst all, ?_, stores_stored hroom⟩
  simp only [add, hloop, hstate, hcopy, hmax, Option.bind_eq_bind, Option.bind_some, stored]

theorem substep_spec (hx : (m x).Fits) (hy : (m y).Fits) (hshrunk : (m y).used.Shrunk)
    (hroom : all.length ≤ (m dst).digits.length) (s : Bignums × Dbldigit × Nat)
    (h : Partway Bigint.subborrow m dst x y all s ∧
      Bigint.value ((m y).used.drop s.2.2) + s.2.1.toNat ≤ Bigint.value ((m x).used.drop s.2.2)) :
    Yields (substep dst x y s)
      (Round (fun s => Partway Bigint.subborrow m dst x y all s ∧
          Bigint.value ((m y).used.drop s.2.2) + s.2.1.toNat ≤ Bigint.value ((m x).used.drop s.2.2))
        (fun s => all.length - s.2.2) (Ended m dst x y all) s) := by
  obtain ⟨m', borrow, i⟩ := s
  obtain ⟨h, hle⟩ := h
  dsimp only at hle
  have hlen : (m' y).len = (m y).len := by
    have hstate := h.state
    dsimp only at hstate
    rw [hstate, len_written]
  unfold substep
  dsimp only
  split
  · next hgo =>
    rw [hlen, left_of_lt hy] at hgo
    -- what is left of `x` is not zero, so that there is a digit of it
    have hne : (m x).used.drop i ≠ [] := by
      intro hnil
      rw [hnil] at hle
      have hzero : Bigint.value [] = 0 := rfl
      rcases hgo with hy' | hb
      · refine hy' ((hshrunk.drop i).eq_nil ?_)
        omega
      · refine hb ?_
        rw [← UInt32.toNat_inj]
        have h0 : (0 : UInt32).toNat = 0 := rfl
        omega
    have hcarry : borrow.toNat ≤ 1 := h.carry
    have hcons := Bigint.subborrow_step hne hgo
    obtain ⟨hdigit, hborrow⟩ := Bigint.toNat_borrow hcarry (((m x).used.drop i).headD 0)
      (((m y).used.drop i).headD 0)
    obtain ⟨hput, hidx, hrest⟩ := h.put hroom (h.rest.trans hcons)
    have hd : m'.digit x i = some (((m x).used.drop i).headD 0) := by
      have hstate := h.state
      dsimp only at hstate
      rw [hstate, digit_written (by rw [List.length_take]; omega), digit_eq hx]
      rwa [left_of_lt hx]
    have he := h.digitbelow hy
    have hvx := Bigint.value_headD_tail ((m x).used.drop i)
    have hvy := Bigint.value_headD_tail ((m y).used.drop i)
    have hlt := (65536 + (((m x).used.drop i).headD 0).toUInt32 -
      (((m y).used.drop i).headD 0).toUInt32 - borrow).toUInt16.toNat_lt
    rw [tail_drop_used] at hvx hvy
    dsimp only at hput he hidx hrest
    refine ⟨.inl (m.written dst (all.take (i + 1)), _, i + 1), ?_,
      ⟨⟨rfl, hidx, ?_, hborrow⟩, ?_⟩, ?_⟩
    · simp only [hd, he, hput, Option.bind_eq_bind, Option.bind_some]
    · rw [hrest, tail_drop_used, tail_drop_used]
    · dsimp only
      omega
    · dsimp only
      omega
  · next hstop =>
    rw [hlen] at hstop
    obtain ⟨hi, hborrow⟩ := not_or.mp hstop
    have hzero : borrow = 0 := not_not.mp hborrow
    have hnil : (m y).used.drop i = [] := by
      rw [left_of_lt hy] at hi
      exact not_not.mp hi
    refine ⟨.inr (m', i), rfl, h.state, h.index, Nat.le_of_not_lt hi, ?_⟩
    have hrest := h.rest
    dsimp only at hrest
    rw [hrest, hzero, hnil, Bigint.subborrow_done]

/-- **`sub`**, into any destination that has room for the digits of `x`. -/
theorem sub_stores (hx : (m x).Fits) (hy : (m y).Fits) (hshrunk : (m y).used.Shrunk)
    (hge : (m y).used.value ≤ (m x).used.value)
    (hroom : (m x).len ≤ (m dst).digits.length) :
    ∃ m', m.sub dst x y = some m' ∧ Stores m dst (Bigint.sub (m x).used (m y).used) m' := by
  have hlenx := length_used hx
  have hleny := length_used hy
  have hlonger : (m y).used.length ≤ (m x).used.length :=
    hshrunk.length_le (lt_of_le_of_lt hge (Bigint.value_lt _))
  obtain ⟨all, hall⟩ : ∃ all, Bigint.subborrow 0 (m x).used (m y).used = all := ⟨_, rfl⟩
  have hlen : all.length = (m x).len := by
    rw [← hall, Bigint.length_subborrow _ (by omega), hlenx]
  have hstart : Partway Bigint.subborrow m dst x y all (m, 0, 0) :=
    ⟨by rw [List.take_zero, written_nil], Nat.zero_le _, hall.symm, Nat.zero_le _⟩
  obtain ⟨⟨m', i⟩, hloop, hstate, hidx, hpass, hrest⟩ := loop_spec _ _ _
    (substep_spec hx hy hshrunk (hlen.trans_le hroom)) (m.rounds x y) (m, 0, 0) ⟨hstart, hge⟩
    (by dsimp only; unfold rounds; omega)
  dsimp only at hstate hidx hpass hrest
  have hcopy := copyrest_written hx hidx (hlen.trans_le hroom) hrest
  have hstores := (stores_stored (hlen.trans_le hroom)).shrink
  refine ⟨(m.stored dst all).shrink dst, ?_, ?_⟩
  · simp only [sub, hloop, hstate, hcopy, Option.bind_eq_bind, Option.bind_some, stored,
      len_written, hlen]
  · rw [Bigint.sub, hall]
    exact hstores

/-! ## The loops of `mul` -/

/-- A digit among those that are written is replaced. -/
theorem put_middle (m : Bignums) (dst : Nat) (low rest : Bigint) (a c : UInt16) :
    (m.written dst (low ++ a :: rest)).put dst low.length c =
      some (m.written dst (low ++ c :: rest)) := by
  have hlen : (low ++ c :: rest).length = (low ++ a :: rest).length := by simp
  rw [put, digits_written, List.length_append, List.length_append, List.length_cons,
    if_pos (by omega), written, write_write, written, hlen, List.append_assoc,
    List.set_append_right _ _ le_rfl, Nat.sub_self, List.cons_append, List.set_cons_zero,
    List.append_assoc, List.cons_append, List.length_append, List.length_cons]

theorem digit_middle (m : Bignums) (dst : Nat) (low rest : Bigint) (a : UInt16) :
    (m.written dst (low ++ a :: rest)).digit dst low.length = some a := by
  rw [digit, digits_written, List.append_assoc, List.getElem?_append_right le_rfl, Nat.sub_self]
  rfl

theorem digit_written_of_ne {v : Nat} (h : v ≠ dst) (ds : Bigint) (i : Nat) :
    (m.written dst ds).digit v i = m.digit v i := by
  rw [digit, written, write_of_ne h, digit]

theorem headD_of_drop {v i : Nat} {d : UInt16} {rest : Bigint} (hv : (m v).Fits)
    (h : (m v).used.drop i = d :: rest) : m.digit v i = some d := by
  have hi : i < (m v).len := by
    rw [left_of_lt hv, h]
    exact List.cons_ne_nil _ _
  rw [digit_eq hv hi, h]
  rfl

/-- The digits of `y` times a digit, on top of what is there. -/
theorem multiplydigit_eq (hx : (m x).Fits) (hy : (m y).Fits) (hdx : x ≠ dst) (hdy : y ≠ dst)
    {i : Nat} {d : UInt16} {xs : Bigint} (hi : (m x).used.drop i = d :: xs) {low : Bigint}
    (hlow : low.length = i) : ∀ (ys done old : Bigint) (carry : Dbldigit),
    (m y).used.drop done.length = ys → old.length = ys.length →
    ∃ (row : Bigint) (c : Dbldigit), Bigint.mulrow d carry old ys = row ++ [c.toUInt16] ∧
      row.length = ys.length ∧
      multiplydigit dst x y i ys.length done.length carry (m.written dst (low ++ done ++ old)) =
        some (m.written dst (low ++ done ++ row), c) := by
  intro ys
  induction ys with
  | nil =>
    intro done old carry _ hold
    obtain rfl := List.length_eq_zero_iff.mp hold
    exact ⟨[], carry, rfl, rfl, rfl⟩
  | cons e ys ih =>
    intro done old carry hys hold
    obtain ⟨a, old, rfl⟩ := List.exists_cons_of_length_eq_add_one hold
    have hplace : i + done.length = (low ++ done).length := by rw [List.length_append, hlow]
    have hnext : (m y).used.drop (done.length + 1) = ys := by
      rw [← tail_drop_used, hys, List.tail_cons]
    obtain ⟨c, hc⟩ : ∃ c, carry + (d.toUInt32 * e.toUInt32 + a.toUInt32) = c := ⟨_, rfl⟩
    obtain ⟨row, c', hrow, hlen, hrun⟩ := ih (done ++ [c.toUInt16]) old (c >>> 16)
      (by rwa [List.length_append, List.length_singleton]) (by simpa using hold)
    refine ⟨c.toUInt16 :: row, c', ?_, ?_, ?_⟩
    · rw [Bigint.mulrow, List.headD_cons, List.tail_cons, hc, hrow]
      rfl
    · rw [List.length_cons, hlen, List.length_cons]
    · have hd : (m.written dst (low ++ done ++ a :: old)).digit x i = some d := by
        rw [digit_written_of_ne hdx, headD_of_drop hx hi]
      have he : (m.written dst (low ++ done ++ a :: old)).digit y done.length = some e := by
        rw [digit_written_of_ne hdy, headD_of_drop hy hys]
      rw [List.length_cons, multiplydigit, hd, he, hplace, digit_middle]
      simp only [Option.bind_eq_bind, Option.bind_some, hc, put_middle]
      simpa only [List.length_append, List.length_singleton, List.append_assoc,
        List.singleton_append] using hrun

/-- The rows for the digits of `x` that are left. -/
theorem multiply_eq (hx : (m x).Fits) (hy : (m y).Fits) (hdx : x ≠ dst) (hdy : y ≠ dst) :
    ∀ (xs low row : Bigint), (m x).used.drop low.length = xs → row.length = (m y).len →
      low.length + xs.length + (m y).len ≤ (m dst).digits.length →
      multiply dst x y xs.length low.length (m.written dst (low ++ row)) =
        some (m.written dst (low ++ Bigint.mulrows (m y).used row xs)) := by
  intro xs
  induction xs with
  | nil => exact fun low row _ _ _ => rfl
  | cons d xs ih =>
    intro low row hxs hrow hroom
    have hleny := length_used hy
    have hroom' : low.length + (m y).len < (m dst).digits.length := by
      rw [List.length_cons] at hroom
      omega
    obtain ⟨row', c, hmul, hlen, hrun⟩ := multiplydigit_eq hx hy hdx hdy hxs rfl (m y).used [] row 0
      rfl (by rw [hrow, hleny])
    rw [hleny] at hlen hrun
    rw [List.append_nil, List.length_nil] at hrun
    have hplace : low.length + (m y).len = (low ++ row').length := by rw [List.length_append, hlen]
    have hput := put_written (hplace.symm.trans_lt hroom') c.toUInt16
    -- the lowest digit of the row is as it will be
    obtain ⟨h, t, hht⟩ : ∃ h t, row' ++ [c.toUInt16] = h :: t :=
      List.exists_cons_of_ne_nil (by simp)
    have htlen : t.length = (m y).len := by
      have := congrArg List.length hht
      rw [List.length_append, List.length_singleton, List.length_cons] at this
      omega
    have hnext : (m x).used.drop (low ++ [h]).length = xs := by
      rw [List.length_append, List.length_singleton, ← tail_drop_used, hxs, List.tail_cons]
    have hrest := ih (low ++ [h]) t hnext htlen (by
      rw [List.length_append, List.length_singleton]
      rw [List.length_cons] at hroom
      omega)
    have hsplit : low ++ row' ++ [c.toUInt16] = low ++ [h] ++ t := by
      rw [List.append_assoc, hht, List.append_assoc, List.singleton_append]
    rw [List.length_cons, multiply, len_written, hrun, Option.bind_eq_bind, Option.bind_some]
    dsimp only
    rw [len_written, hplace, hput, Option.bind_eq_bind, Option.bind_some, hsplit]
    rw [List.length_append, List.length_singleton] at hrest
    rw [hrest, Bigint.mulrows, hmul, hht, List.headD_cons, List.tail_cons, List.append_assoc,
      List.singleton_append]

theorem length_mulrows (ys xs row : Bigint) (h : row.length = ys.length) :
    (Bigint.mulrows ys row xs).length = xs.length + ys.length := by
  induction xs generalizing row with
  | nil => rw [Bigint.mulrows, h, List.length_nil, Nat.zero_add]
  | cons d xs ih =>
    have htail : (Bigint.mulrow d 0 row ys).tail.length = ys.length := by
      rw [List.length_tail, Bigint.length_mulrow]
      rfl
    rw [Bigint.mulrows, List.length_cons, ih _ htail, List.length_cons]
    omega

/-- **`mul`**, into a number that is not an operand and has room for the digits of both. -/
theorem mul_stores (hx : (m x).Fits) (hy : (m y).Fits) (hdx : x ≠ dst) (hdy : y ≠ dst)
    (hroom : (m x).len = 0 ∨ (m y).len = 0 ∨ (m x).len + (m y).len ≤ (m dst).digits.length) :
    ∃ m', m.mul dst x y = some m' ∧ Stores m dst (Bigint.mul (m x).used (m y).used) m' := by
  have hlenx := length_used hx
  have hleny := length_used hy
  unfold mul
  by_cases hzero : (m x).len = 0 ∨ (m y).len = 0
  · have hnil : (m x).used = [] ∨ (m y).used = [] :=
      hzero.imp (fun h => List.length_eq_zero_iff.mp (hlenx.trans h))
        fun h => List.length_eq_zero_iff.mp (hleny.trans h)
    have hstores : Stores m dst [] (m.stored dst []) := stores_stored (Nat.zero_le _)
    rw [stored, written_nil] at hstores
    rw [if_pos hzero, Bigint.mul, if_pos hnil]
    exact ⟨_, rfl, hstores⟩
  · have hroom' : (m x).len + (m y).len ≤ (m dst).digits.length := by
      rcases hroom with h | h | h
      · exact absurd (Or.inl h) hzero
      · exact absurd (Or.inr h) hzero
      · exact h
    have hnil : ¬((m x).used = [] ∨ (m y).used = []) := by
      rintro (h | h)
      · exact hzero (Or.inl (hlenx.symm.trans (by rw [h, List.length_nil])))
      · exact hzero (Or.inr (hleny.symm.trans (by rw [h, List.length_nil])))
    obtain ⟨all, hall⟩ : ∃ all, Bigint.mulrows (m y).used (List.replicate (m y).len 0) (m x).used =
        all := ⟨_, rfl⟩
    have hlen : all.length = (m x).len + (m y).len := by
      rw [← hall, length_mulrows _ _ _ (by rw [List.length_replicate, hleny]), hlenx, hleny]
    have hclear : m.clear dst (m y).len = some (m.written dst (List.replicate (m y).len 0)) := by
      rw [clear, if_pos (by omega), written, List.length_replicate]
    have hrun := multiply_eq hx hy hdx hdy (m x).used [] (List.replicate (m y).len 0) rfl
      List.length_replicate (by rw [List.length_nil, hlenx]; omega)
    rw [List.nil_append, List.nil_append, List.length_nil, hlenx, hall] at hrun
    have hstores := (stores_stored (hlen.trans_le hroom')).shrink
    refine ⟨(m.stored dst all).shrink dst, ?_, ?_⟩
    · rw [if_neg hzero, hclear]
      simp only [Option.bind_eq_bind, Option.bind_some, len_written, hrun, stored, hlen]
    · rw [Bigint.mul, if_neg hnil, hleny, hall]
      exact hstores

/-! ## What needs room -/

/-- No number has another length or another array than before. -/
structure Shaped (m : Bignums) (dst : Nat) (m' : Bignums) : Prop where
  len : ∀ v, (m' v).len = (m v).len
  room : (m' dst).digits.length = (m dst).digits.length

theorem Shaped.refl (m : Bignums) (dst : Nat) : Shaped m dst m := ⟨fun _ => rfl, rfl⟩

theorem Shaped.trans {m' m'' : Bignums} (h : Shaped m dst m') (h' : Shaped m' dst m'') :
    Shaped m dst m'' :=
  ⟨fun v => (h'.len v).trans (h.len v), h'.room.trans h.room⟩

theorem put_shaped {m' : Bignums} {i : Nat} {c : UInt16} (h : m.put dst i c = some m') :
    Shaped m dst m' ∧ i < (m dst).digits.length := by
  unfold put at h
  split at h
  · next hi =>
    obtain rfl := Option.some.inj h
    exact ⟨⟨len_write m dst _, by rw [write_dst, List.length_set]⟩, hi⟩
  · cases h

/-- A round of `sub` writes a digit that there is room for. -/
theorem substep_room (s : Bignums × Dbldigit × Nat)
    (hs : Shaped m dst s.1 ∧ s.2.2 ≤ (m dst).digits.length) :
    (∀ t, substep dst x y s = some (.inl t) →
        Shaped m dst t.1 ∧ t.2.2 ≤ (m dst).digits.length) ∧
      ∀ r, substep dst x y s = some (.inr r) → Shaped m dst r.1 ∧ r.2 ≤ (m dst).digits.length := by
  obtain ⟨m', borrow, i⟩ := s
  obtain ⟨hshape, hi⟩ := hs
  unfold substep
  dsimp only
  split
  · simp only [Option.bind_eq_bind, Option.bind_eq_some_iff]
    refine ⟨fun t => ?_, fun r => ?_⟩
    · rintro ⟨d, -, e, -, m'', hput, heq⟩
      obtain rfl := Sum.inl.inj (Option.some.inj heq)
      obtain ⟨hshape', hlt⟩ := put_shaped hput
      rw [hshape.room] at hlt
      exact ⟨hshape.trans hshape', hlt⟩
    · rintro ⟨d, -, e, -, m'', -, heq⟩
      cases heq
  · refine ⟨fun t heq => (by cases heq), fun r heq => ?_⟩
    obtain rfl := Sum.inr.inj (Option.some.inj heq)
    exact ⟨hshape, hi⟩

theorem sub_room (hx : (m x).Fits) {m' : Bignums} (h : m.sub dst x y = some m') :
    (m x).len ≤ (m dst).digits.length := by
  simp only [sub, Option.bind_eq_bind, Option.bind_eq_some_iff] at h
  obtain ⟨⟨m₁, i⟩, hloop, m₂, hcopy, -⟩ := h
  have hstart : Shaped m dst (m, (0 : Dbldigit), 0).1 ∧
      (m, (0 : Dbldigit), 0).2.2 ≤ (m dst).digits.length := ⟨.refl m dst, Nat.zero_le _⟩
  obtain ⟨hshape, hi⟩ := loop_keeps (fun s hs => (substep_room s hs).1)
    (fun s hs => (substep_room s hs).2) hstart hloop
  dsimp only at hshape hi hcopy
  unfold copyrest at hcopy
  rw [hshape.len, hshape.room] at hcopy
  by_contra hlt
  split at hcopy
  · cases hcopy
  · next hrest =>
    have hdst : dst = x := by
      by_contra hne
      exact hrest ⟨by omega, hne⟩
    subst hdst
    exact hlt hx

theorem multiplydigit_shaped {i : Nat} : ∀ {n j : Nat} {carry : Dbldigit} {m : Bignums}
    {r : Bignums × Dbldigit}, multiplydigit dst x y i n j carry m = some r → Shaped m dst r.1 := by
  intro n
  induction n with
  | zero =>
    intro j carry m r h
    obtain rfl := Option.some.inj h
    exact .refl m dst
  | succ n ih =>
    intro j carry m r h
    simp only [multiplydigit, Option.bind_eq_bind, Option.bind_eq_some_iff] at h
    obtain ⟨d, -, e, -, a, -, m', hput, hrest⟩ := h
    exact (put_shaped hput).1.trans (ih hrest)

theorem multiply_room : ∀ {n i : Nat} {m m' : Bignums}, multiply dst x y n i m = some m' →
    n ≠ 0 → i + n + (m y).len ≤ (m dst).digits.length := by
  intro n
  induction n with
  | zero => exact fun _ h => absurd rfl h
  | succ n ih =>
    intro i m m' h _
    simp only [multiply, Option.bind_eq_bind, Option.bind_eq_some_iff] at h
    obtain ⟨⟨m₁, carry⟩, hdigit, m₂, hput, hrest⟩ := h
    have hshape := multiplydigit_shaped hdigit
    obtain ⟨hshape', hlt⟩ := put_shaped hput
    dsimp only at hshape hshape' hlt
    rw [hshape.room, hshape.len] at hlt
    cases n with
    | zero => omega
    | succ n =>
      have hroom := ih hrest (Nat.succ_ne_zero n)
      rw [(hshape.trans hshape').len, (hshape.trans hshape').room] at hroom
      omega

theorem mul_room {m' : Bignums} (h : m.mul dst x y = some m') :
    (m x).len = 0 ∨ (m y).len = 0 ∨ (m x).len + (m y).len ≤ (m dst).digits.length := by
  unfold mul at h
  split at h
  · next hzero => exact hzero.imp id Or.inl
  · next hzero =>
    simp only [Option.bind_eq_bind, Option.bind_eq_some_iff] at h
    obtain ⟨m₁, hclear, m₂, hrun, -⟩ := h
    have hshape : Shaped m dst m₁ := by
      unfold clear at hclear
      split at hclear
      · next hle =>
        obtain rfl := Option.some.inj hclear
        refine ⟨len_write m dst _, ?_⟩
        rw [write_dst, List.length_append, List.length_replicate, List.length_drop]
        omega
      · cases hclear
    rw [hshape.len] at hrun
    have hroom := multiply_room hrun fun h0 => hzero (Or.inl h0)
    rw [hshape.len, hshape.room] at hroom
    omega

end

end Bignums

/-! ## The order -/

namespace Bigint

theorem same_eq : ∀ {x y : List UInt16}, x.length = y.length → same x y = decide (x = y) := by
  intro x
  induction x with
  | nil =>
    intro y h
    obtain rfl := List.length_eq_zero_iff.mp h.symm
    rfl
  | cons d x ih =>
    intro y h
    obtain ⟨e, y, rfl⟩ := List.exists_cons_of_length_eq_add_one h.symm
    rw [same]
    by_cases hde : d = e
    · rw [if_neg (not_not.mpr hde), ih (by simpa using h), hde]
      exact decide_eq_decide.mpr (by simp)
    · rw [if_pos hde]
      exact (decide_eq_false fun heq => hde (List.cons.inj heq).1).symm

/-- **Equality** of digits without leading zeros. -/
theorem eq_iff {x y : Bigint} (hx : Shrunk x) (hy : Shrunk y) :
    eq x y = decide (value x = value y) := by
  have hval : value x = value y ↔ x = y := ⟨eq_of_value hx hy, fun h => by rw [h]⟩
  unfold eq
  split
  · next hlen =>
    exact (decide_eq_false fun h => hlen (by rw [hval.mp h])).symm
  · next hlen =>
    rw [same_eq (by rw [List.length_reverse, List.length_reverse]; exact not_not.mp hlen)]
    exact decide_eq_decide.mpr (by rw [List.reverse_inj, hval])

end Bigint

namespace Bignum

/-- The value of the digits in use. -/
def value (x : Bignum) : Nat := x.used.value

instance (x : Bignum) : Decidable x.Fits := inferInstanceAs (Decidable (x.len ≤ x.digits.length))

instance (x : Bignum) : Decidable x.used.Shrunk :=
  inferInstanceAs (Decidable (x.used.getLast? ≠ some 0))

/-- A number without leading zero digits. -/
structure Normal (x : Bignum) : Prop where
  fits : x.Fits
  shrunk : x.used.Shrunk

end Bignum

namespace Bignums

section

variable {m : Bignums} {dst x y : Nat}

/-- The destination has this value, without leading zeros, and no other number is changed. -/
structure Becomes (m : Bignums) (dst n : Nat) (m' : Bignums) : Prop where
  value : (m' dst).value = n
  normal : (m' dst).Normal
  others : ∀ v, v ≠ dst → m' v = m v

theorem Stores.becomes {z : Bigint} {m' : Bignums} (h : Stores m dst z m') (hz : z.Shrunk) {n : Nat}
    (hn : z.value = n) : Becomes m dst n m' where
  value := by rw [Bignum.value, h.used, hn]
  normal := ⟨h.fits, by rwa [h.used]⟩
  others := h.others

theorem parse_stores {z : Bigint} (hz : z.Shrunk) (hroom : z.length ≤ (m dst).digits.length) :
    Stores m dst z (m.parse dst z.printdigits) := by
  have hdigits : Bigint.parsedigits (m dst).digits.length z.printdigits = z := by
    rw [Bigint.parsedigits, Bigint.hexpart_printdigits, Bigint.length_printdigits,
      if_neg (by omega), Bigint.pack_printdigits]
  have hstores := (stores_stored hroom).shrink
  rw [Bigint.shrink_eq hz] at hstores
  have hfilled : Function.update m dst ((m dst).filled z) = m.stored dst z := by
    rw [stored, setlen, digits_written, written, write, Function.update_idem]
    rfl
  rw [parse, hdigits, hfilled]
  exact hstores

/-- **Arithmetic** in the arrays: each operation is that on natural numbers, whichever operands the
destination is, if the array has a place for each digit that is written, and it writes outside if it
has not.  What is printed is parsed back. -/
theorem bignums_exact (hx : (m x).Normal) (hy : (m y).Normal) :
    ((m x).value + (m y).value < 65536 ^ (m dst).digits.length →
      ∃ m', m.add dst x y = some m' ∧ Becomes m dst ((m x).value + (m y).value) m') ∧
    ((m y).value ≤ (m x).value →
      ((∃ m', m.sub dst x y = some m' ∧ Becomes m dst ((m x).value - (m y).value) m') ↔
        (m x).len ≤ (m dst).digits.length)) ∧
    (x ≠ dst → y ≠ dst →
      ((∃ m', m.mul dst x y = some m' ∧ Becomes m dst ((m x).value * (m y).value) m') ↔
        (m x).len = 0 ∨ (m y).len = 0 ∨ (m x).len + (m y).len ≤ (m dst).digits.length)) ∧
    ((m x).used.eq (m y).used = decide ((m x).value = (m y).value) ∧
      (m x).used.ne (m y).used = decide ((m x).value ≠ (m y).value) ∧
      (m x).used.lt (m y).used = decide ((m x).value < (m y).value) ∧
      (m x).used.gt (m y).used = decide ((m x).value > (m y).value) ∧
      (m x).used.le (m y).used = decide ((m x).value ≤ (m y).value) ∧
      (m x).used.ge (m y).used = decide ((m x).value ≥ (m y).value)) ∧
    ((m x).len ≤ (m dst).digits.length →
      Becomes m dst (m x).value (m.parse dst (m x).used.printdigits) ∧
        (m.parse dst (m x).used.printdigits dst).used = (m x).used) := by
  have hsum : (Bigint.add (m x).used (m y).used).Shrunk := hx.shrunk.add hy.shrunk
  refine ⟨fun hfit => ?_, fun hge => ⟨fun ⟨m', h, _⟩ => sub_room hx.fits h, fun hroom => ?_⟩,
    fun hdx hdy => ⟨fun ⟨m', h, _⟩ => mul_room h, fun hroom => ?_⟩, ?_, fun hroom => ?_⟩
  · have hroom := hsum.length_le (by rw [Bigint.value_add]; exact hfit)
    obtain ⟨m', hadd, hstores⟩ := add_stores hx.fits hy.fits hroom
    exact ⟨m', hadd, hstores.becomes hsum (Bigint.value_add _ _)⟩
  · obtain ⟨m', hsub, hstores⟩ := sub_stores hx.fits hy.fits hy.shrunk hge hroom
    exact ⟨m', hsub, hstores.becomes (Bigint.shrunk_sub _ _) (Bigint.value_sub hge)⟩
  · obtain ⟨m', hmul, hstores⟩ := mul_stores hx.fits hy.fits hdx hdy hroom
    exact ⟨m', hmul, hstores.becomes (Bigint.shrunk_mul _ _) (Bigint.value_mul _ _)⟩
  · have heq := Bigint.eq_iff hx.shrunk hy.shrunk
    have hlt := Bigint.lt_iff hx.shrunk hy.shrunk
    have hgt := Bigint.lt_iff hy.shrunk hx.shrunk
    refine ⟨heq, ?_, hlt, hgt, ?_, ?_⟩
    · rw [Bigint.ne, heq, ← decide_not]
      rfl
    · rw [Bigint.le, hgt, ← decide_not]
      exact decide_eq_decide.mpr Nat.not_lt
    · rw [Bigint.ge, hlt, ← decide_not]
      exact decide_eq_decide.mpr Nat.not_lt
  · have hstores : Stores m dst (m x).used _ :=
      parse_stores hx.shrunk ((length_used hx.fits).trans_le hroom)
    exact ⟨hstores.becomes hx.shrunk rfl, hstores.used⟩

/-- The number 65535, in two digits. -/
def ones : Bignums := fun _ => ⟨1, [65535, 0]⟩

/-- A number is added to itself in place, with a carry into a new digit. -/
theorem bignums_exact_inplace :
    ∃ m', ones.add 0 0 0 = some m' ∧ Becomes ones 0 131070 m' := by
  have hnormal : (ones 0).Normal := ⟨by decide, by decide⟩
  exact (bignums_exact hnormal hnormal).1 (by decide)

/-- A difference and a product that have one digit are computed in two. -/
theorem sub_mul_outside :
    ∃ m : Bignums, (∀ v, (m v).Normal) ∧
      ((m 1).value ≤ (m 0).value ∧ (m 0).value - (m 1).value < 65536 ^ (m 2).digits.length ∧
        m.sub 2 0 1 = none) ∧
      ((m 1).value * (m 1).value < 65536 ^ (m 2).digits.length ∧ m.mul 2 1 1 = none) := by
  refine ⟨fun v => if v = 0 then ⟨2, [0, 1]⟩ else ⟨1, [1]⟩, fun v => ?_, ⟨?_, ?_, ?_⟩, ?_, ?_⟩
  · dsimp only
    split
    · exact ⟨by decide, by decide⟩
    · exact ⟨by decide, by decide⟩
  all_goals decide

end

end Bignums

end QServ
