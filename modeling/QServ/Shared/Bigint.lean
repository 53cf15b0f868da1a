import Mathlib.Data.List.DropRight
import Mathlib.Data.Nat.Digits.Lemmas
import Mathlib.Tactic.IntervalCases
import Mathlib.Tactic.Ring
import QServ.Game.Text

/-!
# Big numbers

`bigint` of `shared/crypto.cpp`: digits of 16 bits, the lowest first, and none of the highest
ones zero after `shrink`.  Numbers travel as text in hexadecimal digits, four for each digit.

* `parsedigits_printdigits`: what is printed is parsed back.
* `value_parsedigits`: a text of hexadecimal digits that is not too long denotes the number read.
* `eq_of_value`: numbers without leading zeros are equal digit by digit when their values are.
* `hasbit_eq`, `value_lt_numbits`: the bits of the value.
-/

namespace QServ

/-- `digits[0]` up to `digits[len-1]`. -/
abbrev Bigint := List UInt16

namespace Bigint

/-- The number the digits denote. -/
def value : Bigint → Nat
  | [] => 0
  | d :: ds => d.toNat + 65536 * value ds

/-- No zero in the highest place. -/
def Shrunk (x : Bigint) : Prop := x.getLast? ≠ some 0

/-- `shrink()`. -/
def shrink (x : Bigint) : Bigint := x.rdropWhile (· = 0)

/-- The digits of a number, as many as it needs. -/
def ofNat (n : Nat) : Bigint := (Nat.digits 65536 n).map UInt16.ofNat

/-! ## Text -/

/-- The value of a hexadecimal digit of either case. -/
def hexval (c : Char) : Nat :=
  if isdigit c then c.toNat - 48 else if c.toNat < 97 then c.toNat - 65 + 10 else c.toNat - 97 + 10

/-- A number below 16 as it is printed. -/
def hexchar (val : Nat) : Char :=
  if val < 10 then Char.ofNat (48 + val) else Char.ofNat (97 + val - 10)

/-- The digits that hexadecimal values fill from the lowest on, four each. -/
def pack : List Nat → Bigint
  | [] => []
  | [a] => [UInt16.ofNat a]
  | [a, b] => [UInt16.ofNat (a + 16 * b)]
  | [a, b, c] => [UInt16.ofNat (a + 16 * b + 256 * c)]
  | a :: b :: c :: d :: rest => UInt16.ofNat (a + 16 * b + 256 * c + 4096 * d) :: pack rest

/-- The leading characters of a text that are hexadecimal digits. -/
def hexpart (s : List Char) : List Char := s.takeWhile isxdigit

/-- `parsedigits(digits, maxlen, s)`: nothing when the digits do not fit. -/
def parsedigits (maxlen : Nat) (s : List Char) : Bigint :=
  if maxlen < ((hexpart s).length + 3) / 4 then [] else pack ((hexpart s).reverse.map hexval)

/-- `parse(s)`. -/
def parse (maxlen : Nat) (s : List Char) : Bigint := shrink (parsedigits maxlen s)

/-- The four characters of a digit. -/
def hexdigits (d : UInt16) : List Char :=
  [hexchar (d.toNat / 4096 % 16), hexchar (d.toNat / 256 % 16), hexchar (d.toNat / 16 % 16),
    hexchar (d.toNat % 16)]

/-- `printdigits(buf)`. -/
def printdigits (x : Bigint) : List Char := x.reverse.flatMap hexdigits

/-! ## Bits -/

/-- `hasbit(n)`. -/
def hasbit (x : Bigint) (n : Nat) : Bool := (x.getD (n / 16) 0).toNat.testBit (n % 16)

/-- The loop of `numbits` over the mask: `bits` counts down with it. -/
def topbit (last : Nat) (bits : Nat) : Nat → Nat
  | 0 => 0
  | k + 1 => if last.testBit k then bits + (k + 1) else topbit last bits k

/-- `numbits()`. -/
def numbits (x : Bigint) : Nat :=
  match x.getLast? with
  | none => 0
  | some last => topbit last.toNat (16 * (x.length - 1)) 16

/-! ## Values -/

theorem value_append (x y : Bigint) : value (x ++ y) = value x + 65536 ^ x.length * value y := by
  induction x with
  | nil => simp [value]
  | cons d ds ih =>
    rw [List.cons_append, value, value, ih, List.length_cons, pow_succ]
    ring

theorem value_lt (x : Bigint) : value x < 65536 ^ x.length := by
  induction x with
  | nil => simp [value]
  | cons d ds ih =>
    have hd : d.toNat < 65536 := d.toNat_lt
    rw [value, List.length_cons, pow_succ]
    omega

theorem value_shrink (x : Bigint) : value (shrink x) = value x := by
  induction x using List.reverseRecOn with
  | nil => rfl
  | append_singleton ds d ih =>
    unfold shrink at ih ⊢
    by_cases hd : d = 0
    · subst hd
      rw [List.rdropWhile_concat_pos _ _ _ (by simp), ih, value_append]
      simp [value]
    · rw [List.rdropWhile_concat_neg _ _ _ (by simpa using hd)]

theorem shrunk_shrink (x : Bigint) : Shrunk (shrink x) := by
  intro h
  by_cases hne : shrink x = []
  · simp [hne] at h
  · have hlast := List.rdropWhile_last_not (fun d : UInt16 => decide (d = 0)) x hne
    rw [List.getLast?_eq_some_getLast hne] at h
    exact hlast (by simpa [shrink] using h)

theorem shrink_eq {x : Bigint} (h : Shrunk x) : shrink x = x := by
  unfold shrink
  rw [List.rdropWhile_eq_self_iff]
  intro hne hlast
  apply h
  rw [List.getLast?_eq_some_getLast hne]
  simpa using hlast

theorem Shrunk.tail {d : UInt16} {ds : Bigint} (h : Shrunk (d :: ds)) : Shrunk ds := by
  cases ds with
  | nil => simp [Shrunk]
  | cons e es => simpa [Shrunk, List.getLast?_cons_cons] using h

theorem Shrunk.eq_nil {x : Bigint} (h : Shrunk x) (hv : value x = 0) : x = [] := by
  induction x with
  | nil => rfl
  | cons d ds ih =>
    rw [value] at hv
    have hds := ih h.tail (by omega)
    have hd : d = 0 := by
      rw [← UInt16.toNat_inj]
      simp
      omega
    subst hds
    exact absurd (by simp [hd]) h

/-- Numbers without leading zeros are the same digit by digit when their values are. -/
theorem eq_of_value {x y : Bigint} (hx : Shrunk x) (hy : Shrunk y) (h : value x = value y) :
    x = y := by
  induction x generalizing y with
  | nil => exact (hy.eq_nil h.symm).symm
  | cons d ds ih =>
    cases y with
    | nil => exact absurd (hx.eq_nil h) (by simp)
    | cons e es =>
      have hd : d.toNat < 65536 := d.toNat_lt
      have he : e.toNat < 65536 := e.toNat_lt
      rw [value, value] at h
      have hde : d = e := by
        rw [← UInt16.toNat_inj]
        omega
      rw [hde, ih hx.tail hy.tail (by omega)]

theorem value_map_ofNat {ns : List Nat} (h : ∀ n ∈ ns, n < 65536) :
    value (ns.map UInt16.ofNat) = Nat.ofDigits 65536 ns := by
  induction ns with
  | nil => rfl
  | cons n ns ih =>
    have hn := h n List.mem_cons_self
    rw [List.map_cons, value, ih fun m hm => h m (List.mem_cons_of_mem _ hm), Nat.ofDigits_cons]
    simp [Nat.mod_eq_of_lt hn]

theorem value_ofNat (n : Nat) : value (ofNat n) = n := by
  unfold ofNat
  rw [value_map_ofNat fun m hm => Nat.digits_lt_base (by norm_num) hm, Nat.ofDigits_digits]

theorem shrunk_ofNat (n : Nat) : Shrunk (ofNat n) := by
  by_cases hn : n = 0
  · simp [hn, ofNat, Shrunk]
  have hne : Nat.digits 65536 n ≠ [] := Nat.digits_ne_nil_iff_ne_zero.mpr hn
  have hlast := Nat.getLast_digit_ne_zero 65536 hn
  have hlt := Nat.digits_lt_base (by norm_num : 1 < 65536) (List.getLast_mem hne)
  intro h
  rw [ofNat, List.getLast?_map, List.getLast?_eq_some_getLast hne] at h
  have hzero := congrArg UInt16.toNat (Option.some.inj h)
  simp [Nat.mod_eq_of_lt hlt] at hzero
  exact hlast hzero

theorem length_ofNat_le {n k : Nat} (h : n < 65536 ^ k) : (ofNat n).length ≤ k := by
  rw [ofNat, List.length_map]
  exact (Nat.digits_length_le_iff (by norm_num) n).mpr h

/-! ## Printing and parsing -/

theorem hexchar_spec {v : Nat} (h : v < 16) : isxdigit (hexchar v) ∧ hexval (hexchar v) = v := by
  interval_cases v <;> decide

theorem hexval_lt {c : Char} (h : isxdigit c) : hexval c < 16 := by
  simp [isxdigit, isdigit] at h
  unfold hexval isdigit
  simp
  split
  · omega
  · split <;> omega

theorem isxdigit_printdigits (x : Bigint) : ∀ c ∈ printdigits x, isxdigit c := by
  intro c hc
  simp only [printdigits, hexdigits, List.mem_flatMap, List.mem_cons, List.not_mem_nil,
    or_false] at hc
  obtain ⟨d, -, rfl | rfl | rfl | rfl⟩ := hc
  all_goals exact (hexchar_spec (by omega)).1

theorem hexpart_printdigits (x : Bigint) : hexpart (printdigits x) = printdigits x :=
  List.takeWhile_eq_self_iff.mpr (isxdigit_printdigits x)

theorem length_printdigits (x : Bigint) : (printdigits x).length = 4 * x.length := by
  simp [printdigits, hexdigits, List.length_flatMap]
  omega

/-- The characters of a digit, read from the last one on. -/
theorem pack_printdigits (x : Bigint) : pack ((printdigits x).reverse.map hexval) = x := by
  induction x with
  | nil => rfl
  | cons d ds ih =>
    have hd : d.toNat < 65536 := d.toNat_lt
    have hval : ∀ v, hexval (hexchar (v % 16)) = v % 16 := fun v => (hexchar_spec (by omega)).2
    have hsplit : (printdigits (d :: ds)).reverse.map hexval =
        d.toNat % 16 :: d.toNat / 16 % 16 :: d.toNat / 256 % 16 :: d.toNat / 4096 % 16 ::
          (printdigits ds).reverse.map hexval := by
      simp [printdigits, hexdigits, hval]
    rw [hsplit, pack, ih]
    have hpack : d.toNat % 16 + 16 * (d.toNat / 16 % 16) + 256 * (d.toNat / 256 % 16) +
        4096 * (d.toNat / 4096 % 16) = d.toNat := by omega
    rw [hpack, UInt16.ofNat_toNat]

/-- What is printed is parsed back. -/
theorem parse_printdigits {x : Bigint} {maxlen : Nat} (h : Shrunk x) (hlen : x.length ≤ maxlen) :
    parse maxlen (printdigits x) = x := by
  unfold parse parsedigits
  rw [hexpart_printdigits, length_printdigits, if_neg (by omega), pack_printdigits, shrink_eq h]

/-- The number a text of hexadecimal digits denotes. -/
def hexvalue (s : List Char) : Nat := s.foldl (fun n c => 16 * n + hexval c) 0

theorem hexvalue_eq (s : List Char) : hexvalue s = Nat.ofDigits 16 (s.reverse.map hexval) := by
  induction s using List.reverseRecOn with
  | nil => rfl
  | append_singleton s c ih =>
    rw [List.reverse_append, List.reverse_singleton, List.singleton_append, List.map_cons,
      Nat.ofDigits_cons, ← ih]
    simp [hexvalue, add_comm]

theorem value_pack {ns : List Nat} (h : ∀ n ∈ ns, n < 16) :
    value (pack ns) = Nat.ofDigits 16 ns := by
  fun_induction pack ns with
  | case1 => rfl
  | case2 a =>
    simp at h
    simp [value, Nat.ofDigits_cons]
    omega
  | case3 a b =>
    simp at h
    simp [value, Nat.ofDigits_cons]
    omega
  | case4 a b c =>
    simp at h
    simp [value, Nat.ofDigits_cons]
    omega
  | case5 a b c d rest ih =>
    simp only [List.forall_mem_cons] at h
    obtain ⟨ha, hb, hc, hd, hrest⟩ := h
    have hnat : (UInt16.ofNat (a + 16 * b + 256 * c + 4096 * d)).toNat =
        a + 16 * b + 256 * c + 4096 * d := by
      rw [UInt16.toNat_ofNat']
      omega
    rw [value, hnat, ih hrest]
    simp only [Nat.ofDigits_cons]
    ring

/-- The value read: that of the leading hexadecimal digits, zero when they do not fit. -/
theorem value_parse (maxlen : Nat) (s : List Char) : value (parse maxlen s) =
    if 4 * maxlen < (hexpart s).length then 0 else hexvalue (hexpart s) := by
  rw [parse, value_shrink, parsedigits]
  by_cases hlen : 4 * maxlen < (hexpart s).length
  · rw [if_pos hlen, if_pos (by omega)]
    rfl
  · rw [if_neg hlen, if_neg (by omega), hexvalue_eq, value_pack]
    intro n hn
    obtain ⟨c, hc, rfl⟩ := List.mem_map.mp hn
    exact hexval_lt (List.mem_takeWhile_imp (List.mem_reverse.mp hc))

/-! ## The bits of the value -/

theorem hasbit_eq (x : Bigint) (n : Nat) : hasbit x n = (value x).testBit n := by
  induction x generalizing n with
  | nil => simp [hasbit, value]
  | cons d ds ih =>
    have hd : d.toNat < 2 ^ 16 := d.toNat_lt
    rw [value, add_comm, show 65536 = 2 ^ 16 from rfl, Nat.testBit_two_pow_mul_add _ hd]
    by_cases hn : n < 16
    · rw [if_pos hn, hasbit, Nat.div_eq_of_lt hn, Nat.mod_eq_of_lt hn]
      rfl
    · rw [if_neg hn, ← ih, hasbit, hasbit, show n / 16 = (n - 16) / 16 + 1 by omega,
        show n % 16 = (n - 16) % 16 by omega]
      rfl

theorem topbit_spec {last bits : Nat} (hlast : last ≠ 0) :
    ∀ {k : Nat}, last < 2 ^ k → ∃ m, topbit last bits k = bits + m ∧ last < 2 ^ m
  | 0, h => absurd h (by simpa using hlast)
  | k + 1, h => by
    unfold topbit
    by_cases hbit : last.testBit k
    · exact ⟨k + 1, if_pos hbit, h⟩
    · rw [if_neg hbit]
      refine topbit_spec hlast ?_
      by_contra hge
      exact hbit (Nat.testBit_of_two_pow_le_and_two_pow_add_one_gt (by omega) h)

theorem value_lt_numbits {x : Bigint} (h : Shrunk x) : value x < 2 ^ numbits x := by
  induction x using List.reverseRecOn with
  | nil => simp [value, numbits]
  | append_singleton ds d _ =>
    have hd : d.toNat ≠ 0 := by
      intro hzero
      exact h (by simpa [← UInt16.toNat_inj] using hzero)
    obtain ⟨m, hm, hlt⟩ := @topbit_spec d.toNat (16 * ds.length) hd 16 d.toNat_lt
    have hnum : numbits (ds ++ [d]) = 16 * ds.length + m := by
      simpa [numbits] using hm
    have hds := value_lt ds
    have hpow : 65536 ^ ds.length = 2 ^ (16 * ds.length) := by
      rw [pow_mul]
      rfl
    calc value (ds ++ [d]) = value ds + 65536 ^ ds.length * d.toNat := by
          rw [value_append]
          simp [value]
      _ < 65536 ^ ds.length * (d.toNat + 1) := by
          rw [mul_add]
          omega
      _ ≤ 65536 ^ ds.length * 2 ^ m := Nat.mul_le_mul_left _ hlt
      _ = 2 ^ numbits (ds ++ [d]) := by rw [hnum, hpow, ← pow_add]

end Bigint

end QServ
