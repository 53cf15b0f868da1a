import QServ.Shared.Ecjacobian
import QServ.Shared.Tiger

/-!
# Challenges

The keys of `shared/crypto.cpp` and the challenge that proves that a player has one: the server
keeps the `x` of a multiple of the public key and sends the same multiple of the base point, and
the player answers with the `x` of the private multiple of what was sent.

* `addOrderOf_base`: the base point is of prime order.
* `checkchallenge_iff`: the texts that are accepted as an answer.
* `answer_accepted`: the answer that is made with the private key is.
* `genchallenge_seed_iff`: when two seeds make the hash of the challenge differ.
-/

namespace QServ

open Ecjacobian DoubleAdd

/-! ## Keys and challenges -/

/-- The bytes of a hash as digits of 16 bits: `memcpy(digits, hash.bytes, sizeof(hash.bytes))`. -/
def hashdigits : List UInt8 → Bigint
  | a :: b :: rest => UInt16.ofNat (a.toNat + 256 * b.toNat) :: hashdigits rest
  | _ => []

/-- The number made from a hash. -/
def scalarOf (hash : Tiger.State) : Bigint := Bigint.shrink (hashdigits hash.bytes)

/-- `(int)n`. -/
def toInt (n : Nat) : Int := (n : Int).bmod (2 ^ 32)

/-- What `genprivkey` hashes: the seed, with its `strlen` as an `int`. -/
def privkeyBlocks (seed : List UInt8) : List (List UInt8) :=
  Tiger.hashblocks (fun i => seed.getD i 0) (toInt seed.length)

/-- The public key of a private one. -/
def pubkeyOf (privkey : Bigint) : List Char := (base.mul privkey).normalize.print

/-- `genprivkey(seed, privstr, pubstr)`. -/
def genprivkey (seed : List UInt8) : List Char × List Char :=
  let privkey := scalarOf (Tiger.hash (fun i => seed.getD i 0) (toInt seed.length))
  (privkey.printdigits, pubkeyOf privkey)

/-- `parsepubkey(pubstr)`. -/
def parsepubkey (pubstr : List Char) : Ecjacobian := parse pubstr

/-- `answerchallenge(privstr, challenge, answerstr)`. -/
def answerchallenge (privstr challenge : List Char) : List Char :=
  let privkey := Bigint.parse (GF_DIGITS + 1) privstr
  ((parse challenge).mul privkey).normalize.x.printdigits

/-- The part of `genchallenge` behind the hash: the text that is sent, and the value that the
answer is compared with. -/
def challengeOf (pubkey : Ecjacobian) (challenge : Bigint) : List Char × Gfield :=
  let answer := (pubkey.mul challenge).normalize
  let secret := (base.mul challenge).normalize
  (secret.print, answer.x)

/-- `genchallenge(pubkey, seed, seedlen, challengestr)`, where pointers have `sizeofptr` bytes:
`seed` is the memory the pointer leads to. -/
def genchallenge (sizeofptr : Nat) (pubkey : Ecjacobian) (seed : Nat → UInt8) (_seedlen : Int) :
    List Char × Gfield :=
  challengeOf pubkey (scalarOf (Tiger.hash seed sizeofptr))

/-- `checkchallenge(answerstr, correct)`: digit by digit. -/
def checkchallenge (answerstr : List Char) (correct : Gfield) : Bool :=
  Bigint.parse (GF_DIGITS + 1) answerstr == correct.digits

/-! ## The base point -/

/-- The order of the base point. -/
def order : Nat := 0xffffffffffffffffffffffff99def836146bc9b1b4d22831

/-- The order in digits. -/
def orderDigits : Bigint :=
  [0x2831, 0xb4d2, 0xc9b1, 0x146b, 0xf836, 0x99de, 0xffff, 0xffff, 0xffff, 0xffff, 0xffff, 0xffff]

theorem prime_order : Nat.Prime order := by
  unfold order
  have h519 : Nat.Prime 51920273 := by
    have hfs : ∀ q ∈ [2, 2, 2, 2, 61, 53197], q.Prime := by norm_num
    exact prime_of_factors 3 26 hfs (by decide +kernel) (by decide +kernel) (by decide +kernel)
      (by decide +kernel)
  have h103 : Nat.Prime 103840547 := by
    have hfs : ∀ q ∈ [51920273, 2], q.Prime := List.forall_mem_cons.mpr ⟨h519, by norm_num⟩
    exact prime_of_factors 2 27 hfs (by decide +kernel) (by decide +kernel) (by decide +kernel)
      (by decide +kernel)
  have h753 : Nat.Prime 7532705587894727 := by
    have hfs : ∀ q ∈ [2, 29, 43, 43, 331, 4127, 51419], q.Prime := by norm_num
    exact prime_of_factors 5 53 hfs (by decide +kernel) (by decide +kernel) (by decide +kernel)
      (by decide +kernel)
  have h343 : Nat.Prime 3433859179316188682119986911 := by
    have hfs : ∀ q ∈ [103840547, 7532705587894727, 2, 5, 439], q.Prime :=
      List.forall_mem_cons.mpr ⟨h103, List.forall_mem_cons.mpr ⟨h753, by norm_num⟩⟩
    exact prime_of_factors 13 92 hfs (by decide +kernel) (by decide +kernel) (by decide +kernel)
      (by decide +kernel)
  have h462 : Nat.Prime 46245989 := by
    have hfs : ∀ q ∈ [2, 2, 1693, 6829], q.Prime := by norm_num
    exact prime_of_factors 2 26 hfs (by decide +kernel) (by decide +kernel) (by decide +kernel)
      (by decide +kernel)
  have h724 : Nat.Prime 7244839476697597 := by
    have hfs : ∀ q ∈ [46245989, 2, 2, 3, 239, 54623], q.Prime :=
      List.forall_mem_cons.mpr ⟨h462, by norm_num⟩
    exact prime_of_factors 2 53 hfs (by decide +kernel) (by decide +kernel) (by decide +kernel)
      (by decide +kernel)
  have h956 : Nat.Prime 9564682313913860059195669 := by
    have hfs : ∀ q ∈ [7244839476697597, 2, 2, 3, 7, 15716741], q.Prime :=
      List.forall_mem_cons.mpr ⟨h724, by norm_num⟩
    exact prime_of_factors 2 84 hfs (by decide +kernel) (by decide +kernel) (by decide +kernel)
      (by decide +kernel)
  have hfs : ∀ q ∈ [3433859179316188682119986911, 9564682313913860059195669, 2, 2, 2, 2, 5, 2389],
      q.Prime :=
    List.forall_mem_cons.mpr ⟨h343, List.forall_mem_cons.mpr ⟨h956, by norm_num⟩⟩
  exact prime_of_factors 3 192 hfs (by decide +kernel) (by decide +kernel) (by decide +kernel)
    (by decide +kernel)

theorem base_nonsingular : (ShortCurve.curve B).Nonsingular base.x base.y := by
  have heq : base.y * base.y = base.x * base.x * base.x - (base.x + base.x + base.x) + B := by
    decide +kernel
  exact ShortCurve.nonsingular (by rw [sq, heq]) (by decide +kernel)

/-- The base point in the group. -/
def G : Point := .some base.x base.y base_nonsingular

theorem is_base : base.Is G := is_some base_nonsingular rfl

theorem addOrderOf_base : addOrderOf G = order := by
  have : Fact (Nat.Prime order) := ⟨prime_order⟩
  have hvalue : orderDigits.value = order := by decide +kernel
  have hshrunk : orderDigits.Shrunk := by
    unfold Bigint.Shrunk
    decide
  have hmul := is_base.mul hshrunk
  have hz : (base.mul orderDigits).z = 0 := by decide +kernel
  rw [hvalue] at hmul
  refine addOrderOf_eq_prime (hmul.eq_zero hz) ?_
  exact WeierstrassCurve.Affine.Point.some_ne_zero _

/-- A scalar that is not a multiple of the order. -/
structure Scalar where
  digits : Bigint
  shrunk : digits.Shrunk
  fits : digits.length ≤ GF_DIGITS + 1
  nonzero : ¬ order ∣ digits.value

/-- A multiple of the base point by a number that is none of the order has coordinates, and its
`y` is not zero: its order is odd. -/
theorem nsmul_base {k : Nat} (hk : ¬ order ∣ k) : ∃ (u v : Gfield)
    (h : (ShortCurve.curve B).Nonsingular u v), k • G = .some u v h ∧ v ≠ 0 := by
  cases hQ : k • G with
  | zero =>
    have hzero : k • G = 0 := hQ
    rw [← addOrderOf_base] at hk
    exact absurd (addOrderOf_dvd_of_nsmul_eq_zero hzero) hk
  | some u v h =>
    refine ⟨u, v, h, rfl, fun hv => ?_⟩
    have hdouble : (2 * k) • G = 0 := by
      rw [mul_nsmul', hQ, two_nsmul]
      exact ShortCurve.add_self_eq_zero hv
    have hdvd : order ∣ 2 * k := addOrderOf_base ▸ addOrderOf_dvd_of_nsmul_eq_zero hdouble
    have htwo : ¬ order ∣ 2 := fun h => absurd (Nat.le_of_dvd (by norm_num) h) (by decide)
    exact ((prime_order.dvd_mul.mp hdvd).resolve_left htwo |> hk)

/-! ## Answers -/

/-- The text of a point that is not the neutral one, and what is parsed from it. -/
theorem parse_normalize_print {q : Ecjacobian} {k : Nat} (hq : q.Is (k • G)) (hk : ¬ order ∣ k) :
    (parse q.normalize.print).Is (k • G) := by
  obtain ⟨u, v, h, hG, hv⟩ := nsmul_base hk
  rw [hG] at hq ⊢
  have hnorm := is_some h (normalize_of_is hq)
  exact is_some h (parse_print hnorm hv)

theorem is_pubkey (d : Scalar) : (parsepubkey (pubkeyOf d.digits)).Is (d.digits.value • G) :=
  parse_normalize_print (is_base.mul d.shrunk) d.nonzero

theorem Scalar.mul_nonzero (d c : Scalar) : ¬ order ∣ c.digits.value * d.digits.value := fun h =>
  (prime_order.dvd_mul.mp h).elim c.nonzero d.nonzero

/-- The value the server keeps is the `x` of the multiple by both scalars. -/
theorem is_answer (d c : Scalar) :
    ((parsepubkey (pubkeyOf d.digits)).mul c.digits).Is
      ((c.digits.value * d.digits.value) • G) := by
  rw [mul_nsmul']
  exact (is_pubkey d).mul c.shrunk

/-- The texts that are accepted: the leading hexadecimal digits denote the value, or there are
more of them than fit and the value is zero. -/
theorem checkchallenge_iff (s : List Char) (correct : Gfield) :
    checkchallenge s correct = true ↔
      if 4 * (GF_DIGITS + 1) < (Bigint.hexpart s).length then correct.val = 0
      else Bigint.hexvalue (Bigint.hexpart s) = correct.val := by
  have hparse : (Bigint.parse (GF_DIGITS + 1) s).Shrunk := Bigint.shrunk_shrink _
  have hvalue : checkchallenge s correct = true ↔
      (Bigint.parse (GF_DIGITS + 1) s).value = correct.val := by
    rw [checkchallenge, beq_iff_eq, ← correct.value_digits]
    exact ⟨congrArg _, Bigint.eq_of_value hparse correct.shrunk_digits⟩
  rw [hvalue, Bigint.value_parse]
  split
  · exact eq_comm
  · exact Iff.rfl

/-- A number of the field is accepted for itself. -/
theorem checkchallenge_printdigits (x : Gfield) : checkchallenge x.printdigits x = true := by
  have hlen := x.length_digits
  rw [checkchallenge, Gfield.printdigits, Bigint.parse_printdigits x.shrunk_digits (by omega),
    beq_self_eq_true]

/-- The answer made with the private key is the `x` that the server keeps. -/
theorem answerchallenge_eq (d c : Scalar) :
    let challenge := challengeOf (parsepubkey (pubkeyOf d.digits)) c.digits
    answerchallenge d.digits.printdigits challenge.1 = challenge.2.printdigits := by
  have hsent : (parse (base.mul c.digits).normalize.print).Is (c.digits.value • G) :=
    parse_normalize_print (is_base.mul c.shrunk) c.nonzero
  have hown := hsent.mul d.shrunk
  rw [← mul_nsmul', mul_comm] at hown
  have hkept := is_answer d c
  obtain ⟨u, v, h, hG, -⟩ := nsmul_base (d.mul_nonzero c)
  rw [hG] at hown hkept
  simp only [answerchallenge, challengeOf, Bigint.parse_printdigits d.shrunk d.fits,
    normalize_of_is hown, normalize_of_is hkept]

/-- **The answer made with the private key is accepted**, and so are just the texts whose leading
hexadecimal digits denote the same number, as long as they fit. -/
theorem challenge_accepts (d c : Scalar) :
    let challenge := challengeOf (parsepubkey (pubkeyOf d.digits)) c.digits
    checkchallenge (answerchallenge d.digits.printdigits challenge.1) challenge.2 = true ∧
      ∀ s : List Char, checkchallenge s challenge.2 = true ↔
        if 4 * (GF_DIGITS + 1) < (Bigint.hexpart s).length then challenge.2.val = 0
        else Bigint.hexvalue (Bigint.hexpart s) = challenge.2.val := by
  intro challenge
  refine ⟨?_, fun s => checkchallenge_iff s challenge.2⟩
  rw [answerchallenge_eq d c]
  exact checkchallenge_printdigits challenge.2

/-- Five zeros in front of the answer to the challenge of the two scalars one: it has one digit too
many and is refused, while with something else behind it the answer is accepted. -/
theorem long_answer_refused :
    let challenge := challengeOf (parsepubkey (pubkeyOf [1])) [1]
    let answer := List.replicate 5 '0' ++ challenge.2.printdigits
    (answer.all isxdigit ∧ Bigint.hexvalue answer = challenge.2.val ∧
      checkchallenge answer challenge.2 = false) ∧
      checkchallenge (challenge.2.printdigits ++ ['z']) challenge.2 = true := by
  have hbase : base.mul [1] = base := by decide +kernel
  have hkey : parsepubkey (pubkeyOf [1]) = base := by
    have hnorm : base.normalize = base := by decide +kernel
    rw [pubkeyOf, hbase, hnorm]
    exact parse_print is_base (by decide +kernel)
  have hkept : (challengeOf (parsepubkey (pubkeyOf [1])) [1]).2 = base.x := by
    rw [hkey, challengeOf, hbase]
    decide +kernel
  dsimp only
  rw [hkept]
  decide +kernel

/-! ## Seeds -/

/-- A buffer for a seed, and the memory behind it. -/
structure Seed (seedlen : Nat) where
  bytes : Vector UInt8 seedlen
  behind : Nat → UInt8

/-- What a pointer to the buffer leads to. -/
def Seed.mem {seedlen : Nat} (s : Seed seedlen) (i : Nat) : UInt8 :=
  if h : i < seedlen then s.bytes[i] else s.behind i

/-- What `genchallenge` hashes. -/
def challengeBlocks (sizeofptr : Nat) (seed : Nat → UInt8) : List (List UInt8) :=
  Tiger.hashblocks seed sizeofptr

/-- The challenge has nothing of the seed but what is hashed. -/
theorem genchallenge_eq (sizeofptr : Nat) (pubkey : Ecjacobian) (seed : Nat → UInt8)
    (seedlen : Int) : genchallenge sizeofptr pubkey seed seedlen =
      challengeOf pubkey (scalarOf ((challengeBlocks sizeofptr seed).foldl
        (fun s block => Tiger.compress Tiger.gensboxes block s) Tiger.init)) := rfl

/-- Of two seeds different bytes are hashed, and none that lie outside of the buffers. -/
def SeedsUsed (sizeofptr : Nat) {seedlen : Nat} (s s' : Seed seedlen) : Prop :=
  challengeBlocks sizeofptr s.mem ≠ challengeBlocks sizeofptr s'.mem ∧
    (∀ behind, challengeBlocks sizeofptr { s with behind }.mem = challengeBlocks sizeofptr s.mem) ∧
    ∀ behind, challengeBlocks sizeofptr { s' with behind }.mem = challengeBlocks sizeofptr s'.mem

/-- Every byte of the seed of a private key is hashed: another seed of the length changes what
is. -/
def KeySeedUsed (t : { t : List UInt8 // ∀ c ∈ t, c ≠ 0 }) : Prop :=
  ∀ t' : { t : List UInt8 // ∀ c ∈ t, c ≠ 0 }, t'.1.length = t.1.length → t' ≠ t →
    privkeyBlocks t'.1 ≠ privkeyBlocks t.1

section seeds

variable {sizeofptr seedlen : Nat} {s s' : Seed seedlen}

theorem challengeBlocks_inj {seed seed' : Nat → UInt8} :
    challengeBlocks sizeofptr seed = challengeBlocks sizeofptr seed' ↔
      ∀ i, i < sizeofptr → seed i = seed' i := by
  rw [challengeBlocks, challengeBlocks, Tiger.hashblocks_inj, Int.toNat_natCast]

/-- Nothing behind the buffer is hashed when a pointer is not longer than it. -/
theorem behind_unused_iff : (∀ behind, challengeBlocks sizeofptr { s with behind }.mem =
    challengeBlocks sizeofptr s.mem) ↔ sizeofptr ≤ seedlen := by
  constructor
  · intro h
    by_contra hlt
    have hat := challengeBlocks_inj.mp (h fun i => s.behind i + 1) seedlen (by omega)
    simp [Seed.mem] at hat
  · intro hle behind
    refine challengeBlocks_inj.mpr fun i hi => ?_
    simp [Seed.mem, show i < seedlen by omega]

theorem seedsUsed_iff : SeedsUsed sizeofptr s s' ↔
    sizeofptr ≤ seedlen ∧ ∃ i, ∃ h : i < seedlen, i < sizeofptr ∧ s.bytes[i] ≠ s'.bytes[i] := by
  rw [SeedsUsed, behind_unused_iff, behind_unused_iff, and_self, and_comm]
  refine and_congr_right fun hle => ?_
  rw [Ne, challengeBlocks_inj]
  constructor
  · intro h
    push Not at h
    obtain ⟨i, hi, hne⟩ := h
    have hlt : i < seedlen := by omega
    exact ⟨i, hlt, hi, by simpa [Seed.mem, hlt] using hne⟩
  · rintro ⟨i, hlt, hi, hne⟩ h
    exact hne (by simpa [Seed.mem, hlt] using h i hi)

end seeds

theorem toInt_toNat_le (n : Nat) : (toInt n).toNat < 2 ^ 31 := by
  unfold toInt
  rw [Int.bmod_def]
  split <;> omega

theorem toInt_eq {n : Nat} (h : n < 2 ^ 31) : (toInt n).toNat = n := by
  unfold toInt
  rw [Int.bmod_def]
  split <;> omega

theorem privkeyBlocks_inj {t t' : List UInt8} (h : t'.length = t.length) :
    privkeyBlocks t' = privkeyBlocks t ↔
      ∀ i, i < (toInt t.length).toNat → t'.getD i 0 = t.getD i 0 := by
  rw [privkeyBlocks, privkeyBlocks, h, Tiger.hashblocks_inj]

theorem keySeedUsed_iff (t : { t : List UInt8 // ∀ c ∈ t, c ≠ 0 }) :
    KeySeedUsed t ↔ t.1.length < 2 ^ 31 := by
  constructor
  · intro h
    by_contra hlong
    -- the last character is not hashed, so that another one in its place changes nothing
    obtain ⟨t, ht⟩ := t
    obtain rfl | ⟨init, last, rfl⟩ := t.eq_nil_or_concat'
    · simp at hlong
    have hnat := toInt_toNat_le (init ++ [last]).length
    have hother : ∃ c : UInt8, c ≠ 0 ∧ c ≠ last := by
      by_cases hone : last = 1
      · exact ⟨2, by decide, by rw [hone]; decide⟩
      · exact ⟨1, by decide, Ne.symm hone⟩
    obtain ⟨c, hc, hne⟩ := hother
    have ht' : ∀ d ∈ init ++ [c], d ≠ 0 := by
      intro d hd
      obtain hd | hd := List.mem_append.mp hd
      · exact ht d (List.mem_append_left _ hd)
      · rw [List.mem_singleton.mp hd]
        exact hc
    refine h ⟨init ++ [c], ht'⟩ (by simp) (by simpa using hne) ?_
    refine (privkeyBlocks_inj (by simp)).mpr fun i hi => ?_
    have hlt : i < init.length := by
      simp only [List.length_append, List.length_singleton] at hlong hi hnat
      omega
    simp [List.getElem?_append_left hlt]
  · intro hlt t' hlen hne hblocks
    refine hne (Subtype.ext (List.ext_getElem hlen fun i hi hi' => ?_))
    have hat := (privkeyBlocks_inj hlen).mp hblocks i (by rw [toInt_eq hlt]; exact hi')
    simpa [hi, hi'] using hat

/-- **What is used of a seed**: `genchallenge` hashes as many bytes as a pointer has, so that two
seeds make a difference when they differ within these; `genprivkey` hashes the whole text as long
as its length is an `int`. -/
theorem genchallenge_seed_iff (sizeofptr seedlen : Nat) (s s' : Seed seedlen)
    (t : { t : List UInt8 // ∀ c ∈ t, c ≠ 0 }) :
    (SeedsUsed sizeofptr s s' ↔ sizeofptr ≤ seedlen ∧
      ∃ i, ∃ h : i < seedlen, i < sizeofptr ∧ s.bytes[i] ≠ s'.bytes[i]) ∧
      (KeySeedUsed t ↔ t.1.length < 2 ^ 31) :=
  ⟨seedsUsed_iff, keySeedUsed_iff t⟩

/-- Twelve bytes that differ in the last four, on a machine with pointers of eight. -/
theorem seed_tail_unused :
    let s : Seed 12 := ⟨#v[1, 2, 3, 4, 5, 6, 7, 8, 0, 0, 0, 0], fun _ => 0⟩
    let s' : Seed 12 := ⟨#v[1, 2, 3, 4, 5, 6, 7, 8, 9, 10, 11, 12], fun _ => 0⟩
    s.bytes ≠ s'.bytes ∧ challengeBlocks 8 s.mem = challengeBlocks 8 s'.mem := by
  decide

end QServ
