import QServ.Masterserver.State

/-!
# Masks as texts

`ipmask::parse`, `ipmask::print` and `ipmask::check` of `shared/tools.cpp`.

* `parse_cases`: a mask consists of whole octets, or is that of a prefix.
* `parse_print`: its text is read back.
* `ipmask_exact`: this, and which hosts it matches.
-/

namespace QServ.IpMask

open Masterserver (printoctets printrange printsuffix printmask)

/-! ## Octets -/

/-- `b[i]`. -/
def byte (x i : Nat) : Nat := x / 256 ^ i % 256

/-- The octets below `i` are there as a whole or not at all, and the others are not. -/
structure Whole (i : Nat) (m : IpMask) : Prop where
  ip_lt : m.ip < 256 ^ i
  mask_lt : m.mask < 256 ^ i
  bytes : ∀ j, byte m.mask j = 0 ∧ byte m.ip j = 0 ∨ byte m.mask j = 255

theorem byte_lt (x i : Nat) : byte x i < 256 := Nat.mod_lt _ (by decide)

theorem byte_add {a b i : Nat} (ha : a < 256 ^ i) (hb : b < 256) (j : Nat) :
    byte (a + b * 256 ^ i) j = if j < i then byte a j else if j = i then b else 0 := by
  have hpos : ∀ k, 0 < 256 ^ k := fun k => Nat.pow_pos (by decide)
  unfold byte
  split
  · next hlt =>
    obtain ⟨d, rfl⟩ := Nat.exists_eq_add_of_lt hlt
    have hsplit : b * 256 ^ (j + d + 1) = 256 ^ j * (256 * (b * 256 ^ d)) := by
      rw [pow_succ, pow_add]
      ring
    rw [hsplit, Nat.add_mul_div_left _ _ (hpos j), Nat.add_mul_mod_self_left]
  · split
    · next heq =>
      rw [heq, Nat.mul_comm, Nat.add_mul_div_left _ _ (hpos i), Nat.div_eq_of_lt ha, Nat.zero_add,
        Nat.mod_eq_of_lt hb]
    · next hge hne =>
      have hle : 256 ^ (i + 1) ≤ 256 ^ j := Nat.pow_le_pow_right (by decide) (by omega)
      have hsucc : 256 ^ (i + 1) = 256 * 256 ^ i := by rw [pow_succ, Nat.mul_comm]
      have hmul : b * 256 ^ i ≤ 255 * 256 ^ i := Nat.mul_le_mul_right _ (by omega)
      rw [Nat.div_eq_of_lt (by omega), Nat.zero_mod]

theorem whole_zero : Whole 0 ⟨0, 0⟩ where
  ip_lt := by decide
  mask_lt := by decide
  bytes j := Or.inl ⟨by simp [byte], by simp [byte]⟩

theorem Whole.mono {i j : Nat} {m : IpMask} (h : Whole i m) (hij : i ≤ j) : Whole j m :=
  have hle : 256 ^ i ≤ 256 ^ j := Nat.pow_le_pow_right (by decide) hij
  ⟨lt_of_lt_of_le h.ip_lt hle, lt_of_lt_of_le h.mask_lt hle, h.bytes⟩

/-- **An octet** of any number. -/
theorem Whole.octet {i : Nat} {m : IpMask} (h : Whole i m) (n : Int) :
    Whole (i + 1) (m.octet i n) := by
  have hn : (n % 256).toNat < 256 := by omega
  have hip := h.ip_lt
  have hmask := h.mask_lt
  have hmul : (n % 256).toNat * 256 ^ i ≤ 255 * 256 ^ i := Nat.mul_le_mul_right _ (by omega)
  constructor
  · simp only [IpMask.octet, pow_succ]
    omega
  · simp only [IpMask.octet, pow_succ]
    omega
  · intro j
    simp only [IpMask.octet]
    rw [byte_add hip hn, byte_add hmask (by decide)]
    split
    · exact h.bytes j
    · split
      · exact Or.inr rfl
      · exact Or.inl ⟨rfl, rfl⟩

theorem testBit_byte (x i : Nat) : x.testBit i = (byte x (i / 8)).testBit (i % 8) := by
  have hpow : 256 ^ (i / 8) = 2 ^ (8 * (i / 8)) := by norm_num [pow_mul]
  have hlt : i % 8 < 8 := Nat.mod_lt _ (by decide)
  have hmod : ∀ y : Nat, y % 256 = y % 2 ^ 8 := fun y => rfl
  unfold byte
  rw [hmod, Nat.testBit_mod_two_pow, hpow, Nat.testBit_div_two_pow, decide_eq_true hlt,
    Bool.true_and, Nat.add_comm, Nat.div_add_mod]

theorem eq_of_bytes {x y : Nat} (h : ∀ j, byte x j = byte y j) : x = y := by
  apply Nat.eq_of_testBit_eq
  intro i
  rw [testBit_byte, h, ← testBit_byte]

theorem byte_and (x y j : Nat) : byte (x &&& y) j = byte x j &&& byte y j := by
  have hpow : 256 ^ j = 2 ^ (8 * j) := by norm_num [pow_mul]
  have hmod : ∀ z : Nat, z % 256 = z % 2 ^ 8 := fun z => rfl
  unfold byte
  rw [hpow, Nat.and_div_two_pow, hmod, Nat.and_mod_two_pow]

/-- An address has no bit outside its mask. -/
theorem Whole.sub {i : Nat} {m : IpMask} (h : Whole i m) : m.ip &&& m.mask = m.ip := by
  apply eq_of_bytes
  intro j
  rw [byte_and]
  obtain ⟨-, hip⟩ | hmask := h.bytes j
  · rw [hip, Nat.zero_and]
  · rw [hmask]
    exact Nat.and_two_pow_sub_one_of_lt_two_pow (n := 8) (byte_lt m.ip j)

/-! ## What is parsed -/

/-- `ipconv` and `maskconv` as the loop of `parse` leaves them, and the text behind the `'/'` that
ends it. -/
def convertFrom : Nat → Nat → IpMask → List UInt8 → IpMask × Option (List UInt8)
  | 0, _, m, _ => (m, none)
  | n + 1, i, m, name =>
    let (v, rest) := strtol name
    let m := if rest.length < name.length then m.octet i v else m
    match skip rest with
    | .inl rest => convertFrom n (i + 1) m rest
    | .inr rest => (m, some rest)

/-- The address and the octets that a text names, and the text of its prefix. -/
def convert (name : List UInt8) : IpMask × Option (List UInt8) := convertFrom 4 0 ⟨0, 0⟩ name

/-- A mask with the bits of a prefix. -/
def close (m : IpMask) : Option (List UInt8) → IpMask
  | none => m
  | some name => m.range name

theorem parseFrom_eq (n : Nat) : ∀ (i : Nat) (m : IpMask) (name : List UInt8),
    parseFrom n i m name = close (convertFrom n i m name).1 (convertFrom n i m name).2 := by
  induction n with
  | zero =>
    intro i m name
    rfl
  | succ n ih =>
    intro i m name
    unfold parseFrom convertFrom
    dsimp only
    cases skip (strtol name).2 with
    | inl rest => exact ih _ _ rest
    | inr rest => rfl

theorem parse_eq (name : List UInt8) : parse name = close (convert name).1 (convert name).2 :=
  parseFrom_eq 4 0 ⟨0, 0⟩ name

theorem whole_convertFrom (n : Nat) : ∀ {i : Nat} {m : IpMask}, Whole i m →
    ∀ name, Whole (i + n) (convertFrom n i m name).1 := by
  induction n with
  | zero =>
    intro i m h name
    exact h
  | succ n ih =>
    intro i m h name
    have hoctet : Whole (i + 1) (if (strtol name).2.length < name.length then
        m.octet i (strtol name).1 else m) := by
      split
      · exact h.octet _
      · exact h.mono (Nat.le_succ i)
    unfold convertFrom
    dsimp only
    split
    · have hrest := ih hoctet
      rw [Nat.add_right_comm] at hrest
      exact hrest _
    · exact hoctet.mono (by omega)

theorem whole_convert (name : List UInt8) : Whole 4 (convert name).1 :=
  whole_convertFrom 4 whole_zero name

/-- The mask is that of a prefix. -/
structure Prefixed (r : Nat) (m : IpMask) : Prop where
  pos : r ≠ 0
  le : r ≤ 32
  mask : m.mask = prefixmask r
  sub : m.ip &&& m.mask = m.ip

/-- **A mask that was parsed** consists of whole octets, or is that of a prefix, and the address is
the one that was named, as far as the mask goes. -/
theorem parse_cases (name : List UInt8) :
    (parse name).ip = (convert name).1.ip &&& (parse name).mask ∧
    (Whole 4 (parse name) ∨ ∃ r, Prefixed r (parse name)) := by
  have hwhole := whole_convert name
  rw [parse_eq]
  cases (convert name).2 with
  | none => exact ⟨hwhole.sub.symm, Or.inl hwhole⟩
  | some rest =>
    refine ⟨rfl, ?_⟩
    unfold close range
    dsimp only
    by_cases hzero : (max 0 (min (int32 (strtol rest).1) 32)).toNat = 0
    · left
      rw [if_neg (not_not.mpr hzero), hwhole.sub]
      exact hwhole
    · right
      rw [if_pos hzero]
      refine ⟨_, hzero, by omega, rfl, ?_⟩
      dsimp only
      rw [Nat.and_assoc, Nat.and_self]

/-! ## What is printed is parsed -/

theorem strtol_decimal {b : Nat} (hb : b < 256) {rest : List UInt8}
    (hrest : rest.head?.all (fun c => !isnumeral c) = true) :
    strtol (decimal b ++ rest) = ((b : Int), rest) := by
  obtain ⟨hnum, hne, hval⟩ := decimal_spec (n := b) (by omega)
  obtain ⟨c, cs, hcs⟩ : ∃ c cs, decimal b = c :: cs := List.exists_cons_of_ne_nil hne
  have hc : isnumeral c = true := hnum c (by rw [hcs]; exact List.mem_cons_self)
  have hspace : isspace c = false ∧ c ≠ 45 ∧ c ≠ 43 := by
    revert hc
    unfold isnumeral isspace
    grind
  have htake : (decimal b ++ rest).takeWhile isnumeral = decimal b := by
    rw [List.takeWhile_append_of_pos hnum]
    cases rest with
    | nil => exact List.append_nil _
    | cons d ds =>
      have hd : isnumeral d = false := by simpa using hrest
      rw [List.takeWhile_cons_of_neg (by simp [hd]), List.append_nil]
  have hdrop : (decimal b ++ rest).dropWhile isspace = decimal b ++ rest := by
    rw [hcs, List.cons_append, List.dropWhile_cons_of_neg (by simp [hspace.1])]
  have hhead : (decimal b ++ rest).head? = some c := by rw [hcs]; rfl
  have hminus : ¬ (decimal b ++ rest).head? = some 45 := by
    rw [hhead]
    exact fun h => hspace.2.1 (Option.some.inj h)
  have hplus : ¬ (decimal b ++ rest).head? = some 43 := by
    rw [hhead]
    exact fun h => hspace.2.2 (Option.some.inj h)
  have hmin : min (numeral (decimal b)) (2 ^ 63 - 1) = b := by
    have hnat : numeral (decimal b) = b := by exact_mod_cast hval
    rw [hnat]
    omega
  unfold strtol
  simp only [hdrop, hminus, hplus, or_self, if_false, htake, hne, List.drop_left, hmin]

/-- No number begins with `c`. -/
theorem strtol_cons {c : UInt8} (hc : isspace c = false ∧ c ≠ 45 ∧ c ≠ 43 ∧ isnumeral c = false)
    (rest : List UInt8) : strtol (c :: rest) = (0, c :: rest) := by
  obtain ⟨hspace, hminus, hplus, hnum⟩ := hc
  have hdrop : (c :: rest).dropWhile isspace = c :: rest :=
    List.dropWhile_cons_of_neg (by simp [hspace])
  unfold strtol
  simp only [hdrop, List.head?_cons, Option.some.injEq, hminus, hplus, or_self, if_false,
    List.takeWhile_cons, hnum, Bool.false_eq_true, if_true]

/-- `parse` behind the number of an octet. -/
def resume (n i : Nat) (m : IpMask) (rest : List UInt8) : IpMask :=
  (skip rest).elim (parseFrom n i m) m.range

theorem parseFrom_eq_resume (n i : Nat) (m : IpMask) (name : List UInt8) :
    parseFrom (n + 1) i m name = resume n (i + 1)
      (if (strtol name).2.length < name.length then m.octet i (strtol name).1 else m)
      (strtol name).2 := by
  unfold parseFrom resume
  dsimp only
  cases skip (strtol name).2 with
  | inl rest => rfl
  | inr rest => rfl

theorem parseFrom_decimal {b : Nat} (hb : b < 256) {rest : List UInt8}
    (hrest : rest.head?.all (fun c => !isnumeral c) = true) (n i : Nat) (m : IpMask) :
    parseFrom (n + 1) i m (decimal b ++ rest) = resume n (i + 1) (m.octet i b) rest := by
  have hlen : rest.length < (decimal b ++ rest).length := by
    have hpos := List.length_pos_of_ne_nil (decimal_spec (n := b) (by omega)).2.1
    rw [List.length_append]
    omega
  rw [parseFrom_eq_resume, strtol_decimal hb hrest, if_pos hlen]

theorem parseFrom_cons {c : UInt8} (hc : isspace c = false ∧ c ≠ 45 ∧ c ≠ 43 ∧ isnumeral c = false)
    (n i : Nat) (m : IpMask) (rest : List UInt8) :
    parseFrom (n + 1) i m (c :: rest) = resume n (i + 1) m (c :: rest) := by
  rw [parseFrom_eq_resume, strtol_cons hc, if_neg (Nat.lt_irrefl _)]

theorem parseFrom_nil (n : Nat) : ∀ (i : Nat) (m : IpMask), parseFrom n i m [] = m := by
  induction n with
  | zero =>
    intro i m
    rfl
  | succ n ih =>
    intro i m
    exact ih (i + 1) m

/-- Wildcards leave their octets out. -/
theorem parseFrom_stars (k : Nat) : ∀ (n i : Nat) (m : IpMask) (rest : List UInt8),
    parseFrom (k + n) i m ((List.replicate k [42, 46]).flatten ++ rest) =
      parseFrom n (i + k) m rest := by
  induction k with
  | zero =>
    intro n i m rest
    rw [Nat.zero_add]
    rfl
  | succ k ih =>
    intro n i m rest
    have hstar : isspace 42 = false ∧ (42 : UInt8) ≠ 45 ∧ (42 : UInt8) ≠ 43 ∧
        isnumeral 42 = false := by
      decide
    rw [List.replicate_succ, List.flatten_cons, List.append_assoc, Nat.add_right_comm]
    refine (parseFrom_cons hstar (k + n) i m _).trans ?_
    refine (ih n (i + 1) m rest).trans ?_
    rw [Nat.add_right_comm, Nat.add_assoc]

/-- The text of a prefix. -/
def slash : Option (List UInt8) → List UInt8
  | none => []
  | some rest => 47 :: rest

/-- The octets of a mask from `i` on, of which there are `n` more, one by one. -/
def gather (m : IpMask) : Nat → Nat → IpMask → IpMask
  | 0, _, acc => acc
  | n + 1, i, acc =>
    gather m n (i + 1) (if byte m.mask i = 0 then acc else acc.octet i (byte m.ip i : Nat))

theorem head_printoctets (m : IpMask) (rest : Option (List UInt8)) (n : Nat) : ∀ {i next : Nat},
    next ≠ 0 → (printoctets m n i next ++ slash rest).head?.all (fun c => !isnumeral c) = true := by
  induction n with
  | zero =>
    intro i next _
    cases rest with
    | none => rfl
    | some rest => rfl
  | succ n ih =>
    intro i next hnext
    unfold printoctets
    split
    · exact ih hnext
    · rfl

/-- Behind an octet. -/
theorem resume_printoctets (m : IpMask) (rest : Option (List UInt8)) (n : Nat) :
    ∀ (i next : Nat) (acc : IpMask), next ≠ 0 → next ≤ i →
      resume (i - next + n) next acc (printoctets m n i next ++ slash rest) =
        close (gather m n i acc) rest := by
  induction n with
  | zero =>
    intro i next acc _ _
    cases rest with
    | none => exact parseFrom_nil _ _ _
    | some rest => rfl
  | succ n ih =>
    intro i next acc hnext hle
    unfold printoctets gather byte
    split
    · have hcount : i - next + (n + 1) = i + 1 - next + n := by omega
      rw [hcount]
      exact ih _ _ acc hnext (by omega)
    · simp only [List.append_assoc, List.singleton_append]
      refine (parseFrom_stars (i - next) (n + 1) next acc _).trans ?_
      rw [Nat.add_sub_cancel' hle]
      refine (parseFrom_decimal (byte_lt m.ip i) (head_printoctets m rest n (Nat.succ_ne_zero i))
        n i acc).trans ?_
      have h := ih (i + 1) (i + 1) (acc.octet i (byte m.ip i : Nat)) (Nat.succ_ne_zero i)
        (Nat.le_refl _)
      rwa [Nat.sub_self, Nat.zero_add] at h

/-- **What is printed** gives the octets back. -/
theorem parseFrom_printoctets (m : IpMask) (rest : Option (List UInt8)) (n : Nat) :
    ∀ {i : Nat} (acc : IpMask), 0 < i + n →
      parseFrom (i + n) 0 acc (printoctets m n i 0 ++ slash rest) =
        close (gather m n i acc) rest := by
  induction n with
  | zero =>
    intro i acc hpos
    cases rest with
    | none => exact parseFrom_nil _ _ _
    | some rest =>
      obtain ⟨k, rfl⟩ : ∃ k, i = k + 1 := ⟨i - 1, by omega⟩
      exact parseFrom_cons (by decide) k 0 acc rest
  | succ n ih =>
    intro i acc hpos
    unfold printoctets gather byte
    split
    · have hcount : i + (n + 1) = i + 1 + n := by omega
      rw [hcount]
      exact ih acc (by omega)
    · rw [if_neg (not_not.mpr rfl), List.nil_append, List.append_assoc, List.append_assoc]
      refine (parseFrom_stars i (n + 1) 0 acc _).trans ?_
      rw [Nat.zero_add]
      refine (parseFrom_decimal (byte_lt m.ip i) (head_printoctets m rest n (Nat.succ_ne_zero i))
        n i acc).trans ?_
      have h := resume_printoctets m rest n (i + 1) (i + 1) (acc.octet i (byte m.ip i : Nat))
        (Nat.succ_ne_zero i) (Nat.le_refl _)
      rwa [Nat.sub_self, Nat.zero_add] at h

theorem mod_succ (x i : Nat) : x % 256 ^ (i + 1) = x % 256 ^ i + byte x i * 256 ^ i := by
  rw [Nat.mod_pow_succ, Nat.mul_comm]
  rfl

theorem gather_ip {m : IpMask} (h : ∀ j, byte m.mask j = 0 → byte m.ip j = 0) (n : Nat) :
    ∀ {i : Nat} {acc : IpMask}, acc.ip = m.ip % 256 ^ i →
      (gather m n i acc).ip = m.ip % 256 ^ (i + n) := by
  induction n with
  | zero =>
    intro i acc hacc
    exact hacc
  | succ n ih =>
    intro i acc hacc
    rw [← Nat.add_assoc, Nat.add_right_comm]
    refine ih ?_
    rw [mod_succ]
    split
    · next hzero => rw [hacc, h i hzero, Nat.zero_mul, Nat.add_zero]
    · have hlt := byte_lt m.ip i
      have hmod : ((byte m.ip i : Int) % 256).toNat = byte m.ip i := by omega
      simp only [IpMask.octet, hmod, hacc]

theorem gather_mask {m : IpMask} (h : ∀ j, byte m.mask j = 0 ∨ byte m.mask j = 255) (n : Nat) :
    ∀ {i : Nat} {acc : IpMask}, acc.mask = m.mask % 256 ^ i →
      (gather m n i acc).mask = m.mask % 256 ^ (i + n) := by
  induction n with
  | zero =>
    intro i acc hacc
    exact hacc
  | succ n ih =>
    intro i acc hacc
    rw [← Nat.add_assoc, Nat.add_right_comm]
    refine ih ?_
    rw [mod_succ]
    split
    · next hzero => rw [hacc, hzero, Nat.zero_mul, Nat.add_zero]
    · next hset => rw [(h i).resolve_left hset, ← hacc, IpMask.octet]

/-- The suffix that `print` writes. -/
def suffix (mask : Nat) : Option (List UInt8) :=
  let p := printrange 32 (2 ^ 32 - 1 - htonl mask) 32
  if p.1 = 0 ∧ p.2 % 8 ≠ 0 then some (decimal p.2) else none

theorem slash_suffix (p : Nat × Nat) : printsuffix p =
    slash (if p.1 = 0 ∧ p.2 % 8 ≠ 0 then some (decimal p.2) else none) := by
  obtain ⟨bits, range⟩ := p
  simp only [printsuffix]
  split
  · rfl
  · rfl

/-- **What is printed**, parsed again. -/
theorem parse_printmask (m : IpMask) :
    parse (printmask m) = close (gather m 4 0 ⟨0, 0⟩) (suffix m.mask) := by
  unfold printmask
  rw [slash_suffix]
  exact parseFrom_printoctets m (suffix m.mask) 4 (i := 0) ⟨0, 0⟩ (by decide)

/-- No suffix is printed behind whole octets. -/
theorem Whole.suffix {m : IpMask} (h : Whole 4 m) : suffix m.mask = none := by
  have hall : ∀ a ∈ [0, 255], ∀ b ∈ [0, 255], ∀ c ∈ [0, 255], ∀ d ∈ [0, 255],
      IpMask.suffix (a + 256 * b + 65536 * c + 16777216 * d) = none := by decide +kernel
  have hbytes : ∀ j, byte m.mask j ∈ [0, 255] := fun j => by
    obtain ⟨hzero, -⟩ | hset := h.bytes j
    · simp [hzero]
    · simp [hset]
  have hsum : m.mask = byte m.mask 0 + 256 * byte m.mask 1 + 65536 * byte m.mask 2 +
      16777216 * byte m.mask 3 := by
    have hlt := h.mask_lt
    simp only [byte]
    omega
  rw [hsum]
  exact hall _ (hbytes 0) _ (hbytes 1) _ (hbytes 2) _ (hbytes 3)

theorem Whole.parse_print {m : IpMask} (h : Whole 4 m) : parse (printmask m) = m := by
  have hip : (gather m 4 0 ⟨0, 0⟩).ip = m.ip % 256 ^ (0 + 4) := gather_ip (fun j hj => by
    obtain ⟨-, hzero⟩ | hset := h.bytes j
    · exact hzero
    · rw [hset] at hj
      cases hj) 4 (Nat.mod_one m.ip).symm
  have hmask : (gather m 4 0 ⟨0, 0⟩).mask = m.mask % 256 ^ (0 + 4) :=
    gather_mask (fun j => (h.bytes j).imp_left And.left) 4 (Nat.mod_one m.mask).symm
  rw [Nat.mod_eq_of_lt h.ip_lt] at hip
  rw [Nat.mod_eq_of_lt h.mask_lt] at hmask
  rw [parse_printmask, h.suffix]
  change gather m 4 0 ⟨0, 0⟩ = ⟨m.ip, m.mask⟩
  rw [← hip, ← hmask]

/-- The prefixes: one of whole octets needs no suffix. -/
theorem prefixmask_cases {r : Nat} (hle : r ≤ 32) (hpos : r ≠ 0) : prefixmask r < 256 ^ 4 ∧
    if r % 8 = 0 then ∀ j < 4, byte (prefixmask r) j = 0 ∨ byte (prefixmask r) j = 255
    else suffix (prefixmask r) = some (decimal r) := by
  have hall : ∀ r ∈ List.range 33, r ≠ 0 → prefixmask r < 256 ^ 4 ∧
      if r % 8 = 0 then ∀ j < 4, byte (prefixmask r) j = 0 ∨ byte (prefixmask r) j = 255
      else suffix (prefixmask r) = some (decimal r) := by
    decide +kernel
  exact hall r (List.mem_range.mpr (by omega)) hpos

theorem Prefixed.byte_eq_zero {r : Nat} {m : IpMask} (h : Prefixed r m) {j : Nat}
    (hj : byte m.mask j = 0) : byte m.ip j = 0 := by
  rw [← h.sub, byte_and, hj, Nat.and_zero]

theorem Prefixed.parse_print {r : Nat} {m : IpMask} (h : Prefixed r m) :
    parse (printmask m) = m := by
  obtain ⟨hlt, hcases⟩ := prefixmask_cases h.le h.pos
  rw [← h.mask] at hlt
  have hip : m.ip < 256 ^ 4 := by
    rw [← h.sub]
    exact lt_of_le_of_lt Nat.and_le_right hlt
  split at hcases
  · -- the octets are whole
    refine Whole.parse_print ⟨hip, hlt, fun j => ?_⟩
    by_cases hj : j < 4
    · obtain hzero | hset := hcases j hj
      · rw [← h.mask] at hzero
        exact Or.inl ⟨hzero, h.byte_eq_zero hzero⟩
      · rw [← h.mask] at hset
        exact Or.inr hset
    · have hle : 256 ^ 4 ≤ 256 ^ j := Nat.pow_le_pow_right (by decide) (by omega)
      have hzero : ∀ x < 256 ^ 4, byte x j = 0 := fun x hx => by
        unfold byte
        rw [Nat.div_eq_of_lt (lt_of_lt_of_le hx hle), Nat.zero_mod]
      exact Or.inl ⟨hzero _ hlt, hzero _ hip⟩
  · have hgather : (gather m 4 0 ⟨0, 0⟩).ip = m.ip % 256 ^ (0 + 4) :=
      gather_ip (fun j hj => h.byte_eq_zero hj) 4 (Nat.mod_one m.ip).symm
    rw [Nat.mod_eq_of_lt hip] at hgather
    have hstrtol : strtol (decimal (r : Nat)) = ((r : Int), []) := by
      have hle := h.le
      have hnum : strtol (decimal (r : Nat) ++ []) = ((r : Int), []) :=
        strtol_decimal (by omega) rfl
      rwa [List.append_nil] at hnum
    have hclamp : (max 0 (min (int32 (r : Nat)) 32)).toNat = r := by
      have hle := h.le
      rw [int32_of_lt (by omega) (by omega)]
      omega
    have hsuffix : suffix m.mask = some (decimal (r : Nat)) := by rw [h.mask, hcases]
    rw [parse_printmask, hsuffix]
    unfold close range
    dsimp only
    rw [hstrtol, hclamp, if_pos h.pos, ← h.mask, hgather, h.sub]

/-- **Masks**: what is parsed is printed so that it is parsed again as the same, has no bit outside
the mask, and matches the hosts with the bits that were named, as far as the mask goes. -/
theorem ipmask_exact (name : List UInt8) :
    parse (printmask (parse name)) = parse name ∧
    (∀ i, (parse name).ip.testBit i = true → (parse name).mask.testBit i = true) ∧
    ∀ host, (parse name).check host = true ↔ ∀ i, (parse name).mask.testBit i = true →
      host.testBit i = (convert name).1.ip.testBit i := by
  obtain ⟨hip, hcases⟩ := parse_cases name
  refine ⟨?_, fun i hi => ?_, fun host => ?_⟩
  · obtain hwhole | ⟨r, hr⟩ := hcases
    · exact hwhole.parse_print
    · exact hr.parse_print
  · rw [hip, Nat.testBit_and, Bool.and_eq_true] at hi
    exact hi.2
  · rw [check, decide_eq_true_eq, hip]
    constructor
    · intro h i hi
      have hbit := congrArg (fun x => x.testBit i) h
      simpa only [Nat.testBit_and, hi, Bool.and_true] using hbit
    · intro h
      apply Nat.eq_of_testBit_eq
      intro i
      rw [Nat.testBit_and, Nat.testBit_and]
      cases hi : (parse name).mask.testBit i with
      | true => rw [h i hi]
      | false => rw [Bool.and_false, Bool.and_false]

end QServ.IpMask
