import Mathlib.Data.PNat.Notation
import QServ.Lib.Wire
import QServ.Shared.DataBuf

/-!
# The fields of a packet

The writers and readers of `engine/server.cpp`: an integer takes one, three or five bytes, an
unsigned one up to four, a float its four bytes, a string one integer for each character and a
zero.  A packet is their concatenation, with no frame around a field.

* `getint_putint`, `getuint_putuint`, `getfloat_putfloat`: the numbers read back what was written.
* `getstring_sendstring`: so does a string that is shorter than the buffer of its reader.
* `getstring_long`: from a longer one the reader takes as many characters as the buffer has and
  leaves the rest of them in the packet.
* `readsback_iff`: a packet is read back field by field when all its strings are of the first kind.
-/

namespace QServ

open Wire

/-! ## Writers -/

/-- `putuint_(p, n)`, for negative numbers too. -/
def putuint_ (n : Int) : List UInt8 :=
  if n < 0 ∨ 2 ^ 21 ≤ n then
    [byte (0x80 + n % 128), byte (0x80 + n / 2 ^ 7 % 128), byte (0x80 + n / 2 ^ 14 % 128),
      byte (n / 2 ^ 21)]
  else if n < 2 ^ 7 then [byte n]
  else if n < 2 ^ 14 then [byte (0x80 + n % 128), byte (n / 2 ^ 7)]
  else [byte (0x80 + n % 128), byte (0x80 + n / 2 ^ 7 % 128), byte (n / 2 ^ 14)]

/-- `putfloat(p, f)`: the bytes of the float, the lowest first. -/
def putfloat (f : UInt32) : List UInt8 :=
  [byte f.toNat, byte (f.toNat / 2 ^ 8), byte (f.toNat / 2 ^ 16), byte (f.toNat / 2 ^ 24)]

/-- A C string: signed characters, none of them zero. -/
abbrev CString := { t : List Int8 // ∀ c ∈ t, c ≠ 0 }

/-- `sendstring(t, p)`. -/
def sendstring (t : List Int8) : List UInt8 := t.flatMap (fun c => putint c.toInt) ++ putint 0

/-! ## Readers -/

/-- `ucharbuf`: what has not been read yet, and whether more than there was has been asked for. -/
structure Ucharbuf where
  rest : List UInt8
  overread : Bool := false
deriving DecidableEq, Repr

namespace Ucharbuf

/-- `p.get()`. -/
def get : StateM Ucharbuf UInt8 := fun p =>
  match p.rest with
  | b :: rest => (b, { p with rest := rest })
  | [] => (0, { p with overread := true })

/-- `p.get(vals, numvals)`: the bytes there were. -/
def gets (numvals : Nat) : StateM Ucharbuf (List UInt8) := fun p =>
  (p.rest.take numvals,
    { rest := p.rest.drop numvals, overread := p.overread || decide (p.rest.length < numvals) })

/-- `p.remaining()`. -/
def remaining : StateM Ucharbuf Nat := fun p => (p.rest.length, p)

end Ucharbuf

/-- A buffer with these bytes in it. -/
def ucharbuf (bytes : List UInt8) : Ucharbuf := { rest := bytes }

/-- `getint(p)`. -/
def getint : StateM Ucharbuf Int32 := do
  let c := (← Ucharbuf.get).toInt8
  if c = -128 then
    let n0 ← Ucharbuf.get
    let n1 ← Ucharbuf.get
    return (Int16.ofNat (n0.toNat + n1.toNat * 2 ^ 8)).toInt32
  else if c = -127 then
    let n0 ← Ucharbuf.get
    let n1 ← Ucharbuf.get
    let n2 ← Ucharbuf.get
    let n3 ← Ucharbuf.get
    return Int32.ofNat (n0.toNat + n1.toNat * 2 ^ 8 + n2.toNat * 2 ^ 16 + n3.toNat * 2 ^ 24)
  else return c.toInt32

/-- `getuint(p)`: the top bit of a byte says that another one follows, that of the fourth byte
is the sign. -/
def getuint : StateM Ucharbuf Int := do
  let n := (← Ucharbuf.get).toNat
  if n.testBit 7 then
    let n := n + (← Ucharbuf.get).toNat * 2 ^ 7 - 0x80
    if n.testBit 14 then
      let n := n + (← Ucharbuf.get).toNat * 2 ^ 14 - 2 ^ 14
      if n.testBit 21 then
        let n := n + (← Ucharbuf.get).toNat * 2 ^ 21 - 2 ^ 21
        -- `n |= -1u<<28` of a number below `1<<29`
        return if n.testBit 28 then n - 2 ^ 29 else n
      else return n
    else return n
  else return n

/-- `getfloat(p)`; nothing when some of the four bytes are missing, and the variable keeps what
happened to be in it. -/
def getfloat : StateM Ucharbuf (Option UInt32) := do
  match ← Ucharbuf.gets 4 with
  | [b0, b1, b2, b3] => return some (UInt32.ofNat
      (b0.toNat + b1.toNat * 2 ^ 8 + b2.toNat * 2 ^ 16 + b3.toNat * 2 ^ 24))
  | _ => return none

/-- The loop of `getstring`, with room for as many characters more. -/
def getchars : Nat → StateM Ucharbuf (List Int8)
  | 0 => return []
  | room + 1 => do
    if (← Ucharbuf.remaining) = 0 then return []
    let c := (← getint).toInt8
    if c = 0 then return []
    return c :: (← getchars room)

/-- `getstring(text, p, len)`: of `len` characters the last is overwritten by the zero. -/
def getstring (len : Nat) : StateM Ucharbuf (List Int8) := do
  return (← getchars len).take (len - 1)

/-! ## Bytes -/

theorem byte_toNat (n : Int) : ((byte n).toNat : Int) = n % 256 := by
  have h := Int.emod_nonneg n (by decide : (256 : Int) ≠ 0)
  have h' := Int.emod_lt_of_pos n (by decide : (0 : Int) < 256)
  simp only [byte, UInt8.toNat_ofNat']
  omega

theorem byte_toInt8 (n : Int) : (byte n).toInt8.toInt = n.bmod 256 := by
  have h := Int.emod_nonneg n (by decide : (256 : Int) ≠ 0)
  have hn : (byte n).toInt8 = Int8.ofNat (n % 256).toNat := UInt8.toInt8_ofNat'
  rw [hn, Int8.toInt_ofNat', Int.toNat_of_nonneg h]
  exact Int.emod_bmod n 256

theorem get_reads (b : UInt8) : Reads ucharbuf Ucharbuf.get [b] b := fun _ => rfl

/-- A reader that begins with `p.get()`. -/
theorem Reads.byte {α : Type} {k : UInt8 → StateM Ucharbuf α} {b : UInt8} {bs : List UInt8} {a : α}
    (h : Reads ucharbuf (k b) bs a) : Reads ucharbuf (Ucharbuf.get >>= k) (b :: bs) a :=
  Reads.bind (get_reads b) h

/-! ## Integers -/

/-- A byte that is neither of the two marks is the number itself. -/
theorem getint_one {n : Int32} (h : n.toInt < 128) (h' : -127 < n.toInt) :
    Reads ucharbuf getint [byte n.toInt] n := by
  have hc : (byte n.toInt).toInt8.toInt = n.toInt := by
    rw [byte_toInt8, Int.bmod_def]
    split <;> omega
  have hne : (byte n.toInt).toInt8 ≠ -128 := by
    intro h
    simp [h] at hc
    omega
  have hne' : (byte n.toInt).toInt8 ≠ -127 := by
    intro h
    simp [h] at hc
    omega
  have hval : (byte n.toInt).toInt8.toInt32 = n := by
    rw [← Int32.toInt_inj, Int8.toInt_toInt32, hc]
  unfold getint
  refine Reads.byte ?_
  rw [if_neg hne, if_neg hne', hval]
  exact Reads.pure n

theorem getint_two {n : Int32} (h : n.toInt < 0x8000) (h' : -0x8000 ≤ n.toInt) :
    Reads ucharbuf getint [0x80, byte n.toInt, byte (n.toInt / 2 ^ 8)] n := by
  have hb0 := byte_toNat n.toInt
  have hb1 := byte_toNat (n.toInt / 2 ^ 8)
  have hval : (Int16.ofNat ((byte n.toInt).toNat + (byte (n.toInt / 2 ^ 8)).toNat * 2 ^ 8)).toInt32
      = n := by
    rw [← Int32.toInt_inj, Int16.toInt_toInt32, Int16.toInt_ofNat', Int.bmod_def, Int16.size]
    split <;> omega
  refine Reads.byte (Reads.byte (Reads.byte ?_))
  rw [hval]
  exact Reads.pure n

theorem getint_four (n : Int32) :
    Reads ucharbuf getint [0x81, byte n.toInt, byte (n.toInt / 2 ^ 8), byte (n.toInt / 2 ^ 16),
      byte (n.toInt / 2 ^ 24)] n := by
  have hlo := Int32.le_toInt n
  have hhi := Int32.toInt_lt n
  have hb0 := byte_toNat n.toInt
  have hb1 := byte_toNat (n.toInt / 2 ^ 8)
  have hb2 := byte_toNat (n.toInt / 2 ^ 16)
  have hb3 := byte_toNat (n.toInt / 2 ^ 24)
  have hval : Int32.ofNat ((byte n.toInt).toNat + (byte (n.toInt / 2 ^ 8)).toNat * 2 ^ 8
      + (byte (n.toInt / 2 ^ 16)).toNat * 2 ^ 16 + (byte (n.toInt / 2 ^ 24)).toNat * 2 ^ 24) = n := by
    rw [← Int32.toInt_inj, Int32.toInt_ofNat', Int.bmod_def, Int32.size]
    split <;> omega
  refine Reads.byte (Reads.byte (Reads.byte (Reads.byte (Reads.byte ?_))))
  rw [hval]
  exact Reads.pure n

/-- Every 32-bit number is read back. -/
theorem getint_putint (n : Int32) : Reads ucharbuf getint (putint n.toInt) n := by
  unfold putint
  split
  · rename_i h
    exact getint_one h.1 h.2
  · split
    · rename_i h
      exact getint_two h.1 h.2
    · exact getint_four n

/-- The writer of lengths is the one of all numbers. -/
theorem putuint_natCast (n : Nat) : putuint_ n = putuint n := by
  unfold putuint_ putuint
  by_cases h : 2 ^ 21 ≤ n
  · rw [if_pos (Or.inr (by omega)), if_pos h]
  · rw [if_neg (by omega), if_neg h]
    simp only [show ((n : Int) < 2 ^ 7) = (n < 2 ^ 7) by simp only [eq_iff_iff]; omega,
      show ((n : Int) < 2 ^ 14) = (n < 2 ^ 14) by simp only [eq_iff_iff]; omega]

/-- Whether another byte follows. -/
theorem testBit_iff {n i : Nat} : n.testBit i = true ↔ n / 2 ^ i % 2 = 1 := by
  rw [Nat.testBit_eq_decide_div_mod_eq, decide_eq_true_iff]

/-- Every number of 28 bits and a sign is read back. -/
theorem getuint_putuint {n : Int} (h : -2 ^ 28 ≤ n) (h' : n < 2 ^ 28) :
    Reads ucharbuf getuint (putuint_ n) n := by
  have hb0 := byte_toNat (0x80 + n % 128)
  have hb1 := byte_toNat (0x80 + n / 2 ^ 7 % 128)
  have hb2 := byte_toNat (0x80 + n / 2 ^ 14 % 128)
  unfold putuint_ getuint
  by_cases hfour : n < 0 ∨ 2 ^ 21 ≤ n
  · have hb3 := byte_toNat (n / 2 ^ 21)
    rw [if_pos hfour]
    refine Reads.byte ?_
    dsimp only
    rw [if_pos (testBit_iff.mpr (by omega))]
    refine Reads.byte ?_
    rw [if_pos (testBit_iff.mpr (by omega))]
    refine Reads.byte ?_
    rw [if_pos (testBit_iff.mpr (by omega))]
    refine Reads.byte ?_
    simp only [testBit_iff]
    convert Reads.pure n using 2
    split <;> omega
  rw [if_neg hfour]
  by_cases hone : n < 2 ^ 7
  · have hb := byte_toNat n
    rw [if_pos hone]
    refine Reads.byte ?_
    dsimp only
    rw [if_neg (mt testBit_iff.mp (by omega))]
    convert Reads.pure n using 2
    omega
  rw [if_neg hone]
  by_cases htwo : n < 2 ^ 14
  · have hb := byte_toNat (n / 2 ^ 7)
    rw [if_pos htwo]
    refine Reads.byte ?_
    dsimp only
    rw [if_pos (testBit_iff.mpr (by omega))]
    refine Reads.byte ?_
    rw [if_neg (mt testBit_iff.mp (by omega))]
    convert Reads.pure n using 2
    omega
  · have hb := byte_toNat (n / 2 ^ 14)
    rw [if_neg htwo]
    refine Reads.byte ?_
    dsimp only
    rw [if_pos (testBit_iff.mpr (by omega))]
    refine Reads.byte ?_
    rw [if_pos (testBit_iff.mpr (by omega))]
    refine Reads.byte ?_
    rw [if_neg (mt testBit_iff.mp (by omega))]
    convert Reads.pure n using 2
    omega

/-! ## Floats and strings -/

theorem gets_reads (w : List UInt8) : Reads ucharbuf (Ucharbuf.gets w.length) w w := by
  intro rest
  show ((w ++ rest).take w.length, _) = (w, ucharbuf rest)
  simp [ucharbuf]

theorem getfloat_putfloat (f : UInt32) : Reads ucharbuf getfloat (putfloat f) (some f) := by
  have hb0 := byte_toNat f.toNat
  have hb1 := byte_toNat (f.toNat / 2 ^ 8)
  have hb2 := byte_toNat (f.toNat / 2 ^ 16)
  have hb3 := byte_toNat (f.toNat / 2 ^ 24)
  have hf := f.toNat_lt
  have hval : UInt32.ofNat ((byte f.toNat).toNat + (byte (f.toNat / 2 ^ 8)).toNat * 2 ^ 8
      + (byte (f.toNat / 2 ^ 16)).toNat * 2 ^ 16 + (byte (f.toNat / 2 ^ 24)).toNat * 2 ^ 24) = f := by
    rw [← UInt32.toNat_inj, UInt32.toNat_ofNat']
    omega
  rw [← List.append_nil (putfloat f)]
  refine Reads.bind (gets_reads (putfloat f)) ?_
  dsimp only [putfloat]
  rw [hval]
  exact Reads.pure _

theorem putint_ne_nil (n : Int) : putint n ≠ [] := by
  unfold putint
  split
  · simp
  · split <;> simp

/-- A character is read back as it was. -/
theorem getint_char (c : Int8) : Reads ucharbuf getint (putint c.toInt) c.toInt32 := by
  have h := getint_putint c.toInt32
  rwa [Int8.toInt_toInt32] at h

theorem getchars_step (room : Nat) {bs : List UInt8} {t : List Int8} (hbs : bs ≠ [])
    (h : Reads ucharbuf (getint >>= fun n => if n.toInt8 = 0 then pure [] else
      (getchars room >>= fun t => pure (n.toInt8 :: t))) bs t) :
    Reads ucharbuf (getchars (room + 1)) bs t := by
  intro rest
  have hlen : (bs ++ rest).length ≠ 0 := by simp [hbs]
  have hrest := h rest
  unfold getchars
  show StateT.run _ _ = _
  rw [StateT.run_bind]
  show StateT.run (if (bs ++ rest).length = 0 then _ else _) _ = _
  rw [if_neg hlen]
  exact hrest

theorem toInt8_toInt32 (c : Int8) : c.toInt32.toInt8 = c := Int8.toInt8_toInt32 c

/-- A character that is not the last one the buffer has room for. -/
theorem getchars_cons (room : Nat) {c : Int8} {bs : List UInt8} {t : List Int8} (hc : c ≠ 0)
    (h : Reads ucharbuf (getchars room) bs t) :
    Reads ucharbuf (getchars (room + 1)) (putint c.toInt ++ bs) (c :: t) := by
  refine getchars_step room (by simp [putint_ne_nil]) ((getint_char c).bind ?_)
  rw [toInt8_toInt32, if_neg hc]
  rw [← List.append_nil bs]
  exact h.bind (Reads.pure _)

theorem getchars_zero (room : Nat) : Reads ucharbuf (getchars (room + 1)) (putint 0) [] := by
  refine getchars_step room (putint_ne_nil 0) ?_
  rw [← List.append_nil (putint 0)]
  exact (getint_char 0).bind (Reads.pure _)

/-- A string with room for its zero is read to the end. -/
theorem getchars_short : ∀ {t : List Int8} {room : Nat}, (∀ c ∈ t, c ≠ 0) → t.length < room →
    Reads ucharbuf (getchars room) (sendstring t) t
  | [], room + 1, _, _ => getchars_zero room
  | c :: t, room + 1, ht, hlen => by
    have ih := getchars_short (fun d hd => ht d (List.mem_cons_of_mem _ hd))
      (Nat.lt_of_succ_lt_succ hlen)
    have h := getchars_cons room (ht c List.mem_cons_self) ih
    simpa only [sendstring, List.flatMap_cons, List.append_assoc] using h

/-- Of a longer one only what fills the buffer is read. -/
theorem getchars_long : ∀ {t : List Int8} {room : Nat}, (∀ c ∈ t, c ≠ 0) → room ≤ t.length →
    Reads ucharbuf (getchars room) ((t.take room).flatMap fun c => putint c.toInt) (t.take room)
  | _, 0, _, _ => Reads.pure []
  | c :: t, room + 1, ht, hlen => by
    have ih := getchars_long (fun d hd => ht d (List.mem_cons_of_mem _ hd))
      (Nat.le_of_succ_le_succ hlen)
    exact getchars_cons room (ht c List.mem_cons_self) ih

theorem getstring_sendstring (t : CString) {len : Nat} (h : t.1.length < len) :
    Reads ucharbuf (getstring len) (sendstring t.1) t.1 := by
  rw [← List.append_nil (sendstring t.1)]
  refine (getchars_short t.2 h).bind ?_
  rw [List.take_of_length_le (by omega)]
  exact Reads.pure t.1

theorem getstring_long (t : CString) {len : Nat} (h : len ≤ t.1.length) :
    Reads ucharbuf (getstring len) ((t.1.take len).flatMap fun c => putint c.toInt)
      (t.1.take (len - 1)) := by
  rw [← List.append_nil (List.flatMap _ _)]
  refine (getchars_long t.2 h).bind ?_
  rw [List.take_take, Nat.min_eq_left (Nat.sub_le len 1)]
  exact Reads.pure _

/-! ## Packets -/

/-- A field of a packet, a string with the size of the buffer its reader has for it. -/
inductive PacketField
  | int (n : Int32)
  | uint (n : { n : Int // -2 ^ 28 ≤ n ∧ n < 2 ^ 28 })
  | float (f : UInt32)
  | string (t : CString) (len : ℕ+)

/-- What a reader yields. -/
inductive Value
  | int (n : Int32)
  | uint (n : Int)
  | float (f : Option UInt32)
  | string (t : List Int8)
deriving DecidableEq, Repr

namespace PacketField

/-- The writer of the field. -/
def put : PacketField → List UInt8
  | int n => putint n.toInt
  | uint n => putuint_ n.1
  | float f => putfloat f
  | string t _ => sendstring t.1

/-- The matching reader. -/
def get : PacketField → StateM Ucharbuf Value
  | int _ => Value.int <$> getint
  | uint _ => Value.uint <$> getuint
  | float _ => Value.float <$> getfloat
  | string _ len => Value.string <$> getstring len

/-- What it has to yield: of a string, the longest prefix that fits with the zero behind it. -/
def value : PacketField → Value
  | int n => .int n
  | uint n => .uint n.1
  | float f => .float (some f)
  | string t len => .string (t.1.take (len - 1))

/-- The string, if it is one, is shorter than the buffer of its reader. -/
def Fits : PacketField → Prop
  | string t len => t.1.length < len
  | _ => True

instance : DecidablePred Fits := fun f => by
  cases f <;> simp only [Fits] <;> infer_instance

theorem get_put {f : PacketField} (h : f.Fits) : Reads ucharbuf f.get f.put f.value := by
  cases f with
  | int n => exact (getint_putint n).map _
  | uint n => exact (getuint_putuint n.2.1 n.2.2).map _
  | float f => exact (getfloat_putfloat f).map _
  | string t len =>
    have hlen : t.1.length < len := h
    simp only [value, List.take_of_length_le (by omega : t.1.length ≤ len - 1)]
    exact (getstring_sendstring t hlen).map _

/-- The reader of a longer string stops before the next field. -/
theorem not_readsAt {f : PacketField} (h : ¬ f.Fits) (rest : List UInt8) :
    ¬ ReadsAt ucharbuf f.get f.put f.value rest := by
  cases f with
  | int => exact absurd trivial h
  | uint => exact absurd trivial h
  | float => exact absurd trivial h
  | string t len =>
    have hlen : (len : Nat) ≤ t.1.length := Nat.le_of_not_lt h
    intro hat
    have hsplit : (string t len).put = ((t.1.take len).flatMap fun c => putint c.toInt) ++
        sendstring (t.1.drop len) := by
      simp only [put, sendstring, ← List.append_assoc, ← List.flatMap_append,
        List.take_append_drop]
    rw [ReadsAt, hsplit, List.append_assoc] at hat
    have hread : (string t len).get.run (ucharbuf (_ ++ (sendstring (t.1.drop len) ++ rest))) =
        (_, ucharbuf (sendstring (t.1.drop len) ++ rest)) :=
      (getstring_long t hlen).map Value.string _
    rw [hread] at hat
    have hbytes : sendstring (t.1.drop len) ++ rest = rest :=
      congrArg Ucharbuf.rest (Prod.mk.inj hat).2
    have hnil : sendstring (t.1.drop len) = [] := by simpa using hbytes
    simp [sendstring, putint_ne_nil] at hnil

end PacketField

/-- The bytes of a packet. -/
def packet (fs : List PacketField) : List UInt8 := fs.flatMap PacketField.put

/-- Reading any number of the fields yields their values and stands where the next one starts,
after the last one at the end. -/
def ReadsBack (fs : List PacketField) : Prop :=
  ∀ i ≤ fs.length, ((fs.take i).mapM PacketField.get).run (ucharbuf (packet fs)) =
    ((fs.take i).map PacketField.value, ucharbuf (packet (fs.drop i)))

/-- **A packet is read back field by field when every string is shorter than the buffer of its
reader, and only then.** -/
theorem readsback_iff (fs : List PacketField) : ReadsBack fs ↔ ∀ f ∈ fs, f.Fits := by
  constructor
  · intro h f hf
    by_contra hfit
    obtain ⟨pre, post, rfl⟩ := List.append_of_mem hf
    have hpre := h pre.length (by simp)
    have hsucc := h (pre ++ [f]).length (by simp)
    have hsplit : pre ++ f :: post = (pre ++ [f]) ++ post := by simp
    rw [List.take_left, List.drop_left] at hpre
    rw [hsplit, List.take_left, List.drop_left] at hsucc
    have hbefore : ReadsAt ucharbuf (pre.mapM PacketField.get) (packet pre)
        (pre.map PacketField.value) (f.put ++ packet post) := by
      simpa [ReadsAt, packet] using hpre
    have hbehind : ReadsAt ucharbuf ((pre ++ [f]).mapM PacketField.get) (packet pre ++ f.put)
        ((pre ++ [f]).map PacketField.value) (packet post) := by
      simpa [ReadsAt, packet] using hsucc
    exact PacketField.not_readsAt hfit _ (hbefore.of_mapM_succ hbehind)
  · intro h i _
    have hread : Reads ucharbuf ((fs.take i).mapM PacketField.get)
        ((fs.take i).flatMap PacketField.put) ((fs.take i).map PacketField.value) :=
      Reads.mapM fun f hf => PacketField.get_put (h f (List.mem_of_mem_take hf))
    have hsplit : packet fs = (fs.take i).flatMap PacketField.put ++ packet (fs.drop i) := by
      rw [packet, packet, ← List.flatMap_append, List.take_append_drop]
    rw [hsplit]
    exact hread (packet (fs.drop i))

/-- Four characters for a buffer of three: the last one comes out as the next integer. -/
theorem long_string_misread :
    let fs : List PacketField := [.string ⟨[97, 98, 99, 100], by simp⟩ 3, .int 5]
    (fs.mapM PacketField.get).run (ucharbuf (packet fs)) =
      ([.string [97, 98], .int 100], ucharbuf [0, 5]) ∧ ¬ ReadsBack fs := by
  refine ⟨rfl, ?_⟩
  rw [readsback_iff]
  decide

end QServ
