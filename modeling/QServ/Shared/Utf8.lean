import Mathlib.Data.List.Basic
import Mathlib.Data.Nat.Bitwise

/-!
# UTF-8 and the characters of the game

`decodeutf8` and `encodeutf8` of `shared/stream.cpp`.  A byte goes with its place in the file, and
a decoded character with its first byte, so that a character that is lost or comes twice is seen
as such.

* `decode`: the loop of `decodeutf8`, a turn for each character.
* `decode_append`: text that is cut in two, from the first byte that was not decoded on.
* `decode_encode`: what was encoded is decoded.
-/

namespace QServ.Utf8

/-- `cube2unichars`. -/
def cube2unichars : List Nat := [
  0, 192, 193, 194, 195, 196, 197, 198, 199, 9, 10, 11, 12, 13, 200, 201, 202, 203, 204, 205,
  206, 207, 209, 210, 211, 212, 213, 214, 216, 217, 218, 219, 32, 33, 34, 35, 36, 37, 38, 39, 40,
  41, 42, 43, 44, 45, 46, 47, 48, 49, 50, 51, 52, 53, 54, 55, 56, 57, 58, 59, 60, 61, 62, 63, 64,
  65, 66, 67, 68, 69, 70, 71, 72, 73, 74, 75, 76, 77, 78, 79, 80, 81, 82, 83, 84, 85, 86, 87, 88,
  89, 90, 91, 92, 93, 94, 95, 96, 97, 98, 99, 100, 101, 102, 103, 104, 105, 106, 107, 108, 109,
  110, 111, 112, 113, 114, 115, 116, 117, 118, 119, 120, 121, 122, 123, 124, 125, 126, 220, 221,
  223, 224, 225, 226, 227, 228, 229, 230, 231, 232, 233, 234, 235, 236, 237, 238, 239, 241, 242,
  243, 244, 245, 246, 248, 249, 250, 251, 252, 253, 255, 0x104, 0x105, 0x106, 0x107, 0x10C,
  0x10D, 0x10E, 0x10F, 0x118, 0x119, 0x11A, 0x11B, 0x11E, 0x11F, 0x130, 0x131, 0x141, 0x142,
  0x143, 0x144, 0x147, 0x148, 0x150, 0x151, 0x152, 0x153, 0x158, 0x159, 0x15A, 0x15B, 0x15E,
  0x15F, 0x160, 0x161, 0x164, 0x165, 0x16E, 0x16F, 0x170, 0x171, 0x178, 0x179, 0x17A, 0x17B,
  0x17C, 0x17D, 0x17E, 0x404, 0x411, 0x413, 0x414, 0x416, 0x417, 0x418, 0x419, 0x41B, 0x41F,
  0x423, 0x424, 0x426, 0x427, 0x428, 0x429, 0x42A, 0x42B, 0x42C, 0x42D, 0x42E, 0x42F, 0x431,
  0x432, 0x433, 0x434, 0x436, 0x437, 0x438, 0x439, 0x43A, 0x43B, 0x43C, 0x43D, 0x43F, 0x442,
  0x444, 0x446, 0x447, 0x448, 0x449, 0x44A, 0x44B, 0x44C, 0x44D, 0x44E, 0x44F, 0x454, 0x490,
  0x491]

/-- `uni2cubeoffsets`. -/
def uni2cubeoffsets : List Nat := [0, 256, 658, 658, 512, 658, 658, 658]

/-- `uni2cubechars`. -/
def uni2cubechars : List UInt8 := [
  0, 0, 0, 0, 0, 0, 0, 0, 0, 9, 10, 11, 12, 13, 0, 0, 0, 0, 0, 0, 0, 0, 0, 0, 0, 0, 0, 0, 0, 0,
  0, 0, 32, 33, 34, 35, 36, 37, 38, 39, 40, 41, 42, 43, 44, 45, 46, 47, 48, 49, 50, 51, 52, 53,
  54, 55, 56, 57, 58, 59, 60, 61, 62, 63, 64, 65, 66, 67, 68, 69, 70, 71, 72, 73, 74, 75, 76, 77,
  78, 79, 80, 81, 82, 83, 84, 85, 86, 87, 88, 89, 90, 91, 92, 93, 94, 95, 96, 97, 98, 99, 100,
  101, 102, 103, 104, 105, 106, 107, 108, 109, 110, 111, 112, 113, 114, 115, 116, 117, 118, 119,
  120, 121, 122, 123, 124, 125, 126, 0, 0, 0, 0, 0, 0, 0, 0, 0, 0, 0, 0, 0, 0, 0, 0, 0, 0, 0, 0,
  0, 0, 0, 0, 0, 0, 0, 0, 0, 0, 0, 0, 0, 0, 0, 0, 0, 0, 0, 0, 0, 0, 0, 0, 0, 0, 0, 0, 0, 0, 0, 0,
  0, 0, 0, 0, 0, 0, 0, 0, 0, 0, 0, 0, 0, 1, 2, 3, 4, 5, 6, 7, 8, 14, 15, 16, 17, 18, 19, 20, 21,
  0, 22, 23, 24, 25, 26, 27, 0, 28, 29, 30, 31, 127, 128, 0, 129, 130, 131, 132, 133, 134, 135,
  136, 137, 138, 139, 140, 141, 142, 143, 144, 145, 0, 146, 147, 148, 149, 150, 151, 0, 152, 153,
  154, 155, 156, 157, 0, 158, 0, 0, 0, 0, 159, 160, 161, 162, 0, 0, 0, 0, 163, 164, 165, 166, 0,
  0, 0, 0, 0, 0, 0, 0, 167, 168, 169, 170, 0, 0, 171, 172, 0, 0, 0, 0, 0, 0, 0, 0, 0, 0, 0, 0, 0,
  0, 0, 0, 173, 174, 0, 0, 0, 0, 0, 0, 0, 0, 0, 0, 0, 0, 0, 0, 0, 175, 176, 177, 178, 0, 0, 179,
  180, 0, 0, 0, 0, 0, 0, 0, 181, 182, 183, 184, 0, 0, 0, 0, 185, 186, 187, 188, 0, 0, 189, 190,
  191, 192, 0, 0, 193, 194, 0, 0, 0, 0, 0, 0, 0, 0, 195, 196, 197, 198, 0, 0, 0, 0, 0, 0, 199,
  200, 201, 202, 203, 204, 205, 0, 0, 0, 0, 0, 0, 0, 0, 0, 0, 0, 0, 0, 0, 0, 0, 0, 0, 0, 0, 0, 0,
  0, 0, 0, 0, 0, 0, 0, 0, 0, 0, 0, 0, 0, 0, 0, 0, 0, 0, 0, 0, 0, 0, 0, 0, 0, 0, 0, 0, 0, 0, 0, 0,
  0, 0, 0, 0, 0, 0, 0, 0, 0, 0, 0, 0, 0, 0, 0, 0, 0, 0, 0, 0, 0, 0, 0, 0, 0, 0, 0, 0, 0, 0, 0, 0,
  0, 0, 0, 0, 0, 0, 0, 0, 0, 0, 0, 0, 0, 0, 0, 0, 0, 0, 0, 0, 0, 0, 0, 0, 0, 0, 0, 0, 0, 0, 0, 0,
  0, 0, 0, 0, 0, 0, 0, 0, 0, 0, 0, 0, 17, 0, 0, 206, 83, 73, 21, 74, 0, 0, 0, 0, 0, 0, 0, 65,
  207, 66, 208, 209, 69, 210, 211, 212, 213, 75, 214, 77, 72, 79, 215, 80, 67, 84, 216, 217, 88,
  218, 219, 220, 221, 222, 223, 224, 225, 226, 227, 97, 228, 229, 230, 231, 101, 232, 233, 234,
  235, 236, 237, 238, 239, 111, 240, 112, 99, 241, 121, 242, 120, 243, 244, 245, 246, 247, 248,
  249, 250, 251, 252, 0, 141, 0, 0, 253, 115, 105, 145, 106, 0, 0, 0, 0, 0, 0, 0, 0, 0, 0, 0, 0,
  0, 0, 0, 0, 0, 0, 0, 0, 0, 0, 0, 0, 0, 0, 0, 0, 0, 0, 0, 0, 0, 0, 0, 0, 0, 0, 0, 0, 0, 0, 0, 0,
  0, 0, 0, 0, 0, 0, 0, 0, 0, 0, 0, 254, 255, 0, 0, 0, 0, 0, 0, 0, 0, 0, 0, 0, 0, 0, 0, 0, 0, 0,
  0, 0, 0, 0, 0, 0, 0, 0, 0, 0, 0, 0, 0, 0, 0, 0, 0, 0, 0, 0, 0, 0, 0, 0, 0, 0, 0, 0, 0, 0, 0, 0,
  0, 0, 0, 0, 0, 0, 0, 0, 0, 0, 0, 0, 0, 0, 0, 0, 0, 0, 0, 0, 0, 0, 0, 0, 0, 0, 0, 0, 0, 0, 0, 0,
  0, 0, 0, 0, 0, 0, 0, 0, 0, 0, 0, 0, 0, 0, 0, 0, 0, 0, 0, 0, 0, 0, 0, 0, 0, 0, 0, 0, 0, 0, 0, 0,
  0, 0, 0, 0, 0, 0, 0, 0, 0, 0, 0, 0, 0, 0, 0, 0, 0, 0, 0, 0, 0, 0, 0, 0, 0, 0, 0, 0, 0, 0, 0, 0,
  0, 0, 0, 0, 0, 0, 0, 0, 0, 0, 0, 0, 0, 0, 0, 0, 0, 0, 0, 0, 0, 0, 0, 0, 0, 0, 0, 0, 0, 0, 0, 0,
  0, 0, 0, 0, 0, 0, 0, 0, 0, 0, 0, 0, 0, 0, 0, 0, 0, 0, 0, 0, 0, 0, 0, 0, 0, 0, 0, 0, 0, 0, 0, 0,
  0, 0, 0, 0, 0, 0, 0, 0, 0, 0, 0]

/-- `cube2uni(c)`. -/
def cube2uni (c : UInt8) : Nat := cube2unichars.getD c.toNat 0

/-- `uni2cube(c)`.  The table is too short for some `c`, and `behind` is what lies behind it. -/
def uni2cube (behind : Nat → UInt8) (c : Nat) : UInt8 :=
  if c ≤ 0x7FF then
    let i := uni2cubeoffsets.getD (c >>> 8) 0 + (c &&& 0xFF)
    uni2cubechars.getD i (behind i)
  else 0

/-- A byte of a file and its place in it. -/
abbrev Byte := UInt8 × Nat

/-- A decoded character and the byte it began with. -/
abbrev Text := List (UInt8 × Byte)

/-- `(c&0xC0) == 0x80`: a byte within a character. -/
def inner (b : Byte) : Bool := b.1 &&& 0xC0 = 0x80

/-- How many bytes follow a first byte from 0xC0 to 0xFD, and its own bits. -/
def first (c : UInt8) : Nat × Nat :=
  if c < 0xE0 then (1, (c &&& 0x1F).toNat)
  else if c < 0xF0 then (2, (c &&& 0xF).toNat)
  else if c < 0xF8 then (3, (c &&& 7).toNat)
  else if c < 0xFC then (4, (c &&& 3).toNat)
  else (5, (c &&& 1).toNat)

/-- What a turn of the loop of `decodeutf8` does with the byte at the front: a character of so many
more bytes, no character and so many bytes passed over, or the end, the bytes not being there. -/
inductive Turn
  | char (c : UInt8) (k : Nat)
  | skip (k : Nat)
  | stop
deriving DecidableEq, Repr

variable (behind : Nat → UInt8)

/-- The rest of a character: `k` bytes follow the bits of its first one. -/
def sequel (k bits : Nat) (src : List Byte) : Turn :=
  if src.length < k then .stop
  else
    let t := (src.take k).takeWhile inner
    if t.length < k then .skip t.length
    else
      let c := uni2cube behind (t.foldl (fun uni d => uni <<< 6 ||| (d.1 &&& 0x3F).toNat) bits)
      if c = 0 then .skip k else .char c k

/-- A turn of the loop, `src` being what stands behind the byte. -/
def turn (b : Byte) (src : List Byte) : Turn :=
  if b.1 < 0x80 then .char b.1 0
  else if b.1 < 0xC0 ∨ 0xFE ≤ b.1 then .skip 0
  else sequel behind (first b.1).1 (first b.1).2 src

/-- What `decodeutf8` wrote, the first byte of a character whose bytes were not all there, which it
has read, and the bytes it has not read. -/
structure Decoded where
  out : Text := []
  lead : Option Byte := none
  rest : List Byte := []
deriving DecidableEq, Repr

namespace Decoded

/-- One more character in front. -/
def cons (c : UInt8 × Byte) (d : Decoded) : Decoded := { d with out := c :: d.out }

/-- More text in front. -/
def append (out : Text) (d : Decoded) : Decoded := { d with out := out ++ d.out }

/-- The bytes that were not decoded. -/
def undone (d : Decoded) : List Byte := d.lead.toList ++ d.rest

end Decoded

/-- `decodeutf8(dstbuf, dstlen, srcbuf, srclen, &carry)`: the carry is the number of bytes before
`rest`.  Where the characters go over the bytes themselves, they never come before them. -/
def decodeutf8 (dstlen : Nat) (src : List Byte) : Decoded :=
  match dstlen, src with
  | 0, src => { rest := src }
  | _ + 1, [] => {}
  | n + 1, b :: src =>
    match turn behind b src with
    | .char c k => (decodeutf8 n (src.drop k)).cons (c, b)
    | .skip k => decodeutf8 (n + 1) (src.drop k)
    | .stop => { lead := some b, rest := src }
termination_by src.length

/-- The same with room enough. -/
def decode (src : List Byte) : Decoded :=
  match src with
  | [] => {}
  | b :: src =>
    match turn behind b src with
    | .char c k => (decode (src.drop k)).cons (c, b)
    | .skip k => decode (src.drop k)
    | .stop => { lead := some b, rest := src }
termination_by src.length

/-- The text of a file. -/
def text (src : List Byte) : Text := (decode behind src).out

/-- The characters of a text. -/
def chars (t : Text) : List UInt8 := t.map Prod.fst

/-- The bytes of a file with their places. -/
def placed (bytes : List UInt8) : List Byte := bytes.zipIdx

/-- `encodeutf8` of one character. -/
def encode (c : UInt8) : List UInt8 :=
  let uni := cube2uni c
  let tail (n : Nat) : List UInt8 :=
    ((List.range n).map fun i => UInt8.ofNat (0x80 ||| (uni >>> (6 * i)) &&& 0x3F)).reverse
  if uni ≤ 0x7F then [UInt8.ofNat uni]
  else if uni ≤ 0x7FF then UInt8.ofNat (0xC0 ||| uni >>> 6) :: tail 1
  else if uni ≤ 0xFFFF then UInt8.ofNat (0xE0 ||| uni >>> 12) :: tail 2
  else if uni ≤ 0x1FFFFF then UInt8.ofNat (0xF0 ||| uni >>> 18) :: tail 3
  else if uni ≤ 0x3FFFFFF then UInt8.ofNat (0xF8 ||| uni >>> 24) :: tail 4
  else if uni ≤ 0x7FFFFFFF then UInt8.ofNat (0xFC ||| uni >>> 30) :: tail 5
  else []

/-- `encodeutf8` of a text that is given to `utf8stream::write`, which calls it until all is
encoded. -/
def encodeutf8 (t : List UInt8) : List UInt8 := t.flatMap encode

variable {behind}

/-! ## Turns of the loop -/

theorem first_le (c : UInt8) : (first c).1 ≤ 5 := by
  unfold first
  repeat' split
  all_goals simp

/-- The rest of a character is there, or the loop ends. -/
theorem sequel_cases (k bits : Nat) (src : List Byte) :
    (src.length < k ∧ sequel behind k bits src = .stop) ∨
    (k ≤ src.length ∧ ∃ j ≤ k, (∀ d ∈ src.take j, inner d = true) ∧
      (sequel behind k bits src = .skip j ∨ ∃ c, sequel behind k bits src = .char c j)) := by
  unfold sequel
  split
  · next h => exact Or.inl ⟨h, rfl⟩
  · next h =>
    refine Or.inr ⟨by omega, ?_⟩
    have hwhile := List.takeWhile_prefix inner (l := src.take k)
    have hinner : ∀ d ∈ (src.take k).takeWhile inner, inner d = true :=
      List.all_eq_true.mp List.all_takeWhile
    set t := (src.take k).takeWhile inner
    have hle : t.length ≤ k := by
      have := hwhile.length_le
      rw [List.length_take] at this
      omega
    have htake : src.take t.length = t :=
      (List.prefix_iff_eq_take.mp (hwhile.trans (List.take_prefix k src))).symm
    simp only
    split
    · refine ⟨t.length, hle, ?_, Or.inl rfl⟩
      rw [htake]
      exact hinner
    · have hk : t.length = k := by omega
      refine ⟨k, le_refl k, by rw [← hk, htake]; exact hinner, ?_⟩
      split
      · exact Or.inl rfl
      · exact Or.inr ⟨_, rfl⟩

theorem sequel_append {k bits : Nat} {src : List Byte} (h : k ≤ src.length) (r : List Byte) :
    sequel behind k bits (src ++ r) = sequel behind k bits src := by
  have hk : ¬src.length < k := by omega
  have hk' : ¬(src ++ r).length < k := by
    rw [List.length_append]
    omega
  unfold sequel
  rw [if_neg hk, if_neg hk', List.take_append_of_le_length h]

/-- Whatever a turn does, the bytes it passes over are there, and all of them are within a
character. -/
theorem turn_cases (b : Byte) (src : List Byte) :
    (src.length < 5 ∧ turn behind b src = .stop) ∨
    ∃ j ≤ src.length, (∀ d ∈ src.take j, inner d = true) ∧
      (turn behind b src = .skip j ∨ ∃ c, turn behind b src = .char c j) := by
  unfold turn
  split
  · exact Or.inr ⟨0, Nat.zero_le _, by simp, Or.inr ⟨_, rfl⟩⟩
  · split
    · exact Or.inr ⟨0, Nat.zero_le _, by simp, Or.inl rfl⟩
    · rcases sequel_cases (first b.1).1 (first b.1).2 src with ⟨h, hs⟩ | ⟨h, j, hj, hin, hs⟩
      · have := first_le b.1
        exact Or.inl ⟨by omega, hs⟩
      · exact Or.inr ⟨j, by omega, hin, hs⟩

/-- A turn that does not stop does not see what stands behind the bytes. -/
theorem turn_append {b : Byte} {src : List Byte} (h : turn behind b src ≠ .stop) (r : List Byte) :
    turn behind b (src ++ r) = turn behind b src := by
  unfold turn at h ⊢
  split
  · rfl
  · next h1 =>
    rw [if_neg h1] at h
    split
    · rfl
    · next h2 =>
      rw [if_neg h2] at h
      rcases sequel_cases (first b.1).1 (first b.1).2 src with ⟨_, hs⟩ | ⟨hle, -⟩
      · exact absurd hs h
      · exact sequel_append hle r

/-- A statement about every byte is one about 256 numbers. -/
theorem forall_byte {p : UInt8 → Prop} (h : ∀ n : Fin 256, p (UInt8.ofNat n)) (c : UInt8) : p c := by
  have := h ⟨c.toNat, c.toNat_lt⟩
  simpa using this

/-- A byte within a character is passed over where it stands in front. -/
theorem turn_inner {b : Byte} (h : inner b = true) (src : List Byte) :
    turn behind b src = .skip 0 := by
  have key : ∀ c : UInt8, c &&& 0xC0 = 0x80 → ¬c < 0x80 ∧ c < 0xC0 :=
    forall_byte (by decide +kernel)
  obtain ⟨h1, h2⟩ := key b.1 (of_decide_eq_true h)
  unfold turn
  rw [if_neg h1, if_pos (Or.inl h2)]

/-! ## Cutting a text -/

theorem decode_nil : decode behind [] = {} := by
  simp [decode]

theorem decode_char {b : Byte} {src : List Byte} {c : UInt8} {k : Nat}
    (h : turn behind b src = .char c k) :
    decode behind (b :: src) = (decode behind (src.drop k)).cons (c, b) := by
  rw [decode, h]

theorem decode_skip {b : Byte} {src : List Byte} {k : Nat} (h : turn behind b src = .skip k) :
    decode behind (b :: src) = decode behind (src.drop k) := by
  rw [decode, h]

theorem decode_stop {b : Byte} {src : List Byte} (h : turn behind b src = .stop) :
    decode behind (b :: src) = { lead := some b, rest := src } := by
  rw [decode, h]

/-- **The rule of decoding**: a file is a first byte, the bytes of its turn and the rest of the
file. -/
theorem decode_induct {motive : List Byte → Decoded → Prop} (nil : motive [] {})
    (char : ∀ b src c k, turn behind b src = .char c k → k ≤ src.length →
      (∀ d ∈ src.take k, inner d = true) → motive (src.drop k) (decode behind (src.drop k)) →
      motive (b :: src) ((decode behind (src.drop k)).cons (c, b)))
    (skip : ∀ b src k, turn behind b src = .skip k → k ≤ src.length →
      (∀ d ∈ src.take k, inner d = true) → motive (src.drop k) (decode behind (src.drop k)) →
      motive (b :: src) (decode behind (src.drop k)))
    (stop : ∀ b src, turn behind b src = .stop → src.length < 5 →
      motive (b :: src) { lead := some b, rest := src }) (src : List Byte) :
    motive src (decode behind src) := by
  induction hn : src.length using Nat.strong_induction_on generalizing src with
  | _ n ih =>
    cases src with
    | nil =>
      rw [decode_nil]
      exact nil
    | cons b src =>
      have hrec : ∀ k, motive (src.drop k) (decode behind (src.drop k)) := by
        intro k
        refine ih _ ?_ _ rfl
        rw [← hn, List.length_drop, List.length_cons]
        omega
      rcases turn_cases b src with ⟨h5, h⟩ | ⟨k, hk, hin, h | ⟨c, h⟩⟩
      · rw [decode_stop h]
        exact stop b src h h5
      · rw [decode_skip h]
        exact skip b src k h hk hin (hrec k)
      · rw [decode_char h]
        exact char b src c k h hk hin (hrec k)

@[simp] theorem Decoded.append_nil (d : Decoded) : d.append [] = d := rfl

@[simp] theorem Decoded.append_out (t : Text) (d : Decoded) : (d.append t).out = t ++ d.out := rfl

/-- **Cutting**: what follows a text is decoded together with the bytes that the text alone leaves
undone. -/
theorem decode_append (src r : List Byte) : decode behind (src ++ r) =
    (decode behind ((decode behind src).undone ++ r)).append (decode behind src).out := by
  refine decode_induct (motive := fun src d =>
    decode behind (src ++ r) = (decode behind (d.undone ++ r)).append d.out) ?_ ?_ ?_ ?_ src
  · simp [Decoded.undone]
  · intro b src c k h hk _ ih
    have hturn : turn behind b (src ++ r) = .char c k := by
      rw [turn_append (by rw [h]; simp), h]
    rw [List.cons_append, decode_char hturn, List.drop_append_of_le_length hk, ih]
    rfl
  · intro b src k h hk _ ih
    have hturn : turn behind b (src ++ r) = .skip k := by
      rw [turn_append (by rw [h]; simp), h]
    rw [List.cons_append, decode_skip hturn, List.drop_append_of_le_length hk, ih]
  · intro b src h _
    simp [Decoded.undone]

theorem text_append (src r : List Byte) : text behind (src ++ r) =
    text behind src ++ text behind ((decode behind src).undone ++ r) := by
  simp only [text]
  rw [decode_append, Decoded.append_out]

/-- There are no more characters than bytes, and fewer where a first byte is left. -/
theorem decode_length (src : List Byte) :
    (decode behind src).out.length + (decode behind src).undone.length ≤ src.length := by
  refine decode_induct (motive := fun src d => d.out.length + d.undone.length ≤ src.length)
    ?_ ?_ ?_ ?_ src
  · simp [Decoded.undone]
  · intro b src c k _ hk _ ih
    simp only [Decoded.cons, Decoded.undone, List.length_cons, List.length_drop] at ih ⊢
    omega
  · intro b src k _ hk _ ih
    simp only [List.length_cons, List.length_drop] at ih ⊢
    omega
  · intro b src _ _
    simp [Decoded.undone]

/-- Fewer than six bytes are left undone. -/
theorem undone_length (src : List Byte) : (decode behind src).undone.length ≤ 5 := by
  refine decode_induct (motive := fun _ d => d.undone.length ≤ 5) ?_ ?_ ?_ ?_ src
  · simp [Decoded.undone]
  · intro b src c k _ _ _ ih
    exact ih
  · intro b src k _ _ _ ih
    exact ih
  · intro b src _ h
    simp [Decoded.undone]
    omega

/-- Room for as many characters as there are bytes is enough. -/
theorem decodeutf8_eq (src : List Byte) {n : Nat} (hn : src.length ≤ n) :
    decodeutf8 behind n src = decode behind src := by
  suffices h : ∀ n, src.length ≤ n → decodeutf8 behind n src = decode behind src from h n hn
  refine decode_induct (motive := fun src d => ∀ n, src.length ≤ n → decodeutf8 behind n src = d)
    ?_ ?_ ?_ ?_ src
  · intro n _
    cases n <;> simp [decodeutf8]
  · intro b src c k h hk _ ih n hn
    obtain ⟨n, rfl⟩ : ∃ m, n = m + 1 := ⟨n - 1, by simp at hn; omega⟩
    rw [decodeutf8, h]
    simp only
    rw [ih n (by simp at hn ⊢; omega)]
  · intro b src k h hk _ ih n hn
    obtain ⟨n, rfl⟩ : ∃ m, n = m + 1 := ⟨n - 1, by simp at hn; omega⟩
    rw [decodeutf8, h]
    simp only
    rw [ih (n + 1) (by simp at hn ⊢; omega)]
  · intro b src h _ n hn
    obtain ⟨n, rfl⟩ : ∃ m, n = m + 1 := ⟨n - 1, by simp at hn; omega⟩
    rw [decodeutf8, h]

/-- A character is encoded in one byte, itself, or in two. -/
theorem encode_cases (c : UInt8) :
    (encode c = [c] ∧ c < 0x80 ∧ cube2uni c ≤ 0x7F) ∨
    ¬cube2uni c ≤ 0x7F ∧ c ≠ 0 ∧ ∃ b d : UInt8, encode c = [b, d] ∧ ¬b < 0x80 ∧
      ¬(b < 0xC0 ∨ 0xFE ≤ b) ∧ (first b).1 = 1 ∧ d &&& 0xC0 = 0x80 ∧
        (first b).2 <<< 6 ||| (d &&& 0x3F).toNat = cube2uni c := by
  have key : ∀ c : UInt8, (encode c = [c] ∧ c < 0x80 ∧ cube2uni c ≤ 0x7F) ∨
      ¬cube2uni c ≤ 0x7F ∧ c ≠ 0 ∧
      (encode c = [(encode c).getD 0 0, (encode c).getD 1 0] ∧ ¬(encode c).getD 0 0 < 0x80 ∧
        ¬((encode c).getD 0 0 < 0xC0 ∨ 0xFE ≤ (encode c).getD 0 0) ∧
        (first ((encode c).getD 0 0)).1 = 1 ∧ (encode c).getD 1 0 &&& 0xC0 = 0x80 ∧
        (first ((encode c).getD 0 0)).2 <<< 6 ||| ((encode c).getD 1 0 &&& 0x3F).toNat =
          cube2uni c) :=
    forall_byte (by decide +kernel)
  rcases key c with h | ⟨hwide, hc, h⟩
  · exact Or.inl h
  · exact Or.inr ⟨hwide, hc, _, _, h⟩

/-- The table goes back to the character. -/
theorem uni2cube_cube2uni (c : UInt8) : uni2cube behind (cube2uni c) = c := by
  have key : ∀ c : UInt8, cube2uni c ≤ 0x7FF ∧
      uni2cubechars[uni2cubeoffsets.getD (cube2uni c >>> 8) 0 + (cube2uni c &&& 0xFF)]? = some c :=
    forall_byte (by decide +kernel)
  obtain ⟨hle, hget⟩ := key c
  unfold uni2cube
  rw [if_pos hle]
  simp only
  rw [List.getD_eq_getElem?_getD, hget, Option.getD_some]

variable (behind) in
/-- The bytes of a character are one turn, whatever follows. -/
theorem turn_encode {c : UInt8} {src : List Byte} (hsrc : src.map Prod.fst = encode c)
    (r : List Byte) :
    ∃ b rest, src = b :: rest ∧ turn behind b (rest ++ r) = .char c rest.length := by
  rcases encode_cases c with ⟨he, hlt, -⟩ | ⟨-, hc, b, d, he, h1, h2, hk, hd, huni⟩
  · rw [he] at hsrc
    obtain ⟨x, rest, rfl, hx, hrest⟩ := List.map_eq_cons_iff.mp hsrc
    obtain rfl := List.map_eq_nil_iff.mp hrest
    refine ⟨x, [], rfl, ?_⟩
    unfold turn
    rw [hx, if_pos hlt]
    rfl
  · rw [he] at hsrc
    obtain ⟨x, rest, rfl, hx, hrest⟩ := List.map_eq_cons_iff.mp hsrc
    obtain ⟨y, rest, rfl, hy, hrest⟩ := List.map_eq_cons_iff.mp hrest
    obtain rfl := List.map_eq_nil_iff.mp hrest
    refine ⟨x, [y], rfl, ?_⟩
    have hin : inner y = true := by
      simp [inner, hy, hd]
    unfold turn
    rw [List.cons_append, List.nil_append, hx, if_neg h1, if_neg h2, hk]
    have htake : ((y :: r).take 1).takeWhile inner = [y] := by
      simp [hin]
    unfold sequel
    rw [if_neg (by simp), htake]
    simp only [List.length_singleton, Nat.lt_irrefl, if_false, List.foldl_cons, List.foldl_nil,
      hy, huni, uni2cube_cube2uni, hc]

variable (behind) in
/-- What was encoded is decoded, whatever follows. -/
theorem decode_encode {c : UInt8} {src : List Byte} (hsrc : src.map Prod.fst = encode c)
    (r : List Byte) : ∃ b, decode behind (src ++ r) = (decode behind r).cons (c, b) := by
  obtain ⟨b, rest, rfl, hturn⟩ := turn_encode behind hsrc r
  refine ⟨b, ?_⟩
  rw [List.cons_append, decode_char hturn, List.drop_left]

/-- **What was encoded is decoded.** -/
theorem text_encodeutf8 : ∀ {t : List UInt8} {src : List Byte},
    src.map Prod.fst = encodeutf8 t → chars (text behind src) = t := by
  intro t
  induction t with
  | nil =>
    intro src hsrc
    obtain rfl := List.map_eq_nil_iff.mp hsrc
    simp [text, decode_nil, chars]
  | cons c t ih =>
    intro src hsrc
    obtain ⟨src, r, rfl, hs, hr⟩ := List.map_eq_append_iff.mp hsrc
    obtain ⟨b, h⟩ := decode_encode behind hs r
    have := ih hr
    simp only [text, chars] at this ⊢
    rw [h, Decoded.cons, List.map_cons, this]

end QServ.Utf8
