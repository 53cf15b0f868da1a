import Mathlib.Data.List.Basic

/-!
# The Tiger hash

`tiger::hash` of `shared/crypto.cpp` on a machine that is little endian.  The message goes to
`compress` in blocks of 64 bytes, the last of them with the end mark and the length.

* `hashblocks`: the blocks, as they are read from memory.
* `hash`: `compress` over them.
* `hashblocks_inj`: two messages have the same blocks only when they are the same.
-/

namespace QServ.Tiger

/-! ## Compression -/

/-- `chunk state[3]`. -/
structure State where
  a : UInt64
  b : UInt64
  c : UInt64
deriving DecidableEq, Repr

/-- The byte of a chunk at a place, the lowest first. -/
def chunkByte (c : UInt64) (k : Nat) : UInt8 := (c >>> UInt64.ofNat (8 * k)).toUInt8

/-- A chunk with the byte at a place written. -/
def setByte (c : UInt64) (k : Nat) (v : UInt8) : UInt64 :=
  (c &&& ~~~((0xFF : UInt64) <<< UInt64.ofNat (8 * k))) ||| (v.toUInt64 <<< UInt64.ofNat (8 * k))

/-- The bytes of a chunk in memory. -/
def chunkBytes (c : UInt64) : List UInt8 := (List.range 8).map (chunkByte c)

/-- The chunk that eight bytes in memory are. -/
def chunkOf (bytes : List UInt8) : UInt64 := bytes.foldr (fun b c => (c <<< 8) ||| b.toUInt64) 0

/-- `sboxes[n]`. -/
def sbox (sboxes : Array UInt64) (n : Nat) (k : UInt8) : UInt64 := sboxes.getD (n * 256 + k.toNat) 0

/-- `round(a, b, c, x)`, in the pass that multiplies by `mul`. -/
def round (sboxes : Array UInt64) (mul : UInt64) (s : State) (x : UInt64) : State :=
  let c := s.c ^^^ x
  let a := s.a - (sbox sboxes 0 (chunkByte c 0) ^^^ sbox sboxes 1 (chunkByte c 2) ^^^
    sbox sboxes 2 (chunkByte c 4) ^^^ sbox sboxes 3 (chunkByte c 6))
  let b := s.b + (sbox sboxes 3 (chunkByte c 1) ^^^ sbox sboxes 2 (chunkByte c 3) ^^^
    sbox sboxes 1 (chunkByte c 5) ^^^ sbox sboxes 0 (chunkByte c 7))
  ⟨a, b * mul, c⟩

/-- The next round calls `a` what this one called `b`. -/
def State.next (s : State) : State := ⟨s.b, s.c, s.a⟩

/-- The words of the block between two passes. -/
def schedule : List UInt64 → List UInt64
  | [x0, x1, x2, x3, x4, x5, x6, x7] =>
    let x0 := x0 - (x7 ^^^ 0xA5A5A5A5A5A5A5A5)
    let x1 := x1 ^^^ x0
    let x2 := x2 + x1
    let x3 := x3 - (x2 ^^^ (~~~x1 <<< 19))
    let x4 := x4 ^^^ x3
    let x5 := x5 + x4
    let x6 := x6 - (x5 ^^^ (~~~x4 >>> 23))
    let x7 := x7 ^^^ x6
    let x0 := x0 + x7
    let x1 := x1 - (x0 ^^^ (~~~x7 <<< 19))
    let x2 := x2 ^^^ x1
    let x3 := x3 + x2
    let x4 := x4 - (x3 ^^^ (~~~x2 >>> 23))
    let x5 := x5 ^^^ x4
    let x6 := x6 + x5
    let x7 := x7 - (x6 ^^^ 0x0123456789ABCDEF)
    [x0, x1, x2, x3, x4, x5, x6, x7]
  | xs => xs

/-- The rounds of a pass.  Eight of them leave the names two places on, so that the third of
`tmp = a; a = c; c = b; b = tmp` is what they are called already. -/
def pass (sboxes : Array UInt64) (mul : UInt64) (s : State) (xs : List UInt64) : State :=
  xs.foldl (fun s x => (round sboxes mul s x).next) s

/-- `compress(str, state)`. -/
def compress (sboxes : Array UInt64) (block : List UInt8) (s : State) : State :=
  let xs := (List.range 8).map fun k => chunkOf ((block.drop (8 * k)).take 8)
  let s₀ := pass sboxes 5 s xs
  let s₁ := pass sboxes 7 s₀ (schedule xs)
  let s₂ := pass sboxes 9 s₁ (schedule (schedule xs))
  ⟨s₂.a ^^^ s.a, s₂.b - s.b, s₂.c + s.c⟩

/-- The state every message starts from. -/
def init : State := ⟨0x0123456789ABCDEF, 0xFEDCBA9876543210, 0xF096A5B4C3B2E187⟩

/-- `gensboxes`: the tables, the state and which of its chunks is the next to be used up. -/
structure Gen where
  sboxes : Array UInt64
  state : State
  abc : Nat

/-- `state[abc]`. -/
def Gen.chunk (g : Gen) : UInt64 :=
  if g.abc = 0 then g.state.a else if g.abc = 1 then g.state.b else g.state.c

/-- The text the tables are made from. -/
def seedtext : List UInt8 :=
  ("Tiger - A Fast New Hash Function, by Ross Anderson and Eli Biham".toList).map fun c =>
    UInt8.ofNat c.toNat

/-- One step of the innermost loop: the bytes of a column swapped between two entries. -/
def Gen.swap (g : Gen) (sb i col : Nat) : Gen :=
  let j := sb + (chunkByte g.chunk col).toNat
  let val := chunkByte (g.sboxes.getD (sb + i) 0) col
  let other := chunkByte (g.sboxes.getD j 0) col
  let sboxes := g.sboxes.setIfInBounds (sb + i) (setByte (g.sboxes.getD (sb + i) 0) col other)
  { g with sboxes := sboxes.setIfInBounds j (setByte (sboxes.getD j 0) col val) }

/-- The body of the loops over passes, entries and boxes. -/
def Gen.step (g : Gen) (i sb : Nat) : Gen :=
  let g := { g with abc := g.abc + 1 }
  let g := if 3 ≤ g.abc then { g with abc := 0, state := compress g.sboxes seedtext g.state } else g
  (List.range 8).foldl (fun g col => g.swap sb i col) g

/-- `gensboxes()`. -/
def gensboxes : Array UInt64 :=
  let entry (i : Nat) : UInt64 := chunkOf (List.replicate 8 (UInt8.ofNat i))
  let start : Gen := { sboxes := ((List.range 1024).map entry).toArray, state := init, abc := 2 }
  let places := (List.range 5).flatMap fun _ =>
    (List.range 256).flatMap fun i => [0, 256, 512, 768].map fun sb => (i, sb)
  (places.foldl (fun (g : Gen) (i, sb) => g.step i sb) start).sboxes

/-! ## Blocks -/

/-- Zeros up to the next multiple of eight: `while(++j&7) temp[j] = 0`. -/
def padded (temp : List UInt8) : List UInt8 := temp ++ List.replicate ((8 - temp.length % 8) % 8) 0

/-- What is compressed after the full blocks: the bytes that are left with the mark and the
length behind them, in one block if there is room for both. -/
def lastblocks (rest : List UInt8) (length : Int) : List (List UInt8) :=
  let temp := padded (rest ++ [0x01])
  let size := chunkBytes (UInt64.ofInt length <<< 3)
  if 56 < temp.length then
    [temp ++ List.replicate (64 - temp.length) 0, List.replicate 56 0 ++ size]
  else [temp ++ List.replicate (56 - temp.length) 0 ++ size]

/-- The blocks of `hash(str, length, val)`: 64 bytes each as long as there are so many, none of
a message of negative length. -/
def hashblocks (str : Nat → UInt8) (length : Int) : List (List UInt8) :=
  let n := length.toNat
  ((List.range (n / 64)).map fun k => (List.range 64).map fun j => str (64 * k + j)) ++
    lastblocks ((List.range (n % 64)).map fun j => str (64 * (n / 64) + j)) length

/-- `hash(str, length, val)`. -/
def hash (str : Nat → UInt8) (length : Int) : State :=
  (hashblocks str length).foldl (fun s block => compress gensboxes block s) init

/-- `val.bytes`. -/
def State.bytes (s : State) : List UInt8 := chunkBytes s.a ++ chunkBytes s.b ++ chunkBytes s.c

theorem padded_length (temp : List UInt8) :
    (padded temp).length = temp.length + (8 - temp.length % 8) % 8 := by
  simp [padded]

/-- The bytes behind the full blocks can be read off the last ones. -/
theorem lastblocks_inj {rest rest' : List UInt8} {length : Int} (hlen : rest.length = rest'.length)
    (h : lastblocks rest length = lastblocks rest' length) : rest = rest' := by
  have htemp : (padded (rest ++ [0x01])).length = (padded (rest' ++ [0x01])).length := by
    simp [padded_length, hlen]
  have hhead : padded (rest ++ [0x01]) = padded (rest' ++ [0x01]) := by
    unfold lastblocks at h
    dsimp only at h
    rw [htemp] at h
    split at h
    · exact (List.append_inj (List.cons.inj h).1 htemp).1
    · rw [List.append_assoc, List.append_assoc] at h
      exact (List.append_inj (List.cons.inj h).1 htemp).1
  unfold padded at hhead
  rw [List.append_assoc, List.append_assoc] at hhead
  exact (List.append_inj hhead hlen).1

/-- **The blocks of a message say what the message is**: of two of one length they are the same
only when all the bytes are. -/
theorem hashblocks_inj {str str' : Nat → UInt8} {length : Int} :
    hashblocks str length = hashblocks str' length ↔ ∀ i, i < length.toNat → str i = str' i := by
  constructor
  · intro h i hi
    obtain ⟨hfull, hlast⟩ := List.append_inj h (by simp)
    by_cases hblock : i < 64 * (length.toNat / 64)
    · have hk := List.map_inj_left.mp hfull (i / 64) (by simp; omega)
      have hj := List.map_inj_left.mp hk (i % 64) (by simp; omega)
      rwa [Nat.div_add_mod] at hj
    · have hrest := lastblocks_inj (by simp) hlast
      have hj := List.map_inj_left.mp hrest (i - 64 * (length.toNat / 64)) (by simp; omega)
      rwa [show 64 * (length.toNat / 64) + (i - 64 * (length.toNat / 64)) = i by omega] at hj
  · intro h
    have hfull : ∀ k ∈ List.range (length.toNat / 64), ∀ j ∈ List.range 64,
        str (64 * k + j) = str' (64 * k + j) := by
      intro k hk j hj
      refine h _ ?_
      simp at hk hj
      omega
    have hrest : ∀ j ∈ List.range (length.toNat % 64),
        str (64 * (length.toNat / 64) + j) = str' (64 * (length.toNat / 64) + j) := by
      intro j hj
      refine h _ ?_
      simp at hj
      omega
    unfold hashblocks
    dsimp only
    rw [List.map_congr_left hrest,
      List.map_congr_left fun k hk => List.map_congr_left (hfull k hk)]

end QServ.Tiger
