import Mathlib.Algebra.Group.Nat.Defs
import Mathlib.Data.List.GetD
import Mathlib.Logic.Function.Basic
import QServ.Shared.Tiger

/-!
# The blocks of the Tiger hash

`tiger::hash` of `shared/crypto.cpp` byte by byte, on hosts of either byte order.  A read outside the
message or a write outside the 64 bytes of `temp` gives nothing.

* `blocks`: what `compress` is given.
* `blocks_eq`: there is no such read or write, and the blocks are `hashblocks`.
* `blocks_exact`: they are the message, the mark, the fewest zeros and the number of bits.
-/

namespace QServ.Tiger

/-- `islittleendian`. -/
inductive Host
  | little
  | big
deriving DecidableEq

/-- Where in `temp` a byte of the message goes: `j` or `j^7`. -/
def place : Host → Nat → Nat
  | .little, j => j
  | .big, j => j ^^^ 7

/-- `temp`, of which 64 bytes are there to write. -/
abbrev Temp := Nat → UInt8

/-- `temp[j] = v`. -/
def store (temp : Temp) (j : Nat) (v : UInt8) : Option Temp :=
  if j < 64 then some (Function.update temp j v) else none

/-- The bytes of the chunks that `compress((chunk *)temp)` reads, the lowest of each first. -/
def feed (host : Host) (temp : Temp) : List UInt8 := (List.range 64).map fun j => temp (place host j)

/-- Bytes one after the other, the first of them to the place of `a`. -/
def storeall (host : Host) (a : Nat) (v : Nat → Option UInt8) (n : Nat) (temp : Temp) : Option Temp :=
  (List.range n).foldlM (fun temp j => do store temp (place host (a + j)) (← v j)) temp

/-- `for(j = 0; j < n; j++) temp[j] = str[j]`, with `str` moved on by `pos`. -/
def copyin (host : Host) (str : List UInt8) (pos n : Nat) (temp : Temp) : Option Temp :=
  storeall host 0 (fun j => str[pos + j]?) n temp

/-- `*(chunk *)(temp+56) = c`. -/
def storechunk (host : Host) (c : UInt64) (temp : Temp) : Option Temp :=
  storeall host 56 (fun k => some (chunkByte c k)) 8 temp

/-- `while(++j&7) temp[j] = 0`. -/
def fillchunk (host : Host) (temp : Temp) (j : Nat) : Option (Temp × Nat) :=
  if _h : (j + 1) % 8 = 0 then some (temp, j + 1)
  else do fillchunk host (← store temp (place host (j + 1)) 0) (j + 1)
termination_by 7 - j % 8

/-- `while(j < bound) temp[j++] = 0`. -/
def zerofill (bound : Nat) (temp : Temp) (j : Nat) : Option Temp :=
  if j < bound then do zerofill bound (← store temp j 0) (j + 1) else some temp
termination_by bound - j

/-- What is compressed in a round of the loop over full blocks.  A host that is little endian has the
message compressed where it is. -/
def fullblock (host : Host) (str : List UInt8) (pos : Nat) (temp : Temp) :
    Option (List UInt8 × Temp) :=
  match host with
  | .little => do
    let block ← (List.range 64).mapM fun j => str[pos + j]?
    some (block, temp)
  | .big => do
    let temp ← copyin .big str pos 64 temp
    some (feed .big temp, temp)

/-- `for(; i >= 64; i -= 64, str += 64)`: the blocks, `temp`, and where `str` and `i` end. -/
def fullblocks (host : Host) (str : List UInt8) (pos i : Nat) (temp : Temp) :
    Option (List (List UInt8) × Temp × Nat × Nat) :=
  if 64 ≤ i then do
    let (block, temp) ← fullblock host str pos temp
    let (blocks, rest) ← fullblocks host str (pos + 64) (i - 64) temp
    some (block :: blocks, rest)
  else some ([], temp, pos, i)
termination_by i

/-- What comes after the loop: the `i` bytes that are left, the mark and the length. -/
def finish (host : Host) (str : List UInt8) (pos i : Nat) (temp : Temp) :
    Option (List (List UInt8)) := do
  let size := UInt64.ofNat str.length <<< 3
  let temp ← copyin host str pos i temp
  let temp ← store temp (place host i) 0x01
  let (temp, j) ← fillchunk host temp i
  if 56 < j then
    let temp ← zerofill 64 temp j
    let last ← storechunk host size (← zerofill 56 temp 0)
    some [feed host temp, feed host last]
  else
    let last ← storechunk host size (← zerofill 56 temp j)
    some [feed host last]

/-- `hash(str, length, val)`: what is compressed, with `temp` as it happens to be. -/
def blocks (host : Host) (temp : Temp) (str : List UInt8) : Option (List (List UInt8)) := do
  let (full, temp, pos, i) ← fullblocks host str 0 str.length temp
  some (full ++ (← finish host str pos i temp))

/-! ## Places -/

variable {host : Host} {temp : Temp}

theorem place_div (host : Host) (j : Nat) : place host j / 8 = j / 8 := by
  cases host with
  | little => rfl
  | big =>
    have h := @Nat.xor_div_two_pow j 7 3
    simpa [place] using h

theorem place_injective (host : Host) : Function.Injective (place host) := by
  cases host with
  | little => exact fun _ _ h => h
  | big =>
    intro a b h
    have hcancel : ∀ j : Nat, j ^^^ 7 ^^^ 7 = j := fun j => by simp [Nat.xor_assoc]
    rw [← hcancel a, ← hcancel b]
    exact congrArg (· ^^^ 7) h

/-- The bytes as `compress` reads them. -/
def seen (host : Host) (temp : Temp) : Temp := temp ∘ place host

theorem feed_eq (host : Host) (temp : Temp) : feed host temp = (List.range 64).map (seen host temp) :=
  rfl

/-- A byte is written where it is read. -/
theorem store_place {j : Nat} (h : j < 64) (v : UInt8) : ∃ temp',
    store temp (place host j) v = some temp' ∧
      seen host temp' = Function.update (seen host temp) j v := by
  have hdiv := place_div host j
  refine ⟨Function.update temp (place host j) v, if_pos (by omega), ?_⟩
  exact Function.update_comp_eq_of_injective temp (place_injective host) j v

/-! ## Loops -/

/-- The bytes stored are seen, and the others are as they were. -/
theorem storeall_spec {a n : Nat} {v : Nat → Option UInt8} {w : Nat → UInt8}
    (hv : ∀ j < n, v j = some (w j)) (hn : a + n ≤ 64) : ∃ temp',
    storeall host a v n temp = some temp' ∧
      ∀ k, seen host temp' k = if a ≤ k ∧ k < a + n then w (k - a) else seen host temp k := by
  induction n with
  | zero => exact ⟨temp, rfl, fun k => (if_neg (by omega)).symm⟩
  | succ n ih =>
    obtain ⟨temp', hrun, hseen⟩ := ih (fun j hj => hv j (by omega)) (by omega)
    obtain ⟨temp'', hstore, hseen'⟩ := @store_place host temp' (a + n) (by omega) (w n)
    refine ⟨temp'', ?_, fun k => ?_⟩
    · unfold storeall at hrun ⊢
      rw [List.range_succ, List.foldlM_append, hrun]
      simp [hv n (Nat.lt_succ_self n), hstore]
    · rw [hseen', Function.update_apply, hseen]
      by_cases hk : k = a + n
      · subst hk
        rw [if_pos rfl, if_pos (by omega), Nat.add_sub_cancel_left]
      · rw [if_neg hk]
        by_cases hin : a ≤ k ∧ k < a + n
        · rw [if_pos hin, if_pos (by omega)]
        · rw [if_neg hin, if_neg (by omega)]

/-- Zeros up to the next chunk. -/
theorem fillchunk_spec {i : Nat} (hi : i < 64) : ∃ temp',
    fillchunk host temp i = some (temp', 8 * (i / 8 + 1)) ∧
      ∀ k, seen host temp' k = if i < k ∧ k < 8 * (i / 8 + 1) then 0 else seen host temp k := by
  induction h : 7 - i % 8 generalizing i temp with
  | zero =>
    refine ⟨temp, ?_, fun k => (if_neg (by omega)).symm⟩
    rw [fillchunk, dif_pos (by omega)]
    congr 2
    omega
  | succ n ih =>
    obtain ⟨temp', hstore, hseen⟩ := @store_place host temp (i + 1) (by omega) 0
    have hchunk : (i + 1) / 8 = i / 8 := by omega
    obtain ⟨temp'', hrun, hseen'⟩ := @ih temp' (i + 1) (by omega) (by omega)
    rw [hchunk] at hrun hseen'
    refine ⟨temp'', ?_, fun k => ?_⟩
    · rw [fillchunk, dif_neg (by omega), hstore]
      exact hrun
    · rw [hseen', hseen, Function.update_apply]
      by_cases hk : k = i + 1
      · rw [if_neg (by omega), if_pos hk, if_pos (by omega)]
      · rw [if_neg hk]
        by_cases hin : i + 1 < k ∧ k < 8 * (i / 8 + 1)
        · rw [if_pos hin, if_pos (by omega)]
        · rw [if_neg hin, if_neg (by omega)]

theorem zerofill_eq {bound : Nat} (hb : bound ≤ 64) (j : Nat) : zerofill bound temp j =
    some fun k => if j ≤ k ∧ k < bound then 0 else temp k := by
  induction h : bound - j generalizing j temp with
  | zero =>
    rw [zerofill, if_neg (by omega)]
    congr 1
    funext k
    rw [if_neg (by omega)]
  | succ n ih =>
    rw [zerofill, if_pos (by omega), store, if_pos (by omega)]
    refine (@ih (Function.update temp j 0) (j + 1) (by omega)).trans ?_
    congr 1
    funext k
    rw [Function.update_apply]
    by_cases hk : k = j
    · rw [if_neg (by omega), if_pos hk, if_pos (by omega)]
    · rw [if_neg hk]
      by_cases hin : j + 1 ≤ k ∧ k < bound
      · rw [if_pos hin, if_pos (by omega)]
      · rw [if_neg hin, if_neg (by omega)]

/-- Zeros in whole chunks are seen where they are written. -/
theorem zerofill_spec {a bound : Nat} (ha : a % 8 = 0) (hb : bound % 8 = 0) (hle : bound ≤ 64) :
    ∃ temp', zerofill bound temp a = some temp' ∧
      ∀ k, seen host temp' k = if a ≤ k ∧ k < bound then 0 else seen host temp k := by
  refine ⟨_, zerofill_eq hle _, fun k => ?_⟩
  have hdiv := place_div host k
  show (if a ≤ place host k ∧ place host k < bound then 0 else temp (place host k)) = _
  by_cases hin : a ≤ k ∧ k < bound
  · rw [if_pos hin, if_pos (by omega)]
  · rw [if_neg hin, if_neg (by omega)]
    rfl

/-! ## The blocks -/

/-- A byte of the message, zero behind its end. -/
def byteAt (str : List UInt8) (i : Nat) : UInt8 := str.getD i 0

/-- What is left of the message is copied. -/
theorem copyin_spec {str : List UInt8} {pos n : Nat} (hn : n ≤ 64) (hpos : pos + n ≤ str.length) :
    ∃ temp', copyin host str pos n temp = some temp' ∧
      ∀ k, seen host temp' k = if k < n then byteAt str (pos + k) else seen host temp k := by
  have hv : ∀ j < n, str[pos + j]? = some (byteAt str (pos + j)) := fun j hj => by
    rw [List.getElem?_eq_getElem (by omega), byteAt, List.getD_eq_getElem?_getD,
      List.getElem?_eq_getElem (by omega), Option.getD_some]
  obtain ⟨temp', hrun, hseen⟩ := @storeall_spec host temp 0 n _ _ hv (by omega)
  refine ⟨temp', hrun, fun k => ?_⟩
  rw [hseen]
  simp only [Nat.zero_le, true_and, Nat.zero_add, Nat.sub_zero]

/-- What is compressed when the bytes seen are those of a list. -/
theorem feed_of_seen {l : List UInt8} (hl : l.length = 64)
    (h : ∀ k < 64, seen host temp k = l.getD k 0) : feed host temp = l := by
  rw [feed_eq]
  refine List.ext_getElem (by simp [hl]) fun k hk hk' => ?_
  rw [List.getElem_map, List.getElem_range, h k (by omega), List.getD_eq_getElem?_getD,
    List.getElem?_eq_getElem hk', Option.getD_some]

theorem getD_append (a b : List UInt8) (k : Nat) :
    (a ++ b).getD k 0 = if k < a.length then a.getD k 0 else b.getD (k - a.length) 0 := by
  split
  · next h => exact List.getD_append a b 0 k h
  · next h => exact List.getD_append_right a b 0 k (Nat.le_of_not_lt h)

theorem getD_zeros (n k : Nat) : (List.replicate n (0 : UInt8)).getD k 0 = 0 := by
  simp [List.getD_eq_getElem?_getD, List.getElem?_replicate]
  split <;> rfl

theorem getD_map_range (f : Nat → UInt8) (n k : Nat) :
    ((List.range n).map f).getD k 0 = if k < n then f k else 0 := by
  split
  · next h => simp [List.getD_eq_getElem?_getD, h]
  · next h => simp [List.getD_eq_getElem?_getD, h]

/-- The bytes that are left, the mark and zeros. -/
theorem getD_padded (f : Nat → UInt8) (i m k : Nat) :
    (padded ((List.range i).map f ++ [0x01]) ++ List.replicate m 0).getD k 0 =
      if k < i then f k else if k = i then 0x01 else 0 := by
  unfold padded
  rw [List.append_assoc, List.append_assoc, List.replicate_append_replicate, getD_append,
    getD_append, getD_map_range, getD_zeros, List.length_map, List.length_range]
  by_cases hk : k < i
  · rw [if_pos hk, if_pos hk, if_pos hk]
  · rw [if_neg hk, if_neg hk]
    by_cases hki : k = i
    · simp [hki]
    · have hpos : k - i ≠ 0 := by omega
      rw [if_neg hki, List.length_singleton, if_neg (by omega)]

theorem length_mark (f : Nat → UInt8) (i : Nat) :
    (padded ((List.range i).map f ++ [0x01])).length = 8 * (i / 8 + 1) := by
  rw [padded_length]
  simp only [List.length_append, List.length_map, List.length_range, List.length_singleton]
  omega

/-- The last chunk of a block is the number of bits. -/
theorem storechunk_spec (c : UInt64) : ∃ temp', storechunk host c temp = some temp' ∧
    ∀ k < 64, seen host temp' k =
      if k < 56 then seen host temp k else (chunkBytes c).getD (k - 56) 0 := by
  obtain ⟨temp', hrun, hseen⟩ := @storeall_spec host temp 56 8
    (fun k => some (chunkByte c k)) (chunkByte c) (fun _ _ => rfl) (Nat.le_refl 64)
  refine ⟨temp', hrun, fun k hk => ?_⟩
  rw [hseen]
  by_cases h : k < 56
  · rw [if_neg (by omega), if_pos h]
  · rw [if_pos (by omega), if_neg h, chunkBytes, getD_map_range, if_pos (by omega)]

theorem ofInt_length (n : Nat) : UInt64.ofInt (n : Int) = UInt64.ofNat n := by
  have hcast : ((n : Int) % 2 ^ 64).toNat = n % 2 ^ 64 := by omega
  rw [UInt64.ofInt, hcast, ← UInt64.toNat_inj]
  simp

/-- The last blocks. -/
theorem finish_eq {str : List UInt8} {pos i : Nat} (hi : i < 64) (hpos : pos + i = str.length) :
    finish host str pos i temp =
      some (lastblocks ((List.range i).map fun j => byteAt str (pos + j)) str.length) := by
  obtain ⟨temp₁, hcopy, hseen₁⟩ := @copyin_spec host temp str pos i (Nat.le_of_lt hi)
    (Nat.le_of_eq hpos)
  obtain ⟨temp₂, hmark, hseen₂⟩ := @store_place host temp₁ i hi 0x01
  obtain ⟨temp₃, hfill, hseen₃⟩ := @fillchunk_spec host temp₂ i hi
  have hsize := ofInt_length str.length
  have hlen := length_mark (fun j => byteAt str (pos + j)) i
  -- what is seen up to the end of the chunk of the mark
  have hseen : ∀ k < 8 * (i / 8 + 1), seen host temp₃ k =
      if k < i then byteAt str (pos + k) else if k = i then 0x01 else 0 := fun k hk => by
    rw [hseen₃, hseen₂, Function.update_apply, hseen₁]
    by_cases h₁ : k < i
    · rw [if_neg (by omega), if_neg (by omega), if_pos h₁, if_pos h₁]
    · by_cases h₂ : k = i
      · rw [if_neg (by omega), if_pos h₂, if_neg h₁, if_pos h₂]
      · rw [if_pos (by omega), if_neg h₁, if_neg h₂]
  unfold finish lastblocks
  simp only [hcopy, hmark, hfill, hsize, hlen, Option.bind_eq_bind, Option.bind_some]
  by_cases hj : 56 < 8 * (i / 8 + 1)
  · rw [if_pos hj, if_pos hj]
    have hend : i / 8 + 1 = 8 := by omega
    obtain ⟨temp₄, hzero, hseen₄⟩ := @zerofill_spec host temp₃ (8 * (i / 8 + 1)) 64 (by omega)
      (by omega) (by omega)
    obtain ⟨temp₅, hzero', hseen₅⟩ := @zerofill_spec host temp₄ 0 56 (by omega) (by omega)
      (by omega)
    obtain ⟨temp₆, hchunk, hseen₆⟩ := @storechunk_spec host temp₅
      (UInt64.ofNat str.length <<< 3)
    have hfirst : feed host temp₄ = padded ((List.range i).map (fun j => byteAt str (pos + j)) ++
        [0x01]) ++ List.replicate (64 - 8 * (i / 8 + 1)) 0 := by
      refine feed_of_seen ?_ fun k hk => ?_
      · rw [List.length_append, hlen, List.length_replicate]
        omega
      · rw [hseen₄, if_neg (by omega), hseen k (by omega), getD_padded]
    have hlast : feed host temp₆ = List.replicate 56 (0 : UInt8) ++
        chunkBytes (UInt64.ofNat str.length <<< 3) := by
      refine feed_of_seen (by simp [chunkBytes]) fun k hk => ?_
      rw [hseen₆ k hk, getD_append, List.length_replicate]
      by_cases h : k < 56
      · rw [if_pos h, if_pos h, hseen₅, if_pos (by omega), getD_zeros]
      · rw [if_neg h, if_neg h]
    rw [hzero, Option.bind_some, hzero', Option.bind_some, hchunk, Option.bind_some, hfirst, hlast]
  · rw [if_neg hj, if_neg hj]
    obtain ⟨temp₄, hzero, hseen₄⟩ := @zerofill_spec host temp₃ (8 * (i / 8 + 1)) 56 (by omega)
      (by omega) (by omega)
    obtain ⟨temp₅, hchunk, hseen₅⟩ := @storechunk_spec host temp₄
      (UInt64.ofNat str.length <<< 3)
    have hlast : feed host temp₅ = padded ((List.range i).map (fun j => byteAt str (pos + j)) ++
        [0x01]) ++ List.replicate (56 - 8 * (i / 8 + 1)) (0 : UInt8) ++
          chunkBytes (UInt64.ofNat str.length <<< 3) := by
      have hhead : (padded ((List.range i).map (fun j => byteAt str (pos + j)) ++ [0x01]) ++
          List.replicate (56 - 8 * (i / 8 + 1)) (0 : UInt8)).length = 56 := by
        rw [List.length_append, hlen, List.length_replicate]
        omega
      refine feed_of_seen ?_ fun k hk => ?_
      · rw [List.length_append, hhead]
        simp [chunkBytes]
      · rw [hseen₅ k hk, getD_append, hhead]
        by_cases h : k < 56
        · rw [if_pos h, if_pos h, hseen₄, getD_padded]
          by_cases hin : k < 8 * (i / 8 + 1)
          · rw [if_neg (by omega), hseen k hin]
          · rw [if_pos (by omega), if_neg (by omega), if_neg (by omega)]
        · rw [if_neg h, if_neg h]
    rw [hzero, Option.bind_some, hchunk, Option.bind_some, hlast]

theorem mapM_eq_some {α β : Type} {f : α → Option β} {g : α → β} {l : List α}
    (h : ∀ x ∈ l, f x = some (g x)) : l.mapM f = some (l.map g) := by
  induction l with
  | nil => rfl
  | cons x l ih =>
    rw [List.mapM_cons, h x List.mem_cons_self, ih fun y hy => h y (List.mem_cons_of_mem x hy)]
    rfl

/-- A block of the message. -/
def blockAt (str : List UInt8) (pos : Nat) : List UInt8 :=
  (List.range 64).map fun j => byteAt str (pos + j)

theorem fullblock_eq {str : List UInt8} {pos : Nat} (hpos : pos + 64 ≤ str.length) : ∃ temp',
    fullblock host str pos temp = some (blockAt str pos, temp') := by
  unfold fullblock
  cases host with
  | little =>
    have hread : ((List.range 64).mapM fun j => str[pos + j]?) = some (blockAt str pos) := by
      refine mapM_eq_some fun j hj => ?_
      have hlt := List.mem_range.mp hj
      rw [List.getElem?_eq_getElem (by omega), byteAt, List.getD_eq_getElem?_getD,
        List.getElem?_eq_getElem (by omega), Option.getD_some]
    refine ⟨temp, ?_⟩
    dsimp only
    rw [hread]
    rfl
  | big =>
    obtain ⟨temp', hcopy, hseen⟩ := @copyin_spec .big temp str pos 64 (Nat.le_refl 64) hpos
    have hfeed : feed .big temp' = blockAt str pos := by
      refine feed_of_seen (by simp [blockAt]) fun k hk => ?_
      rw [hseen, if_pos hk, blockAt, getD_map_range, if_pos hk]
    refine ⟨temp', ?_⟩
    dsimp only
    rw [hcopy, ← hfeed]
    rfl

/-- The full blocks. -/
theorem fullblocks_eq {str : List UInt8} {pos i : Nat} (hpos : pos + i ≤ str.length) : ∃ temp',
    fullblocks host str pos i temp =
      some ((List.range (i / 64)).map fun k => blockAt str (pos + 64 * k), temp',
        pos + 64 * (i / 64), i % 64) := by
  induction h : i / 64 generalizing i pos temp with
  | zero =>
    refine ⟨temp, ?_⟩
    rw [fullblocks, if_neg (by omega), Nat.mod_eq_of_lt (by omega)]
    rfl
  | succ n ih =>
    obtain ⟨temp₁, hblock⟩ := @fullblock_eq host temp str pos (by omega)
    obtain ⟨temp₂, hrest⟩ := @ih temp₁ (pos + 64) (i - 64) (by omega) (by omega)
    refine ⟨temp₂, ?_⟩
    have hmap : (List.range (n + 1)).map (fun k => blockAt str (pos + 64 * k)) =
        blockAt str pos :: (List.range n).map fun k => blockAt str (pos + 64 + 64 * k) := by
      rw [List.range_succ_eq_map, List.map_cons, List.map_map, Nat.mul_zero, Nat.add_zero]
      congr 1
      refine List.map_congr_left fun k _ => ?_
      rw [Function.comp_apply, Nat.mul_succ, Nat.add_assoc, Nat.add_comm 64]
    have hend : pos + 64 + 64 * n = pos + 64 * (n + 1) := by omega
    have hmod : (i - 64) % 64 = i % 64 := by omega
    rw [fullblocks, if_pos (by omega), hblock, hmap, ← hend, ← hmod]
    simp only [Option.bind_eq_bind, Option.bind_some, hrest]

/-- **Every read is of the message and every write of `temp`**, whatever it holds and in either byte
order, and what is compressed are the blocks of the message. -/
theorem blocks_eq (host : Host) (temp : Temp) (str : List UInt8) :
    blocks host temp str = some (hashblocks (byteAt str) str.length) := by
  obtain ⟨temp', hfull⟩ := @fullblocks_eq host temp str 0 str.length (by omega)
  have hlast := @finish_eq host temp' str (0 + 64 * (str.length / 64)) (str.length % 64)
    (Nat.mod_lt _ (by omega)) (by omega)
  unfold blocks
  simp only [hfull, hlast, Option.bind_eq_bind, Option.bind_some]
  simp [hashblocks, blockAt]

/-! ## Padding -/

/-- How many zeros there are between the mark and the length. -/
def zeros (n : Nat) : Nat := (119 - n % 64) % 64

/-- The message with the mark, the zeros and the number of bits. -/
def pad (str : List UInt8) : List UInt8 :=
  str ++ 0x01 :: (List.replicate (zeros str.length) 0 ++ chunkBytes (UInt64.ofNat (8 * str.length)))

theorem length_pad (str : List UInt8) : (pad str).length = str.length + 1 + zeros str.length + 8 := by
  simp [pad, chunkBytes]
  omega

theorem zeros_dvd (n : Nat) : 64 ∣ n + 1 + zeros n + 8 := by
  unfold zeros
  omega

/-- No fewer zeros fill the last block. -/
theorem zeros_le {n k : Nat} (h : 64 ∣ n + 1 + k + 8) : zeros n ≤ k := by
  unfold zeros
  omega

theorem shift_length (n : Nat) : UInt64.ofNat n <<< 3 = UInt64.ofNat (8 * n) := by
  rw [← UInt64.toNat_inj]
  simp [UInt64.toNat_shiftLeft, Nat.shiftLeft_eq]
  omega

theorem flatten_full (f : Nat → UInt8) (m : Nat) :
    ((List.range m).map fun k => (List.range 64).map fun j => f (64 * k + j)).flatten =
      (List.range (64 * m)).map f := by
  induction m with
  | zero => rfl
  | succ m ih =>
    have hm : List.range (m + 1) = List.range m ++ [m] := List.range_succ
    rw [hm, List.map_append, List.flatten_append, ih, Nat.mul_succ, List.range_add,
      List.map_append, List.map_map, List.map_singleton, List.flatten_singleton]
    rfl

theorem flatten_last {rest : List UInt8} (hrest : rest.length < 64) (n : Nat) :
    (lastblocks rest n).flatten = rest ++ 0x01 ::
      (List.replicate (zeros rest.length) 0 ++ chunkBytes (UInt64.ofNat (8 * n))) := by
  have hlen : (padded (rest ++ [0x01])).length = 8 * (rest.length / 8 + 1) := by
    rw [padded_length]
    simp only [List.length_append, List.length_singleton]
    omega
  unfold lastblocks
  dsimp only
  rw [ofInt_length, shift_length, hlen]
  unfold padded
  split
  · next h =>
    have hsum : (8 - (rest ++ [0x01]).length % 8) % 8 + (64 - 8 * (rest.length / 8 + 1)) + 56 =
        zeros rest.length := by
      rw [List.length_append, List.length_singleton, zeros]
      omega
    rw [← hsum]
    simp only [List.flatten_cons, List.flatten_nil, List.append_nil, List.replicate_add,
      List.append_assoc, List.cons_append, List.nil_append]
  · next h =>
    have hsum : (8 - (rest ++ [0x01]).length % 8) % 8 + (56 - 8 * (rest.length / 8 + 1)) =
        zeros rest.length := by
      rw [List.length_append, List.length_singleton, zeros]
      omega
    rw [← hsum]
    simp only [List.flatten_cons, List.flatten_nil, List.append_nil, List.replicate_add,
      List.append_assoc, List.cons_append, List.nil_append]

/-- The blocks one after the other. -/
theorem flatten_hashblocks (str : List UInt8) :
    (hashblocks (byteAt str) str.length).flatten = pad str := by
  have hmod : zeros (str.length % 64) = zeros str.length := by
    unfold zeros
    rw [Nat.mod_mod]
  have hstr : (List.range str.length).map (byteAt str) = str := by
    refine List.ext_getElem (by simp) fun k hk hk' => ?_
    rw [List.getElem_map, List.getElem_range, byteAt, List.getD_eq_getElem?_getD,
      List.getElem?_eq_getElem hk', Option.getD_some]
  have hsplit : (List.range (64 * (str.length / 64))).map (byteAt str) ++
      (List.range (str.length % 64)).map (fun j => byteAt str (64 * (str.length / 64) + j)) =
        str := by
    have hrange : List.range str.length = List.range (64 * (str.length / 64)) ++
        (List.range (str.length % 64)).map (64 * (str.length / 64) + ·) := by
      rw [← List.range_add, Nat.div_add_mod]
    have hall := hstr
    rw [hrange, List.map_append, List.map_map] at hall
    exact hall
  unfold hashblocks
  dsimp only
  rw [Int.toNat_natCast, List.flatten_append, flatten_full, flatten_last, List.length_map,
    List.length_range, hmod, ← List.append_assoc, hsplit, pad]
  rw [List.length_map, List.length_range]
  exact Nat.mod_lt _ (by omega)

theorem length_lastblocks {rest : List UInt8} (hrest : rest.length < 64) (n : Nat) :
    ∀ b ∈ lastblocks rest n, b.length = 64 := by
  have hlen : (padded (rest ++ [0x01])).length = 8 * (rest.length / 8 + 1) := by
    rw [padded_length]
    simp only [List.length_append, List.length_singleton]
    omega
  unfold lastblocks
  dsimp only
  split
  · intro b hb
    simp only [List.mem_cons, List.not_mem_nil, or_false] at hb
    rcases hb with rfl | rfl
    · rw [List.length_append, List.length_replicate, hlen]
      omega
    · simp [chunkBytes]
  · intro b hb
    simp only [List.mem_singleton] at hb
    rw [hb, List.length_append, List.length_append, List.length_replicate, hlen]
    simp only [chunkBytes, List.length_map, List.length_range]
    omega

theorem length_hashblocks (str : List UInt8) :
    ∀ b ∈ hashblocks (byteAt str) str.length, b.length = 64 := by
  intro b hb
  rcases List.mem_append.mp hb with h | h
  · obtain ⟨k, -, rfl⟩ := List.mem_map.mp h
    simp
  · refine length_lastblocks ?_ str.length b h
    rw [List.length_map, List.length_range]
    exact Nat.mod_lt _ (by omega)

theorem chunkByte_toNat (c : UInt64) {k : Nat} (hk : k < 8) :
    (chunkByte c k).toNat = c.toNat / 256 ^ k % 256 := by
  have hshift : (UInt64.ofNat (8 * k)).toNat % 64 = 8 * k := by
    rw [UInt64.toNat_ofNat']
    omega
  unfold chunkByte
  rw [UInt64.toNat_toUInt8, UInt64.toNat_shiftRight, hshift, Nat.shiftRight_eq_div_pow, Nat.pow_mul]

/-- A chunk is told by its bytes. -/
theorem chunkBytes_inj {c d : UInt64} (h : chunkBytes c = chunkBytes d) : c = d := by
  have hbyte : ∀ k < 8, c.toNat / 256 ^ k % 256 = d.toNat / 256 ^ k % 256 := fun k hk => by
    rw [← chunkByte_toNat c hk, ← chunkByte_toNat d hk]
    exact congrArg UInt8.toNat (List.map_inj_left.mp h k (List.mem_range.mpr hk))
  have hc := c.toNat_lt
  have hd := d.toNat_lt
  have h₀ := hbyte 0 (by omega)
  have h₁ := hbyte 1 (by omega)
  have h₂ := hbyte 2 (by omega)
  have h₃ := hbyte 3 (by omega)
  have h₄ := hbyte 4 (by omega)
  have h₅ := hbyte 5 (by omega)
  have h₆ := hbyte 6 (by omega)
  have h₇ := hbyte 7 (by omega)
  rw [← UInt64.toNat_inj]
  simp only [Nat.reducePow, Nat.div_one] at h₀ h₁ h₂ h₃ h₄ h₅ h₆ h₇ hc hd
  omega

/-- **A message is told by its blocks**, if its number of bits fits a chunk. -/
theorem pad_inj {str str' : List UInt8} (hlen : str.length < 2 ^ 61) (hlen' : str'.length < 2 ^ 61)
    (h : pad str = pad str') : str = str' := by
  have htotal := congrArg List.length h
  have hbits : chunkBytes (UInt64.ofNat (8 * str.length)) =
      chunkBytes (UInt64.ofNat (8 * str'.length)) := by
    have hsuffix : ∀ s : List UInt8, pad s = (s ++ 0x01 :: List.replicate (zeros s.length) 0) ++
        chunkBytes (UInt64.ofNat (8 * s.length)) := fun s => by simp [pad]
    rw [hsuffix, hsuffix] at h
    exact (List.append_inj' h (by simp [chunkBytes])).2
  have hsame : str.length = str'.length := by
    have hnat := congrArg UInt64.toNat (chunkBytes_inj hbits)
    rw [UInt64.toNat_ofNat', UInt64.toNat_ofNat'] at hnat
    omega
  exact (List.append_inj h hsame).1

/-- **What is hashed**: no byte outside the message is read and none outside `temp` written, whatever
is in `temp` and in either byte order; the blocks of 64 bytes are the message, the mark, the fewest
zeros that fill the last of them and the number of bits, and they tell the message. -/
theorem blocks_exact (host : Host) (temp : Temp) (str : List UInt8) : ∃ bs,
    blocks host temp str = some bs ∧ (∀ b ∈ bs, b.length = 64) ∧
    (∃ k, bs.flatten = str ++ 0x01 :: (List.replicate k 0 ++
        chunkBytes (UInt64.ofNat (8 * str.length))) ∧
      ∀ k', 64 ∣ str.length + 1 + k' + 8 → k ≤ k') ∧
    ∀ host' temp' str', str.length < 2 ^ 61 → str'.length < 2 ^ 61 →
      blocks host' temp' str' = some bs → str' = str := by
  refine ⟨_, blocks_eq host temp str, length_hashblocks str, ⟨zeros str.length,
    flatten_hashblocks str, fun k hk => zeros_le hk⟩, fun host' temp' str' hlen hlen' h => ?_⟩
  rw [blocks_eq] at h
  have hflat := congrArg List.flatten (Option.some.inj h)
  rw [flatten_hashblocks, flatten_hashblocks] at hflat
  exact pad_inj hlen' hlen hflat

end QServ.Tiger
