import Mathlib.Logic.Function.Basic
import QServ.Shared.Utf8

/-!
# Encoding in pieces and decoding in place

`encodeutf8` of `shared/stream.cpp` with the room it is given, and `decodeutf8` as it works on a
buffer that is both source and destination.

* `encodeinto_eq`: as many characters are encoded as there is room for.
* `pieces_spec`: with room for two bytes in each piece, the pieces are the text encoded at once.
* `decodeinplace_eq`: decoding in place gives what decoding into another buffer gives.
* `utf8_exact`: both, and decoding what was encoded.
-/

namespace QServ.Utf8

/-! ## The loops of `encodeutf8` -/

/-- The loop over characters of one byte, the first of which is one: up to `n` of them, the end of the
source or of the room.  It is done there, and not at a character of more bytes. -/
def asciirun : Nat → List UInt8 → List UInt8 × Bool
  | 0, _ => ([], true)
  | _, [] => ([], true)
  | n + 1, c :: src =>
    let byte := UInt8.ofNat (cube2uni c)
    match n, src with
    | 0, _ => ([byte], true)
    | _, [] => ([byte], true)
    | _, d :: _ =>
      if cube2uni d ≤ 0x7F then
        let run := asciirun n src
        (byte :: run.1, run.2)
      else ([byte], false)

/-- The characters of one byte a turn of the outer loop begins with. -/
def runof (room : Nat) : List UInt8 → List UInt8 × Bool
  | [] => ([], true)
  | c :: src =>
    if cube2uni c ≤ 0x7F then
      if room = 0 then ([], true) else asciirun (min (c :: src).length room) (c :: src)
    else ([], false)

/-- `encodeutf8(dstbuf, room, srcbuf, srclen, &carry)`: the bytes written and the carry. -/
def encodeinto (room : Nat) (src : List UInt8) : List UInt8 × Nat :=
  let run := runof room src
  if run.2 then (run.1, run.1.length)
  else
    match _h : src.drop run.1.length with
    | [] => (run.1, run.1.length)
    | c :: rest =>
      if room - run.1.length < (encode c).length then (run.1, run.1.length)
      else
        let r := encodeinto (room - run.1.length - (encode c).length) rest
        (run.1 ++ encode c ++ r.1, run.1.length + 1 + r.2)
termination_by src.length
decreasing_by
  have hlen := congrArg List.length _h
  rw [List.length_drop, List.length_cons] at hlen
  omega

/-- A caller that gives room again and again, and goes on from the carry. -/
def pieces : List Nat → List UInt8 → List (List UInt8) × Nat
  | [], _ => ([], 0)
  | room :: rooms, src =>
    let r := encodeinto room src
    let rs := pieces rooms (src.drop r.2)
    (r.1 :: rs.1, r.2 + rs.2)

/-! ## As much as there is room for -/

/-- The characters that fit. -/
def fitting : Nat → List UInt8 → List UInt8 × Nat
  | _, [] => ([], 0)
  | room, c :: src =>
    if room < (encode c).length then ([], 0)
    else
      let r := fitting (room - (encode c).length) src
      (encode c ++ r.1, r.2 + 1)

theorem length_encode (c : UInt8) : 1 ≤ (encode c).length ∧ (encode c).length ≤ 2 := by
  rcases encode_cases c with ⟨h, -⟩ | ⟨-, -, b, d, h, -⟩
  · rw [h]
    simp
  · rw [h]
    simp

theorem encode_ascii {c : UInt8} (h : cube2uni c ≤ 0x7F) :
    encode c = [UInt8.ofNat (cube2uni c)] := if_pos h

theorem fitting_zero (src : List UInt8) : fitting 0 src = ([], 0) := by
  cases src with
  | nil => rfl
  | cons c src =>
    have h := (length_encode c).1
    exact if_pos (by omega)

/-- What is encoded before the rest, one byte for each character. -/
def prepend (out : List UInt8) (r : List UInt8 × Nat) : List UInt8 × Nat :=
  (out ++ r.1, out.length + r.2)

/-- The run is one of so many characters at the front of the source, and done if there are no fewer. -/
structure Runs (n : Nat) (src : List UInt8) (run : List UInt8 × Bool) : Prop where
  le : run.1.length ≤ n
  done : run.2 = true → run.1.length = n
  fitting : ∀ room, n ≤ room → fitting room src =
    prepend run.1 (fitting (room - run.1.length) (src.drop run.1.length))

theorem fitting_ascii {c : UInt8} (hc : cube2uni c ≤ 0x7F) {room : Nat} (hroom : 0 < room)
    (src : List UInt8) : fitting room (c :: src) =
      prepend [UInt8.ofNat (cube2uni c)] (fitting (room - 1) src) := by
  rw [fitting, encode_ascii hc, List.length_singleton, if_neg (by omega), prepend,
    List.length_singleton, Nat.add_comm 1]

/-- **The run** of characters of one byte. -/
theorem runs_asciirun {n : Nat} {src : List UInt8} (hn : 0 < n) (hlen : n ≤ src.length)
    (hfirst : ∀ c ∈ src.head?, cube2uni c ≤ 0x7F) : Runs n src (asciirun n src) := by
  induction n generalizing src with
  | zero => omega
  | succ n ih =>
    cases src with
    | nil => simp at hlen
    | cons c src =>
      have hc : cube2uni c ≤ 0x7F := hfirst c rfl
      have hsingle : ∀ b, (b = true → n = 0) →
          Runs (n + 1) (c :: src) ([UInt8.ofNat (cube2uni c)], b) := fun b hb =>
        { le := by simp
          done := fun h => by simp [hb h]
          fitting := fun room hroom => fitting_ascii hc (by omega) src }
      cases n with
      | zero => exact hsingle true fun _ => rfl
      | succ n =>
        cases src with
        | nil => simp at hlen
        | cons d src =>
          have heq : asciirun (n + 1 + 1) (c :: d :: src) = if cube2uni d ≤ 0x7F then
              (UInt8.ofNat (cube2uni c) :: (asciirun (n + 1) (d :: src)).1,
                (asciirun (n + 1) (d :: src)).2)
            else ([UInt8.ofNat (cube2uni c)], false) := rfl
          rw [heq]
          by_cases hd : cube2uni d ≤ 0x7F
          · rw [if_pos hd]
            have hrest := @ih (d :: src) (by omega) (by simpa using hlen) (by simpa using hd)
            have hle := hrest.le
            refine ⟨by simpa using hle, fun h => by simp [hrest.done h], fun room hroom => ?_⟩
            rw [fitting_ascii hc (by omega), hrest.fitting (room - 1) (by omega)]
            simp only [prepend, List.length_cons, List.length_nil, List.drop_succ_cons,
              List.cons_append, List.nil_append, Prod.mk.injEq]
            have hroom' : room - 1 - (asciirun (n + 1) (d :: src)).1.length =
                room - ((asciirun (n + 1) (d :: src)).1.length + 1) := by omega
            rw [hroom']
            exact ⟨rfl, by omega⟩
          · rw [if_neg hd]
            exact hsingle false (by simp)

/-- **As many characters are encoded as there is room for.** -/
theorem encodeinto_eq (room : Nat) (src : List UInt8) : encodeinto room src = fitting room src := by
  induction hn : src.length using Nat.strong_induction_on generalizing room src with
  | _ n ih =>
    -- the run, and that nothing of it is left out
    have hrun : (runof room src).1.length ≤ room ∧ fitting room src =
          prepend (runof room src).1 (fitting (room - (runof room src).1.length)
            (src.drop (runof room src).1.length)) ∧
        ((runof room src).2 = true → fitting (room - (runof room src).1.length)
          (src.drop (runof room src).1.length) = ([], 0)) := by
      unfold runof
      cases src with
      | nil => exact ⟨Nat.zero_le _, rfl, fun _ => rfl⟩
      | cons c src =>
        dsimp only
        by_cases hc : cube2uni c ≤ 0x7F
        · rw [if_pos hc]
          by_cases hroom : room = 0
          · rw [if_pos hroom, hroom]
            simp [fitting_zero, prepend]
          · rw [if_neg hroom]
            have hruns := @runs_asciirun (min (c :: src).length room) (c :: src)
              (by simp only [List.length_cons]; omega) (Nat.min_le_left _ _) (by simpa using hc)
            have hle := hruns.le
            refine ⟨by omega, hruns.fitting room (Nat.min_le_right _ _), fun hdone => ?_⟩
            rw [hruns.done hdone]
            rcases Nat.le_total (c :: src).length room with h | h
            · rw [Nat.min_eq_left h, List.drop_length]
              rfl
            · rw [Nat.min_eq_right h, Nat.sub_self, fitting_zero]
        · rw [if_neg hc]
          exact ⟨Nat.zero_le _, by simp [prepend], fun h => by simp at h⟩
    obtain ⟨hle, hfit, hdone⟩ := hrun
    rw [encodeinto, hfit]
    dsimp only
    by_cases hd : (runof room src).2 = true
    · rw [if_pos hd, hdone hd]
      simp [prepend]
    · rw [if_neg hd]
      split
      · next hdrop =>
        rw [hdrop]
        simp [prepend, fitting]
      · next c rest hdrop =>
        have hlen := congrArg List.length hdrop
        rw [List.length_drop, List.length_cons] at hlen
        rw [hdrop, fitting]
        by_cases hc : room - (runof room src).1.length < (encode c).length
        · rw [if_pos hc, if_pos hc]
          simp [prepend]
        · rw [if_neg hc, if_neg hc, ih rest.length (by omega) _ rest rfl]
          simp only [prepend, List.append_assoc, Prod.mk.injEq]
          exact ⟨trivial, by omega⟩

/-! ## Pieces -/

theorem fitting_spec (room : Nat) (src : List UInt8) :
    (fitting room src).2 ≤ src.length ∧ (fitting room src).1.length ≤ room ∧
      (fitting room src).1 = encodeutf8 (src.take (fitting room src).2) := by
  induction src generalizing room with
  | nil => exact ⟨Nat.zero_le _, Nat.zero_le _, rfl⟩
  | cons c src ih =>
    rw [fitting]
    split
    · exact ⟨Nat.zero_le _, Nat.zero_le _, rfl⟩
    · next h =>
      obtain ⟨hle, hroom, heq⟩ := ih (room - (encode c).length)
      refine ⟨?_, ?_, ?_⟩
      · simpa using hle
      · rw [List.length_append]
        omega
      · dsimp only
        rw [List.take_succ_cons, encodeutf8, List.flatMap_cons, heq]
        rfl

/-- Room for two bytes is room for a character. -/
theorem fitting_pos {room : Nat} (hroom : 2 ≤ room) {src : List UInt8} (hsrc : src ≠ []) :
    0 < (fitting room src).2 := by
  cases src with
  | nil => exact absurd rfl hsrc
  | cons c src =>
    have h := (length_encode c).2
    rw [fitting, if_neg (by omega)]
    exact Nat.succ_pos _

theorem length_encodeutf8_le (src : List UInt8) : (encodeutf8 src).length ≤ 2 * src.length := by
  induction src with
  | nil => exact Nat.le_refl 0
  | cons c src ih =>
    have h := (length_encode c).2
    rw [encodeutf8, List.flatMap_cons, List.length_append, List.length_cons]
    unfold encodeutf8 at ih
    omega

/-- Room for the whole text. -/
theorem fitting_all {room : Nat} {src : List UInt8} (h : (encodeutf8 src).length ≤ room) :
    fitting room src = (encodeutf8 src, src.length) := by
  induction src generalizing room with
  | nil => rfl
  | cons c src ih =>
    have hsplit : encodeutf8 (c :: src) = encode c ++ encodeutf8 src := List.flatMap_cons
    rw [hsplit, List.length_append] at h
    rw [fitting, if_neg (by omega), ih (by omega), hsplit]
    rfl

/-- **Pieces** with room for two bytes each: they are the text so far, and each of them takes a
character of what is left. -/
theorem pieces_spec {rooms : List Nat} (h : ∀ room ∈ rooms, 2 ≤ room) (src : List UInt8) :
    (pieces rooms src).1.flatten = encodeutf8 (src.take (pieces rooms src).2) ∧
      min rooms.length src.length ≤ (pieces rooms src).2 ∧
      (pieces rooms src).2 ≤ src.length := by
  induction rooms generalizing src with
  | nil => simp [pieces, encodeutf8]
  | cons room rooms ih =>
    obtain ⟨hle, -, heq⟩ := fitting_spec room src
    obtain ⟨hflat, hmin, hmax⟩ := ih (fun r hr => h r (List.mem_cons_of_mem room hr))
      (src.drop (fitting room src).2)
    rw [List.length_drop] at hmin hmax
    simp only [pieces, encodeinto_eq]
    refine ⟨?_, ?_, by omega⟩
    · rw [List.flatten_cons, hflat, heq, List.take_add]
      simp only [encodeutf8, List.flatMap_append]
    · rw [List.length_cons]
      by_cases hsrc : src = []
      · subst hsrc
        simp
      · have hpos := fitting_pos (h room List.mem_cons_self) hsrc
        omega

/-! ## Decoding in place -/

/-- A buffer. -/
abbrev Buf := Nat → UInt8

/-- The bytes of a buffer from `src` to `srcend`. -/
def between (buf : Buf) (src srcend : Nat) : List Byte :=
  (List.range' src (srcend - src)).map fun i => (buf i, i)

variable (behind : Nat → UInt8)

/-- The loop of `decodeutf8` where the characters are written to the buffer the bytes are read from:
the buffer, `src` and `dst` after it. -/
def decodeloop (srcend dstend : Nat) (buf : Buf) (src dst : Nat) : Buf × Nat × Nat :=
  if src < srcend ∧ dst < dstend then
    match turn behind (buf src, src) (between buf (src + 1) srcend) with
    | .char c k => decodeloop srcend dstend (Function.update buf dst c) (src + 1 + k) (dst + 1)
    | .skip k => decodeloop srcend dstend buf (src + 1 + k) dst
    | .stop => (buf, src + 1, dst)
  else (buf, src, dst)
termination_by srcend - src

/-- The loop over four bytes at a time: where it ends, or meets a byte from 0x80 on. -/
def scan4 (buf : Buf) (end4 src : Nat) : Nat :=
  if src < end4 then
    if buf src < 0x80 ∧ buf (src + 1) < 0x80 ∧ buf (src + 2) < 0x80 ∧ buf (src + 3) < 0x80 then
      scan4 buf end4 (src + 4)
    else src
  else src
termination_by end4 - src

/-- The loop over the bytes behind them. -/
def scan (buf : Buf) (srcend src : Nat) : Nat :=
  if src < srcend then if buf src < 0x80 then scan buf srcend (src + 1) else src else src
termination_by srcend - src

/-- `decodeutf8(buf, dstlen, buf, srclen, &carry)`: the buffer, the carry and what it returns. -/
def decodeinplace (dstlen srclen : Nat) (buf : Buf) : Buf × Nat × Nat :=
  let len := min dstlen srclen
  let end4 := len / 4 * 4
  let src := scan4 buf end4 0
  if src < end4 then decodeloop behind srclen dstlen buf src src
  else
    let src := scan buf len src
    if src < len then decodeloop behind srclen dstlen buf src src
    else (buf, len, len)

variable {behind}

theorem between_self (buf : Buf) (src : Nat) : between buf src src = [] := by
  simp [between]

theorem between_cons (buf : Buf) {src srcend : Nat} (h : src < srcend) :
    between buf src srcend = (buf src, src) :: between buf (src + 1) srcend := by
  obtain ⟨n, hn⟩ : ∃ n, srcend - src = n + 1 := ⟨srcend - src - 1, by omega⟩
  have hn' : srcend - (src + 1) = n := by omega
  rw [between, between, hn, hn', List.range'_succ, List.map_cons]

theorem length_between (buf : Buf) (src srcend : Nat) :
    (between buf src srcend).length = srcend - src := by
  simp [between]

theorem drop_between (buf : Buf) (src srcend k : Nat) :
    (between buf src srcend).drop k = between buf (src + k) srcend := by
  rw [between, between, ← List.map_drop, List.drop_range', Nat.mul_one, Nat.sub_sub]

/-- A character that is written behind the bytes to come changes none of them. -/
theorem between_update (buf : Buf) {src dst : Nat} (h : dst < src) (srcend : Nat) (c : UInt8) :
    between (Function.update buf dst c) src srcend = between buf src srcend := by
  refine List.map_congr_left fun i hi => ?_
  have hle := (List.mem_range'_1.mp hi).1
  rw [Function.update_of_ne (by omega)]

/-- What the loop leaves: the characters from `dst` on, nothing changed before it, and the place the
bytes not read begin at. -/
structure Leaves (buf : Buf) (srcend dst : Nat) (d : Decoded) (r : Buf × Nat × Nat) : Prop where
  carry : r.2.1 + d.rest.length = srcend
  count : r.2.2 = dst + d.out.length
  before : ∀ i < dst, r.1 i = buf i
  out : (List.range' dst d.out.length).map r.1 = chars d.out

/-- **The loop in place** gives what it gives with another buffer: the characters never come before
the bytes. -/
theorem leaves_decodeloop {srcend dstend : Nat} (buf : Buf) {src dst : Nat} (hdst : dst ≤ src)
    (hsrc : src ≤ srcend) : Leaves buf srcend dst
      (decodeutf8 behind (dstend - dst) (between buf src srcend))
      (decodeloop behind srcend dstend buf src dst) := by
  induction hn : srcend - src using Nat.strong_induction_on generalizing buf src dst with
  | _ n ih =>
    rw [decodeloop]
    by_cases hloop : src < srcend ∧ dst < dstend
    · obtain ⟨hlt, hroom⟩ := hloop
      obtain ⟨m, hm⟩ : ∃ m, dstend - dst = m + 1 := ⟨dstend - dst - 1, by omega⟩
      have hm' : m = dstend - (dst + 1) := by omega
      rw [if_pos ⟨hlt, hroom⟩, hm, between_cons buf hlt, decodeutf8]
      have hlen := length_between buf (src + 1) srcend
      rcases @turn_cases behind (buf src, src) (between buf (src + 1) srcend) with
        ⟨-, h⟩ | ⟨k, hk, -, h | ⟨c, h⟩⟩
      · rw [h]
        exact ⟨by dsimp only; omega, rfl, fun _ _ => rfl, rfl⟩
      · rw [h]
        dsimp only
        rw [drop_between, ← hm]
        exact ih (srcend - (src + 1 + k)) (by omega) buf (by omega) (by omega) rfl
      · rw [h]
        dsimp only
        have hrest := @ih (srcend - (src + 1 + k)) (by omega) (Function.update buf dst c)
          (src + 1 + k) (dst + 1) (by omega) (by omega) rfl
        rw [between_update buf (by omega), ← hm', ← drop_between] at hrest
        obtain ⟨h₁, h₂, h₃, h₄⟩ := hrest
        refine ⟨h₁, ?_, fun i hi => ?_, ?_⟩
        · rw [h₂]
          simp only [Decoded.cons, List.length_cons]
          omega
        · rw [h₃ i (by omega), Function.update_of_ne (by omega)]
        · have hhere := h₃ dst (Nat.lt_succ_self dst)
          rw [Function.update_self] at hhere
          simp only [Decoded.cons, List.length_cons, chars, List.map_cons] at h₄ ⊢
          rw [List.range'_succ, List.map_cons, hhere, h₄]
    · rw [if_neg hloop]
      have hlen := length_between buf src srcend
      by_cases hlt : src < srcend
      · have hzero : dstend - dst = 0 := by omega
        rw [hzero, decodeutf8]
        exact ⟨by dsimp only; omega, rfl, fun _ _ => rfl, rfl⟩
      · have hend : src = srcend := by omega
        subst hend
        rw [between_self]
        have hnil : decodeutf8 behind (dstend - dst) [] = {} := by
          cases dstend - dst <;> simp [decodeutf8]
        rw [hnil]
        exact ⟨rfl, rfl, fun _ _ => rfl, rfl⟩

theorem scan4_spec (buf : Buf) {end4 src : Nat} (hle : src ≤ end4) (hfour : (end4 - src) % 4 = 0) :
    src ≤ scan4 buf end4 src ∧ scan4 buf end4 src ≤ end4 ∧
      ∀ i, src ≤ i → i < scan4 buf end4 src → buf i < 0x80 := by
  fun_induction scan4 buf end4 src with
  | case1 src hlt h ih =>
    obtain ⟨h₁, h₂, h₃⟩ := ih (by omega) (by omega)
    refine ⟨by omega, h₂, fun i hi hi' => ?_⟩
    obtain ⟨ha, hb, hc, hd⟩ := h
    by_cases h₄ : src + 4 ≤ i
    · exact h₃ i h₄ hi'
    · obtain rfl | rfl | rfl | rfl : i = src ∨ i = src + 1 ∨ i = src + 2 ∨ i = src + 3 := by omega
      · exact ha
      · exact hb
      · exact hc
      · exact hd
  | case2 src hlt h => exact ⟨Nat.le_refl src, hle, fun i hi hi' => absurd hi' (by omega)⟩
  | case3 src hlt => exact ⟨Nat.le_refl src, hle, fun i hi hi' => absurd hi' (by omega)⟩

theorem scan_spec (buf : Buf) {srcend src : Nat} (hle : src ≤ srcend) :
    src ≤ scan buf srcend src ∧ scan buf srcend src ≤ srcend ∧
      ∀ i, src ≤ i → i < scan buf srcend src → buf i < 0x80 := by
  fun_induction scan buf srcend src with
  | case1 src hlt h ih =>
    obtain ⟨h₁, h₂, h₃⟩ := ih (by omega)
    refine ⟨by omega, h₂, fun i hi hi' => ?_⟩
    by_cases hsrc : src + 1 ≤ i
    · exact h₃ i hsrc hi'
    · obtain rfl : i = src := by omega
      exact h
  | case2 src hlt h => exact ⟨Nat.le_refl src, hle, fun i hi hi' => absurd hi' (by omega)⟩
  | case3 src hlt => exact ⟨Nat.le_refl src, hle, fun i hi hi' => absurd hi' (by omega)⟩

/-- Bytes below 0x80, up to the room there is. -/
theorem decodeutf8_ascii (buf : Buf) {srcend room p : Nat} (hp : p ≤ srcend) (hroom : p ≤ room)
    (h : ∀ i < p, buf i < 0x80) : decodeutf8 behind room (between buf 0 srcend) =
      (decodeutf8 behind (room - p) (between buf p srcend)).append
        ((List.range p).map fun i => (buf i, buf i, i)) := by
  induction p with
  | zero => rfl
  | succ p ih =>
    have hturn : turn behind (buf p, p) (between buf (p + 1) srcend) = .char (buf p) 0 := by
      unfold turn
      rw [if_pos (h p (Nat.lt_succ_self p))]
    obtain ⟨m, hm⟩ : ∃ m, room - p = m + 1 := ⟨room - p - 1, by omega⟩
    have hm' : room - (p + 1) = m := by omega
    rw [ih (by omega) (by omega) fun i hi => h i (by omega), hm, between_cons buf (by omega),
      decodeutf8, hturn, hm', List.range_succ, List.map_append]
    simp only [List.drop_zero, Decoded.append, Decoded.cons, List.map_cons, List.map_nil,
      List.append_assoc, List.cons_append, List.nil_append]

/-- What is left behind bytes that stay where they are. -/
theorem Leaves.prepend {buf : Buf} {srcend p : Nat} {d : Decoded} {r : Buf × Nat × Nat}
    (h : Leaves buf srcend p d r) :
    Leaves buf srcend 0 (d.append ((List.range p).map fun i => (buf i, buf i, i))) r := by
  obtain ⟨h₁, h₂, h₃, h₄⟩ := h
  refine ⟨h₁, ?_, fun i hi => absurd hi (Nat.not_lt_zero i), ?_⟩
  · rw [h₂]
    simp [Decoded.append]
  · have hsame : (List.range' 0 p).map r.1 = (List.range p).map buf := by
      rw [List.range_eq_range']
      exact List.map_congr_left fun i hi => h₃ i (by simpa using List.mem_range'_1.mp hi)
    have hsplit : List.range' 0 (p + d.out.length) =
        List.range' 0 p ++ List.range' p d.out.length := by
      rw [← List.range'_append_1, Nat.zero_add]
    simp only [Decoded.append, List.length_append, List.length_map, List.length_range]
    rw [hsplit, List.map_append, h₄, hsame]
    simp [chars, Function.comp_def]

/-- **Decoding in place** gives the characters, their number and the carry that decoding into another
buffer gives. -/
theorem leaves_decodeinplace (dstlen srclen : Nat) (buf : Buf) :
    Leaves buf srclen 0 (decodeutf8 behind dstlen (between buf 0 srclen))
      (decodeinplace behind dstlen srclen buf) := by
  -- from a place with only bytes below 0x80 before it
  have hloop : ∀ p, p ≤ min dstlen srclen → (∀ i < p, buf i < 0x80) →
      Leaves buf srclen 0 (decodeutf8 behind dstlen (between buf 0 srclen))
        (decodeloop behind srclen dstlen buf p p) := fun p hp hbytes => by
    rw [decodeutf8_ascii buf (by omega) (by omega) hbytes]
    exact (leaves_decodeloop buf (Nat.le_refl p) (by omega)).prepend
  unfold decodeinplace
  dsimp only
  obtain ⟨-, h₂, h₃⟩ := scan4_spec buf (Nat.zero_le (min dstlen srclen / 4 * 4)) (by omega)
  split
  · next hlt => exact hloop _ (by omega) fun i hi => h₃ i (Nat.zero_le i) hi
  · next hlt =>
    obtain ⟨h₄, h₅, h₆⟩ := @scan_spec buf (min dstlen srclen)
      (scan4 buf (min dstlen srclen / 4 * 4) 0) (by omega)
    have hbytes : ∀ i < scan buf (min dstlen srclen) (scan4 buf (min dstlen srclen / 4 * 4) 0),
        buf i < 0x80 := fun i hi => by
      by_cases hi' : i < scan4 buf (min dstlen srclen / 4 * 4) 0
      · exact h₃ i (Nat.zero_le i) hi'
      · exact h₆ i (by omega) hi
    split
    · exact hloop _ h₅ hbytes
    · next hend =>
      have hall : scan buf (min dstlen srclen) (scan4 buf (min dstlen srclen / 4 * 4) 0) =
          min dstlen srclen := by omega
      rw [hall] at hbytes
      rw [decodeutf8_ascii buf (Nat.min_le_right _ _) (Nat.min_le_left _ _) hbytes]
      refine Leaves.prepend ?_
      have hlen := length_between buf (min dstlen srclen) srclen
      by_cases hle : dstlen ≤ srclen
      · have hzero : dstlen - min dstlen srclen = 0 := by omega
        rw [hzero, decodeutf8]
        exact ⟨by dsimp only; omega, rfl, fun _ _ => rfl, rfl⟩
      · have hmin : min dstlen srclen = srclen := by omega
        have hnil : decodeutf8 behind (dstlen - srclen) [] = {} := by
          cases dstlen - srclen <;> simp [decodeutf8]
        rw [hmin, between_self, hnil]
        exact ⟨rfl, rfl, fun _ _ => rfl, rfl⟩

/-! ## The whole -/

/-- What was encoded is decoded where there is room for the characters. -/
theorem decodeutf8_encodeutf8 {t : List UInt8} {src : List Byte}
    (hsrc : src.map Prod.fst = encodeutf8 t) {n : Nat} (hn : t.length ≤ n) :
    chars (decodeutf8 behind n src).out = t ∧ (decodeutf8 behind n src).rest = [] := by
  induction t generalizing src n with
  | nil =>
    obtain rfl := List.map_eq_nil_iff.mp hsrc
    cases n <;> simp [decodeutf8, chars]
  | cons c t ih =>
    obtain ⟨src, r, rfl, hs, hr⟩ := List.map_eq_append_iff.mp hsrc
    obtain ⟨b, rest, rfl, hturn⟩ := turn_encode behind hs r
    obtain ⟨n, rfl⟩ : ∃ m, n = m + 1 := ⟨n - 1, by simp at hn; omega⟩
    obtain ⟨h₁, h₂⟩ := ih hr (n := n) (by simpa using hn)
    rw [List.cons_append, decodeutf8, hturn]
    dsimp only
    rw [List.drop_left]
    exact ⟨congrArg (c :: ·) h₁, h₂⟩

/-- **Text as UTF-8**: encoded with room for all of it, it is decoded to what it was; encoded in
pieces of two bytes or more, from the carry on each time, each piece takes a character of what is left
and all of them together are the text encoded at once; and decoding in place gives the characters, the
number and the carry that decoding into another buffer gives. -/
theorem utf8_exact (behind : Nat → UInt8) :
    (∀ t room n src, (encodeutf8 t).length ≤ room → t.length ≤ n →
      encodeinto room t = (encodeutf8 t, t.length) ∧
      (src.map Prod.fst = (encodeinto room t).1 → chars (decodeutf8 behind n src).out = t ∧
        (decodeutf8 behind n src).rest = [])) ∧
    (∀ room t, 2 ≤ room → t ≠ [] → 0 < (encodeinto room t).2) ∧
    (∀ rooms t, (∀ room ∈ rooms, 2 ≤ room) →
      (pieces rooms t).1.flatten = encodeutf8 (t.take (pieces rooms t).2) ∧
      (t.length ≤ rooms.length →
        (pieces rooms t).2 = t.length ∧ (pieces rooms t).1.flatten = encodeutf8 t)) ∧
    ∀ dstlen srclen buf,
      let d := decodeutf8 behind dstlen (between buf 0 srclen)
      let r := decodeinplace behind dstlen srclen buf
      (List.range r.2.2).map r.1 = chars d.out ∧ r.2.2 = d.out.length ∧
        r.2.1 = srclen - d.rest.length := by
  refine ⟨fun t room n src hroom hn => ?_, fun room t hroom ht => ?_, fun rooms t h => ?_,
    fun dstlen srclen buf => ?_⟩
  · have heq : encodeinto room t = (encodeutf8 t, t.length) := by
      rw [encodeinto_eq, fitting_all hroom]
    refine ⟨heq, fun hsrc => ?_⟩
    rw [heq] at hsrc
    exact decodeutf8_encodeutf8 hsrc hn
  · rw [encodeinto_eq]
    exact fitting_pos hroom ht
  · obtain ⟨hflat, hmin, hmax⟩ := pieces_spec h t
    refine ⟨hflat, fun hlen => ?_⟩
    have hall : (pieces rooms t).2 = t.length := by omega
    rw [hall, List.take_length] at hflat
    exact ⟨hall, hflat⟩
  · obtain ⟨h₁, h₂, -, h₄⟩ := @leaves_decodeinplace behind dstlen srclen buf
    dsimp only
    rw [Nat.zero_add] at h₂
    refine ⟨?_, h₂, by omega⟩
    rw [h₂, List.range_eq_range']
    exact h₄

end QServ.Utf8
