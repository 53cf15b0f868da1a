import Mathlib.Data.List.Basic
import Mathlib.Tactic.NormNum

/-!
# Bytes of a packet

The integer encodings of `engine/server.cpp`: `putint` takes one, three or five bytes,
`putuint` up to four.
-/

namespace QServ

/-- `(uchar)n`. -/
def byte (n : Int) : UInt8 := UInt8.ofNat (n % 256).toNat

/-- `putint(p, n)`. -/
def putint (n : Int) : List UInt8 :=
  if n < 128 ∧ -127 < n then [byte n]
  else if n < 0x8000 ∧ -0x8000 ≤ n then [0x80, byte n, byte (n / 2 ^ 8)]
  else [0x81, byte n, byte (n / 2 ^ 8), byte (n / 2 ^ 16), byte (n / 2 ^ 24)]

/-- `putuint(p, n)` for a length, so not negative. -/
def putuint (n : Nat) : List UInt8 :=
  if 2 ^ 21 ≤ n then
    [byte (0x80 + n % 128), byte (0x80 + n / 2 ^ 7 % 128), byte (0x80 + n / 2 ^ 14 % 128),
      byte (n / 2 ^ 21)]
  else if n < 2 ^ 7 then [byte n]
  else if n < 2 ^ 14 then [byte (0x80 + n % 128), byte (n / 2 ^ 7)]
  else [byte (0x80 + n % 128), byte (0x80 + n / 2 ^ 7 % 128), byte (n / 2 ^ 14)]

theorem putint_length_le (n : Int) : (putint n).length ≤ 5 := by
  unfold putint
  split
  · simp
  · split <;> simp

theorem putuint_length_le (n : Nat) : (putuint n).length ≤ 4 := by
  unfold putuint
  split
  · simp
  · split
    · simp
    · split <;> simp

/-- A code that fits in seven bits takes one byte. -/
theorem putint_length_small {n : Int} (h : 0 ≤ n) (h' : n < 128) : (putint n).length = 1 := by
  unfold putint
  rw [if_pos (by omega)]
  rfl

end QServ
