import Mathlib.Data.List.Basic

/-!
# Text as the server handles it

C strings are strings of characters below 256.  The character classes are those of the
table `cubectype`, and `filtertext` is the filter of `shared/tools.cpp` every name and
every chat line goes through.
-/

namespace QServ

/-- `iscubespace(c)`: tabulators, line feeds and blanks. -/
def iscubespace (c : Char) : Bool := (9 ≤ c.toNat && c.toNat ≤ 13) || c.toNat = 32

/-- `iscubeprint(c)`: everything else but the terminating zero. -/
def iscubeprint (c : Char) : Bool := c.toNat ≠ 0 && !iscubespace c

/-- `isdigit(c)`. -/
def isdigit (c : Char) : Bool := 48 ≤ c.toNat && c.toNat ≤ 57

/-- `isxdigit(c)`. -/
def isxdigit (c : Char) : Bool :=
  isdigit c || (65 ≤ c.toNat && c.toNat ≤ 70) || (97 ≤ c.toNat && c.toNat ≤ 102)

/-- `MAXSTRLEN`, the size of a `string`. -/
def MAXSTRLEN : Nat := 260

/-- `MAXNAMELEN`. -/
def MAXNAMELEN : Nat := 15

/-- The loop of `filtertext(dst, src, whitespace, forcespace, len)`: colour codes are
dropped with the character after them (`skip`), unprintable characters too, and `len`
characters are kept at most. -/
def filterchars (whitespace forcespace : Bool) : List Char → Bool → Nat → List Char
  | [], _, _ => []
  | c :: cs, skip, len =>
    if len = 0 then []
    else if skip then filterchars whitespace forcespace cs false len
    else if c = '\x0c' then filterchars whitespace forcespace cs true len
    else if !iscubeprint c && (!iscubespace c || !whitespace) then
      filterchars whitespace forcespace cs false len
    else
      (if !iscubeprint c && forcespace then ' ' else c) ::
        filterchars whitespace forcespace cs false (len - 1)

/-- `filtertext` on strings; the default length is that of the text buffer of `parsepacket`. -/
def filtertext (src : String) (whitespace : Bool := true) (forcespace : Bool := false)
    (len : Nat := 4999) : String :=
  String.ofList (filterchars whitespace forcespace src.toList false len)

example : filtertext "\x0c3na me\n" false false MAXNAMELEN = "name" := by decide

end QServ
