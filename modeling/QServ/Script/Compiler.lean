import QServ.Script.Lexer

/-!
# The compiler of CubeScript

What `engine/command.cpp` makes of a text: words of 32 bits, an instruction with what it is about in
the upper 24, or a number or characters behind one.  The functions that call each other are given
the others as a record, and the record is closed up to a depth of recursion.

* `Compiler`: the code so far, the identifiers, and what a reader of the code has to know.
* `compileword`, `compilearg`, `compilelookup`, `compileblock`, `compilestatements`: the functions,
  for any record of those they call.
* `compilemain`: the code of a text.
-/

namespace QServ

namespace Script

/-! ## Instructions -/

/-- `VAL_*`, the types of values and of what is wanted. -/
inductive Valtype
  | VAL_NULL | VAL_INT | VAL_FLOAT | VAL_STR | VAL_ANY | VAL_CODE | VAL_MACRO | VAL_IDENT
deriving DecidableEq, Repr

/-- The number of the enumeration. -/
def Valtype.code : Valtype → Nat
  | .VAL_NULL => 0
  | .VAL_INT => 1
  | .VAL_FLOAT => 2
  | .VAL_STR => 3
  | .VAL_ANY => 4
  | .VAL_CODE => 5
  | .VAL_MACRO => 6
  | .VAL_IDENT => 7

/-- `CODE_*`. -/
inductive Opcode
  | START | OFFSET | POP | ENTER | EXIT | VAL | VALI | MACRO | BOOL | BLOCK | COMPILE | FORCE | RESULT
  | IDENT | IDENTU | IDENTARG | COM | COMD | COMC | COMV | CONC | CONCW | CONCM | DOWN | SVAR | SVAR1
  | IVAR | IVAR1 | IVAR2 | IVAR3 | FVAR | FVAR1 | LOOKUP | LOOKUPU | LOOKUPARG
  | ALIAS | ALIASU | ALIASARG | CALL | CALLU | CALLARG | PRINT | LOCAL
deriving DecidableEq, Repr

/-- The opcodes in the order of the enumeration. -/
def opcodes : List Opcode :=
  [.START, .OFFSET, .POP, .ENTER, .EXIT, .VAL, .VALI, .MACRO, .BOOL, .BLOCK, .COMPILE, .FORCE,
    .RESULT, .IDENT, .IDENTU, .IDENTARG, .COM, .COMD, .COMC, .COMV, .CONC, .CONCW, .CONCM, .DOWN,
    .SVAR, .SVAR1, .IVAR, .IVAR1, .IVAR2, .IVAR3, .FVAR, .FVAR1, .LOOKUP, .LOOKUPU, .LOOKUPARG,
    .ALIAS, .ALIASU, .ALIASARG, .CALL, .CALLU, .CALLARG, .PRINT, .LOCAL]

/-- The number of the enumeration. -/
def Opcode.code (op : Opcode) : Nat := opcodes.idxOf op

/-- `RET_*`, the type a result is forced to, where it is one of the four. -/
inductive Ret
  | RET_NULL | RET_INT | RET_FLOAT | RET_STR
deriving DecidableEq, Repr

/-- The two bits behind the opcode. -/
def Ret.code : Ret → Nat
  | .RET_NULL => 0
  | .RET_INT => 1
  | .RET_FLOAT => 2
  | .RET_STR => 3

/-- `wordtype < VAL_ANY ? wordtype<<CODE_RET : 0`. -/
def Valtype.ret : Valtype → Ret
  | .VAL_INT => .RET_INT
  | .VAL_FLOAT => .RET_FLOAT
  | .VAL_STR => .RET_STR
  | _ => .RET_NULL

/-- `(ltype >= VAL_ANY ? type : ltype)<<CODE_RET`. -/
def Valtype.retor (ltype type : Valtype) : Ret :=
  if Valtype.VAL_ANY.code ≤ ltype.code then type.ret else ltype.ret

/-- An instruction in its word: 6 bits, 2 bits, and 24 bits of what it is about. -/
def inst (op : Opcode) (ret : Ret) (arg : Int) : Nat :=
  op.code + 64 * ret.code + 256 * (arg % 2 ^ 24).toNat

/-- The characters of a text in words, with at least one zero behind them. -/
def pack : Text → List Nat
  | a :: b :: c :: d :: l =>
    (a.toNat + 2 ^ 8 * b.toNat + 2 ^ 16 * c.toNat + 2 ^ 24 * d.toNat) :: pack l
  | [a, b, c] => [a.toNat + 2 ^ 8 * b.toNat + 2 ^ 16 * c.toNat]
  | [a, b] => [a.toNat + 2 ^ 8 * b.toNat]
  | [a] => [a.toNat]
  | [] => [0]

/-! ## Numbers -/

/-- The value of a digit. -/
def digit (c : UInt8) : Nat :=
  if isnumeral c then c.toNat - 48
  else if chr 'a' ≤ c ∧ c ≤ chr 'z' then c.toNat - 97 + 10
  else if chr 'A' ≤ c ∧ c ≤ chr 'Z' then c.toNat - 65 + 10
  else 36

/-- `strtol(s, &end, 0)` with 64 bits, and the end. -/
def strtol (s : Text) : Int × Text :=
  let t := s.dropWhile isspace
  let negative := t.head? = some (chr '-')
  let t := if negative ∨ t.head? = some (chr '+') then t.tail else t
  let hex := (t.take 2 = word "0x" ∨ t.take 2 = word "0X") ∧
    (t.drop 2).head?.any fun c => digit c < 16
  let base := if hex then 16 else if t.head? = some (chr '0') then 8 else 10
  let t := if hex then t.drop 2 else t
  let digits := t.takeWhile fun c => digit c < base
  if digits = [] then (0, s)
  else
    let n := digits.foldl (fun n c => base * n + digit c) 0
    (if negative then -(min n (2 ^ 63) : Nat) else (min n (2 ^ 63 - 1) : Nat),
      t.drop digits.length)

/-- `int(x)`. -/
def toint (x : Int) : Int := x.bmod (2 ^ 32)

/-- `parseint(s)`. -/
def parseint (s : Text) : Int := toint (strtol s).1

/-- Floats are left open: `parsefloat`, the `int(f)` that is `f` if there is one within 24 bits, and
the bits of `f`. -/
structure Floats (F : Type) where
  parsefloat : Text → F
  whole : F → Option Int
  bits : F → Nat
  zero : F

/-! ## Identifiers -/

/-- `ID_*`, with the flag `IDF_HEX` of a variable and the prototype of a command. -/
inductive Idtype
  | ID_VAR (hex : Bool)
  | ID_FVAR
  | ID_SVAR
  | ID_COMMAND (args : Text)
  | ID_ALIAS
  | ID_LOCAL
deriving DecidableEq, Repr

/-- An identifier, as the compiler sees it; its index is its place in `identmap`. -/
structure Ident where
  name : Text
  type : Idtype
deriving DecidableEq, Repr

/-- `idents.access(name)`. -/
def access (idents : List Ident) (name : Text) : Option (Nat × Idtype) :=
  match idents.findIdx? (fun id => id.name = name) with
  | none => none
  | some i => idents[i]?.map fun id => (i, id.type)

/-- `dummyident` comes behind the arguments. -/
def dummyident : Nat := MAXARGS

/-! ## The state -/

/-- What is noted for the reader of the code: a lookup where code is wanted, an `@` that counts as an
argument, one argument too many for `args`, a number that does not fit into its bits. -/
inductive Note
  | codelookup (idents : List Ident) (p : Text)
  | stray
  | crowded
  | long
deriving DecidableEq, Repr

/-- The code, `identmap`, the notes, and whether a null pointer was taken for a text. -/
structure Compiler where
  code : List Nat := []
  idents : List Ident
  notes : List Note := []
  nulltext : Bool := false
deriving DecidableEq, Repr

namespace Compiler

variable (c : Compiler)

/-- A note is taken. -/
def note (e : Note) : Compiler := { c with notes := c.notes ++ [e] }

/-- A note is taken, if there is reason to. -/
def noteif (b : Bool) (e : Note) : Compiler := if b then c.note e else c

/-- `code.add(w)`. -/
def add (w : Nat) : Compiler := { c with code := c.code ++ [w] }

/-- An instruction about a number, that should fit. -/
def emit (op : Opcode) (ret : Ret) (arg : Nat) : Compiler :=
  (c.noteif (2 ^ 24 ≤ arg) .long).add (inst op ret arg)

/-- `newident(name, IDF_UNKNOWN)`. -/
def newident (name : Text) : Compiler × Nat × Idtype :=
  match access c.idents name with
  | some id => (c, id)
  | none =>
    if checknumber name then (c, dummyident, .ID_ALIAS)
    else
      ({ c with idents := c.idents ++ [{ name, type := .ID_ALIAS }] }, c.idents.length, .ID_ALIAS)

/-- A text in its words, behind the instruction that has its length. -/
def addtext (op : Opcode) (ret : Ret) (text : Text) : Compiler :=
  let c := c.emit op ret text.length
  { c with code := c.code ++ pack text }

/-- `compilestr(code, word, len, macro)`; no word is an empty one. -/
def compilestr (text : Text) (mac : Bool) : Compiler :=
  if text.length ≤ 3 ∧ !mac then
    c.add (inst .VALI .RET_STR ((pack text).headD 0))
  else if mac then c.addtext .MACRO .RET_NULL text
  else c.addtext .VAL .RET_STR text

/-- `compileint(code, i)`. -/
def compileint (i : Int) : Compiler :=
  if -0x800000 ≤ i ∧ i ≤ 0x7FFFFF then c.add (inst .VALI .RET_INT i)
  else (c.add (inst .VAL .RET_INT 0)).add (i % 2 ^ 32).toNat

/-- `compilefloat(code, f)`. -/
def compilefloat {F : Type} (fl : Floats F) (f : F) : Compiler :=
  match fl.whole f with
  | some i => c.add (inst .VALI .RET_FLOAT i)
  | none => (c.add (inst .VAL .RET_FLOAT 0)).add (fl.bits f % 2 ^ 32)

/-- `compilenull(code)`. -/
def compilenull : Compiler := c.add (inst .VALI .RET_NULL 0)

/-- `code.add(CODE_BLOCK)` and the offset; the place of the first is kept. -/
def openblock : Compiler := (c.add (inst .BLOCK .RET_NULL 0)).emit .OFFSET .RET_NULL (c.code.length + 2)

/-- `code[start] |= uint(code.length() - (start + 1))<<8`. -/
def closeblock (start : Nat) : Compiler :=
  let len := c.code.length - (start + 1)
  let c := c.noteif (2 ^ 24 ≤ len) .long
  { c with code := c.code.set start (inst .BLOCK .RET_NULL len) }

/-- `compileblock(code)`, the empty block. -/
def emptyblock : Compiler :=
  (c.openblock.add (inst .EXIT .RET_NULL 0)).closeblock c.code.length

/-- `compileident(code, id)`. -/
def compileident (id : Nat) : Compiler :=
  c.emit (if id < MAXARGS then .IDENTARG else .IDENT) .RET_NULL id

end Compiler

/-! ## The functions that call each other -/

/-- What is passed to the functions to call: `compilestatements`, `compileword`, `compilelookup` and
`compilearg`.  A result of none is a recursion that went too deep.  Statements are compiled with the
type `VAL_ANY` everywhere; `compileword` also tells whether there is more, and the word that is left
to its caller. -/
structure Rec where
  statements : Compiler → Text → Option UInt8 → Option (Compiler × Text)
  word : Compiler → Text → Valtype → Option (Compiler × Text × Bool × Option Text)
  lookup : Compiler → Text → Valtype → Option (Compiler × Text)
  arg : Compiler → Text → Valtype → Option (Compiler × Text × Bool)

section Functions

variable {F : Type} (fl : Floats F) (r : Rec)

/-- `compileval(code, wordtype, word, wordlen)`, where no word is the null pointer. -/
def compileval (c : Compiler) (wordtype : Valtype) (word : Option Text) : Option Compiler :=
  match wordtype with
  | .VAL_STR => some (c.compilestr (word.getD []) true)
  | .VAL_ANY => some (c.compilestr (word.getD []) false)
  | .VAL_FLOAT => some (c.compilefloat fl ((word.map fl.parsefloat).getD fl.zero))
  | .VAL_INT => some (c.compileint ((word.map parseint).getD 0))
  | .VAL_CODE => do
    let c := if word.isNone then { c with nulltext := true } else c
    let start := c.code.length
    let (c, _) ← r.statements c.openblock (word.getD []) none
    return (c.add (inst .EXIT .RET_STR 0)).closeblock start
  | .VAL_IDENT =>
    match word with
    | none => some (c.compileident dummyident)
    | some word =>
      let (c, id, _) := c.newident word
      some (c.compileident id)
  | _ => some c

/-- The letters of a prototype that take an argument, with the type that is wanted. -/
def wanted (fmt : UInt8) : Option Valtype :=
  if fmt = chr 's' then some .VAL_STR
  else if fmt = chr 'i' ∨ fmt = chr 'b' then some .VAL_INT
  else if fmt = chr 'f' then some .VAL_FLOAT
  else if fmt = chr 't' then some .VAL_ANY
  else if fmt = chr 'e' then some .VAL_CODE
  else if fmt = chr 'r' then some .VAL_IDENT
  else none

/-- The value that stands for an argument that is not there. -/
def compiledefault (c : Compiler) (fmt : UInt8) : Compiler :=
  if fmt = chr 's' then c.compilestr [] true
  else if fmt = chr 'i' then c.compileint 0
  else if fmt = chr 'b' then c.compileint (-2 ^ 31)
  else if fmt = chr 'f' then c.compilefloat fl fl.zero
  else if fmt = chr 't' then c.compilenull
  else if fmt = chr 'e' then c.emptyblock
  else c.compileident dummyident

/-- The loop over the prototype of a command that is looked up: no argument is there. -/
def lookupargs (id : Nat) : Text → Compiler → Nat → Compiler × Opcode
  | [], c, _ => (c, .COM)
  | fmt :: args, c, numargs =>
    let push (c : Compiler) := c.noteif (MAXARGS < numargs) .crowded
    if (wanted fmt).isSome then lookupargs id args (compiledefault fl (push c) fmt) (numargs + 1)
    else if fmt = chr '$' then lookupargs id args ((push c).compileident id) (numargs + 1)
    else if fmt = chr 'N' then lookupargs id args ((push c).compileint (-1)) (numargs + 1)
    else if fmt = chr 'C' then (c, .COMC)
    else if fmt = chr 'V' then (c, .COMV)
    else lookupargs id args c numargs

/-- The end of `compilelookup`, behind `done`. -/
def lookupdone (c : Compiler) (ltype : Valtype) : Compiler :=
  match ltype with
  | .VAL_CODE => c.add (inst .COMPILE .RET_NULL 0)
  | .VAL_IDENT => c.add (inst .IDENTU .RET_NULL 0)
  | _ => c

/-- A name that is looked up, behind `lookupid`; none if it is invalid. -/
def lookupid (c : Compiler) (ltype : Valtype) (lookup : Text) : Option Compiler :=
  match c.newident lookup with
  | (c, id, .ID_VAR _) => some (c.emit .IVAR (ltype.retor .VAL_INT) id)
  | (c, id, .ID_FVAR) => some (c.emit .FVAR (ltype.retor .VAL_FLOAT) id)
  | (c, id, .ID_SVAR) => some (c.emit .SVAR (ltype.retor .VAL_STR) id)
  | (c, id, .ID_ALIAS) =>
    some (c.emit (if id < MAXARGS then .LOOKUPARG else .LOOKUP) (ltype.retor .VAL_STR) id)
  | (c, id, .ID_COMMAND args) =>
    let (c, comtype) := lookupargs fl id args (c.add (inst .ENTER .RET_NULL 0)) 0
    some ((c.emit comtype ltype.ret id).add (inst .EXIT ltype.ret 0))
  | (_, _, .ID_LOCAL) => none

/-- What is compiled in place of a lookup that is invalid. -/
def lookupinvalid (c : Compiler) (ltype : Valtype) : Option Compiler :=
  match ltype with
  | .VAL_NULL | .VAL_ANY => some c.compilenull
  | _ => compileval fl r c ltype none

/-- A lookup of a name, from `lookupid` on. -/
def lookupnamed (c : Compiler) (p : Text) (ltype : Valtype) (lookup : Text) :
    Option (Compiler × Text) :=
  match lookupid fl c ltype lookup with
  | some c => some (lookupdone c ltype, p)
  | none => do
    let c ← lookupinvalid fl r (c.newident lookup).1 ltype
    return (c, p)

/-- What stands behind the dollar sign. -/
def lookupbehind (c : Compiler) (p : Text) (ltype : Valtype) : Option (Compiler × Text) :=
  if p.head? = some (chr '(') ∨ p.head? = some (chr '[') then do
    -- the word is none, since it stands in brackets
    let (c, p, more, _) ← r.word c p .VAL_STR
    if more then return (lookupdone (c.add (inst .LOOKUPU ltype.ret 0)) ltype, p)
    else
      let c ← lookupinvalid fl r c ltype
      return (c, p)
  else if p.head? = some (chr '$') then do
    let (c, p) ← r.lookup c p .VAL_STR
    return (lookupdone (c.add (inst .LOOKUPU ltype.ret 0)) ltype, p)
  else if p.head? = some (chr '"') then
    lookupnamed fl r c (cutstring p).2 ltype (cutstring p).1
  else
    match cutword p with
    | (none, p) => do
      let c ← lookupinvalid fl r c ltype
      return (c, p)
    | (some lookup, p) => lookupnamed fl r c p ltype lookup

/-- `compilelookup(code, p, ltype)`, with `p` at the dollar sign. -/
def compilelookup (c : Compiler) (p : Text) (ltype : Valtype) : Option (Compiler × Text) :=
  lookupbehind fl r (c.noteif (decide (ltype = .VAL_CODE)) (.codelookup c.idents p.tail)) p.tail
    ltype

/-! ### Blocks -/

/-- `iscubealnum(c)`. -/
def iscubealnum (c : UInt8) : Bool :=
  isnumeral c || (65 ≤ c && c ≤ 90) || (97 ≤ c && c ≤ 122) ||
    (1 ≤ c && c ≤ 8) || (14 ≤ c && c ≤ 31) || 127 ≤ c

/-- One round of `compileblockstr`, up to the place where so much text is left: the rest of `str`,
and the buffer. -/
def blockstrstep (stop : Nat) : Text × Text → Option (Text × Text ⊕ Text)
  | (str, buf) =>
    if str.length ≤ stop then some (.inr buf)
    else
      let q := strcspn "\r/\"@]" str
      let buf := buf ++ upto str q
      match q with
      | [] => some (.inr buf)
      | c :: rest =>
        if c = chr '\r' then some (.inl (rest, buf))
        else if c = chr '"' then
          let e := skipquote (parsestring rest)
          some (.inl (e, buf ++ upto q e))
        else if c = chr '/' then
          if rest.head? = some (chr '/') then some (.inl (strcspn "\n" q, buf))
          else some (.inl (rest, buf ++ [c]))
        else if stop < q.length then some (.inl (rest, buf ++ [c]))
        else some (.inr buf)

/-- The text `compileblockstr` copies. -/
def blockstr (str : Text) (stop : Nat) : Option Text :=
  Loop.loop (blockstrstep stop) (str.length + 1) (str, [])

/-- `compileblockstr(code, str, end, macro)`. -/
def compileblockstr (c : Compiler) (str : Text) (stop : Nat) (mac : Bool) : Option Compiler := do
  let buf ← blockstr str stop
  return if mac then c.addtext .MACRO .RET_NULL buf else c.addtext .VAL .RET_STR buf

/-- A substitution of a name, from `lookupid` on. -/
def subnamed (c : Compiler) (lookup : Text) : Compiler :=
  match c.newident lookup with
  | (c, id, .ID_VAR _) => c.emit .IVAR .RET_STR id
  | (c, id, .ID_FVAR) => c.emit .FVAR .RET_STR id
  | (c, id, .ID_SVAR) => c.emit .SVAR .RET_STR id
  | (c, id, .ID_ALIAS) => c.emit (if id < MAXARGS then .LOOKUPARG else .LOOKUP) .RET_STR id
  | (c, _, _) => (c.compilestr lookup true).add (inst .LOOKUPU .RET_STR 0)

/-- `compileblocksub(code, p)`. -/
def compileblocksub (c : Compiler) (p : Text) : Option (Compiler × Text × Bool) :=
  if p.head? = some (chr '(') then r.arg c p .VAL_STR
  else if p.head? = some (chr '[') then do
    let (c, p, more) ← r.arg c p .VAL_STR
    return (if more then c.add (inst .LOOKUPU .RET_STR 0) else c, p, more)
  else if p.head? = some (chr '"') then
    some (subnamed c (cutstring p).1, (cutstring p).2, true)
  else
    let lookup := p.takeWhile fun ch => iscubealnum ch || ch = chr '_'
    if lookup = [] then some (c, p, false)
    else some (subnamed c lookup, p.drop lookup.length, true)

/-- Where `compileblock` is: the code, `p`, `start`, `brak` and `concs`. -/
structure Blockscan where
  c : Compiler
  p : Text
  start : Text
  brak : Nat := 1
  concs : Nat := 0

/-- `ENTER` before the first piece, and one piece of those so far where they are too many. -/
def Blockscan.pieces (s : Blockscan) : Compiler × Nat :=
  let c := if s.concs = 0 then s.c.add (inst .ENTER .RET_NULL 0) else s.c
  if MAXARGS < s.concs + 2 then (c.emit .CONCW .RET_STR s.concs, 1) else (c, s.concs)

/-- A substitution, behind the first of its `@`s. -/
def compilesub (s : Blockscan) : Option Blockscan := do
  let esc := s.p
  let p := strspn "@" esc
  let level := esc.length - p.length + 1
  if level < s.brak then return { s with p }
  else
    let (c, concs) := s.pieces
    let c ← compileblockstr c s.start (esc.length + 1) true
    let concs := concs + 1
    let (c, p, sub) ← compileblocksub r c p
    return { c, p, start := p, brak := s.brak, concs := if sub then concs + 1 else concs }

/-- One round over the characters of a block; the result has the place of the end, which is the
last character where a bracket is missing, by how much text is left. -/
def blockstep (s : Blockscan) : Option (Blockscan ⊕ Blockscan × Nat) :=
  if s.brak = 0 then some (.inr (s, s.p.length + 1))
  else
    match strcspn "@\"/[]" s.p with
    | [] => some (.inr ({ s with p := [] }, 1))
    | ch :: p =>
      if ch = chr '"' then some (.inl { s with p := skipquote (parsestring p) })
      else if ch = chr '/' then
        some (.inl { s with p := if p.head? = some (chr '/') then strcspn "\n" p else p })
      else if ch = chr '[' then some (.inl { s with p, brak := s.brak + 1 })
      else if ch = chr ']' then some (.inl { s with p, brak := s.brak - 1 })
      else (compilesub r { s with p }).map .inl

/-- The end of `compileblock`. -/
def blockdone (c : Compiler) (wordtype : Valtype) (concs : Nat) (blank : Bool) : Option Compiler :=
  let c := if concs = 0 then c
    else
      (c.emit .CONCM (wordtype.retor .VAL_STR) concs).add (inst .EXIT (wordtype.retor .VAL_STR) 0)
  match wordtype with
  | .VAL_CODE =>
    some (if concs = 0 ∧ blank then c.emptyblock else c.add (inst .COMPILE .RET_NULL 0))
  | .VAL_IDENT =>
    some (if concs = 0 ∧ blank then c.compileident dummyident else c.add (inst .IDENTU .RET_NULL 0))
  | .VAL_STR | .VAL_NULL | .VAL_ANY =>
    some (if concs = 0 ∧ blank then c.compilestr [] false else c)
  | _ =>
    if concs = 0 then
      if blank then compileval fl r c wordtype none
      else some (c.add (inst .FORCE wordtype.ret 0))
    else some c

/-- `compileblock(code, p, wordtype)`, with `p` behind the bracket. -/
def compileblock (c : Compiler) (p : Text) (wordtype : Valtype) : Option (Compiler × Text) := do
  let (s, stop) ← Loop.loop (blockstep r) (p.length + 2) { c, p, start := p }
  let blank := decide (s.start.length ≤ stop)
  if !blank ∧ s.concs = 0 ∧ wordtype = .VAL_CODE then
    let start := s.c.code.length
    let (c, p) ← r.statements s.c.openblock s.start (some (chr ']'))
    return ((c.add (inst .EXIT .RET_NULL 0)).closeblock start, p)
  else if !blank ∧ s.concs = 0 ∧ wordtype = .VAL_IDENT then
    let (c, id, _) := s.c.newident (s.start.take (s.start.length - stop))
    return (c.compileident id, s.p)
  else if blank then
    let c ← blockdone fl r s.c wordtype s.concs true
    return (c, s.p)
  else
    let c ← compileblockstr s.c s.start stop (decide (0 < s.concs))
    let c ← blockdone fl r c wordtype (if 1 < s.concs then s.concs + 1 else s.concs) false
    return (c, s.p)

/-! ### Words -/

/-- `compileword(code, p, wordtype, word, wordlen)`. -/
def compileword (c : Compiler) (p : Text) (wordtype : Valtype) :
    Option (Compiler × Text × Bool × Option Text) :=
  let p := skipcomments p
  if p.head? = some (chr '"') then
    let (word, p) := cutstring p
    some (c, p, true, some word)
  else if p.head? = some (chr '$') then do
    let (c, p) ← compilelookup fl r c p wordtype
    return (c, p, true, none)
  else if p.head? = some (chr '(') then do
    let (c, p) ← r.statements (c.add (inst .ENTER .RET_NULL 0)) p.tail (some (chr ')'))
    return (lookupdone (c.add (inst .EXIT wordtype.ret 0)) wordtype, p, true, none)
  else if p.head? = some (chr '[') then do
    let (c, p) ← compileblock fl r c p.tail wordtype
    return (c, p, true, none)
  else if p.head? = some (chr '@') then some (c.note .stray, p.tail, true, none)
  else
    let (word, p) := cutword p
    some (c, p, word.isSome, word)

/-- `compilearg(code, p, wordtype)`. -/
def compilearg (c : Compiler) (p : Text) (wordtype : Valtype) : Option (Compiler × Text × Bool) := do
  match ← compileword fl r c p wordtype with
  | (c, p, true, some word) => do
    let c ← compileval fl r c wordtype (some word)
    return (c, p, true)
  | (c, p, more, _) => return (c, p, more)

/-! ### Statements -/

/-- `while(numargs < max && (more = compilearg(code, p, wordtype))) numargs++`: how many there were,
and whether there is more. -/
def compileargs (wordtype : Valtype) : Nat → Compiler → Text → Bool →
    Option (Compiler × Text × Nat × Bool)
  | 0, c, p, more => some (c, p, 0, more)
  | n + 1, c, p, _ => do
    match ← compilearg fl r c p wordtype with
    | (c, p, false) => return (c, p, 0, false)
    | (c, p, true) =>
      let (c, p, numargs, more) ← compileargs wordtype n c p true
      return (c, p, numargs + 1, more)

/-- `while(compilearg(code, p, VAL_ANY)) code.add(CODE_POP)`. -/
def compilepops (c : Compiler) (p : Text) : Option (Compiler × Text) :=
  Loop.loop (fun (c, p) => do
    match ← compilearg fl r c p .VAL_ANY with
    | (c, p, false) => return .inr (c, p)
    | (c, p, true) => return .inl (c.add (inst .POP .RET_NULL 0), p)) (p.length + 1) (c, p)

/-- Where the loop over a prototype is. -/
structure Protoscan where
  c : Compiler
  p : Text
  fmt : Nat := 0
  more : Bool := true
  rep : Bool := false
  numargs : Nat := 0
  fakeargs : Nat := 0

/-- `if(more) more = compilearg(code, p, wordtype)`. -/
def protoread (s : Protoscan) (wordtype : Valtype) : Option (Compiler × Text × Bool) :=
  if s.more then compilearg fl r s.c s.p wordtype else some (s.c, s.p, false)

/-- A letter that takes an argument. -/
def protoarg (args : Text) (s : Protoscan) (fmt : UInt8) (wordtype : Valtype) :
    Option Protoscan := do
  let (c, p, more) ← protoread fl r s wordtype
  if !more ∧ s.rep then return { s with c, p, more, fmt := s.fmt + 1 }
  else
    let c := c.noteif (MAXARGS < s.numargs) .crowded
    if !more then
      return { s with
        c := compiledefault fl c fmt, p, more, fmt := s.fmt + 1
        numargs := s.numargs + 1, fakeargs := s.fakeargs + 1 }
    else if fmt = chr 's' ∧ s.fmt + 1 = args.length then
      let (c, p, numconc, more) ← compileargs fl r .VAL_STR (MAXARGS - s.numargs) c p more
      let c := if 0 < numconc then c.emit .CONC .RET_STR (numconc + 1) else c
      return { s with c, p, more, fmt := s.fmt + 1, numargs := s.numargs + 1 }
    else return { s with c, p, more, fmt := s.fmt + 1, numargs := s.numargs + 1 }

/-- `'C'` and `'V'`: all arguments there are. -/
def protorest (s : Protoscan) : Option (Compiler × Text × Bool) := do
  if s.more then
    let (c, p, _, more) ← compileargs fl r .VAL_ANY (MAXARGS - s.numargs) s.c s.p true
    return (c, p, more)
  else return (s.c, s.p, false)

/-- One round over the prototype of a command. -/
def protostep (id : Nat) (args : Text) (s : Protoscan) :
    Option (Protoscan ⊕ Compiler × Text × Bool × Opcode) :=
  match args[s.fmt]? with
  | none => some (.inr (s.c, s.p, s.more, .COM))
  | some fmt =>
    match wanted fmt with
    | some wordtype => (protoarg fl r args s fmt wordtype).map .inl
    | none =>
      let c := s.c.noteif (MAXARGS < s.numargs) .crowded
      if fmt = chr '$' then
        some (.inl { s with c := c.compileident id, fmt := s.fmt + 1, numargs := s.numargs + 1 })
      else if fmt = chr 'N' then
        some (.inl { s with
          c := c.compileint (s.numargs - s.fakeargs : Int), fmt := s.fmt + 1
          numargs := s.numargs + 1 })
      else if fmt = chr 'C' then do
        let (c, p, more) ← protorest fl r s
        return .inr (c, p, more, .COMC)
      else if fmt = chr 'V' then do
        let (c, p, more) ← protorest fl r s
        return .inr (c, p, more, .COMV)
      else if chr '1' ≤ fmt ∧ fmt ≤ chr '4' ∧ s.more then
        some (.inl { s with fmt := s.fmt - (fmt.toNat - 48), rep := true })
      else some (.inl { s with fmt := s.fmt + 1 })

/-- The rounds over a prototype: no more than so many go by before an argument is taken. -/
def protorounds (args p : Text) : Nat := (p.length + 2) * (2 * args.length + 2)

/-- `case ID_COMMAND`. -/
def compilecommand (c : Compiler) (p : Text) (id : Nat) (args : Text) :
    Option (Compiler × Text × Bool) := do
  let (c, p, more, comtype) ←
    Loop.loop (protostep fl r id args) (protorounds args p) { c, p }
  return (c.emit comtype .RET_NULL id, p, more)

/-- `noid`: what is called is the first value. -/
def compilenoid (c : Compiler) (p : Text) : Option (Compiler × Text × Bool) := do
  let (c, p, _, more) ← compileargs fl r .VAL_ANY MAXARGS c p true
  return (c.add (inst .CALLU .RET_NULL 0), p, more)

/-- `case ID_LOCAL`. -/
def compilelocal (c : Compiler) (p : Text) : Option (Compiler × Text × Bool) := do
  match ← compileargs fl r .VAL_IDENT MAXARGS c p true with
  | (c, p, _, true) =>
    let (c, p) ← compilepops fl r c p
    return (c.add (inst .LOCAL .RET_NULL 0), p, false)
  | (c, p, _, false) => return (c.add (inst .LOCAL .RET_NULL 0), p, false)

/-- `case ID_VAR`. -/
def compilevar (c : Compiler) (p : Text) (id : Nat) (hex : Bool) :
    Option (Compiler × Text × Bool) := do
  match ← compileargs fl r .VAL_INT (if hex then 3 else 1) c p true with
  | (c, p, 0, more) => return (c.emit .PRINT .RET_NULL id, p, more)
  | (c, p, 1, more) => return (c.emit .IVAR1 .RET_NULL id, p, more)
  | (c, p, 2, more) => return (c.emit .IVAR2 .RET_NULL id, p, more)
  | (c, p, _, more) => return (c.emit .IVAR3 .RET_NULL id, p, more)

/-- `case ID_FVAR`. -/
def compilefvar (c : Compiler) (p : Text) (id : Nat) : Option (Compiler × Text × Bool) := do
  match ← compilearg fl r c p .VAL_FLOAT with
  | (c, p, false) => return (c.emit .PRINT .RET_NULL id, p, false)
  | (c, p, true) => return (c.emit .FVAR1 .RET_NULL id, p, true)

/-- `case ID_SVAR`. -/
def compilesvar (c : Compiler) (p : Text) (id : Nat) : Option (Compiler × Text × Bool) := do
  match ← compilearg fl r c p .VAL_STR with
  | (c, p, false) => return (c.emit .PRINT .RET_NULL id, p, false)
  | (c, p, true) =>
    let (c, p, numconc, more) ← compileargs fl r .VAL_ANY (MAXARGS - 1) c p true
    let c := if 0 < numconc then c.emit .CONC .RET_STR (numconc + 1) else c
    return (c.emit .SVAR1 .RET_NULL id, p, more)

/-- A statement that begins with a word. -/
def compilename (c : Compiler) (p name : Text) : Option (Compiler × Text × Bool) :=
  match access c.idents name with
  | none =>
    if checknumber name then
      let (val, stop) := strtol name
      let c := if stop = [] then c.compileint (toint val) else c.compilestr name false
      some (c.add (inst .RESULT .RET_NULL 0), p, true)
    else compilenoid fl r (c.compilestr name false) p
  | some (id, .ID_ALIAS) => do
    let (c, p, _, more) ← compileargs fl r .VAL_ANY MAXARGS c p true
    return (c.emit .CALL .RET_NULL id, p, more)
  | some (id, .ID_COMMAND args) => compilecommand fl r c p id args
  | some (_, .ID_LOCAL) => compilelocal fl r c p
  | some (id, .ID_VAR hex) => compilevar fl r c p id hex
  | some (id, .ID_FVAR) => compilefvar fl r c p id
  | some (id, .ID_SVAR) => compilesvar fl r c p id

/-- An equals sign that stands for itself. -/
def isassign (p : Text) : Bool :=
  p.head? = some (chr '=') &&
    (p.tail = [] || p.tail.head?.any (fun d => d ∈ word "; \t\r\n") || iscomment p.tail)

/-- What is assigned to: an alias, or what the value that is left names. -/
def assignee (c : Compiler) (idname : Option Text) : Compiler × Option Nat :=
  match idname with
  | none => (c, none)
  | some name =>
    match c.newident name with
    | (c, id, .ID_ALIAS) => (c, some id)
    | (c, _, _) => (c.compilestr name true, none)

/-- An assignment, behind the equals sign. -/
def compileassign (c : Compiler) (p : Text) (idname : Option Text) :
    Option (Compiler × Text × Bool) := do
  let (c, id) := assignee c idname
  let (c, p, more) ← compilearg fl r c p .VAL_ANY
  let c := if more then c else c.compilestr [] false
  match id with
  | some id => return (c.emit (if id < MAXARGS then .ALIASARG else .ALIAS) .RET_NULL id, p, more)
  | none => return (c.add (inst .ALIASU .RET_NULL 0), p, more)

/-- A statement up to `endstatement`. -/
def compilestatement (c : Compiler) (p : Text) : Option (Compiler × Text × Bool) := do
  match ← compileword fl r c (skipcomments p) .VAL_ANY with
  | (c, p, false, _) => return (c, p, false)
  | (c, p, true, idname) =>
    let p := skipcomments p
    if isassign p then compileassign fl r c p.tail idname
    else
      match idname with
      | none => compilenoid fl r c p
      | some name => compilename fl r c p name

/-- `if(more) while(compilearg(code, p, VAL_ANY)) code.add(CODE_POP)`. -/
def compilerest (more : Bool) (c : Compiler) (p : Text) : Option (Compiler × Text) :=
  if more then compilepops fl r c p else some (c, p)

/-- `endstatement`, up to the end of the comment or of the statement; then it tells whether these
were the last statements. -/
def endstep (more : Bool) (brak : Option UInt8) :
    Compiler × Text → Option (Compiler × Text ⊕ Compiler × Text × Bool)
  | (c, p) => do
    let (c, p) ← compilerest fl r more c p
    match strcspn ")];/\n" p with
    | [] => return .inr (c, [], true)
    | ch :: p =>
      if ch = chr '/' then
        return .inl (c, if p.head? = some (chr '/') then strcspn "\n" p else p)
      else return .inr (c, p, decide ((ch = chr ')' ∨ ch = chr ']') ∧ brak = some ch))

/-- `endstatement`. -/
def endstatement (more : Bool) (brak : Option UInt8) (c : Compiler) (p : Text) :
    Option (Compiler × Text × Bool) :=
  Loop.loop (endstep fl r more brak) (p.length + 1) (c, p)

/-- `compilestatements(code, p, rettype, brak)`. -/
def compilestatements (c : Compiler) (p : Text) (brak : Option UInt8) :
    Option (Compiler × Text) :=
  Loop.loop (fun (c, p) => do
    let (c, p, more) ← compilestatement fl r c p
    match ← endstatement fl r more brak c p with
    | (c, p, true) => return .inr (c, p)
    | (c, p, false) => return .inl (c, p)) (p.length + 1) (c, p)

end Functions

/-- The functions, up to a depth of recursion. -/
def functions {F : Type} (fl : Floats F) : Nat → Rec
  | 0 => { statements _ _ _ := none, word _ _ _ := none, lookup _ _ _ := none, arg _ _ _ := none }
  | n + 1 =>
    let r := functions fl n
    { statements := compilestatements fl r
      word := compileword fl r
      lookup := compilelookup fl r
      arg := compilearg fl r }

/-- `compilemain(code, p)`; each recursion takes a character. -/
def compilemain {F : Type} (fl : Floats F) (idents : List Ident) (p : Text) : Option Compiler := do
  let c : Compiler := { idents }
  let (c, _) ← compilestatements fl (functions fl (p.length + 1)) (c.add (inst .START .RET_NULL 0))
    p none
  return c.add (inst .EXIT .RET_NULL 0)

end Script

end QServ
