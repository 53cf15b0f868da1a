import QServ.Script.Compiler

/-!
# The layout of compiled code

Compiled code is a sequence of instructions, some with a number or characters behind them, in which
each `ENTER` and each `BLOCK` has its own `EXIT`.

* `Opcode.takes`, `Opcode.leaves`: what an instruction does to the number of values in `args`.
* `Fits`: there are as many values as it needs, and room for one that it pushes.
* `Layout`: code that is well bracketed; if it is strict, each instruction fits, too.
-/

namespace QServ

namespace Script

/-! ## Words -/

theorem inst_mod (op : Opcode) (ret : Ret) (arg : Int) :
    inst op ret arg % 256 = op.code + 64 * ret.code := by
  have hop : op.code < 64 := by cases op <;> decide
  have hret : ret.code < 4 := by cases ret <;> decide
  unfold inst
  omega

theorem inst_div (op : Opcode) (ret : Ret) (arg : Int) :
    inst op ret arg / 256 = (arg % 2 ^ 24).toNat := by
  have hop : op.code < 64 := by cases op <;> decide
  have hret : ret.code < 4 := by cases ret <;> decide
  unfold inst
  omega

theorem inst_div_of_lt (op : Opcode) (ret : Ret) {n : Nat} (h : n < 2 ^ 24) :
    inst op ret n / 256 = n := by
  rw [inst_div]
  omega

theorem length_pack (text : Text) : (pack text).length = text.length / 4 + 1 := by
  fun_induction pack text with
  | case1 a b c d l ih =>
    simp only [List.length_cons, ih]
    omega
  | _ => simp

/-! ## Values -/

/-- A case of `runcode` whose word is an instruction and nothing else. -/
def Opcode.plain (op : Opcode) (ret : Ret) : Bool :=
  match op with
  | .VALI | .RESULT | .LOOKUPU | .LOOKUP | .LOOKUPARG | .SVAR | .IVAR | .FVAR | .COM | .COMV | .COMC
  | .CONC | .CONCW | .CONCM | .CALL | .CALLARG | .CALLU => true
  | .START | .OFFSET | .POP | .PRINT | .LOCAL | .COMPILE | .IDENT | .IDENTARG | .IDENTU | .SVAR1
  | .IVAR1 | .IVAR2 | .IVAR3 | .FVAR1 | .ALIAS | .ALIASARG | .ALIASU => ret = .RET_NULL
  | .FORCE => ret ≠ .RET_NULL
  | _ => false

/-- A value more, and none less. -/
def Opcode.pushes : Opcode → Bool
  | .VALI | .IDENT | .IDENTARG | .SVAR | .IVAR | .FVAR | .LOOKUP | .LOOKUPARG => true
  | _ => false

/-- How many values it works with. -/
def Opcode.takes (op : Opcode) (arg : Nat) : Nat :=
  match op with
  | .POP | .COMPILE | .FORCE | .RESULT | .IDENTU | .LOOKUPU | .ALIAS | .ALIASARG | .SVAR1 | .IVAR1
  | .FVAR1 | .CALLU => 1
  | .IVAR2 | .ALIASU => 2
  | .IVAR3 => 3
  | .CONC | .CONCW | .CONCM => arg
  | _ => 0

/-- How many values there are afterwards. -/
def Opcode.leaves (op : Opcode) (arg k : Nat) : Nat :=
  match op with
  | .VALI | .IDENT | .IDENTARG | .SVAR | .IVAR | .FVAR | .LOOKUP | .LOOKUPARG => k + 1
  | .POP => k - 1
  | .CONC | .CONCW => k - arg + 1
  | .CONCM => k - arg
  | .START | .OFFSET | .PRINT | .COMPILE | .FORCE | .IDENTU | .LOOKUPU => k
  | _ => 0

/-- The values that a prototype asks for. -/
def arity (args : Text) : Nat :=
  args.countP fun fmt => (wanted fmt).isSome || fmt = chr '$' || fmt = chr 'N'

/-- The command with this index has this prototype. -/
def Commanded (ids : List Ident) (id : Nat) (args : Text) : Prop :=
  (ids[id]?).map Ident.type = some (.ID_COMMAND args)

/-- So many values are right for an instruction: it has those it works with, `args` has room for one
more if it pushes one, aliases and locals are within `MAXARGS`, and a command gets what its
prototype asks for. -/
structure Fits (ids : List Ident) (op : Opcode) (arg k : Nat) : Prop where
  takes : op.takes arg ≤ k
  room : k ≤ if op.pushes ∨ op = .CALL ∨ op = .LOCAL then MAXARGS else MAXARGS + 1
  exact : op = .COM → ∃ args, Commanded ids arg args ∧ k = arity args

/-! ## Code -/

/-- The code `l` is well bracketed and takes `k` values to `m`; if it is strict each instruction
fits. -/
inductive Layout (strict : Prop) (ids : List Ident) : Nat → List Nat → Nat → Prop
  | nil {k m : Nat} (h : strict → k = m) : Layout strict ids k [] m
  | plain {op : Opcode} {ret : Ret} {arg : Int} {k m : Nat} {l : List Nat} (hop : op.plain ret)
      (harg : strict → Fits ids op (arg % 2 ^ 24).toNat k)
      (hrest : Layout strict ids (op.leaves (arg % 2 ^ 24).toNat k) l m) :
      Layout strict ids k (inst op ret arg :: l) m
  | number {ret : Ret} {arg : Int} {x k m : Nat} {l : List Nat}
      (hret : ret = .RET_INT ∨ ret = .RET_FLOAT) (hroom : strict → k ≤ MAXARGS)
      (hrest : Layout strict ids (k + 1) l m) :
      Layout strict ids k (inst .VAL ret arg :: x :: l) m
  | text {op : Opcode} {ret : Ret} {len k m : Nat} {chars l : List Nat}
      (hop : op = .MACRO ∧ ret = .RET_NULL ∨ op = .VAL ∧ ret = .RET_STR) (hlen : len < 2 ^ 24)
      (hchars : chars.length = len / 4 + 1) (hroom : strict → k ≤ MAXARGS)
      (hrest : Layout strict ids (k + 1) l m) :
      Layout strict ids k (inst op ret len :: (chars ++ l)) m
  | enter {ret : Ret} {k n m : Nat} {body l : List Nat} (hbody : Layout strict ids 0 body n)
      (hend : strict → n ≤ MAXARGS + 1) (hroom : strict → k ≤ MAXARGS) (hrest : Layout strict ids (k + 1) l m) :
      Layout strict ids k
        (inst .ENTER .RET_NULL 0 :: (body ++ inst .EXIT ret 0 :: l)) m
  | block {ret : Ret} {arg : Int} {k n m : Nat} {body l : List Nat}
      (hbody : Layout strict ids 0 body n) (hend : strict → n ≤ MAXARGS + 1)
      (hlen : body.length + 2 < 2 ^ 24) (hroom : strict → k ≤ MAXARGS) (hrest : Layout strict ids (k + 1) l m) :
      Layout strict ids k
        (inst .BLOCK .RET_NULL (body.length + 2 : Nat) :: inst .OFFSET .RET_NULL arg ::
          (body ++ inst .EXIT ret 0 :: l)) m

namespace Layout

variable {strict : Prop} {ids : List Ident} {k k' m : Nat} {l l' : List Nat}

/-- Where counts do not matter any count will do. -/
theorem recount (h : Layout strict ids k l m) (hloose : ¬strict) :
    ∀ k' m', Layout strict ids k' l m' := by
  induction h with
  | nil => exact fun k' m' => .nil fun h => absurd h hloose
  | plain hop _ _ ih => exact fun k' m' => .plain hop (fun h => absurd h hloose) (ih _ m')
  | number hret _ _ ih => exact fun k' m' => .number hret (fun h => absurd h hloose) (ih _ m')
  | text hop hlen hchars _ _ ih =>
    exact fun k' m' => .text hop hlen hchars (fun h => absurd h hloose) (ih _ m')
  | enter hbody hend _ _ _ ih =>
    exact fun k' m' => .enter hbody hend (fun h => absurd h hloose) (ih _ m')
  | block hbody hend hlen _ _ _ ih =>
    exact fun k' m' => .block hbody hend hlen (fun h => absurd h hloose) (ih _ m')

theorem count (h : Layout strict ids k' l m) (hk : strict → k = k') : Layout strict ids k l m := by
  by_cases hs : strict
  · rw [hk hs]
    exact h
  · exact h.recount hs k m

/-- **Code behind code**. -/
theorem append (h : Layout strict ids k l k') (h' : Layout strict ids k' l' m) :
    Layout strict ids k (l ++ l') m := by
  induction h with
  | nil hk => exact h'.count hk
  | plain hop harg _ ih => exact .plain hop harg (ih h')
  | number hret hroom _ ih => exact .number hret hroom (ih h')
  | text hop hlen hchars hroom _ ih =>
    rw [List.cons_append, List.append_assoc]
    exact .text hop hlen hchars hroom (ih h')
  | enter hbody hend hroom _ _ ih =>
    rw [List.cons_append, List.append_assoc, List.cons_append]
    exact .enter hbody hend hroom (ih h')
  | block hbody hend hlen hroom _ _ ih =>
    rw [List.cons_append, List.cons_append, List.append_assoc, List.cons_append]
    exact .block hbody hend hlen hroom (ih h')

end Layout

end Script

end QServ
