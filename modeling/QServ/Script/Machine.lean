import Mathlib.Logic.Relation
import QServ.Script.Layout

/-!
# The machine that runs compiled code

`runcode` as far as it is about places in the code and the number of values: each call of it has
values of its own, `ENTER` and `local` call it for the code behind them, and `skipcode` goes past
what is too deep.

* `decode`: the switch of `runcode`.
* `skipcode`: its own idea of what an instruction is.
* `step`: one instruction, in the innermost call.
* `Reached`: what comes up in runs, also of the blocks that are values.
-/

namespace QServ

namespace Script

/-! ## Instructions -/

/-- The return type in a word. -/
def retcode (w : Nat) : Ret :=
  match w / 64 % 4 with
  | 0 => .RET_NULL
  | 1 => .RET_INT
  | 2 => .RET_FLOAT
  | _ => .RET_STR

/-- What a word is to `runcode`. -/
inductive Instruction
  | plain (op : Opcode) (arg : Nat)
  | number
  | text (len : Nat)
  | block (len : Nat)
  | enter
  | exit
  | ignored
deriving DecidableEq, Repr

/-- `switch(op&0xFF)`; a word that is no case is gone past. -/
def decode (w : Nat) : Instruction :=
  match opcodes[w % 64]?, retcode w with
  | some .VAL, .RET_NULL => .plain .VALI 0
  | some .VAL, .RET_STR => .text (w / 256)
  | some .VAL, _ => .number
  | some .MACRO, .RET_NULL => .text (w / 256)
  | some .BLOCK, .RET_NULL => .block (w / 256)
  | some .ENTER, .RET_NULL => .enter
  | some .EXIT, _ => .exit
  | some op, ret => if op.plain ret then .plain op (w / 256) else .ignored
  | none, _ => .ignored

/-! ## `skipcode` -/

/-- `CODE_MACRO` and `CODE_VAL|RET_STR`. -/
def skiptexts : List Nat := [inst .MACRO .RET_NULL 0, inst .VAL .RET_STR 0]

/-- `CODE_EXIT|RET_NULL` and so on. -/
def skipexits : List Nat :=
  [inst .EXIT .RET_NULL 0, inst .EXIT .RET_STR 0, inst .EXIT .RET_INT 0, inst .EXIT .RET_FLOAT 0]

/-- One round of `skipcode`, with its depth. -/
def skipstep : Nat × List Nat → Option (Nat × List Nat ⊕ List Nat)
  | (_, []) => none
  | (depth, op :: code) =>
    if op % 256 ∈ skiptexts then some (.inl (depth, code.drop (op / 256 / 4 + 1)))
    else if op % 256 = inst .BLOCK .RET_NULL 0 then some (.inl (depth, code.drop (op / 256)))
    else if op % 256 = inst .ENTER .RET_NULL 0 then some (.inl (depth + 1, code))
    else if op % 256 ∈ skipexits then
      if depth = 0 then some (.inr code) else some (.inl (depth - 1, code))
    else some (.inl (depth, code))

/-- `skipcode(code, result)`, or nothing where it leaves the code. -/
def skipcode (code : List Nat) : Option (List Nat) :=
  Loop.loop skipstep (code.length + 1) (0, code)

/-! ## `runcode` -/

/-- A call of `runcode`: where it is, how many values it has, and whether it ends as soon as the call
it waits for does. -/
structure Activation where
  code : List Nat
  numargs : Nat := 0
  leaving : Bool := false
deriving DecidableEq, Repr

/-- The innermost call and those that wait for it, or the place the outermost one returned. -/
inductive Machine
  | running (a : Activation) (st : List Activation)
  | returned (code : List Nat)
deriving DecidableEq, Repr

/-- A call returns a place. -/
def resume (code : List Nat) : List Activation → Machine
  | [] => .returned code
  | a :: st => if a.leaving then resume code st else .running { a with code } st

/-- `runcode(code, result)`, inside of so many calls and of those that wait. -/
def runcode (base : Nat) (code : List Nat) (st : List Activation) : Option Machine :=
  if MAXRUNDEPTH ≤ base + st.length then (skipcode code).map fun code => resume code st
  else some (.running { code } st)

/-- One instruction; it is left open whether a name that is called is the keyword `local`. -/
def step (base : Nat) (keyword : Bool) : Machine → Option Machine
  | .returned _ => none
  | .running a st =>
    match a.code with
    | [] => none
    | w :: code =>
      match decode w with
      | .plain op arg =>
        if op = .LOCAL ∨ op = .CALLU ∧ keyword then
          runcode base code ({ a with code := [], leaving := true } :: st)
        else some (.running { a with code, numargs := op.leaves arg a.numargs } st)
      | .number => some (.running { a with code := code.tail, numargs := a.numargs + 1 } st)
      | .text len =>
        some (.running { a with code := code.drop (len / 4 + 1), numargs := a.numargs + 1 } st)
      | .block len =>
        some (.running { a with code := code.drop len, numargs := a.numargs + 1 } st)
      | .enter => runcode base code ({ a with code := [], numargs := a.numargs + 1 } :: st)
      | .exit => some (resume code st)
      | .ignored => some (.running { a with code } st)

/-- So many steps, in which no name is the keyword. -/
def steps (base : Nat) : Nat → Machine → Option Machine
  | 0, s => some s
  | n + 1, s => (step base false s).bind (steps base n)

/-- Any number of steps. -/
def Runs (base : Nat) : Machine → Machine → Prop :=
  Relation.ReflTransGen fun s t => ∃ keyword, step base keyword s = some t

/-- What comes up when code is run inside of so many calls; a block that is a value is run at any time
later. -/
inductive Reached (code : List Nat) : Nat → Machine → Prop
  | start {base : Nat} {s : Machine} (h : runcode base code [] = some s) : Reached code base s
  | step {base : Nat} {keyword : Bool} {s t : Machine} (hs : Reached code base s)
      (h : step base keyword s = some t) : Reached code base t
  | block {base base' w len : Nat} {a : Activation} {st : List Activation} {rest : List Nat}
      {s : Machine} (hs : Reached code base (.running a st)) (hcode : a.code = w :: rest)
      (hw : decode w = .block len) (h : runcode base' rest.tail [] = some s) : Reached code base' s

theorem Reached.steps {code : List Nat} {base : Nat} : ∀ {n : Nat} {s t : Machine},
    Reached code base s → steps base n s = some t → Reached code base t := by
  intro n
  induction n with
  | zero =>
    intro s t hs h
    obtain rfl := Option.some.inj h
    exact hs
  | succ n ih =>
    intro s t hs h
    obtain ⟨u, hu, hut⟩ := Option.bind_eq_some_iff.mp h
    exact ih (.step hs hu) hut

theorem runs_of_steps {base : Nat} : ∀ {n : Nat} {s t : Machine},
    steps base n s = some t → Runs base s t := by
  intro n
  induction n with
  | zero =>
    intro s t h
    obtain rfl := Option.some.inj h
    exact .refl
  | succ n ih =>
    intro s t h
    obtain ⟨u, hu, hut⟩ := Option.bind_eq_some_iff.mp h
    exact .head ⟨false, hu⟩ (ih hut)

/-- The places of code at which `runcode` is called. -/
inductive Entered (code : List Nat) : List Nat → Prop
  | start : Entered code code
  | enter {base w : Nat} {a : Activation} {st : List Activation} {rest : List Nat}
      (hs : Reached code base (.running a st)) (hcode : a.code = w :: rest)
      (hw : decode w = .enter) : Entered code rest
  | keyword {base w arg : Nat} {op : Opcode} {a : Activation} {st : List Activation}
      {rest : List Nat} (hs : Reached code base (.running a st)) (hcode : a.code = w :: rest)
      (hw : decode w = .plain op arg) (hop : op = .LOCAL ∨ op = .CALLU) : Entered code rest
  | block {base w len : Nat} {a : Activation} {st : List Activation} {rest : List Nat}
      (hs : Reached code base (.running a st)) (hcode : a.code = w :: rest)
      (hw : decode w = .block len) : Entered code rest.tail

/-! ## Layouts, word by word -/

theorem getElem?_opcodes (op : Opcode) : opcodes[op.code]? = some op := by cases op <;> rfl

theorem inst_op (op : Opcode) (ret : Ret) (arg : Int) : inst op ret arg % 64 = op.code := by
  have hop : op.code < 64 := by cases op <;> decide
  have hmod := inst_mod op ret arg
  omega

theorem retcode_inst (op : Opcode) (ret : Ret) (arg : Int) : retcode (inst op ret arg) = ret := by
  have hop : op.code < 64 := by cases op <;> decide
  have hmod := inst_mod op ret arg
  have hret : inst op ret arg / 64 % 4 = ret.code := by omega
  rw [retcode, hret]
  cases ret <;> rfl

section Decode

variable {op : Opcode} {ret : Ret} {arg : Int}

theorem decode_plain (hop : op.plain ret) :
    decode (inst op ret arg) = .plain op (arg % 2 ^ 24).toNat := by
  rw [decode, inst_op, getElem?_opcodes, retcode_inst, inst_div]
  cases op <;> cases ret <;> first | rfl | cases hop

theorem decode_number (hret : ret = .RET_INT ∨ ret = .RET_FLOAT) :
    decode (inst .VAL ret arg) = .number := by
  rw [decode, inst_op, getElem?_opcodes, retcode_inst]
  obtain rfl | rfl := hret <;> rfl

theorem decode_text {len : Nat} (hop : op = .MACRO ∧ ret = .RET_NULL ∨ op = .VAL ∧ ret = .RET_STR)
    (hlen : len < 2 ^ 24) : decode (inst op ret len) = .text len := by
  rw [decode, inst_op, getElem?_opcodes, retcode_inst, inst_div_of_lt op ret hlen]
  obtain ⟨rfl, rfl⟩ | ⟨rfl, rfl⟩ := hop <;> rfl

theorem decode_block {len : Nat} (hlen : len < 2 ^ 24) :
    decode (inst .BLOCK .RET_NULL len) = .block len := by
  rw [decode, inst_op, getElem?_opcodes, retcode_inst, inst_div_of_lt _ _ hlen]

theorem decode_enter : decode (inst .ENTER .RET_NULL 0) = .enter := by decide

theorem decode_exit : decode (inst .EXIT ret 0) = .exit := by cases ret <;> decide

end Decode

/-! ## Skipping -/

/-- The words of a number that `skipcode` takes for an instruction of its own. -/
def Misread (x : Nat) : Prop :=
  x % 256 ∈ skiptexts ++ skipexits ++ [inst .BLOCK .RET_NULL 0, inst .ENTER .RET_NULL 0]

instance (x : Nat) : Decidable (Misread x) := inferInstanceAs (Decidable (_ ∈ _))

/-- The numbers behind instructions, where so many words are gone past, or one is a number. -/
def numbersbehind : Nat → Bool → List Nat → List Nat
  | _, _, [] => []
  | _, true, x :: code => x :: numbersbehind 0 false code
  | n + 1, false, _ :: code => numbersbehind n false code
  | 0, false, w :: code =>
    match decode w with
    | .number => numbersbehind 0 true code
    | .text len => numbersbehind (len / 4 + 1) false code
    | _ => numbersbehind 0 false code

/-- The numbers that stand in code behind their instructions. -/
def numbers (code : List Nat) : List Nat := numbersbehind 0 false code

/-- `skipcode` takes no number for an instruction. -/
def Quiet (code : List Nat) : Prop := ∀ x ∈ numbers code, ¬Misread x

theorem skipstep_less (s t : Nat × List Nat) (h : skipstep s = some (.inl t)) :
    t.2.length < s.2.length := by
  obtain ⟨depth, code⟩ := s
  cases code with
  | nil => cases h
  | cons op code =>
    rw [skipstep] at h
    split at h
    · obtain rfl := Sum.inl.inj (Option.some.inj h)
      simp only [List.length_drop, List.length_cons]
      omega
    · split at h
      · obtain rfl := Sum.inl.inj (Option.some.inj h)
        simp only [List.length_drop, List.length_cons]
        omega
      · split at h
        · obtain rfl := Sum.inl.inj (Option.some.inj h)
          exact Nat.lt_succ_self _
        · split at h
          · split at h
            · cases h
            · obtain rfl := Sum.inl.inj (Option.some.inj h)
              exact Nat.lt_succ_self _
          · obtain rfl := Sum.inl.inj (Option.some.inj h)
            exact Nat.lt_succ_self _

theorem skipcode_of_ends {code q : List Nat} (h : Loop.Ends skipstep (0, code) q) :
    skipcode code = some q :=
  h.loop_eq (fun s => s.2.length) skipstep_less _ (Nat.lt_succ_self _)

section Layouts

variable {strict : Prop} {ids : List Ident} {k m : Nat} {l : List Nat}

theorem numbersbehind_drop {n : Nat} {chars code : List Nat} (h : chars.length = n) :
    numbersbehind n false (chars ++ code) = numbers code := by
  induction chars generalizing n with
  | nil =>
    obtain rfl : 0 = n := h
    rfl
  | cons x chars ih =>
    obtain rfl : chars.length + 1 = n := h
    exact ih rfl

theorem numbers_plain {op : Opcode} {ret : Ret} {arg : Int} (hop : op.plain ret)
    (code : List Nat) : numbers (inst op ret arg :: code) = numbers code := by
  rw [numbers, numbersbehind, decode_plain hop]
  rfl

theorem numbers_number {ret : Ret} {arg : Int} (hret : ret = .RET_INT ∨ ret = .RET_FLOAT) (x : Nat)
    (code : List Nat) : numbers (inst .VAL ret arg :: x :: code) = x :: numbers code := by
  rw [numbers, numbersbehind, decode_number hret]
  rfl

theorem numbers_text {op : Opcode} {ret : Ret} {len : Nat}
    (hop : op = .MACRO ∧ ret = .RET_NULL ∨ op = .VAL ∧ ret = .RET_STR) (hlen : len < 2 ^ 24)
    {chars : List Nat} (hchars : chars.length = len / 4 + 1) (code : List Nat) :
    numbers (inst op ret len :: (chars ++ code)) = numbers code := by
  rw [numbers, numbersbehind, decode_text hop hlen]
  exact numbersbehind_drop hchars

theorem numbers_enter (code : List Nat) :
    numbers (inst .ENTER .RET_NULL 0 :: code) = numbers code := by
  rw [numbers, numbersbehind, decode_enter]
  rfl

theorem numbers_exit (ret : Ret) (code : List Nat) :
    numbers (inst .EXIT ret 0 :: code) = numbers code := by
  rw [numbers, numbersbehind, decode_exit]
  rfl

theorem numbers_block {len : Nat} (hlen : len < 2 ^ 24) (code : List Nat) :
    numbers (inst .BLOCK .RET_NULL len :: code) = numbers code := by
  rw [numbers, numbersbehind, decode_block hlen]
  rfl

/-- The numbers of code behind code. -/
theorem Layout.numbers_append (h : Layout strict ids k l m) (rest : List Nat) :
    numbers (l ++ rest) = numbers l ++ numbers rest := by
  induction h generalizing rest with
  | nil => rfl
  | plain hop _ _ ih => rw [List.cons_append, numbers_plain hop, numbers_plain hop, ih]
  | number hret _ _ ih =>
    rw [List.cons_append, List.cons_append, numbers_number hret, numbers_number hret, ih,
      List.cons_append]
  | text hop hlen hchars _ _ ih =>
    rw [List.cons_append, List.append_assoc, numbers_text hop hlen hchars,
      numbers_text hop hlen hchars, ih]
  | enter _ _ _ _ ihbody ih =>
    simp only [List.cons_append, List.append_assoc, numbers_enter, ihbody, numbers_exit, ih]
  | block _ _ hlen _ _ ihbody ih =>
    simp only [List.cons_append, List.append_assoc, numbers_block hlen, numbers_plain, ihbody,
      numbers_exit, ih, show Opcode.OFFSET.plain .RET_NULL = true from rfl]

theorem Layout.quiet_append (h : Layout strict ids k l m) {rest : List Nat} :
    Quiet (l ++ rest) ↔ Quiet l ∧ Quiet rest := by
  simp only [Quiet, h.numbers_append rest, List.mem_append, or_imp, forall_and]

/-! ### Its steps -/

variable (depth : Nat) {code : List Nat}

theorem inst_low (op : Opcode) (ret : Ret) (arg : Int) : inst op ret arg % 256 = inst op ret 0 := by
  rw [inst_mod]
  rfl

theorem skipstep_word {w : Nat} (hw : ¬Misread w) :
    skipstep (depth, w :: code) = some (.inl (depth, code)) := by
  simp only [Misread, List.mem_append, List.mem_cons, List.not_mem_nil, or_false, not_or] at hw
  obtain ⟨⟨htext, hexit⟩, hblock, henter⟩ := hw
  rw [skipstep, if_neg htext, if_neg hblock, if_neg henter, if_neg hexit]

theorem skipstep_text {op : Opcode} {ret : Ret} {len : Nat}
    (hop : op = .MACRO ∧ ret = .RET_NULL ∨ op = .VAL ∧ ret = .RET_STR) (hlen : len < 2 ^ 24)
    {chars : List Nat} (hchars : chars.length = len / 4 + 1) :
    skipstep (depth, inst op ret len :: (chars ++ code)) = some (.inl (depth, code)) := by
  have hlow : inst op ret len % 256 ∈ skiptexts := by
    rw [inst_low]
    obtain ⟨rfl, rfl⟩ | ⟨rfl, rfl⟩ := hop <;> decide
  rw [skipstep, if_pos hlow, inst_div_of_lt op ret hlen, ← hchars, List.drop_left]

theorem skipstep_block {len : Nat} (hlen : len < 2 ^ 24) {body : List Nat} (hbody : body.length = len) :
    skipstep (depth, inst .BLOCK .RET_NULL len :: (body ++ code)) = some (.inl (depth, code)) := by
  rw [skipstep, inst_low, if_neg (by decide), if_pos rfl, inst_div_of_lt _ _ hlen, ← hbody,
    List.drop_left]

theorem skipstep_enter :
    skipstep (depth, inst .ENTER .RET_NULL 0 :: code) = some (.inl (depth + 1, code)) := by
  rw [skipstep, inst_low, if_neg (by decide), if_neg (by decide), if_pos rfl]

theorem skipstep_exit (ret : Ret) : skipstep (depth, inst .EXIT ret 0 :: code) =
    if depth = 0 then some (.inr code) else some (.inl (depth - 1, code)) := by
  have hexit : inst .EXIT ret 0 ∈ skipexits := by cases ret <;> decide
  have hno : inst .EXIT ret 0 ∉ skiptexts ∧ inst .EXIT ret 0 ≠ inst .BLOCK .RET_NULL 0 ∧
      inst .EXIT ret 0 ≠ inst .ENTER .RET_NULL 0 := by cases ret <;> decide
  rw [skipstep, inst_low, if_neg hno.1, if_neg hno.2.1, if_neg hno.2.2, if_pos hexit]

theorem not_misread_plain {op : Opcode} {ret : Ret} {arg : Int} (hop : op.plain ret) :
    ¬Misread (inst op ret arg) := by
  unfold Misread
  rw [inst_low]
  cases op <;> cases ret <;> first | decide | cases hop

/-- **Code that is well bracketed is skipped.** -/
theorem Layout.skipped (h : Layout strict ids k l m) (hquiet : Quiet l) (rest q : List Nat) :
    ∀ depth, Loop.Ends skipstep (depth, rest) q → Loop.Ends skipstep (depth, l ++ rest) q := by
  induction h generalizing rest with
  | nil => exact fun depth hrest => hrest
  | plain hop _ _ ih =>
    rw [Quiet, numbers_plain hop] at hquiet
    exact fun depth hrest => .next (skipstep_word depth (not_misread_plain hop))
      (ih hquiet rest depth hrest)
  | number hret _ _ ih =>
    rw [Quiet, numbers_number hret, List.forall_mem_cons] at hquiet
    intro depth hrest
    refine .next (skipstep_word depth ?_) (.next (skipstep_word depth hquiet.1)
      (ih hquiet.2 rest depth hrest))
    unfold Misread
    rw [inst_low]
    obtain rfl | rfl := hret <;> decide
  | text hop hlen hchars _ _ ih =>
    rw [Quiet, numbers_text hop hlen hchars] at hquiet
    intro depth hrest
    rw [List.cons_append, List.append_assoc]
    exact .next (skipstep_text depth hop hlen hchars) (ih hquiet rest depth hrest)
  | @enter ret _ _ _ body l hbody _ _ _ ihbody ih =>
    rw [Quiet, numbers_enter] at hquiet
    obtain ⟨hquietbody, hquietexit⟩ := hbody.quiet_append.mp hquiet
    rw [Quiet, numbers_exit] at hquietexit
    intro depth hrest
    rw [List.cons_append, List.append_assoc]
    refine .next (skipstep_enter depth) (ihbody hquietbody _ (depth + 1) (.next ?_
      (ih hquietexit rest depth hrest)))
    rw [List.cons_append, skipstep_exit, if_neg (Nat.succ_ne_zero depth), Nat.add_sub_cancel]
  | @block ret arg _ _ _ body l hbody _ hlen _ _ ihbody ih =>
    rw [Quiet, numbers_block hlen, numbers_plain rfl] at hquiet
    obtain ⟨-, hquietexit⟩ := hbody.quiet_append.mp hquiet
    rw [Quiet, numbers_exit] at hquietexit
    intro depth hrest
    have heq : inst .BLOCK .RET_NULL (body.length + 2 : Nat) :: inst .OFFSET .RET_NULL arg ::
          (body ++ inst .EXIT ret 0 :: l) ++ rest =
        inst .BLOCK .RET_NULL (body.length + 2 : Nat) ::
          ((inst .OFFSET .RET_NULL arg :: (body ++ [inst .EXIT ret 0])) ++ (l ++ rest)) := by
      simp
    rw [heq]
    exact .next (skipstep_block depth hlen (by simp)) (ih hquietexit rest depth hrest)

/-- `skipcode` comes to the `EXIT` the code is up to. -/
theorem Layout.skipcode_eq (h : Layout strict ids k l m) (hquiet : Quiet l) (ret : Ret)
    (rest : List Nat) : skipcode (l ++ inst .EXIT ret 0 :: rest) = some rest :=
  skipcode_of_ends (h.skipped hquiet _ rest 0 (.done (by rw [skipstep_exit, if_pos rfl])))

end Layouts

end Script

end QServ
