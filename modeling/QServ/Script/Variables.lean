import QServ.Lib.Custody
import QServ.Script.Lexer

/-!
# Variables

Variables of `engine/command.cpp` are assigned by scripts, which are checked, and by the server
itself, which clamps; where a variable is overridden the value it had is kept and comes back when
the override is cleared.  Texts are allocated, and those of aliases with them.

* `overridevar`: the four cases of `OVERRIDEVAR`.
* `Keeps`: what an operation does to an identifier and to the texts.
* `keeps_assignint` ... `keeps_setalias`: the operations.
* `clearoverride_spec`: a variable gets back what was saved.
-/

namespace QServ

namespace Script

namespace Variables

open Custody Loop

/-! ## Identifiers -/

/-- What is called when a variable has changed.  It has another effect, or none, or it puts a
default for zero, as those of `maxclients` and `serverport` do. -/
inductive Trigger where
  | other
  | ordefault (value : Int)
deriving DecidableEq, Repr

/-- `changed()`: what is left in the variable. -/
def Trigger.changed : Trigger → Int → Int
  | .other, i => i
  | .ordefault value, i => if i = 0 then value else i

/-- `*storage` and `overrideval`. -/
structure Slot (α : Type) where
  storage : α
  overrideval : α
deriving DecidableEq, Repr

/-- An identifier by its type.  An alias has a text or another value, and those that are pushed. -/
inductive Content (F : Type) where
  | var (minval maxval : Int) (fn : Trigger) (slot : Slot Int)
  | fvar (minvalf maxvalf : F) (slot : Slot F)
  | svar (slot : Slot Nat)
  | aliasval (arg : Bool) (val : Option Nat) (stack : List (Option Nat))
  | command
deriving DecidableEq, Repr

/-- `ident`, with its flags. -/
structure Ident (F : Type) where
  name : Text
  persist : Bool := false
  override : Bool := false
  readonly : Bool := false
  overridden : Bool := false
  content : Content F
deriving DecidableEq, Repr

/-- The value of a variable. -/
inductive Value (F : Type) where
  | int (i : Int)
  | float (f : F)
  | text (s : Text)
deriving DecidableEq, Repr

/-- What `OVERRIDEVAR` does before a variable is assigned. -/
inductive Override where
  | errorval
  | saveval
  | clearval
  | resetval
deriving DecidableEq, Repr

variable {F : Type}

/-- `OVERRIDEVAR(errorval, saveval, resetval, clearval)`; `overriding` is `IDF_OVERRIDDEN` of
`identflags`.  `resetval` comes with `clearval`. -/
def overridevar (overriding : Bool) (id : Ident F) : Override :=
  if overriding ∨ id.override then
    if id.persist then .errorval else if !id.overridden then .saveval else .clearval
  else if id.overridden then .resetval else .clearval

/-- `IDF_OVERRIDDEN` afterwards. -/
def Override.flag : Override → Bool → Bool
  | .saveval, _ => true
  | .resetval, _ => false
  | _, overridden => overridden

/-- The slot of a number that is assigned. -/
def Override.slot {α : Type} (o : Override) (val : α) (slot : Slot α) : Slot α :=
  match o with
  | .errorval => slot
  | .saveval => ⟨val, slot.storage⟩
  | _ => ⟨val, slot.overrideval⟩

namespace Ident

/-- An operation on an identifier, with the texts; a text that is freed twice is no result. -/
abbrev Op (F : Type) := Ident F → Heap Text → Option (Ident F × Heap Text)

/-- `max(b, min(a, c))`. -/
def clamp (a b c : Int) : Int :=
  let m := if a < c then a else c
  if m < b then b else m

/-- `clampvar(id, val, minval, maxval)`. -/
def clampvar (val minval maxval : Int) : Int :=
  if val < minval then minval else if maxval < val then maxval else val

/-- An integer is assigned. -/
def assignint (overriding : Bool) (bounded : Int → Int → Int) : Op F := fun id h =>
  match id.content with
  | .var minval maxval fn slot =>
    let o := overridevar overriding id
    if o = .errorval then some (id, h)
    else
      some ({ id with
        overridden := o.flag id.overridden
        content := .var minval maxval fn (o.slot (fn.changed (bounded minval maxval)) slot) }, h)
  | _ => some (id, h)

/-- `setvar(name, i)`; no caller turns `dofunc` or `doclamp` off, here and in those that follow. -/
def setvar (overriding : Bool) (i : Int) : Op F := assignint overriding (clamp i)

/-- `setvarchecked(id, val)`. -/
def setvarchecked (overriding : Bool) (val : Int) : Op F := fun id h =>
  if id.readonly then some (id, h) else assignint overriding (clampvar val) id h

/-- A float is assigned. -/
def assignfloat (overriding : Bool) (bounded : F → F → F) : Op F := fun id h =>
  match id.content with
  | .fvar minvalf maxvalf slot =>
    let o := overridevar overriding id
    if o = .errorval then some (id, h)
    else
      some ({ id with
        overridden := o.flag id.overridden
        content := .fvar minvalf maxvalf (o.slot (bounded minvalf maxvalf) slot) }, h)
  | _ => some (id, h)

section

variable [LT F] [DecidableLT F]

/-- `max(b, min(a, c))`; each comparison fails for what is not a number. -/
def clampf (a b c : F) : F :=
  let m := if a < c then a else c
  if m < b then b else m

/-- `clampfvar(id, val, minval, maxval)`. -/
def clampfvar (val minval maxval : F) : F :=
  if val < minval then minval else if maxval < val then maxval else val

/-- `setfvar(name, f)`. -/
def setfvar (overriding : Bool) (f : F) : Op F := assignfloat overriding (clampf f)

/-- `setfvarchecked(id, val)`. -/
def setfvarchecked (overriding : Bool) (val : F) : Op F := fun id h =>
  if id.readonly then some (id, h) else assignfloat overriding (clampfvar val) id h

end

/-- `setsvar(name, str)`. -/
def setsvar (overriding : Bool) (str : Text) : Op F := fun id h =>
  match id.content with
  | .svar slot =>
    match overridevar overriding id with
    | .errorval => some (id, h)
    | .saveval =>
      let (p, h) := alloc str h
      some ({ id with overridden := true, content := .svar ⟨p, slot.storage⟩ }, h)
    | .clearval => do
      let h ← free slot.storage h
      let (p, h) := alloc str h
      some ({ id with content := .svar ⟨p, slot.overrideval⟩ }, h)
    | .resetval => do
      let h ← free slot.overrideval h
      let h ← free slot.storage h
      let (p, h) := alloc str h
      some ({ id with overridden := false, content := .svar ⟨p, slot.overrideval⟩ }, h)
  | _ => some (id, h)

/-- `setsvarchecked(id, val)`. -/
def setsvarchecked (overriding : Bool) (val : Text) : Op F := fun id h =>
  if id.readonly then some (id, h) else setsvar overriding val id h

/-- The value of an alias is freed. -/
def freeval (val : Option Nat) (h : Heap Text) : Option (Heap Text) :=
  match val with
  | none => some h
  | some p => free p h

/-- `clearoverride(i)`. -/
def clearoverride : Op F := fun id h =>
  if !id.overridden then some (id, h)
  else
    match id.content with
    | .aliasval arg (some p) stack => do
      let s ← h.cells p
      if s = [] then some ({ id with overridden := false }, h)
      else
        let h ← free p h
        let (p, h) := alloc [] h
        some ({ id with overridden := false, content := .aliasval arg (some p) stack }, h)
    | .aliasval arg none stack =>
      let (p, h) := alloc [] h
      some ({ id with overridden := false, content := .aliasval arg (some p) stack }, h)
    | .var minval maxval fn slot =>
      some ({ id with
        overridden := false
        content := .var minval maxval fn ⟨fn.changed slot.overrideval, slot.overrideval⟩ }, h)
    | .fvar minvalf maxvalf slot =>
      some ({ id with
        overridden := false
        content := .fvar minvalf maxvalf ⟨slot.overrideval, slot.overrideval⟩ }, h)
    | .svar slot => do
      let h ← free slot.storage h
      some ({ id with
        overridden := false
        content := .svar ⟨slot.overrideval, slot.overrideval⟩ }, h)
    | .command => some ({ id with overridden := false }, h)

/-- `resetvar(name)`. -/
def resetvar : Op F := fun id h => if id.readonly then some (id, h) else clearoverride id h

/-- `pusharg(id, v, stack)`. -/
def pusharg (v : Option Nat) : Op F := fun id h =>
  match id.content with
  | .aliasval arg val stack => some ({ id with content := .aliasval arg v (val :: stack) }, h)
  | _ => (freeval v h).map fun h => (id, h)

/-- `poparg(id)`. -/
def poparg : Op F := fun id h =>
  match id.content with
  | .aliasval arg val (v :: stack) => do
    let h ← freeval val h
    some ({ id with content := .aliasval arg v stack }, h)
  | _ => some (id, h)

/-- `setalias(id, v)`, and `setarg(id, v)` for an argument that the call has or has not used;
a builtin frees the value. -/
def setalias (overriding used : Bool) (v : Option Nat) : Op F := fun id h =>
  match id.content with
  | .aliasval arg val stack =>
    if arg ∧ !used then pusharg v id h
    else do
      let h ← freeval val h
      let id := { id with content := .aliasval arg v stack }
      if arg then some (id, h)
      else
        some ({ id with persist := false, override := false, readonly := false
                        overridden := overriding }, h)
  | _ => (freeval v h).map fun h => (id, h)

end Ident

/-! ## What holds of an identifier -/

namespace Ident

variable {id : Ident F} {h : Heap Text} {rest : List Nat}

/-- The texts that an identifier has. -/
def owned (id : Ident F) : List Nat :=
  match id.content with
  | .svar slot => slot.storage :: if id.overridden then [slot.overrideval] else []
  | .aliasval _ val stack => val.toList ++ stack.flatMap Option.toList
  | _ => []

/-- The value of a variable. -/
def value (id : Ident F) (h : Heap Text) : Option (Value F) :=
  match id.content with
  | .var _ _ _ slot => some (.int slot.storage)
  | .fvar _ _ slot => some (.float slot.storage)
  | .svar slot => (h.cells slot.storage).map .text
  | _ => none

/-- The value in `overrideval`. -/
def saved (id : Ident F) (h : Heap Text) : Option (Value F) :=
  match id.content with
  | .var _ _ _ slot => some (.int slot.overrideval)
  | .fvar _ _ slot => some (.float slot.overrideval)
  | .svar slot => (h.cells slot.overrideval).map .text
  | _ => none

/-- Not an alias or a command. -/
def isvar (id : Ident F) : Bool :=
  match id.content with
  | .var .. | .fvar .. | .svar .. => true
  | _ => false

/-- The name, and of an integer variable its range and whether it is read-only. -/
def declared (id : Ident F) : Text × Option (Int × Int × Bool) :=
  match id.content with
  | .var minval maxval _ _ => (id.name, some (minval, maxval, id.readonly))
  | _ => (id.name, none)

/-- A variable is read-only where it has no range, and has been left so by its trigger; what is
persistent is not overridden. -/
structure Fine (id : Ident F) : Prop where
  bounds : ∀ minval maxval fn slot, id.content = .var minval maxval fn slot → id.readonly = false →
    minval ≤ maxval ∧ ∀ value, fn = .ordefault value → minval ≤ value ∧ value ≤ maxval
  default : ∀ minval maxval fn slot, id.content = .var minval maxval fn slot →
    ∀ value, fn = .ordefault value → value ≠ 0
  inrange : ∀ minval maxval fn slot, id.content = .var minval maxval fn slot → id.readonly = false →
    minval ≤ slot.storage ∧ slot.storage ≤ maxval ∧
      (id.overridden = true → minval ≤ slot.overrideval ∧ slot.overrideval ≤ maxval)
  settled : ∀ minval maxval fn slot, id.content = .var minval maxval fn slot →
    fn.changed slot.storage = slot.storage ∧
      (id.overridden = true → fn.changed slot.overrideval = slot.overrideval)
  persistent : id.persist = true → id.overridden = false

/-- **What an operation does** to an identifier that has some texts, while the rest of them have
other owners. -/
structure Keeps (id : Ident F) (h : Heap Text) (rest : List Nat) (r : Ident F × Heap Text) :
    Prop where
  declared : r.1.declared = id.declared
  fine : id.Fine → r.1.Fine
  owned : Owned r.2 (r.1.owned ++ rest)
  others : ∀ p ∈ rest, r.2.cells p = h.cells p
  saves : r.1.overridden = true → id.overridden = true ∧ r.1.saved r.2 = id.saved h ∨
    id.overridden = false ∧ r.1.saved r.2 = id.value h

theorem Keeps.refl (hown : Owned h (id.owned ++ rest)) : Keeps id h rest (id, h) where
  declared := rfl
  fine hfine := hfine
  owned := hown
  others _ _ := rfl
  saves hover := .inl ⟨hover, rfl⟩

theorem value_congr {h' : Heap Text} (hcells : ∀ p ∈ id.owned, h'.cells p = h.cells p) :
    id.value h' = id.value h := by
  unfold value
  split
  · rfl
  · rfl
  · next slot hcontent =>
    have howned : id.owned = slot.storage :: if id.overridden then [slot.overrideval] else [] := by
      rw [owned, hcontent]
    rw [hcells slot.storage (howned ▸ .head _)]
  · rfl

theorem saved_congr {h' : Heap Text} (hover : id.overridden = true)
    (hcells : ∀ p ∈ id.owned, h'.cells p = h.cells p) : id.saved h' = id.saved h := by
  unfold saved
  split
  · rfl
  · rfl
  · next slot hcontent =>
    have howned : id.owned = [slot.storage, slot.overrideval] := by
      rw [owned, hcontent, hover]
      rfl
    rw [hcells slot.overrideval (howned ▸ .tail _ (.head _))]
  · rfl

/-! ## Numbers -/

/-- **The four cases** of `OVERRIDEVAR`. -/
theorem overridevar_cases (overriding : Bool) (id : Ident F) :
    (overridevar overriding id = .errorval ∧ id.persist = true) ∨
    (overridevar overriding id = .saveval ∧ id.overridden = false ∧ id.persist = false) ∨
    overridevar overriding id = .clearval ∨
    (overridevar overriding id = .resetval ∧ id.overridden = true) := by
  unfold overridevar
  cases id.persist <;> cases id.overridden <;> split_ifs <;> simp_all

/-- What is overridden after an assignment was so, or has been saved. -/
theorem flag_saveval {o : Override} {overriding : Bool} (ho : overridevar overriding id = o)
    (h : o.flag id.overridden = true) (herr : o ≠ .errorval) :
    id.overridden = true ∧ o = .clearval ∨ id.overridden = false ∧ o = .saveval := by
  obtain ⟨heq, -⟩ | ⟨heq, hover, -⟩ | heq | ⟨heq, -⟩ := overridevar_cases overriding id
  · exact (herr (ho.symm.trans heq)).elim
  · exact .inr ⟨hover, ho.symm.trans heq⟩
  · obtain rfl := ho.symm.trans heq
    exact .inl ⟨h, rfl⟩
  · obtain rfl := ho.symm.trans heq
    cases h

theorem flag_persist {overriding : Bool} (hp : id.persist = true) (hover : id.overridden = false) :
    (overridevar overriding id).flag id.overridden = false := by
  obtain ⟨heq, -⟩ | ⟨-, -, hno⟩ | heq | ⟨-, hyes⟩ := overridevar_cases overriding id
  · rw [heq, hover]
    rfl
  · rw [hp] at hno
    cases hno
  · rw [heq, hover]
    rfl
  · rw [hover] at hyes
    cases hyes

theorem changed_changed {fn : Trigger} (h : ∀ value, fn = .ordefault value → value ≠ 0) (i : Int) :
    fn.changed (fn.changed i) = fn.changed i := by
  cases fn with
  | other => rfl
  | ordefault value =>
    have hvalue := h value rfl
    simp only [Trigger.changed]
    split_ifs <;> simp_all

theorem changed_inrange {fn : Trigger} {minval maxval i : Int}
    (h : ∀ value, fn = .ordefault value → minval ≤ value ∧ value ≤ maxval)
    (hi : minval ≤ i ∧ i ≤ maxval) : minval ≤ fn.changed i ∧ fn.changed i ≤ maxval := by
  cases fn with
  | other => exact hi
  | ordefault value =>
    simp only [Trigger.changed]
    split
    · exact h value rfl
    · exact hi

/-- The flag and the slot after an assignment: a value that is saved is the one that was there. -/
theorem saves_slot {α : Type} {o : Override} {overriding : Bool}
    (ho : overridevar overriding id = o) (herr : o ≠ .errorval) (h : o.flag id.overridden = true) (val : α) (slot : Slot α) :
    id.overridden = true ∧ (o.slot val slot).overrideval = slot.overrideval ∨
      id.overridden = false ∧ (o.slot val slot).overrideval = slot.storage := by
  obtain ⟨hover, rfl⟩ | ⟨hover, rfl⟩ := flag_saveval ho h herr
  · exact .inl ⟨hover, rfl⟩
  · exact .inr ⟨hover, rfl⟩

theorem slot_storage {α : Type} {o : Override} (herr : o ≠ .errorval) (val : α) (slot : Slot α) :
    (o.slot val slot).storage = val := by
  cases o <;> first | rfl | exact (herr rfl).elim

/-- **An integer is assigned** within its range. -/
theorem keeps_assignint (hown : Owned h (id.owned ++ rest)) (overriding : Bool)
    {bounded : Int → Int → Int} (hb : ∀ minval maxval, minval ≤ maxval →
      minval ≤ bounded minval maxval ∧ bounded minval maxval ≤ maxval) :
    Yields (assignint overriding bounded id h) (Keeps id h rest) := by
  unfold assignint
  split
  · next minval maxval fn slot hcontent =>
    generalize ho : overridevar overriding id = o
    dsimp only
    split
    · exact .pure (.refl hown)
    · next herr =>
      have howned : id.owned = [] := by rw [owned, hcontent]
      refine .pure ⟨by simp only [declared, hcontent],
        fun hfine => ?_, ?_, fun _ _ => rfl, fun hover => ?_⟩
      · obtain ⟨hbounds, hdefault, hrange, hsettled, hpersist⟩ := hfine
        have hdef := hdefault _ _ _ _ hcontent
        refine ⟨?_, ?_, ?_, ?_, fun hp => ?_⟩
        · intro minval' maxval' fn' slot' heq hro
          cases heq
          exact hbounds _ _ _ _ hcontent hro
        · intro minval' maxval' fn' slot' heq
          cases heq
          exact hdef
        · intro minval' maxval' fn' slot' heq hro
          cases heq
          obtain ⟨hle, hval⟩ := hbounds _ _ _ _ hcontent hro
          obtain ⟨hlo, hhi, hold⟩ := hrange _ _ _ _ hcontent hro
          rw [slot_storage herr]
          have hin := changed_inrange hval (hb minval maxval hle)
          refine ⟨hin.1, hin.2, fun hover => ?_⟩
          obtain ⟨hover, heq⟩ | ⟨hover, heq⟩ := saves_slot ho herr hover _ slot
          · rw [heq]
            exact hold hover
          · rw [heq]
            exact ⟨hlo, hhi⟩
        · intro minval' maxval' fn' slot' heq
          cases heq
          obtain ⟨hstor, hold⟩ := hsettled _ _ _ _ hcontent
          rw [slot_storage herr]
          refine ⟨changed_changed hdef _, fun hover => ?_⟩
          obtain ⟨hover, heq⟩ | ⟨hover, heq⟩ := saves_slot ho herr hover _ slot
          · rw [heq]
            exact hold hover
          · rw [heq]
            exact hstor
        · rw [← ho]
          exact flag_persist hp (hpersist hp)
      · rw [howned] at hown
        exact hown
      · obtain ⟨hover, heq⟩ | ⟨hover, heq⟩ := saves_slot ho herr hover
          (fn.changed (bounded minval maxval)) slot
        · refine .inl ⟨hover, ?_⟩
          simp only [saved, hcontent, heq]
        · refine .inr ⟨hover, ?_⟩
          simp only [saved, value, hcontent, heq]
  · exact .pure (.refl hown)

/-- A float is assigned. -/
theorem keeps_assignfloat (hown : Owned h (id.owned ++ rest)) (overriding : Bool)
    (bounded : F → F → F) : Yields (assignfloat overriding bounded id h) (Keeps id h rest) := by
  unfold assignfloat
  split
  · next minvalf maxvalf slot hcontent =>
    generalize ho : overridevar overriding id = o
    dsimp only
    split
    · exact .pure (.refl hown)
    · next herr =>
      have howned : id.owned = [] := by rw [owned, hcontent]
      refine .pure ⟨by simp only [declared, hcontent],
        fun hfine => ?_, ?_, fun _ _ => rfl, fun hover => ?_⟩
      · refine ⟨nofun, nofun, nofun, nofun, fun hp => ?_⟩
        rw [← ho]
        exact flag_persist hp (hfine.persistent hp)
      · rw [howned] at hown
        exact hown
      · obtain ⟨hover, heq⟩ | ⟨hover, heq⟩ := saves_slot ho herr hover
          (bounded minvalf maxvalf) slot
        · refine .inl ⟨hover, ?_⟩
          simp only [saved, hcontent, heq]
        · refine .inr ⟨hover, ?_⟩
          simp only [saved, value, hcontent, heq]
  · exact .pure (.refl hown)

/-! ## Texts -/

/-- **A text is assigned.** -/
theorem keeps_setsvar (hown : Owned h (id.owned ++ rest)) (overriding : Bool) (str : Text) :
    Yields (setsvar overriding str id h) (Keeps id h rest) := by
  unfold setsvar
  split
  · next slot hcontent =>
    have howned : id.owned = slot.storage :: if id.overridden then [slot.overrideval] else [] := by
      rw [owned, hcontent]
    rw [howned, List.cons_append] at hown
    have hfine : ∀ {o : Override}, overridevar overriding id = o → ∀ slot', id.Fine →
        Fine ({ id with
          overridden := o.flag id.overridden
          content := .svar slot' } : Ident F) := by
      intro o ho slot' hfine
      refine ⟨nofun, nofun, nofun, nofun, fun hp => ?_⟩
      rw [← ho]
      exact flag_persist hp (hfine.persistent hp)
    obtain ⟨ho, -⟩ | ⟨ho, hover, -⟩ | ho | ⟨ho, hover⟩ := overridevar_cases overriding id
    · rw [ho]
      exact .pure (.refl (by rw [howned]; exact hown))
    · -- the old text is kept
      rw [ho]
      rw [hover] at hown
      refine .pure ⟨by simp only [declared, hcontent],
        hfine ho _, ?_, fun p hp => ?_, fun _ => .inr ⟨hover, ?_⟩⟩
      · exact hown.alloc str
      · exact hown.alloc_others (List.mem_cons_of_mem _ hp)
      · simp only [saved, value, hcontent]
        exact congrArg (Option.map Value.text) (hown.alloc_others List.mem_cons_self)
    · -- the text that was assigned last is freed
      rw [ho]
      refine hown.free.bind fun h' ⟨hown', _, hothers⟩ => ?_
      refine .pure ⟨by simp only [declared, hcontent],
        hfine ho _, ?_, fun p hp => ?_, fun hover => .inl ⟨hover, ?_⟩⟩
      · exact hown'.alloc str
      · have hmem := List.mem_append_right (if id.overridden then [slot.overrideval] else []) hp
        exact (hown'.alloc_others hmem).trans (hothers p hmem)
      · have hmem : slot.overrideval ∈
            (if id.overridden then [slot.overrideval] else []) ++ rest := by
          have hyes : id.overridden = true := hover
          rw [if_pos hyes]
          exact .head _
        simp only [saved, hcontent]
        exact congrArg (Option.map Value.text) ((hown'.alloc_others hmem).trans (hothers _ hmem))
    · -- both are
      rw [ho]
      rw [hover, if_pos rfl] at hown
      have hswap : Owned h (slot.overrideval :: slot.storage :: rest) := hown.perm (.swap ..)
      refine hswap.free.bind fun h₁ ⟨hown₁, _, hothers₁⟩ => ?_
      refine hown₁.free.bind fun h₂ ⟨hown₂, _, hothers₂⟩ => ?_
      refine .pure ⟨by simp only [declared, hcontent], hfine ho _, ?_, fun p hp => ?_, nofun⟩
      · exact hown₂.alloc str
      · exact (hown₂.alloc_others hp).trans
          ((hothers₂ p hp).trans (hothers₁ p (List.mem_cons_of_mem _ hp)))
  · exact .pure (.refl hown)

theorem owned_alias {arg : Bool} {val : Option Nat} {stack : List (Option Nat)}
    (h : id.content = .aliasval arg val stack) :
    id.owned = val.toList ++ stack.flatMap Option.toList := by
  rw [owned, h]

/-- The value of an alias is freed. -/
theorem yields_freeval {val : Option Nat} {ps : List Nat} (hown : Owned h (val.toList ++ ps)) :
    Yields (freeval val h) fun h' => Owned h' ps ∧ ∀ q ∈ ps, h'.cells q = h.cells q := by
  cases val with
  | none => exact .pure ⟨hown, fun _ _ => rfl⟩
  | some p => exact hown.free.imp fun h' hh => ⟨hh.1, hh.2.2⟩

/-- The values that an alias has do not matter to anything but its texts. -/
theorem fine_alias {arg : Bool} {val : Option Nat} {stack : List (Option Nat)} (hfine : id.Fine) :
    Fine ({ id with content := .aliasval arg val stack } : Ident F) :=
  ⟨nofun, nofun, nofun, nofun, hfine.persistent⟩

/-- Only numbers have a range. -/
theorem Fine.of_not_var (hcontent : ∀ minval maxval fn slot,
    id.content ≠ .var minval maxval fn slot)
    (hpersist : id.persist = true → id.overridden = false) : id.Fine :=
  ⟨fun _ _ _ _ heq => (hcontent _ _ _ _ heq).elim, fun _ _ _ _ heq => (hcontent _ _ _ _ heq).elim,
    fun _ _ _ _ heq => (hcontent _ _ _ _ heq).elim, fun _ _ _ _ heq => (hcontent _ _ _ _ heq).elim,
    hpersist⟩

/-- An override is cleared. -/
theorem keeps_clearoverride (hown : Owned h (id.owned ++ rest)) :
    Yields (clearoverride id h) (Keeps id h rest) := by
  unfold clearoverride
  cases hover : id.overridden with
  | false => exact .pure (.refl hown)
  | true =>
    rw [if_neg (by simp)]
    split
    · next arg p stack hcontent =>
      rw [owned_alias hcontent, List.append_assoc] at hown
      obtain ⟨str, hstr⟩ := Option.isSome_iff_exists.mp ((hown.live p).mpr (.head _))
      rw [hstr]
      change Yields (if str = [] then _ else _) _
      split
      · refine .pure ⟨by simp only [declared, hcontent],
          fun _ => .of_not_var ?_ fun _ => rfl, ?_, fun _ _ => rfl, nofun⟩
        · intro minval maxval fn slot heq
          cases hcontent.symm.trans heq
        · have hsame : owned ({ id with overridden := false } : Ident F) = id.owned := by
            rw [owned_alias hcontent]
            exact owned_alias hcontent
          rw [hsame, owned_alias hcontent, List.append_assoc]
          exact hown
      · refine hown.free.bind fun h' ⟨hown', _, hothers⟩ => ?_
        refine .pure ⟨by simp only [declared, hcontent],
          fun _ => .of_not_var nofun fun _ => rfl, ?_, fun q hq => ?_, nofun⟩
        · rw [owned_alias rfl, List.append_assoc]
          exact hown'.alloc []
        · have hmem := List.mem_append_right (stack.flatMap Option.toList) hq
          exact (hown'.alloc_others hmem).trans (hothers q hmem)
    · next arg stack hcontent =>
      rw [owned_alias hcontent, List.append_assoc] at hown
      refine .pure ⟨by simp only [declared, hcontent],
        fun _ => .of_not_var nofun fun _ => rfl, ?_, fun q hq => ?_, nofun⟩
      · rw [owned_alias rfl, List.append_assoc]
        exact hown.alloc []
      · exact hown.alloc_others (List.mem_append_right _ (List.mem_append_right _ hq))
    · next minval maxval fn slot hcontent =>
      have howned : id.owned = [] := by rw [owned, hcontent]
      refine .pure ⟨by simp only [declared, hcontent], fun hfine => ?_, ?_, fun _ _ => rfl, nofun⟩
      · obtain ⟨hbounds, hdefault, hrange, hsettled, -⟩ := hfine
        have hold := (hsettled _ _ _ _ hcontent).2 hover
        refine ⟨?_, ?_, ?_, ?_, fun _ => rfl⟩
        · intro minval' maxval' fn' slot' heq hro
          cases heq
          exact hbounds _ _ _ _ hcontent hro
        · intro minval' maxval' fn' slot' heq
          cases heq
          exact hdefault _ _ _ _ hcontent
        · intro minval' maxval' fn' slot' heq hro
          cases heq
          have hin := (hrange _ _ _ _ hcontent hro).2.2 hover
          dsimp only
          rw [hold]
          exact ⟨hin.1, hin.2, nofun⟩
        · intro minval' maxval' fn' slot' heq
          cases heq
          exact ⟨by rw [hold, hold], nofun⟩
      · rw [howned] at hown
        exact hown
    · next minvalf maxvalf slot hcontent =>
      have howned : id.owned = [] := by rw [owned, hcontent]
      rw [howned] at hown
      exact .pure ⟨by simp only [declared, hcontent],
        fun _ => .of_not_var nofun fun _ => rfl, hown, fun _ _ => rfl, nofun⟩
    · next slot hcontent =>
      have howned : id.owned = [slot.storage, slot.overrideval] := by
        rw [owned, hcontent, hover]
        rfl
      rw [howned] at hown
      refine hown.free.bind fun h' ⟨hown', _, hothers⟩ => ?_
      refine .pure ⟨by simp only [declared, hcontent],
        fun _ => .of_not_var nofun fun _ => rfl, hown', fun q hq => ?_, nofun⟩
      exact hothers q (List.mem_cons_of_mem _ hq)
    · next hcontent =>
      have howned : id.owned = [] := by rw [owned, hcontent]
      rw [howned] at hown
      refine .pure ⟨by simp only [declared, hcontent],
        fun _ => .of_not_var ?_ fun _ => rfl, ?_, fun _ _ => rfl, nofun⟩
      · intro minval maxval fn slot heq
        cases hcontent.symm.trans heq
      · have hempty : owned ({ id with overridden := false } : Ident F) = [] := by
          rw [owned, hcontent]
        rw [hempty]
        exact hown

/-- What a variable has after its override is cleared is what was saved. -/
theorem value_clearoverride (hown : Owned h (id.owned ++ rest)) (hfine : id.Fine) :
    Yields (clearoverride id h) fun r => r.1.overridden = false ∧
      (id.overridden = true → ∀ w, id.saved h = some w → r.1.value r.2 = some w) := by
  unfold clearoverride
  cases hover : id.overridden with
  | false => exact .pure ⟨hover, nofun⟩
  | true =>
    rw [if_neg (by simp)]
    split
    · next arg p stack hcontent =>
      have hnone : ∀ w, id.saved h ≠ some w := by
        intro w
        simp only [saved, hcontent]
        exact nofun
      rw [owned_alias hcontent, List.append_assoc] at hown
      obtain ⟨str, hstr⟩ := Option.isSome_iff_exists.mp ((hown.live p).mpr (.head _))
      rw [hstr]
      change Yields (if str = [] then _ else _) _
      split
      · exact .pure ⟨rfl, fun _ w hw => (hnone w hw).elim⟩
      · exact hown.free.bind fun h' _ => .pure ⟨rfl, fun _ w hw => (hnone w hw).elim⟩
    · next arg stack hcontent =>
      refine .pure ⟨rfl, fun _ w hw => ?_⟩
      simp only [saved, hcontent] at hw
      cases hw
    · next minval maxval fn slot hcontent =>
      refine .pure ⟨rfl, fun _ w hw => ?_⟩
      simp only [saved, hcontent] at hw
      simp only [value, (hfine.settled _ _ _ _ hcontent).2 hover]
      exact hw
    · next minvalf maxvalf slot hcontent =>
      refine .pure ⟨rfl, fun _ w hw => ?_⟩
      simp only [saved, hcontent] at hw
      exact hw
    · next slot hcontent =>
      have howned : id.owned = [slot.storage, slot.overrideval] := by
        rw [owned, hcontent, hover]
        rfl
      rw [howned] at hown
      refine hown.free.bind fun h' ⟨_, _, hothers⟩ => .pure ⟨rfl, fun _ w hw => ?_⟩
      simp only [saved, hcontent] at hw
      simp only [value]
      rw [hothers _ (.head _)]
      exact hw
    · next hcontent =>
      refine .pure ⟨rfl, fun _ w hw => ?_⟩
      simp only [saved, hcontent] at hw
      cases hw

/-- **An override is cleared**, and a variable has what was saved. -/
theorem clearoverride_spec (hown : Owned h (id.owned ++ rest)) (hfine : id.Fine) :
    Yields (clearoverride id h) fun r => Keeps id h rest r ∧ r.1.overridden = false ∧
      (id.overridden = true → ∀ w, id.saved h = some w → r.1.value r.2 = some w) := by
  obtain ⟨r, hrun, hkeeps⟩ := keeps_clearoverride hown
  obtain ⟨r', hrun', hvalue⟩ := value_clearoverride hown hfine
  obtain rfl := Option.some.inj (hrun.symm.trans hrun')
  exact ⟨r, hrun, hkeeps, hvalue⟩

/-! ## Aliases -/

/-- A value of an alias that is not set is freed, and has no other owner. -/
theorem keeps_freeval {v : Option Nat} (hown : Owned h (v.toList ++ (id.owned ++ rest))) :
    Yields ((freeval v h).map fun h => (id, h)) (Keeps id h rest) := by
  obtain ⟨h', hrun, hown', hothers⟩ := yields_freeval hown
  refine ⟨(id, h'), by rw [hrun]; rfl, rfl, fun hfine => hfine, hown', fun p hp => ?_,
    fun hover => ?_⟩
  · exact hothers p (List.mem_append_right _ hp)
  · exact .inl ⟨hover, saved_congr hover fun p hp => hothers p (List.mem_append_left _ hp)⟩

/-- **A value of an alias is pushed.** -/
theorem keeps_pusharg {v : Option Nat} (hown : Owned h (v.toList ++ (id.owned ++ rest))) :
    Yields (pusharg v id h) (Keeps id h rest) := by
  unfold pusharg
  split
  · next arg val stack hcontent =>
    refine .pure ⟨by simp only [declared, hcontent],
      fun hfine => fine_alias hfine, ?_, fun _ _ => rfl, fun hover => ?_⟩
    · rw [owned_alias hcontent] at hown
      rw [owned_alias rfl, List.flatMap_cons]
      simp only [List.append_assoc] at hown ⊢
      exact hown
    · refine .inl ⟨hover, ?_⟩
      simp only [saved, hcontent]
  · exact keeps_freeval hown

/-- The value that was pushed last comes back. -/
theorem keeps_poparg (hown : Owned h (id.owned ++ rest)) :
    Yields (poparg id h) (Keeps id h rest) := by
  unfold poparg
  split
  · next arg val v stack hcontent =>
    rw [owned_alias hcontent, List.append_assoc, List.flatMap_cons, List.append_assoc] at hown
    refine (yields_freeval hown).bind fun h' ⟨hown', hothers⟩ => ?_
    refine .pure ⟨by simp only [declared, hcontent],
      fun hfine => fine_alias hfine, ?_, fun p hp => ?_, fun hover => ?_⟩
    · rw [owned_alias rfl, List.append_assoc]
      exact hown'
    · exact hothers p (List.mem_append_right _ (List.mem_append_right _ hp))
    · refine .inl ⟨hover, ?_⟩
      simp only [saved, hcontent]
  · exact .pure (.refl hown)

/-- **An alias is assigned**, or an argument; the value has no other owner. -/
theorem keeps_setalias {v : Option Nat} (overriding used : Bool)
    (hown : Owned h (v.toList ++ (id.owned ++ rest))) :
    Yields (setalias overriding used v id h) (Keeps id h rest) := by
  unfold setalias
  split
  · next arg val stack hcontent =>
    split
    · exact keeps_pusharg hown
    · rw [owned_alias hcontent, List.append_assoc] at hown
      have hown : Owned h (val.toList ++ (v.toList ++ (stack.flatMap Option.toList ++ rest))) := by
        have hswap : (v.toList ++ val.toList).Perm (val.toList ++ v.toList) := List.perm_append_comm
        refine hown.perm ?_
        have hrest := hswap.append_right (stack.flatMap Option.toList ++ rest)
        simpa only [List.append_assoc] using hrest
      refine (yields_freeval hown).bind fun h' ⟨hown', hothers⟩ => ?_
      have hrest : ∀ p ∈ rest, h'.cells p = h.cells p := fun p hp =>
        hothers p (List.mem_append_right _ (List.mem_append_right _ hp))
      dsimp only
      split
      · refine .pure ⟨by simp only [declared, hcontent],
          fun hfine => fine_alias hfine, ?_, hrest, fun hover => ?_⟩
        · rw [owned_alias rfl, List.append_assoc]
          exact hown'
        · refine .inl ⟨hover, ?_⟩
          simp only [saved, hcontent]
      · refine .pure ⟨by simp only [declared, hcontent],
          fun _ => .of_not_var nofun nofun, ?_, hrest, fun _ => ?_⟩
        · rw [owned_alias rfl, List.append_assoc]
          exact hown'
        · have hnone : ∀ h : Heap Text, id.saved h = none ∧ id.value h = none := by
            intro h
            simp only [saved, value, hcontent, and_self]
          cases hover : id.overridden with
          | true => exact .inl ⟨rfl, (hnone h).1.symm⟩
          | false => exact .inr ⟨rfl, (hnone h).2.symm⟩
  · exact keeps_freeval hown

end Ident

end Variables

end Script

end QServ
