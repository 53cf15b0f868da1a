import QServ.Lib.Refcount
import QServ.Lib.Run
import QServ.Shared.Numerals

/-!
# The aliases of CubeScript and their compiled code

An alias of `engine/command.cpp` is compiled when it is first called; the code is kept with it until
the value changes, and as long as a call runs it.  Values change by assignment, by arguments, by
`push`, `local` and the loops; each place that changes one has to drop the code itself.

* `Aliases.next`: what the interpreter does to aliases, in any order and nesting.
* `Aliases.Current`: the code an alias keeps was compiled from its value.
* `Aliases.Accounted`: an array is deleted if and only if no alias and no running call has it.
* `aliases_current`: the second always, the first as long as no iterator of a loop is set in place
  over code that was compiled from another value; `second_round_stale` is a run in which one is.
-/

namespace QServ

namespace Script

/-- Text without its terminating zero. -/
abbrev Text := List UInt8

/-- Arguments are the identifiers below `MAXARGS`. -/
def MAXARGS : Nat := 25

/-- Within so many runs of `runcode` no other is begun. -/
def MAXRUNDEPTH : Nat := 255

/-- The value of an alias.  A macro is text that lies in an array of somebody else; of code and of
identifiers there is only the kind. -/
inductive Tagval (F : Type)
  | VAL_NULL
  | VAL_INT (i : Int)
  | VAL_FLOAT (f : F)
  | VAL_STR (s : Text)
  | VAL_MACRO (s : Text)
  | VAL_CODE
  | VAL_IDENT
deriving DecidableEq, Repr

variable {F : Type}

/-- `getstr(v, type)`; how a float is printed is left open. -/
def getstr (floatstr : F → Text) : Tagval F → Text
  | .VAL_STR s | .VAL_MACRO s => s
  | .VAL_INT i => decimal i
  | .VAL_FLOAT f => floatstr f
  | _ => []

/-- `valtype == VAL_INT`. -/
def Tagval.isInt : Tagval F → Bool
  | .VAL_INT _ => true
  | _ => false

/-- `valtype == VAL_STR && !val.s[0]`. -/
def Tagval.blank : Tagval F → Bool
  | .VAL_STR [] => true
  | _ => false

/-- An identifier with `type == ID_ALIAS`.  The code is named by its place among the arrays. -/
structure Alias (F : Type) where
  val : Tagval F := .VAL_NULL
  code : Option Nat := none
  stack : List (Tagval F) := []
  overridden : Bool := false
deriving DecidableEq, Repr

/-- The `identlink` of a running call, with the code it runs and the flags to go back to. -/
structure Link where
  code : Nat
  usedargs : Nat → Bool
  oldflags : Bool

end Script

open Script Refcount

variable {F : Type}

/-- `identmap` as far as it has aliases, the compiled arrays with the text each was compiled from and
`code[0]` as header, the running calls, and the bit `IDF_OVERRIDDEN` of `identflags`. -/
structure Aliases (F : Type) where
  idents : List (Alias F)
  codes : List (Cell Text) := []
  aliasstack : List Link := []
  identflags : Bool := false

namespace Aliases

variable (s : Aliases F)

/-- An identifier changed. -/
def edit (id : Nat) (f : Alias F → Alias F) : Aliases F := { s with idents := s.idents.modify id f }

/-- `id.code`. -/
def code (id : Nat) : Option Nat := s.idents[id]?.bind Alias.code

/-- `cleancode(id)`. -/
def cleancode (id : Nat) : Aliases F :=
  match s.code id with
  | none => s
  | some c => { s.edit id (fun a => { a with code := none }) with codes := release 0x100 c s.codes }

/-- `id.setval(v)`. -/
def setval (id : Nat) (v : Tagval F) : Aliases F := s.edit id fun a => { a with val := v }

/-- `pusharg(id, v, stack)`. -/
def pusharg (id : Nat) (v : Tagval F) : Aliases F :=
  (s.edit id fun a => { a with val := v, stack := a.val :: a.stack }).cleancode id

/-- An identifier with its last value back, where it has one. -/
def restore (a : Alias F) : Alias F :=
  match a.stack with
  | [] => a
  | v :: stack => { a with val := v, stack }

/-- `poparg(id)`. -/
def poparg (id : Nat) : Aliases F :=
  match s.idents[id]? with
  | none => s
  | some a => if a.stack = [] then s else (s.edit id restore).cleancode id

/-- `aliasstack->usedargs`; `noalias` has them all. -/
def usedargs (i : Nat) : Bool :=
  match s.aliasstack with
  | [] => i < MAXARGS
  | l :: _ => l.usedargs i

/-- `aliasstack->usedargs |= 1<<i`. -/
def markarg (i : Nat) : Aliases F :=
  match s.aliasstack with
  | [] => s
  | l :: rest =>
    { s with aliasstack := { l with usedargs := fun j => j = i || l.usedargs j } :: rest }

/-- `setarg(id, v)`. -/
def setarg (id : Nat) (v : Tagval F) : Aliases F :=
  if s.usedargs id then (s.setval id v).cleancode id else (s.pusharg id v).markarg id

/-- `setalias(id, v)`. -/
def setalias (id : Nat) (v : Tagval F) : Aliases F :=
  ((s.setval id v).cleancode id).edit id fun a => { a with overridden := s.identflags }

/-- `writeident`, and what `CODE_IDENTARG` and `CODE_IDENTU` do before an identifier is handed on. -/
def writeident (id : Nat) : Aliases F :=
  if id < MAXARGS && !s.usedargs id then (s.pusharg id .VAL_NULL).markarg id else s

/-- `addident(ident(ID_ALIAS, name, v, flags))`. -/
def addident (v : Tagval F) : Aliases F :=
  { s with idents := s.idents ++ [{ val := v, overridden := s.identflags }] }

/-- `setiter(id, i, stack)`. -/
def setiter (id : Nat) (i : Int) : Aliases F :=
  if i ≠ 0 then
    match s.idents[id]? with
    | none => s
    | some a =>
      if a.val.isInt then s.setval id (.VAL_INT i) else (s.cleancode id).setval id (.VAL_INT i)
  else s.pusharg id (.VAL_INT 0)

/-- The next element in `looplist(id, list, body, search)`, which is the `n`th. -/
def looplist (id n : Nat) (val : Text) : Aliases F :=
  if n ≠ 0 then (s.cleancode id).setval id (.VAL_STR val) else s.pusharg id (.VAL_STR val)

/-- The next file in `loopfiles`, which is the `i`th. -/
def loopfiles (id i : Nat) (file : Text) : Aliases F :=
  if i ≠ 0 then s.setval id (.VAL_STR file) else s.pusharg id (.VAL_STR file)

/-- What `sortfun` does before the body runs. -/
def sortfun (x y : Nat) (xval yval : Text) : Aliases F :=
  (((s.cleancode x).setval x (.VAL_MACRO xval)).cleancode y).setval y (.VAL_MACRO yval)

/-- `clearoverride(i)` for an alias. -/
def clearoverride (id : Nat) : Aliases F :=
  match s.idents[id]? with
  | none => s
  | some a =>
    if !a.overridden then s
    else
      let s := if a.val.blank then s else (s.cleancode id).setval id (.VAL_STR [])
      s.edit id fun a => { a with overridden := false }

/-- The arguments of a call, from the first one on. -/
def pushargs : Aliases F → Nat → List (Tagval F) → Aliases F
  | s, _, [] => s
  | s, i, v :: args => pushargs (s.pusharg i v) (i + 1) args

/-- `if(!id->code) id->code = compilecode(id->getstr())`, and the code. -/
def compiled (floatstr : F → Text) (id : Nat) (a : Alias F) : Aliases F × Nat :=
  match a.code with
  | some c => (s, c)
  | none =>
    ({ s.edit id (fun a => { a with code := some s.codes.length }) with
        codes := alloc 0x100 (getstr floatstr a.val) s.codes }, s.codes.length)

/-- The running of the code of an identifier begins. -/
def enter (floatstr : F → Text) (id newargs : Nat) (oldflags : Bool) : Aliases F :=
  match s.idents[id]? with
  | none => s
  | some a =>
    let (s, c) := s.compiled floatstr id a
    { s with
      codes := retain 0x100 c s.codes
      aliasstack := { code := c, usedargs := fun i => i < newargs, oldflags } :: s.aliasstack
      identflags := s.identflags || a.overridden }

/-- `CALLALIAS` up to `runcode(code+1, result)`. -/
def callalias (floatstr : F → Text) (id : Nat) (args : List (Tagval F)) : Aliases F :=
  if s.aliasstack.length < MAXRUNDEPTH ∧ args.length ≤ MAXARGS ∧ id < s.idents.length then
    (s.pushargs 0 args).enter floatstr id args.length s.identflags
  else s

/-- `CALLALIAS` from there on. -/
def endcall : Aliases F :=
  match s.aliasstack with
  | [] => s
  | l :: rest =>
    ((List.range MAXARGS).filter l.usedargs).foldl poparg
      { s with
        codes := release 0x100 l.code s.codes
        aliasstack := rest
        identflags := l.oldflags }

end Aliases

/-- What happens to aliases.  `push`, `local` and the loops are their first and last steps. -/
inductive AliasEvent (F : Type)
  | pusharg (id : Nat) (v : Tagval F)
  | poparg (id : Nat)
  | setarg (id : Nat) (v : Tagval F)
  | setalias (id : Nat) (v : Tagval F)
  | writeident (id : Nat)
  | addident (v : Tagval F)
  | setiter (id : Nat) (i : Int)
  | looplist (id n : Nat) (val : Text)
  | loopfiles (id i : Nat) (file : Text)
  | sortfun (x y : Nat) (xval yval : Text)
  | clearoverride (id : Nat)
  | callalias (id : Nat) (args : List (Tagval F))
  | endcall
deriving DecidableEq, Repr

namespace Aliases

/-- One step. -/
def next (floatstr : F → Text) (s : Aliases F) : AliasEvent F → Aliases F
  | .pusharg id v => s.pusharg id v
  | .poparg id => s.poparg id
  | .setarg id v => s.setarg id v
  | .setalias id v => s.setalias id v
  | .writeident id => s.writeident id
  | .addident v => s.addident v
  | .setiter id i => s.setiter id i
  | .looplist id n val => s.looplist id n val
  | .loopfiles id i file => s.loopfiles id i file
  | .sortfun x y xval yval => s.sortfun x y xval yval
  | .clearoverride id => s.clearoverride id
  | .callalias id args => s.callalias floatstr id args
  | .endcall => s.endcall

/-! ## Holders of the arrays -/

variable {s : Aliases F} {id j c : Nat} {f : Alias F → Alias F} {v : Tagval F}

/-- How many have an array: aliases and running calls. -/
def refs (s : Aliases F) (c : Nat) : Nat :=
  (s.idents.map Alias.code).count (some c) + (s.aliasstack.map Link.code).count c

/-- The headers count the holders. -/
def Counted (s : Aliases F) : Prop := Counts 0x100 s.codes s.refs

theorem map_modify_code (hf : ∀ a, (f a).code = a.code) (l : List (Alias F)) :
    (l.modify id f).map Alias.code = l.map Alias.code := by
  apply List.ext_getElem?
  intro k
  rw [List.getElem?_map, List.getElem?_map, List.getElem?_modify]
  cases l[k]? with
  | none => rfl
  | some a => by_cases h : id = k <;> simp [h, hf]

theorem Counted.edit (h : s.Counted) (hf : ∀ a, (f a).code = a.code) :
    (s.edit id f).Counted :=
  Counts.congr h fun c => by simp only [refs, Aliases.edit, map_modify_code hf]

/-- The code of an identifier replaced. -/
theorem count_replaced {l : List (Alias F)} {a : Alias F} {o : Option Nat} (ha : l[id]? = some a)
    (hf : ∀ a, (f a).code = o) (c : Nat) :
    ((l.modify id f).map Alias.code).count (some c) =
      (l.map Alias.code).count (some c) - (if a.code = some c then 1 else 0) +
        (if o = some c then 1 else 0) := by
  obtain ⟨hlt, rfl⟩ := List.getElem?_eq_some_iff.1 ha
  have hset : (l.modify id f).map Alias.code = (l.map Alias.code).set id o := by
    apply List.ext_getElem?
    intro k
    rw [List.getElem?_map, List.getElem?_modify, List.getElem?_set, List.getElem?_map]
    by_cases h : id = k
    · subst h
      simp [hlt, hf]
    · simp [h]
  rw [hset, List.count_set (by simpa using hlt)]
  simp

theorem count_pos_of_code {l : List (Alias F)} {a : Alias F} (ha : l[id]? = some a)
    (hc : a.code = some c) : (l.map Alias.code).count (some c) ≠ 0 := by
  have hmem : some c ∈ l.map Alias.code := List.mem_map.2 ⟨a, List.mem_of_getElem? ha, hc⟩
  have := List.count_pos_iff.2 hmem
  omega

theorem Counted.cleancode (h : s.Counted) (id : Nat) : (s.cleancode id).Counted := by
  unfold Aliases.cleancode
  cases hcode : s.code id with
  | none => exact h
  | some c =>
    obtain ⟨a, ha, hc⟩ := Option.bind_eq_some_iff.1 hcode
    have hpos := count_pos_of_code ha hc
    have hrefs : s.refs c ≠ 0 := by
      unfold refs
      omega
    refine (h.release (by decide) hrefs).congr fun d => ?_
    have hcount := count_replaced (f := fun a : Alias F => { a with code := none }) ha
      (fun _ => rfl) d
    simp only [refs, Aliases.edit, hcount, hc, reduceCtorEq, if_false]
    by_cases hd : d = c
    · subst hd
      rw [Function.update_self, if_pos rfl]
      omega
    · rw [Function.update_of_ne hd, if_neg (by simpa using Ne.symm hd)]
      rfl

theorem Counted.pusharg (h : s.Counted) (id : Nat) (v : Tagval F) : (s.pusharg id v).Counted := by
  refine Counted.cleancode (Counted.edit h ?_) id
  exact fun _ => rfl

theorem restore_code (a : Alias F) : (restore a).code = a.code := by
  unfold restore
  split <;> rfl

theorem Counted.poparg (h : s.Counted) (id : Nat) : (s.poparg id).Counted := by
  unfold Aliases.poparg
  split
  · exact h
  · split
    · exact h
    · exact (h.edit restore_code).cleancode id

theorem Counted.setval (h : s.Counted) (id : Nat) (v : Tagval F) : (s.setval id v).Counted :=
  h.edit fun _ => rfl

theorem Counted.markarg (h : s.Counted) (i : Nat) : (s.markarg i).Counted := by
  refine Counts.congr (n := s.refs) ?_ fun c => ?_
  · unfold Aliases.markarg
    split <;> exact h
  · unfold refs Aliases.markarg
    split
    · rfl
    · next hs => simp [hs]

theorem Counted.setarg (h : s.Counted) (id : Nat) (v : Tagval F) : (s.setarg id v).Counted := by
  unfold Aliases.setarg
  split
  · exact (h.setval id v).cleancode id
  · exact (h.pusharg id v).markarg id

theorem Counted.setalias (h : s.Counted) (id : Nat) (v : Tagval F) :
    (s.setalias id v).Counted := by
  unfold Aliases.setalias
  exact ((h.setval id v).cleancode id).edit fun _ => rfl

theorem Counted.writeident (h : s.Counted) (id : Nat) : (s.writeident id).Counted := by
  unfold Aliases.writeident
  split
  · exact (h.pusharg id _).markarg id
  · exact h

theorem Counted.addident (h : s.Counted) (v : Tagval F) : (s.addident v).Counted :=
  Counts.congr h fun c => by simp [refs, Aliases.addident]

theorem Counted.setiter (h : s.Counted) (id : Nat) (i : Int) : (s.setiter id i).Counted := by
  unfold Aliases.setiter
  split
  · split
    · exact h
    · split
      · exact h.setval id _
      · exact (h.cleancode id).setval id _
  · exact h.pusharg id _

theorem Counted.looplist (h : s.Counted) (id n : Nat) (val : Text) :
    (s.looplist id n val).Counted := by
  unfold Aliases.looplist
  split
  · exact (h.cleancode id).setval id _
  · exact h.pusharg id _

theorem Counted.loopfiles (h : s.Counted) (id i : Nat) (file : Text) :
    (s.loopfiles id i file).Counted := by
  unfold Aliases.loopfiles
  split
  · exact h.setval id _
  · exact h.pusharg id _

theorem Counted.sortfun (h : s.Counted) (x y : Nat) (xval yval : Text) :
    (s.sortfun x y xval yval).Counted := by
  unfold Aliases.sortfun
  exact (((h.cleancode x).setval x _).cleancode y).setval y _

theorem Counted.clearoverride (h : s.Counted) (id : Nat) : (s.clearoverride id).Counted := by
  unfold Aliases.clearoverride
  split
  · exact h
  · split
    · exact h
    · refine Counted.edit ?_ fun _ => rfl
      split
      · exact h
      · exact (h.cleancode id).setval id _

theorem Counted.pushargs (h : s.Counted) (i : Nat) (args : List (Tagval F)) :
    (s.pushargs i args).Counted := by
  induction args generalizing s i with
  | nil => exact h
  | cons v args ih => exact ih (h.pusharg i v) (i + 1)

/-- The code of a call, compiled now or before, has a holder. -/
theorem Counted.compiled (floatstr : F → Text) {a : Alias F} (h : s.Counted)
    (ha : s.idents[id]? = some a) :
    (s.compiled floatstr id a).1.Counted ∧
      (s.compiled floatstr id a).1.refs (s.compiled floatstr id a).2 ≠ 0 := by
  unfold Aliases.compiled
  cases hc : a.code with
  | some c =>
    have := count_pos_of_code ha hc
    refine ⟨h, ?_⟩
    simp only [refs]
    omega
  | none =>
    have hcount := count_replaced (f := fun a : Alias F => { a with code := some s.codes.length }) ha
      fun _ => rfl
    have hfresh : s.refs s.codes.length = 0 := h.bound _ le_rfl
    unfold refs at hfresh
    constructor
    · refine (h.alloc _).congr fun d => ?_
      simp only [refs, Aliases.edit, hcount, hc, reduceCtorEq, if_false, Option.some.injEq]
      by_cases hd : d = s.codes.length
      · subst hd
        rw [Function.update_self, if_pos rfl]
        omega
      · rw [Function.update_of_ne hd, if_neg (Ne.symm hd)]
        rfl
    · simp only [refs, Aliases.edit, hcount, if_pos]
      omega

@[simp] theorem compiled_aliasstack (floatstr : F → Text) (a : Alias F) :
    (s.compiled floatstr id a).1.aliasstack = s.aliasstack := by
  unfold Aliases.compiled
  split <;> rfl

theorem Counted.enter {floatstr : F → Text} (h : s.Counted) (id newargs : Nat) (oldflags : Bool) :
    (s.enter floatstr id newargs oldflags).Counted := by
  unfold Aliases.enter
  split
  · exact h
  · next a ha =>
    obtain ⟨hcounted, hpos⟩ := h.compiled floatstr ha
    refine (hcounted.retain hpos).congr fun d => ?_
    simp only [refs, List.map_cons, List.count_cons, compiled_aliasstack]
    by_cases hd : d = (s.compiled floatstr id a).2
    · subst hd
      simp [Nat.add_assoc]
    · simp [Function.update_of_ne hd, Ne.symm hd, refs]

theorem Counted.callalias {floatstr : F → Text} (h : s.Counted) (id : Nat)
    (args : List (Tagval F)) : (s.callalias floatstr id args).Counted := by
  unfold Aliases.callalias
  split
  · exact (h.pushargs 0 args).enter id _ _
  · exact h

theorem Counted.popargs (h : s.Counted) (ids : List Nat) : (ids.foldl Aliases.poparg s).Counted := by
  induction ids generalizing s with
  | nil => exact h
  | cons id ids ih => exact ih (h.poparg id)

theorem Counted.endcall (h : s.Counted) : s.endcall.Counted := by
  unfold Aliases.endcall
  split
  · exact h
  · next l rest hs =>
    refine Counted.popargs ?_ _
    have hpos : s.refs l.code ≠ 0 := by simp [refs, hs]
    refine (h.release (by decide) hpos).congr fun d => ?_
    by_cases hd : d = l.code
    · subst hd
      simp [refs, hs]
    · simp [refs, hs, Function.update_of_ne hd, Ne.symm hd]

theorem Counted.next {floatstr : F → Text} (h : s.Counted) (e : AliasEvent F) :
    (s.next floatstr e).Counted := by
  cases e with
  | pusharg id v => exact h.pusharg id v
  | poparg id => exact h.poparg id
  | setarg id v => exact h.setarg id v
  | setalias id v => exact h.setalias id v
  | writeident id => exact h.writeident id
  | addident v => exact h.addident v
  | setiter id i => exact h.setiter id i
  | looplist id n val => exact h.looplist id n val
  | loopfiles id i file => exact h.loopfiles id i file
  | sortfun x y xval yval => exact h.sortfun x y xval yval
  | clearoverride id => exact h.clearoverride id
  | callalias id args => exact h.callalias id args
  | endcall => exact h.endcall

/-- An array is deleted if and only if no alias and no running call has it. -/
def Accounted (s : Aliases F) : Prop :=
  ∀ c cell, s.codes[c]? = some cell →
    (cell.freed = true ↔ (∀ a ∈ s.idents, a.code ≠ some c) ∧ ∀ l ∈ s.aliasstack, l.code ≠ c)

theorem Counted.accounted (h : s.Counted) : s.Accounted := by
  intro c cell hcell
  rw [(h.cell c cell hcell).2, refs, Nat.add_eq_zero_iff, List.count_eq_zero, List.count_eq_zero]
  simp

/-! ## The value code was compiled from -/

/-- The code an alias keeps, if it does, was compiled from its value. -/
def CurrentAt (floatstr : F → Text) (s : Aliases F) (id : Nat) : Prop :=
  ∀ a c, s.idents[id]? = some a → a.code = some c → body s.codes c = some (getstr floatstr a.val)

/-- The code that aliases keep was compiled from their values. -/
def Current (floatstr : F → Text) (s : Aliases F) : Prop := ∀ id, s.CurrentAt floatstr id

variable {floatstr : F → Text}

theorem edit_getElem? (j : Nat) : (s.edit id f).idents[j]? =
    s.idents[j]?.map fun a => if id = j then f a else a :=
  List.getElem?_modify ..

theorem CurrentAt.edit_of_ne (h : s.CurrentAt floatstr j) (hj : j ≠ id) :
    (s.edit id f).CurrentAt floatstr j := by
  intro a c ha hc
  rw [edit_getElem?] at ha
  obtain ⟨b, hb, rfl⟩ := Option.map_eq_some_iff.1 ha
  rw [if_neg hj.symm] at hc ⊢
  exact h b c hb hc

/-- A change that leaves the value and the code. -/
theorem Current.edit_same (h : s.Current floatstr)
    (hf : ∀ a, (f a).code = a.code ∧ (f a).val = a.val) : (s.edit id f).Current floatstr := by
  intro j a c ha hc
  rw [edit_getElem?] at ha
  obtain ⟨b, hb, rfl⟩ := Option.map_eq_some_iff.1 ha
  have hsame : (if id = j then f b else b).code = b.code ∧ (if id = j then f b else b).val = b.val := by
    split
    · exact hf b
    · exact ⟨rfl, rfl⟩
  rw [hsame.1] at hc
  rw [hsame.2]
  exact h j b c hb hc

/-- An alias keeps no code. -/
def Dropped (s : Aliases F) (id : Nat) : Prop := s.code id = none

theorem dropped_iff : s.Dropped id ↔ ∀ a, s.idents[id]? = some a → a.code = none := by
  unfold Dropped Aliases.code
  cases s.idents[id]? with
  | none => simp
  | some a => simp

theorem Dropped.currentAt (h : s.Dropped id) : s.CurrentAt floatstr id := by
  intro a c ha hc
  rw [dropped_iff.1 h a ha] at hc
  cases hc

theorem Dropped.edit (h : s.Dropped id) (hf : ∀ a, (f a).code = a.code) : (s.edit id f).Dropped id := by
  rw [dropped_iff] at h ⊢
  intro a ha
  rw [edit_getElem?] at ha
  obtain ⟨b, hb, rfl⟩ := Option.map_eq_some_iff.1 ha
  rw [if_pos rfl, hf, h b hb]

theorem dropped_cleancode (s : Aliases F) (id : Nat) : (s.cleancode id).Dropped id := by
  unfold Aliases.cleancode
  cases hcode : s.code id with
  | none => exact hcode
  | some c =>
    rw [dropped_iff]
    intro a ha
    rw [edit_getElem?] at ha
    obtain ⟨b, hb, rfl⟩ := Option.map_eq_some_iff.1 ha
    rw [if_pos rfl]

theorem CurrentAt.cleancode (h : s.CurrentAt floatstr j) (hj : j ≠ id) :
    (s.cleancode id).CurrentAt floatstr j := by
  unfold Aliases.cleancode
  cases s.code id with
  | none => exact h
  | some c =>
    intro a d ha hd
    rw [body_release]
    exact CurrentAt.edit_of_ne h hj a d ha hd

/-- The rule for a place that changes a value: the others are as they were, and the code of this
one is dropped. -/
theorem current_of_dropped (h : ∀ j, j ≠ id → s.CurrentAt floatstr j) (hid : s.Dropped id) :
    s.Current floatstr := by
  intro j
  by_cases hj : j = id
  · exact hj ▸ hid.currentAt
  · exact h j hj

/-- A value is changed and the code dropped. -/
theorem Current.edit_cleancode (h : s.Current floatstr) :
    ((s.edit id f).cleancode id).Current floatstr :=
  current_of_dropped (fun j hj => ((h j).edit_of_ne hj).cleancode hj) (dropped_cleancode _ id)

/-- The code is dropped and a value changed. -/
theorem Current.cleancode_setval (h : s.Current floatstr) :
    ((s.cleancode id).setval id v).Current floatstr :=
  current_of_dropped (fun j hj => ((h j).cleancode hj).edit_of_ne hj)
    ((dropped_cleancode s id).edit fun _ => rfl)

theorem Current.setval (h : s.Current floatstr)
    (hid : ∀ a, s.idents[id]? = some a → a.code = none ∨ getstr floatstr v = getstr floatstr a.val) :
    (s.setval id v).Current floatstr := by
  intro j a c ha hc
  unfold Aliases.setval at ha ⊢
  rw [edit_getElem?] at ha
  obtain ⟨b, hb, rfl⟩ := Option.map_eq_some_iff.1 ha
  by_cases hj : id = j
  · subst hj
    rw [if_pos rfl] at hc ⊢
    rcases hid b hb with hnone | htext
    · rw [hnone] at hc
      cases hc
    · rw [htext]
      exact h id b c hb hc
  · rw [if_neg hj] at hc ⊢
    exact h j b c hb hc

theorem Current.markarg (h : s.Current floatstr) (i : Nat) : (s.markarg i).Current floatstr := by
  unfold Aliases.markarg
  split <;> exact h

theorem Current.pusharg (h : s.Current floatstr) (id : Nat) (v : Tagval F) :
    (s.pusharg id v).Current floatstr :=
  h.edit_cleancode

theorem Current.poparg (h : s.Current floatstr) (id : Nat) : (s.poparg id).Current floatstr := by
  unfold Aliases.poparg
  split
  · exact h
  · split
    · exact h
    · exact h.edit_cleancode

theorem Current.setarg (h : s.Current floatstr) (id : Nat) (v : Tagval F) :
    (s.setarg id v).Current floatstr := by
  unfold Aliases.setarg
  split
  · exact h.edit_cleancode
  · exact (h.pusharg id v).markarg id

theorem Current.setalias (h : s.Current floatstr) (id : Nat) (v : Tagval F) :
    (s.setalias id v).Current floatstr := by
  have hclean : ((s.setval id v).cleancode id).Current floatstr := h.edit_cleancode
  exact hclean.edit_same fun _ => ⟨rfl, rfl⟩

theorem Current.writeident (h : s.Current floatstr) (id : Nat) :
    (s.writeident id).Current floatstr := by
  unfold Aliases.writeident
  split
  · exact (h.pusharg id _).markarg id
  · exact h

theorem Current.addident (h : s.Current floatstr) (v : Tagval F) :
    (s.addident v).Current floatstr := by
  intro j a c ha hc
  simp only [Aliases.addident] at ha ⊢
  rcases Nat.lt_or_ge j s.idents.length with hlt | hge
  · rw [List.getElem?_append_left hlt] at ha
    exact h j a c ha hc
  · rw [List.getElem?_append_right hge, List.getElem?_singleton] at ha
    split at ha
    · obtain rfl := Option.some.inj ha
      cases hc
    · cases ha

theorem Current.sortfun (h : s.Current floatstr) (x y : Nat) (xval yval : Text) :
    (s.sortfun x y xval yval).Current floatstr := by
  have hx : ((s.cleancode x).setval x (.VAL_MACRO xval)).Current floatstr := h.cleancode_setval
  exact hx.cleancode_setval

theorem Current.clearoverride (h : s.Current floatstr) (id : Nat) :
    (s.clearoverride id).Current floatstr := by
  unfold Aliases.clearoverride
  split
  · exact h
  · split
    · exact h
    · refine Current.edit_same ?_ fun _ => ⟨rfl, rfl⟩
      split
      · exact h
      · exact h.cleancode_setval

theorem Current.looplist (h : s.Current floatstr) (id n : Nat) (val : Text) :
    (s.looplist id n val).Current floatstr := by
  unfold Aliases.looplist
  split
  · exact h.cleancode_setval
  · exact h.pusharg id _

theorem Current.pushargs (h : s.Current floatstr) (i : Nat) (args : List (Tagval F)) :
    (s.pushargs i args).Current floatstr := by
  induction args generalizing s i with
  | nil => exact h
  | cons v args ih => exact ih (h.pusharg i v) (i + 1)

/-- What a call compiles it compiles from the value. -/
theorem Current.compiled {a : Alias F} (h : s.Current floatstr) (ha : s.idents[id]? = some a) :
    (s.compiled floatstr id a).1.Current floatstr ∧
      body (s.compiled floatstr id a).1.codes (s.compiled floatstr id a).2 =
        some (getstr floatstr a.val) := by
  unfold Aliases.compiled
  cases hc : a.code with
  | some c => exact ⟨h, h id a c ha hc⟩
  | none =>
    refine ⟨fun j b d hb hd => ?_, body_alloc_length⟩
    simp only [edit_getElem?] at hb
    obtain ⟨b', hb', rfl⟩ := Option.map_eq_some_iff.1 hb
    by_cases hj : id = j
    · subst hj
      obtain rfl := Option.some.inj (ha.symm.trans hb')
      rw [if_pos rfl] at hd ⊢
      obtain rfl := Option.some.inj hd
      exact body_alloc_length
    · rw [if_neg hj] at hd ⊢
      have hold := h j b' d hb' hd
      rw [body_alloc_of_lt (lt_of_body hold)]
      exact hold

theorem Current.enter (h : s.Current floatstr) (id newargs : Nat) (oldflags : Bool) :
    (s.enter floatstr id newargs oldflags).Current floatstr := by
  unfold Aliases.enter
  split
  · exact h
  · next a ha =>
    intro j b d hb hd
    rw [body_retain]
    exact (h.compiled ha).1 j b d hb hd

theorem Current.callalias (h : s.Current floatstr) (id : Nat) (args : List (Tagval F)) :
    (s.callalias floatstr id args).Current floatstr := by
  unfold Aliases.callalias
  split
  · exact (h.pushargs 0 args).enter id _ _
  · exact h

theorem Current.popargs (h : s.Current floatstr) (ids : List Nat) :
    (ids.foldl Aliases.poparg s).Current floatstr := by
  induction ids generalizing s with
  | nil => exact h
  | cons id ids ih => exact ih (h.poparg id)

theorem Current.endcall (h : s.Current floatstr) : s.endcall.Current floatstr := by
  unfold Aliases.endcall
  split
  · exact h
  · next l rest hs =>
    refine Current.popargs (fun j a c ha hc => ?_) _
    rw [body_release]
    exact h j a c ha hc

/-! ## Iterators set in place -/

/-- Where a loop sets its iterator in place, the iterator keeps no code, or the code was compiled
from the same text. -/
def InPlace (floatstr : F → Text) (s : Aliases F) : AliasEvent F → Prop
  | .setiter id i => i ≠ 0 → ∀ a, s.idents[id]? = some a → a.val.isInt →
      a.code = none ∨ decimal i = getstr floatstr a.val
  | .loopfiles id i file => i ≠ 0 → ∀ a, s.idents[id]? = some a →
      a.code = none ∨ file = getstr floatstr a.val
  | _ => True

theorem Current.setiter (h : s.Current floatstr) {i : Int}
    (hok : InPlace floatstr s (.setiter id i)) : (s.setiter id i).Current floatstr := by
  unfold Aliases.setiter
  split
  · next hi =>
    split
    · exact h
    · next a ha =>
      split
      · next hint =>
        refine h.setval fun b hb => ?_
        obtain rfl := Option.some.inj (ha.symm.trans hb)
        exact hok hi a ha hint
      · exact h.cleancode_setval
  · exact h.pusharg id _

theorem Current.loopfiles (h : s.Current floatstr) {i : Nat} {file : Text}
    (hok : InPlace floatstr s (.loopfiles id i file)) :
    (s.loopfiles id i file).Current floatstr := by
  unfold Aliases.loopfiles
  split
  · next hi => exact h.setval fun a ha => hok hi a ha
  · exact h.pusharg id _

theorem Current.next (h : s.Current floatstr) {e : AliasEvent F} (hok : InPlace floatstr s e) :
    (s.next floatstr e).Current floatstr := by
  cases e with
  | pusharg id v => exact h.pusharg id v
  | poparg id => exact h.poparg id
  | setarg id v => exact h.setarg id v
  | setalias id v => exact h.setalias id v
  | writeident id => exact h.writeident id
  | addident v => exact h.addident v
  | setiter id i => exact h.setiter hok
  | looplist id n val => exact h.looplist id n val
  | loopfiles id i file => exact h.loopfiles hok
  | sortfun x y xval yval => exact h.sortfun x y xval yval
  | clearoverride id => exact h.clearoverride id
  | callalias id args => exact h.callalias id args
  | endcall => exact h.endcall

/-- Setting a value in place over code that was compiled from another text. -/
theorem not_current_setval (h : s.Current floatstr) {a : Alias F} (ha : s.idents[id]? = some a)
    (hcode : a.code ≠ none) (hv : getstr floatstr v ≠ getstr floatstr a.val) :
    ¬ (s.setval id v).Current floatstr := by
  intro hcur
  obtain ⟨c, hc⟩ := Option.ne_none_iff_exists'.1 hcode
  have hget : (s.setval id v).idents[id]? = some { a with val := v } := by
    unfold Aliases.setval
    rw [edit_getElem?, ha]
    simp
  have hnew : body s.codes c = some (getstr floatstr v) := hcur id _ c hget hc
  rw [h id a c ha hc] at hnew
  exact hv (Option.some.inj hnew).symm

/-- A step from a state in which the code is current leads to one if and only if it sets no iterator
in place over other code. -/
theorem current_next_iff (h : s.Current floatstr) (e : AliasEvent F) :
    (s.next floatstr e).Current floatstr ↔ InPlace floatstr s e := by
  refine ⟨fun hcur => ?_, h.next⟩
  cases e with
  | setiter id i =>
    intro hi a ha hint
    by_contra hno
    obtain ⟨hcode, hv⟩ := not_or.1 hno
    refine not_current_setval (v := .VAL_INT i) h ha hcode hv ?_
    simpa [Aliases.next, Aliases.setiter, hi, ha, hint] using hcur
  | loopfiles id i file =>
    intro hi a ha
    by_contra hno
    obtain ⟨hcode, hv⟩ := not_or.1 hno
    refine not_current_setval (v := .VAL_STR file) h ha hcode hv ?_
    simpa [Aliases.next, Aliases.loopfiles, hi] using hcur
  | _ => trivial

/-! ## Runs -/

/-- Nothing has been compiled and nothing is running. -/
structure Start (s : Aliases F) : Prop where
  codes : s.codes = []
  aliasstack : s.aliasstack = []
  fresh : ∀ a ∈ s.idents, a.code = none

/-- A call of an identifier runs what was compiled from its value. -/
def RunsValue (floatstr : F → Text) (s : Aliases F) (id : Nat) (args : List (Tagval F)) : Prop :=
  ∀ l, (s.callalias floatstr id args).aliasstack = l :: s.aliasstack →
    ∃ a, (s.callalias floatstr id args).idents[id]? = some a ∧
      body (s.callalias floatstr id args).codes l.code = some (getstr floatstr a.val)

theorem Start.counted (h : s.Start) : s.Counted := by
  unfold Counted
  rw [h.codes]
  refine Counts.nil.congr fun c => ?_
  unfold refs
  rw [h.aliasstack, List.count_eq_zero.2]
  · rfl
  · intro hmem
    obtain ⟨a, ha, hc⟩ := List.mem_map.1 hmem
    rw [h.fresh a ha] at hc
    cases hc

theorem Start.current (h : s.Start) : s.Current floatstr := by
  intro id a c ha hc
  rw [h.fresh a (List.mem_of_getElem? ha)] at hc
  cases hc

@[simp] theorem cleancode_aliasstack (id : Nat) : (s.cleancode id).aliasstack = s.aliasstack := by
  unfold Aliases.cleancode
  split <;> rfl

@[simp] theorem pushargs_aliasstack (i : Nat) (args : List (Tagval F)) :
    (s.pushargs i args).aliasstack = s.aliasstack := by
  induction args generalizing s i with
  | nil => rfl
  | cons v args ih => exact (ih (i + 1)).trans (cleancode_aliasstack i)

variable (floatstr) in
theorem compiled_getElem? {a : Alias F} (ha : s.idents[id]? = some a) :
    ∃ b, (s.compiled floatstr id a).1.idents[id]? = some b ∧ b.val = a.val := by
  unfold Aliases.compiled
  split
  · exact ⟨a, ha, rfl⟩
  · refine ⟨{ a with code := some s.codes.length }, ?_, rfl⟩
    simp [edit_getElem?, ha]

theorem Current.runsValue (h : s.Current floatstr) (id : Nat) (args : List (Tagval F)) :
    s.RunsValue floatstr id args := by
  intro l hl
  unfold Aliases.callalias at hl ⊢
  split
  · next hargs =>
    rw [if_pos hargs] at hl
    unfold Aliases.enter at hl ⊢
    split at hl
    · rw [pushargs_aliasstack] at hl
      exact absurd hl (List.cons_ne_self l s.aliasstack).symm
    · next a ha =>
      obtain ⟨rfl, _⟩ := List.cons.inj hl
      simp only [body_retain]
      obtain ⟨b, hb, hval⟩ := compiled_getElem? floatstr ha
      refine ⟨b, hb, ?_⟩
      rw [hval]
      exact ((h.pushargs 0 args).compiled ha).2
  · next hargs =>
    rw [if_neg hargs] at hl
    exact absurd hl (List.cons_ne_self l s.aliasstack).symm

end Aliases

open Aliases

/-- **Cached code.**  In every run an array is deleted if and only if neither an alias nor a running
call has it.  In every run in which no loop sets its iterator in place over code that was compiled
from another text, the code of every alias was compiled from its value and a call runs that; and the
first step that does otherwise leaves code behind that was not. -/
theorem aliases_current (floatstr : F → Text) {s₀ : Aliases F} (h₀ : s₀.Start) :
    (∀ es s, Run.Steps (fun s e => (Except.ok (s.next floatstr e) : Except Empty (Aliases F)))
      (fun _ _ => True) s₀ es s → s.Accounted) ∧
    ∀ es s, Run.Steps (fun s e => (Except.ok (s.next floatstr e) : Except Empty (Aliases F)))
      (InPlace floatstr) s₀ es s →
      s.Current floatstr ∧ (∀ id args, s.RunsValue floatstr id args) ∧
        ∀ e, (s.next floatstr e).Current floatstr ↔ InPlace floatstr s e := by
  constructor
  · intro es s hrun
    have hcounted : s.Counted := by
      refine hrun.invariant Counted (fun s e t h _ hst => ?_) h₀.counted
      obtain rfl := Except.ok.inj hst
      exact h.next e
    exact hcounted.accounted
  · intro es s hrun
    have hcur : s.Current floatstr := by
      refine hrun.invariant (Current floatstr) (fun s e t h hok hst => ?_) h₀.current
      obtain rfl := Except.ok.inj hst
      exact h.next hok
    exact ⟨hcur, hcur.runsValue, current_next_iff hcur⟩

/-- `MAXARGS` arguments, the dummy and one alias more. -/
def loopidents : Aliases Empty := { idents := List.replicate 27 {} }

/-- One round of a loop whose body calls the iterator, as `loop i 1 [i]`. -/
theorem aliases_current_round : ∃ s,
    Run.Steps (fun s e => (Except.ok (s.next Empty.elim e) : Except Empty (Aliases Empty)))
      (InPlace Empty.elim) loopidents [.setiter 26 0, .callalias 26 [], .endcall, .poparg 26] s ∧
    s.Current Empty.elim ∧ s.Accounted := by
  have h₀ : loopidents.Start := ⟨rfl, rfl, by decide⟩
  have hrun : Run.Steps
      (fun s e => (Except.ok (s.next Empty.elim e) : Except Empty (Aliases Empty)))
      (InPlace Empty.elim) loopidents [.setiter 26 0, .callalias 26 [], .endcall, .poparg 26] _ :=
    .cons (fun h => absurd rfl h) rfl (.cons trivial rfl (.cons trivial rfl
      (.cons trivial rfl (.nil _))))
  have hall := aliases_current Empty.elim h₀
  exact ⟨_, hrun, (hall.2 _ _ hrun).1, hall.1 _ _ (hrun.mono fun _ _ _ => trivial)⟩

/-- `loop i 2 [i]`: the second round sets the iterator to 1 in place, and the call of it runs what was
compiled from 0. -/
theorem second_round_stale : ∃ s,
    loopidents.Start ∧
    Run.Steps (fun s e => (Except.ok (s.next Empty.elim e) : Except Empty (Aliases Empty)))
      (fun _ _ => True) loopidents
      [.setiter 26 0, .callalias 26 [], .endcall, .setiter 26 1, .callalias 26 []] s ∧
    s.idents[26]?.map Alias.val = some (.VAL_INT 1) ∧
    s.aliasstack.head?.bind (fun l => body s.codes l.code) = some (word "0") ∧
    ¬ s.Current Empty.elim := by
  refine ⟨_, ⟨rfl, rfl, by decide⟩, .cons trivial rfl (.cons trivial rfl (.cons trivial rfl
    (.cons trivial rfl (.cons trivial rfl (.nil _))))), by decide, by decide, fun h => ?_⟩
  have hbody := h 26 _ 0 rfl rfl
  revert hbody
  decide

end QServ
