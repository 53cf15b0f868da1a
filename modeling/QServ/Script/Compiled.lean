import QServ.Script.Layout

/-!
# What the compiler makes

Each function of the compiler ends, stays in its text and adds code that is well bracketed, however
the text is malformed; where nothing was noted that gets in the way, the values are as many as the
instructions need.

* `Makes`: code is added that takes `k` values to `m`, nothing known is forgotten, and a null
  pointer is taken for a text exactly where a name is missing.
* `RecSpec`: what the functions do on texts up to a length; `functions_spec` closes the recursion.
* `compilemain_spec`: what is made of a whole text.
-/

namespace QServ

namespace Script

open Loop

/-! ## What is noted -/

/-- The name behind a dollar sign that is not followed by a bracket or another one. -/
def lookupname (p : Text) : Option Text :=
  if p.head? = some (chr '"') then some (cutstring p).1 else (cutword p).1

/-- There is something to look up behind a dollar sign: a bracket, another dollar sign, or a name
that is not a keyword. -/
def Names (ids : List Ident) (p : Text) : Prop :=
  p.head? = some (chr '(') ∨ p.head? = some (chr '[') ∨ p.head? = some (chr '$') ∨
    ∃ w, lookupname p = some w ∧ (access ids w).map Prod.snd ≠ some .ID_LOCAL

/-- Somewhere code was wanted behind a dollar sign that has no name. -/
def Nameless (c : Compiler) : Prop := ∃ ids p, .codelookup ids p ∈ c.notes ∧ ¬Names ids p

/-- A digit of a prototype, that stands for the letters before it once more. -/
def isrep (fmt : UInt8) : Bool := chr '1' ≤ fmt && fmt ≤ chr '4'

/-- How many letters the loop over a prototype goes past, from a place on, before it comes to one that
takes an argument, to one that takes all there are, or to the end. -/
def passed (args : Text) : Nat → Nat → Option Nat
  | 0, _ => none
  | fuel + 1, i =>
    match args[i]? with
    | none => some 0
    | some fmt =>
      if (wanted fmt).isSome ∨ fmt = chr 'C' ∨ fmt = chr 'V' then some 0
      else
        (passed args fuel (if isrep fmt then i - (fmt.toNat - 48) else i + 1)).map Nat.succ

/-- A prototype the loop over it comes to the end of: a digit has the letters it repeats, the loop
does not go in circles past no argument, and there are digits only where any number of values may be
passed. -/
structure Prototype (args : Text) : Prop where
  group : ∀ i < args.length, ∀ fmt ∈ args[i]?, isrep fmt → fmt.toNat - 48 ≤ i
  ends : ∀ i < args.length, (passed args (args.length + 1) i).isSome
  fixed : chr 'C' ∉ args → chr 'V' ∉ args → ∀ fmt ∈ args, ¬isrep fmt

instance (args : Text) : Decidable (Prototype args) :=
  decidable_of_iff
    ((∀ i < args.length, (args[i]?).all fun fmt => !isrep fmt || fmt.toNat - 48 ≤ i) ∧
      (∀ i < args.length, (passed args (args.length + 1) i).isSome) ∧
      (chr 'C' ∉ args → chr 'V' ∉ args → args.all fun fmt => !isrep fmt)) <| by
    have hgroup : ∀ i, ((args[i]?).all fun fmt => !isrep fmt || fmt.toNat - 48 ≤ i) = true ↔
        ∀ fmt ∈ args[i]?, isrep fmt → fmt.toNat - 48 ≤ i := by
      intro i
      cases args[i]? with
      | none => simp
      | some fmt => cases hrep : isrep fmt <;> simp [hrep]
    have hfixed : (args.all fun fmt => !isrep fmt) = true ↔ ∀ fmt ∈ args, ¬isrep fmt := by
      simp
    simp only [hgroup, hfixed]
    exact ⟨fun h => ⟨h.1, h.2.1, h.2.2⟩, fun h => ⟨h.group, h.ends, h.fixed⟩⟩

example : ∀ args ∈ ["", "ssss", "siiN", "rsse", "e1V", "ss2V", "C"].map word, Prototype args := by
  decide +kernel

/-- The prototypes of all commands are such. -/
def Registered (ids : List Ident) : Prop :=
  ∀ id ∈ ids, ∀ args, id.type = .ID_COMMAND args → Prototype args

/-- Nothing was noted that spoils the code; if it is to be strict, nothing that spoils the values. -/
def Clean (strict : Prop) (c : Compiler) : Prop :=
  .long ∉ c.notes ∧ (strict → .stray ∉ c.notes ∧ .crowded ∉ c.notes)

variable {strict : Prop} {c c' c'' : Compiler} {k k' m : Nat}

theorem Clean.anti (h : Clean strict c') (hnotes : c.notes <+: c'.notes) : Clean strict c :=
  ⟨fun hmem => h.1 (hnotes.subset hmem), fun hs =>
    ⟨fun hmem => (h.2 hs).1 (hnotes.subset hmem), fun hmem => (h.2 hs).2 (hnotes.subset hmem)⟩⟩

theorem Nameless.mono (h : Nameless c) (hnotes : c.notes <+: c'.notes) : Nameless c' := by
  obtain ⟨ids, p, hmem, hno⟩ := h
  exact ⟨ids, p, hnotes.subset hmem, hno⟩

/-- **What a function makes** of a state: code that takes `k` values to `m`. -/
structure Makes (strict : Prop) (c c' : Compiler) (k m : Nat) : Prop where
  idents : c.idents <+: c'.idents
  registered : Registered c.idents → Registered c'.idents
  notes : c.notes <+: c'.notes
  null : c.nulltext = true → c'.nulltext = true
  nameless : c'.nulltext = true → c.nulltext = true ∨ Nameless c'
  nulled : Nameless c' → Nameless c ∨ c'.nulltext = true
  code : ∃ l, c'.code = c.code ++ l ∧
    (Clean strict c' → ∀ ids, c'.idents <+: ids → Layout strict ids k l m)

namespace Makes

theorem refl (c : Compiler) (h : strict → k = m) : Makes strict c c k m :=
  ⟨List.prefix_rfl, id, List.prefix_rfl, id, .inl, .inl, [], by simp, fun _ _ _ => .nil h⟩

/-- **One function after the other**. -/
theorem trans (h : Makes strict c c' k k') (h' : Makes strict c' c'' k' m) :
    Makes strict c c'' k m where
  idents := h.idents.trans h'.idents
  registered := h'.registered ∘ h.registered
  notes := h.notes.trans h'.notes
  null := h'.null ∘ h.null
  nameless hn := by
    obtain hn' | hn' := h'.nameless hn
    · exact (h.nameless hn').imp_right fun hno => hno.mono h'.notes
    · exact .inr hn'
  nulled hn := by
    obtain hn' | hn' := h'.nulled hn
    · exact (h.nulled hn').imp_right h'.null
    · exact .inr hn'
  code := by
    obtain ⟨l, hl, hlayout⟩ := h.code
    obtain ⟨l', hl', hlayout'⟩ := h'.code
    refine ⟨l ++ l', by rw [hl', hl, List.append_assoc], fun hclean ids hids => ?_⟩
    exact (hlayout (hclean.anti h'.notes) ids (h'.idents.trans hids)).append
      (hlayout' hclean ids hids)

/-- Where something was noted that spoils the values, they need not be looked at. -/
theorem of_unclean {m' : Nat} (h : Makes False c c' k' m') (hnot : strict → ¬Clean strict c') (k m : Nat) :
    Makes strict c c' k m := by
  by_cases hs : strict
  · obtain ⟨l, hl, -⟩ := h.code
    exact ⟨h.idents, h.registered, h.notes, h.null, h.nameless, h.nulled, l, hl,
      fun hclean => absurd hclean (hnot hs)⟩
  · obtain rfl : strict = False := eq_false hs
    obtain ⟨l, hl, hlayout⟩ := h.code
    exact ⟨h.idents, h.registered, h.notes, h.null, h.nameless, h.nulled, l, hl,
      fun hclean ids hids => (hlayout hclean ids hids).recount id k m⟩

/-- A condition without which something was noted is none. -/
theorem of_clean {P : Prop} (h : Makes (strict ∧ P) c c' k m) (hP : strict → Clean strict c' → P) :
    Makes strict c c' k m := by
  by_cases hp : P
  · rwa [and_iff_left hp] at h
  · rw [eq_false fun hs => hp (And.right hs)] at h
    exact h.of_unclean (fun hs hclean => hp (hP hs hclean)) k m

end Makes

/-! ## Single steps -/

theorem nameless_note {e : Note} (he : ∀ ids p, e = .codelookup ids p → Names ids p) :
    Nameless (c.note e) ↔ Nameless c := by
  constructor
  · rintro ⟨ids, p, hmem, hno⟩
    obtain hmem | hmem := List.mem_append.mp hmem
    · exact ⟨ids, p, hmem, hno⟩
    · exact absurd (he ids p (List.mem_singleton.mp hmem).symm) hno
  · exact fun h => h.mono (List.prefix_append _ _)

theorem Makes.note (c : Compiler) {e : Note} (he : ∀ ids p, e = .codelookup ids p → Names ids p)
    (h : strict → k = m) : Makes strict c (c.note e) k m where
  idents := List.prefix_rfl
  registered := id
  notes := List.prefix_append _ _
  null := id
  nameless := .inl
  nulled hn := .inl ((nameless_note he).mp hn)
  code := ⟨[], by simp [Compiler.note], fun _ _ _ => .nil h⟩

/-- A lookup of nothing is noted, and later a null pointer was taken for a text. -/
theorem Makes.of_note {e : Note} (h : Makes strict (c.note e) c' k m) (hnull : c'.nulltext = true) :
    Makes strict c c' k m where
  idents := h.idents
  registered := h.registered
  notes := (List.prefix_append _ _).trans h.notes
  null _ := hnull
  nameless := h.nameless
  nulled _ := .inr hnull
  code := h.code

theorem Makes.noteif (c : Compiler) (b : Bool) {e : Note}
    (he : ∀ ids p, e = .codelookup ids p → Names ids p) (h : strict → k = m) :
    Makes strict c (c.noteif b e) k m := by
  unfold Compiler.noteif
  split
  · exact .note c he h
  · exact .refl c h

section Noteif

variable (c : Compiler) (b : Bool) (e : Note)

@[simp] theorem code_noteif : (c.noteif b e).code = c.code := by cases b <;> rfl

@[simp] theorem idents_noteif : (c.noteif b e).idents = c.idents := by cases b <;> rfl

@[simp] theorem nulltext_noteif : (c.noteif b e).nulltext = c.nulltext := by cases b <;> rfl

theorem notes_noteif : c.notes <+: (c.noteif b e).notes := by
  cases b
  · exact List.prefix_rfl
  · exact List.prefix_append _ _

theorem nameless_noteif {e : Note} (he : ∀ ids p, e = .codelookup ids p → Names ids p) :
    Nameless (c.noteif b e) ↔ Nameless c := by
  cases b
  · exact Iff.rfl
  · exact nameless_note he

end Noteif

/-- Words are added, and nothing else happens. -/
theorem Makes.append {l : List Nat}
    (h : Clean strict c → ∀ ids, c.idents <+: ids → Layout strict ids k l m) :
    Makes strict c { c with code := c.code ++ l } k m :=
  ⟨List.prefix_rfl, id, List.prefix_rfl, id, .inl, .inl, l, rfl, h⟩

/-- An instruction. -/
theorem Makes.add {op : Opcode} {ret : Ret} (hop : op.plain ret) (c : Compiler) (arg : Int) (k : Nat)
    (harg : strict → Clean strict c → ∀ ids, c.idents <+: ids →
      Fits ids op (arg % 2 ^ 24).toNat k) :
    Makes strict c (c.add (inst op ret arg)) k (op.leaves (arg % 2 ^ 24).toNat k) :=
  .append fun hclean ids hids =>
    .plain hop (fun hs => harg hs hclean ids hids) (.nil fun _ => rfl)

/-- A null pointer is taken for a text, where a name was missing. -/
theorem Makes.nulltext (c : Compiler) (hno : Nameless c) (h : strict → k = m) :
    Makes strict c { c with nulltext := true } k m where
  idents := List.prefix_rfl
  registered := id
  notes := List.prefix_rfl
  null _ := rfl
  nameless _ := .inr hno
  nulled _ := .inr rfl
  code := ⟨[], by simp, fun _ _ _ => .nil h⟩

theorem not_long_noteif {n : Nat} (h : Clean strict (c.noteif (2 ^ 24 ≤ n) .long)) :
    n < 2 ^ 24 := by
  by_contra hn
  apply h.1
  rw [Compiler.noteif, if_pos (by simpa using hn)]
  exact List.mem_append_right _ (List.mem_singleton_self _)

/-- An instruction about a number. -/
theorem Makes.emit {op : Opcode} {ret : Ret} (hop : op.plain ret) (c : Compiler) (arg k : Nat)
    (harg : strict → Clean strict c → ∀ ids, c.idents <+: ids → Fits ids op arg k) :
    Makes strict c (c.emit op ret arg) k (op.leaves arg k) := by
  have hnote : Makes strict c (c.noteif (2 ^ 24 ≤ arg) .long) k k :=
    .noteif c _ (by simp) fun _ => rfl
  refine hnote.trans (.append fun hclean ids hids => ?_)
  have hlt : arg < 2 ^ 24 := not_long_noteif hclean
  have harg' : ((arg : Int) % 2 ^ 24).toNat = arg := by omega
  refine .plain hop ?_ ?_
  · rw [harg']
    exact fun hs => harg hs (hclean.anti hnote.notes) ids (hnote.idents.trans hids)
  · rw [harg']
    exact .nil fun _ => rfl

/-- A text behind its length is a value more. -/
theorem Makes.addtext {op : Opcode} {ret : Ret}
    (hop : op = .MACRO ∧ ret = .RET_NULL ∨ op = .VAL ∧ ret = .RET_STR) (c : Compiler)
    (text : Text) (hroom : strict → k ≤ MAXARGS) :
    Makes strict c (c.addtext op ret text) k (k + 1) := by
  have hnote : Makes strict c (c.noteif (2 ^ 24 ≤ text.length) .long) k k :=
    .noteif c _ (by simp) fun _ => rfl
  have happend : Makes strict (c.noteif (2 ^ 24 ≤ text.length) .long)
      { c.noteif (2 ^ 24 ≤ text.length) .long with
        code := (c.noteif (2 ^ 24 ≤ text.length) .long).code ++
          (inst op ret text.length :: (pack text ++ [])) } k (k + 1) :=
    .append fun hclean ids _ => .text hop (not_long_noteif hclean) (length_pack text) hroom
      (.nil fun _ => rfl)
  have heq : c.addtext op ret text = { c.noteif (2 ^ 24 ≤ text.length) .long with
      code := (c.noteif (2 ^ 24 ≤ text.length) .long).code ++
        (inst op ret text.length :: (pack text ++ [])) } := by
    simp [Compiler.addtext, Compiler.emit, Compiler.add]
  rw [heq]
  exact hnote.trans happend

/-! ## Values -/

section Values

variable (c : Compiler) (hroom : strict → k ≤ MAXARGS)
include hroom

theorem fits_push {op : Opcode} (hop : op.pushes) (ids : List Ident) (arg : Nat) (hs : strict) :
    Fits ids op arg k where
  takes := by cases op <;> simp_all [Opcode.pushes, Opcode.takes]
  room := by simp [hop, hroom hs]
  exact h := by simp [h, Opcode.pushes] at hop

theorem Makes.push {op : Opcode} {ret : Ret} (hop : op.pushes) (hplain : op.plain ret) (arg : Nat) :
    Makes strict c (c.emit op ret arg) k (k + 1) := by
  have hleaves : op.leaves arg k = k + 1 := by
    cases op <;> simp_all [Opcode.pushes, Opcode.leaves]
  rw [← hleaves]
  exact .emit hplain c arg k fun hs _ ids _ => fits_push hroom hop ids arg hs

/-- A value that stands in the instruction. -/
theorem Makes.vali (ret : Ret) (arg : Int) :
    Makes strict c (c.add (inst .VALI ret arg)) k (k + 1) :=
  .add rfl c arg k fun hs _ ids _ => fits_push hroom rfl ids _ hs

/-- A value that stands behind the instruction. -/
theorem Makes.number {ret : Ret} (hret : ret = .RET_INT ∨ ret = .RET_FLOAT) (x : Nat) :
    Makes strict c ((c.add (inst .VAL ret 0)).add x) k (k + 1) := by
  have happend : Makes strict c { c with code := c.code ++ [inst .VAL ret 0, x] } k (k + 1) :=
    .append fun _ _ _ => .number hret hroom (.nil fun _ => rfl)
  have heq : (c.add (inst .VAL ret 0)).add x = { c with code := c.code ++ [inst .VAL ret 0, x] } := by
    simp [Compiler.add]
  rw [heq]
  exact happend

theorem Makes.compilestr (text : Text) (mac : Bool) :
    Makes strict c (c.compilestr text mac) k (k + 1) := by
  unfold Compiler.compilestr
  split
  · exact .vali c hroom _ _
  · split
    · exact .addtext (.inl ⟨rfl, rfl⟩) c text hroom
    · exact .addtext (.inr ⟨rfl, rfl⟩) c text hroom

theorem Makes.compileint (i : Int) : Makes strict c (c.compileint i) k (k + 1) := by
  unfold Compiler.compileint
  split
  · exact .vali c hroom _ _
  · exact .number c hroom (.inl rfl) _

theorem Makes.compilefloat {F : Type} (fl : Floats F) (f : F) :
    Makes strict c (c.compilefloat fl f) k (k + 1) := by
  unfold Compiler.compilefloat
  split
  · exact .vali c hroom _ _
  · exact .number c hroom (.inr rfl) _

theorem Makes.compilenull : Makes strict c c.compilenull k (k + 1) := .vali c hroom _ _

theorem Makes.compileident (id : Nat) : Makes strict c (c.compileident id) k (k + 1) := by
  unfold Compiler.compileident
  split
  · exact .push c hroom rfl rfl _
  · exact .push c hroom rfl rfl _

end Values

/-! ## Brackets -/

/-- **Code between its brackets** is a value. -/
theorem Makes.enter {ret : Ret} (h : Makes strict (c.add (inst .ENTER .RET_NULL 0)) c' 0 m)
    (hend : strict → m ≤ MAXARGS + 1) (hroom : strict → k ≤ MAXARGS) :
    Makes strict c (c'.add (inst .EXIT ret 0)) k (k + 1) where
  idents := h.idents
  registered := h.registered
  notes := h.notes
  null := h.null
  nameless := h.nameless
  nulled := h.nulled
  code := by
    obtain ⟨l, hl, hlayout⟩ := h.code
    refine ⟨inst .ENTER .RET_NULL 0 :: (l ++ inst .EXIT ret 0 :: []), ?_, fun hclean ids hids => ?_⟩
    · simp [Compiler.add, hl]
    · exact .enter (hlayout hclean ids hids) hend hroom (.nil fun _ => rfl)

theorem code_openblock (c : Compiler) : c.openblock.code = c.code ++
    [inst .BLOCK .RET_NULL 0, inst .OFFSET .RET_NULL (c.code.length + 2 : Nat)] := by
  simp [Compiler.openblock, Compiler.emit, Compiler.add]

theorem idents_openblock (c : Compiler) : c.openblock.idents = c.idents := idents_noteif _ _ _

theorem nulltext_openblock (c : Compiler) : c.openblock.nulltext = c.nulltext :=
  nulltext_noteif _ _ _

theorem nulltext_closeblock (c : Compiler) (start : Nat) :
    (c.closeblock start).nulltext = c.nulltext := nulltext_noteif _ _ _

/-- **A block** is a value; its length leads behind its `EXIT`. -/
theorem Makes.block {ret : Ret} (h : Makes strict c.openblock c' 0 0)
    (hroom : strict → k ≤ MAXARGS) :
    Makes strict c ((c'.add (inst .EXIT ret 0)).closeblock c.code.length) k (k + 1) := by
  obtain ⟨l, hl, hlayout⟩ := h.code
  rw [code_openblock] at hl
  have hlen : (c'.add (inst .EXIT ret 0)).code.length - (c.code.length + 1) = l.length + 2 := by
    simp only [Compiler.add, hl, List.length_append, List.length_cons, List.length_nil]
    omega
  have hopen : Nameless c.openblock ↔ Nameless c := nameless_noteif _ _ (by simp)
  have hclose : Nameless ((c'.add (inst .EXIT ret 0)).closeblock c.code.length) ↔ Nameless c' :=
    nameless_noteif _ _ (by simp)
  have hnull : ((c'.add (inst .EXIT ret 0)).closeblock c.code.length).nulltext = c'.nulltext :=
    nulltext_closeblock _ _
  have hnull' : c.openblock.nulltext = c.nulltext := nulltext_openblock c
  have hidents : ((c'.add (inst .EXIT ret 0)).closeblock c.code.length).idents = c'.idents :=
    idents_noteif _ _ _
  have hnotes : c'.notes <+: ((c'.add (inst .EXIT ret 0)).closeblock c.code.length).notes :=
    notes_noteif (c'.add (inst .EXIT ret 0)) _ _
  have hidents' : c.openblock.idents = c.idents := idents_openblock c
  have hnotes' : c.notes <+: c.openblock.notes :=
    notes_noteif (c.add (inst .BLOCK .RET_NULL 0)) _ _
  refine ⟨?_, ?_, hnotes'.trans (h.notes.trans hnotes), ?_, ?_, ?_, ?_⟩
  · rw [hidents, ← hidents']
    exact h.idents
  · rw [hidents, ← hidents']
    exact h.registered
  · rw [hnull]
    exact fun hn => h.null (hnull'.trans hn)
  · rw [hnull, hclose, ← hnull']
    exact h.nameless
  · rw [hnull, hclose, ← hopen]
    exact h.nulled
  · refine ⟨inst .BLOCK .RET_NULL (l.length + 2 : Nat) ::
      inst .OFFSET .RET_NULL (c.code.length + 2 : Nat) :: (l ++ inst .EXIT ret 0 :: []), ?_, ?_⟩
    · simp only [Compiler.closeblock, hlen]
      simp [Compiler.add, hl, List.set_append_right]
    · intro hclean ids hids
      have hfit : l.length + 2 < 2 ^ 24 := by
        rw [← hlen]
        exact not_long_noteif hclean
      exact .block (hlayout (hclean.anti hnotes) ids (hidents ▸ hids)) (fun _ => Nat.zero_le _) hfit
        hroom (.nil fun _ => rfl)

theorem Makes.emptyblock (c : Compiler) (hroom : strict → k ≤ MAXARGS) :
    Makes strict c c.emptyblock k (k + 1) :=
  .block (.refl c.openblock fun _ => rfl) hroom

/-! ## Identifiers -/

theorem access_type {ids : List Ident} {name : Text} {id : Nat} {type : Idtype}
    (h : access ids name = some (id, type)) : (ids[id]?).map Ident.type = some type := by
  unfold access at h
  cases hi : ids.findIdx? fun id => id.name = name with
  | none => simp [hi] at h
  | some i =>
    cases hid : ids[i]? with
    | none => simp [hi, hid] at h
    | some ident =>
      obtain ⟨rfl, rfl⟩ : i = id ∧ ident.type = type := by simpa [hi, hid] using h
      rw [hid]
      rfl

theorem Commanded.mono {ids ids' : List Ident} {id : Nat} {args : Text}
    (h : Commanded ids id args) (hids : ids <+: ids') : Commanded ids' id args := by
  obtain ⟨l, rfl⟩ := hids
  obtain ⟨ident, hid, htype⟩ := Option.map_eq_some_iff.mp h
  have hlt : id < ids.length := (List.getElem?_eq_some_iff.mp hid).1
  rw [Commanded, List.getElem?_append_left hlt]
  exact h

theorem Makes.newident (c : Compiler) (name : Text) (h : strict → k = m) :
    Makes strict c (c.newident name).1 k m := by
  unfold Compiler.newident
  split
  · exact .refl c h
  · split
    · exact .refl c h
    · refine ⟨List.prefix_append _ _, fun hreg ident hid args htype => ?_, List.prefix_rfl, id, .inl,
        .inl, [], by simp, fun _ _ _ => .nil h⟩
      obtain hid | hid := List.mem_append.mp hid
      · exact hreg ident hid args htype
      · rw [List.mem_singleton.mp hid] at htype
        cases htype

/-- Only an identifier that was there is something else than an alias. -/
theorem access_of_newident {name : Text} {id : Nat} {type : Idtype}
    (h : c.newident name = (c', id, type)) (htype : type ≠ .ID_ALIAS) :
    c' = c ∧ access c.idents name = some (id, type) := by
  unfold Compiler.newident at h
  split at h
  · next x hx =>
    obtain ⟨rfl, rfl⟩ := Prod.mk.inj h
    exact ⟨rfl, hx⟩
  · split at h
    · simp only [Prod.mk.injEq] at h
      exact absurd h.2.2.symm htype
    · simp only [Prod.mk.injEq] at h
      exact absurd h.2.2.symm htype

/-! ## Arguments that were not given -/

/-- A value where there may be no room for it, which is noted. -/
theorem Makes.crowded (h : ∀ strict : Prop, (strict → k ≤ MAXARGS) →
      Makes strict (c.noteif (MAXARGS < k) .crowded) c' k (k + 1)) :
    Makes strict c c' k (k + 1) ∧ (strict → Clean strict c' → k ≤ MAXARGS) := by
  by_cases hk : k ≤ MAXARGS
  · exact ⟨(Makes.noteif c _ (by simp) fun _ => rfl).trans (h strict fun _ => hk), fun _ _ => hk⟩
  · have hloose : Makes False (c.noteif (MAXARGS < k) .crowded) c' k (k + 1) := h False False.elim
    have hnot : strict → ¬Clean strict c' := by
      intro hs hclean
      apply (hclean.2 hs).2
      apply hloose.notes.subset
      rw [Compiler.noteif, if_pos (by simpa using hk)]
      exact List.mem_append_right _ (List.mem_singleton_self _)
    have hall : Makes False c c' k (k + 1) :=
      (Makes.noteif c _ (by simp) fun _ => rfl).trans hloose
    exact ⟨hall.of_unclean hnot k (k + 1), fun hs hclean => absurd hclean (hnot hs)⟩

section Defaults

variable {F : Type} (fl : Floats F)

theorem Makes.compiledefault (c : Compiler) (hroom : strict → k ≤ MAXARGS) (fmt : UInt8) :
    Makes strict c (compiledefault fl c fmt) k (k + 1) := by
  unfold Script.compiledefault
  repeat' split
  · exact .compilestr c hroom _ _
  · exact .compileint c hroom _
  · exact .compileint c hroom _
  · exact .compilefloat c hroom _ _
  · exact .compilenull c hroom
  · exact .emptyblock c hroom
  · exact .compileident c hroom _

/-- What the loop over a prototype leaves: so many values, and the instruction for them. -/
structure Called (strict : Prop) (c c' : Compiler) (args : Text) (comtype : Opcode) (k m : Nat) :
    Prop where
  makes : Makes strict c c' k m
  kind : comtype = .COM ∨ comtype = .COMC ∨ comtype = .COMV
  room : strict → Clean strict c' → m ≤ MAXARGS + 1
  exact : comtype = .COM → m = k + arity args

variable (strict) in
theorem lookupargs_spec (id : Nat) (args : Text) : ∀ (c : Compiler) (k : Nat),
    (strict → Clean strict c → k ≤ MAXARGS + 1) →
      ∃ m, Called strict c (lookupargs fl id args c k).1 args (lookupargs fl id args c k).2 k m := by
  induction args with
  | nil => exact fun c k hk => ⟨k, .refl c fun _ => rfl, .inl rfl, hk, fun _ => rfl⟩
  | cons fmt args ih =>
    intro c k hk
    -- one value more, and the rest of the prototype
    have hpush {c' : Compiler} (harity : arity (fmt :: args) = arity args + 1)
        (h : ∀ strict : Prop, (strict → k ≤ MAXARGS) →
          Makes strict (c.noteif (MAXARGS < k) .crowded) c' k (k + 1)) :
        ∃ m, Called strict c (lookupargs fl id args c' (k + 1)).1 (fmt :: args)
          (lookupargs fl id args c' (k + 1)).2 k m := by
      obtain ⟨hmakes, hroom⟩ := Makes.crowded h
      obtain ⟨m, hrest⟩ := ih c' (k + 1) fun hs hclean => Nat.succ_le_succ (hroom hs hclean)
      refine ⟨m, hmakes.trans hrest.makes, hrest.kind, hrest.room, fun hcom => ?_⟩
      rw [hrest.exact hcom, harity]
      omega
    unfold lookupargs
    simp only
    split
    · next hwanted =>
      exact hpush (by simp [arity, hwanted]) fun _ hroom => .compiledefault fl _ hroom fmt
    · split
      · next hself =>
        exact hpush (by simp [arity, hself]) fun _ hroom => .compileident _ hroom id
      · split
        · next hnum => exact hpush (by simp [arity, hnum]) fun _ hroom => .compileint _ hroom _
        · split
          · exact ⟨k, .refl c fun _ => rfl, .inr (.inl rfl), hk, nofun⟩
          · split
            · exact ⟨k, .refl c fun _ => rfl, .inr (.inr rfl), hk, nofun⟩
            · obtain ⟨m, hrest⟩ := ih c k hk
              refine ⟨m, hrest.makes, hrest.kind, hrest.room, fun hcom => ?_⟩
              have harity : arity (fmt :: args) = arity args :=
                List.countP_cons_of_neg (by simp_all)
              rw [hrest.exact hcom, harity]

end Defaults

/-! ## Specifications -/

/-- The types an argument may be wanted with. -/
def Valtype.wantable : Valtype → Bool
  | .VAL_NULL | .VAL_MACRO => false
  | _ => true

/-- What `compilearg` leaves: a value, if there was an argument. -/
structure Argument (strict : Prop) (c : Compiler) (p : Text) (k : Nat)
    (x : Compiler × Text × Bool) : Prop where
  rest : x.2.1 <:+ p
  less : x.2.2 = true → x.2.1.length < p.length
  same : x.2.2 = false → x.1 = c
  makes : Makes strict c x.1 k (if x.2.2 then k + 1 else k)

/-- What `compileword` leaves: a value, or a word. -/
structure Worded (strict : Prop) (c : Compiler) (p : Text) (k : Nat)
    (x : Compiler × Text × Bool × Option Text) : Prop where
  rest : x.2.1 <:+ p
  less : x.2.2.1 = true → x.2.1.length < p.length
  same : x.2.2.1 = false → x.1 = c
  makes : Makes strict c x.1 k (if x.2.2.1 ∧ x.2.2.2 = none then k + 1 else k)
  word : ∀ w, x.2.2.2 = some w → x.2.2.1 = true ∧ w.length ≤ p.length
  bracket : p.head? = some (chr '(') ∨ p.head? = some (chr '[') → x.2.2.1 = true ∧ x.2.2.2 = none

/-- What `compilelookup` leaves: a value. -/
structure Lookedup (strict : Prop) (c : Compiler) (p : Text) (k : Nat) (x : Compiler × Text) :
    Prop where
  rest : x.2 <:+ p
  less : x.2.length < p.length
  makes : Makes strict c x.1 k (k + 1)

/-- What the functions do on texts that are shorter than `n`. -/
structure RecSpec (n : Nat) (r : Rec) : Prop where
  statements : ∀ (strict : Prop) (c : Compiler) (p : Text) (brak : Option UInt8), p.length < n →
    Registered c.idents → Yields (r.statements c p brak) fun x => x.2 <:+ p ∧ Makes strict c x.1 0 0
  word : ∀ (strict : Prop) (c : Compiler) (p : Text) (t : Valtype) (k : Nat), p.length < n →
    Registered c.idents → t.wantable → (strict → k ≤ MAXARGS) →
    Yields (r.word c p t) (Worded strict c p k)
  lookup : ∀ (strict : Prop) (c : Compiler) (p : Text) (t : Valtype) (k : Nat), p.length < n →
    Registered c.idents → t.wantable → (strict → k ≤ MAXARGS) → p ≠ [] →
    Yields (r.lookup c p t) (Lookedup strict c p k)
  arg : ∀ (strict : Prop) (c : Compiler) (p : Text) (t : Valtype) (k : Nat), p.length < n →
    Registered c.idents → t.wantable → t ≠ .VAL_CODE → (strict → k ≤ MAXARGS) →
    Yields (r.arg c p t) (Argument strict c p k)

section Functions

variable {F : Type} {fl : Floats F} {r : Rec} {n : Nat}

theorem compileval_spec (hr : RecSpec n r) (c : Compiler) (t : Valtype) (word : Option Text)
    (hreg : Registered c.idents) (ht : t.wantable) (hroom : strict → k ≤ MAXARGS)
    (hword : ∀ w, word = some w → t = .VAL_CODE → w.length < n) (hn : t = .VAL_CODE → 0 < n)
    (hnull : word = none → t = .VAL_CODE → Nameless c) :
    Yields (compileval fl r c t word) fun c' => Makes strict c c' k (k + 1) ∧
      (word = none → t = .VAL_CODE → c'.nulltext = true) := by
  cases t with
  | VAL_STR => exact .pure ⟨.compilestr c hroom _ _, nofun⟩
  | VAL_ANY => exact .pure ⟨.compilestr c hroom _ _, nofun⟩
  | VAL_FLOAT => exact .pure ⟨.compilefloat c hroom _ _, nofun⟩
  | VAL_INT => exact .pure ⟨.compileint c hroom _, nofun⟩
  | VAL_NULL => cases ht
  | VAL_MACRO => cases ht
  | VAL_IDENT =>
    cases word with
    | none => exact .pure ⟨.compileident c hroom _, nofun⟩
    | some word =>
      have hname : Makes strict c (c.newident word).1 k k := .newident c word fun _ => rfl
      exact .pure ⟨hname.trans (.compileident _ hroom _), nofun⟩
  | VAL_CODE =>
    cases word with
    | none =>
      have hnulled : Makes strict c { c with nulltext := true } k k :=
        .nulltext c (hnull rfl rfl) fun _ => rfl
      have hopen : Registered ({ c with nulltext := true } : Compiler).openblock.idents := by
        rwa [idents_openblock]
      refine (hr.statements strict _ [] none (hn rfl) hopen).bind fun x hx => .pure ⟨?_, fun _ _ => ?_⟩
      · exact hnulled.trans (.block hx.2 hroom)
      · rw [nulltext_closeblock]
        exact hx.2.null (nulltext_openblock _)
    | some word =>
      have hopen : Registered c.openblock.idents := by rwa [idents_openblock]
      exact (hr.statements strict c.openblock word none (hword word rfl rfl) hopen).bind
        fun x hx => .pure ⟨.block hx.2 hroom, nofun⟩

theorem Fits.of {ids : List Ident} {op : Opcode} {arg : Nat} (htakes : op.takes arg ≤ k)
    (hroom : k ≤ MAXARGS + 1)
    (hop : op.pushes = false ∧ op ≠ .CALL ∧ op ≠ .LOCAL ∧ op ≠ .COM := by decide) :
    Fits ids op arg k := by
  obtain ⟨hpush, hcall, hlocal, hcom⟩ := hop
  exact ⟨htakes, by simpa [hpush, hcall, hlocal] using hroom, fun h => absurd h hcom⟩

theorem lookupdone_makes (c : Compiler) (t : Valtype) (hroom : strict → k ≤ MAXARGS) :
    Makes strict c (lookupdone c t) (k + 1) (k + 1) := by
  have hone : (1 : Nat) ≤ k + 1 := Nat.le_add_left 1 k
  cases t with
  | VAL_CODE =>
    exact .add rfl c 0 (k + 1) fun hs _ _ _ => .of hone (Nat.succ_le_succ (hroom hs))
  | VAL_IDENT =>
    exact .add rfl c 0 (k + 1) fun hs _ _ _ => .of hone (Nat.succ_le_succ (hroom hs))
  | _ => exact .refl c fun _ => rfl

/-- `CODE_LOOKUPU` puts one value in place of another. -/
theorem lookupu_makes (c : Compiler) (ret : Ret) (hroom : strict → k ≤ MAXARGS) :
    Makes strict c (c.add (inst .LOOKUPU ret 0)) (k + 1) (k + 1) :=
  .add rfl c 0 (k + 1) fun hs _ _ _ =>
    .of (Nat.le_add_left 1 k) (Nat.succ_le_succ (hroom hs))

/-- The instruction that calls a command with its values. -/
theorem called_makes {args : Text} {comtype : Opcode} {id : Nat} {ret : Ret}
    (h : Called strict c c' args comtype 0 m) (hcom : Commanded c.idents id args) :
    Makes strict c' (c'.emit comtype ret id) m 0 := by
  have hplain : comtype.plain ret := by
    obtain h | h | h := h.kind <;> rw [h] <;> rfl
  have hleaves : comtype.leaves id m = 0 := by
    obtain h | h | h := h.kind <;> rw [h] <;> rfl
  have htakes : comtype.takes id = 0 := by
    obtain h | h | h := h.kind <;> rw [h] <;> rfl
  have hpush : comtype.pushes = false ∧ comtype ≠ .CALL ∧ comtype ≠ .LOCAL := by
    obtain h | h | h := h.kind <;> rw [h] <;> decide
  rw [← hleaves]
  refine .emit hplain c' id m fun hs hclean ids hids => ⟨?_, ?_, fun heq => ⟨args, ?_, ?_⟩⟩
  · rw [htakes]
    exact Nat.zero_le m
  · simpa [hpush] using h.room hs hclean
  · exact hcom.mono (h.makes.idents.trans hids)
  · rw [h.exact heq, Nat.zero_add]

theorem lookupid_makes (c : Compiler) (t : Valtype) (lookup : Text) (hroom : strict → k ≤ MAXARGS)
    {c' : Compiler} (h : lookupid fl c t lookup = some c') : Makes strict c c' k (k + 1) := by
  have hname : Makes strict c (c.newident lookup).1 k k := .newident c lookup fun _ => rfl
  unfold lookupid at h
  split at h
  · next c₁ id _ hx =>
    obtain rfl := Option.some.inj h
    rw [hx] at hname
    exact hname.trans (.push c₁ hroom rfl rfl _)
  · next c₁ id hx =>
    obtain rfl := Option.some.inj h
    rw [hx] at hname
    exact hname.trans (.push c₁ hroom rfl rfl _)
  · next c₁ id hx =>
    obtain rfl := Option.some.inj h
    rw [hx] at hname
    exact hname.trans (.push c₁ hroom rfl rfl _)
  · next c₁ id hx =>
    obtain rfl := Option.some.inj h
    rw [hx] at hname
    split
    · exact hname.trans (.push c₁ hroom rfl rfl _)
    · exact hname.trans (.push c₁ hroom rfl rfl _)
  · next c₁ id args hx =>
    obtain ⟨rfl, haccess⟩ := access_of_newident hx nofun
    obtain rfl := Option.some.inj h
    obtain ⟨m, hcalled⟩ := lookupargs_spec strict fl id args
      (c₁.add (inst .ENTER .RET_NULL 0)) 0 fun _ _ => Nat.zero_le _
    exact .enter (hcalled.makes.trans (called_makes hcalled (access_type haccess)))
      (fun _ => Nat.zero_le _) hroom
  · cases h

theorem lookupid_eq_none {c : Compiler} {t : Valtype} {lookup : Text} :
    lookupid fl c t lookup = none ↔ (access c.idents lookup).map Prod.snd = some .ID_LOCAL := by
  unfold lookupid Compiler.newident
  cases haccess : access c.idents lookup with
  | none => by_cases hnum : checknumber lookup <;> simp [hnum]
  | some x =>
    obtain ⟨id, type⟩ := x
    cases type <;> simp

/-- The name of a keyword names nothing. -/
theorem newident_of_local {lookup : Text}
    (h : (access c.idents lookup).map Prod.snd = some .ID_LOCAL) : (c.newident lookup).1 = c := by
  unfold Compiler.newident
  cases haccess : access c.idents lookup with
  | none => simp [haccess] at h
  | some x => rfl

theorem lookupinvalid_spec (hr : RecSpec n r) (c : Compiler) (t : Valtype)
    (hreg : Registered c.idents) (ht : t.wantable) (hroom : strict → k ≤ MAXARGS) (hn : 0 < n)
    (hnull : t = .VAL_CODE → Nameless c) :
    Yields (lookupinvalid fl r c t) fun c' => Makes strict c c' k (k + 1) ∧
      (t = .VAL_CODE → c'.nulltext = true) := by
  have hval : Yields (compileval fl r c t none) _ :=
    compileval_spec hr c t none hreg ht hroom nofun (fun _ => hn) fun _ => hnull
  unfold lookupinvalid
  split
  · cases ht
  · exact .pure ⟨.compilenull c hroom, nofun⟩
  · exact hval.imp fun c' h => ⟨h.1, h.2 rfl⟩

/-- What a lookup leaves; where code was wanted and nothing is named, a null pointer was taken. -/
structure Behind (strict : Prop) (c : Compiler) (p : Text) (t : Valtype) (k : Nat)
    (x : Compiler × Text) : Prop where
  rest : x.2 <:+ p
  makes : Makes strict c x.1 k (k + 1)
  nulled : t = .VAL_CODE → ¬Names c.idents p → x.1.nulltext = true

/-- Names are not looked up behind brackets and dollar signs. -/
def Bare (p : Text) : Prop :=
  ¬(p.head? = some (chr '(') ∨ p.head? = some (chr '[')) ∧ p.head? ≠ some (chr '$')

theorem names_of_bare {ids : List Ident} {p : Text} (h : Bare p) : Names ids p ↔
    ∃ w, lookupname p = some w ∧ (access ids w).map Prod.snd ≠ some .ID_LOCAL := by
  obtain ⟨hbracket, hdollar⟩ := h
  rw [not_or] at hbracket
  simp [Names, hbracket.1, hbracket.2, hdollar]

theorem lookupnamed_spec (hr : RecSpec n r) (c : Compiler) (t : Valtype) (p q lookup : Text)
    (hreg : Registered c.idents) (ht : t.wantable) (hroom : strict → k ≤ MAXARGS) (hn : 0 < n)
    (hq : q <:+ p) (hbare : Bare p) (hlookup : lookupname p = some lookup)
    (hnull : t = .VAL_CODE → ¬Names c.idents p → Nameless c) :
    Yields (lookupnamed fl r c q t lookup) (Behind strict c p t k) := by
  rw [names_of_bare hbare] at hnull
  unfold lookupnamed
  cases hid : lookupid fl c t lookup with
  | some c' =>
    have hmakes := lookupid_makes c t lookup hroom hid
    refine .pure ⟨hq, hmakes.trans (lookupdone_makes c' t hroom), fun _ hno => ?_⟩
    rw [names_of_bare hbare] at hno
    exact absurd ⟨lookup, hlookup, fun hlocal => by simp [lookupid_eq_none.mpr hlocal] at hid⟩ hno
  | none =>
    have hlocal := lookupid_eq_none.mp hid
    rw [newident_of_local hlocal]
    have hno : ¬∃ w, lookupname p = some w ∧ (access c.idents w).map Prod.snd ≠ some .ID_LOCAL := by
      rintro ⟨w, hw, htype⟩
      rw [hlookup] at hw
      obtain rfl := Option.some.inj hw
      exact htype hlocal
    exact (lookupinvalid_spec hr c t hreg ht hroom hn fun h => hnull h hno).bind
      fun c' h => .pure ⟨hq, h.1, fun hcode _ => h.2 hcode⟩

theorem lookupbehind_spec (hr : RecSpec n r) (c : Compiler) (p : Text) (t : Valtype)
    (hlen : p.length < n) (hreg : Registered c.idents) (ht : t.wantable)
    (hroom : strict → k ≤ MAXARGS)
    (hnull : t = .VAL_CODE → ¬Names c.idents p → Nameless c) :
    Yields (lookupbehind fl r c p t) (Behind strict c p t k) := by
  have hn : 0 < n := Nat.zero_lt_of_lt hlen
  unfold lookupbehind
  split
  · next hbracket =>
    have hnames : Names c.idents p := hbracket.imp_right .inl
    refine (hr.word strict c p .VAL_STR k hlen hreg rfl hroom).bind ?_
    rintro ⟨c', q, more, w⟩ hword
    obtain ⟨rfl, rfl⟩ : more = true ∧ w = none := hword.bracket hbracket
    have hmakes : Makes strict c c' k (k + 1) := hword.makes
    exact .pure ⟨hword.rest, (hmakes.trans (lookupu_makes c' _ hroom)).trans
      (lookupdone_makes _ t hroom), fun _ hno => absurd hnames hno⟩
  · next hbracket =>
    split
    · next hdollar =>
      have hnames : Names c.idents p := .inr (.inr (.inl hdollar))
      have hp : p ≠ [] := by
        rintro rfl
        cases hdollar
      refine (hr.lookup strict c p .VAL_STR k hlen hreg rfl hroom hp).bind ?_
      intro x hx
      exact .pure ⟨hx.rest, (hx.makes.trans (lookupu_makes _ _ hroom)).trans
        (lookupdone_makes _ t hroom), fun _ hno => absurd hnames hno⟩
    · next hdollar =>
      have hbare : Bare p := ⟨hbracket, hdollar⟩
      split
      · next hquote =>
        have hp : p ≠ [] := by
          rintro rfl
          cases hquote
        exact lookupnamed_spec hr c t p _ _ hreg ht hroom hn (cutstring_spec hp).1 hbare
          (if_pos hquote) hnull
      · next hquote =>
        have hname : lookupname p = (cutword p).1 := if_neg hquote
        obtain ⟨hrest, hcut⟩ := cutword_spec p
        cases hword : cutword p with
        | mk w q =>
          rw [hword] at hname hrest
          cases w with
          | none =>
            have hno : ¬Names c.idents p := by
              rw [names_of_bare hbare, hname]
              rintro ⟨w, hw, -⟩
              cases hw
            exact (lookupinvalid_spec hr c t hreg ht hroom hn fun h => hnull h hno).bind
              fun c' h => .pure ⟨hrest, h.1, fun hcode _ => h.2 hcode⟩
          | some w => exact lookupnamed_spec hr c t p q w hreg ht hroom hn hrest hbare hname hnull

/-- **A lookup** behind its dollar sign, with what is noted of it. -/
theorem compilelookup_spec (hr : RecSpec n r) (strict : Prop) (c : Compiler) (p : Text)
    (t : Valtype) (k : Nat) (hlen : p.length < n + 1) (hreg : Registered c.idents)
    (ht : t.wantable) (hroom : strict → k ≤ MAXARGS) (hp : p ≠ []) :
    Yields (compilelookup fl r c p t) (Lookedup strict c p k) := by
  obtain ⟨d, q, rfl⟩ := List.exists_cons_of_ne_nil hp
  have hq : q.length < n := by simpa using hlen
  unfold compilelookup
  rw [List.tail_cons]
  have hless : ∀ x : Text, x <:+ q → x <:+ d :: q ∧ x.length < (d :: q).length := fun x hx =>
    ⟨hx.trans (List.suffix_cons d q), Nat.lt_succ_of_le hx.length_le⟩
  by_cases hcode : t = .VAL_CODE
  · subst hcode
    have hnote : c.noteif (decide (Valtype.VAL_CODE = .VAL_CODE)) (.codelookup c.idents q) =
        c.note (.codelookup c.idents q) := by simp [Compiler.noteif]
    rw [hnote]
    by_cases hnames : Names c.idents q
    · refine (lookupbehind_spec hr (c.note _) q .VAL_CODE hq hreg ht hroom
        fun _ hno => absurd hnames hno).imp fun x hx => ?_
      have hmakes : Makes strict c (c.note (.codelookup c.idents q)) k k := by
        refine .note c (fun ids p he => ?_) fun _ => rfl
        obtain ⟨rfl, rfl⟩ := Note.codelookup.inj he
        exact hnames
      exact ⟨(hless _ hx.rest).1, (hless _ hx.rest).2, hmakes.trans hx.makes⟩
    · have hno : Nameless (c.note (.codelookup c.idents q)) :=
        ⟨c.idents, q, List.mem_append_right _ (List.mem_singleton_self _), hnames⟩
      refine (lookupbehind_spec hr (c.note _) q .VAL_CODE hq hreg ht hroom
        fun _ _ => hno).imp fun x hx => ?_
      exact ⟨(hless _ hx.rest).1, (hless _ hx.rest).2, hx.makes.of_note (hx.nulled rfl hnames)⟩
  · have hsame : c.noteif (decide (t = .VAL_CODE)) (.codelookup c.idents q) = c := by
      simp [Compiler.noteif, hcode]
    rw [hsame]
    refine (lookupbehind_spec hr c q t hq hreg ht hroom fun h => absurd h hcode).imp fun x hx => ?_
    exact ⟨(hless _ hx.rest).1, (hless _ hx.rest).2, hx.makes⟩

end Functions

end Script

end QServ
