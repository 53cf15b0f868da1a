import QServ.Lib.Keyed
import QServ.Lib.Run
import QServ.Script.Variables

/-!
# Overrides

The variables and aliases of `engine/command.cpp` in a run of assignments, arguments, `resetvar` and
`clearoverrides`.

* `Vars.next`: what happens to them.
* `Sound`: the names differ, the numbers are in their ranges and every text has one owner.
* `Goes`: what one event does; what is overridden afterwards was so before, or has just been saved.
* `variables_exact`: ranges, what is overridden and comes back, and the owners, in every run.
-/

namespace QServ

namespace Script

namespace Variables

open Custody Loop

variable {F : Type}

/-! ## The variables -/

/-- The identifiers by their names, and the texts. -/
structure Vars (F : Type) where
  idents : List (Ident F)
  heap : Heap Text

/-- What happens to variables and aliases: `overriding` is the flag that the running alias has,
`used` that the running call has the argument. -/
inductive VarEvent (F : Type) where
  | setvar (overriding : Bool) (name : Text) (i : Int)
  | setfvar (overriding : Bool) (name : Text) (f : F)
  | setsvar (overriding : Bool) (name str : Text)
  | setvarchecked (overriding : Bool) (name : Text) (val : Int)
  | setfvarchecked (overriding : Bool) (name : Text) (val : F)
  | setsvarchecked (overriding : Bool) (name val : Text)
  | resetvar (name : Text)
  | clearoverrides
  | setalias (overriding used : Bool) (name : Text) (v : Option Text)
  | pusharg (name : Text) (v : Option Text)
  | poparg (name : Text)

/-- A variable is assigned: whether the running alias is overriding, and the name. -/
def VarEvent.assigns {F : Type} : VarEvent F → Option (Bool × Text)
  | .setvar overriding name _ => some (overriding, name)
  | .setfvar overriding name _ => some (overriding, name)
  | .setsvar overriding name _ => some (overriding, name)
  | .setvarchecked overriding name _ => some (overriding, name)
  | .setfvarchecked overriding name _ => some (overriding, name)
  | .setsvarchecked overriding name _ => some (overriding, name)
  | _ => none

/-- A script assigns or resets what has this name. -/
def VarEvent.scripted {F : Type} : VarEvent F → Option Text
  | .setvarchecked _ name _ => some name
  | .setfvarchecked _ name _ => some name
  | .setsvarchecked _ name _ => some name
  | .resetvar name => some name
  | .setalias _ _ name _ => some name
  | _ => none

namespace Vars

open Variables.Ident

variable [LT F] [DecidableLT F] (s : Vars F)

/-- `idents.access(name)`. -/
def access (name : Text) : Option (Ident F) := Keyed.lookup Ident.name name s.idents

/-- An operation on the identifier of a name, if there is one. -/
def within (name : Text) (op : Op F) : Option (Vars F) :=
  match s.access name with
  | none => some s
  | some id => do
    let (id, heap) ← op id s.heap
    some { idents := Keyed.modify Ident.name name (fun _ => id) s.idents, heap }

/-- `enumerate(idents, ident, i, clearoverride(i));`, from an identifier on. -/
def clearall : List (Ident F) → Heap Text → Option (List (Ident F) × Heap Text)
  | [], h => some ([], h)
  | id :: ids, h => do
    let (id, h) ← Ident.clearoverride id h
    let (ids, h) ← clearall ids h
    some (id :: ids, h)

/-- `clearoverrides()`. -/
def clearoverrides : Option (Vars F) := do
  let (idents, heap) ← clearall s.idents s.heap
  some { idents, heap }

/-- A value of an alias; a text is allocated. -/
def newval (v : Option Text) : Option Nat × Vars F :=
  match v with
  | none => (none, s)
  | some str =>
    let (p, heap) := alloc str s.heap
    (some p, { s with heap })

/-- `setalias(name, v)`. -/
def setalias (overriding used : Bool) (name : Text) (v : Option Text) : Option (Vars F) :=
  let (val, s) := s.newval v
  match s.access name with
  | some _ => s.within name (Ident.setalias overriding used val)
  | none =>
    if checknumber name then (freeval val s.heap).map fun heap => { s with heap }
    else
      some { s with idents := s.idents ++
        [{ name, overridden := overriding, content := .aliasval false val [] }] }

/-- A value is pushed on an alias. -/
def pusharg (name : Text) (v : Option Text) : Option (Vars F) :=
  match s.access name with
  | none => some s
  | some _ =>
    let (val, s) := s.newval v
    s.within name (Ident.pusharg val)

/-- One event. -/
def next : VarEvent F → Option (Vars F)
  | .setvar overriding name i => s.within name (Ident.setvar overriding i)
  | .setfvar overriding name f => s.within name (Ident.setfvar overriding f)
  | .setsvar overriding name str => s.within name (Ident.setsvar overriding str)
  | .setvarchecked overriding name val => s.within name (Ident.setvarchecked overriding val)
  | .setfvarchecked overriding name val => s.within name (Ident.setfvarchecked overriding val)
  | .setsvarchecked overriding name val => s.within name (Ident.setsvarchecked overriding val)
  | .resetvar name => s.within name Ident.resetvar
  | .clearoverrides => s.clearoverrides
  | .setalias overriding used name v => s.setalias overriding used name v
  | .pusharg name v => s.pusharg name v
  | .poparg name => s.within name Ident.poparg

/-- One event; a text that is freed twice is a fault. -/
def step (s : Vars F) (e : VarEvent F) : Except Unit (Vars F) :=
  match s.next e with
  | none => .error ()
  | some t => .ok t

end Vars

/-! ## What an event does -/

namespace Vars

open Variables.Ident

/-- The texts that the identifiers have. -/
def owned (s : Vars F) : List Nat := s.idents.flatMap Ident.owned

/-- The names differ, each identifier is as it should be, and the texts are those of the identifiers
and some that are on their way. -/
structure Sound (extra : List Nat) (s : Vars F) : Prop where
  nodup : (s.idents.map Ident.name).Nodup
  fine : ∀ id ∈ s.idents, id.Fine
  owned : Owned s.heap (extra ++ s.owned)

/-- **What one event does.** -/
structure Goes (s t : Vars F) : Prop where
  sound : t.Sound []
  declared : s.idents.map Ident.declared <+: t.idents.map Ident.declared
  saves : ∀ id' ∈ t.idents, id'.overridden = true → ∀ w, id'.saved t.heap = some w →
    ∃ id ∈ s.idents, id.name = id'.name ∧
      (id.overridden = true ∧ id.saved s.heap = some w ∨
        id.overridden = false ∧ id.value s.heap = some w)

variable {s t : Vars F} {name : Text} {id : Ident F} {extra : List Nat}

theorem name_declared (id : Ident F) : id.declared.1 = id.name := by
  unfold declared
  split <;> rfl

theorem Goes.refl (hs : s.Sound []) : Goes s s where
  sound := hs
  declared := List.prefix_refl _
  saves id hid hover _ hw := ⟨id, hid, rfl, .inl ⟨hover, hw⟩⟩

theorem Sound.access_of_mem (hs : s.Sound extra) (hid : id ∈ s.idents) :
    s.access id.name = some id := Keyed.lookup_of_mem hs.nodup hid

theorem names_eq {ids ids' : List (Ident F)}
    (h : ids'.map Ident.declared = ids.map Ident.declared) :
    ids'.map Ident.name = ids.map Ident.name := by
  have hfst := congrArg (List.map Prod.fst) h
  simp only [List.map_map] at hfst
  have hname : (Prod.fst ∘ Ident.declared : Ident F → Text) = Ident.name := funext name_declared
  rwa [hname] at hfst

/-- The texts of one identifier, and those of the others. -/
theorem owned_middle (id : Ident F) (l₁ l₂ : List (Ident F)) :
    ((l₁ ++ id :: l₂).flatMap Ident.owned).Perm
      (id.owned ++ (l₁ ++ l₂).flatMap Ident.owned) := by
  have hmiddle : (l₁ ++ id :: l₂).Perm (id :: (l₁ ++ l₂)) := List.perm_middle
  simpa only [List.flatMap_cons] using hmiddle.flatMap_right Ident.owned

/-- Where an operation puts what becomes of the identifier. -/
theorem within_split (hs : s.Sound extra) (hacc : s.access name = some id) :
    ∃ l₁ l₂, s.idents = l₁ ++ id :: l₂ ∧ ∀ (op : Op F) id' h', op id s.heap = some (id', h') →
      s.within name op = some ⟨l₁ ++ id' :: l₂, h'⟩ := by
  obtain ⟨l₁, l₂, hsplit, hother⟩ := Keyed.lookup_split hs.nodup hacc
  refine ⟨l₁, l₂, hsplit, fun op id' h' hrun => ?_⟩
  have hmodify : Keyed.modify Ident.name name (fun _ => id') s.idents = l₁ ++ id' :: l₂ := by
    rw [hsplit]
    exact Keyed.modify_split (Keyed.lookup_mem hacc).2 hother
  rw [within, hacc]
  change (op id s.heap >>= _) = _
  rw [hrun, ← hmodify]
  rfl

/-- **An operation on one identifier**; the others have their texts. -/
theorem within_goes {op : Op F} (hs : s.Sound extra) (hacc : s.access name = some id)
    (hop : ∀ rest, Owned s.heap (extra ++ (id.owned ++ rest)) →
      Yields (op id s.heap) (Keeps id s.heap rest)) : Yields (s.within name op) (Goes s) := by
  obtain ⟨l₁, l₂, hsplit, hwithin⟩ := within_split hs hacc
  have hmem := (Keyed.lookup_mem hacc).1
  have howned : (extra ++ s.owned).Perm
      (extra ++ (id.owned ++ (l₁ ++ l₂).flatMap Ident.owned)) := by
    rw [owned, hsplit]
    exact (owned_middle id l₁ l₂).append_left extra
  obtain ⟨⟨id', h'⟩, hrun, hkeeps⟩ := hop _ (hs.owned.perm howned)
  obtain ⟨hdecl, hfine, hown, hcells, hsaves⟩ := hkeeps
  have hdecls : (l₁ ++ id' :: l₂).map Ident.declared = s.idents.map Ident.declared := by
    rw [hsplit, List.map_append, List.map_append, List.map_cons, List.map_cons, hdecl]
  have hothers : ∀ d ∈ l₁ ++ l₂, d ∈ s.idents := by
    intro d hd
    rw [hsplit]
    exact List.mem_append.mpr ((List.mem_append.mp hd).imp_right (.tail _))
  have hcase : ∀ d ∈ l₁ ++ id' :: l₂, d = id' ∨ d ∈ l₁ ++ l₂ := by
    intro d hd
    simp only [List.mem_append, List.mem_cons] at hd ⊢
    tauto
  refine ⟨⟨l₁ ++ id' :: l₂, h'⟩, hwithin op id' h' hrun, ⟨?_, fun d hd => ?_, ?_⟩, ?_,
    fun d hd hover w hw => ?_⟩
  · rw [names_eq hdecls]
    exact hs.nodup
  · obtain rfl | hd := hcase d hd
    · exact hfine (hs.fine id hmem)
    · exact hs.fine d (hothers d hd)
  · exact hown.perm (owned_middle id' l₁ l₂).symm
  · exact hdecls ▸ List.prefix_refl _
  · obtain rfl | hd := hcase d hd
    · refine ⟨id, hmem, ?_, ?_⟩
      · rw [← name_declared, ← name_declared, hdecl]
      · obtain ⟨hid, heq⟩ | ⟨hid, heq⟩ := hsaves hover
        · exact .inl ⟨hid, heq ▸ hw⟩
        · exact .inr ⟨hid, heq ▸ hw⟩
    · refine ⟨d, hothers d hd, rfl, .inl ⟨hover, ?_⟩⟩
      rw [← hw]
      exact (saved_congr hover fun p hp => hcells p (List.mem_flatMap.mpr ⟨d, hd, hp⟩)).symm

/-! ## All overrides -/

/-- An identifier whose override has been cleared. -/
structure Cleared (h h' : Heap Text) (id id' : Ident F) : Prop where
  declared : id'.declared = id.declared
  fine : id'.Fine
  overridden : id'.overridden = false
  value : id.overridden = true → ∀ w, id.saved h = some w → id'.value h' = some w

/-- **All overrides are cleared**, where the texts of the identifiers are as they were at first. -/
theorem clearall_spec {h₀ : Heap Text} : ∀ (ids : List (Ident F)) (h : Heap Text) (rest : List Nat),
    (∀ id ∈ ids, id.Fine) → (∀ p ∈ ids.flatMap Ident.owned, h.cells p = h₀.cells p) →
      Owned h (ids.flatMap Ident.owned ++ rest) →
        Yields (clearall ids h) fun r => List.Forall₂ (Cleared h₀ r.2) ids r.1 ∧
          Owned r.2 (r.1.flatMap Ident.owned ++ rest) ∧ ∀ p ∈ rest, r.2.cells p = h.cells p := by
  intro ids
  induction ids with
  | nil => exact fun h rest _ _ hown => .pure ⟨.nil, hown, fun _ _ => rfl⟩
  | cons id ids ih =>
    intro h rest hfine hsame hown
    rw [List.flatMap_cons, List.append_assoc] at hown
    rw [List.flatMap_cons] at hsame
    obtain ⟨hid, hids⟩ := List.forall_mem_cons.mp hfine
    refine (clearoverride_spec hown hid).bind fun ⟨id', h'⟩ ⟨hkeeps, hover, hvalue⟩ => ?_
    obtain ⟨hdecl, hfine', hown', hcells, -⟩ := hkeeps
    have hturn : Owned h' (ids.flatMap Ident.owned ++ (id'.owned ++ rest)) := by
      refine hown'.perm ?_
      rw [← List.append_assoc, ← List.append_assoc]
      exact List.perm_append_comm.append_right rest
    have hsame' : ∀ p ∈ ids.flatMap Ident.owned, h'.cells p = h₀.cells p := by
      intro p hp
      rw [hcells p (List.mem_append_left rest hp)]
      exact hsame p (List.mem_append_right _ hp)
    refine (ih h' (id'.owned ++ rest) hids hsame' hturn).bind
      fun ⟨ids', h''⟩ ⟨hall, hown'', hcells'⟩ => ?_
    refine .pure ⟨.cons ⟨hdecl, hfine' hid, hover, fun hover w hw => ?_⟩ hall, ?_, fun p hp => ?_⟩
    · have hsaved : id.saved h = some w := by
        rw [← hw]
        exact saved_congr hover fun p hp => hsame p (List.mem_append_left _ hp)
      rw [← hvalue hover w hsaved]
      exact value_congr fun p hp => hcells' p (List.mem_append_left _ hp)
    · refine hown''.perm ?_
      rw [List.flatMap_cons, ← List.append_assoc]
      exact List.perm_append_comm.append_right rest
    · rw [hcells' p (List.mem_append_right _ hp)]
      exact hcells p (List.mem_append_right _ hp)

theorem forall_cleared {h h' : Heap Text} {ids ids' : List (Ident F)}
    (hall : List.Forall₂ (Cleared h h') ids ids') :
    ids'.map Ident.declared = ids.map Ident.declared ∧
      ∀ id ∈ ids', id.Fine ∧ id.overridden = false := by
  induction hall with
  | nil => exact ⟨rfl, nofun⟩
  | cons hid _ ih =>
    refine ⟨?_, List.forall_mem_cons.mpr ⟨⟨hid.fine, hid.overridden⟩, ih.2⟩⟩
    rw [List.map_cons, List.map_cons, hid.declared, ih.1]

theorem exists_cleared {h h' : Heap Text} {ids ids' : List (Ident F)}
    (hall : List.Forall₂ (Cleared h h') ids ids') (hid : id ∈ ids) :
    ∃ id' ∈ ids', Cleared h h' id id' := by
  induction hall with
  | nil => cases hid
  | cons hhead _ ih =>
    obtain rfl | hid := List.mem_cons.mp hid
    · exact ⟨_, .head _, hhead⟩
    · obtain ⟨id', hid', hcleared⟩ := ih hid
      exact ⟨id', .tail _ hid', hcleared⟩

/-- **`clearoverrides()`.** -/
theorem clearoverrides_spec (hs : s.Sound []) : Yields s.clearoverrides fun t =>
    Goes s t ∧ List.Forall₂ (Cleared s.heap t.heap) s.idents t.idents := by
  have hown : Owned s.heap (s.owned ++ []) := by
    rw [List.append_nil]
    exact hs.owned
  refine (clearall_spec s.idents s.heap [] hs.fine (fun _ _ => rfl) hown).bind
    fun ⟨ids, h⟩ ⟨hall, hown, _⟩ => ?_
  obtain ⟨hdecl, hids⟩ := forall_cleared hall
  refine .pure ⟨⟨⟨?_, fun id hid => (hids id hid).1, ?_⟩, ?_, fun id hid hover => ?_⟩, hall⟩
  · rw [names_eq hdecl]
    exact hs.nodup
  · rw [List.append_nil] at hown
    exact hown
  · exact hdecl ▸ List.prefix_refl _
  · rw [(hids id hid).2] at hover
    cases hover

/-! ## Aliases -/

/-- A value of an alias is on its way. -/
theorem newval_spec (hs : s.Sound []) (v : Option Text) :
    (s.newval v).2.idents = s.idents ∧ (s.newval v).2.Sound (s.newval v).1.toList ∧
      ∀ p ∈ s.owned, (s.newval v).2.heap.cells p = s.heap.cells p := by
  cases v with
  | none => exact ⟨rfl, hs, fun _ _ => rfl⟩
  | some str =>
    exact ⟨rfl, ⟨hs.nodup, hs.fine, hs.owned.alloc str⟩, fun p hp => hs.owned.alloc_others hp⟩

/-- Texts on their way do not matter to the identifiers. -/
theorem Goes.of_same {u : Vars F} (hidents : u.idents = s.idents)
    (hcells : ∀ p ∈ s.owned, u.heap.cells p = s.heap.cells p) (h : Goes u t) : Goes s t := by
  refine ⟨h.sound, hidents ▸ h.declared, fun id' hid' hover w hw => ?_⟩
  obtain ⟨id, hid, hname, hcase⟩ := h.saves id' hid' hover w hw
  rw [hidents] at hid
  have hsame : ∀ p ∈ id.owned, u.heap.cells p = s.heap.cells p := fun p hp =>
    hcells p (List.mem_flatMap.mpr ⟨id, hid, hp⟩)
  obtain ⟨hover, heq⟩ | ⟨hover, heq⟩ := hcase
  · exact ⟨id, hid, hname, .inl ⟨hover, (saved_congr hover hsame).symm.trans heq⟩⟩
  · exact ⟨id, hid, hname, .inr ⟨hover, (value_congr hsame).symm.trans heq⟩⟩

/-- A new alias. -/
theorem goes_addident {val : Option Nat} (hs : s.Sound val.toList)
    (hacc : s.access name = none) (overriding : Bool) :
    Goes s { s with idents := s.idents ++
      [{ name, overridden := overriding, content := .aliasval false val [] }] } := by
  refine ⟨⟨?_, fun id hid => ?_, ?_⟩, ?_, fun id hid hover w hw => ?_⟩
  · have hfresh : name ∉ s.idents.map Ident.name := by
      intro hmem
      obtain ⟨id, hid, hname⟩ := List.mem_map.mp hmem
      exact Keyed.lookup_eq_none.mp hacc id hid hname
    rw [List.map_append]
    refine List.nodup_append.mpr ⟨hs.nodup, List.nodup_singleton _, ?_⟩
    intro a ha b hb heq
    obtain rfl : b = name := List.mem_singleton.mp hb
    exact hfresh (heq ▸ ha)
  · obtain hid | hid := List.mem_append.mp hid
    · exact hs.fine id hid
    · obtain rfl := List.mem_singleton.mp hid
      exact .of_not_var nofun nofun
  · refine hs.owned.perm ?_
    rw [owned, owned, List.flatMap_append, List.nil_append]
    have hone : List.flatMap Ident.owned
        [({ name, overridden := overriding, content := .aliasval false val [] } : Ident F)] =
          val.toList := by simp [Ident.owned]
    rw [hone]
    exact List.perm_append_comm
  · rw [List.map_append]
    exact List.prefix_append _ _
  · obtain hid | hid := List.mem_append.mp hid
    · exact ⟨id, hid, rfl, .inl ⟨hover, hw⟩⟩
    · obtain rfl := List.mem_singleton.mp hid
      cases hw

/-- **`setalias(name, v)`.** -/
theorem setalias_goes (hs : s.Sound []) (overriding used : Bool) (name : Text) (v : Option Text) :
    Yields (s.setalias overriding used name v) (Goes s) := by
  obtain ⟨hidents, hsound, hcells⟩ := newval_spec hs v
  unfold setalias
  generalize s.newval v = r at hidents hsound hcells
  obtain ⟨val, u⟩ := r
  dsimp only at hidents hsound hcells ⊢
  split
  · next hacc =>
    refine (within_goes hsound hacc fun rest hown => keeps_setalias overriding used hown).imp ?_
    exact fun t ht => ht.of_same hidents hcells
  · next hacc =>
    split
    · obtain ⟨h', hrun, hown', hothers⟩ := yields_freeval hsound.owned
      have hsound' : Sound [] ({ u with heap := h' } : Vars F) :=
        ⟨hsound.nodup, hsound.fine, hown'⟩
      have hsame : ∀ p ∈ s.owned, h'.cells p = s.heap.cells p := by
        intro p hp
        have hp' : p ∈ u.owned := by
          rw [owned, hidents]
          exact hp
        exact (hothers p hp').trans (hcells p hp)
      refine ⟨{ u with heap := h' }, ?_, ?_⟩
      · rw [hrun]
        rfl
      · exact .of_same (u := { u with heap := h' }) hidents hsame (.refl hsound')
    · exact .pure ((goes_addident hsound hacc overriding).of_same hidents hcells)

/-- A value is pushed. -/
theorem pusharg_goes (hs : s.Sound []) (name : Text) (v : Option Text) :
    Yields (s.pusharg name v) (Goes s) := by
  obtain ⟨hidents, hsound, hcells⟩ := newval_spec hs v
  unfold Vars.pusharg
  split
  · exact .pure (.refl hs)
  · next id hacc =>
    generalize s.newval v = r at hidents hsound hcells
    obtain ⟨val, u⟩ := r
    dsimp only at hidents hsound hcells ⊢
    have hacc' : u.access name = some id := by
      rw [access, hidents]
      exact hacc
    refine (within_goes hsound hacc' fun rest hown => keeps_pusharg hown).imp fun t ht => ?_
    exact ht.of_same hidents hcells

/-! ## Events -/

/-- An operation on one identifier, if there is one. -/
theorem within_any {op : Op F} (hs : s.Sound []) (hop : ∀ (id : Ident F) (rest : List Nat),
    Owned s.heap (id.owned ++ rest) → Yields (op id s.heap) (Keeps id s.heap rest)) :
    Yields (s.within name op) (Goes s) := by
  cases hacc : s.access name with
  | none =>
    refine ⟨s, ?_, .refl hs⟩
    rw [within, hacc]
  | some id => exact within_goes hs hacc (hop id)

theorem clamp_inrange (i : Int) (minval maxval : Int) (h : minval ≤ maxval) :
    minval ≤ clamp i minval maxval ∧ clamp i minval maxval ≤ maxval := by
  unfold clamp
  dsimp only
  split_ifs <;> omega

theorem clampvar_inrange (val : Int) (minval maxval : Int) (h : minval ≤ maxval) :
    minval ≤ clampvar val minval maxval ∧ clampvar val minval maxval ≤ maxval := by
  unfold clampvar
  split_ifs <;> omega

/-- **Every event goes on**, and nothing is freed twice. -/
theorem next_goes [LT F] [DecidableLT F] (hs : s.Sound []) (e : VarEvent F) :
    Yields (s.next e) (Goes s) := by
  cases e with
  | setvar overriding name i =>
    exact within_any hs fun id rest hown => keeps_assignint hown overriding (clamp_inrange i)
  | setfvar overriding name f =>
    exact within_any hs fun id rest hown => keeps_assignfloat hown overriding _
  | setsvar overriding name str =>
    exact within_any hs fun id rest hown => keeps_setsvar hown overriding str
  | setvarchecked overriding name val =>
    refine within_any hs fun id rest hown => ?_
    unfold setvarchecked
    split
    · exact .pure (.refl hown)
    · exact keeps_assignint hown overriding (clampvar_inrange val)
  | setfvarchecked overriding name val =>
    refine within_any hs fun id rest hown => ?_
    unfold setfvarchecked
    split
    · exact .pure (.refl hown)
    · exact keeps_assignfloat hown overriding _
  | setsvarchecked overriding name val =>
    refine within_any hs fun id rest hown => ?_
    unfold setsvarchecked
    split
    · exact .pure (.refl hown)
    · exact keeps_setsvar hown overriding val
  | resetvar name =>
    refine within_any hs fun id rest hown => ?_
    unfold Ident.resetvar
    split
    · exact .pure (.refl hown)
    · exact keeps_clearoverride hown
  | clearoverrides => exact (clearoverrides_spec hs).imp fun _ ht => ht.1
  | setalias overriding used name v => exact setalias_goes hs overriding used name v
  | pusharg name v => exact pusharg_goes hs name v
  | poparg name => exact within_any hs fun id rest hown => keeps_poparg hown

/-! ## What does not change, and what comes back -/

/-- No identifier changes, and no text of one. -/
def Same (s t : Vars F) : Prop :=
  t.idents = s.idents ∧ ∀ p ∈ s.owned, t.heap.cells p = s.heap.cells p

/-- A variable is not overridden, and has this value. -/
def Has (name : Text) (w : Value F) (s : Vars F) : Prop :=
  ∃ id, s.access name = some id ∧ id.overridden = false ∧ id.value s.heap = some w

/-- An operation that does nothing. -/
theorem within_same {op : Op F} (hs : s.Sound []) (hacc : s.access name = some id)
    (hrun : op id s.heap = some (id, s.heap)) : Yields (s.within name op) (Same s) := by
  obtain ⟨l₁, l₂, hsplit, hwithin⟩ := within_split hs hacc
  refine ⟨s, ?_, rfl, fun _ _ => rfl⟩
  rw [hwithin op id s.heap hrun, ← hsplit]

theorem overridevar_persist {overriding : Bool} (hp : id.persist = true)
    (hover : overriding = true ∨ id.override = true) : overridevar overriding id = .errorval := by
  rw [overridevar, if_pos hover, if_pos hp]

theorem assignint_errorval {overriding : Bool} {bounded : Int → Int → Int} {h : Heap Text}
    (ho : overridevar overriding id = .errorval) :
    assignint overriding bounded id h = some (id, h) := by
  unfold assignint
  split
  · exact if_pos ho
  · rfl

theorem assignfloat_errorval {overriding : Bool} {bounded : F → F → F} {h : Heap Text}
    (ho : overridevar overriding id = .errorval) :
    assignfloat overriding bounded id h = some (id, h) := by
  unfold assignfloat
  split
  · exact if_pos ho
  · rfl

theorem setsvar_errorval {overriding : Bool} {str : Text} {h : Heap Text}
    (ho : overridevar overriding id = .errorval) : setsvar overriding str id h = some (id, h) := by
  unfold setsvar
  split
  · rw [ho]
  · rfl

/-- **An overriding assignment** of what is persistent does nothing. -/
theorem next_persist [LT F] [DecidableLT F] (hs : s.Sound []) (hid : id ∈ s.idents)
    (hp : id.persist = true) {e : VarEvent F} {overriding : Bool}
    (he : e.assigns = some (overriding, id.name)) (hover : overriding = true ∨ id.override = true) :
    Yields (s.next e) (Same s) := by
  have ho := overridevar_persist hp hover
  have hacc := hs.access_of_mem hid
  cases e with
  | setvar | setfvar | setsvar =>
    obtain ⟨rfl, rfl⟩ := Prod.mk.inj (Option.some.inj he)
    refine within_same hs hacc ?_
    first
      | exact assignint_errorval ho
      | exact assignfloat_errorval ho
      | exact setsvar_errorval ho
  | setvarchecked | setfvarchecked | setsvarchecked =>
    obtain ⟨rfl, rfl⟩ := Prod.mk.inj (Option.some.inj he)
    refine within_same hs hacc ?_
    simp only [setvarchecked, setfvarchecked, setsvarchecked]
    split
    · rfl
    · first
        | exact assignint_errorval ho
        | exact assignfloat_errorval ho
        | exact setsvar_errorval ho
  | _ => cases he

/-- A variable is no alias. -/
theorem setalias_same (hs : s.Sound []) (hid : id ∈ s.idents) (hvar : id.isvar = true)
    (overriding used : Bool) (v : Option Text) :
    Yields (s.setalias overriding used id.name v) (Same s) := by
  obtain ⟨hidents, hsound, hcells⟩ := newval_spec hs v
  have hacc := hs.access_of_mem hid
  unfold setalias
  generalize s.newval v = r at hidents hsound hcells
  obtain ⟨val, u⟩ := r
  dsimp only at hidents hsound hcells ⊢
  have hacc' : u.access id.name = some id := by
    rw [access, hidents]
    exact hacc
  obtain ⟨l₁, l₂, hsplit, hwithin⟩ := within_split hsound hacc'
  obtain ⟨h', hrun, -, hothers⟩ := yields_freeval hsound.owned
  have hop : Ident.setalias overriding used val id u.heap = some (id, h') := by
    unfold Ident.setalias
    unfold isvar at hvar
    split
    · next hcontent =>
      rw [hcontent] at hvar
      cases hvar
    · rw [hrun]
      rfl
  refine ⟨⟨l₁ ++ id :: l₂, h'⟩, ?_, hsplit.symm.trans hidents, fun p hp => ?_⟩
  · rw [hacc']
    exact hwithin _ _ _ hop
  · have hp' : p ∈ u.owned := by
      rw [owned, hidents]
      exact hp
    exact (hothers p hp').trans (hcells p hp)

/-- **A script** does nothing to what is read-only. -/
theorem next_readonly [LT F] [DecidableLT F] (hs : s.Sound []) (hid : id ∈ s.idents)
    (hro : id.readonly = true) (hvar : id.isvar = true) {e : VarEvent F}
    (he : e.scripted = some id.name) : Yields (s.next e) (Same s) := by
  have hacc := hs.access_of_mem hid
  cases e with
  | setvarchecked | setfvarchecked | setsvarchecked | resetvar =>
    obtain rfl := Option.some.inj he
    exact within_same hs hacc (if_pos hro)
  | setalias overriding used name v =>
    obtain rfl := Option.some.inj he
    exact setalias_same hs hid hvar overriding used v
  | _ => cases he

/-- **`clearoverrides()` brings back** what was saved. -/
theorem clearoverrides_has (hs : s.Sound []) (hid : id ∈ s.idents) (hover : id.overridden = true)
    {w : Value F} (hw : id.saved s.heap = some w) : Yields s.clearoverrides (Has id.name w) := by
  refine (clearoverrides_spec hs).imp fun t ⟨hgoes, hall⟩ => ?_
  obtain ⟨id', hid', hcleared⟩ := exists_cleared hall hid
  have hname : id'.name = id.name := by
    rw [← name_declared, ← name_declared, hcleared.declared]
  exact ⟨id', hname ▸ hgoes.sound.access_of_mem hid', hcleared.overridden,
    hcleared.value hover w hw⟩

/-- **`resetvar` brings back** what was saved. -/
theorem resetvar_has (hs : s.Sound []) (hid : id ∈ s.idents) (hro : id.readonly = false)
    (hover : id.overridden = true) {w : Value F} (hw : id.saved s.heap = some w) :
    Yields (s.within id.name Ident.resetvar) (Has id.name w) := by
  have hacc := hs.access_of_mem hid
  obtain ⟨l₁, l₂, hsplit, hwithin⟩ := within_split hs hacc
  have hown : Owned s.heap (id.owned ++ (l₁ ++ l₂).flatMap Ident.owned) := by
    refine hs.owned.perm ?_
    rw [List.nil_append, owned, hsplit]
    exact owned_middle id l₁ l₂
  obtain ⟨⟨id', h'⟩, hrun, hkeeps, hover', hvalue⟩ := clearoverride_spec hown (hs.fine id hid)
  have hreset : Ident.resetvar id s.heap = some (id', h') := by
    rw [Ident.resetvar, if_neg (by simp [hro]), hrun]
  have hop : ∀ rest, Owned s.heap ([] ++ (id.owned ++ rest)) →
      Yields (Ident.resetvar id s.heap) (Keeps id s.heap rest) := by
    intro rest hown
    rw [Ident.resetvar, if_neg (by simp [hro])]
    exact keeps_clearoverride hown
  obtain ⟨t, ht, hgoes⟩ := within_goes hs hacc hop
  have heq := (hwithin _ _ _ hreset).symm.trans ht
  obtain rfl := Option.some.inj heq
  have hname : id'.name = id.name := by
    rw [← name_declared, ← name_declared]
    exact congrArg Prod.fst hkeeps.declared
  have hmem : id' ∈ l₁ ++ id' :: l₂ := List.mem_append_right _ (.head _)
  exact ⟨_, ht, id', hname ▸ hgoes.sound.access_of_mem hmem, hover', hvalue hover w hw⟩

theorem step_goes [LT F] [DecidableLT F] (hs : s.Sound []) (e : VarEvent F) :
    ∃ t, step s e = .ok t ∧ Goes s t := by
  obtain ⟨t, hnext, ht⟩ := next_goes hs e
  refine ⟨t, ?_, ht⟩
  rw [step, hnext]

end Vars

/-! ## Runs -/

open Run Vars

variable [LT F] [DecidableLT F] {s t : Vars F}

/-- The variable is overridden after these events. -/
def Marked (s : Vars F) (name : Text) (es : List (VarEvent F)) : Prop :=
  ∃ t id, exec Vars.step s es = .ok t ∧ t.access name = some id ∧ id.overridden = true

/-- The variable is not overridden after these events, and has this value. -/
def Had (s : Vars F) (name : Text) (w : Value F) (es : List (VarEvent F)) (_ : VarEvent F) : Prop :=
  ∃ t id, exec Vars.step s es = .ok t ∧ t.access name = some id ∧ id.overridden = false ∧
    id.value t.heap = some w

/-- No run ends in a fault. -/
theorem exec_sound (es : List (VarEvent F)) : ∀ {s : Vars F}, s.Sound [] →
    ∃ t, exec Vars.step s es = .ok t ∧ t.Sound [] := by
  induction es with
  | nil => exact fun {s} hs => ⟨s, rfl, hs⟩
  | cons e es ih =>
    intro s hs
    obtain ⟨u, hu, hgoes⟩ := step_goes hs e
    obtain ⟨t, ht, hsound⟩ := ih hgoes.sound
    refine ⟨t, ?_, hsound⟩
    change (Vars.step s e).bind _ = _
    rw [hu]
    exact ht

/-- **What holds after a run**: what is saved of a variable is what it had when it was overridden
first, and it has been overridden ever since. -/
structure Kept (s : Vars F) (es : List (VarEvent F)) (t : Vars F) : Prop where
  sound : t.Sound []
  declared : s.idents.map Ident.declared <+: t.idents.map Ident.declared
  saved : ∀ id ∈ t.idents, id.overridden = true → ∀ w, id.saved t.heap = some w →
    Since (Marked s id.name) (Had s id.name w) es

theorem exec_kept {es : List (VarEvent F)} (hs : s.Sound [])
    (hfresh : ∀ id ∈ s.idents, id.overridden = false) (hrun : exec Vars.step s es = .ok t) :
    Kept s es t := by
  refine exec_history (Kept s) ⟨hs, List.prefix_refl _, fun id hid hover => ?_⟩
    (fun es u e v hu hk hv => ?_) hrun
  · rw [hfresh id hid] at hover
    cases hover
  · obtain ⟨v', hv', hgoes⟩ := step_goes hk.sound e
    obtain rfl := Except.ok.inj (hv'.symm.trans hv)
    refine ⟨hgoes.sound, hk.declared.trans hgoes.declared, fun id hid hover w hw => ?_⟩
    have hmarked : Marked s id.name (es ++ [e]) := by
      refine ⟨v', id, ?_, hgoes.sound.access_of_mem hid, hover⟩
      rw [exec_snoc, hu]
      exact hv
    obtain ⟨d, hd, hname, ⟨hover', hsaved⟩ | ⟨hover', hvalue⟩⟩ := hgoes.saves id hid hover w hw
    · exact (hname ▸ hk.saved d hd hover' w hsaved).snoc hmarked
    · exact .now ⟨u, d, hu, hname ▸ hk.sound.access_of_mem hd, hover', hvalue⟩ hmarked

omit [LT F] [DecidableLT F] in
theorem saved_isSome {s : Vars F} {id : Ident F} (hs : s.Sound []) (hid : id ∈ s.idents)
    (hvar : id.isvar = true) (hover : id.overridden = true) : ∃ w, id.saved s.heap = some w := by
  cases hcontent : id.content with
  | var minval maxval fn slot =>
    refine ⟨.int slot.overrideval, ?_⟩
    rw [Ident.saved, hcontent]
  | fvar minvalf maxvalf slot =>
    refine ⟨.float slot.overrideval, ?_⟩
    rw [Ident.saved, hcontent]
  | svar slot =>
    have hmem : slot.overrideval ∈ s.owned := by
      refine List.mem_flatMap.mpr ⟨id, hid, ?_⟩
      rw [Ident.owned, hcontent, hover]
      exact .tail _ (.head _)
    obtain ⟨str, hstr⟩ := Option.isSome_iff_exists.mp ((hs.owned.live _).mpr hmem)
    refine ⟨.text str, ?_⟩
    rw [Ident.saved, hcontent]
    dsimp only
    rw [hstr]
    rfl
  | aliasval arg val stack =>
    rw [Ident.isvar, hcontent] at hvar
    cases hvar
  | command =>
    rw [Ident.isvar, hcontent] at hvar
    cases hvar

/-- **The ranges** that were declared are kept. -/
theorem ranges_kept {es : List (VarEvent F)} (hk : Kept s es t) {name : Text} {minval maxval : Int}
    (hdecl : (name, some (minval, maxval, false)) ∈ s.idents.map Ident.declared) :
    ∃ id fn slot, t.access name = some id ∧ id.content = .var minval maxval fn slot ∧
      minval ≤ slot.storage ∧ slot.storage ≤ maxval := by
  obtain ⟨id, hid, heq⟩ := List.mem_map.mp (hk.declared.subset hdecl)
  unfold Ident.declared at heq
  split at heq
  · next fn slot hcontent =>
    simp only [Prod.mk.injEq, Option.some.injEq] at heq
    obtain ⟨rfl, rfl, rfl, hro⟩ := heq
    obtain ⟨hlo, hhi, -⟩ := (hk.sound.fine id hid).inrange _ _ _ _ hcontent hro
    exact ⟨id, fn, slot, hk.sound.access_of_mem hid, hcontent, hlo, hhi⟩
  · simp at heq

/-- **Variables in any run** of assignments, arguments, resets and clears, from some that are as
they should be and not overridden.  Integers that scripts can set stay in the ranges that were
declared; what is overridden has kept the value it had, which comes back with `clearoverrides()` and
`resetvar`; what is persistent is not overridden, and no script changes what is read-only; and the
texts that are there have one owner each. -/
theorem variables_exact (hs : s.Sound []) (hfresh : ∀ id ∈ s.idents, id.overridden = false)
    (es : List (VarEvent F)) : ∃ t, exec Vars.step s es = .ok t ∧
      (∀ name minval maxval, (name, some (minval, maxval, false)) ∈ s.idents.map Ident.declared →
        ∃ id fn slot, t.access name = some id ∧ id.content = .var minval maxval fn slot ∧
          minval ≤ slot.storage ∧ slot.storage ≤ maxval) ∧
      (∀ id ∈ t.idents, id.isvar = true → id.overridden = true → ∃ w, id.saved t.heap = some w ∧
        Since (Marked s id.name) (Had s id.name w) es ∧
        Yields (t.next .clearoverrides) (Has id.name w) ∧
        (id.readonly = false → Yields (t.next (.resetvar id.name)) (Has id.name w))) ∧
      (∀ id ∈ t.idents, ∀ (e : VarEvent F) overriding, id.persist = true →
        e.assigns = some (overriding, id.name) → overriding = true ∨ id.override = true →
          Yields (t.next e) (Same t)) ∧
      (∀ id ∈ t.idents, ∀ e : VarEvent F, id.readonly = true → id.isvar = true →
        e.scripted = some id.name → Yields (t.next e) (Same t)) ∧
      t.owned.Nodup ∧ ∀ p, (t.heap.cells p).isSome ↔ p ∈ t.owned := by
  obtain ⟨t, hrun, hsound⟩ := exec_sound es hs
  have hk := exec_kept hs hfresh hrun
  refine ⟨t, hrun, fun _ _ _ hdecl => ranges_kept hk hdecl, fun id hid hvar hover => ?_,
    fun id hid e overriding hp he hover => next_persist hsound hid hp he hover,
    fun id hid e hro hvar he => next_readonly hsound hid hro hvar he,
    hsound.owned.nodup, hsound.owned.live⟩
  obtain ⟨w, hw⟩ := saved_isSome hsound hid hvar hover
  exact ⟨w, hw, hk.saved id hid hover w hw, clearoverrides_has hsound hid hover hw,
    fun hro => resetvar_has hsound hid hro hover hw⟩

def maxclients : Text := [109]

def serverdesc : Text := [100]

/-- Two variables that scripts can override. -/
def served : Vars Int where
  idents := [
    { name := maxclients, override := true, content := .var 0 128 (.ordefault 8) ⟨8, 0⟩ },
    { name := serverdesc, override := true, content := .svar ⟨0, 0⟩ }]
  heap := ⟨fun p => if p = 0 then some [] else none, 1⟩

theorem served_sound : served.Sound [] where
  nodup := by decide +kernel
  fine := by
    intro id hid
    obtain rfl | hid := List.mem_cons.mp hid
    · refine ⟨?_, ?_, ?_, ?_, nofun⟩
      · rintro _ _ _ _ ⟨⟩ -
        exact ⟨by decide, by rintro _ ⟨⟩; decide⟩
      · rintro _ _ _ _ ⟨⟩ _ ⟨⟩
        decide
      · rintro _ _ _ _ ⟨⟩ -
        exact ⟨by decide, by decide, nofun⟩
      · rintro _ _ _ _ ⟨⟩
        exact ⟨rfl, nofun⟩
    · obtain rfl := List.mem_singleton.mp hid
      exact .of_not_var nofun nofun
  owned := by
    refine ⟨by decide +kernel, fun p => ?_, fun p hp => ?_⟩
    · change (if p = 0 then some [] else none : Option Text).isSome ↔ p ∈ [0]
      by_cases hp : p = 0 <;> simp [hp]
    · obtain rfl := List.mem_singleton.mp hp
      exact Nat.one_pos

/-- The clients are more than there can be, and are as many as before when overrides are cleared. -/
theorem variables_exact_clients : ∃ t, exec Vars.step served [.setvarchecked false maxclients 200,
    .setsvarchecked false serverdesc [113]] = .ok t ∧
      t.idents.map Ident.content = [.var 0 128 (.ordefault 8) ⟨128, 8⟩, .svar ⟨1, 0⟩] ∧
      Yields (t.next .clearoverrides) (Has maxclients (.int 8)) ∧ t.owned.Nodup := by
  obtain ⟨t, hrun, -, hmarked, -, -, hnodup, -⟩ := variables_exact served_sound (by decide)
    [.setvarchecked false maxclients 200, .setsvarchecked false serverdesc [113]]
  have hidents : (exec Vars.step served [.setvarchecked false maxclients 200,
      .setsvarchecked false serverdesc [113]]).toOption.map Vars.idents = some [
        { name := maxclients, override := true, overridden := true
          content := .var 0 128 (.ordefault 8) ⟨128, 8⟩ },
        { name := serverdesc, override := true, overridden := true
          content := .svar ⟨1, 0⟩ }] := by
    decide +kernel
  rw [hrun] at hidents
  have hids := Option.some.inj hidents
  refine ⟨t, hrun, ?_, ?_, hnodup⟩
  · rw [hids]
    rfl
  · obtain ⟨w, hw, -, hback, -⟩ := hmarked _ (hids ▸ List.mem_cons_self) rfl rfl
    obtain rfl := Option.some.inj hw
    exact hback

end Variables

end Script

end QServ
