import Mathlib.Data.List.InsertIdx
import Mathlib.Data.List.Nodup
import QServ.Lib.Run
import QServ.Server.State

/-!
# Recorded demos

The list `demos` of `fpsgame/server.cpp` with the buffers it owns.  An address stands for one
allocation: `new` never returns it again, so that a buffer released twice, or read after its
release, is seen as such.

* `Shelf`: what the list is for, the most recent recordings in order.
* `Demos.Sound`: every live buffer belongs to one entry, every released one to none.
* `demos_kept`: in every run in which no recording has to make room for another the list is
  sound and shows what the shelf holds; a step goes wrong exactly if it has to.
-/

namespace QServ

/-- `demofile`: the text a demo is listed under, its buffer and the length of it. -/
structure DemoFile where
  info : String
  data : Nat
  len : Nat
  deriving DecidableEq, Repr

/-- The demos of the server.  `heap` holds the live buffers, `next` the address of the next
one, `freed` the addresses that were released; `demotmp` is the file a recording goes to,
while `demorecord` tells whether one is under way. -/
structure Demos where
  demos : List DemoFile
  heap : Nat → Option (List UInt8)
  next : Nat
  freed : List Nat
  demorecord : Bool
  demotmp : Option (List UInt8)
  maxdemos : Nat
  maxdemosize : Nat

/-- What happens to the demos.  `write` brings the bytes a recorded packet adds to the file;
where a recording ends, `rest` is what the stream writes as it is closed and `info` the text
the demo is listed under. -/
inductive DemoEvent where
  | setupdemorecord
  | write (bytes rest : List UInt8) (info : String)
  | enddemorecord (rest : List UInt8) (info : String)
  | prunedemos (extra : Nat)
  | cleardemos (n : Int)
  | setmax (maxdemos maxdemosize : Nat)
  deriving DecidableEq, Repr

namespace Demos

variable (s : Demos)

/-- The demos with one buffer gone. -/
def release (p : Nat) : Demos :=
  { s with heap := fun q => if q = p then none else s.heap q, freed := s.freed ++ [p] }

/-- `delete[] p`. -/
def delete (p : Nat) : Except Fault Demos :=
  match s.heap p with
  | none => .error .useAfterFree
  | some _ => .ok (s.release p)

/-- `delete[] demos[n].data`. -/
def deleteAt (n : Nat) : Except Fault Demos :=
  match s.demos[n]? with
  | none => .error .outOfRange
  | some d => s.delete d.data

/-- `loopi(k) delete[] demos[n].data`: the index does not move. -/
def deleteLoop (n : Nat) : Nat → Demos → Except Fault Demos
  | 0, s => .ok s
  | k + 1, s => s.deleteAt n >>= deleteLoop n k

/-- `clamp(demos.length() + extra - maxdemos, 0, demos.length())`. -/
def excess (extra : Nat) : Nat := min (s.demos.length + extra - s.maxdemos) s.demos.length

/-- `prunedemos(extra)`. -/
def prunedemos (extra : Nat) : Except Fault Demos :=
  let n := s.excess extra
  if n = 0 then .ok s
  else do
    let s ← deleteLoop n n s
    .ok { s with demos := s.demos.drop n }

/-- The number of bytes of a recording that are kept. -/
def maxlen : Nat := s.maxdemosize * 2 ^ 20 + 0x10000

/-- `adddemo`: the recording becomes the last entry. -/
def adddemo (info : String) : Demos :=
  match s.demotmp with
  | none => s
  | some file =>
    let len := min file.length s.maxlen
    let bytes := file.take len
    { s with
      demos := s.demos ++ [{ info, data := s.next, len }],
      heap := fun q => if q = s.next then some bytes else s.heap q,
      next := s.next + 1, demotmp := none }

/-- `enddemorecord`. -/
def enddemorecord (rest : List UInt8) (info : String) : Except Fault Demos :=
  if !s.demorecord then .ok s
  else
    let s := { s with demorecord := false, demotmp := s.demotmp.map (· ++ rest) }
    if s.demotmp = none then .ok s
    else if s.maxdemos = 0 ∨ s.maxdemosize = 0 then .ok { s with demotmp := none }
    else do
      let s ← s.prunedemos 1
      .ok (s.adddemo info)

/-- `writedemo`: a recording that has become too long ends. -/
def writedemo (bytes rest : List UInt8) (info : String) : Except Fault Demos :=
  if !s.demorecord then .ok s
  else
    let s := { s with demotmp := s.demotmp.map (· ++ bytes) }
    if s.maxdemosize * 2 ^ 20 ≤ (s.demotmp.getD []).length then s.enddemorecord rest info
    else .ok s

/-- `loopv(demos) delete[] demos[i].data`. -/
def deleteAll : List DemoFile → Demos → Except Fault Demos
  | [], s => .ok s
  | d :: ds, s => s.delete d.data >>= deleteAll ds

/-- `cleardemos(n)`. -/
def cleardemos (n : Int) : Except Fault Demos :=
  if n = 0 then do
    let s ← deleteAll s.demos s
    .ok { s with demos := [] }
  else if 1 ≤ n ∧ n ≤ s.demos.length then do
    let s ← s.deleteAt (n - 1).toNat
    .ok { s with demos := s.demos.eraseIdx (n - 1).toNat }
  else .ok s

/-- `listdemos`: the texts, demo `n` being the `n`-th of them. -/
def listdemos : List String := s.demos.map DemoFile.info

/-- `senddemo(ci, num)` to a client that is not receiving one: the bytes sent, if any. -/
def senddemo (num : Int) : Except Fault (Option (List UInt8)) :=
  let num := if num = 0 then (s.demos.length : Int) else num
  if 1 ≤ num ∧ num ≤ s.demos.length then
    match s.demos[(num - 1).toNat]? with
    | none => .error .outOfRange
    | some d =>
      match s.heap d.data with
      | none => .error .useAfterFree
      | some bytes => .ok (some (bytes.take d.len))
  else .ok none

/-- One event. -/
def step (s : Demos) : DemoEvent → Except Fault Demos
  | .setupdemorecord => .ok { s with demorecord := true, demotmp := some [] }
  | .write bytes rest info => s.writedemo bytes rest info
  | .enddemorecord rest info => s.enddemorecord rest info
  | .prunedemos extra => s.prunedemos extra
  | .cleardemos n => s.cleardemos n
  | .setmax maxdemos maxdemosize => .ok { s with maxdemos, maxdemosize }

/-- The demos as the server starts up. -/
def initial : Demos where
  demos := []
  heap := fun _ => none
  next := 0
  freed := []
  demorecord := false
  demotmp := none
  maxdemos := 5
  maxdemosize := 16

/-! ## Ownership -/

/-- Every buffer that is live belongs to exactly one entry, every one that is not was
released exactly once. -/
structure Sound (s : Demos) : Prop where
  nodup : (s.demos.map DemoFile.data).Nodup
  live : ∀ d ∈ s.demos, ∃ bytes, s.heap d.data = some bytes ∧ bytes.length = d.len
  owned : ∀ p bytes, s.heap p = some bytes → ∃ d ∈ s.demos, d.data = p
  once : s.freed.Nodup
  freed : ∀ p, p ∈ s.freed ↔ p < s.next ∧ s.heap p = none
  fresh : ∀ p, s.next ≤ p → s.heap p = none

/-- The demos with the bytes in their buffers. -/
def contents : List (String × List UInt8) :=
  s.demos.map fun d => (d.info, (s.heap d.data).getD [])

variable {s}

theorem sound_initial : initial.Sound := by
  refine ⟨List.nodup_nil, ?_, ?_, List.nodup_nil, ?_, ?_⟩
  · intro d hd
    cases hd
  · intro p bytes hp
    cases hp
  · intro p
    simp [initial]
  · exact fun p _ => rfl

/-- Soundness is about the list, the heap and what was released. -/
theorem Sound.of_eq {t : Demos} (h : s.Sound) (hd : t.demos = s.demos) (hh : t.heap = s.heap)
    (hn : t.next = s.next) (hf : t.freed = s.freed) : t.Sound := by
  refine ⟨?_, ?_, ?_, ?_, ?_, ?_⟩
  · rw [hd]
    exact h.nodup
  · rw [hd, hh]
    exact h.live
  · rw [hd, hh]
    exact h.owned
  · rw [hf]
    exact h.once
  · rw [hf, hh, hn]
    exact h.freed
  · rw [hh, hn]
    exact h.fresh

theorem contents_of_eq {t : Demos} (hd : t.demos = s.demos) (hh : t.heap = s.heap) :
    t.contents = s.contents := by
  unfold contents
  rw [hd, hh]

/-- **Releasing the buffer of an entry** and taking the entry off the list. -/
theorem Sound.remove (h : s.Sound) {l m : List DemoFile} {d : DemoFile}
    (hs : s.demos = l ++ d :: m) : s.delete d.data = .ok (s.release d.data) ∧
      Sound { s.release d.data with demos := l ++ m } ∧
      ∀ e ∈ l ++ m, (s.release d.data).heap e.data = s.heap e.data := by
  have hmem : d ∈ s.demos := by
    rw [hs]
    exact List.mem_append_right l List.mem_cons_self
  obtain ⟨bytes, hd, -⟩ := h.live d hmem
  have hnd := h.nodup
  rw [hs, List.map_append, List.map_cons, List.nodup_middle, ← List.map_append] at hnd
  obtain ⟨hother, hnd⟩ := List.nodup_cons.mp hnd
  have hne : ∀ e ∈ l ++ m, e.data ≠ d.data := fun e he heq =>
    hother (heq ▸ List.mem_map_of_mem he)
  have hsub : ∀ e ∈ l ++ m, e ∈ s.demos := by
    intro e he
    rw [hs]
    exact (List.sublist_append_right [d] m).append_left l |>.subset he
  refine ⟨by rw [delete, hd], ?_, fun e he => if_neg (hne e he)⟩
  refine ⟨hnd, ?_, ?_, ?_, ?_, ?_⟩
  · intro e he
    obtain ⟨bs, hbs, hlen⟩ := h.live e (hsub e he)
    exact ⟨bs, (if_neg (hne e he)).trans hbs, hlen⟩
  · intro p bs hp
    simp only [release] at hp
    split at hp
    · cases hp
    · next hpd =>
      obtain ⟨e, he, rfl⟩ := h.owned p bs hp
      rw [hs] at he
      refine ⟨e, ?_, rfl⟩
      rcases List.mem_append.mp he with he | he
      · exact List.mem_append_left m he
      · rcases List.mem_cons.mp he with rfl | he
        · exact absurd rfl hpd
        · exact List.mem_append_right l he
  · refine List.nodup_append.mpr ⟨h.once, List.nodup_singleton _, ?_⟩
    intro p hp q hq heq
    rw [List.mem_singleton.mp hq] at heq
    rw [heq, h.freed, hd] at hp
    exact absurd hp.2 (Option.some_ne_none _)
  · intro p
    simp only [release, List.mem_append, List.mem_singleton, h.freed]
    constructor
    · rintro (⟨hlt, hnone⟩ | rfl)
      · exact ⟨hlt, by split <;> simp [hnone]⟩
      · refine ⟨?_, if_pos rfl⟩
        by_contra hge
        rw [h.fresh _ (not_lt.mp hge)] at hd
        cases hd
    · rintro ⟨hlt, hnone⟩
      by_cases hp : p = d.data
      · exact Or.inr hp
      · exact Or.inl ⟨hlt, by rwa [if_neg hp] at hnone⟩
  · intro p hp
    simp only [release]
    split
    · rfl
    · exact h.fresh p hp

/-- A new recording has a buffer of its own. -/
theorem Sound.adddemo (h : s.Sound) (info : String) : (s.adddemo info).Sound := by
  unfold Demos.adddemo
  split
  · exact h
  · next file _ =>
    have hfresh := h.fresh s.next (le_refl _)
    have hne : ∀ d ∈ s.demos, d.data ≠ s.next := by
      intro d hd heq
      obtain ⟨bytes, hb, -⟩ := h.live d hd
      rw [heq, hfresh] at hb
      cases hb
    refine ⟨?_, ?_, ?_, h.once, ?_, ?_⟩
    · simp only [List.map_append, List.map_cons, List.map_nil]
      refine List.nodup_append.mpr ⟨h.nodup, List.nodup_singleton _, ?_⟩
      intro p hp q hq
      obtain ⟨d, hd, rfl⟩ := List.mem_map.mp hp
      rw [List.mem_singleton.mp hq]
      exact hne d hd
    · intro d hd
      simp only at hd ⊢
      rcases List.mem_append.mp hd with hd | hd
      · rw [if_neg (hne d hd)]
        exact h.live d hd
      · rw [List.mem_singleton.mp hd]
        exact ⟨_, if_pos rfl, by simp⟩
    · intro p bytes hp
      simp only at hp ⊢
      by_cases hpn : p = s.next
      · exact ⟨_, List.mem_append_right _ List.mem_cons_self, hpn.symm⟩
      · rw [if_neg hpn] at hp
        obtain ⟨d, hd, hdp⟩ := h.owned p bytes hp
        exact ⟨d, List.mem_append_left _ hd, hdp⟩
    · intro p
      simp only [h.freed]
      constructor
      · rintro ⟨hlt, hnone⟩
        exact ⟨by omega, by rw [if_neg (by omega)]; exact hnone⟩
      · rintro ⟨hlt, hnone⟩
        by_cases hpn : p = s.next
        · rw [if_pos hpn] at hnone
          cases hnone
        · rw [if_neg hpn] at hnone
          exact ⟨by omega, hnone⟩
    · intro p hp
      simp only at hp ⊢
      rw [if_neg (by omega)]
      exact h.fresh p (by omega)

theorem contents_adddemo (h : s.Sound) (info : String) {file : List UInt8}
    (hf : s.demotmp = some file) :
    (s.adddemo info).contents = s.contents ++ [(info, file.take (min file.length s.maxlen))] := by
  have hne : ∀ d ∈ s.demos, d.data ≠ s.next := by
    intro d hd heq
    obtain ⟨bytes, hb, -⟩ := h.live d hd
    rw [heq, h.fresh s.next (le_refl _)] at hb
    cases hb
  unfold Demos.adddemo contents
  rw [hf]
  simp only [List.map_append, List.map_cons, List.map_nil, if_true, Option.getD_some]
  refine congrArg (· ++ _) (List.map_congr_left fun d hd => ?_)
  rw [if_neg (hne d hd)]

/-- All buffers released, one after the other. -/
theorem Sound.deleteAll (ds : List DemoFile) : ∀ {s : Demos}, Sound { s with demos := ds } →
    ∃ t, deleteAll ds s = .ok t ∧ Sound { t with demos := [] } ∧
      t.demorecord = s.demorecord ∧ t.demotmp = s.demotmp ∧ t.maxdemos = s.maxdemos ∧
      t.maxdemosize = s.maxdemosize := by
  induction ds with
  | nil => exact fun {s} h => ⟨s, rfl, h, rfl, rfl, rfl, rfl⟩
  | cons d ds ih =>
    intro s h
    obtain ⟨hdel, hrest, -⟩ := h.remove (l := []) rfl
    obtain ⟨u, hu, hsound, hfields⟩ := ih (s := s.release d.data) hrest
    refine ⟨u, ?_, hsound, hfields⟩
    have hdel : s.delete d.data = .ok (s.release d.data) := by
      unfold delete at hdel ⊢
      simp only at hdel
      split at hdel
      · cases hdel
      · rfl
    rw [Demos.deleteAll, hdel]
    exact hu

end Demos

/-! ## What the list is for -/

/-- The shelf: the recordings kept, the oldest first, and the one under way. -/
structure Shelf where
  kept : List (String × List UInt8)
  recording : Bool
  file : Option (List UInt8)
  maxdemos : Nat
  maxdemosize : Nat

namespace Shelf

variable (h : Shelf)

/-- Room for `extra` recordings: the oldest go. -/
def makeRoom (extra : Nat) : Shelf :=
  { h with kept := h.kept.drop (h.kept.length + extra - h.maxdemos) }

/-- A recording ends and is put after the others. -/
def stop (rest : List UInt8) (info : String) : Shelf :=
  if !h.recording then h
  else
    match h.file with
    | none => { h with recording := false }
    | some file =>
      let h := { h with recording := false, file := none }
      if h.maxdemos = 0 ∨ h.maxdemosize = 0 then h
      else
        let len := min (file ++ rest).length (h.maxdemosize * 2 ^ 20 + 0x10000)
        { h with kept := (h.makeRoom 1).kept ++ [(info, (file ++ rest).take len)] }

/-- What an event does to the shelf. -/
def step (h : Shelf) : DemoEvent → Shelf
  | .setupdemorecord => { h with recording := true, file := some [] }
  | .write bytes rest info =>
    if !h.recording then h
    else
      let h := { h with file := h.file.map (· ++ bytes) }
      if h.maxdemosize * 2 ^ 20 ≤ (h.file.getD []).length then h.stop rest info else h
  | .enddemorecord rest info => h.stop rest info
  | .prunedemos extra => h.makeRoom extra
  | .cleardemos n =>
    if n = 0 then { h with kept := [] }
    else if 1 ≤ n then { h with kept := h.kept.eraseIdx (n - 1).toNat }
    else h
  | .setmax maxdemos maxdemosize => { h with maxdemos, maxdemosize }

/-- The demo that is asked for by its number, the last one for zero. -/
def numbered (num : Int) : Option (List UInt8) :=
  let num := if num = 0 then (h.kept.length : Int) else num
  if 1 ≤ num then (h.kept[(num - 1).toNat]?).map Prod.snd else none

/-- The shelf after a sequence of events. -/
def run (h : Shelf) (es : List DemoEvent) : Shelf := es.foldl step h

end Shelf

/-- What the demos amount to. -/
def Demos.shelf (s : Demos) : Shelf where
  kept := s.contents
  recording := s.demorecord
  file := s.demotmp
  maxdemos := s.maxdemos
  maxdemosize := s.maxdemosize

namespace Demos

variable {s : Demos}

/-! ## The prunes an event runs -/

/-- The recording under way is one that will be kept. -/
def Stores (s : Demos) : Prop :=
  s.demorecord ∧ s.demotmp ≠ none ∧ s.maxdemos ≠ 0 ∧ s.maxdemosize ≠ 0

/-- The recording under way becomes too long with these bytes. -/
def Overlong (s : Demos) (bytes : List UInt8) : Prop :=
  s.maxdemosize * 2 ^ 20 ≤ ((s.demotmp.map (· ++ bytes)).getD []).length

instance : Decidable s.Stores := inferInstanceAs (Decidable (_ ∧ _))

instance (bytes : List UInt8) : Decidable (s.Overlong bytes) := inferInstanceAs (Decidable (_ ≤ _))

/-- The number of recordings an event makes room for, if it does. -/
def prunes (s : Demos) : DemoEvent → Option Nat
  | .prunedemos extra => some extra
  | .enddemorecord _ _ => if s.Stores then some 1 else none
  | .write bytes _ _ => if s.Stores ∧ s.Overlong bytes then some 1 else none
  | _ => none

/-- There is nothing to remove where the event makes room: no demo is listed, or there is
room already. -/
def Clean (s : Demos) (e : DemoEvent) : Prop :=
  ∀ extra ∈ s.prunes e, s.demos = [] ∨ s.demos.length + extra ≤ s.maxdemos

instance (e : DemoEvent) : Decidable (s.Clean e) :=
  inferInstanceAs (Decidable (∀ extra ∈ s.prunes e, _))

theorem excess_eq_zero (extra : Nat) :
    s.excess extra = 0 ↔ s.demos = [] ∨ s.demos.length + extra ≤ s.maxdemos := by
  rw [excess, ← List.length_eq_zero_iff]
  omega

theorem length_contents : s.contents.length = s.demos.length := List.length_map _

/-- Making room where there is nothing to remove leaves the list alone. -/
theorem prunedemos_room {extra : Nat} (h : s.demos = [] ∨ s.demos.length + extra ≤ s.maxdemos) :
    s.prunedemos extra = .ok s := by
  rw [prunedemos, if_pos ((excess_eq_zero extra).mpr h)]

theorem shelf_makeRoom {extra : Nat}
    (h : s.demos = [] ∨ s.demos.length + extra ≤ s.maxdemos) :
    s.shelf.makeRoom extra = s.shelf := by
  have hkept : s.contents.drop (s.contents.length + extra - s.maxdemos) = s.contents := by
    rw [length_contents]
    rcases h with h | h
    · simp [contents, h]
    · rw [Nat.sub_eq_zero_of_le h, List.drop_zero]
  exact congrArg (fun kept => { s.shelf with kept }) hkept

/-- The shelf as a recording is put on it. -/
theorem Sound.shelf_adddemo (h : s.Sound) (info : String) {file : List UInt8}
    (hf : s.demotmp = some file) : (s.adddemo info).shelf =
      { s.shelf with
        kept := s.contents ++ [(info, file.take (min file.length s.maxlen))], file := none } := by
  have hc := contents_adddemo h info hf
  simp only [Demos.adddemo, hf] at hc ⊢
  simp only [shelf, hc]

/-- The end of a recording that is kept: room is made, and the demo added. -/
theorem enddemorecord_of_stores {file : List UInt8} (hs : s.Stores) (hf : s.demotmp = some file)
    (rest : List UInt8) (info : String) : s.enddemorecord rest info =
      ({ s with demorecord := false, demotmp := some (file ++ rest) } : Demos).prunedemos 1 >>=
        fun t => .ok (t.adddemo info) := by
  obtain ⟨hrec, -, hmax⟩ := hs
  simp [Demos.enddemorecord, hrec, hf, hmax]

/-- **The end of a recording**: the new demo goes to the end. -/
theorem Sound.enddemorecord (h : s.Sound) (rest : List UInt8) (info : String)
    (hroom : s.Stores → s.demos = [] ∨ s.demos.length + 1 ≤ s.maxdemos) :
    ∃ t, s.enddemorecord rest info = .ok t ∧ t.Sound ∧ t.shelf = s.shelf.stop rest info := by
  cases hrec : s.demorecord with
  | false =>
    refine ⟨s, ?_, h, ?_⟩
    · simp [Demos.enddemorecord, hrec]
    · simp [Shelf.stop, shelf, hrec]
  | true =>
    cases hf : s.demotmp with
    | none =>
      refine ⟨{ s with demorecord := false, demotmp := none }, ?_, h.of_eq rfl rfl rfl rfl, ?_⟩
      · simp [Demos.enddemorecord, hrec, hf]
      · simp [Shelf.stop, shelf, hrec, hf, contents]
    | some file =>
      by_cases hmax : s.maxdemos = 0 ∨ s.maxdemosize = 0
      · refine ⟨{ s with demorecord := false, demotmp := none }, ?_, h.of_eq rfl rfl rfl rfl, ?_⟩
        · simp [Demos.enddemorecord, hrec, hf, hmax]
        · simp [Shelf.stop, shelf, hrec, hf, hmax, contents]
      · have hstores : s.Stores := ⟨hrec, by simp [hf], not_or.mp hmax⟩
        have hroom := hroom hstores
        have hnew : Sound { s with demorecord := false, demotmp := some (file ++ rest) } :=
          h.of_eq rfl rfl rfl rfl
        refine ⟨_, ?_, hnew.adddemo info, ?_⟩
        · rw [enddemorecord_of_stores hstores hf, prunedemos_room (s := { s with demorecord := false, demotmp := some (file ++ rest) }) hroom]
          rfl
        · have hkept : (s.shelf.makeRoom 1).kept = s.contents := by
            rw [shelf_makeRoom hroom]
            rfl
          rw [hnew.shelf_adddemo info rfl]
          simp only [Shelf.makeRoom, shelf] at hkept
          simp only [Shelf.stop, shelf, hrec, hf, hmax, Shelf.makeRoom, hkept]
          rfl

/-- The bytes a packet adds to the recording leave the demos alone. -/
theorem writedemo_eq (bytes rest : List UInt8) (info : String) : s.writedemo bytes rest info =
    if s.demorecord = true ∧ s.Overlong bytes then
      ({ s with demotmp := s.demotmp.map (· ++ bytes) } : Demos).enddemorecord rest info
    else if s.demorecord = true then .ok { s with demotmp := s.demotmp.map (· ++ bytes) }
    else .ok s := by
  cases hrec : s.demorecord <;> simp [writedemo, hrec, Overlong]

/-- One entry of the list removed, its buffer with it. -/
theorem Sound.cleardemos_one (h : s.Sound) {k : Nat} (hk : k < s.demos.length) :
    ∃ t, s.deleteAt k = .ok t ∧ Sound { t with demos := t.demos.eraseIdx k } ∧
      shelf { t with demos := t.demos.eraseIdx k } =
        { s.shelf with kept := s.contents.eraseIdx k } := by
  have hsplit : s.demos = s.demos.take k ++ s.demos[k] :: s.demos.drop (k + 1) := by
    rw [← List.drop_eq_getElem_cons hk, List.take_append_drop]
  have herase : s.demos.eraseIdx k = s.demos.take k ++ s.demos.drop (k + 1) :=
    List.eraseIdx_eq_take_drop_succ s.demos k
  obtain ⟨hdel, hsound, hheap⟩ := h.remove hsplit
  refine ⟨s.release s.demos[k].data, ?_, ?_, ?_⟩
  · rw [deleteAt, List.getElem?_eq_getElem hk]
    exact hdel
  · rw [← herase] at hsound
    exact hsound
  · refine congrArg (fun kept => { s.shelf with kept }) ?_
    rw [contents, contents, List.eraseIdx_map]
    refine List.map_congr_left fun d hd => ?_
    rw [show (s.release s.demos[k].data).demos = s.demos from rfl, herase] at hd
    exact congrArg (fun o => (d.info, Option.getD o [])) (hheap d hd)

/-- **One event** with nothing to remove where it makes room. -/
theorem Sound.step (h : s.Sound) {e : DemoEvent} (hc : s.Clean e) :
    ∃ t, s.step e = .ok t ∧ t.Sound ∧ t.shelf = s.shelf.step e := by
  cases e with
  | setupdemorecord => exact ⟨_, rfl, h.of_eq rfl rfl rfl rfl, rfl⟩
  | setmax maxdemos maxdemosize => exact ⟨_, rfl, h.of_eq rfl rfl rfl rfl, rfl⟩
  | prunedemos extra =>
    have hroom := hc extra rfl
    exact ⟨s, prunedemos_room hroom, h, (shelf_makeRoom hroom).symm⟩
  | enddemorecord rest info =>
    exact h.enddemorecord rest info fun hs => hc 1 (if_pos hs)
  | write bytes rest info =>
    have hnew : Sound { s with demotmp := s.demotmp.map (· ++ bytes) } := h.of_eq rfl rfl rfl rfl
    simp only [Demos.step, writedemo_eq]
    cases hrec : s.demorecord with
    | false => exact ⟨s, by simp, h, by simp [Shelf.step, shelf, hrec]⟩
    | true =>
      by_cases hlong : s.Overlong bytes
      · obtain ⟨t, ht, hsound, hshelf⟩ := hnew.enddemorecord rest info fun hs =>
          hc 1 (if_pos ⟨⟨hs.1, fun hnone => hs.2.1 (by simp [hnone]), hs.2.2⟩, hlong⟩)
        refine ⟨t, by simpa [hlong, hrec] using ht, hsound, hshelf.trans ?_⟩
        rw [Overlong] at hlong
        simp only [Shelf.step, shelf, hrec, hlong, if_true]
        rfl
      · refine ⟨{ s with demotmp := s.demotmp.map (· ++ bytes) }, by simp [hlong, ← hrec], hnew, ?_⟩
        rw [Overlong] at hlong
        simp only [Shelf.step, shelf, hrec, hlong, if_false]
        rfl
  | cleardemos n =>
    simp only [Demos.step, Demos.cleardemos, Shelf.step]
    by_cases hn : n = 0
    · obtain ⟨t, ht, hsound, h1, h2, h3, h4⟩ := Sound.deleteAll s.demos (h.of_eq rfl rfl rfl rfl)
      refine ⟨{ t with demos := [] }, by simp [hn, ht]; rfl, hsound, ?_⟩
      simp [hn, shelf, contents, h1, h2, h3, h4]
    · by_cases hn1 : 1 ≤ n
      · by_cases hlen : n ≤ s.demos.length
        · have hk : (n - 1).toNat < s.demos.length := by omega
          obtain ⟨t, ht, hsound, hshelf⟩ := h.cleardemos_one hk
          refine ⟨{ t with demos := t.demos.eraseIdx (n - 1).toNat }, ?_, hsound, ?_⟩
          · rw [if_neg hn, if_pos ⟨hn1, hlen⟩, ht]
            rfl
          simp only [hn, hn1, if_false, if_true]
          exact hshelf
        · refine ⟨s, by simp [hn, hlen], h, ?_⟩
          have hout : s.shelf.kept.length ≤ (n - 1).toNat := by
            rw [show s.shelf.kept = s.contents from rfl, length_contents]
            omega
          simp only [hn, hn1, if_false, if_true, List.eraseIdx_of_length_le hout]
      · exact ⟨s, by simp [hn, hn1], h, by simp [hn, hn1]⟩

/-! ## A prune that has something to remove -/

/-- An entry is left whose buffer was released. -/
def Dangling (s : Demos) : Prop := ∃ d ∈ s.demos, d.data < s.next ∧ s.heap d.data = none

theorem Dangling.not_sound (hd : s.Dangling) : ¬s.Sound := by
  intro h
  obtain ⟨d, hmem, -, hnone⟩ := hd
  obtain ⟨bytes, hb, -⟩ := h.live d hmem
  rw [hnone] at hb
  cases hb

theorem Dangling.adddemo (hd : s.Dangling) (info : String) : (s.adddemo info).Dangling := by
  obtain ⟨d, hmem, hlt, hnone⟩ := hd
  unfold Demos.adddemo
  split
  · exact ⟨d, hmem, hlt, hnone⟩
  · refine ⟨d, List.mem_append_left _ hmem, Nat.lt_succ_of_lt hlt, ?_⟩
    exact (if_neg (ne_of_lt hlt)).trans hnone

theorem Sound.data_lt_next (h : s.Sound) {d : DemoFile} (hd : d ∈ s.demos) : d.data < s.next := by
  obtain ⟨bytes, hb, -⟩ := h.live d hd
  by_contra hge
  rw [h.fresh _ (not_lt.mp hge)] at hb
  cases hb

/-- The loop that releases the same entry again and again gets through only if it turns
once. -/
theorem Sound.deleteLoop_ok (h : s.Sound) {n : Nat} (hn : 0 < n) {t : Demos}
    (ht : deleteLoop n n s = .ok t) :
    ∃ d, s.demos[1]? = some d ∧ n = 1 ∧ t = s.release d.data := by
  obtain ⟨k, rfl⟩ := Nat.exists_eq_succ_of_ne_zero hn.ne'
  cases hd : s.demos[k + 1]? with
  | none =>
    rw [Demos.deleteLoop, deleteAt, hd] at ht
    cases ht
  | some d =>
    have hmem : d ∈ s.demos := List.mem_of_getElem? hd
    obtain ⟨bytes, hb, -⟩ := h.live d hmem
    have hdel : s.deleteAt (k + 1) = .ok (s.release d.data) := by
      simp only [deleteAt, hd, delete, hb]
    rw [Demos.deleteLoop, hdel] at ht
    cases k with
    | zero => exact ⟨d, hd, rfl, (Except.ok.inj ht).symm⟩
    | succ k =>
      have hagain : (s.release d.data).deleteAt (k + 2) = .error .useAfterFree := by
        rw [deleteAt, show (s.release d.data).demos = s.demos from rfl, hd]
        simp [delete, release]
      have : deleteLoop (k + 2) (k + 1) (s.release d.data) = .ok t := ht
      rw [Demos.deleteLoop, hagain] at this
      cases this

/-- Where there is something to remove, a prune goes wrong. -/
theorem Sound.prunedemos_dangling (h : s.Sound) {extra : Nat}
    (hroom : ¬(s.demos = [] ∨ s.demos.length + extra ≤ s.maxdemos)) {t : Demos}
    (ht : s.prunedemos extra = .ok t) : t.Dangling := by
  have hn : s.excess extra ≠ 0 := fun h0 => hroom ((excess_eq_zero extra).mp h0)
  rw [prunedemos, if_neg hn] at ht
  cases hl : deleteLoop (s.excess extra) (s.excess extra) s with
  | error f =>
    rw [hl] at ht
    cases ht
  | ok u =>
    obtain ⟨d, hd, hone, rfl⟩ := h.deleteLoop_ok (Nat.pos_of_ne_zero hn) hl
    rw [hl, hone] at ht
    obtain rfl := Except.ok.inj ht
    refine ⟨d, ?_, h.data_lt_next (List.mem_of_getElem? hd), if_pos rfl⟩
    exact List.mem_of_getElem? (i := 0) (by rw [List.getElem?_drop]; exact hd)

/-- A recording ends where there is something to remove. -/
theorem Sound.enddemorecord_dangling (h : s.Sound) {rest : List UInt8} {info : String}
    (hs : s.Stores) (hroom : ¬(s.demos = [] ∨ s.demos.length + 1 ≤ s.maxdemos)) {t : Demos}
    (ht : s.enddemorecord rest info = .ok t) : t.Dangling := by
  obtain ⟨file, hf⟩ := Option.ne_none_iff_exists'.mp hs.2.1
  rw [enddemorecord_of_stores hs hf] at ht
  have hnew : Sound { s with demorecord := false, demotmp := some (file ++ rest) } :=
    h.of_eq rfl rfl rfl rfl
  cases hp : ({ s with demorecord := false, demotmp := some (file ++ rest) } : Demos).prunedemos 1 with
  | error f =>
    rw [hp] at ht
    cases ht
  | ok u =>
    rw [hp] at ht
    obtain rfl := Except.ok.inj ht
    exact (hnew.prunedemos_dangling hroom hp).adddemo info

/-- **An event that makes room and has something to remove** leaves an entry without its
buffer, if it does not release a buffer twice or read past the list. -/
theorem Sound.step_dangling (h : s.Sound) {e : DemoEvent} (hc : ¬s.Clean e) {t : Demos}
    (ht : s.step e = .ok t) : t.Dangling := by
  obtain ⟨extra, hp, hroom⟩ : ∃ extra ∈ s.prunes e,
      ¬(s.demos = [] ∨ s.demos.length + extra ≤ s.maxdemos) := by
    simpa only [Clean, not_forall, exists_prop] using hc
  cases e with
  | prunedemos k =>
    obtain rfl : k = extra := Option.some.inj hp
    exact h.prunedemos_dangling hroom ht
  | enddemorecord rest info =>
    obtain ⟨hs, hone⟩ := Option.mem_ite_none_right.mp hp
    obtain rfl : 1 = extra := Option.some.inj hone
    exact h.enddemorecord_dangling hs hroom ht
  | write bytes rest info =>
    obtain ⟨⟨hs, hlong⟩, hone⟩ := Option.mem_ite_none_right.mp hp
    obtain rfl : 1 = extra := Option.some.inj hone
    have hnew : Sound { s with demotmp := s.demotmp.map (· ++ bytes) } := h.of_eq rfl rfl rfl rfl
    have hstores : Stores { s with demotmp := s.demotmp.map (· ++ bytes) } :=
      ⟨hs.1, by simpa using hs.2.1, hs.2.2⟩
    rw [Demos.step, writedemo_eq, if_pos ⟨hs.1, hlong⟩] at ht
    exact hnew.enddemorecord_dangling hstores hroom ht
  | setupdemorecord => cases hp
  | cleardemos n => cases hp
  | setmax maxdemos maxdemosize => cases hp

/-! ## Runs -/

/-- A number on the list is answered with the bytes recorded under it. -/
theorem Sound.senddemo (h : s.Sound) (num : Int) :
    s.senddemo num = .ok (s.shelf.numbered num) := by
  unfold Demos.senddemo Shelf.numbered
  rw [show s.shelf.kept = s.contents from rfl, length_contents]
  generalize (if num = 0 then (s.demos.length : Int) else num) = n
  by_cases hn : 1 ≤ n ∧ n ≤ s.demos.length
  · have hk : (n - 1).toNat < s.demos.length := by omega
    obtain ⟨bytes, hb, hlen⟩ := h.live _ (List.getElem_mem hk)
    simp only [hn, and_self, if_true, contents, List.getElem?_map,
      List.getElem?_eq_getElem hk, hb, Option.map_some, Option.getD_some]
    rw [← hlen, List.take_length]
  · simp only [hn, if_false]
    split
    · have hout : s.contents.length ≤ (n - 1).toNat := by
        rw [length_contents]
        omega
      rw [List.getElem?_eq_none hout]
      rfl
    · rfl

theorem Sound.of_steps {es : List DemoEvent} {t : Demos}
    (hrun : Run.Steps Demos.step Clean s es t) (h : s.Sound) :
    t.Sound ∧ t.shelf = s.shelf.run es := by
  induction hrun with
  | nil s => exact ⟨h, rfl⟩
  | cons hc hstep _ ih =>
    obtain ⟨u, hu, hsound, hshelf⟩ := h.step hc
    obtain rfl := Except.ok.inj (hu.symm.trans hstep)
    obtain ⟨ht, hrest⟩ := ih hsound
    refine ⟨ht, ?_⟩
    rw [hrest, hshelf]
    rfl

/-- A sound step is one with nothing to remove. -/
theorem Sound.step_iff (h : s.Sound) (e : DemoEvent) :
    (∃ t, s.step e = .ok t ∧ t.Sound ∧ t.shelf = s.shelf.step e) ↔ s.Clean e := by
  constructor
  · rintro ⟨t, ht, hsound, -⟩
    by_contra hc
    exact (h.step_dangling hc ht).not_sound hsound
  · exact fun hc => h.step hc

/-- What is left after a sound prune. -/
theorem Sound.prunedemos_length (h : s.Sound) {extra : Nat} {t : Demos}
    (ht : s.prunedemos extra = .ok t) (hsound : t.Sound) :
    t.demos.length ≤ s.maxdemos - extra := by
  by_cases hroom : s.demos = [] ∨ s.demos.length + extra ≤ s.maxdemos
  · rw [prunedemos_room hroom] at ht
    obtain rfl := Except.ok.inj ht
    rcases hroom with hnil | hlen
    · simp [hnil]
    · omega
  · exact absurd hsound (h.prunedemos_dangling hroom ht).not_sound

/-- **The demos are kept**: in a run in which nothing has to be removed to make room, every
buffer has one owner and is released once, the list shows the recordings of the shelf, a
prune leaves at most `maxdemos - extra`, and a number is answered with the demo listed under
it.  The next event keeps this up exactly if it has nothing to remove either. -/
theorem demos_kept {es : List DemoEvent} (hrun : Run.Steps Demos.step Clean initial es s) :
    s.Sound ∧ s.shelf = initial.shelf.run es ∧
      s.listdemos = s.shelf.kept.map Prod.fst ∧
      (∀ num, s.senddemo num = .ok (s.shelf.numbered num)) ∧
      (∀ extra t, s.prunedemos extra = .ok t → t.Sound →
        t.demos.length ≤ s.maxdemos - extra) ∧
      ∀ e, (∃ t, s.step e = .ok t ∧ t.Sound ∧ t.shelf = s.shelf.step e) ↔ s.Clean e := by
  obtain ⟨hsound, hshelf⟩ := sound_initial.of_steps hrun
  refine ⟨hsound, hshelf, ?_, hsound.senddemo, ?_, hsound.step_iff⟩
  · simp [listdemos, shelf, contents, Function.comp_def]
  · exact fun extra t ht htsound => hsound.prunedemos_length ht htsound

/-- A recording of one packet. -/
def recording (bytes : List UInt8) (info : String) : List DemoEvent :=
  [.setupdemorecord, .write bytes [] info, .enddemorecord [] info]

/-- Two recordings, of which the first is deleted. -/
theorem demos_kept_two : ∃ s : Demos,
    s.shelf = initial.shelf.run (recording [1, 2] "one" ++ recording [3] "two" ++ [.cleardemos 1]) ∧
      s.listdemos = ["two"] ∧ s.senddemo 1 = .ok (some [3]) := by
  obtain ⟨s, hrun, hs⟩ := Run.Steps.of_execIf Demos.step Clean initial
    (recording [1, 2] "one" ++ recording [3] "two" ++ [.cleardemos 1])
    (p := fun s => s.listdemos = ["two"] ∧ s.shelf.numbered 1 = some [3]) (by decide +kernel)
  obtain ⟨-, hshelf, -, hsend, -⟩ := demos_kept hrun
  exact ⟨s, hshelf, hs.1, by rw [hsend, hs.2]⟩

/-- The sixth recording with room for five: the first demo leaves the list, but the buffer
that is released is the one of the second. -/
theorem sixth_recording : ∃ s : Demos, Run.Reachable Demos.step initial s ∧
    s.listdemos = ["two", "three", "four", "five", "six"] ∧
    s.senddemo 1 = .error .useAfterFree ∧ ¬s.Sound := by
  obtain ⟨s, hrun, hs⟩ := Run.Reachable.of_any Demos.step initial
    (recording [1] "one" ++ recording [2] "two" ++ recording [3] "three" ++
      recording [4] "four" ++ recording [5] "five" ++ recording [6] "six")
    (p := fun s => s.listdemos = ["two", "three", "four", "five", "six"] ∧
      s.senddemo 1 = .error .useAfterFree) (by decide +kernel)
  obtain ⟨hlist, hsend⟩ := of_decide_eq_true hs
  refine ⟨s, hrun, hlist, hsend, fun h => ?_⟩
  rw [h.senddemo] at hsend
  cases hsend

end Demos
end QServ
