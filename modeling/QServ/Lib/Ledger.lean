import Mathlib.Data.List.Nodup

/-!
# Ledgers

A history of notes, some of which issue an item to an owner and some of which settle an item, named
by its key.

* `Sound`: no key is issued twice or settled twice, and only what has been issued is settled.
* `opens`: what has been issued to an owner and not settled, in the order of its issue.
* `Sound.opens_issue`, `Sound.opens_settle_self`: what is open behind one more note.
* `Lawful`: each note of a history is justified by those before it.
-/

/-- How notes are read. -/
structure Ledger (ν ω α κ : Type*) where
  issue : ν → Option (ω × α)
  settle : ν → Option κ
  key : α → κ

namespace Ledger

variable {ν ω α κ : Type*} (r : Ledger ν ω α κ)

def issued (h : List ν) : List (ω × α) := h.filterMap r.issue

def settled (h : List ν) : List κ := h.filterMap r.settle

/-- The keys that have been issued. -/
def keys (h : List ν) : List κ := (r.issued h).map fun p => r.key p.2

/-- No key is issued twice or settled twice, and only issued keys are settled. -/
structure Sound (h : List ν) : Prop where
  issued : (r.keys h).Nodup
  settled : (r.settled h).Nodup
  only : ∀ k ∈ r.settled h, k ∈ r.keys h

variable {r} {h : List ν} {n : ν} {o : ω} {a : α} {k : κ}

theorem Sound.nil : r.Sound [] := ⟨List.nodup_nil, List.nodup_nil, nofun⟩

theorem issued_quiet (hi : r.issue n = none) : r.issued (h ++ [n]) = r.issued h := by
  simp [Ledger.issued, List.filterMap_append, hi]

theorem settled_quiet (hs : r.settle n = none) : r.settled (h ++ [n]) = r.settled h := by
  simp [Ledger.settled, List.filterMap_append, hs]

theorem issued_issue (hi : r.issue n = some (o, a)) :
    r.issued (h ++ [n]) = r.issued h ++ [(o, a)] := by
  simp [Ledger.issued, List.filterMap_append, hi]

theorem settled_settle (hs : r.settle n = some k) :
    r.settled (h ++ [n]) = r.settled h ++ [k] := by
  simp [Ledger.settled, List.filterMap_append, hs]

theorem mem_keys (h' : (o, a) ∈ r.issued h) : r.key a ∈ r.keys h :=
  List.mem_map.mpr ⟨(o, a), h', rfl⟩

theorem Sound.quiet (hsound : r.Sound h) (hi : r.issue n = none) (hs : r.settle n = none) :
    r.Sound (h ++ [n]) := by
  refine ⟨?_, ?_, ?_⟩ <;> simp only [keys, issued_quiet hi, settled_quiet hs]
  · exact hsound.issued
  · exact hsound.settled
  · exact hsound.only

theorem Sound.issue (hsound : r.Sound h) (hi : r.issue n = some (o, a)) (hs : r.settle n = none)
    (hfresh : r.key a ∉ r.keys h) : r.Sound (h ++ [n]) := by
  have hkeys : r.keys (h ++ [n]) = r.keys h ++ [r.key a] := by
    rw [keys, issued_issue hi, List.map_append]
    rfl
  refine ⟨?_, ?_, fun k hk => ?_⟩
  · rw [hkeys]
    exact List.nodup_append.mpr ⟨hsound.issued, List.nodup_singleton _,
      fun k hk k' hk' heq => hfresh (List.mem_singleton.mp hk' ▸ heq ▸ hk)⟩
  · rw [settled_quiet hs]
    exact hsound.settled
  · rw [settled_quiet hs] at hk
    rw [hkeys]
    exact List.mem_append_left _ (hsound.only k hk)

theorem Sound.settle (hsound : r.Sound h) (hi : r.issue n = none) (hs : r.settle n = some (r.key a))
    (hissued : (o, a) ∈ r.issued h) (hopen : r.key a ∉ r.settled h) : r.Sound (h ++ [n]) := by
  have hkeys : r.keys (h ++ [n]) = r.keys h := by rw [keys, issued_quiet hi, keys]
  refine ⟨?_, ?_, fun k hk => ?_⟩
  · rw [hkeys]
    exact hsound.issued
  · rw [settled_settle hs]
    exact List.nodup_append.mpr ⟨hsound.settled, List.nodup_singleton _,
      fun k hk k' hk' heq => hopen (List.mem_singleton.mp hk' ▸ heq ▸ hk)⟩
  · rw [hkeys]
    rw [settled_settle hs] at hk
    obtain hk | hk := List.mem_append.mp hk
    · exact hsound.only k hk
    · rw [List.mem_singleton.mp hk]
      exact mem_keys hissued

/-- An issued key belongs to one owner and one item. -/
theorem Sound.eq_of_key (hsound : r.Sound h) {o' : ω} {b : α} (ha : (o, a) ∈ r.issued h)
    (hb : (o', b) ∈ r.issued h) (hkey : r.key a = r.key b) : o = o' ∧ a = b :=
  Prod.mk.inj (List.inj_on_of_nodup_map hsound.issued ha hb hkey)

/-! ## What is open -/

variable [DecidableEq ω] [DecidableEq κ]

variable (r) in
/-- What is open for an owner. -/
def opens (o : ω) (h : List ν) : List α :=
  ((r.issued h).filter fun p => p.1 = o ∧ r.key p.2 ∉ r.settled h).map Prod.snd

theorem mem_opens : a ∈ r.opens o h ↔ (o, a) ∈ r.issued h ∧ r.key a ∉ r.settled h := by
  unfold opens
  simp only [List.mem_map, List.mem_filter, decide_eq_true_eq]
  constructor
  · rintro ⟨⟨o', b⟩, ⟨hb, rfl, hopen⟩, rfl⟩
    exact ⟨hb, hopen⟩
  · rintro ⟨hmem, hopen⟩
    exact ⟨(o, a), ⟨hmem, rfl, hopen⟩, rfl⟩

theorem opens_quiet (hi : r.issue n = none) (hs : r.settle n = none) (o : ω) :
    r.opens o (h ++ [n]) = r.opens o h := by
  unfold opens
  rw [issued_quiet hi, settled_quiet hs]

theorem Sound.opens_issue (hsound : r.Sound h) (hi : r.issue n = some (o, a))
    (hs : r.settle n = none) (hfresh : r.key a ∉ r.keys h) (o' : ω) :
    r.opens o' (h ++ [n]) = r.opens o' h ++ if o = o' then [a] else [] := by
  have hopen : r.key a ∉ r.settled h := fun hmem => hfresh (hsound.only _ hmem)
  unfold opens
  rw [issued_issue hi, settled_quiet hs, List.filter_append, List.map_append]
  congr 1
  by_cases ho : o = o' <;> simp [ho, hopen]

theorem opens_settle (hi : r.issue n = none) (hs : r.settle n = some k) (o : ω) :
    r.opens o (h ++ [n]) = (r.opens o h).filter fun b => r.key b ≠ k := by
  unfold opens
  rw [issued_quiet hi, settled_settle hs, List.filter_map, List.filter_filter]
  congr 2
  funext p
  simp only [Function.comp_apply, List.mem_append, List.mem_singleton, not_or, ← Bool.decide_and]
  congr 1
  exact propext (by tauto)

theorem Sound.nodup_opens (hsound : r.Sound h) (o : ω) : ((r.opens o h).map r.key).Nodup := by
  unfold opens
  rw [List.map_map]
  exact hsound.issued.sublist (List.filter_sublist.map _)

/-- The item that is settled is taken out of its owner's. -/
theorem Sound.opens_settle_self (hsound : r.Sound h) (hi : r.issue n = none)
    (hs : r.settle n = some (r.key a)) {l₁ l₂ : List α} (hopen : r.opens o h = l₁ ++ a :: l₂) :
    r.opens o (h ++ [n]) = l₁ ++ l₂ := by
  have hnodup := hsound.nodup_opens o
  rw [hopen, List.map_append, List.map_cons, List.nodup_middle, List.nodup_cons,
    ← List.map_append] at hnodup
  have hne : ∀ b ∈ l₁ ++ l₂, r.key b ≠ r.key a := fun b hb heq =>
    hnodup.1 (List.mem_map.mpr ⟨b, hb, heq⟩)
  rw [opens_settle hi hs, hopen, List.filter_append, List.filter_cons_of_neg (by simp),
    ← List.filter_append]
  exact List.filter_eq_self.mpr fun b hb => by simpa using hne b hb

/-- The others keep theirs. -/
theorem Sound.opens_settle_other (hsound : r.Sound h) (hi : r.issue n = none)
    (hs : r.settle n = some (r.key a)) (hissued : (o, a) ∈ r.issued h) {o' : ω} (ho : o' ≠ o) :
    r.opens o' (h ++ [n]) = r.opens o' h := by
  rw [opens_settle hi hs]
  refine List.filter_eq_self.mpr fun b hb => ?_
  have hne : r.key b ≠ r.key a := fun heq =>
    ho (hsound.eq_of_key (mem_opens.mp hb).1 hissued heq).1
  simpa using hne

/-! ## Justified notes -/

omit [DecidableEq ω] [DecidableEq κ]

/-- Each note is justified by those before it. -/
inductive Lawful (justified : List ν → ν → Prop) : List ν → Prop where
  | nil : Lawful justified []
  | snoc {h : List ν} {n : ν} (hlawful : Lawful justified h) (hn : justified h n) :
      Lawful justified (h ++ [n])

theorem Lawful.justified {justified : List ν → ν → Prop} (hlawful : Lawful justified h) :
    ∀ {pre post : List ν} {n : ν}, h = pre ++ n :: post → justified pre n := by
  induction hlawful with
  | nil =>
    intro pre post n heq
    simp at heq
  | @snoc h m hlawful hm ih =>
    intro pre post n heq
    obtain rfl | ⟨post', b, rfl⟩ := post.eq_nil_or_concat
    · obtain ⟨rfl, hlast⟩ := List.append_inj' heq rfl
      cases hlast
      exact hm
    · rw [List.concat_eq_append, ← List.cons_append, ← List.append_assoc] at heq
      obtain ⟨rfl, -⟩ := List.append_inj' heq rfl
      exact ih rfl

end Ledger
