import Mathlib.Algebra.BigOperators.Group.List.Basic
import Mathlib.Data.List.Nodup
import Mathlib.Tactic.Abel

/-!
# Lists of records with a key

A table kept as a list, each record under a key of its own: looking a record up, changing it,
adding one and taking one out.

* `lookup_split`: where the record of a key stands, with nothing else of that key around it.
* `sum_modify`, `sum_remove`, `sum_add`: what an operation does to a sum over the table.
-/

namespace Keyed

variable {α κ : Type*} [DecidableEq κ] (key : α → κ)

/-- The record of a key. -/
def lookup (k : κ) (l : List α) : Option α := l.find? fun a => key a = k

/-- The record of a key changed. -/
def modify (k : κ) (f : α → α) (l : List α) : List α := l.map fun a => if key a = k then f a else a

/-- The record of a key taken out. -/
def remove (k : κ) (l : List α) : List α := l.filter fun a => key a ≠ k

variable {key} {k : κ} {l : List α} {a : α}

theorem lookup_mem (h : lookup key k l = some a) : a ∈ l ∧ key a = k := by
  refine ⟨List.mem_of_find?_eq_some h, ?_⟩
  simpa using List.find?_some h

theorem lookup_eq_none : lookup key k l = none ↔ ∀ a ∈ l, key a ≠ k := by
  simp [lookup, List.find?_eq_none]

/-- A table with the record of a key in its place. -/
theorem lookup_split (hnd : (l.map key).Nodup) (h : lookup key k l = some a) :
    ∃ l₁ l₂, l = l₁ ++ a :: l₂ ∧ ∀ b ∈ l₁ ++ l₂, key b ≠ k := by
  obtain ⟨hmem, hkey⟩ := lookup_mem h
  obtain ⟨l₁, l₂, rfl⟩ := List.append_of_mem hmem
  refine ⟨l₁, l₂, rfl, fun b hb heq => ?_⟩
  rw [List.map_append, List.map_cons, List.nodup_middle, ← List.map_append] at hnd
  refine (List.nodup_cons.mp hnd).1 ?_
  rw [hkey, ← heq]
  exact List.mem_map_of_mem hb

theorem lookup_of_mem (hnd : (l.map key).Nodup) (h : a ∈ l) : lookup key (key a) l = some a := by
  cases hl : lookup key (key a) l with
  | none => exact absurd rfl (lookup_eq_none.mp hl a h)
  | some b =>
    obtain ⟨hb, hkey⟩ := lookup_mem hl
    rw [List.inj_on_of_nodup_map hnd hb h hkey]

theorem modify_of_not_mem {f : α → α} (h : ∀ b ∈ l, key b ≠ k) : modify key k f l = l := by
  have hid : ∀ b ∈ l, (if key b = k then f b else b) = id b := fun b hb => if_neg (h b hb)
  rw [modify, List.map_congr_left hid, List.map_id]

theorem remove_of_not_mem (h : ∀ b ∈ l, key b ≠ k) : remove key k l = l :=
  List.filter_eq_self.mpr fun b hb => by simpa using h b hb

/-- A change of the record in its place. -/
theorem modify_split {f : α → α} {l₁ l₂ : List α} (ha : key a = k)
    (h : ∀ b ∈ l₁ ++ l₂, key b ≠ k) : modify key k f (l₁ ++ a :: l₂) = l₁ ++ f a :: l₂ := by
  have h₁ := modify_of_not_mem (f := f) fun b hb => h b (List.mem_append_left l₂ hb)
  have h₂ := modify_of_not_mem (f := f) fun b hb => h b (List.mem_append_right l₁ hb)
  unfold modify at h₁ h₂ ⊢
  rw [List.map_append, List.map_cons, h₁, h₂, if_pos ha]

/-- The record in its place taken out. -/
theorem remove_split {l₁ l₂ : List α} (ha : key a = k) (h : ∀ b ∈ l₁ ++ l₂, key b ≠ k) :
    remove key k (l₁ ++ a :: l₂) = l₁ ++ l₂ := by
  have h₁ := remove_of_not_mem h
  unfold remove at h₁ ⊢
  rw [List.filter_append] at h₁ ⊢
  rw [List.filter_cons_of_neg (by simp [ha]), h₁]

theorem lookup_modify {f : α → α} (hf : ∀ a, key (f a) = key a) (j : κ) :
    lookup key j (modify key k f l) = (lookup key j l).map fun a => if key a = k then f a else a := by
  unfold lookup modify
  induction l with
  | nil => rfl
  | cons b l ih =>
    have hb : key (if key b = k then f b else b) = key b := by
      split
      · exact hf b
      · rfl
    by_cases hj : key b = j
    · rw [List.map_cons, List.find?_cons_of_pos (by simpa [hb] using hj),
        List.find?_cons_of_pos (by simpa using hj), Option.map_some]
    · rw [List.map_cons, List.find?_cons_of_neg (by simpa [hb] using hj),
        List.find?_cons_of_neg (by simpa using hj), ih]

theorem lookup_add (hfree : lookup key (key a) l = none) : lookup key (key a) (l ++ [a]) = some a := by
  unfold lookup at hfree ⊢
  simp [List.find?_append, hfree]

theorem lookup_remove {j : κ} (hne : j ≠ k) : lookup key j (remove key k l) = lookup key j l := by
  unfold lookup remove
  rw [List.find?_filter]
  refine congrArg (fun p => List.find? p l) (funext fun a => ?_)
  by_cases ha : key a = j
  · simp [ha, hne]
  · simp [ha]

/-- A table some of whose records are taken out. -/
theorem lookup_filter (hnd : (l.map key).Nodup) (p : α → Bool) :
    lookup key k (l.filter p) = (lookup key k l).filter p := by
  induction l with
  | nil => rfl
  | cons b l ih =>
    obtain ⟨hfresh, hnd⟩ := List.nodup_cons.mp hnd
    have ih := ih hnd
    by_cases hb : key b = k
    · have hnone : lookup key k (l.filter p) = none := by
        refine lookup_eq_none.mpr fun a ha heq => hfresh ?_
        exact List.mem_map.mpr ⟨a, (List.mem_filter.mp ha).1, heq.trans hb.symm⟩
      unfold lookup at hnone ⊢
      by_cases hp : p b
      · simp [hp, hb, Option.filter_some]
      · rw [List.filter_cons_of_neg hp, hnone, List.find?_cons_of_pos (by simpa using hb)]
        simp [hp, Option.filter_some]
    · unfold lookup at ih ⊢
      by_cases hp : p b
      · simp [hp, hb, ih]
      · rw [List.filter_cons_of_neg hp, List.find?_cons_of_neg (by simpa using hb), ih]

theorem lookup_append_left {l' : List α} (h : lookup key k l = some a) :
    lookup key k (l ++ l') = some a := by
  unfold lookup at h ⊢
  rw [List.find?_append, h]
  rfl

/-- A table of what is kept of the records. -/
theorem lookup_map {β : Type*} {key' : β → κ} {g : α → β} (hg : ∀ a, key' (g a) = key a) :
    lookup key' k (l.map g) = (lookup key k l).map g := by
  unfold lookup
  rw [List.find?_map]
  refine congrArg (Option.map g) (congrArg (fun p => List.find? p l) (funext fun a => ?_))
  simp [hg]

theorem remove_map {β : Type*} {key' : β → κ} {g : α → β} (hg : ∀ a, key' (g a) = key a) :
    remove key' k (l.map g) = (remove key k l).map g := by
  unfold remove
  rw [List.filter_map]
  refine congrArg (List.map g) (congrArg (fun p => List.filter p l) (funext fun a => ?_))
  simp [hg]

theorem map_modify {f : α → α} (hf : ∀ a, key (f a) = key a) :
    (modify key k f l).map key = l.map key := by
  unfold modify
  rw [List.map_map]
  refine List.map_congr_left fun a _ => ?_
  simp only [Function.comp]
  split
  · exact hf a
  · rfl

theorem nodup_remove (hnd : (l.map key).Nodup) : ((remove key k l).map key).Nodup :=
  hnd.sublist (List.filter_sublist.map key)

theorem nodup_add (hnd : (l.map key).Nodup) (hfree : lookup key (key a) l = none) :
    ((l ++ [a]).map key).Nodup := by
  rw [List.map_append, List.map_singleton]
  refine List.nodup_append.mpr ⟨hnd, List.nodup_singleton _, ?_⟩
  intro x hx y hy
  obtain ⟨b, hb, rfl⟩ := List.mem_map.mp hx
  rw [List.mem_singleton.mp hy]
  exact lookup_eq_none.mp hfree b hb

/-! ## Sums over a table -/

variable {M : Type*} [AddCommGroup M] (g : α → M)

/-- A change of one record changes a sum by what the record adds to it. -/
theorem sum_modify {f : α → α} (hnd : (l.map key).Nodup) (h : lookup key k l = some a) :
    ((modify key k f l).map g).sum = (l.map g).sum - g a + g (f a) := by
  obtain ⟨l₁, l₂, rfl, hother⟩ := lookup_split hnd h
  rw [modify_split (lookup_mem h).2 hother]
  simp only [List.map_append, List.map_cons, List.sum_append, List.sum_cons]
  abel

theorem sum_remove (hnd : (l.map key).Nodup) (h : lookup key k l = some a) :
    ((remove key k l).map g).sum = (l.map g).sum - g a := by
  obtain ⟨l₁, l₂, rfl, hother⟩ := lookup_split hnd h
  rw [remove_split (lookup_mem h).2 hother]
  simp only [List.map_append, List.map_cons, List.sum_append, List.sum_cons]
  abel

theorem sum_add : ((l ++ [a]).map g).sum = (l.map g).sum + g a := by
  simp

end Keyed
