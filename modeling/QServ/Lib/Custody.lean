import Mathlib.Data.List.Nodup
import Mathlib.Logic.Function.Basic
import QServ.Lib.Loop

/-!
# Cells with one owner each

Cells are allocated and freed; freeing a cell that is not there is no result.  A list of owners has
every cell that is there, each once.

* `alloc`, `free`: a cell never comes back.
* `Owned`: nothing is leaked and nothing is owned twice; `Owned.alloc` and `Owned.free` say what an
  operation does to it, and which cells it leaves alone.
-/

namespace Custody

open Loop

variable {α : Type}

/-- The cells, and the first that has never been there. -/
structure Heap (α : Type) where
  cells : Nat → Option α
  next : Nat

/-- A new cell. -/
def alloc (a : α) (h : Heap α) : Nat × Heap α :=
  (h.next, ⟨Function.update h.cells h.next (some a), h.next + 1⟩)

/-- A cell is freed. -/
def free (p : Nat) (h : Heap α) : Option (Heap α) :=
  (h.cells p).map fun _ => { h with cells := Function.update h.cells p none }

/-- The owners have every cell, each once. -/
structure Owned (h : Heap α) (ps : List Nat) : Prop where
  nodup : ps.Nodup
  live : ∀ p, (h.cells p).isSome ↔ p ∈ ps
  below : ∀ p ∈ ps, p < h.next

variable {h : Heap α} {ps qs : List Nat} {p : Nat} {a : α}

theorem Owned.perm (hown : Owned h ps) (hperm : ps.Perm qs) : Owned h qs where
  nodup := hperm.nodup hown.nodup
  live p := (hown.live p).trans hperm.mem_iff
  below p hp := hown.below p (hperm.mem_iff.mpr hp)

theorem Owned.next_notMem (hown : Owned h ps) : h.next ∉ ps :=
  fun hmem => Nat.lt_irrefl _ (hown.below _ hmem)

/-- **A new cell** has a new owner. -/
theorem Owned.alloc (hown : Owned h ps) (a : α) :
    Owned (alloc a h).2 ((alloc a h).1 :: ps) where
  nodup := List.nodup_cons.mpr ⟨hown.next_notMem, hown.nodup⟩
  live p := by
    unfold Custody.alloc
    by_cases hp : p = h.next
    · rw [hp]
      simp
    · dsimp only
      rw [Function.update_of_ne hp, hown.live p, List.mem_cons]
      exact ⟨.inr, fun h => h.resolve_left hp⟩
  below p hp := by
    obtain rfl | hp := List.mem_cons.mp hp
    · exact Nat.lt_succ_self _
    · exact Nat.lt_succ_of_lt (hown.below p hp)

theorem alloc_cells : (alloc a h).2.cells (alloc a h).1 = some a := Function.update_self ..

/-- The other cells are as they were. -/
theorem Owned.alloc_others (hown : Owned h ps) (hp : p ∈ ps) :
    (Custody.alloc a h).2.cells p = h.cells p := by
  have hne : p ≠ h.next := fun heq => hown.next_notMem (heq ▸ hp)
  exact Function.update_of_ne hne ..

/-- **A cell that has an owner** can be freed by him. -/
theorem Owned.free (hown : Owned h (p :: ps)) : Yields (free p h) fun h' =>
    Owned h' ps ∧ h'.next = h.next ∧ ∀ q ∈ ps, h'.cells q = h.cells q := by
  obtain ⟨a, ha⟩ := Option.isSome_iff_exists.mp ((hown.live p).mpr List.mem_cons_self)
  obtain ⟨hp, hps⟩ := List.nodup_cons.mp hown.nodup
  have hne : ∀ q ∈ ps, q ≠ p := fun q hq heq => hp (heq ▸ hq)
  refine ⟨{ h with cells := Function.update h.cells p none }, ?_,
    ⟨hps, fun q => ?_, fun q hq => ?_⟩, rfl, fun q hq => Function.update_of_ne (hne q hq) ..⟩
  · rw [Custody.free, ha]
    rfl
  · by_cases hq : q = p
    · subst hq
      dsimp only
      rw [Function.update_self]
      simp [hp]
    · dsimp only
      rw [Function.update_of_ne hq, hown.live q, List.mem_cons]
      exact ⟨fun h => h.resolve_left hq, .inr⟩
  · exact hown.below q (List.mem_cons_of_mem _ hq)

end Custody
