import Mathlib.Algebra.Order.Ring.Int
import Mathlib.Data.List.Basic
import Mathlib.Logic.Function.Basic
import Mathlib.Tactic.Ring

/-!
# Counted cells

Cells that are released when nobody holds them any more.  The count stands in a header, in
multiples of a unit; what is below the unit may be used for something else.

* `Cell`, `alloc`, `retain`, `release`.
* `Counts`: the headers are the numbers of holders, and what nobody holds is released.
* `Counts.alloc`, `Counts.retain`, `Counts.release`: what the operations do to the holders.
-/

namespace Refcount

variable {α : Type*}

/-- What is kept, its header and whether it was released. -/
structure Cell (α : Type*) where
  body : α
  header : Int
  freed : Bool := false
deriving Repr, DecidableEq

variable (u : Int)

/-- One holder more. -/
def Cell.retain (c : Cell α) : Cell α := { c with header := c.header + u }

/-- One holder less; a header below the unit releases the cell. -/
def Cell.release (c : Cell α) : Cell α :=
  { c with header := c.header - u, freed := c.freed || decide (c.header - u < u) }

/-- A new cell at the end, with one holder. -/
def alloc (b : α) (heap : List (Cell α)) : List (Cell α) := heap ++ [{ body := b, header := u }]

def retain (i : Nat) (heap : List (Cell α)) : List (Cell α) := heap.modify i (Cell.retain u)

def release (i : Nat) (heap : List (Cell α)) : List (Cell α) := heap.modify i (Cell.release u)

variable {u} {heap : List (Cell α)} {n : Nat → Nat} {i : Nat} {b : α}

@[simp] theorem length_retain : (retain u i heap).length = heap.length := List.length_modify ..

@[simp] theorem length_release : (release u i heap).length = heap.length := List.length_modify ..

theorem length_alloc : (alloc u b heap).length = heap.length + 1 := by simp [alloc]

/-- What a cell keeps. -/
def body (heap : List (Cell α)) (i : Nat) : Option α := heap[i]?.map Cell.body

@[simp] theorem body_retain (j : Nat) : body (retain u i heap) j = body heap j := by
  unfold body retain
  rw [List.getElem?_modify]
  cases heap[j]? with
  | none => rfl
  | some c => by_cases h : i = j <;> simp [h, Cell.retain]

@[simp] theorem body_release (j : Nat) : body (release u i heap) j = body heap j := by
  unfold body release
  rw [List.getElem?_modify]
  cases heap[j]? with
  | none => rfl
  | some c => by_cases h : i = j <;> simp [h, Cell.release]

theorem body_alloc_of_lt {j : Nat} (h : j < heap.length) : body (alloc u b heap) j = body heap j := by
  unfold body alloc
  rw [List.getElem?_append_left h]

theorem body_alloc_length : body (alloc u b heap) heap.length = some b := by
  simp [body, alloc]

theorem lt_of_body (h : body heap i = some b) : i < heap.length := by
  obtain ⟨c, hc, _⟩ := Option.map_eq_some_iff.1 h
  exact (List.getElem?_eq_some_iff.1 hc).1

variable (u) in
/-- The headers count the holders, and exactly what has none is released. -/
structure Counts (heap : List (Cell α)) (n : Nat → Nat) : Prop where
  cell : ∀ i c, heap[i]? = some c → c.header = u * n i ∧ (c.freed = true ↔ n i = 0)
  bound : ∀ i, heap.length ≤ i → n i = 0

theorem Counts.nil : Counts u ([] : List (Cell α)) fun _ => 0 :=
  ⟨fun _ _ h => by simp at h, fun _ _ => rfl⟩

theorem Counts.congr {m : Nat → Nat} (h : Counts u heap n) (hm : ∀ i, m i = n i) :
    Counts u heap m := by
  obtain rfl : m = n := funext hm
  exact h

theorem Counts.lt (h : Counts u heap n) (hi : n i ≠ 0) : i < heap.length :=
  Nat.lt_of_not_le fun hle => hi (h.bound i hle)

theorem Counts.alloc (h : Counts u heap n) (b : α) :
    Counts u (alloc u b heap) (Function.update n heap.length 1) := by
  refine ⟨fun i c hc => ?_, fun i hi => ?_⟩
  · rcases Nat.lt_trichotomy i heap.length with hlt | rfl | hgt
    · rw [Refcount.alloc, List.getElem?_append_left hlt] at hc
      rw [Function.update_of_ne hlt.ne]
      exact h.cell i c hc
    · rw [Refcount.alloc, List.getElem?_concat_length] at hc
      obtain rfl := Option.some.inj hc
      simp
    · rw [Refcount.alloc, List.getElem?_eq_none (by simp; omega)] at hc
      cases hc
  · rw [length_alloc] at hi
    rw [Function.update_of_ne (by omega)]
    exact h.bound i (by omega)

theorem Counts.retain (h : Counts u heap n) (hi : n i ≠ 0) :
    Counts u (retain u i heap) (Function.update n i (n i + 1)) := by
  refine ⟨fun j c hc => ?_, fun j hj => ?_⟩
  · rw [Refcount.retain, List.getElem?_modify] at hc
    obtain ⟨c', hc', rfl⟩ := Option.map_eq_some_iff.1 hc
    obtain ⟨hh, hf⟩ := h.cell j c' hc'
    by_cases hij : i = j
    · subst hij
      simp only [if_pos, Cell.retain, Function.update_self, hh, hf]
      refine ⟨by push_cast; ring, ?_⟩
      omega
    · rw [if_neg hij, Function.update_of_ne (Ne.symm hij)]
      exact ⟨hh, hf⟩
  · rw [length_retain] at hj
    have hlt := h.lt hi
    rw [Function.update_of_ne (by omega)]
    exact h.bound j hj

theorem Counts.release (hu : 0 < u) (h : Counts u heap n) (hi : n i ≠ 0) :
    Counts u (release u i heap) (Function.update n i (n i - 1)) := by
  refine ⟨fun j c hc => ?_, fun j hj => ?_⟩
  · rw [Refcount.release, List.getElem?_modify] at hc
    obtain ⟨c', hc', rfl⟩ := Option.map_eq_some_iff.1 hc
    obtain ⟨hh, hf⟩ := h.cell j c' hc'
    by_cases hij : i = j
    · subst hij
      obtain ⟨k, hk⟩ := Nat.exists_eq_succ_of_ne_zero hi
      have hfreed : c'.freed = false := by
        rw [← Bool.not_eq_true, hf]
        exact hi
      have hval : u * ((k + 1 : Nat) : Int) - u = u * k := by
        push_cast
        ring
      have hlow : u * (k : Int) < u ↔ k = 0 := by
        refine ⟨fun hlt => ?_, fun hk => by simp [hk, hu]⟩
        by_contra hne
        have : u * 1 ≤ u * (k : Int) := Int.mul_le_mul_of_nonneg_left (by omega) hu.le
        omega
      simp only [if_pos, Cell.release, Function.update_self, hh, hk, hfreed, hval]
      simp [hlow]
    · rw [if_neg hij, Function.update_of_ne (Ne.symm hij)]
      exact ⟨hh, hf⟩
  · rw [length_release] at hj
    have hlt := h.lt hi
    rw [Function.update_of_ne (by omega)]
    exact h.bound j hj

end Refcount
