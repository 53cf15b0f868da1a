import Mathlib.Data.List.Induction
import Mathlib.Data.List.Perm.Basic

/-!
# Backward scans that remove

A list is scanned from its end, and an element that is removed is replaced by the last one.

* `scan`: what is kept and what is removed of the elements in the order they are visited.
* `back_spec`: the loop visits the elements from the last to the first, each once.
* `countP_kept_le`: elements are counted, and removed beyond a limit.
-/

namespace Sweep

variable {α β κ : Type*}

/-- The element at a place is removed, and the last one takes it. -/
def removeunordered (l : List α) (i : Nat) : List α :=
  match l.getLast? with
  | none => []
  | some last => (l.set i last).dropLast

/-- The counters, what is kept, as it is then, and what is removed, of the elements in this
order. -/
def scan (body : κ → α → κ × Option α) : κ → List α → κ × List α × List α
  | k, [] => (k, [], [])
  | k, a :: l =>
    match body k a with
    | (k, none) => ((scan body k l).1, (scan body k l).2.1, a :: (scan body k l).2.2)
    | (k, some b) => ((scan body k l).1, b :: (scan body k l).2.1, (scan body k l).2.2)

/-- The loop from the place before `i` down, with what it has removed so far. -/
def back (body : κ → α → κ × Option α) : Nat → κ → List α → List α → κ × List α × List α
  | 0, k, l, gone => (k, l, gone)
  | i + 1, k, l, gone =>
    match l[i]? with
    | none => back body i k l gone
    | some a =>
      match body k a with
      | (k, none) => back body i k (removeunordered l i) (gone ++ [a])
      | (k, some b) => back body i k (l.set i b) gone

variable {body : κ → α → κ × Option α} {k : κ} {l l₁ l₂ : List α}

/-- What is behind the element that is removed stays behind it, in some order. -/
theorem removeunordered_append (l₁ l₂ : List α) (a : α) :
    ∃ l₂', removeunordered (l₁ ++ a :: l₂) l₁.length = l₁ ++ l₂' ∧ l₂'.Perm l₂ := by
  obtain rfl | ⟨l₂, last, rfl⟩ := l₂.eq_nil_or_concat
  · refine ⟨[], ?_, .refl _⟩
    simp [removeunordered]
  · have hbehind : ∀ c, l₁ ++ c :: l₂.concat last = (l₁ ++ c :: l₂) ++ [last] := by simp
    refine ⟨last :: l₂, ?_, ?_⟩
    · unfold removeunordered
      rw [hbehind, List.getLast?_concat, ← hbehind]
      dsimp only
      rw [List.set_append_right _ _ (Nat.le_refl _), Nat.sub_self, List.set_cons_zero, hbehind,
        List.dropLast_concat]
    · rw [List.concat_eq_append]
      exact (List.perm_append_singleton last l₂).symm

theorem set_append (l₁ l₂ : List α) (a b : α) :
    (l₁ ++ a :: l₂).set l₁.length b = l₁ ++ b :: l₂ := by
  simp

/-- **The loop visits every element once**: what has not been visited is before the place, and what
has been kept is behind it. -/
theorem back_spec (body : κ → α → κ × Option α) (l₁ l₂ gone : List α) (k : κ) :
    (back body l₁.length k (l₁ ++ l₂) gone).1 = (scan body k l₁.reverse).1 ∧
    (back body l₁.length k (l₁ ++ l₂) gone).2.1.Perm (l₂ ++ (scan body k l₁.reverse).2.1) ∧
    (back body l₁.length k (l₁ ++ l₂) gone).2.2 = gone ++ (scan body k l₁.reverse).2.2 := by
  induction l₁ using List.reverseRecOn generalizing k l₂ gone with
  | nil => simp [back, scan]
  | append_singleton l₁ a ih =>
    have hget : (l₁ ++ [a] ++ l₂)[l₁.length]? = some a := by simp
    rw [List.length_append, List.length_singleton, back, hget, List.reverse_append,
      List.reverse_singleton, List.singleton_append, scan]
    dsimp only
    obtain ⟨k, _ | b⟩ := body k a
    · -- the last element has been visited when it takes the place
      obtain ⟨l₂', heq, hperm⟩ := removeunordered_append l₁ l₂ a
      rw [List.append_assoc, List.singleton_append]
      dsimp only
      rw [heq]
      obtain ⟨hk, hkept, hgone⟩ := ih l₂' (gone ++ [a]) k
      refine ⟨hk, hkept.trans (hperm.append_right _), ?_⟩
      rw [hgone, List.append_assoc, List.singleton_append]
    · rw [List.append_assoc, List.singleton_append]
      dsimp only
      rw [set_append]
      obtain ⟨hk, hkept, hgone⟩ := ih (b :: l₂) gone k
      exact ⟨hk, hkept.trans List.perm_middle.symm, hgone⟩

/-- What has been removed before stays in front. -/
theorem back_gone (body : κ → α → κ × Option α) (n : Nat) (k : κ) (l gone : List α) :
    (back body n k l gone).2.2 = gone ++ (back body n k l []).2.2 := by
  induction n generalizing k l gone with
  | zero => simp [back]
  | succ i ih =>
    unfold back
    cases l[i]? with
    | none => exact ih k l gone
    | some a =>
      dsimp only
      obtain ⟨k', _ | b⟩ := body k a
      · dsimp only
        rw [ih k' _ (gone ++ [a]), ih k' _ ([] ++ [a]), List.nil_append, List.append_assoc]
      · exact ih k' _ gone

/-- The whole list. -/
theorem back_length (body : κ → α → κ × Option α) (l : List α) (k : κ) :
    (back body l.length k l []).2.1.Perm (scan body k l.reverse).2.1 ∧
    (back body l.length k l []).2.2 = (scan body k l.reverse).2.2 := by
  obtain ⟨-, hkept, hgone⟩ := back_spec body l [] [] k
  rw [List.append_nil, List.nil_append] at *
  exact ⟨hkept, hgone⟩

/-! ## What is kept -/

/-- What is said of an element and does not change when it is kept: nothing is lost. -/
theorem map_kept_gone {π : α → β} (h : ∀ k a k' b, body k a = (k', some b) → π b = π a) :
    ((scan body k l).2.1.map π ++ (scan body k l).2.2.map π).Perm (l.map π) := by
  induction l generalizing k with
  | nil => exact .refl _
  | cons a l ih =>
    rw [scan]
    cases hbody : body k a with
    | mk k' b =>
      cases b with
      | none => exact List.perm_middle.trans ((ih (k := k')).cons _)
      | some b =>
        dsimp only
        rw [List.map_cons, List.map_cons, h k a k' b hbody, List.cons_append]
        exact (ih (k := k')).cons _

/-- Where each element that is kept was one of the same kind, there are no more of them. -/
theorem countP_kept_mono {p : α → Bool} (h : ∀ k a k' b, body k a = (k', some b) → p b → p a) :
    (scan body k l).2.1.countP p ≤ l.countP p := by
  induction l generalizing k with
  | nil => exact Nat.le_refl _
  | cons a l ih =>
    rw [scan, List.countP_cons]
    cases hbody : body k a with
    | mk k' b =>
      cases b with
      | none => exact Nat.le_trans (ih (k := k')) (Nat.le_add_right _ _)
      | some b =>
        dsimp only
        rw [List.countP_cons]
        refine Nat.add_le_add (ih (k := k')) ?_
        split
        · next hp => exact Nat.le_of_eq (if_pos (h k a k' b hbody hp)).symm
        · exact Nat.zero_le _

/-- **A limit**: where every element of a kind that is kept advances a counter that stays within the
limit, there are at most so many of them as the counter leaves room for. -/
theorem countP_kept_le {p : α → Bool} {limit : Nat} (count : κ → Nat)
    (hmono : ∀ k a, count k ≤ count (body k a).1)
    (h : ∀ k a b, (body k a).2 = some b → p b →
      count k < count (body k a).1 ∧ count (body k a).1 ≤ limit) :
    (scan body k l).2.1.countP p ≤ limit - count k := by
  induction l generalizing k with
  | nil => exact Nat.zero_le _
  | cons a l ih =>
    have hk := hmono k a
    have hkeep := h k a
    rw [scan]
    cases hbody : body k a with
    | mk k' b =>
      rw [hbody] at hk hkeep
      have hrest := ih (k := k')
      cases b with
      | none => exact Nat.le_trans hrest (Nat.sub_le_sub_left hk limit)
      | some b =>
        dsimp only at hk ⊢
        rw [List.countP_cons]
        split
        · next hp =>
          obtain ⟨hlt, hle⟩ := hkeep b rfl hp
          dsimp only at hlt hle
          omega
        · omega

end Sweep
