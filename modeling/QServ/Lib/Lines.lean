import Mathlib.Data.List.Basic

/-!
# Lines of a stream

A stream is cut at a separator: the complete lines, and what has come of the next one.

* `lines_line`: the first line of a stream that has one.
* `lines_concat`: a stream with one element more.
* `lines_append`: a stream that comes in two parts has the lines of the first, and those of the
  second with the unfinished line before it.
-/

namespace Lines

variable {α : Type*} [DecidableEq α] {sep : α}

/-- The complete lines, and the unfinished one at the end. -/
def lines (sep : α) : List α → List (List α) × List α
  | [] => ([], [])
  | a :: as =>
    if a = sep then ([] :: (lines sep as).1, (lines sep as).2)
    else
      match (lines sep as).1 with
      | [] => ([], a :: (lines sep as).2)
      | l :: ls => ((a :: l) :: ls, (lines sep as).2)

theorem lines_of_not_mem {as : List α} (h : sep ∉ as) : lines sep as = ([], as) := by
  induction as with
  | nil => rfl
  | cons a as ih =>
    have ha : a ≠ sep := fun ha => h (by simp [ha])
    rw [lines, if_neg ha, ih fun has => h (List.mem_cons_of_mem _ has)]

theorem lines_line {l as : List α} (h : sep ∉ l) :
    lines sep (l ++ sep :: as) = (l :: (lines sep as).1, (lines sep as).2) := by
  induction l with
  | nil => simp [lines]
  | cons a l ih =>
    have ha : a ≠ sep := fun ha => h (by simp [ha])
    rw [List.cons_append, lines, if_neg ha, ih fun hl => h (List.mem_cons_of_mem _ hl)]

/-- **A stream in two parts.** -/
theorem lines_append (as bs : List α) : lines sep (as ++ bs) =
    ((lines sep as).1 ++ (lines sep ((lines sep as).2 ++ bs)).1,
      (lines sep ((lines sep as).2 ++ bs)).2) := by
  induction h : as.length using Nat.strongRecOn generalizing as with
  | _ n ih =>
    by_cases hmem : sep ∈ as
    · obtain ⟨l, cs, rfl, hl⟩ := List.eq_append_cons_of_mem hmem
      have hcs := ih cs.length (by rw [← h]; simp; omega) cs rfl
      rw [List.append_assoc, List.cons_append, lines_line hl, lines_line hl, hcs]
      simp
    · simp [lines_of_not_mem hmem]

theorem not_mem_lines (as : List α) : sep ∉ (lines sep as).2 := by
  induction as with
  | nil => simp [lines]
  | cons a as ih =>
    by_cases ha : a = sep
    · rw [lines, if_pos ha]
      exact ih
    · rw [lines, if_neg ha]
      split
      · simpa [Ne.symm ha] using ih
      · exact ih

theorem length_lines_lt {as : List α} (h : sep ∈ as) : (lines sep as).2.length < as.length := by
  obtain ⟨l, cs, rfl, hl⟩ := List.eq_append_cons_of_mem h
  have hle : ∀ bs : List α, (lines sep bs).2.length ≤ bs.length := by
    intro bs
    induction bs with
    | nil => exact Nat.le_refl _
    | cons b bs ih =>
      by_cases hb : b = sep
      · rw [lines, if_pos hb]
        exact Nat.le_trans ih (Nat.le_succ _)
      · rw [lines, if_neg hb]
        split
        · simpa using ih
        · exact Nat.le_trans ih (Nat.le_succ _)
  rw [lines_line hl, List.length_append, List.length_cons]
  have := hle cs
  dsimp only
  omega

/-- One element more. -/
theorem lines_concat (as : List α) (a : α) : lines sep (as ++ [a]) =
    if a = sep then ((lines sep as).1 ++ [(lines sep as).2], [])
    else ((lines sep as).1, (lines sep as).2 ++ [a]) := by
  rw [lines_append]
  split
  · next ha =>
    subst ha
    rw [lines_line (not_mem_lines as)]
    rfl
  · next ha =>
    have hno : sep ∉ (lines sep as).2 ++ [a] := by
      simpa [not_mem_lines as, eq_comm] using ha
    rw [lines_of_not_mem hno, List.append_nil]

end Lines
