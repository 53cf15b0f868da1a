import Mathlib.Data.List.DropRight

/-!
# Scanners

A scanner is given what there is of a text from a place on and returns what there is from a later
place on.

* `Scans`: what it returns is a rest of the text, and it looks at no more of that rest than at its
  first character, so that what is behind may be changed.
* `Scans.comp`, `Scans.dropWhile`, `Scans.of_tail`: scanners made of scanners.
-/

namespace Scanning

variable {α : Type}

/-- What is behind the first character of the rest does not matter. -/
structure Scans (f : List α → List α) : Prop where
  suffix : ∀ s, f s <:+ s
  ahead : ∀ {y z r : List α} {c : α}, f (y ++ c :: r) = z ++ c :: r →
    ∀ r', f (y ++ c :: r') = z ++ c :: r'

/-- A rest that has a rest in common with the text. -/
theorem exists_append {s t y r : List α} (h : t <:+ s) (hs : s = y ++ r) (hlen : r.length ≤ t.length) :
    ∃ w, t = w ++ r ∧ w <:+ y := by
  obtain ⟨x, rfl⟩ := h
  obtain ⟨w, rfl, hy⟩ | ⟨w, rfl, ht⟩ := List.append_eq_append_iff.mp hs
  · exact ⟨w, hy, x.suffix_append w⟩
  · rw [ht, List.length_append] at hlen
    obtain rfl := List.length_eq_zero_iff.mp (show w.length = 0 by omega)
    exact ⟨[], ht.symm, List.nil_suffix⟩

/-- No scanner returns more than there is. -/
theorem not_suffix_self {c : α} {z r t : List α} (h : t <:+ r) : t ≠ z ++ c :: r := by
  rintro rfl
  have hle := h.length_le
  rw [List.length_append, List.length_cons] at hle
  omega

theorem Scans.comp {f g : List α → List α} (hg : Scans g) (hf : Scans f) :
    Scans fun s => g (f s) where
  suffix s := (hg.suffix _).trans (hf.suffix s)
  ahead := by
    intro y z r c h r'
    have hlen : (c :: r).length ≤ (f (y ++ c :: r)).length := by
      have hle := (hg.suffix (f (y ++ c :: r))).length_le
      rw [h, List.length_append] at hle
      omega
    obtain ⟨w, hw, -⟩ := exists_append (hf.suffix _) rfl hlen
    rw [hw] at h
    rw [hf.ahead hw r']
    exact hg.ahead h r'

theorem Scans.id : Scans fun s : List α => s where
  suffix _ := List.suffix_rfl
  ahead h r' := by rw [List.append_cancel_right h]

/-- Characters are passed as long as they are of one kind. -/
theorem Scans.dropWhile (p : α → Bool) : Scans (List.dropWhile p) where
  suffix _ := List.dropWhile_suffix p
  ahead := by
    intro y z r c h r'
    induction y generalizing z with
    | nil =>
      cases hc : p c with
      | true =>
        rw [List.nil_append, List.dropWhile_cons_of_pos hc] at h
        exact absurd h (not_suffix_self (List.dropWhile_suffix p))
      | false =>
        rw [List.nil_append, List.dropWhile_cons_of_neg (by simp [hc])] at h
        obtain rfl := List.append_cancel_right (show [] ++ c :: r = z ++ c :: r from h)
        exact List.dropWhile_cons_of_neg (by simp [hc])
    | cons d y ih =>
      rw [List.cons_append] at h ⊢
      cases hd : p d with
      | true =>
        rw [List.dropWhile_cons_of_pos hd] at h ⊢
        exact ih h
      | false =>
        rw [List.dropWhile_cons_of_neg (by simp [hd]), ← List.cons_append] at h ⊢
        rw [List.append_cancel_right h]

/-- What is behind the rest does not matter if the rest begins before, or if there is nothing. -/
theorem dropWhile_change {p : α → Bool} {y w r r' : List α} (h : (y ++ r).dropWhile p = w ++ r)
    (hw : w ≠ [] ∨ r' = []) : (y ++ r').dropWhile p = w ++ r' := by
  rw [List.dropWhile_append] at h ⊢
  cases hy : y.dropWhile p with
  | nil =>
    rw [hy, List.isEmpty_nil, if_pos rfl] at h
    rw [List.isEmpty_nil, if_pos rfl]
    cases w with
    | nil =>
      obtain hw | rfl := hw
      · exact absurd rfl hw
      · rfl
    | cons c w =>
      have hle := (List.dropWhile_suffix (l := r) p).length_le
      rw [h, List.length_append, List.length_cons] at hle
      omega
  | cons c y' =>
    rw [hy, List.isEmpty_cons, if_neg Bool.false_ne_true] at h
    rw [List.isEmpty_cons, if_neg Bool.false_ne_true, List.append_cancel_right h]

/-- A character that is passed if it is of one kind. -/
theorem Scans.ofHead (p : α → Bool) {f : List α → List α} (hnil : f [] = [])
    (hcons : ∀ c s, f (c :: s) = if p c then s else c :: s) : Scans f where
  suffix s := by
    cases s with
    | nil => exact ⟨[], hnil⟩
    | cons c s =>
      rw [hcons]
      split
      · exact List.suffix_cons c s
      · exact List.suffix_rfl
  ahead := by
    intro y z r c h r'
    cases y with
    | nil =>
      rw [List.nil_append, hcons] at h ⊢
      split at h
      · exact absurd h (not_suffix_self List.suffix_rfl)
      · rename_i hc
        rw [if_neg hc]
        obtain rfl := List.append_cancel_right (show [] ++ c :: r = z ++ c :: r from h)
        rfl
    | cons d y =>
      rw [List.cons_append, hcons] at h ⊢
      split at h
      · rename_i hd
        rw [if_pos hd, List.append_cancel_right h]
      · rename_i hd
        rw [if_neg hd]
        exact congrArg (· ++ c :: r') (List.append_cancel_right (show (d :: y) ++ _ = _ from h))

end Scanning
