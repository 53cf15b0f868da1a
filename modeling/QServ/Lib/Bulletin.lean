import Mathlib.Data.List.Basic

/-!
# A log that readers join

Notices are appended to a log.  A reader who joins hears every notice from then on and makes of
them what `hear` says.

* `heard`: what a reader knows, `heard_append`, `heard_join`: how it grows and where it begins.
* `Posted`: at most one of some new notices concerns a subject, and then it tells the subject's
  status; `Posted.heard` says that whoever knew the old status knows the new one.
-/

namespace Bulletin

variable {μ ν β : Type*} {hear : ν → μ → ν} {start : ν} {since : Nat} {log new new' : List μ}

/-- What a reader knows who has read the log from `since` on. -/
def heard (hear : ν → μ → ν) (start : ν) (since : Nat) (log : List μ) : ν :=
  (log.drop since).foldl hear start

theorem heard_append (h : since ≤ log.length) :
    heard hear start since (log ++ new) = new.foldl hear (heard hear start since log) := by
  unfold heard
  rw [List.drop_append_of_le_length h, List.foldl_append]

/-- A reader who joins now has heard nothing yet. -/
theorem heard_join : heard hear start log.length (log ++ new) = new.foldl hear start := by
  unfold heard
  rw [List.drop_left]

/-- Notices that do not concern a reader's subject may be skipped. -/
theorem foldl_skip {about : μ → Bool} (hskip : ∀ v m, about m = false → hear v m = v) (v : ν) :
    new.foldl hear v = (new.filter about).foldl hear v := by
  induction new generalizing v with
  | nil => rfl
  | cons m new ih =>
    cases hm : about m with
    | true => rw [List.filter_cons_of_pos hm, List.foldl_cons, List.foldl_cons, ih]
    | false =>
      rw [List.filter_cons_of_neg (by simp [hm]), List.foldl_cons, hskip v m hm, ih]

/-- Of the new notices at most one concerns a subject.  It tells the new status; without one the
status stays. -/
def Posted (about : μ → Bool) (tells : μ → β → Prop) (old now : β) (new : List μ) : Prop :=
  (new.filter about = [] ∧ now = old) ∨ ∃ m, new.filter about = [m] ∧ tells m now

variable {about : μ → Bool} {tells : μ → β → Prop} {b b' b'' : β}

theorem Posted.quiet : Posted about tells b b [] := .inl ⟨rfl, rfl⟩

theorem Posted.of_filter (h : new.filter about = []) : Posted about tells b b new := .inl ⟨h, rfl⟩

/-- Nothing is said of the subject at first. -/
theorem Posted.prepend (h : Posted about tells b b' new) (hquiet : new'.filter about = []) :
    Posted about tells b b' (new' ++ new) := by
  unfold Posted at *
  rw [List.filter_append, hquiet, List.nil_append]
  exact h

/-- Nothing more is said of the subject. -/
theorem Posted.append (h : Posted about tells b b' new) (hquiet : new'.filter about = []) :
    Posted about tells b b' (new ++ new') := by
  unfold Posted at *
  rw [List.filter_append, hquiet, List.append_nil]
  exact h

theorem Posted.mono {tells' : μ → β → Prop} (h : Posted about tells b b' new)
    (hle : ∀ m b, tells m b → tells' m b) : Posted about tells' b b' new :=
  h.imp id fun ⟨m, hm, ht⟩ => ⟨m, hm, hle m b' ht⟩

/-- **Whoever knew the old status knows the new one.** -/
theorem Posted.heard {hear : β → μ → β} (h : Posted about tells b b' new)
    (hskip : ∀ v m, about m = false → hear v m = v) (hhear : ∀ v m b, tells m b → hear v m = b) :
    new.foldl hear b = b' := by
  rw [foldl_skip hskip]
  rcases h with ⟨hnone, rfl⟩ | ⟨m, hone, htell⟩
  · rw [hnone]
    rfl
  · rw [hone]
    exact hhear b m b' htell

end Bulletin
