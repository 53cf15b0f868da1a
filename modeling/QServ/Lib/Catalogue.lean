import Mathlib.Data.List.Nodup
import Mathlib.Logic.Relation

/-!
# A register with a published copy

Entries that come, change and go, and a copy of those that are shown which is made anew only when it
is marked as out of date.

* `Step`: what can happen to the register; a change keeps the name of the entry.
* `Sound`: keys are unique, there are limits, and a copy that is not marked is right.
* `Sound.step`, `Sound.steps`: what can happen keeps it sound.
-/

namespace Catalogue

variable {α ν κ η β : Type*}

/-- The entries, whether the copy is out of date, and the copy. -/
structure Register (α β : Type*) where
  entries : List α
  dirty : Bool
  published : Option β

/-- What is said of the entries: their names, what the names are told apart by, what they are
counted by, which of them are shown, what a copy says, and the limits. -/
structure Scheme (α ν κ η β : Type*) where
  name : α → ν
  key : ν → κ
  group : ν → η
  shown : α → Bool
  tells : List ν → β → Prop
  limit : Nat
  dups : Nat

section

variable [DecidableEq η] (S : Scheme α ν κ η β)

/-- The names of those that are shown. -/
def Scheme.names (entries : List α) : List ν := (entries.filter S.shown).map S.name

/-- What can happen. -/
inductive Step : Register α β → Register α β → Prop
  | add {c : Register α β} {a : α} (hfree : ∀ b ∈ c.entries, S.key (S.name b) ≠ S.key (S.name a))
      (hroom : c.entries.length < S.limit)
      (hfew : (c.entries.countP fun b => S.group (S.name b) = S.group (S.name a)) < S.dups)
      (hidden : S.shown a = false) : Step c { c with entries := c.entries ++ [a] }
  | change {c : Register α β} {l₁ l₂ : List α} {a b : α} (hc : c.entries = l₁ ++ a :: l₂)
      (hname : S.name b = S.name a) (hshown : S.shown a = true → S.shown b = true) :
      Step c { c with entries := l₁ ++ b :: l₂, dirty := c.dirty || !(S.shown a == S.shown b) }
  | remove {c : Register α β} {l₁ l₂ : List α} {a : α} (hc : c.entries = l₁ ++ a :: l₂) :
      Step c { c with entries := l₁ ++ l₂, dirty := true }
  | publish {c : Register α β} {b : β} (htells : S.tells (S.names c.entries) b) :
      Step c { c with dirty := false, published := some b }

/-- The limits are met, and a copy that is not out of date says what it should. -/
structure Sound (c : Register α β) : Prop where
  unique : (c.entries.map fun a => S.key (S.name a)).Nodup
  total : c.entries.length ≤ S.limit
  dups : ∀ g, (c.entries.countP fun a => S.group (S.name a) = g) ≤ S.dups
  copy : c.dirty = false → ∃ b, c.published = some b ∧ S.tells (S.names c.entries) b

variable {S} {c d : Register α β}

/-- **A register stays sound**, whatever happens. -/
theorem Sound.step (h : Sound S c) (hstep : Step S c d) : Sound S d := by
  cases hstep with
  | @add a hfree hroom hfew hidden =>
    refine ⟨?_, ?_, fun g => ?_, fun hclean => ?_⟩
    · rw [List.map_append]
      refine List.Nodup.append h.unique (List.nodup_singleton _) fun k hk hk' => ?_
      obtain ⟨b, hb, rfl⟩ := List.mem_map.mp hk
      exact hfree b hb (List.mem_singleton.mp hk')
    · rw [List.length_append, List.length_singleton]
      exact hroom
    · rw [List.countP_append, List.countP_singleton]
      split
      · next hg =>
        rw [← of_decide_eq_true hg]
        exact hfew
      · exact h.dups g
    · obtain ⟨b, hb, htells⟩ := h.copy hclean
      refine ⟨b, hb, ?_⟩
      have hnames : S.names (c.entries ++ [a]) = S.names c.entries := by
        simp [Scheme.names, hidden]
      rwa [hnames]
  | @change l₁ l₂ a b hc hname hshown =>
    have hunique := h.unique
    have htotal := h.total
    have hdups := h.dups
    rw [hc] at hunique htotal hdups
    refine ⟨?_, ?_, fun g => ?_, fun hclean => ?_⟩
    · rw [List.map_append, List.map_cons] at hunique ⊢
      rwa [hname]
    · rw [List.length_append, List.length_cons] at htotal ⊢
      exact htotal
    · have hg := hdups g
      rw [List.countP_append, List.countP_cons] at hg ⊢
      rwa [hname]
    · obtain ⟨hclean, hsame⟩ := Bool.or_eq_false_iff.mp hclean
      have heq : S.shown a = S.shown b := by simpa using hsame
      obtain ⟨t, ht, htells⟩ := h.copy hclean
      refine ⟨t, ht, ?_⟩
      have hnames : S.names (l₁ ++ b :: l₂) = S.names (l₁ ++ a :: l₂) := by
        unfold Scheme.names
        rw [List.filter_append, List.filter_append, List.filter_cons, List.filter_cons, heq]
        split <;> simp [hname]
      rwa [hnames, ← hc]
  | @remove l₁ l₂ a hc =>
    have hsub : (l₁ ++ l₂).Sublist c.entries := by
      rw [hc]
      exact (List.Sublist.refl l₁).append (List.sublist_cons_self a l₂)
    exact ⟨h.unique.sublist (hsub.map _), Nat.le_trans hsub.length_le h.total,
      fun g => Nat.le_trans hsub.countP_le (h.dups g), nofun⟩
  | @publish b htells => exact ⟨h.unique, h.total, h.dups, fun _ => ⟨b, rfl, htells⟩⟩

theorem Sound.steps (h : Sound S c) (hsteps : Relation.ReflTransGen (Step S) c d) : Sound S d := by
  induction hsteps with
  | refl => exact h
  | tail _ hstep ih => exact ih.step hstep

end

end Catalogue
