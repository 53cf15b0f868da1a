import Mathlib.Data.Multiset.Filter
import Mathlib.Order.Defs.LinearOrder

/-!
# Pruning a sorted queue from the front

A queue sorted by a key loses its first entries as long as they have run out.  Whether an
entry has run out need not follow the order of the keys: a clock that wraps around makes the
two disagree.

* `Agrees`: what has run out stands before what has not, in the order of the keys.
* `dropWhile_eq_filter_iff`: pruning takes out what has run out, and only that, exactly if the
  two agree.
-/

namespace Expiry

variable {α κ : Type*} [LinearOrder κ] (key : α → κ) (out : α → Bool)

/-- Every entry that has run out has a smaller key than every one that has not. -/
def Agrees (l : List α) : Prop := ∀ a ∈ l, ∀ b ∈ l, out a = true → out b = false → key a < key b

variable {key out} {l : List α}

theorem Agrees.tail {x : α} (h : Agrees key out (x :: l)) : Agrees key out l :=
  fun a ha b hb => h a (List.mem_cons_of_mem x ha) b (List.mem_cons_of_mem x hb)

/-- Pruning a queue where the two orders agree. -/
theorem dropWhile_eq_filter (hs : l.Pairwise fun a b => key a ≤ key b) (h : Agrees key out l) :
    l.dropWhile out = l.filter fun a => !out a := by
  induction l with
  | nil => rfl
  | cons x l ih =>
    obtain ⟨hx, hs⟩ := List.pairwise_cons.mp hs
    cases hout : out x with
    | true => simp [hout, ih hs h.tail]
    | false =>
      have hrest : ∀ a ∈ l, out a = false := by
        intro a ha
        by_contra hne
        have hlt := h a (List.mem_cons_of_mem x ha) x List.mem_cons_self (by simpa using hne) hout
        exact absurd hlt (not_lt.mpr (hx a ha))
      have hfilter : l.filter (fun a => !out a) = l :=
        List.filter_eq_self.mpr fun a ha => by simp [hrest a ha]
      simp [hout, hfilter]

/-- What comes after an entry that has not run out stays. -/
theorem mem_dropWhile_of_lt (hs : l.Pairwise fun a b => key a ≤ key b) {a b : α} (hb : b ∈ l)
    (hout : out b = false) (ha : a ∈ l) (hlt : key b < key a) : a ∈ l.dropWhile out := by
  induction l with
  | nil => cases ha
  | cons x l ih =>
    obtain ⟨hx, hs⟩ := List.pairwise_cons.mp hs
    cases hxout : out x with
    | false => simpa [hxout] using ha
    | true =>
      have hbl : b ∈ l := by
        rcases List.mem_cons.mp hb with rfl | hb
        · rw [hout] at hxout
          cases hxout
        · exact hb
      have hal : a ∈ l := by
        rcases List.mem_cons.mp ha with rfl | ha
        · exact absurd hlt (not_lt.mpr (hx b hbl))
        · exact ha
      simpa [hxout] using ih hs hbl hal

/-- **Pruning is exact** if and only if the two orders agree, where entries of the same key
run out together. -/
theorem dropWhile_eq_filter_iff (hs : l.Pairwise fun a b => key a ≤ key b)
    (hkey : ∀ a b, key a = key b → out a = out b) :
    (l.dropWhile out : Multiset α) = Multiset.filter (fun a => out a = false) (l : Multiset α) ↔
      Agrees key out l := by
  constructor
  · intro heq a ha b hb hout hnot
    rcases lt_trichotomy (key a) (key b) with hlt | hsame | hlt
    · exact hlt
    · rw [hkey a b hsame, hnot] at hout
      cases hout
    · have hmem : a ∈ (l.dropWhile out : Multiset α) := mem_dropWhile_of_lt hs hb hnot ha hlt
      rw [heq, Multiset.mem_filter, hout] at hmem
      cases hmem.2
  · intro h
    rw [dropWhile_eq_filter hs h, Multiset.filter_coe]
    congr 2
    funext a
    cases out a <;> rfl

/-! ## One entry -/

end Expiry
