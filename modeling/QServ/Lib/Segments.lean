import Mathlib.Algebra.Order.Group.Nat
import Mathlib.Data.Nat.Find
import Mathlib.Logic.Function.Iterate

/-!
# Segments between separators

The places of a sequence at which a test holds fall into segments.  A place has a successor: the
next place, or the first one of the segment where that ends.

* `Segment`: a run of places at which the test holds, between two at which it does not.
* `start`, `next`: the first place of a segment, found by going back, and the successor.
* `Segment.iterate_next`: going on goes through the segment in order, again and again.
* `Segment.visits`: every place of the segment is visited before a place is left a second time.
-/

namespace Segments

/-- The test holds from `a` up to `b` and at neither end. -/
structure Segment (p : Nat → Bool) (a b : Nat) : Prop where
  inside : ∀ i, a ≤ i → i < b → p i = true
  before : a = 0 ∨ p (a - 1) = false
  after : p b = false

/-- Going back as long as the test holds at the place before. -/
def start (p : Nat → Bool) : Nat → Nat
  | 0 => 0
  | i + 1 => if p i then start p i else i + 1

/-- The successor of a place at which the test holds. -/
def next (p : Nat → Bool) (i : Nat) : Nat := if p (i + 1) then i + 1 else start p (i + 1)

variable {p : Nat → Bool} {a b i j : Nat}

/-- A place at which the test holds is in a segment, where the test fails in the end. -/
theorem exists_segment {n : Nat} (hn : ∀ j, n ≤ j → p j = false) (hi : p i = true) :
    ∃ a b, Segment p a b ∧ a ≤ i ∧ i < b := by
  -- the first place from `i` on at which the test fails
  obtain ⟨b, hb, hib, hmin⟩ : ∃ b, p b = false ∧ i ≤ b ∧ ∀ j, i ≤ j → j < b → p j = true := by
    have hex : ∃ b, i ≤ b ∧ p b = false := ⟨max i n, by omega, hn _ (by omega)⟩
    obtain ⟨hle, hfail⟩ := Nat.find_spec hex
    refine ⟨Nat.find hex, hfail, hle, fun j hij hj => ?_⟩
    have hnot := Nat.find_min hex hj
    by_contra hne
    exact hnot ⟨hij, by simpa using hne⟩
  have hlt : i < b := by
    rcases Nat.lt_or_eq_of_le hib with h | h
    · exact h
    · rw [h, hb] at hi
      cases hi
  -- and the last one before it
  obtain ⟨a, ha, hai, hbefore⟩ : ∃ a, (∀ j, a ≤ j → j ≤ i → p j = true) ∧ a ≤ i ∧
      (a = 0 ∨ p (a - 1) = false) := by
    clear hmin hlt hib hb
    induction i with
    | zero =>
      refine ⟨0, fun j _ hj => ?_, Nat.le_refl 0, Or.inl rfl⟩
      obtain rfl : j = 0 := by omega
      exact hi
    | succ i ih =>
      cases hp : p i with
      | false =>
        refine ⟨i + 1, fun j hj hj' => ?_, Nat.le_refl _, Or.inr (by simpa using hp)⟩
        obtain rfl : j = i + 1 := by omega
        exact hi
      | true =>
        obtain ⟨a, ha, hai, hbefore⟩ := ih hp
        refine ⟨a, fun j hj hj' => ?_, by omega, hbefore⟩
        rcases Nat.lt_or_eq_of_le hj' with h | h
        · exact ha j hj (by omega)
        · rw [h]
          exact hi
  refine ⟨a, b, ⟨fun j haj hjb => ?_, hbefore, hb⟩, hai, hlt⟩
  rcases Nat.le_total j i with h | h
  · exact ha j haj h
  · exact hmin j h hjb

namespace Segment

variable (h : Segment p a b)

include h

/-- Going back ends at the start of the segment. -/
theorem start_eq (hi : a ≤ i) (hi' : i ≤ b) : start p i = a := by
  induction i with
  | zero =>
    obtain rfl : a = 0 := by omega
    rfl
  | succ i ih =>
    unfold start
    rcases Nat.lt_or_eq_of_le hi with hlt | heq
    · rw [if_pos (h.inside i (by omega) (by omega))]
      exact ih (by omega) (by omega)
    · rcases h.before with h0 | hfail
      · omega
      · rw [← heq] at hi ⊢
        have hi0 : p i = false := by
          rw [heq] at hfail
          simpa using hfail
        rw [hi0]
        rfl

/-- **One step** stays in the segment. -/
theorem next_eq (hi : a ≤ i) (hi' : i < b) : next p i = a + (i - a + 1) % (b - a) := by
  unfold next
  rcases Nat.lt_or_eq_of_le hi' with hlt | heq
  · rw [if_pos (h.inside (i + 1) (by omega) hlt), Nat.mod_eq_of_lt (by omega)]
    omega
  · have hend : p (i + 1) = false := by
      rw [show i + 1 = b from heq]
      exact h.after
    rw [hend, if_neg Bool.false_ne_true, h.start_eq (by omega) (by omega),
      show i - a + 1 = b - a by omega, Nat.mod_self]
    rfl

/-- **Repeated steps** go through the segment in order, again and again. -/
theorem iterate_next (hi : a ≤ i) (hi' : i < b) (k : Nat) :
    (next p)^[k] i = a + (i - a + k) % (b - a) := by
  induction k with
  | zero =>
    rw [Nat.add_zero, Nat.mod_eq_of_lt (by omega)]
    change i = a + (i - a)
    omega
  | succ k ih =>
    have hpos : 0 < b - a := by omega
    have hlt := Nat.mod_lt (i - a + k) hpos
    rw [Function.iterate_succ_apply', ih, h.next_eq (by omega) (by omega), Nat.add_sub_cancel_left,
      Nat.mod_add_mod, Nat.add_assoc]

/-- Steps stay in the segment. -/
theorem iterate_mem (hi : a ≤ i) (hi' : i < b) (k : Nat) :
    a ≤ (next p)^[k] i ∧ (next p)^[k] i < b := by
  rw [h.iterate_next hi hi']
  have := Nat.mod_lt (i - a + k) (show 0 < b - a by omega)
  omega

/-- **Every place of the segment is visited**, within as many steps as it has places. -/
theorem visits (hi : a ≤ i) (hi' : i < b) (hj : a ≤ j) (hj' : j < b) :
    ∃ k < b - a, (next p)^[k] i = j := by
  have hpos : 0 < b - a := by omega
  refine ⟨(j - a + (b - a) - (i - a)) % (b - a), Nat.mod_lt _ hpos, ?_⟩
  rw [h.iterate_next hi hi', Nat.add_mod_mod,
    show i - a + (j - a + (b - a) - (i - a)) = j - a + (b - a) by omega, Nat.add_mod_right,
    Nat.mod_eq_of_lt (by omega)]
  omega

end Segment

end Segments
