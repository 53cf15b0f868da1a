import Mathlib.Algebra.Group.Nat.Defs
import Mathlib.Data.List.Basic
import Mathlib.Data.Nat.ModEq

/-!
# Recurrences in a circular buffer

A sequence in which each word is made from three of the `n` words before it.  A buffer of `n` words
holds as many of them in a row, each at its index modulo `n`.

* `run`: the sequence with given first words, `run_obeys`.
* `Holds.set`: the next word of the sequence goes to the place of the oldest.
* `Holds.steps`: so are many, one after the other.
-/

namespace QServ.Recurrence

/-- How far apart the words are that make the next one. -/
structure Taps where
  n : ℕ
  m : ℕ
  one_lt : 1 < n
  lt : m < n

variable {α : Type*} (p : Taps) (f : α → α → α → α)

/-- Each word is made from the one `n` before it, the one after that, and one `m` after it. -/
def Obeys (x : ℕ → α) : Prop := ∀ k, x (k + p.n) = f (x k) (x (k + 1)) (x (k + p.m))

/-- The sequence that begins as `init` does. -/
def run (init : ℕ → α) (k : ℕ) : α :=
  if k < p.n then init k
  else f (run init (k - p.n)) (run init (k - p.n + 1)) (run init (k - p.n + p.m))
termination_by k
decreasing_by
  all_goals
    have h1 := p.one_lt
    have h2 := p.lt
    omega

variable {p f}

theorem run_of_lt {init : ℕ → α} {k : ℕ} (h : k < p.n) : run p f init k = init k := by
  rw [run, if_pos h]

theorem run_obeys (init : ℕ → α) : Obeys p f (run p f init) := by
  intro k
  rw [run, if_neg (by omega), Nat.add_sub_cancel]

/-- The buffer holds the words from `t` on. -/
structure Holds (p : Taps) (x : ℕ → α) (t : ℕ) (s : List α) : Prop where
  length : s.length = p.n
  get : ∀ k, t ≤ k → k < t + p.n → s[k % p.n]? = some (x k)

/-- The word in a place is replaced. -/
def step (f : α → α → α → α) (s : List α) (i j l : ℕ) : Option (List α) := do
  some (s.set i (f (← s[i]?) (← s[j]?) (← s[l]?)))

variable {x : ℕ → α} {t : ℕ} {s : List α}

theorem mod_ne_mod {n k : ℕ} (h : t < k) (hk : k < t + n) : t % n ≠ k % n := by
  intro heq
  have hdvd : n ∣ k - t := (Nat.modEq_iff_dvd' (Nat.le_of_lt h)).mp heq
  have hle := Nat.le_of_dvd (Nat.sub_pos_of_lt h) hdvd
  omega

/-- The next word of the sequence in the place of the oldest. -/
theorem Holds.set (h : Holds p x t s) : Holds p x (t + 1) (s.set (t % p.n) (x (t + p.n))) where
  length := by rw [List.length_set, h.length]
  get k hk hk' := by
    by_cases hlast : k = t + p.n
    · have hpos := p.one_lt
      have hlt : t % p.n < s.length := by
        rw [h.length]
        exact Nat.mod_lt t (by omega)
      rw [hlast, Nat.add_mod_right]
      exact List.getElem?_set_self hlt
    · rw [List.getElem?_set_ne (mod_ne_mod hk (by omega))]
      exact h.get k (by omega) (by omega)

/-- **The oldest word** is replaced by the one that is made from it. -/
theorem Holds.step (hx : Obeys p f x) (h : Holds p x t s) {i j l : ℕ} (hi : i = t % p.n)
    (hj : j = (t + 1) % p.n) (hl : l = (t + p.m) % p.n) :
    step f s i j l = some (s.set i (x (t + p.n))) := by
  have h1 := p.one_lt
  have h2 := p.lt
  unfold Recurrence.step
  rw [hi, hj, hl, h.get t (Nat.le_refl t) (by omega), h.get (t + 1) (by omega) (by omega),
    h.get (t + p.m) (by omega) (by omega), hx t]
  rfl

/-- The places from `i` on are replaced, `c` of them. -/
def steps (p : Taps) (f : α → α → α → α) : ℕ → ℕ → List α → Option (List α)
  | 0, _, s => some s
  | c + 1, i, s => (Recurrence.step f s (i % p.n) ((i + 1) % p.n) ((i + p.m) % p.n)).bind
      (steps p f c (i + 1))

/-- **Many words.** -/
theorem Holds.steps (hx : Obeys p f x) (c : ℕ) : ∀ {t i : ℕ} {s : List α}, i % p.n = t % p.n →
    Holds p x t s → ∃ s', steps p f c i s = some s' ∧ Holds p x (t + c) s' := by
  induction c with
  | zero =>
    intro t i s _ h
    exact ⟨s, rfl, h⟩
  | succ c ih =>
    intro t i s hi h
    have hadd : ∀ d, (i + d) % p.n = (t + d) % p.n := fun d => Nat.ModEq.add_right d hi
    have hs := h.step hx hi (hadd 1) (hadd p.m)
    rw [hi] at hs
    obtain ⟨s', hs', h'⟩ := ih (hadd 1) h.set
    refine ⟨s', ?_, ?_⟩
    · rw [Recurrence.steps, hi, hs]
      exact hs'
    · rwa [Nat.add_comm c 1, ← Nat.add_assoc]

end QServ.Recurrence
