import Mathlib.Order.Basic

/-!
# Partial results and loops with a measure

A result may be missing.  A loop is a step that goes on with a new state or ends with a result, and
a bound on the rounds.

* `Yields`: there is a result, and it is as it should be.
* `loop`: the rounds; `none` if the bound is reached.
* `loop_spec`: what holds at the head of each round holds of the result, and a measure that gets
  less bounds the rounds.
* `loop_keeps`: the same for a loop that may end without a result.
* `Ends`: the rounds without a bound; `Ends.loop_eq` is for a measure that gets less.
-/

namespace Loop

variable {σ ρ α β : Type}

/-- There is a result, and this holds of it. -/
def Yields (x : Option α) (Post : α → Prop) : Prop := ∃ a, x = some a ∧ Post a

theorem Yields.pure {Post : α → Prop} {a : α} (h : Post a) : Yields (some a) Post := ⟨a, rfl, h⟩

/-- One result after the other. -/
theorem Yields.bind {x : Option α} {f : α → Option β} {Post : α → Prop} {Post' : β → Prop}
    (hx : Yields x Post) (hf : ∀ a, Post a → Yields (f a) Post') : Yields (x >>= f) Post' := by
  obtain ⟨a, rfl, ha⟩ := hx
  exact hf a ha

theorem Yields.imp {x : Option α} {Post Post' : α → Prop} (hx : Yields x Post)
    (h : ∀ a, Post a → Post' a) : Yields x Post' := by
  obtain ⟨a, hxa, ha⟩ := hx
  exact ⟨a, hxa, h a ha⟩

/-- Rounds of a step, no more than so many. -/
def loop (step : σ → Option (σ ⊕ ρ)) : Nat → σ → Option ρ
  | 0, _ => none
  | n + 1, s =>
    match step s with
    | none => none
    | some (.inl s) => loop step n s
    | some (.inr r) => some r

/-- What one round does, from a state in which the invariant holds. -/
def Round (Inv : σ → Prop) (μ : σ → Nat) (Post : ρ → Prop) (s : σ) : σ ⊕ ρ → Prop
  | .inl t => Inv t ∧ μ t < μ s
  | .inr r => Post r

/-- **The rule for loops**. -/
theorem loop_spec {step : σ → Option (σ ⊕ ρ)} (Inv : σ → Prop) (μ : σ → Nat) (Post : ρ → Prop)
    (hstep : ∀ s, Inv s → Yields (step s) (Round Inv μ Post s)) :
    ∀ (n : Nat) (s : σ), Inv s → μ s < n → Yields (loop step n s) Post := by
  intro n
  induction n with
  | zero => exact fun s _ hn => absurd hn (Nat.not_lt_zero _)
  | succ n ih =>
    intro s hs hn
    obtain ⟨x, hx, hround⟩ := hstep s hs
    rw [loop, hx]
    cases x with
    | inl t => exact ih t hround.1 (by have := hround.2; omega)
    | inr r => exact ⟨r, rfl, hround⟩

/-- What each round keeps holds of the result, if there is one. -/
theorem loop_keeps {step : σ → Option (σ ⊕ ρ)} {Inv : σ → Prop} {Post : ρ → Prop}
    (hnext : ∀ s, Inv s → ∀ t, step s = some (.inl t) → Inv t)
    (hdone : ∀ s, Inv s → ∀ r, step s = some (.inr r) → Post r) :
    ∀ {n : Nat} {s : σ} {r : ρ}, Inv s → loop step n s = some r → Post r := by
  intro n
  induction n with
  | zero => exact fun _ h => by cases h
  | succ n ih =>
    intro s r hs h
    rw [loop] at h
    cases hstep : step s with
    | none =>
      rw [hstep] at h
      cases h
    | some t =>
      rw [hstep] at h
      cases t with
      | inl t => exact ih (hnext s hs t hstep) h
      | inr r' =>
        obtain rfl := Option.some.inj h
        exact hdone s hs r' hstep

/-- Rounds from a state end with a result. -/
inductive Ends (step : σ → Option (σ ⊕ ρ)) : σ → ρ → Prop
  | done {s : σ} {r : ρ} (h : step s = some (.inr r)) : Ends step s r
  | next {s t : σ} {r : ρ} (h : step s = some (.inl t)) (ht : Ends step t r) : Ends step s r

/-- **Enough rounds** are made. -/
theorem Ends.loop_eq {step : σ → Option (σ ⊕ ρ)} (μ : σ → Nat)
    (hless : ∀ s t, step s = some (.inl t) → μ t < μ s) {s : σ} {r : ρ} (h : Ends step s r) :
    ∀ n, μ s < n → loop step n s = some r := by
  induction h with
  | done h =>
    intro n hn
    obtain ⟨n, rfl⟩ := Nat.exists_eq_succ_of_ne_zero (Nat.ne_zero_of_lt hn)
    rw [loop, h]
  | next h _ ih =>
    intro n hn
    obtain ⟨n, rfl⟩ := Nat.exists_eq_succ_of_ne_zero (Nat.ne_zero_of_lt hn)
    rw [loop, h]
    exact ih n (Nat.lt_of_lt_of_le (hless _ _ h) (Nat.le_of_lt_succ hn))

end Loop
