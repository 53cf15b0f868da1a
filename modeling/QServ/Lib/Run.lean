import Mathlib.Data.List.Induction

/-!
# Runs of a step function that may fail

A system is a step function `step : σ → ε → Except φ σ`; an error is a fault after which
nothing more is said.  `Steps` are the runs whose every step meets a side condition `ok`.

* `Steps.invariant`: the induction rule for runs.
* `Steps.history`: the same for what also depends on the events so far.
* `Steps.of_any`: a run that is computed.
* `Since`: something has happened, and something has been so from then on.
-/

namespace Run

variable {σ ε φ : Type*}

/-- A run from one state to another along a list of events, each step meeting `ok`. -/
inductive Steps (step : σ → ε → Except φ σ) (ok : σ → ε → Prop) : σ → List ε → σ → Prop where
  | nil (s : σ) : Steps step ok s [] s
  | cons {s t u : σ} {e : ε} {es : List ε} (hok : ok s e) (hstep : step s e = .ok t)
      (hrest : Steps step ok t es u) : Steps step ok s (e :: es) u

variable {step : σ → ε → Except φ σ} {ok ok' : σ → ε → Prop} {s t u : σ} {es es' : List ε}

/-- **The invariant rule**: what the start satisfies and each step preserves holds at the
end of the run. -/
theorem Steps.invariant (I : σ → Prop)
    (hstep : ∀ s e t, I s → ok s e → step s e = .ok t → I t)
    (hrun : Steps step ok s es t) (hs : I s) : I t := by
  induction hrun with
  | nil => exact hs
  | cons hok hst _ ih => exact ih (hstep _ _ _ hs hok hst)

/-- **The history rule**: an invariant that looks at the events so far. -/
theorem Steps.history (I : List ε → σ → Prop)
    (hstep : ∀ es s e t, I es s → ok s e → step s e = .ok t → I (es ++ [e]) t)
    (hrun : Steps step ok s es t) : ∀ pre, I pre s → I (pre ++ es) t := by
  induction hrun with
  | nil =>
    intro pre hs
    rwa [List.append_nil]
  | @cons s u t e es hok hst _ ih =>
    intro pre hs
    have := ih (pre ++ [e]) (hstep pre s e u hs hok hst)
    rwa [List.append_assoc] at this

theorem Steps.append (h : Steps step ok s es t) (h' : Steps step ok t es' u) :
    Steps step ok s (es ++ es') u := by
  induction h with
  | nil => exact h'
  | cons hok hst _ ih => exact .cons hok hst (ih h')

theorem Steps.single {e : ε} (hok : ok s e) (hst : step s e = .ok t) :
    Steps step ok s [e] t :=
  .cons hok hst (.nil t)

theorem Steps.mono (hle : ∀ s e, ok s e → ok' s e) (h : Steps step ok s es t) :
    Steps step ok' s es t := by
  induction h with
  | nil => exact .nil _
  | cons hok hst _ ih => exact .cons (hle _ _ hok) hst ih

/-- Run the events one after the other. -/
def exec (step : σ → ε → Except φ σ) : σ → List ε → Except φ σ
  | s, [] => .ok s
  | s, e :: es => (step s e).bind fun t => exec step t es

/-- A run that is computed, of events that meet the condition in every state. -/
theorem Steps.of_exec : ∀ {es : List ε} {s : σ}, (∀ e ∈ es, ∀ s, ok s e) →
    exec step s es = .ok t → Steps step ok s es t := by
  intro es
  induction es with
  | nil =>
    intro s _ h
    obtain rfl := Except.ok.inj h
    exact .nil s
  | cons e es ih =>
    intro s hok h
    unfold exec at h
    cases hs : step s e with
    | error f => rw [hs] at h; cases h
    | ok u =>
      rw [hs] at h
      exact .cons (hok e List.mem_cons_self s) hs
        (ih (fun e he => hok e (List.mem_cons_of_mem _ he)) h)

/-- The state a computed run ends in, with what a test says of it. -/
theorem exec_of_any {p : σ → Bool} (h : (exec step s es).toOption.any p) :
    ∃ t, exec step s es = .ok t ∧ p t := by
  cases hs : exec step s es with
  | error f => rw [hs] at h; cases h
  | ok t =>
    rw [hs] at h
    exact ⟨t, rfl, h⟩

/-- The same of a run of events that meet the condition in every state. -/
theorem Steps.of_any (step : σ → ε → Except φ σ) (ok : σ → ε → Prop) (s : σ) (es : List ε)
    {p : σ → Bool} (hok : ∀ e ∈ es, ∀ s, ok s e)
    (h : (exec step s es).toOption.any p) : ∃ t, Steps step ok s es t ∧ p t := by
  obtain ⟨t, hs, hp⟩ := exec_of_any h
  exact ⟨t, .of_exec hok hs, hp⟩

theorem exec_snoc (step : σ → ε → Except φ σ) (es : List ε) (e : ε) (s : σ) :
    exec step s (es ++ [e]) = (exec step s es).bind fun t => step t e := by
  induction es generalizing s with
  | nil =>
    change (step s e).bind Except.ok = step s e
    cases step s e <;> rfl
  | cons d es ih =>
    change (step s d).bind _ = ((step s d).bind _).bind _
    cases step s d with
    | error f => rfl
    | ok t => exact ih t

/-- **The history rule** for a run that is computed. -/
theorem exec_history (I : List ε → σ → Prop) (hs : I [] s)
    (hstep : ∀ es u e v, exec step s es = .ok u → I es u → step u e = .ok v → I (es ++ [e]) v) :
    ∀ {es : List ε} {t : σ}, exec step s es = .ok t → I es t := by
  intro es
  induction es using List.reverseRecOn with
  | nil =>
    intro t h
    obtain rfl := Except.ok.inj h
    exact hs
  | append_singleton es e ih =>
    intro t h
    rw [exec_snoc] at h
    cases hu : exec step s es with
    | error f =>
      rw [hu] at h
      cases h
    | ok u =>
      rw [hu] at h
      exact hstep es u e t hu (ih hu) h

/-- Something has happened, and ever since then the events so far are as `Q` says. -/
def Since (Q : List ε → Prop) (P : List ε → ε → Prop) (es : List ε) : Prop :=
  ∃ es₁ e es₂, es = es₁ ++ e :: es₂ ∧ P es₁ e ∧ ∀ es₃, es₃ <+: es₂ → Q (es₁ ++ e :: es₃)

section

variable {Q : List ε → Prop} {P : List ε → ε → Prop} {e : ε}

theorem Since.now (h : P es e) (hq : Q (es ++ [e])) : Since Q P (es ++ [e]) := by
  refine ⟨es, e, [], rfl, h, fun es₃ hes₃ => ?_⟩
  obtain rfl := List.prefix_nil.mp hes₃
  exact hq

theorem Since.snoc (h : Since Q P es) (hq : Q (es ++ [e])) : Since Q P (es ++ [e]) := by
  obtain ⟨es₁, d, es₂, rfl, hp, hall⟩ := h
  refine ⟨es₁, d, es₂ ++ [e], by simp, hp, fun es₃ hes₃ => ?_⟩
  obtain rfl | hes₃ := List.prefix_concat_iff.mp hes₃
  · simpa using hq
  · exact hall es₃ hes₃

theorem Since.cases (h : Since Q P (es ++ [e])) : P es e ∨ Since Q P es := by
  obtain ⟨es₁, d, es₂, heq, hp, hall⟩ := h
  obtain rfl | ⟨es₂, f, rfl⟩ := es₂.eq_nil_or_concat
  · obtain ⟨rfl, hd⟩ := List.append_inj' heq rfl
    obtain rfl := (List.cons.inj hd).1
    exact .inl hp
  · rw [List.concat_eq_append] at heq hall
    rw [← List.cons_append, ← List.append_assoc] at heq
    obtain ⟨rfl, -⟩ := List.append_inj' heq rfl
    refine .inr ⟨es₁, d, es₂, rfl, hp, fun es₃ hes₃ => ?_⟩
    exact hall es₃ (hes₃.trans (List.prefix_append _ _))

/-- It is so now. -/
theorem Since.holds (h : Since Q P es) : Q es := by
  obtain ⟨es₁, d, es₂, rfl, -, hall⟩ := h
  exact hall es₂ (List.prefix_refl _)

end

/-- Run the events as long as they meet a condition. -/
def execIf (step : σ → ε → Except φ σ) (ok : σ → ε → Prop) [∀ s e, Decidable (ok s e)] :
    σ → List ε → Option σ
  | s, [] => some s
  | s, e :: es =>
    if ok s e then
      match step s e with
      | .error _ => none
      | .ok t => execIf step ok t es
    else none

theorem Steps.of_execIf_eq [∀ s e, Decidable (ok s e)] {es : List ε} :
    ∀ {s : σ}, execIf step ok s es = some t → Steps step ok s es t := by
  induction es with
  | nil =>
    intro s h
    obtain rfl := Option.some.inj h
    exact .nil s
  | cons e es ih =>
    intro s h
    unfold execIf at h
    split at h
    · next hok =>
      cases hs : step s e with
      | error f =>
        rw [hs] at h
        cases h
      | ok u =>
        rw [hs] at h
        exact .cons hok hs (ih h)
    · cases h

/-- The state a computed run ends in whose every step meets the condition. -/
theorem Steps.of_execIf (step : σ → ε → Except φ σ) (ok : σ → ε → Prop)
    [∀ s e, Decidable (ok s e)] (s : σ) (es : List ε) {p : σ → Prop} [DecidablePred p]
    (h : (execIf step ok s es).any fun t => decide (p t)) : ∃ t, Steps step ok s es t ∧ p t := by
  cases hs : execIf step ok s es with
  | none =>
    rw [hs] at h
    cases h
  | some t =>
    rw [hs] at h
    exact ⟨t, .of_execIf_eq hs, of_decide_eq_true h⟩

/-- A state some run from `s` reaches. -/
def Reachable (step : σ → ε → Except φ σ) (s t : σ) : Prop :=
  ∃ es, Steps step (fun _ _ => True) s es t

theorem Reachable.refl (s : σ) : Reachable step s s := ⟨[], .nil s⟩

theorem Reachable.trans (h : Reachable step s t) (h' : Reachable step t u) :
    Reachable step s u := by
  obtain ⟨es, h⟩ := h
  obtain ⟨es', h'⟩ := h'
  exact ⟨es ++ es', h.append h'⟩

theorem Reachable.snoc {e : ε} (h : Reachable step s t) (hst : step t e = .ok u) :
    Reachable step s u :=
  h.trans ⟨[e], .single trivial hst⟩

theorem Reachable.invariant (I : σ → Prop) (hstep : ∀ s e t, I s → step s e = .ok t → I t)
    (h : Reachable step s t) (hs : I s) : I t := by
  obtain ⟨es, hrun⟩ := h
  exact hrun.invariant I (fun s e t hI _ => hstep s e t hI) hs

theorem Reachable.of_any (step : σ → ε → Except φ σ) (s : σ) (es : List ε) {p : σ → Bool}
    (h : (exec step s es).toOption.any p) : ∃ t, Reachable step s t ∧ p t := by
  obtain ⟨t, ht, hp⟩ := Steps.of_any step (fun _ _ => True) s es (fun _ _ _ => trivial) h
  exact ⟨t, ⟨es, ht⟩, hp⟩

end Run
