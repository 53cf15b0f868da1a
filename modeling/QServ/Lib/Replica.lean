import Mathlib.Data.List.Basic

/-!
# Copies kept up by messages

A state changes and tells, in messages, what a copy of it should do.  `Agree` says when the copy
is right; an operation is followed if a right copy that applies the messages is right afterwards.

* `Told`: what an operation leaves and what it tells; `andThen` and `loop` put operations together.
* `Follows`: the copy keeps up with an operation, with a rule for each way to put them together.
* `replay`, `follows_replay`: the copy keeps up with a run.
* `Tracks`: the same for a state that keeps a log of what was sent, under an invariant.
-/

namespace Replica

variable {σ κ μ ε α : Type*}

/-- What an operation leaves and the messages it sends. -/
structure Told (σ μ : Type*) where
  state : σ
  sent : List μ

/-- Nothing is said. -/
def quiet (s : σ) : Told σ μ := ⟨s, []⟩

/-- One operation and then another. -/
def Told.andThen (r : Told σ μ) (f : σ → Told σ μ) : Told σ μ :=
  ⟨(f r.state).state, r.sent ++ (f r.state).sent⟩

/-- An operation for each element of a list. -/
def loop (f : α → σ → Told σ μ) (l : List α) (s : σ) : Told σ μ :=
  l.foldl (fun r a => r.andThen (f a)) (quiet s)

/-- A run. -/
def replay (tell : σ → ε → Told σ μ) (s : σ) (es : List ε) : Told σ μ :=
  loop (fun e s => tell s e) es s

@[simp] theorem andThen_state (r : Told σ μ) (f : σ → Told σ μ) :
    (r.andThen f).state = (f r.state).state :=
  rfl

@[simp] theorem quiet_state (s : σ) : (quiet s : Told σ μ).state = s := rfl

@[simp] theorem quiet_sent (s : σ) : (quiet s : Told σ μ).sent = [] := rfl

theorem quiet_andThen (s : σ) (f : σ → Told σ μ) : (quiet s).andThen f = f s := rfl

theorem andThen_assoc (r : Told σ μ) (f g : σ → Told σ μ) :
    (r.andThen f).andThen g = r.andThen fun s => (f s).andThen g := by
  simp [Told.andThen, List.append_assoc]

theorem loop_cons (f : α → σ → Told σ μ) (a : α) (l : List α) (s : σ) :
    loop f (a :: l) s = (f a s).andThen (loop f l) := by
  have hfold : ∀ (l : List α) (r : Told σ μ),
      l.foldl (fun r a => r.andThen (f a)) r = r.andThen (loop f l) := by
    intro l
    induction l with
    | nil =>
      intro r
      simp [loop, Told.andThen, quiet]
    | cons b l ih =>
      intro r
      rw [List.foldl_cons, ih, andThen_assoc]
      refine congrArg r.andThen (funext fun s => ?_)
      rw [loop, List.foldl_cons, ih]
      rfl
  rw [loop, List.foldl_cons, hfold]
  rfl

@[simp] theorem loop_nil (f : α → σ → Told σ μ) (s : σ) : loop f [] s = quiet s := rfl

/-- What a loop leaves, where each round leaves what `g` says. -/
theorem loop_state {f : α → σ → Told σ μ} {g : σ → α → σ} (h : ∀ a s, (f a s).state = g s a)
    (l : List α) (s : σ) : (loop f l s).state = l.foldl g s := by
  induction l generalizing s with
  | nil => rfl
  | cons a l ih => rw [loop_cons, andThen_state, ih, h, List.foldl_cons]

variable (apply : κ → μ → κ) (Agree : σ → κ → Prop)

/-- A copy that agrees before agrees afterwards, when it has applied the messages. -/
def Follows (s : σ) (r : Told σ μ) : Prop :=
  ∀ c, Agree s c → Agree r.state (r.sent.foldl apply c)

variable {apply Agree} {s t : σ} {r : Told σ μ} {f : σ → Told σ μ}

theorem Follows.quiet (h : ∀ c, Agree s c → Agree t c) :
    Follows apply Agree s (quiet t : Told σ μ) :=
  h

theorem Follows.stay : Follows apply Agree s (Replica.quiet s : Told σ μ) := fun _ h => h

theorem Follows.andThen (h : Follows apply Agree s r)
    (hf : Follows apply Agree r.state (f r.state)) : Follows apply Agree s (r.andThen f) := by
  intro c hc
  unfold Told.andThen
  rw [List.foldl_append]
  exact hf _ (h c hc)

/-- A change that no copy sees, in front of an operation. -/
theorem Follows.after (h : ∀ c, Agree s c → Agree t c) (ht : Follows apply Agree t r) :
    Follows apply Agree s r :=
  fun c hc => ht c (h c hc)

theorem Follows.loop {f : α → σ → Told σ μ} (h : ∀ a s, Follows apply Agree s (f a s)) (l : List α)
    (s : σ) : Follows apply Agree s (Replica.loop f l s) := by
  induction l generalizing s with
  | nil => exact .stay
  | cons a l ih =>
    rw [loop_cons]
    exact (h a s).andThen (ih _)

/-- **Runs.**  A copy that agrees at some time agrees from then on. -/
theorem follows_replay {tell : σ → ε → Told σ μ} (h : ∀ s e, Follows apply Agree s (tell s e))
    (s : σ) (es : List ε) : Follows apply Agree s (replay tell s es) :=
  .loop (fun e s => h s e) es s

/-! ## Logs -/

section Logs

variable (apply Agree) (Inv : σ → Prop) (log : σ → List μ)

/-- From a state with the invariant to another, whose log is longer by what a copy has to apply. -/
def Tracks (s t : σ) : Prop :=
  Inv s → Inv t ∧ ∃ sent, log t = log s ++ sent ∧ Follows apply Agree s ⟨t, sent⟩

variable {apply Agree Inv log} {u : σ}

theorem Tracks.of_quiet (hinv : Inv s → Inv t) (hlog : log t = log s)
    (h : ∀ c, Inv s → Agree s c → Agree t c) : Tracks apply Agree Inv log s t :=
  fun hs => ⟨hinv hs, [], by rw [hlog, List.append_nil], fun c => h c hs⟩

/-- One message is sent. -/
theorem Tracks.of_sent {m : μ} (hinv : Inv s → Inv t) (hlog : log t = log s ++ [m])
    (h : ∀ c, Inv s → Agree s c → Agree t (apply c m)) : Tracks apply Agree Inv log s t :=
  fun hs => ⟨hinv hs, [m], hlog, fun c => h c hs⟩

theorem Tracks.refl (s : σ) : Tracks apply Agree Inv log s s :=
  .of_quiet id rfl fun _ _ h => h

theorem Tracks.trans (h : Tracks apply Agree Inv log s t) (h' : Tracks apply Agree Inv log t u) :
    Tracks apply Agree Inv log s u := by
  intro hs
  obtain ⟨ht, sent, hlog, hfollows⟩ := h hs
  obtain ⟨hu, sent', hlog', hfollows'⟩ := h' ht
  refine ⟨hu, sent ++ sent', by rw [hlog', hlog, List.append_assoc], fun c hc => ?_⟩
  rw [List.foldl_append]
  exact hfollows' _ (hfollows c hc)

theorem Tracks.foldl {body : σ → α → σ} (h : ∀ s a, Tracks apply Agree Inv log s (body s a))
    (l : List α) (s : σ) : Tracks apply Agree Inv log s (l.foldl body s) := by
  induction l generalizing s with
  | nil => exact .refl s
  | cons a l ih => exact (h s a).trans (ih _)

/-- The invariant may be a part of another one. -/
theorem Tracks.of_inv {Inv' : σ → Prop} (h : Tracks apply Agree Inv' log s t)
    (hs : Inv s → Inv' s) (ht : Inv' t → Inv t) : Tracks apply Agree Inv log s t := by
  intro hinv
  obtain ⟨hinv', hsent⟩ := h (hs hinv)
  exact ⟨ht hinv', hsent⟩

/-- **The copy keeps up** that applies what is new in the log. -/
theorem Tracks.agree (h : Tracks apply Agree Inv log s t) (hs : Inv s) {c : κ} (hc : Agree s c) :
    Agree t (((log t).drop (log s).length).foldl apply c) := by
  obtain ⟨-, sent, hlog, hfollows⟩ := h hs
  rw [hlog, List.drop_left]
  exact hfollows c hc

end Logs

end Replica
