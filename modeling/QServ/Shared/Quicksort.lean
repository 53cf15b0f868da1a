import QServ.Lib.Loop
import QServ.Lib.Rearrange

/-!
# Sorting

`insertionsort` and `quicksort` of `shared/tools.h`, with a comparison that may have a state of its
own.  An access outside the range from `start` to `stop` gives nothing.

* `insertionsort_spec`: a rearrangement, in order if the comparison is one.
* `median_spec`, `scan_spec`: the pivot, whose hole is next to the end while the elements on its
  sides are exchanged.
* `sortFrom_follows`: sorts whose elements and states correspond.
* `quicksort_exact`: it ends, without an access outside the range, with a rearrangement, in order if
  the comparison is one.
-/

namespace QServ

namespace Quicksort

variable {α σ : Type}

/-- `fun(x, y)`, which may change a state. -/
abbrev Compare (α σ : Type) := α → α → σ → Bool × σ

/-! ## The code -/

section Code

variable (cmp : Compare α σ) (start stop : Nat)

/-- `a[i]`. -/
def load (a : List α) (i : Nat) : Option α := if start ≤ i ∧ i < stop then a[i]? else none

/-- `a[i] = x`. -/
def store (a : List α) (i : Nat) (x : α) : Option (List α) :=
  if start ≤ i ∧ i < stop ∧ i < a.length then some (a.set i x) else none

/-- `for(; j > start && fun(tmp, j[-1]); --j) *j = j[-1]; *j = tmp;`. -/
def sink (tmp : α) : Nat → List α → σ → Option (List α × σ)
  | 0, a, s => (store start stop a 0 tmp).map (·, s)
  | j + 1, a, s =>
    if start < j + 1 then do
      let y ← load start stop a j
      let (less, s) := cmp tmp y s
      if less then sink tmp j (← store start stop a (j + 1) y) s
      else (store start stop a (j + 1) tmp).map (·, s)
    else (store start stop a (j + 1) tmp).map (·, s)

/-- The body of the loop of `insertionsort`. -/
def insert (i : Nat) (a : List α) (s : σ) : Option (List α × σ) := do
  let x ← load start stop a i
  let y ← load start stop a (i - 1)
  let (less, s) := cmp x y s
  if less then sink cmp start stop x (i - 1) (← store start stop a i y) s else some (a, s)

/-- The loop of `insertionsort` from `i` on, `n` times. -/
def insertFrom : Nat → Nat → List α → σ → Option (List α × σ)
  | 0, _, a, s => some (a, s)
  | n + 1, i, a, s => (insert cmp start stop i a s).bind fun (a, s) => insertFrom n (i + 1) a s

/-- `insertionsort(start, stop, fun)`. -/
def insertionsort (a : List α) (s : σ) : Option (List α × σ) :=
  insertFrom cmp start stop (stop - (start + 1)) (start + 1) a s

/-- `pivot` and what goes to other places on account of it, but for `*mid = end[-2]`. -/
def choose (a : List α) (s : σ) : Option (α × List α × σ) := do
  let mid := start + (stop - start) / 2
  let x ← load start stop a start
  let y ← load start stop a mid
  let z ← load start stop a (stop - 1)
  let (less, s) := cmp x y s
  if less then
    let (less, s) := cmp z x s
    if less then
      let a ← store start stop a start z
      let a ← store start stop a (stop - 1) y
      some (x, a, s)
    else
      let (less, s) := cmp z y s
      if less then
        let a ← store start stop a (stop - 1) y
        some (z, a, s)
      else some (y, a, s)
  else
    let (less, s) := cmp x z s
    if less then
      let a ← store start stop a start y
      some (x, a, s)
    else
      let (less, s) := cmp y z s
      if less then
        let a ← store start stop a (stop - 1) x
        let a ← store start stop a start y
        some (z, a, s)
      else
        let a ← store start stop a start z
        let a ← store start stop a (stop - 1) x
        some (y, a, s)

/-- `pivot`, with a hole for it next to the end. -/
def median (a : List α) (s : σ) : Option (α × List α × σ) := do
  let (pivot, a, s) ← choose cmp start stop a s
  let y ← load start stop a (stop - 2)
  let a ← store start stop a (start + (stop - start) / 2) y
  some (pivot, a, s)

/-- `while(fun(*i, pivot)) if(++i >= j) goto partitioned;`: `i`, and if the loop is left by the
jump. -/
def up (pivot : α) (j : Nat) (a : List α) : Nat → Nat → σ → Option (Nat × Bool × σ)
  | 0, _, _ => none
  | n + 1, i, s => do
    let x ← load start stop a i
    let (less, s) := cmp x pivot s
    if less then if j ≤ i + 1 then some (i + 1, true, s) else up pivot j a n (i + 1) s
    else some (i, false, s)

/-- `while(fun(pivot, *--j)) if(i >= j) goto partitioned;`: `j`, and if the loop is left by the
jump. -/
def down (pivot : α) (i : Nat) (a : List α) : Nat → Nat → σ → Option (Nat × Bool × σ)
  | 0, _, _ => none
  | n + 1, j, s => do
    let x ← load start stop a (j - 1)
    let (less, s) := cmp pivot x s
    if less then if j - 1 ≤ i then some (j - 1, true, s) else down pivot i a n (j - 1) s
    else some (j - 1, false, s)

/-- `i`, `j` and the memory. -/
structure Cursor (α σ : Type) where
  i : Nat
  j : Nat
  a : List α
  s : σ

/-- The body of the loop that exchanges elements. -/
def exchange (pivot : α) (c : Cursor α σ) : Option (Cursor α σ ⊕ Nat × List α × σ) := do
  let (i, out, s) ← up cmp start stop pivot c.j c.a (stop - start) c.i c.s
  if out then some (.inr (i, c.a, s))
  else
    let (j, out, s) ← down cmp start stop pivot i c.a (stop - start) c.j s
    if out then some (.inr (i, c.a, s))
    else
      let x ← load start stop c.a i
      let y ← load start stop c.a j
      let a ← store start stop c.a i y
      let a ← store start stop a j x
      if i + 1 < j then some (.inl ⟨i + 1, j, a, s⟩) else some (.inr (i + 1, a, s))

/-- The body of the loop of `quicksort` up to the recursion: the place of the pivot. -/
def partition (a : List α) (s : σ) : Option (Nat × List α × σ) := do
  let (pivot, a, s) ← median cmp start stop a s
  let (i, a, s) ← Loop.loop (exchange cmp start stop pivot) (stop - start)
    ⟨start + 1, stop - 2, a, s⟩
  let a ← store start stop a (stop - 2) (← load start stop a i)
  let a ← store start stop a i pivot
  some (i, a, s)

end Code

/-- `quicksort(start, stop, fun)`, no more than `n` levels deep; what the loop does next is what a
call would do. -/
def sortFrom (cmp : Compare α σ) : Nat → Nat → Nat → List α → σ → Option (List α × σ)
  | 0, _, _, _, _ => none
  | n + 1, start, stop, a, s =>
    if 10 < stop - start then do
      let (i, a, s) ← partition cmp start stop a s
      if i - start < stop - (i + 1) then
        let (a, s) ← sortFrom cmp n start i a s
        sortFrom cmp n (i + 1) stop a s
      else
        let (a, s) ← sortFrom cmp n (i + 1) stop a s
        sortFrom cmp n start i a s
    else insertionsort cmp start stop a s

/-- `quicksort(start, stop, fun)`. -/
def quicksort (cmp : Compare α σ) (start stop : Nat) (a : List α) (s : σ) :
    Option (List α × σ) := sortFrom cmp (stop - start + 1) start stop a s

/-- `quicksort(buf, n, fun)`. -/
def sort (cmp : Compare α σ) (buf : List α) (s : σ) : Option (List α × σ) :=
  quicksort cmp 0 buf.length buf s

/-! ## Memory -/

section Memory

variable {start stop : Nat} {a : List α}

theorem load_spec (hlen : stop ≤ a.length) {i : Nat} (hle : start ≤ i) (hlt : i < stop) :
    ∃ x, load start stop a i = some x ∧ a[i]? = some x := by
  have hi : i < a.length := Nat.lt_of_lt_of_le hlt hlen
  have hget : a[i]? = some a[i] := List.getElem?_eq_getElem hi
  exact ⟨_, (if_pos ⟨hle, hlt⟩).trans hget, hget⟩

theorem store_spec (hlen : stop ≤ a.length) {i : Nat} (hle : start ≤ i) (hlt : i < stop) (x : α) :
    store start stop a i x = some (a.set i x) :=
  if_pos ⟨hle, hlt, Nat.lt_of_lt_of_le hlt hlen⟩

theorem get_set_self {i : Nat} (hi : i < a.length) (x : α) : (a.set i x)[i]? = some x :=
  List.getElem?_set_self hi

end Memory

/-- A comparison that says what comes before what, whatever its state. -/
structure Consistent (cmp : Compare α σ) (lt : α → α → Prop) : Prop extends StrictWeak lt where
  decides : ∀ x y s, (cmp x y s).1 = true ↔ lt x y

variable {cmp : Compare α σ} {lt : α → α → Prop} {start stop : Nat}

/-- An answer. -/
theorem ask (cmp : Compare α σ) (lt : α → α → Prop) (x y : α) (s : σ) :
    ∃ less s', cmp x y s = (less, s') ∧ (Consistent cmp lt → (less = true ↔ lt x y)) := by
  refine ⟨_, _, rfl, fun hc => ?_⟩
  exact hc.decides x y s

/-! ## Insertion -/

/-- What is known while an element goes down to its place: all before it are in order, it comes
before those that it has passed, and these are in order. -/
structure Sinking (lt : α → α → Prop) (start i j : Nat) (tmp : α) (a : List α) : Prop where
  low : Ordered lt start j a
  across : ∀ k l x y, start ≤ k → k < j → j < l → l ≤ i → a[k]? = some x → a[l]? = some y →
    ¬ lt y x
  high : Ordered lt (j + 1) (i + 1) a
  above : ∀ k x, j < k → k ≤ i → a[k]? = some x → lt tmp x

namespace Sinking

variable {i j : Nat} {tmp : α} {a : List α}

theorem start_eq (h : Ordered lt start i a) : Sinking lt start i i tmp a where
  low := h
  across _ _ _ _ _ _ _ _ := by omega
  high _ _ _ _ _ _ _ := by omega
  above _ _ _ _ := by omega

/-- The element passes another one. -/
theorem next (h : Sinking lt start i (j + 1) tmp a) {y : α} (hle : start ≤ j)
    (hlen : j + 1 < a.length) (hy : a[j]? = some y) (hlt : lt tmp y) :
    Sinking lt start i j tmp (a.set (j + 1) y) := by
  have hget : (a.set (j + 1) y)[j + 1]? = some y := List.getElem?_set_self hlen
  have hother : ∀ k, k ≠ j + 1 → (a.set (j + 1) y)[k]? = a[k]? := fun k hk =>
    List.getElem?_set_ne (Ne.symm hk)
  constructor
  · intro k l x z hk hkl hl hx hz
    rw [hother k (by omega)] at hx
    rw [hother l (by omega)] at hz
    exact h.low k l x z hk hkl (by omega) hx hz
  · intro k l x z hk hkj hjl hli hx hz
    rw [hother k (by omega)] at hx
    by_cases hl : l = j + 1
    · rw [hl, hget] at hz
      rw [← Option.some.inj hz]
      exact h.low k j x y hk hkj (Nat.lt_succ_self j) hx hy
    · rw [hother l hl] at hz
      exact h.across k l x z hk (by omega) (by omega) hli hx hz
  · intro k l x z hk hkl hl hx hz
    rw [hother l (by omega)] at hz
    by_cases hkj : k = j + 1
    · rw [hkj, hget] at hx
      rw [← Option.some.inj hx]
      exact h.across j l y z hle (Nat.lt_succ_self j) (by omega) (by omega) hy hz
    · rw [hother k hkj] at hx
      exact h.high k l x z (by omega) hkl hl hx hz
  · intro k x hjk hki hx
    by_cases hkj : k = j + 1
    · rw [hkj, hget] at hx
      rwa [← Option.some.inj hx]
    · rw [hother k hkj] at hx
      exact h.above k x (by omega) hki hx

/-- The element has its place. -/
theorem done (hw : StrictWeak lt) (h : Sinking lt start i j tmp a) (hj : j < a.length)
    (hlow : Below lt tmp start j a) : Ordered lt start (i + 1) (a.set j tmp) := by
  have hget : (a.set j tmp)[j]? = some tmp := List.getElem?_set_self hj
  have hother : ∀ k, k ≠ j → (a.set j tmp)[k]? = a[k]? := fun k hk =>
    List.getElem?_set_ne (Ne.symm hk)
  refine Ordered.join hw hget ?_ ?_ ?_ ?_
  · intro k l x y hk hkl hl hx hy
    rw [hother k (by omega)] at hx
    rw [hother l (by omega)] at hy
    exact h.low k l x y hk hkl hl hx hy
  · intro k l x y hk hkl hl hx hy
    rw [hother k (by omega)] at hx
    rw [hother l (by omega)] at hy
    exact h.high k l x y hk hkl hl hx hy
  · intro k x hk hkj hx
    rw [hother k (by omega)] at hx
    exact hlow k x hk hkj hx
  · intro k x hk hki hx
    rw [hother k (by omega)] at hx
    exact hw.asymm tmp x (h.above k x hk (by omega) hx)

end Sinking

/-- What sorting a part up to `i` has done. -/
def Inserted (cmp : Compare α σ) (lt : α → α → Prop) (start stop i : Nat) (a : List α)
    (r : List α × σ) : Prop :=
  Rearranges start stop a r.1 ∧ (Consistent cmp lt → Ordered lt start i r.1)

variable {a₀ : List α} {tmp : α} {i : Nat}

theorem store_done {j : Nat} {a : List α} {s : σ} (hlen : stop ≤ a₀.length)
    (hole : Hole start stop j tmp a₀ a) (h : Consistent cmp lt → Sinking lt start i j tmp a)
    (hlow : Consistent cmp lt → Below lt tmp start j a) :
    Loop.Yields ((store start stop a j tmp).map (·, s))
      (Inserted cmp lt start stop (i + 1) a₀) := by
  have hlen' : stop ≤ a.length := by rwa [hole.length_eq]
  rw [store_spec hlen' hole.le hole.lt]
  exact ⟨_, rfl, hole.filled, fun hc => (h hc).done hc.toStrictWeak hole.length (hlow hc)⟩

/-- **The inner loop** of `insertionsort`. -/
theorem sink_spec (hlen : stop ≤ a₀.length) (j : Nat) : ∀ {a : List α} (s : σ), j ≤ i →
    Hole start stop j tmp a₀ a → (Consistent cmp lt → Sinking lt start i j tmp a) →
    Loop.Yields (sink cmp start stop tmp j a s) (Inserted cmp lt start stop (i + 1) a₀) := by
  induction j with
  | zero =>
    intro a s _ hole h
    exact store_done hlen hole h fun _ k x _ hk => absurd hk (Nat.not_lt_zero k)
  | succ j ih =>
    intro a s hji hole h
    have hlen' : stop ≤ a.length := by rwa [hole.length_eq]
    unfold sink
    by_cases hstart : start < j + 1
    · rw [if_pos hstart]
      have hlt := hole.lt
      obtain ⟨y, hload, hy⟩ := load_spec hlen' (Nat.le_of_lt_succ hstart) (Nat.lt_of_succ_lt hlt)
      obtain ⟨less, s', hcmp, hless⟩ := ask cmp lt tmp y s
      simp only [hload, Option.bind_eq_bind, Option.bind_some, hcmp]
      cases less with
      | true =>
        rw [if_pos rfl, store_spec hlen' hole.le hlt]
        refine ih s' (Nat.le_of_succ_le hji)
          (hole.move (Nat.le_of_lt_succ hstart) (Nat.lt_of_succ_lt hlt) hy) fun hc => ?_
        exact (h hc).next (Nat.le_of_lt_succ hstart) hole.length hy ((hless hc).mp rfl)
      | false =>
        rw [if_neg Bool.false_ne_true]
        refine store_done hlen hole h fun hc k x hk hkj hx => ?_
        have hy' : ¬ lt tmp y := fun hlt => Bool.false_ne_true ((hless hc).mpr hlt)
        by_cases hlast : k = j
        · rw [hlast, hy] at hx
          rwa [← Option.some.inj hx]
        · exact hc.trans x y tmp ((h hc).low k j x y hk (by omega) (Nat.lt_succ_self j) hx hy) hy'
    · rw [if_neg hstart]
      exact store_done hlen hole h fun _ k x hk hkj => by omega

/-- **One element** is inserted. -/
theorem insert_spec {a : List α} (hlen : stop ≤ a.length) (s : σ) (hstart : start < i)
    (hstop : i < stop) (h : Consistent cmp lt → Ordered lt start i a) :
    Loop.Yields (insert cmp start stop i a s) (Inserted cmp lt start stop (i + 1) a) := by
  obtain ⟨j, rfl⟩ : ∃ j, i = j + 1 := ⟨i - 1, by omega⟩
  obtain ⟨x, hloadx, hx⟩ := load_spec hlen (Nat.le_of_lt hstart) hstop
  obtain ⟨y, hloady, hy⟩ := load_spec hlen (Nat.le_of_lt_succ hstart) (Nat.lt_of_succ_lt hstop)
  obtain ⟨less, s', hcmp, hless⟩ := ask cmp lt x y s
  have hole : Hole start stop (j + 1) x a a := Hole.start (Nat.le_of_lt hstart) hstop hx
  unfold insert
  simp only [hloadx, Nat.add_sub_cancel, hloady, Option.bind_eq_bind, Option.bind_some, hcmp]
  cases less with
  | true =>
    rw [if_pos rfl, store_spec hlen (Nat.le_of_lt hstart) hstop]
    refine sink_spec hlen j s' (Nat.le_succ j)
      (hole.move (Nat.le_of_lt_succ hstart) (Nat.lt_of_succ_lt hstop) hy) fun hc => ?_
    exact (Sinking.start_eq (h hc)).next (Nat.le_of_lt_succ hstart) hole.length hy
      ((hless hc).mp rfl)
  | false =>
    rw [if_neg Bool.false_ne_true]
    refine ⟨_, rfl, Rearranges.refl a, fun hc => ?_⟩
    have hy' : ¬ lt x y := fun hlt => Bool.false_ne_true ((hless hc).mpr hlt)
    refine Ordered.join hc.toStrictWeak hx (h hc) (fun _ _ _ _ _ _ _ => by omega) ?_
      (fun _ _ _ _ => by omega)
    intro k z hk hkj hz
    by_cases hlast : k = j
    · rw [hlast, hy] at hz
      rwa [← Option.some.inj hz]
    · exact hc.trans z y x (h hc k j z y hk (by omega) (Nat.lt_succ_self j) hz hy) hy'

theorem insertFrom_spec (n : Nat) : ∀ {i : Nat} {a : List α} (s : σ), stop ≤ a.length →
    start < i → i + n = stop → (Consistent cmp lt → Ordered lt start i a) →
    Loop.Yields (insertFrom cmp start stop n i a s) (Inserted cmp lt start stop stop a) := by
  induction n with
  | zero =>
    intro i a s _ _ hn h
    rw [Nat.add_zero] at hn
    subst hn
    exact ⟨_, rfl, Rearranges.refl a, h⟩
  | succ n ih =>
    intro i a s hlen hstart hn h
    refine (insert_spec hlen s hstart (by omega) h).bind ?_
    rintro ⟨b, s'⟩ ⟨hre, hord⟩
    have hlenb : stop ≤ b.length := by rwa [hre.length]
    refine (ih s' hlenb (Nat.lt_succ_of_lt hstart) (by omega) hord).imp ?_
    rintro ⟨c, s''⟩ ⟨hre', hord'⟩
    exact ⟨hre.trans hre', hord'⟩

/-- **Insertion sort**. -/
theorem insertionsort_spec {a : List α} (hlen : stop ≤ a.length) (s : σ) :
    Loop.Yields (insertionsort cmp start stop a s) (Inserted cmp lt start stop stop a) := by
  unfold insertionsort
  by_cases h : start < stop
  · refine insertFrom_spec _ s hlen (Nat.lt_succ_self start) (by omega) fun _ => ?_
    intro k l x y hk hkl hl
    omega
  · have hzero : stop - (start + 1) = 0 := by omega
    rw [hzero]
    refine ⟨_, rfl, Rearranges.refl a, fun _ k l x y hk hkl hl => ?_⟩
    omega

/-! ## The pivot -/

/-- The pivot has its hole at `h`, and the elements at both ends are on its sides. -/
def Chosen (cmp : Compare α σ) (lt : α → α → Prop) (start stop h : Nat) (a : List α)
    (r : α × List α × σ) : Prop :=
  Hole start stop h r.1 a r.2.1 ∧ (Consistent cmp lt →
    Below lt r.1 start (start + 1) r.2.1 ∧ Above lt r.1 (stop - 1) stop r.2.1)

theorem Chosen.intro {h : Nat} {a b : List α} {p x z : α} {s : σ} (hole : Hole start stop h p a b)
    (hx : b[start]? = some x) (hz : b[stop - 1]? = some z)
    (hord : Consistent cmp lt → ¬ lt p x ∧ ¬ lt z p) : Chosen cmp lt start stop h a (p, b, s) := by
  refine ⟨hole, fun hc => ⟨fun k y hk hk' hy => ?_, fun k y hk hk' hy => ?_⟩⟩
  · have heq : k = start := by omega
    rw [heq] at hy
    rw [← Option.some.inj (hx.symm.trans hy)]
    exact (hord hc).1
  · have heq : k = stop - 1 := by omega
    rw [heq] at hy
    rw [← Option.some.inj (hz.symm.trans hy)]
    exact (hord hc).2

/-- **The median of three** elements. -/
theorem choose_spec {a : List α} (hlen : stop ≤ a.length) (hlong : 10 < stop - start) (s : σ) :
    Loop.Yields (choose cmp start stop a s)
      (Chosen cmp lt start stop (start + (stop - start) / 2) a) := by
  obtain ⟨mid, hmid⟩ : ∃ mid, mid = start + (stop - start) / 2 := ⟨_, rfl⟩
  rw [← hmid]
  have hstart : start < stop := by omega
  have hlo : start < mid := by omega
  have hhi : mid < stop - 1 := by omega
  have hmidlt : mid < stop := by omega
  have hend : stop - 1 < stop := by omega
  have hlast : start ≤ stop - 1 := by omega
  obtain ⟨x, hloadx, hx⟩ := load_spec hlen (Nat.le_refl start) hstart
  obtain ⟨y, hloady, hy⟩ := load_spec hlen (Nat.le_of_lt hlo) hmidlt
  obtain ⟨z, hloadz, hz⟩ := load_spec hlen hlast hend
  have hat : ∀ {b : List α} (v : α), b.length = a.length → (b.set start v)[start]? = some v ∧
      (b.set start v)[mid]? = b[mid]? ∧ (b.set start v)[stop - 1]? = b[stop - 1]? := fun v hb =>
    ⟨List.getElem?_set_self (by omega), List.getElem?_set_ne (by omega),
      List.getElem?_set_ne (by omega)⟩
  have hat' : ∀ {b : List α} (v : α), b.length = a.length →
      (b.set (stop - 1) v)[stop - 1]? = some v ∧ (b.set (stop - 1) v)[mid]? = b[mid]? ∧
      (b.set (stop - 1) v)[start]? = b[start]? := fun v hb =>
    ⟨List.getElem?_set_self (by omega), List.getElem?_set_ne (by omega),
      List.getElem?_set_ne (by omega)⟩
  obtain ⟨l1, s1, h1, hl1⟩ := ask cmp lt x y s
  have hset : ∀ v, (a.set start v).length = a.length := fun v => List.length_set
  have hset' : ∀ v, (a.set (stop - 1) v).length = a.length := fun v => List.length_set
  have hstore : ∀ {b : List α} (v : α), b.length = a.length →
      store start stop b start v = some (b.set start v) := fun v hb =>
    store_spec (by omega) (Nat.le_refl start) hstart v
  have hstore' : ∀ {b : List α} (v : α), b.length = a.length →
      store start stop b (stop - 1) v = some (b.set (stop - 1) v) := fun v hb =>
    store_spec (by omega) hlast hend v
  unfold choose
  simp only [← hmid, hloadx, hloady, hloadz, Option.bind_eq_bind, Option.bind_some, h1]
  cases l1 with
  | true =>
    obtain ⟨l2, s2, h2, hl2⟩ := ask cmp lt z x s1
    rw [if_pos rfl]
    simp only [h2]
    cases l2 with
    | true =>
      -- end < start < mid
      rw [if_pos rfl, hstore z rfl, Option.bind_some, hstore' y (hset z), Option.bind_some]
      have hole := (Hole.start (Nat.le_refl start) hstart hx).move hlast hend hz
      refine ⟨_, rfl, Chosen.intro (hole.move (Nat.le_of_lt hlo) hmidlt ?_)
        ((hat' y (hset z)).2.2.trans (hat z rfl).1) (hat' y (hset z)).1 fun hc => ⟨?_, ?_⟩⟩
      · exact (hat z rfl).2.1.trans hy
      · exact hc.asymm z x ((hl2 hc).mp rfl)
      · exact hc.asymm x y ((hl1 hc).mp rfl)
    | false =>
      obtain ⟨l3, s3, h3, hl3⟩ := ask cmp lt z y s2
      rw [if_neg Bool.false_ne_true]
      simp only [h3]
      cases l3 with
      | true =>
        -- start <= end < mid
        rw [if_pos rfl, hstore' y rfl, Option.bind_some]
        have hole := Hole.start hlast hend hz
        refine ⟨_, rfl, Chosen.intro (hole.move (Nat.le_of_lt hlo) hmidlt hy)
          ((hat' y rfl).2.2.trans hx) (hat' y rfl).1 fun hc => ⟨?_, ?_⟩⟩
        · exact fun hlt => Bool.false_ne_true ((hl2 hc).mpr hlt)
        · exact hc.asymm z y ((hl3 hc).mp rfl)
      | false =>
        -- start < mid <= end
        rw [if_neg Bool.false_ne_true]
        have hole := Hole.start (Nat.le_of_lt hlo) hmidlt hy
        refine ⟨_, rfl, Chosen.intro hole hx hz fun hc => ⟨?_, ?_⟩⟩
        · exact hc.asymm x y ((hl1 hc).mp rfl)
        · exact fun hlt => Bool.false_ne_true ((hl3 hc).mpr hlt)
  | false =>
    obtain ⟨l2, s2, h2, hl2⟩ := ask cmp lt x z s1
    rw [if_neg Bool.false_ne_true]
    simp only [h2]
    cases l2 with
    | true =>
      -- mid <= start < end
      rw [if_pos rfl, hstore y rfl, Option.bind_some]
      have hole := Hole.start (Nat.le_refl start) hstart hx
      refine ⟨_, rfl, Chosen.intro (hole.move (Nat.le_of_lt hlo) hmidlt hy) (hat y rfl).1
        ((hat y rfl).2.2.trans hz) fun hc => ⟨?_, ?_⟩⟩
      · exact fun hlt => Bool.false_ne_true ((hl1 hc).mpr hlt)
      · exact hc.asymm x z ((hl2 hc).mp rfl)
    | false =>
      obtain ⟨l3, s3, h3, hl3⟩ := ask cmp lt y z s2
      rw [if_neg Bool.false_ne_true]
      simp only [h3]
      cases l3 with
      | true =>
        -- mid < end <= start
        rw [if_pos rfl, hstore' x rfl, Option.bind_some, hstore y (hset' x), Option.bind_some]
        have hole := (Hole.start hlast hend hz).move (Nat.le_refl start) hstart hx
        refine ⟨_, rfl, Chosen.intro (hole.move (Nat.le_of_lt hlo) hmidlt ?_) (hat y (hset' x)).1
          ((hat y (hset' x)).2.2.trans (hat' x rfl).1) fun hc => ⟨?_, ?_⟩⟩
        · exact (hat' x rfl).2.1.trans hy
        · exact hc.asymm y z ((hl3 hc).mp rfl)
        · exact fun hlt => Bool.false_ne_true ((hl2 hc).mpr hlt)
      | false =>
        -- end <= mid <= start
        rw [if_neg Bool.false_ne_true, hstore z rfl, Option.bind_some, hstore' x (hset z),
          Option.bind_some]
        have hole := (Hole.start (Nat.le_of_lt hlo) hmidlt hy).swap ⟨Nat.le_refl start, hstart⟩
          ⟨hlast, hend⟩ (by omega) (by omega) hx hz
        refine ⟨_, rfl, Chosen.intro hole ((hat' x (hset z)).2.2.trans (hat z rfl).1)
          (hat' x (hset z)).1 fun hc => ⟨?_, ?_⟩⟩
        · exact fun hlt => Bool.false_ne_true ((hl3 hc).mpr hlt)
        · exact fun hlt => Bool.false_ne_true ((hl1 hc).mpr hlt)

theorem median_spec {a : List α} (hlen : stop ≤ a.length) (hlong : 10 < stop - start) (s : σ) :
    Loop.Yields (median cmp start stop a s) (Chosen cmp lt start stop (stop - 2) a) := by
  have hchoose : Loop.Yields (choose cmp start stop a s)
      (Chosen cmp lt start stop (start + (stop - start) / 2) a) := choose_spec hlen hlong s
  unfold median
  refine hchoose.bind ?_
  rintro ⟨p, b, s'⟩ ⟨hole, hord⟩
  have hlenb : stop ≤ b.length := by rwa [hole.length_eq]
  have hle : start ≤ stop - 2 := by omega
  have hlt : stop - 2 < stop := by omega
  obtain ⟨y, hload, hy⟩ := load_spec hlenb hle hlt
  have hstore : store start stop b (start + (stop - start) / 2) y = some _ :=
    store_spec hlenb hole.le hole.lt y
  dsimp only
  rw [hload, Option.bind_eq_bind, Option.bind_some, hstore, Option.bind_eq_bind, Option.bind_some]
  have hother : ∀ k, k ≠ start + (stop - start) / 2 →
      (b.set (start + (stop - start) / 2) y)[k]? = b[k]? := fun k hk =>
    List.getElem?_set_ne (Ne.symm hk)
  refine ⟨_, rfl, hole.move hle hlt hy, fun hc => ⟨fun k x hk hk' hx => ?_,
    fun k x hk hk' hx => ?_⟩⟩
  · rw [hother k (by omega)] at hx
    exact (hord hc).1 k x hk hk' hx
  · rw [hother k (by omega)] at hx
    exact (hord hc).2 k x hk hk' hx

/-! ## The partition -/

variable {a : List α} {p : α}

/-- **Upwards** over what comes before the pivot. -/
theorem up_spec (lt : α → α → Prop) (hlen : stop ≤ a.length) {j : Nat} (hj : j ≤ stop)
    (n : Nat) : ∀ {i : Nat} (s : σ), start ≤ i → i < j → j - i ≤ n →
    Loop.Yields (up cmp start stop p j a n i s) fun r => i ≤ r.1 ∧
      (if r.2.1 = true then r.1 = j else r.1 < j) ∧
      (Consistent cmp lt → Below lt p i r.1 a ∧
        (r.2.1 = false → ∀ x, a[r.1]? = some x → ¬ lt x p)) := by
  induction n with
  | zero =>
    intro i s _ hij hn
    omega
  | succ n ih =>
    intro i s hi hij hn
    obtain ⟨x, hload, hx⟩ := load_spec hlen hi (Nat.lt_of_lt_of_le hij hj)
    obtain ⟨less, s', hcmp, hless⟩ := ask cmp lt x p s
    unfold up
    simp only [hload, Option.bind_eq_bind, Option.bind_some, hcmp]
    cases less with
    | true =>
      have hbelow : ∀ r, Consistent cmp lt → Below lt p (i + 1) r a → Below lt p i r a := by
        intro r hc h k y hk hkr hy
        by_cases hki : k = i
        · rw [hki, hx] at hy
          rw [← Option.some.inj hy]
          exact hc.asymm x p ((hless hc).mp rfl)
        · exact h k y (by omega) hkr hy
      rw [if_pos rfl]
      split
      · next hend =>
        refine ⟨_, rfl, Nat.le_succ i, Nat.le_antisymm hij hend, fun hc => ⟨?_, fun h => ?_⟩⟩
        · exact hbelow _ hc fun k _ hk hk' => by omega
        · cases h
      · next hgo =>
        refine (ih s' (Nat.le_succ_of_le hi) (Nat.not_le.mp hgo) (by omega)).imp ?_
        rintro r ⟨hle, hout, hord⟩
        exact ⟨Nat.le_of_succ_le hle, hout, fun hc => ⟨hbelow _ hc (hord hc).1, (hord hc).2⟩⟩
    | false =>
      rw [if_neg Bool.false_ne_true]
      refine ⟨_, rfl, Nat.le_refl i, hij, fun hc => ⟨fun k _ hk hk' => by omega, fun _ y hy => ?_⟩⟩
      rw [← Option.some.inj (hx.symm.trans hy)]
      exact fun hlt => Bool.false_ne_true ((hless hc).mpr hlt)

/-- **Downwards** over what comes behind the pivot. -/
theorem down_spec (lt : α → α → Prop) (hlen : stop ≤ a.length) {i : Nat} (hi : start ≤ i)
    (n : Nat) : ∀ {j : Nat} (s : σ), i < j → j ≤ stop → j - i ≤ n →
    Loop.Yields (down cmp start stop p i a n j s) fun r => r.1 < j ∧
      (if r.2.1 = true then r.1 = i else i ≤ r.1) ∧
      (Consistent cmp lt → Above lt p (r.1 + 1) j a ∧
        (if r.2.1 = true then ∀ x, a[r.1]? = some x → ¬ lt x p
          else ∀ x, a[r.1]? = some x → ¬ lt p x)) := by
  induction n with
  | zero =>
    intro j s hij _ hn
    omega
  | succ n ih =>
    intro j s hij hj hn
    have hstart : start ≤ j - 1 := by omega
    obtain ⟨x, hload, hx⟩ := load_spec hlen hstart (by omega)
    obtain ⟨less, s', hcmp, hless⟩ := ask cmp lt p x s
    unfold down
    simp only [hload, Option.bind_eq_bind, Option.bind_some, hcmp]
    cases less with
    | true =>
      rw [if_pos rfl]
      split
      · next hend =>
        refine ⟨_, rfl, Nat.sub_lt (by omega) Nat.one_pos, ?_, fun hc => ⟨?_, ?_⟩⟩
        · exact Nat.le_antisymm hend (Nat.le_sub_one_of_lt hij)
        · intro k _ hk hk'
          dsimp only at hk
          omega
        · rw [if_pos rfl]
          intro y hy
          rw [← Option.some.inj (hx.symm.trans hy)]
          exact hc.asymm p x ((hless hc).mp rfl)
      · next hgo =>
        refine (ih s' (Nat.not_le.mp hgo) (by omega) (by omega)).imp ?_
        rintro r ⟨hlt, hout, hord⟩
        refine ⟨by omega, hout, fun hc => ⟨fun k y hk hkj hy => ?_, (hord hc).2⟩⟩
        by_cases hlast : k = j - 1
        · rw [hlast] at hy
          rw [← Option.some.inj (hx.symm.trans hy)]
          exact hc.asymm p x ((hless hc).mp rfl)
        · exact (hord hc).1 k y hk (by omega) hy
    | false =>
      rw [if_neg Bool.false_ne_true]
      refine ⟨_, rfl, Nat.sub_lt (by omega) Nat.one_pos, Nat.le_sub_one_of_lt hij,
        fun hc => ⟨?_, ?_⟩⟩
      · intro k _ hk hk'
        dsimp only at hk
        omega
      · rw [if_neg Bool.false_ne_true]
        intro y hy
        rw [← Option.some.inj (hx.symm.trans hy)]
        exact fun hlt => Bool.false_ne_true ((hless hc).mpr hlt)

/-- What holds before a round of exchanges: the elements before `i` do not come behind the pivot,
and those from `j` on not before it, but for its hole. -/
structure Scanning (cmp : Compare α σ) (lt : α → α → Prop) (start stop : Nat) (p : α) (a₀ : List α)
    (i j : Nat) (a : List α) : Prop where
  lo : start < i
  hi : j ≤ stop - 2
  hole : Hole start stop (stop - 2) p a₀ a
  ordered : Consistent cmp lt → Below lt p start i a ∧ Above lt p j (stop - 2) a ∧
    Above lt p (stop - 1) stop a

/-- What holds when no more elements are exchanged. -/
def Scanned (cmp : Compare α σ) (lt : α → α → Prop) (start stop : Nat) (p : α) (a₀ : List α)
    (r : Nat × List α × σ) : Prop :=
  r.1 ≤ stop - 2 ∧ Scanning cmp lt start stop p a₀ r.1 r.1 r.2.1

/-- Two elements that are on the wrong sides. -/
theorem Scanning.swap {i j j' : Nat} {b : List α} {x y : α}
    (h : Scanning cmp lt start stop p a i j b) (hij : i ≤ j') (hj : j' < j)
    (hx : b[i]? = some x) (hy : b[j']? = some y)
    (hord : Consistent cmp lt → Above lt p (j' + 1) j b ∧ ¬ lt x p ∧ ¬ lt p y) :
    Scanning cmp lt start stop p a (i + 1) j' ((b.set i y).set j' x) := by
  have hlo := h.lo
  have hhi := h.hi
  have hi : i < b.length := (List.getElem?_eq_some_iff.mp hx).1
  have hother : ∀ k, k ≠ i → k ≠ j' → ((b.set i y).set j' x)[k]? = b[k]? := fun k hki hkj => by
    rw [List.getElem?_set_ne (Ne.symm hkj), List.getElem?_set_ne (Ne.symm hki)]
  have hlast : ((b.set i y).set j' x)[j']? = some x := by
    refine List.getElem?_set_self ?_
    rw [List.length_set]
    exact (List.getElem?_eq_some_iff.mp hy).1
  have hfirst : ((b.set i y).set j' x)[i]? = some y := by
    by_cases heq : i = j'
    · subst heq
      rw [hlast, ← hx, hy]
    · rw [List.getElem?_set_ne (Ne.symm heq)]
      exact List.getElem?_set_self hi
  refine ⟨Nat.lt_succ_of_lt hlo, by omega, h.hole.swap ⟨by omega, by omega⟩ ⟨by omega, by omega⟩
    (by omega) (by omega) hx hy, fun hc => ⟨?_, ?_, ?_⟩⟩
  · intro k z hk hki hz
    by_cases heq : k = i
    · rw [heq, hfirst] at hz
      rw [← Option.some.inj hz]
      exact (hord hc).2.2
    · rw [hother k heq (by omega)] at hz
      exact (h.ordered hc).1 k z hk (by omega) hz
  · intro k z hk hkh hz
    by_cases heq : k = j'
    · rw [heq, hlast] at hz
      rw [← Option.some.inj hz]
      exact (hord hc).2.1
    · rw [hother k (by omega) heq] at hz
      exact (hord hc).1.append (h.ordered hc).2.1 k z (by omega) hkh hz
  · intro k z hk hkh hz
    rw [hother k (by omega) (by omega)] at hz
    exact (h.ordered hc).2.2 k z hk hkh hz

/-- **A round of exchanges**. -/
theorem exchange_spec {c : Cursor α σ} (hlen : stop ≤ a.length) (hlong : 10 < stop - start)
    (h : Scanning cmp lt start stop p a c.i c.j c.a) (hij : c.i < c.j) :
    Loop.Yields (exchange cmp start stop p c)
      (Loop.Round (fun c => Scanning cmp lt start stop p a c.i c.j c.a ∧ c.i < c.j)
        (fun c => c.j - c.i) (Scanned cmp lt start stop p a) c) := by
  obtain ⟨i, j, b, s⟩ := c
  dsimp only at h hij
  have hlo := h.lo
  have hhi := h.hi
  have hlenb : stop ≤ b.length := by rwa [h.hole.length_eq]
  unfold exchange
  refine (up_spec lt hlenb (by omega) _ s (Nat.le_of_lt hlo) hij (by omega)).bind ?_
  rintro ⟨i', out, s'⟩ ⟨hii, hout, hup⟩
  dsimp only at hii hout hup ⊢
  have hbelow : Consistent cmp lt → Below lt p start i' b := fun hc =>
    (h.ordered hc).1.append (hup hc).1
  cases out with
  | true =>
    rw [if_pos rfl] at hout ⊢
    subst hout
    exact ⟨_, rfl, hhi, Nat.lt_of_lt_of_le hlo hii, hhi, h.hole, fun hc =>
      ⟨hbelow hc, (h.ordered hc).2⟩⟩
  | false =>
    rw [if_neg Bool.false_ne_true] at hout ⊢
    have hlo' : start < i' := Nat.lt_of_lt_of_le hlo hii
    have hscan : Scanning cmp lt start stop p a i' j b :=
      ⟨hlo', hhi, h.hole, fun hc => ⟨hbelow hc, (h.ordered hc).2⟩⟩
    refine (down_spec lt hlenb (Nat.le_of_lt hlo') _ s' hout (by omega) (by omega)).bind ?_
    rintro ⟨j', out, s''⟩ ⟨hjj, hout', hdown⟩
    dsimp only at hjj hout' hdown ⊢
    cases out with
    | true =>
      rw [if_pos rfl] at hout' ⊢
      subst hout'
      refine ⟨_, rfl, by omega, hlo', by omega, h.hole, fun hc => ⟨hbelow hc, ?_, ?_⟩⟩
      · have hfirst : Above lt p j' (j' + 1) b := by
          intro k x hk hk' hx
          have heq : k = j' := by omega
          rw [heq] at hx
          have hat := (hdown hc).2
          rw [if_pos rfl] at hat
          exact hat x hx
        exact (hfirst.append (hdown hc).1).append (h.ordered hc).2.1
      · exact (h.ordered hc).2.2
    | false =>
      rw [if_neg Bool.false_ne_true] at hout' ⊢
      obtain ⟨x, hloadx, hx⟩ := load_spec hlenb (Nat.le_of_lt hlo') (show i' < stop by omega)
      obtain ⟨y, hloady, hy⟩ := load_spec hlenb (show start ≤ j' by omega)
        (show j' < stop by omega)
      have hlenb' : stop ≤ (b.set i' y).length := by rwa [List.length_set]
      have hstore := store_spec hlenb (Nat.le_of_lt hlo') (show i' < stop by omega) y
      have hstore' := store_spec hlenb' (show start ≤ j' by omega) (show j' < stop by omega) x
      have hswap : Scanning cmp lt start stop p a (i' + 1) j' ((b.set i' y).set j' x) := by
        refine hscan.swap hout' hjj hx hy fun hc => ⟨(hdown hc).1, (hup hc).2 rfl x hx, ?_⟩
        have hat := (hdown hc).2
        rw [if_neg Bool.false_ne_true] at hat
        exact hat y hy
      simp only [hloadx, hloady, hstore, hstore', Option.bind_eq_bind, Option.bind_some]
      split
      · next hgo => exact ⟨_, rfl, ⟨hswap, hgo⟩, by dsimp only; omega⟩
      · refine ⟨_, rfl, by dsimp only; omega, hswap.lo, by dsimp only; omega, hswap.hole,
          fun hc => ?_⟩
        obtain ⟨h1, h2, h3⟩ := hswap.ordered hc
        exact ⟨h1, fun k z hk => h2 k z (by dsimp only at hk; omega), h3⟩

/-- What `partition` has done. -/
structure Partitioned (cmp : Compare α σ) (lt : α → α → Prop) (start stop : Nat) (a : List α)
    (r : Nat × List α × σ) : Prop where
  lo : start < r.1
  hi : r.1 < stop - 1
  rearranges : Rearranges start stop a r.2.1
  ordered : Consistent cmp lt → ∃ p, r.2.1[r.1]? = some p ∧ Below lt p start r.1 r.2.1 ∧
    Above lt p (r.1 + 1) stop r.2.1

/-- The pivot goes to its place. -/
theorem Scanning.place {i : Nat} {b : List α} {y : α} (h : Scanning cmp lt start stop p a i i b)
    (hy : b[i]? = some y) (s : σ) :
    Partitioned cmp lt start stop a (i, (b.set (stop - 2) y).set i p, s) := by
  have hlo := h.lo
  have hhi := h.hi
  have hole := h.hole.move (g := i) (by omega) (by omega) hy
  refine ⟨hlo, by dsimp only; omega, hole.filled, fun hc => ⟨p, ?_, ?_, ?_⟩⟩
  · exact List.getElem?_set_self hole.length
  · intro k x hk hki hx
    dsimp only at hki hx
    rw [List.getElem?_set_ne (by omega), List.getElem?_set_ne (by omega)] at hx
    exact (h.ordered hc).1 k x hk hki hx
  · intro k x hk hks hx
    dsimp only at hk hx
    rw [List.getElem?_set_ne (by omega)] at hx
    by_cases heq : k = stop - 2
    · rw [heq, List.getElem?_set_self h.hole.length] at hx
      rw [← Option.some.inj hx]
      exact (h.ordered hc).2.1 i y (Nat.le_refl i) (by omega) hy
    · rw [List.getElem?_set_ne (Ne.symm heq)] at hx
      by_cases hlast : k < stop - 2
      · exact (h.ordered hc).2.1 k x (by omega) hlast hx
      · exact (h.ordered hc).2.2 k x (by omega) hks hx

/-- **The partition**. -/
theorem partition_spec (lt : α → α → Prop) (hlen : stop ≤ a.length) (hlong : 10 < stop - start)
    (s : σ) :
    Loop.Yields (partition cmp start stop a s) (Partitioned cmp lt start stop a) := by
  have hmedian : Loop.Yields (median cmp start stop a s)
      (Chosen cmp lt start stop (stop - 2) a) := median_spec hlen hlong s
  unfold partition
  refine hmedian.bind ?_
  rintro ⟨p, b, s'⟩ ⟨hole, hord⟩
  have hloop : Loop.Yields (Loop.loop (exchange cmp start stop p) (stop - start)
      ⟨start + 1, stop - 2, b, s'⟩) (Scanned cmp lt start stop p a) :=
    Loop.loop_spec (fun c => Scanning cmp lt start stop p a c.i c.j c.a ∧ c.i < c.j)
      (fun c => c.j - c.i) _ (fun c hc => exchange_spec hlen hlong hc.1 hc.2) _ _
      ⟨⟨Nat.lt_succ_self start, Nat.le_refl _, hole, fun hc =>
        ⟨(hord hc).1, fun k _ hk hk' => by dsimp only at hk; omega, (hord hc).2⟩⟩,
        by dsimp only; omega⟩ (by dsimp only; omega)
  refine hloop.bind ?_
  rintro ⟨i, c, s''⟩ ⟨hi, hscan⟩
  dsimp only at hi hscan ⊢
  have hlo := hscan.lo
  have hlenc : stop ≤ c.length := by rwa [hscan.hole.length_eq]
  obtain ⟨y, hload, hy⟩ := load_spec hlenc (Nat.le_of_lt hlo) (show i < stop by omega)
  have hlenc' : stop ≤ (c.set (stop - 2) y).length := by rwa [List.length_set]
  have hstore := store_spec hlenc (show start ≤ stop - 2 by omega)
    (show stop - 2 < stop by omega) y
  have hstore' := store_spec hlenc' (Nat.le_of_lt hlo) (show i < stop by omega) p
  simp only [hload, hstore, hstore', Option.bind_eq_bind, Option.bind_some]
  exact ⟨_, rfl, hscan.place hy s''⟩

/-! ## The recursion -/

/-- **The halves** of a partition in whatever order they are sorted. -/
theorem Partitioned.join {i : Nat} {b c d : List α} {s : σ}
    (h : Partitioned cmp lt start stop a (i, b, s))
    (hparts : Inserted cmp lt start i i b (c, s) ∧ Inserted cmp lt (i + 1) stop stop c (d, s) ∨
      Inserted cmp lt (i + 1) stop stop b (c, s) ∧ Inserted cmp lt start i i c (d, s)) :
    Rearranges start stop a d ∧ (Consistent cmp lt → Ordered lt start stop d) := by
  have hlo := h.lo
  have hhi := h.hi
  dsimp only at hlo hhi
  have hi : i ≤ stop := by omega
  obtain ⟨⟨hre, hord⟩, hre', hord'⟩ | ⟨⟨hre, hord⟩, hre', hord'⟩ := hparts
  · dsimp only at hre hord hre' hord'
    refine ⟨(h.rearranges.trans (hre.mono (Nat.le_refl _) hi)).trans
      (hre'.mono (by omega) (Nat.le_refl _)), fun hc => ?_⟩
    obtain ⟨p, hp, hbelow, habove⟩ := h.ordered hc
    refine Ordered.join hc.toStrictWeak (p := p) ?_
      ((hord hc).outside hre' (Or.inl (Nat.le_succ i))) (hord' hc)
      (hre'.forall_outside (Or.inl (Nat.le_succ i)) (hre.forall_mem hbelow))
      (hre'.forall_mem (hre.forall_outside (Or.inr (Nat.le_succ i)) habove))
    rw [hre'.outside (Or.inl (Nat.lt_succ_self i)), hre.outside (Or.inr (Nat.le_refl i))]
    exact hp
  · dsimp only at hre hord hre' hord'
    refine ⟨(h.rearranges.trans (hre.mono (by omega) (Nat.le_refl _))).trans
      (hre'.mono (Nat.le_refl _) hi), fun hc => ?_⟩
    obtain ⟨p, hp, hbelow, habove⟩ := h.ordered hc
    refine Ordered.join hc.toStrictWeak (p := p) ?_ (hord' hc)
      ((hord hc).outside hre' (Or.inr (Nat.le_succ i)))
      (hre'.forall_mem (hre.forall_outside (Or.inl (Nat.le_succ i)) hbelow))
      (hre'.forall_outside (Or.inr (Nat.le_succ i)) (hre.forall_mem habove))
    rw [hre'.outside (Or.inr (Nat.le_refl i)), hre.outside (Or.inl (Nat.lt_succ_self i))]
    exact hp

/-- **Sorting** needs no more levels than there are elements. -/
theorem sortFrom_spec (lt : α → α → Prop) (n : Nat) : ∀ {start stop : Nat} {a : List α} (s : σ),
    stop ≤ a.length → stop - start < n →
    Loop.Yields (sortFrom cmp n start stop a s) (Inserted cmp lt start stop stop a) := by
  induction n with
  | zero =>
    intro start stop a s _ hn
    omega
  | succ n ih =>
    intro start stop a s hlen hn
    unfold sortFrom
    by_cases hlong : 10 < stop - start
    · rw [if_pos hlong]
      refine (partition_spec lt hlen hlong s).bind ?_
      rintro ⟨i, b, s₁⟩ hpart
      have hlo := hpart.lo
      have hhi := hpart.hi
      dsimp only at hlo hhi ⊢
      have hlenb : stop ≤ b.length := by rwa [hpart.rearranges.length]
      split
      · -- the lower half is the shorter one
        refine (ih s₁ (show i ≤ b.length by omega) (by omega)).bind ?_
        rintro ⟨c, s₂⟩ hlow
        have hlenc : stop ≤ c.length := by rwa [hlow.1.length]
        refine (ih s₂ hlenc (by omega)).imp ?_
        rintro ⟨d, s₃⟩ hhigh
        exact hpart.join (Or.inl ⟨hlow, hhigh⟩)
      · refine (ih s₁ hlenb (by omega)).bind ?_
        rintro ⟨c, s₂⟩ hhigh
        have hlenc : stop ≤ c.length := by rwa [hhigh.1.length]
        refine (ih s₂ (show i ≤ c.length by omega) (by omega)).imp ?_
        rintro ⟨d, s₃⟩ hlow
        exact hpart.join (Or.inr ⟨hhigh, hlow⟩)
    · rw [if_neg hlong]
      exact insertionsort_spec hlen s

/-! ## The state of the comparison -/

section State

variable {β τ : Type}

/-- Comparisons of elements and states that correspond give the same answers and go on in states
that correspond. -/
def Follows (ψ : β → α) (φ : τ → σ) (cmp : Compare α σ) (cmp' : Compare β τ) : Prop :=
  ∀ x y t, cmp (ψ x) (ψ y) (φ t) = ((cmp' x y t).1, φ (cmp' x y t).2)

variable {ψ : β → α} {φ : τ → σ} {cmp' : Compare β τ}

theorem load_map (ψ : β → α) (a : List β) (i : Nat) :
    load start stop (a.map ψ) i = (load start stop a i).map ψ := by
  unfold load
  split
  · exact List.getElem?_map
  · rfl

theorem store_map (ψ : β → α) (a : List β) (i : Nat) (x : β) :
    store start stop (a.map ψ) i (ψ x) = (store start stop a i x).map (List.map ψ) := by
  unfold store
  rw [List.length_map]
  split
  · rw [Option.map_some, List.map_set]
  · rfl

theorem sink_follows (h : Follows ψ φ cmp cmp') (tmp : β) (j : Nat) : ∀ (a : List β) (t : τ),
    sink cmp start stop (ψ tmp) j (a.map ψ) (φ t) =
      (sink cmp' start stop tmp j a t).map (Prod.map (List.map ψ) φ) := by
  induction j with
  | zero =>
    intro a t
    rw [sink, sink, store_map]
    cases store start stop a 0 tmp <;> rfl
  | succ j ih =>
    intro a t
    rw [sink, sink, load_map, store_map]
    split
    · cases load start stop a j with
      | none => rfl
      | some y =>
        simp only [Option.map_some, Option.bind_eq_bind, Option.bind_some, h tmp y t, store_map]
        cases (cmp' tmp y t).1 with
        | false => cases store start stop a (j + 1) tmp <;> rfl
        | true =>
          cases store start stop a (j + 1) y with
          | none => rfl
          | some a => exact ih a _
    · cases store start stop a (j + 1) tmp <;> rfl

theorem insert_follows (h : Follows ψ φ cmp cmp') (i : Nat) (a : List β) (t : τ) :
    insert cmp start stop i (a.map ψ) (φ t) =
      (insert cmp' start stop i a t).map (Prod.map (List.map ψ) φ) := by
  unfold insert
  rw [load_map, load_map]
  cases load start stop a i with
  | none => rfl
  | some x =>
    cases load start stop a (i - 1) with
    | none => rfl
    | some y =>
      simp only [Option.map_some, Option.bind_eq_bind, Option.bind_some, h x y t, store_map]
      cases (cmp' x y t).1 with
      | false => rfl
      | true =>
        cases store start stop a i y with
        | none => rfl
        | some a => exact sink_follows h x (i - 1) a _

theorem insertFrom_follows (h : Follows ψ φ cmp cmp') (n : Nat) : ∀ (i : Nat) (a : List β) (t : τ),
    insertFrom cmp start stop n i (a.map ψ) (φ t) =
      (insertFrom cmp' start stop n i a t).map (Prod.map (List.map ψ) φ) := by
  induction n with
  | zero => exact fun _ _ _ => rfl
  | succ n ih =>
    intro i a t
    rw [insertFrom, insertFrom, insert_follows h]
    cases insert cmp' start stop i a t with
    | none => rfl
    | some r => exact ih (i + 1) r.1 r.2

theorem choose_follows (h : Follows ψ φ cmp cmp') (a : List β) (t : τ) :
    choose cmp start stop (a.map ψ) (φ t) =
      (choose cmp' start stop a t).map (Prod.map ψ (Prod.map (List.map ψ) φ)) := by
  unfold choose
  dsimp only
  simp only [load_map]
  cases load start stop a start with
  | none => rfl
  | some x =>
    cases load start stop a (start + (stop - start) / 2) with
    | none => rfl
    | some y =>
      cases load start stop a (stop - 1) with
      | none => rfl
      | some z =>
        simp only [Option.map_some, Option.bind_eq_bind, Option.bind_some, h x y t, store_map]
        cases (cmp' x y t).1 with
        | true =>
          simp only [if_true, h z x]
          cases (cmp' z x (cmp' x y t).2).1 with
          | true =>
            cases store start stop a start z with
            | none => rfl
            | some a =>
              simp only [Option.map_some, Option.bind_some, store_map]
              cases store start stop a (stop - 1) y <;> rfl
          | false =>
            simp only [Bool.false_eq_true, if_false, h z y]
            cases (cmp' z y (cmp' z x (cmp' x y t).2).2).1 with
            | true => cases store start stop a (stop - 1) y <;> rfl
            | false => rfl
        | false =>
          simp only [Bool.false_eq_true, if_false, h x z]
          cases (cmp' x z (cmp' x y t).2).1 with
          | true => cases store start stop a start y <;> rfl
          | false =>
            simp only [Bool.false_eq_true, if_false, h y z]
            cases (cmp' y z (cmp' x z (cmp' x y t).2).2).1 with
            | true =>
              cases store start stop a (stop - 1) x with
              | none => rfl
              | some a =>
                simp only [if_true, Option.map_some, Option.bind_some, store_map]
                cases store start stop a start y <;> rfl
            | false =>
              cases store start stop a start z with
              | none => rfl
              | some a =>
                simp only [Bool.false_eq_true, if_false, Option.map_some, Option.bind_some,
                  store_map]
                cases store start stop a (stop - 1) x <;> rfl

theorem median_follows (h : Follows ψ φ cmp cmp') (a : List β) (t : τ) :
    median cmp start stop (a.map ψ) (φ t) =
      (median cmp' start stop a t).map (Prod.map ψ (Prod.map (List.map ψ) φ)) := by
  unfold median
  rw [choose_follows h]
  cases choose cmp' start stop a t with
  | none => rfl
  | some r =>
    simp only [Option.map_some, Option.bind_eq_bind, Option.bind_some, Prod.map, load_map]
    cases load start stop r.2.1 (stop - 2) with
    | none => rfl
    | some y =>
      simp only [Option.map_some, Option.bind_some, store_map]
      cases store start stop r.2.1 (start + (stop - start) / 2) y <;> rfl

theorem up_follows (h : Follows ψ φ cmp cmp') (pivot : β) (j : Nat) (a : List β) (n : Nat) :
    ∀ (i : Nat) (t : τ), up cmp start stop (ψ pivot) j (a.map ψ) n i (φ t) =
      (up cmp' start stop pivot j a n i t).map (Prod.map id (Prod.map id φ)) := by
  induction n with
  | zero => exact fun _ _ => rfl
  | succ n ih =>
    intro i t
    rw [up, up, load_map]
    cases load start stop a i with
    | none => rfl
    | some x =>
      simp only [Option.map_some, Option.bind_eq_bind, Option.bind_some, h x pivot t]
      cases (cmp' x pivot t).1 with
      | false => rfl
      | true =>
        rw [if_pos rfl, if_pos rfl]
        split
        · rfl
        · exact ih (i + 1) _

theorem down_follows (h : Follows ψ φ cmp cmp') (pivot : β) (i : Nat) (a : List β) (n : Nat) :
    ∀ (j : Nat) (t : τ), down cmp start stop (ψ pivot) i (a.map ψ) n j (φ t) =
      (down cmp' start stop pivot i a n j t).map (Prod.map id (Prod.map id φ)) := by
  induction n with
  | zero => exact fun _ _ => rfl
  | succ n ih =>
    intro j t
    rw [down, down, load_map]
    cases load start stop a (j - 1) with
    | none => rfl
    | some x =>
      simp only [Option.map_some, Option.bind_eq_bind, Option.bind_some, h pivot x t]
      cases (cmp' pivot x t).1 with
      | false => rfl
      | true =>
        rw [if_pos rfl, if_pos rfl]
        split
        · rfl
        · exact ih (j - 1) _

/-- The cursor that corresponds. -/
def Cursor.map (ψ : β → α) (φ : τ → σ) (c : Cursor β τ) : Cursor α σ :=
  ⟨c.i, c.j, c.a.map ψ, φ c.s⟩

theorem exchange_follows (h : Follows ψ φ cmp cmp') (pivot : β) (c : Cursor β τ) :
    exchange cmp start stop (ψ pivot) (c.map ψ φ) = (exchange cmp' start stop pivot c).map
      (Sum.map (Cursor.map ψ φ) (Prod.map id (Prod.map (List.map ψ) φ))) := by
  unfold exchange Cursor.map
  dsimp only
  rw [up_follows h]
  cases up cmp' start stop pivot c.j c.a (stop - start) c.i c.s with
  | none => rfl
  | some r =>
    simp only [Option.map_some, Option.bind_eq_bind, Option.bind_some, Prod.map, id_eq]
    cases r.2.1 with
    | true => rfl
    | false =>
      simp only [Bool.false_eq_true, if_false]
      rw [down_follows h]
      cases down cmp' start stop pivot r.1 c.a (stop - start) c.j r.2.2 with
      | none => rfl
      | some d =>
        simp only [Option.map_some, Option.bind_some, Prod.map, id_eq]
        cases d.2.1 with
        | true => rfl
        | false =>
          simp only [Bool.false_eq_true, if_false, load_map]
          cases load start stop c.a r.1 with
          | none => rfl
          | some x =>
            cases load start stop c.a d.1 with
            | none => rfl
            | some y =>
              simp only [Option.map_some, Option.bind_some, store_map]
              cases store start stop c.a r.1 y with
              | none => rfl
              | some a =>
                simp only [Option.map_some, Option.bind_some, store_map]
                cases store start stop a d.1 x with
                | none => rfl
                | some a =>
                  simp only [Option.map_some, Option.bind_some]
                  split <;> rfl

theorem exchanges_follow (h : Follows ψ φ cmp cmp') (pivot : β) (n : Nat) : ∀ c : Cursor β τ,
    Loop.loop (exchange cmp start stop (ψ pivot)) n (c.map ψ φ) =
      (Loop.loop (exchange cmp' start stop pivot) n c).map
        (Prod.map id (Prod.map (List.map ψ) φ)) := by
  induction n with
  | zero => exact fun _ => rfl
  | succ n ih =>
    intro c
    rw [Loop.loop, Loop.loop, exchange_follows h]
    cases exchange cmp' start stop pivot c with
    | none => rfl
    | some r =>
      cases r with
      | inl c => exact ih c
      | inr p => rfl

theorem partition_follows (h : Follows ψ φ cmp cmp') (a : List β) (t : τ) :
    partition cmp start stop (a.map ψ) (φ t) =
      (partition cmp' start stop a t).map (Prod.map id (Prod.map (List.map ψ) φ)) := by
  unfold partition
  rw [median_follows h]
  cases median cmp' start stop a t with
  | none => rfl
  | some r =>
    simp only [Option.map_some, Option.bind_eq_bind, Option.bind_some, Prod.map]
    have hloop : Loop.loop (exchange cmp start stop (ψ r.1)) (stop - start)
        ⟨start + 1, stop - 2, r.2.1.map ψ, φ r.2.2⟩ =
          (Loop.loop (exchange cmp' start stop r.1) (stop - start)
            ⟨start + 1, stop - 2, r.2.1, r.2.2⟩).map (Prod.map id (Prod.map (List.map ψ) φ)) :=
      exchanges_follow h r.1 _ ⟨start + 1, stop - 2, r.2.1, r.2.2⟩
    rw [hloop]
    cases Loop.loop (exchange cmp' start stop r.1) (stop - start)
        ⟨start + 1, stop - 2, r.2.1, r.2.2⟩ with
    | none => rfl
    | some p =>
      simp only [Option.map_some, Option.bind_some, Prod.map, id_eq, load_map]
      cases load start stop p.2.1 p.1 with
      | none => rfl
      | some y =>
        simp only [Option.map_some, Option.bind_some, store_map]
        cases store start stop p.2.1 (stop - 2) y with
        | none => rfl
        | some b =>
          simp only [Option.map_some, Option.bind_some, store_map]
          cases store start stop b p.1 r.1 <;> rfl

theorem sortFrom_follows (h : Follows ψ φ cmp cmp') (n : Nat) :
    ∀ (start stop : Nat) (a : List β) (t : τ), sortFrom cmp n start stop (a.map ψ) (φ t) =
      (sortFrom cmp' n start stop a t).map (Prod.map (List.map ψ) φ) := by
  induction n with
  | zero => exact fun _ _ _ _ => rfl
  | succ n ih =>
    intro start stop a t
    rw [sortFrom, sortFrom]
    split
    · rw [partition_follows h]
      cases partition cmp' start stop a t with
      | none => rfl
      | some r =>
        simp only [Option.map_some, Option.bind_eq_bind, Option.bind_some, Prod.map, id_eq]
        split
        · rw [ih]
          cases sortFrom cmp' n start r.1 r.2.1 r.2.2 with
          | none => rfl
          | some p => exact ih _ _ _ _
        · rw [ih]
          cases sortFrom cmp' n (r.1 + 1) stop r.2.1 r.2.2 with
          | none => rfl
          | some p => exact ih _ _ _ _
    · exact insertFrom_follows h _ _ _ _

end State

/-- **Sorting a part of the memory** with any comparison, whatever it answers, ends without an
access to another part.  The elements are the same, and in order for every order that the comparison
decides. -/
theorem quicksort_exact (cmp : Compare α σ) (before l after : List α) (s : σ) :
    ∃ l' s', quicksort cmp before.length (before.length + l.length) (before ++ l ++ after) s =
      some (before ++ l' ++ after, s') ∧ l'.Perm l ∧
    ∀ lt, Consistent cmp lt → l'.Pairwise fun x y => ¬ lt y x := by
  have hlen : before.length + l.length ≤ (before ++ l ++ after).length := by
    rw [List.length_append, List.length_append]
    exact Nat.le_add_right _ _
  have hspec : ∀ lt, Loop.Yields (quicksort cmp before.length (before.length + l.length)
      (before ++ l ++ after) s) (Inserted cmp lt _ _ _ _) := fun lt =>
    sortFrom_spec lt _ s hlen (Nat.lt_succ_self _)
  obtain ⟨⟨b, s'⟩, hrun, hre, -⟩ := hspec fun _ _ => False
  obtain ⟨l', rfl, hperm⟩ := hre.split
  refine ⟨l', s', hrun, hperm, fun lt hc => ?_⟩
  obtain ⟨r, hr, -, hord⟩ := hspec lt
  rw [hrun] at hr
  have hordered := hord hc
  rw [← Option.some.inj hr, ← hperm.length_eq] at hordered
  exact Ordered.pairwise hordered

/-- **Sorting an array**. -/
theorem sort_exact (cmp : Compare α σ) (buf : List α) (s : σ) :
    ∃ l s', sort cmp buf s = some (l, s') ∧ l.Perm buf ∧
    ∀ lt, Consistent cmp lt → l.Pairwise fun x y => ¬ lt y x := by
  obtain ⟨l, s', hrun, h⟩ := quicksort_exact cmp [] buf [] s
  rw [List.nil_append, List.append_nil, List.length_nil, Nat.zero_add, List.nil_append,
    List.append_nil] at hrun
  exact ⟨l, s', hrun, h⟩

/-- **Sorting with a comparison that keeps something of its state** while it compares elements of the
array: it holds at the end.  An order need be one, and be decided, for these elements in such states
only. -/
theorem sort_keeps (cmp : Compare α σ) {buf : List α} {P : σ → Prop}
    (hP : ∀ x ∈ buf, ∀ y ∈ buf, ∀ s, P s → P (cmp x y s).2) {s : σ} (hs : P s) :
    ∃ l s', sort cmp buf s = some (l, s') ∧ P s' ∧ l.Perm buf ∧
    ∀ lt : α → α → Prop, StrictWeak (fun x y : {x // x ∈ buf} => lt x y) →
      (∀ x ∈ buf, ∀ y ∈ buf, ∀ s, P s → ((cmp x y s).1 = true ↔ lt x y)) →
      l.Pairwise fun x y => ¬ lt y x := by
  let cmp' : Compare {x // x ∈ buf} {s // P s} := fun x y t =>
    ((cmp x y t).1, ⟨(cmp x y t).2, hP x x.2 y y.2 t t.2⟩)
  have hfollow : Follows Subtype.val Subtype.val cmp cmp' := fun _ _ _ => rfl
  obtain ⟨l, s', hrun, hperm, hord⟩ := sort_exact cmp' buf.attach ⟨s, hs⟩
  have hbuf : buf.attach.map Subtype.val = buf := List.attach_map_subtype_val buf
  have hsort : sort cmp buf s =
      (sort cmp' buf.attach ⟨s, hs⟩).map (Prod.map (List.map Subtype.val) Subtype.val) := by
    have hfrom := sortFrom_follows hfollow (buf.length - 0 + 1) 0 buf.length buf.attach ⟨s, hs⟩
    rw [hbuf] at hfrom
    unfold sort quicksort
    rw [List.length_attach]
    exact hfrom
  rw [hrun] at hsort
  refine ⟨l.map Subtype.val, s', hsort, s'.2, ?_, fun lt hweak hdecides => ?_⟩
  · have hmap := hperm.map Subtype.val
    rwa [hbuf] at hmap
  · have hpair := hord (fun x y => lt x y)
      { hweak with decides := fun x y t => hdecides x x.2 y y.2 t t.2 }
    exact List.pairwise_map.mpr hpair

example : sort (fun x y (n : Nat) => (decide (x < y), n + 1))
    [12, 3, 1, 2, 7, 7, 8, 5, 4, 11, 9, 10] 0 =
    some ([1, 2, 3, 4, 5, 7, 7, 8, 9, 10, 11, 12], 36) := by decide

end Quicksort

end QServ
