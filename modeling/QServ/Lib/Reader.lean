import Mathlib.Data.List.Basic

/-!
# Reading a stream piece by piece

A reader answers requests one after the other.  What it is for is a list: each answer is the front
of what is left of it.

* `line`, `chop`: the first line of a list, and all of them.
* `plain`: the answers of the list itself.
* `Serves`: each step of a reader answers as the list that it has left would.
* `Serves.outputs`: so does a whole run.
-/

namespace Reader

variable {α σ ε : Type*}

/-- The list up to its first element of a kind, but no more than so many elements. -/
def line (nl : α → Bool) : Nat → List α → List α
  | 0, _ => []
  | _ + 1, [] => []
  | n + 1, a :: l => if nl a then [a] else a :: line nl n l

theorem line_initial (nl : α → Bool) : ∀ (n : Nat) (l : List α), line nl n l <+: l := by
  intro n l
  induction l generalizing n with
  | nil => cases n <;> simp [line]
  | cons a l ih =>
    cases n with
    | zero => simp [line]
    | succ n =>
      unfold line
      split
      · exact ⟨l, rfl⟩
      · exact List.cons_prefix_cons.mpr ⟨rfl, ih n⟩

/-- A line that ends within the first part. -/
theorem line_of_mem (nl : α → Bool) {l : List α} {i n : Nat} (hi : l.findIdx? nl = some i)
    (hn : l.length ≤ n) (r : List α) : line nl n (l ++ r) = l.take (i + 1) := by
  induction l generalizing i n with
  | nil => simp at hi
  | cons a l ih =>
    obtain ⟨n, rfl⟩ : ∃ m, n = m + 1 := ⟨n - 1, by simp at hn; omega⟩
    rw [List.findIdx?_cons] at hi
    rw [List.cons_append]
    unfold line
    by_cases ha : nl a
    · rw [if_pos ha] at hi ⊢
      obtain rfl := Option.some.inj hi
      rfl
    · rw [if_neg ha] at hi ⊢
      obtain ⟨j, hj, rfl⟩ := Option.map_eq_some_iff.mp hi
      rw [ih hj (by simpa using hn)]
      rfl

/-- A line that does not end within the first part. -/
theorem line_of_not_mem (nl : α → Bool) {l : List α} {n : Nat} (hl : l.findIdx? nl = none)
    (r : List α) : line nl (l.length + n) (l ++ r) = l ++ line nl n r := by
  induction l with
  | nil => simp
  | cons a l ih =>
    rw [List.findIdx?_cons] at hl
    by_cases ha : nl a
    · rw [if_pos ha] at hl
      cases hl
    · rw [if_neg ha, Option.map_eq_none_iff] at hl
      have hlen : (a :: l).length + n = (l.length + n) + 1 := by
        simp
        omega
      have hstep : line nl (l.length + n + 1) (a :: (l ++ r)) =
          a :: line nl (l.length + n) (l ++ r) := if_neg ha
      rw [hlen, List.cons_append, hstep, ih hl, List.cons_append]

/-- A list cut into lines of no more than so many elements. -/
def chop (nl : α → Bool) (n : Nat) (l : List α) : List (List α) :=
  if _h : line nl n l = [] then []
  else line nl n l :: chop nl n (l.drop (line nl n l).length)
termination_by l.length
decreasing_by
  have hpos := List.length_pos_iff.mpr _h
  have hle := (line_initial nl n l).length_le
  rw [List.length_drop]
  omega

theorem chop_of_nil {nl : α → Bool} {n : Nat} {l : List α} (h : line nl n l = []) :
    chop nl n l = [] := by
  rw [chop, dif_pos h]

theorem chop_of_ne {nl : α → Bool} {n : Nat} {l : List α} (h : line nl n l ≠ []) :
    chop nl n l = line nl n l :: chop nl n (l.drop (line nl n l).length) := by
  rw [chop, dif_neg h]

theorem chop_nil (nl : α → Bool) (n : Nat) : chop nl n [] = [] := by
  apply chop_of_nil
  cases n <;> rfl

/-- A line that is short enough is one of the pieces. -/
theorem chop_append (nl : α → Bool) {l : List α} {a : α} (hl : ∀ b ∈ l, nl b = false)
    (ha : nl a = true) {n : Nat} (hn : l.length < n) (r : List α) :
    chop nl n (l ++ a :: r) = (l ++ [a]) :: chop nl n r := by
  have hfind : (l ++ [a]).findIdx? nl = some l.length := by
    rw [List.findIdx?_eq_some_iff_getElem]
    refine ⟨by simp, by simpa using ha, ?_⟩
    intro j hj
    rw [List.getElem_append_left hj, hl _ (List.getElem_mem hj)]
    simp
  have hline : line nl n (l ++ a :: r) = l ++ [a] := by
    have := line_of_mem nl hfind (n := n) (by simp; omega) r
    rw [List.append_assoc, List.singleton_append] at this
    rw [this, List.take_of_length_le (by simp)]
  rw [chop_of_ne (by rw [hline]; simp), hline]
  have hdrop : (l ++ a :: r).drop (l ++ [a]).length = r := by
    have happ : l ++ a :: r = (l ++ [a]) ++ r := by simp
    rw [happ, List.drop_left]
  rw [hdrop]

theorem line_map {γ : Type*} (f : γ → α) (nl : α → Bool) (n : Nat) (l : List γ) :
    (line (nl ∘ f) n l).map f = line nl n (l.map f) := by
  induction l generalizing n with
  | nil => cases n <;> rfl
  | cons a l ih =>
    cases n with
    | zero => rfl
    | succ n =>
      simp only [line, List.map_cons, Function.comp_apply]
      split
      · rfl
      · rw [List.map_cons, ih]

/-- Cutting looks at nothing but what makes an element the end of a line. -/
theorem chop_map {γ : Type*} (f : γ → α) (nl : α → Bool) (n : Nat) (l : List γ) :
    (chop (nl ∘ f) n l).map (List.map f) = chop nl n (l.map f) := by
  induction hk : l.length using Nat.strongRecOn generalizing l with
  | ind k ih =>
    have hlength : (line (nl ∘ f) n l).length = (line nl n (l.map f)).length := by
      rw [← line_map, List.length_map]
    by_cases hnil : line (nl ∘ f) n l = []
    · have hnil' : line nl n (l.map f) = [] := by
        rw [← line_map, hnil, List.map_nil]
      rw [chop_of_nil hnil, chop_of_nil hnil', List.map_nil]
    · have hnil' : line nl n (l.map f) ≠ [] := by
        intro h
        rw [h] at hlength
        exact hnil (List.length_eq_zero_iff.mp hlength)
      have hpos := List.length_pos_iff.mpr hnil
      have hle := (line_initial (nl ∘ f) n l).length_le
      rw [chop_of_ne hnil, chop_of_ne hnil', List.map_cons, line_map, ← hlength,
        ← List.map_drop, ih _ (by rw [← hk, List.length_drop]; omega) _ rfl]

/-- The answers of a list to requests one after the other. -/
def plain (take : ε → List α → List α) : List ε → List α → List (List α)
  | [], _ => []
  | e :: es, l => take e l :: plain take es (l.drop (take e l).length)

/-- The answers of a reader. -/
def outputs (step : σ → ε → List α × σ) : σ → List ε → List (List α)
  | _, [] => []
  | s, e :: es => (step s e).1 :: outputs step (step s e).2 es

/-- Each answer is that of the list which the reader has left. -/
structure Serves (step : σ → ε → List α × σ) (take : ε → List α → List α) (left : σ → List α) :
    Prop where
  isPrefix : ∀ e l, take e l <+: l
  out : ∀ s e, (step s e).1 = take e (left s)
  left : ∀ s e, left (step s e).2 = (left s).drop (take e (left s)).length

variable {step : σ → ε → List α × σ} {take : ε → List α → List α} {left : σ → List α}

/-- **A reader answers as the list does.** -/
theorem Serves.outputs (h : Serves step take left) (es : List ε) :
    ∀ s, outputs step s es = plain take es (left s) := by
  induction es with
  | nil =>
    intro s
    rfl
  | cons e es ih =>
    intro s
    rw [Reader.outputs, plain, ih, h.out, h.left]

end Reader
