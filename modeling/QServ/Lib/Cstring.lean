import Mathlib.Data.List.TakeWhile

/-!
# Texts that end with a zero

An array of cells holds the text before its first zero.  A write outside the array is none.

* `write`, `strcat`: cells are written at a place, a text is written over the zero.
* `Holds`: an array of so many cells with a text; `Holds.strcat` and `Holds.strcats` append to it as
  long as the zero has a cell.
* `put`: cells are written behind those that have been; `Filled.put` says when there is room.
-/

namespace Cstring

variable {α : Type} [Zero α]

/-- The text in an array. -/
def text [DecidableEq α] (buf : List α) : List α := buf.takeWhile (· ≠ 0)

/-- The cells from `i` on are written. -/
def write (buf : List α) (i : Nat) (s : List α) : Option (List α) :=
  if i + s.length ≤ buf.length then some (buf.take i ++ s ++ buf.drop (i + s.length)) else none

/-- `strcat(buf, s)`. -/
def strcat [DecidableEq α] (buf s : List α) : Option (List α) :=
  write buf (text buf).length (s ++ [0])

/-- `strncpy(d, s, n); d[n-1] = 0;`, of an array of `n` cells. -/
def strncpy (s : List α) (n : Nat) : List α :=
  (s ++ List.replicate (n - s.length) 0).take (n - 1) ++ [0]

/-- An array of `size` cells with this text. -/
structure Holds (buf : List α) (size : Nat) (t : List α) : Prop where
  length : buf.length = size
  ends : ∃ rest, buf = t ++ 0 :: rest
  nonzero : 0 ∉ t

section

variable {buf s t : List α} {size : Nat}

theorem text_of_not_mem [DecidableEq α] (h : 0 ∉ t) : text t = t := by
  refine List.takeWhile_eq_self_iff.mpr fun c hc => ?_
  have hne : c ≠ 0 := fun h0 => h (h0 ▸ hc)
  simpa using hne

theorem text_append [DecidableEq α] (h : 0 ∉ t) (rest : List α) : text (t ++ 0 :: rest) = t := by
  unfold text
  rw [List.takeWhile_append_of_pos, List.takeWhile_cons_of_neg (by simp), List.append_nil]
  intro c hc
  have hne : c ≠ 0 := fun h0 => h (h0 ▸ hc)
  simpa using hne

theorem Holds.text_eq [DecidableEq α] (h : Holds buf size t) : text buf = t := by
  obtain ⟨rest, rfl⟩ := h.ends
  exact text_append h.nonzero rest

theorem Holds.length_lt (h : Holds buf size t) : t.length < size := by
  obtain ⟨rest, rfl⟩ := h.ends
  rw [← h.length, List.length_append, List.length_cons]
  omega

/-- **Appending**, with a cell for the zero. -/
theorem Holds.strcat [DecidableEq α] (h : Holds buf size t) (hs : 0 ∉ s)
    (hroom : t.length + s.length < size) :
    ∃ buf', strcat buf s = some buf' ∧ Holds buf' size (t ++ s) := by
  have hlen := h.length
  have htext := h.text_eq
  obtain ⟨rest, rfl⟩ := h.ends
  refine ⟨(t ++ 0 :: rest).take t.length ++ (s ++ [0]) ++
    (t ++ 0 :: rest).drop (t.length + (s ++ [0]).length), ?_, ?_, ?_, ?_⟩
  · rw [Cstring.strcat, htext, write, if_pos]
    rw [List.length_append, List.length_singleton]
    omega
  · simp only [List.length_append, List.length_take, List.length_drop, List.length_cons,
      List.length_nil] at hlen ⊢
    omega
  · rw [List.take_left]
    exact ⟨_, by rw [← List.append_assoc, List.append_assoc (t ++ s), List.singleton_append]⟩
  · rw [List.mem_append, not_or]
    exact ⟨h.nonzero, hs⟩

/-- A copy of a text that fits. -/
theorem holds_strncpy (hs : 0 ∉ s) (hroom : s.length < size) : Holds (strncpy s size) size s where
  length := by
    rw [strncpy, List.length_append, List.length_take, List.length_append, List.length_replicate,
      List.length_singleton]
    omega
  ends := by
    refine ⟨List.replicate (size - s.length - 1) 0, ?_⟩
    rw [strncpy, List.take_append, List.take_of_length_le (by omega), List.take_replicate,
      List.append_assoc, ← List.replicate_succ', ← List.replicate_succ]
    congr 2
    omega
  nonzero := hs

/-- A zero over the zero. -/
theorem Holds.rewrite (h : Holds buf size t) (c : α) :
    (write buf t.length [c]).bind (fun b => write b t.length [0]) = some buf := by
  obtain ⟨rest, rfl⟩ := h.ends
  have hput : ∀ x y : α, write (t ++ x :: rest) t.length [y] = some (t ++ y :: rest) := by
    intro x y
    rw [write, if_pos (by simp)]
    simp
  rw [hput, Option.bind_some, hput]

/-! ### Cells one after the other -/

/-- The cells behind the first so many are written. -/
def put (m : List α × Nat) (s : List α) : Option (List α × Nat) :=
  (write m.1 m.2 s).map fun buf => (buf, m.2 + s.length)

/-- An array of `size` cells, of which the first have been written. -/
structure Filled (m : List α × Nat) (size : Nat) (t : List α) : Prop where
  length : m.1.length = size
  count : m.2 = t.length
  cells : m.1.take m.2 = t

omit [Zero α] in
theorem Filled.put {m : List α × Nat} (h : Filled m size t) (hroom : t.length + s.length ≤ size) :
    ∃ m', put m s = some m' ∧ Filled m' size (t ++ s) := by
  obtain ⟨buf, n⟩ := m
  obtain ⟨hlen, hcount, hcells⟩ := h
  dsimp only at hlen hcount hcells
  have hwrite : write buf n s = some (buf.take n ++ s ++ buf.drop (n + s.length)) :=
    if_pos (by omega)
  refine ⟨_, by rw [Cstring.put, hwrite, Option.map_some], ?_, ?_, ?_⟩
  · simp only [List.length_append, List.length_take, List.length_drop]
    omega
  · rw [List.length_append, hcount]
  · rw [hcells, List.take_left' (by rw [List.length_append, hcount])]

omit [Zero α] in
theorem Filled.put_none {m : List α × Nat} (h : Filled m size t)
    (hroom : size < t.length + s.length) : Cstring.put m s = none := by
  have hlen := h.length
  have hcount := h.count
  rw [Cstring.put, write, if_neg (by omega), Option.map_none]

omit [Zero α] in
theorem Filled.length_le {m : List α × Nat} (h : Filled m size t) : t.length ≤ size := by
  have hcells := congrArg List.length h.cells
  rw [List.length_take, h.length] at hcells
  omega

omit [Zero α] in
theorem Filled.put_nil {m : List α × Nat} (h : Filled m size t) : Cstring.put m [] = some m := by
  have hle : m.2 + ([] : List α).length ≤ m.1.length := by
    rw [h.count, h.length]
    exact h.length_le
  rw [Cstring.put, write, if_pos hle, List.append_nil, List.length_nil, Nat.add_zero,
    List.take_append_drop]
  rfl

omit [Zero α] in
theorem Filled.of_put {m m' : List α × Nat} (h : Filled m size t) (hput : Cstring.put m s = some m') :
    t.length + s.length ≤ size ∧ Filled m' size (t ++ s) := by
  have hroom : t.length + s.length ≤ size := by
    by_contra hfull
    rw [h.put_none (Nat.lt_of_not_le hfull)] at hput
    cases hput
  obtain ⟨m'', hm'', hfilled⟩ := h.put hroom
  obtain rfl := Option.some.inj (hput.symm.trans hm'')
  exact ⟨hroom, hfilled⟩

end

end Cstring
