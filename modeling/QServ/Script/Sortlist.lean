import QServ.Script.Listops

/-!
# Sorting a list

`sortlist` of `engine/command.cpp` with a body that leaves the two loop variables alone.

* `Elements.pairwise`: an element begins behind the end of those before it, so that the zeros
  written there change no other one; `textat_eq`: each is read from the copy as it was.
* `sortfun_shows`: what the variables are when the body runs; `Kept`: what they are given back.
* `sortlist_exact`: the result, the comparisons and the variables.
-/

namespace QServ

namespace Script

open Quicksort

variable {s : Text} {es : List Item}

/-! ## Elements do not touch -/

theorem parsestring_head {s t : Text} {c : UInt8} (h : parsestring s = c :: t) :
    c ∈ word "\r\n\"" := by
  induction hn : s.length using Nat.strong_induction_on generalizing s with
  | _ n ih =>
    cases s with
    | nil => cases h
    | cons d s =>
      have hs : s.length < n := by
        rw [← hn, List.length_cons]
        exact Nat.lt_succ_self _
      rw [parsestring_cons] at h
      split at h
      · rename_i hd
        rwa [(List.cons.inj h).1] at hd
      · split at h
        · exact ih s.tail.length (Nat.lt_of_le_of_lt (List.tail_suffix s).length_le hs) h rfl
        · exact ih s.length hs h rfl

/-- Where a word ends. -/
theorem parsewordin_stop {b s t : Text} {c : UInt8} (h : parsewordin b s = c :: t) :
    c ∈ word "\";@ \t\r\n" ∨ iscomment (c :: t) = true ∨ c ∈ word "[]()" := by
  induction s generalizing b with
  | nil => cases h
  | cons d s ih =>
    have hbracket : d ∈ word "[]()" → d :: s = c :: t → c ∈ word "[]()" := fun hd h => by
      rwa [(List.cons.inj h).1] at hd
    rw [parsewordin] at h
    split at h
    · rename_i hd
      left
      rwa [(List.cons.inj h).1] at hd
    · split at h
      · rename_i hslash
        split at h
        · rename_i hhead
          right
          left
          rw [← h, iscomment_cons]
          exact ⟨hslash, hhead⟩
        · exact ih h
      · split at h
        · rename_i hopen
          split at h
          · refine Or.inr (Or.inr (hbracket ?_ h))
            obtain rfl | rfl := hopen <;> decide
          · exact ih h
        · split at h
          · rename_i hclose
            split at h
            · exact ih h
            · exact Or.inr (Or.inr (hbracket (by rw [hclose]; decide) h))
          · split at h
            · rename_i hclose
              split at h
              · exact ih h
              · exact Or.inr (Or.inr (hbracket (by rw [hclose]; decide) h))
            · exact ih h

/-- An element that ends where the next one would begin with a word. -/
theorem stop_not_word {s w : Text} {c : UInt8} {e : Item} (he : parseitem s = some e)
    (hend : e.stop = c :: w) (hquoteend : e.quoteend = c :: w)
    (hskip : skiplist (c :: w) = c :: w) (hsemi : skipsemi (c :: w) = c :: w)
    (hat : c ≠ chr '@') : c = chr '"' ∨ c ∈ word "[]()" := by
  obtain ⟨hblank, hcom⟩ := skiplist_cons hskip
  have hsemicolon : c ≠ chr ';' := by
    rintro rfl
    rw [skipsemi_semicolon hskip] at hsemi
    exact List.cons_ne_self _ _ hsemi.symm
  cases s with
  | nil => cases he
  | cons d s =>
    rw [parseitem] at he
    split at he
    · cases he
      have hc := parsestring_head hend
      have hword : word "\r\n\"" = [chr '\r', chr '\n', chr '"'] := by decide
      rw [hword] at hc
      simp only [List.mem_cons, List.not_mem_nil, or_false] at hc
      obtain rfl | rfl | rfl := hc
      · exact absurd (by decide) hblank
      · exact absurd (by decide) hblank
      · exact Or.inl rfl
    · split at he
      · cases he
        dsimp only at hend hquoteend
        rw [hend, List.tail_cons] at hquoteend
        exact absurd hquoteend.symm (List.cons_ne_self _ _)
      · split at he
        · cases he
        · cases he
          obtain hc | hc | hc := parsewordin_stop hend
          · have hword : word "\";@ \t\r\n" = [chr '"', chr ';', chr '@'] ++ word " \t\r\n" := by
              decide
            rw [hword, List.mem_append] at hc
            obtain hc | hc := hc
            · simp only [List.mem_cons, List.not_mem_nil, or_false, hsemicolon, hat] at hc
              exact Or.inl hc
            · exact absurd hc hblank
          · rw [hcom] at hc
            cases hc
          · exact Or.inr hc

/-- Elements one behind the other. -/
theorem start_lt_stop {s t u : Text} {e f : Item} (h : parselist s = some (e, t))
    (h' : parselist t = some (f, u)) (hat : t.head? ≠ some (chr '@')) :
    f.start.length < e.stop.length := by
  obtain ⟨he, ht⟩ := parselist_eq_some h
  obtain ⟨hf, -⟩ := parselist_eq_some h'
  have hw := parseitem_within he
  have hw' := parseitem_within hf
  have hstart : f.start <:+ skiplist t := hw'.start
  have htsuffix : t <:+ e.quoteend := ht ▸ skipsemi_suffix _
  refine Nat.lt_of_le_of_ne ((hstart.trans (skiplist_suffix t)).trans
    (htsuffix.trans hw.quoteend)).length_le fun hlen => ?_
  -- nothing is between the two, so that the second is a word and the first ends before one
  have hle₁ := hstart.length_le
  have hle₂ := (skiplist_suffix t).length_le
  have hle₃ := htsuffix.length_le
  have hle₄ := hw.quoteend.length_le
  have heq₁ : f.start = skiplist t := hstart.eq_of_length (by omega)
  have heq₂ : skiplist t = t := (skiplist_suffix t).eq_of_length (by omega)
  have heq₃ : t = e.quoteend := htsuffix.eq_of_length (by omega)
  have heq₄ : e.quoteend = e.stop := hw.quoteend.eq_of_length (by omega)
  rw [heq₂] at hf heq₁
  cases t with
  | nil => cases hf
  | cons c w =>
    have hc := stop_not_word he (heq₄.symm.trans heq₃.symm) heq₃.symm heq₂ (by
      rw [heq₃, ← ht, ← heq₃]) fun h => hat (congrArg some h)
    have hne : f.start ≠ c :: w := by
      rw [parseitem] at hf
      split at hf
      · cases hf
        exact fun h => List.cons_ne_self _ _ h.symm
      · rename_i hquote
        split at hf
        · cases hf
          exact fun h => List.cons_ne_self _ _ h.symm
        · rename_i hopen
          split at hf
          · cases hf
          · rename_i hclose
            have hword : word "[]()" = [chr '[', chr ']', chr '(', chr ')'] := by decide
            rw [hword] at hc
            simp only [List.mem_cons, List.not_mem_nil, or_false, hquote, false_or] at hc
            tauto
    exact hne heq₁

/-- **Elements do not touch**: each begins behind the end of those before it. -/
theorem Elements.pairwise (h : Elements s es) :
    es.Pairwise fun e f => f.start.length < e.stop.length := by
  induction h with
  | done => exact .nil
  | @next s t e es h hr ih =>
    refine .cons (fun f hf => ?_) ih
    cases hr with
    | done => cases hf
    | @next _ u f' es h' hr' =>
      have hfirst := start_lt_stop h h' (Elements.next h' hr').head_ne
      obtain rfl | hf := List.mem_cons.mp hf
      · exact hfirst
      · have hw := (parselist_within h').1
        have hle := (List.rel_of_pairwise_cons ih hf)
        exact Nat.lt_trans hle (Nat.lt_of_le_of_lt hw.stop.length_le hfirst)

/-! ## The copy of the list -/

/-- The copy with a zero at the end of each element. -/
def marked (s : Text) (es : List Item) : Text :=
  (es.map fun e => offset s e.stop).foldl (fun m i => m.set i 0) s

theorem getElem?_foldl_set (ps : List Nat) : ∀ (m : Text) (k : Nat),
    (ps.foldl (fun m i => m.set i 0) m)[k]? = if k ∈ ps then (m[k]?).map fun _ => 0 else m[k]? := by
  induction ps with
  | nil => exact fun _ _ => rfl
  | cons p ps ih =>
    intro m k
    rw [List.foldl_cons, ih, List.getElem?_set]
    by_cases hk : k ∈ ps
    · rw [if_pos hk, if_pos (List.mem_cons_of_mem p hk)]
      by_cases hpk : p = k
      · subst hpk
        by_cases hlt : p < m.length
        · simp [hlt]
        · simp [hlt]
      · rw [if_neg hpk]
    · rw [if_neg hk]
      by_cases hpk : p = k
      · subst hpk
        by_cases hlt : p < m.length
        · simp [hlt]
        · simp [hlt]
      · rw [if_neg hpk, if_neg]
        simp [hk, Ne.symm hpk]

/-- What is before the first zero. -/
theorem takeWhile_eq {l t : Text} (h : ∀ k < t.length, l[k]? = t[k]?) (hnul : 0 ∉ t)
    (hend : l[t.length]? = none ∨ l[t.length]? = some 0) : l.takeWhile (· ≠ 0) = t := by
  induction t generalizing l with
  | nil =>
    cases l with
    | nil => rfl
    | cons c l =>
      obtain hend | hend := hend
      · cases hend
      · rw [Option.some.inj (show some c = some 0 from hend)]
        rfl
  | cons c t ih =>
    cases l with
    | nil => cases h 0 (Nat.succ_pos _)
    | cons d l =>
      obtain rfl : d = c := Option.some.inj (h 0 (Nat.succ_pos _))
      have hd : d ≠ 0 := fun h => hnul (h ▸ List.mem_cons_self)
      rw [List.takeWhile_cons_of_pos (by simpa using hd)]
      exact congrArg (d :: ·) (ih (fun k hk => h (k + 1) (Nat.succ_lt_succ hk))
        (fun h => hnul (List.mem_cons_of_mem d h)) hend)

theorem drop_offset {s p : Text} (h : p <:+ s) : s.drop (offset s p) = p := by
  obtain ⟨x, rfl⟩ := h
  unfold offset
  rw [List.length_append, Nat.add_sub_cancel, List.drop_left]

/-- The pointers of an element lie in the text. -/
theorem Elements.pointers (h : Elements s es) {e : Item} (he : e ∈ es) :
    e.start <:+ s ∧ e.stop <:+ e.start := by
  induction h with
  | done => cases he
  | next h _ ih =>
    obtain rfl | he := List.mem_cons.mp he
    · obtain ⟨hw, -⟩ := parselist_within h
      exact ⟨hw.start.trans (skiplist_suffix _), hw.stop⟩
    · exact ⟨(ih he).1.trans (parselist_suffix h), (ih he).2⟩

/-- **An element** is read from the copy as it was in the list. -/
theorem textat_eq (h : Elements s es) (hnul : 0 ∉ s) {e : Item} (he : e ∈ es) :
    textat (marked s es) (offset s e.start) = e.text := by
  obtain ⟨hstart, hstop⟩ := h.pointers he
  have hlen := hstart.length_le
  have hlen' := hstop.length_le
  have htext : e.text.length = e.start.length - e.stop.length := by
    unfold Item.text upto
    rw [List.length_take]
    omega
  have hget : ∀ k < e.text.length, e.text[k]? = s[offset s e.start + k]? := by
    intro k hk
    rw [← List.getElem?_drop, drop_offset hstart]
    unfold Item.text upto
    rw [List.getElem?_take_of_lt (by omega)]
  -- no other element ends within this one
  have hout : ∀ f ∈ es, offset s f.stop < offset s e.start ∨ offset s e.stop ≤ offset s f.stop := by
    intro f hf
    obtain ⟨as, bs, rfl⟩ := List.append_of_mem he
    have hpair := h.pairwise
    rw [List.pairwise_append] at hpair
    obtain ⟨-, hbs, has⟩ := hpair
    have hf' := (h.pointers hf).1.length_le
    have hf'' := (h.pointers hf).2.length_le
    unfold offset
    obtain hf | hf := List.mem_append.mp hf
    · have hlt := has f hf e List.mem_cons_self
      left
      omega
    · right
      obtain rfl | hf := List.mem_cons.mp hf
      · exact Nat.le_refl _
      · have hlt := List.rel_of_pairwise_cons hbs hf
        omega
  have hsum : offset s e.start + e.text.length = offset s e.stop := by
    rw [htext]
    unfold offset
    omega
  unfold textat
  refine takeWhile_eq (fun k hk => ?_) (fun h0 => hnul ?_) ?_
  · rw [List.getElem?_drop, hget k hk, marked, getElem?_foldl_set, if_neg]
    intro hmem
    obtain ⟨f, hf, heq⟩ := List.mem_map.mp hmem
    obtain hlt | hle := hout f hf <;> omega
  · have hsub : e.text <:+: s := (List.take_prefix _ _).isInfix.trans hstart.isInfix
    exact hsub.subset h0
  · have hmem : offset s e.stop ∈ es.map fun e => offset s e.stop := List.mem_map_of_mem he
    rw [List.getElem?_drop, hsum, marked, getElem?_foldl_set, if_pos hmem]
    cases s[offset s e.stop]? with
    | none => exact Or.inl rfl
    | some c => exact Or.inr rfl

/-! ## The loop variables -/

section Variables

variable {F : Type} {a b : Aliases F} {id x y : Nat}

theorem idents_cleancode (a : Aliases F) (id j : Nat) : (a.cleancode id).idents[j]? =
    (a.idents[j]?).map fun v => if id = j then { v with code := none } else v := by
  unfold Aliases.cleancode
  cases hcode : a.code id with
  | some c => exact Aliases.edit_getElem? j
  | none =>
    cases hv : a.idents[j]? with
    | none => rfl
    | some v =>
      refine congrArg some ?_
      split
      · rename_i hid
        subst hid
        unfold Aliases.code at hcode
        rw [hv, Option.bind_some] at hcode
        cases v
        cases hcode
        rfl
      · rfl

/-- What `sortfun` does to a variable. -/
theorem idents_sortfun (a : Aliases F) (x y : Nat) (xval yval : Text) (j : Nat) :
    (a.sortfun x y xval yval).idents[j]? = (a.idents[j]?).map fun v =>
      if y = j then { v with val := .VAL_MACRO yval, code := none }
      else if x = j then { v with val := .VAL_MACRO xval, code := none } else v := by
  unfold Aliases.sortfun Aliases.setval
  rw [Aliases.edit_getElem?, idents_cleancode, Aliases.edit_getElem?, idents_cleancode]
  cases a.idents[j]? with
  | none => rfl
  | some v =>
    by_cases hy : y = j
    · by_cases hx : x = j <;> simp [hx, hy]
    · by_cases hx : x = j <;> simp [hx, hy]

/-- A variable has a value, and no code. -/
def Shows (a : Aliases F) (id : Nat) (val : Tagval F) : Prop :=
  ∀ v, a.idents[id]? = some v → v.val = val ∧ v.code = none

/-- **The variables when the body runs**. -/
theorem sortfun_shows (a : Aliases F) (hxy : x ≠ y) (xval yval : Text) :
    Shows (a.sortfun x y xval yval) x (.VAL_MACRO xval) ∧
      Shows (a.sortfun x y xval yval) y (.VAL_MACRO yval) := by
  constructor
  · intro v hv
    rw [idents_sortfun] at hv
    obtain ⟨w, -, rfl⟩ := Option.map_eq_some_iff.mp hv
    rw [if_neg (Ne.symm hxy), if_pos rfl]
    exact ⟨rfl, rfl⟩
  · intro v hv
    rw [idents_sortfun] at hv
    obtain ⟨w, -, rfl⟩ := Option.map_eq_some_iff.mp hv
    rw [if_pos rfl]
    exact ⟨rfl, rfl⟩

/-- The body leaves the value of a variable and what is on its stack alone. -/
def Untouched (exec : Aliases F → Bool × Aliases F) (id : Nat) : Prop :=
  ∀ a, ((exec a).2.idents[id]?).map (fun v => (v.val, v.stack)) =
    (a.idents[id]?).map fun v => (v.val, v.stack)

/-- What a variable was is on its stack. -/
def Kept (a₀ a : Aliases F) (id : Nat) : Prop :=
  (a.idents[id]?).map (fun v => v.stack) = (a₀.idents[id]?).map fun v => v.val :: v.stack

/-- A variable is as it was, without code. -/
def Restored (a₀ a : Aliases F) (id : Nat) : Prop :=
  ∀ v, a₀.idents[id]? = some v →
    ∃ w, a.idents[id]? = some w ∧ w.val = v.val ∧ w.stack = v.stack ∧ w.code = none

theorem idents_pusharg (a : Aliases F) (id : Nat) (val : Tagval F) (j : Nat) :
    (a.pusharg id val).idents[j]? = (a.idents[j]?).map fun v =>
      if id = j then { v with val, stack := v.val :: v.stack, code := none } else v := by
  unfold Aliases.pusharg
  rw [idents_cleancode, Aliases.edit_getElem?, Option.map_map]
  congr 1
  funext v
  by_cases hid : id = j <;> simp [hid]

theorem idents_poparg_ne (a : Aliases F) {j : Nat} (hj : id ≠ j) :
    (a.poparg id).idents[j]? = a.idents[j]? := by
  unfold Aliases.poparg
  cases a.idents[id]? with
  | none => rfl
  | some v =>
    dsimp only
    split
    · rfl
    · rw [idents_cleancode, Aliases.edit_getElem?, Option.map_map]
      simp [hj, Function.comp_def]

/-- **The stack is given back**. -/
theorem Kept.poparg {a₀ : Aliases F} (h : Kept a₀ a id) : Restored a₀ (a.poparg id) id := by
  intro v hv
  unfold Kept at h
  rw [hv, Option.map_some] at h
  obtain ⟨w, hw, hstack⟩ := Option.map_eq_some_iff.mp h
  have hne : w.stack ≠ [] := by
    rw [hstack]
    exact List.cons_ne_nil _ _
  unfold Aliases.poparg
  rw [hw]
  dsimp only
  rw [if_neg hne, idents_cleancode, Aliases.edit_getElem?, hw]
  refine ⟨_, rfl, ?_⟩
  simp [Aliases.restore, hstack]

theorem Restored.poparg_ne {a₀ : Aliases F} {j : Nat} (h : Restored a₀ a j) (hj : id ≠ j) :
    Restored a₀ (a.poparg id) j := by
  intro v hv
  rw [idents_poparg_ne a hj]
  exact h v hv

theorem Kept.poparg_ne {a₀ : Aliases F} {j : Nat} (h : Kept a₀ a j) (hj : id ≠ j) :
    Kept a₀ (a.poparg id) j := by
  unfold Kept
  rw [idents_poparg_ne a hj]
  exact h

/-! ## Comparisons -/

/-- The body has been run a number of times, each time with the texts of two elements. -/
def Compared (exec : Aliases F → Bool × Aliases F) (x y : Nat) (es : List Item) :
    Aliases F → Aliases F → Prop :=
  Relation.ReflTransGen fun a b =>
    ∃ e ∈ es, ∃ f ∈ es, b = (exec (a.sortfun x y e.text f.text)).2

theorem Kept.compared {exec : Aliases F → Bool × Aliases F} {a₀ : Aliases F}
    (hid : Untouched exec id) (ha : Kept a₀ a id) (h : Compared exec x y es a b) : Kept a₀ b id := by
  induction h with
  | refl => exact ha
  | @tail b c _ hstep ih =>
    obtain ⟨e, -, f, -, rfl⟩ := hstep
    have hstack := congrArg (Option.map Prod.snd) (hid (b.sortfun x y e.text f.text))
    rw [Option.map_map, Option.map_map, idents_sortfun, Option.map_map] at hstack
    unfold Kept at ih ⊢
    rw [← ih]
    refine Eq.trans (show _ = _ from hstack) ?_
    congr 1
    funext v
    by_cases hy : y = id
    · simp [hy]
    · by_cases hx : x = id <;> simp [hx, hy]

/-- The variables after they are pushed. -/
theorem kept_pusharg (a : Aliases F) (hxy : x ≠ y) :
    Kept a ((a.pusharg x .VAL_NULL).pusharg y .VAL_NULL) x ∧
      Kept a ((a.pusharg x .VAL_NULL).pusharg y .VAL_NULL) y := by
  constructor
  · unfold Kept
    rw [idents_pusharg, idents_pusharg, Option.map_map, Option.map_map]
    congr 1
    funext v
    simp [Ne.symm hxy]
  · unfold Kept
    rw [idents_pusharg, idents_pusharg, Option.map_map, Option.map_map]
    congr 1
    funext v
    simp [hxy]

end Variables

/-! ## The command -/

/-- What a list becomes for `sort`. -/
def toSortitem (s : Text) (e : Item) : Sortitem := ⟨offset s e.start, e.quoted⟩

/-- The comparison of two elements runs the body with their texts. -/
theorem sortfun_eq {F : Type} (h : Elements s es) (hnul : 0 ∉ s)
    (exec : Aliases F → Bool × Aliases F) (x y : Nat) {e f : Item} (he : e ∈ es) (hf : f ∈ es)
    (a : Aliases F) : sortfun exec (marked s es) x y (toSortitem s e) (toSortitem s f) a =
      exec (a.sortfun x y e.text f.text) := by
  unfold sortfun present toSortitem
  dsimp only
  rw [textat_eq h hnul he, textat_eq h hnul hf]
  rfl

/-- **`sortlist`** with a body that leaves the variables alone.  Its result are the texts of the same
elements, with blanks between them, in order for each order that the body decides when it is run.
It runs with the texts of two elements in the variables, which are given back without code.  The
result has these elements as a list, without the empty ones, if none but the last is open. -/
theorem sortlist_exact {F : Type} {s : Text} (h : Calm s) (hnul : 0 ∉ s) {x y : Nat}
    (isalias : Nat → Bool) (hxy : ¬(x = y ∨ isalias x = false ∨ isalias y = false))
    {exec : Aliases F → Bool × Aliases F} (hx : Untouched exec x) (hy : Untouched exec y)
    (a : Aliases F) :
    ∃ (es l : List Item) (b : Aliases F), Elements s es ∧ l.Perm es ∧
      (∀ n, es.length < n → sortlist exec x y n isalias s a =
        some (some (spaced (l.map Item.quoted)), (b.poparg x).poparg y)) ∧
      (∀ lt : Text → Text → Prop, StrictWeak lt → (∀ e ∈ es, ∀ f ∈ es, ∀ c,
          Compared exec x y es ((a.pusharg x .VAL_NULL).pusharg y .VAL_NULL) c →
          ((exec (c.sortfun x y e.text f.text)).1 = true ↔ lt e.text f.text)) →
        l.Pairwise fun e f => ¬ lt f.text e.text) ∧
      Compared exec x y es ((a.pusharg x .VAL_NULL).pusharg y .VAL_NULL) b ∧
      (∀ (c : Aliases F) xval yval, Shows (c.sortfun x y xval yval) x (.VAL_MACRO xval) ∧
        Shows (c.sortfun x y xval yval) y (.VAL_MACRO yval)) ∧
      Restored a ((b.poparg x).poparg y) x ∧ Restored a ((b.poparg x).poparg y) y ∧
      ((∀ e ∈ l.dropLast, ¬ e.Open) → ∃ gs, Elements (spaced (l.map Item.quoted)) gs ∧
        gs.map Item.parts = (l.filter fun e => e.quoted ≠ []).map Item.parts) := by
  obtain ⟨es, hes⟩ := h.elements
  have hne : x ≠ y := fun h => hxy (Or.inl h)
  have hsort : ∃ (l : List Item) (b : Aliases F), Quicksort.sort (sortfun exec (marked s es) x y) (es.map (toSortitem s))
        ((a.pusharg x .VAL_NULL).pusharg y .VAL_NULL) = some (l.map (toSortitem s), b) ∧
      Compared exec x y es ((a.pusharg x .VAL_NULL).pusharg y .VAL_NULL) b ∧ l.Perm es ∧
      ∀ lt : Text → Text → Prop, StrictWeak lt → (∀ e ∈ es, ∀ f ∈ es, ∀ c,
          Compared exec x y es ((a.pusharg x .VAL_NULL).pusharg y .VAL_NULL) c →
          ((exec (c.sortfun x y e.text f.text)).1 = true ↔ lt e.text f.text)) →
        l.Pairwise fun e f => ¬ lt f.text e.text := by
    let cmp : Compare Item (Aliases F) := fun e f =>
      sortfun exec (marked s es) x y (toSortitem s e) (toSortitem s f)
    have hcmp : ∀ e ∈ es, ∀ f ∈ es, ∀ c, cmp e f c = exec (c.sortfun x y e.text f.text) :=
      fun e he f hf c => sortfun_eq hes hnul exec x y he hf c
    have hkeep : ∀ e ∈ es, ∀ f ∈ es, ∀ c,
        Compared exec x y es ((a.pusharg x .VAL_NULL).pusharg y .VAL_NULL) c →
        Compared exec x y es ((a.pusharg x .VAL_NULL).pusharg y .VAL_NULL) (cmp e f c).2 := by
      intro e he f hf c hc
      rw [hcmp e he f hf c]
      exact hc.tail ⟨e, he, f, hf, rfl⟩
    obtain ⟨l, b, hrun, hb, hperm, hord⟩ := sort_keeps cmp hkeep .refl
    refine ⟨l, b, ?_, hb, hperm, fun lt hweak hdecides => ?_⟩
    · have hfollow : Follows (toSortitem s) id (sortfun exec (marked s es) x y) cmp :=
        fun _ _ _ => rfl
      have hfrom := sortFrom_follows hfollow (es.length - 0 + 1) 0 es.length es
        ((a.pusharg x .VAL_NULL).pusharg y .VAL_NULL)
      unfold Quicksort.sort quicksort
      rw [List.length_map]
      refine hfrom.trans ?_
      have hrun' : sortFrom cmp (es.length - 0 + 1) 0 es.length es
          ((a.pusharg x .VAL_NULL).pusharg y .VAL_NULL) = some (l, b) := hrun
      rw [hrun']
      rfl
    · exact hord (fun e f => lt e.text f.text)
        ⟨fun e f => hweak.asymm _ _, fun e f g => hweak.trans _ _ _⟩
        fun e he f hf c hc => by rw [hcmp e he f hf c, hdecides e he f hf c hc]
  obtain ⟨l, b, hrun, hb, hperm, hord⟩ := hsort
  obtain ⟨hkx, hky⟩ := kept_pusharg a hne
  have hkx' := hkx.compared hx hb
  have hky' := hky.compared hy hb
  refine ⟨es, l, b, hes, hperm, fun n hn => ?_, hord, hb, fun c => sortfun_shows c hne,
    hkx'.poparg.poparg_ne hne.symm, (hky'.poparg_ne hne).poparg, fun hopen => ?_⟩
  · obtain ⟨items, b', hrun', -, hlist⟩ := sortlist_elements hes hn exec hxy a
    obtain ⟨rfl, rfl⟩ := Prod.mk.inj (Option.some.inj (hrun.symm.trans hrun'))
    rw [hlist, List.map_map]
    rfl
  · exact spaced_elements l (fun e he => hes.parsed (hperm.subset he)) hopen

/-- A list with a block, whose elements stay as they are. -/
theorem sortlist_pair : ∃ (es l : List Item) (b : Aliases Empty), Elements (word "b [a c]") es ∧
    l.Perm es ∧ ∀ n, es.length < n →
      sortlist (fun a => (false, a)) 0 1 n (fun _ => true) (word "b [a c]") { idents := [{}, {}] } =
        some (some (spaced (l.map Item.quoted)), (b.poparg 0).poparg 1) := by
  have helems : Elements (word "b [a c]") [⟨word "b [a c]", word " [a c]", word "b [a c]",
      word " [a c]"⟩, ⟨word "a c]", word "]", word "[a c]", []⟩] :=
    .next (r := word "[a c]") (by decide +kernel) (.next (r := []) (by decide +kernel)
      (.done parselist_nil))
  have hbody : ∀ id, Untouched (fun a : Aliases Empty => (false, a)) id := fun _ _ => rfl
  obtain ⟨es, l, b, hes, hperm, hrun, -⟩ := sortlist_exact helems.calm (by decide +kernel)
    (fun _ => true) (by decide) (hbody 0) (hbody 1) { idents := [{}, {}] }
  exact ⟨es, l, b, hes, hperm, hrun⟩

/-- An element without text or quotes is lost. -/
theorem sortlist_empty : Calm (word "a;;b") ∧
    explodelist 9 (word "a;;b") (-1) = some [word "a", [], word "b"] ∧
    (sortlist (fun a : Aliases Empty => (false, a)) 0 1 9 (fun _ => true) (word "a;;b")
      { idents := [{}, {}] }).map Prod.fst = some (some (word "a  b")) ∧
    explodelist 9 (word "a  b") (-1) = some [word "a", word "b"] := by
  have helems : Elements (word "a;;b") [⟨word "a;;b", word ";;b", word "a;;b", word ";;b"⟩,
      ⟨word ";b", word ";b", word ";b", word ";b"⟩, ⟨word "b", [], word "b", []⟩] :=
    .next (r := word ";b") (by decide +kernel) (.next (r := word "b") (by decide +kernel)
      (.next (r := []) (by decide +kernel) (.done parselist_nil)))
  exact ⟨helems.calm, by decide +kernel, by decide +kernel, by decide +kernel⟩

end Script

end QServ
