import QServ.Script.Lists

/-!
# Walks over the lists of CubeScript

A walk visits the elements of a list one after the other and has an end if it comes to no `'@'`
where an element should begin.

* `Elements`: what a walk over a text visits; `Calm.elements`: there is a last one.
* `walk_elements`: the loop of a command is a fold over the elements.
* `lists_exact`: `parselist` advances, and the commands return, exactly then.
-/

namespace QServ

namespace Script

/-! ## Places -/

/-- `parselist` at the first place goes on at the second. -/
def Goes (s t : Text) : Prop := ∃ e, parselist s = some (e, t)

/-- A walk comes to a place. -/
def Comes : Text → Text → Prop := Relation.ReflTransGen Goes

/-- `parselist` reports the end, or goes on behind the place it is called at, within the text. -/
def Advances (t : Text) : Prop :=
  parselist t = none ∨ ∃ e r, parselist t = some (e, r) ∧ r <:+ t ∧ r.length < t.length ∧
    e.Within (skiplist t)

/-- A walk comes to no `'@'`. -/
def Calm (s : Text) : Prop := ∀ t, Comes s t → t.head? ≠ some (chr '@')

/-- **A single call** advances but at an `'@'`. -/
theorem advances_iff (t : Text) : Advances t ↔ t.head? ≠ some (chr '@') := by
  constructor
  · rintro (h | ⟨e, r, h, -, hlt, -⟩) hat
    · rw [parselist_of_at hat] at h
      cases h
    · rw [parselist_of_at hat] at h
      cases h
      exact Nat.lt_irrefl _ hlt
  · intro hat
    cases h : parselist t with
    | none => exact Or.inl h
    | some p =>
      obtain ⟨e, r⟩ := p
      obtain hlt | ⟨-, h'⟩ := parselist_advances h
      · exact Or.inr ⟨e, r, h, parselist_suffix h, hlt, (parselist_within h).1⟩
      · exact absurd h' hat

/-- The elements that a walk visits. -/
inductive Elements : Text → List Item → Prop
  | done {s : Text} (h : parselist s = none) : Elements s []
  | next {s r : Text} {e : Item} {es : List Item} (h : parselist s = some (e, r))
      (hr : Elements r es) : Elements s (e :: es)

theorem Elements.unique {s : Text} {es fs : List Item} (h : Elements s es) (h' : Elements s fs) :
    es = fs := by
  induction h generalizing fs with
  | done h =>
    cases h' with
    | done => rfl
    | next h' _ => rw [h] at h'; cases h'
  | next h _ ih =>
    cases h' with
    | done h' => rw [h] at h'; cases h'
    | next h' hr =>
      rw [h] at h'
      cases h'
      rw [ih hr]

theorem Elements.head_ne {s : Text} {es : List Item} (h : Elements s es) :
    s.head? ≠ some (chr '@') := by
  induction h with
  | done h =>
    intro hat
    rw [parselist_of_at hat] at h
    cases h
  | next h _ ih =>
    intro hat
    rw [parselist_of_at hat] at h
    cases h
    exact ih hat

theorem Elements.calm {s : Text} {es : List Item} (h : Elements s es) : Calm s := by
  induction h with
  | done h =>
    intro t ht
    obtain rfl | ⟨r, ⟨e, he⟩, -⟩ := Relation.ReflTransGen.cases_head ht
    · exact (Elements.done h).head_ne
    · rw [h] at he
      cases he
  | next h hr ih =>
    intro t ht
    obtain rfl | ⟨r', ⟨e', he⟩, ht⟩ := Relation.ReflTransGen.cases_head ht
    · exact (Elements.next h hr).head_ne
    · rw [h] at he
      cases he
      exact ih t ht

/-- **A walk that comes to no `'@'`** has an end. -/
theorem Calm.elements {s : Text} (h : Calm s) : ∃ es, Elements s es := by
  induction hn : s.length using Nat.strong_induction_on generalizing s with
  | _ n ih =>
    cases hs : parselist s with
    | none => exact ⟨[], .done hs⟩
    | some p =>
      obtain ⟨e, r⟩ := p
      obtain hlt | ⟨-, hat⟩ := parselist_advances hs
      · have hr : Calm r := fun t ht => h t (ht.head ⟨e, hs⟩)
        obtain ⟨es, hes⟩ := ih r.length (hn ▸ hlt) hr rfl
        exact ⟨e :: es, .next hs hes⟩
      · exact absurd hat (h s .refl)

theorem calm_iff {s : Text} : Calm s ↔ ∃ es, Elements s es :=
  ⟨Calm.elements, fun ⟨_, h⟩ => h.calm⟩

/-! ## Loops -/

section Loops

variable {β ρ : Type} (go : β → Bool) (body : β → Item → Option (β ⊕ ρ)) (done : β → ρ)

/-- The body of a loop for the elements of a list. -/
def visit : List Item → β → Option ρ
  | [], b => some (done b)
  | e :: es, b =>
    if go b then (body b e).bind (Sum.elim (visit es) some) else some (done b)

variable {go body done}

theorem round_done {s : Text} (h : parselist s = none) (b : β) :
    round go body done (s, b) = some (.inr (done b)) := by
  unfold round
  dsimp only
  rw [h]
  split <;> rfl

theorem round_next {s r : Text} {e : Item} (h : parselist s = some (e, r)) (b : β) :
    round go body done (s, b) =
      if go b then (body b e).map (Sum.map (r, ·) id) else some (.inr (done b)) := by
  unfold round
  dsimp only
  rw [h]

/-- **The loop** of a command is a fold over the elements. -/
theorem walk_elements {s : Text} {es : List Item} (h : Elements s es) :
    ∀ {n : Nat}, es.length < n → ∀ b, walk go body done n s b = visit go body done es b := by
  induction h with
  | done h =>
    intro n hn b
    obtain ⟨n, rfl⟩ := Nat.exists_eq_succ_of_ne_zero (Nat.ne_zero_of_lt hn)
    unfold walk
    rw [Loop.loop, round_done h]
    rfl
  | @next s r e es h _ ih =>
    intro n hn b
    obtain ⟨n, rfl⟩ := Nat.exists_eq_succ_of_ne_zero (Nat.ne_zero_of_lt hn)
    unfold walk
    rw [Loop.loop, round_next h, visit]
    cases go b with
    | false => rfl
    | true =>
      rw [if_pos rfl, if_pos rfl]
      cases body b e with
      | none => rfl
      | some x =>
        cases x with
        | inl b => exact ih (Nat.lt_of_succ_lt_succ hn) b
        | inr p => rfl

/-- A body that never stops visits all elements. -/
theorem visit_foldl {f : β → Item → β} (es : List Item) :
    ∀ b, visit always (fun b e => some (.inl (f b e))) done es b = some (done (es.foldl f b)) := by
  induction es with
  | nil => exact fun _ => rfl
  | cons e es ih => exact fun b => ih (f b e)

/-- A loop that stops for no element has visited all there are. -/
theorem elements_of_walk {f : β → Item → β} {p : ρ} : ∀ {n : Nat} {s : Text} {b : β},
    walk always (fun b e => some (.inl (f b e))) done n s b = some p → ∃ es, Elements s es := by
  intro n
  induction n with
  | zero => intro s b h; cases h
  | succ n ih =>
    intro s b h
    cases hs : parselist s with
    | none => exact ⟨[], .done hs⟩
    | some q =>
      obtain ⟨e, r⟩ := q
      unfold walk at h
      rw [Loop.loop, round_next hs] at h
      obtain ⟨es, hes⟩ := ih h
      exact ⟨e :: es, .next hs hes⟩

/-- If no body fails, a loop over elements gives something. -/
theorem visit_isSome (hbody : ∀ b e, (body b e).isSome) (es : List Item) :
    ∀ b, ∃ p, visit go body done es b = some p := by
  induction es with
  | nil => exact fun b => ⟨done b, rfl⟩
  | cons e es ih =>
    intro b
    unfold visit
    split
    · obtain ⟨x, hx⟩ := Option.isSome_iff_exists.mp (hbody b e)
      rw [hx]
      cases x with
      | inl b => exact ih b
      | inr p => exact ⟨p, rfl⟩
    · exact ⟨_, rfl⟩

end Loops

/-! ## The commands on elements -/

section Commands

variable {s : Text} {es : List Item} {n : Nat}

theorem listlen_elements (h : Elements s es) (hn : es.length < n) :
    listlen n s = some es.length := by
  have hcount : ∀ (es : List Item) (k : Nat), es.foldl (fun len _ => len + 1) k = k + es.length := by
    intro es
    induction es with
    | nil => exact fun _ => rfl
    | cons e es ih =>
      intro k
      rw [List.foldl_cons, ih, List.length_cons]
      omega
  unfold listlen
  rw [walk_elements h hn, visit_foldl, hcount, Nat.zero_add]
  rfl

theorem explodelist_elements (h : Elements s es) (hn : es.length < n) (limit : Int) :
    explodelist n s limit = some
      (if limit < 0 then es.map Item.text else (es.map Item.text).take limit.toNat) := by
  have hvisit : ∀ (es : List Item) (elems : List Text),
      visit (fun elems : List Text => limit < 0 || elems.length < limit)
        (fun elems e => some (.inl (elems ++ [e.text]))) id es elems =
      some (elems ++ if limit < 0 then es.map Item.text
        else (es.map Item.text).take (limit.toNat - elems.length)) := by
    intro es
    induction es with
    | nil => simp [visit]
    | cons e es ih =>
      intro elems
      rw [visit]
      by_cases hgo : (limit < 0 || elems.length < limit) = true
      · rw [if_pos hgo, Option.bind_some, Sum.elim_inl, ih, List.append_assoc]
        simp only [Bool.or_eq_true, decide_eq_true_eq] at hgo
        by_cases hlim : limit < 0
        · simp [hlim]
        · have hroom : limit.toNat - elems.length = limit.toNat - (elems.length + 1) + 1 := by omega
          simp [hlim, hroom]
      · rw [if_neg hgo]
        simp only [Bool.or_eq_true, decide_eq_true_eq, not_or] at hgo
        have hfull : limit.toNat - elems.length = 0 := by omega
        simp [hgo.1, hfull]
  unfold explodelist
  rw [walk_elements h hn, hvisit]
  rfl

theorem listincludes_elements (h : Elements s es) (hn : es.length < n) (needle : Text) :
    listincludes n s needle = some (((es.map Item.text).idxOf? needle).elim (-1 : Int) fun i => (i : Int)) := by
  have hvisit : ∀ (es : List Item) (offset : Nat),
      visit always (fun (offset : Nat) e =>
          some (if needle = e.text then .inr (offset : Int) else .inl (offset + 1)))
        (fun _ => -1) es offset =
      some (((es.map Item.text).idxOf? needle).elim (-1 : Int) fun i => ((offset + i : Nat) : Int)) := by
    intro es
    induction es with
    | nil => exact fun _ => rfl
    | cons e es ih =>
      intro offset
      unfold visit
      rw [List.map_cons, List.idxOf?_cons]
      by_cases heq : needle = e.text
      · simp [always, heq]
      · have hne : (e.text == needle) = false := by simpa using Ne.symm heq
        simp only [always, heq, hne, if_false, Option.bind_some, Sum.elim_inl, ih]
        cases (es.map Item.text).idxOf? needle with
        | none => rfl
        | some i => simp; omega
  unfold listincludes
  rw [walk_elements h hn, hvisit]
  simp

theorem listdel_elements {del : Text} {ds : List Item} (h : Elements s es) (hd : Elements del ds)
    (hn : es.length < n) (hn' : ds.length < n) :
    listdel n s del = some
      (((es.filter fun e => e.text ∉ ds.map Item.text).map Item.quoted).foldl putspaced []) := by
  have hincl : ∀ e : Item, listincludes n del e.text =
      some (((ds.map Item.text).idxOf? e.text).elim (-1 : Int) fun i => (i : Int)) := fun e =>
    listincludes_elements hd hn' e.text
  have hneg : ∀ e : Item, ((ds.map Item.text).idxOf? e.text).elim (-1 : Int) (fun i => (i : Int)) < 0 ↔
      e.text ∉ ds.map Item.text := by
    intro e
    rw [← List.idxOf?_eq_none_iff]
    cases (ds.map Item.text).idxOf? e.text with
    | none => simp
    | some i => simp
  have hvisit : ∀ (es : List Item) (p : Text),
      visit always (fun (p : Text) e => (listincludes n del e.text).map fun i =>
        .inl (if i < 0 then putspaced p e.quoted else p)) id es p =
      some (((es.filter fun e => e.text ∉ ds.map Item.text).map Item.quoted).foldl putspaced p) := by
    intro es
    induction es with
    | nil => exact fun _ => rfl
    | cons e es ih =>
      intro p
      rw [visit, hincl, Option.map_some, if_pos (show always p = true from rfl), Option.bind_some,
        Sum.elim_inl, ih]
      simp only [hneg]
      by_cases hmem : e.text ∈ ds.map Item.text
      · rw [if_neg (not_not_intro hmem), List.filter_cons_of_neg (by simpa using hmem)]
      · rw [if_pos hmem, List.filter_cons_of_pos (by simpa using hmem), List.map_cons,
          List.foldl_cons]
  unfold listdel
  rw [walk_elements h hn, hvisit]

theorem sortitems_elements (h : Elements s es) (hn : es.length < n) :
    sortitems n s = some (es.foldl (Sortlist.add s) { macros := s }) := by
  unfold sortitems
  rw [walk_elements h hn, visit_foldl]
  rfl

/-- What the first loop of `sortlist` leaves. -/
theorem Sortlist.add_foldl (list : Text) (es : List Item) : ∀ c : Sortlist,
    let d := es.foldl (Sortlist.add list) c
    d.items = c.items ++ es.map (fun e => ⟨offset list e.start, e.quoted⟩) ∧
      d.total = c.total + (es.map fun e => e.quoted.length).sum ∧
      d.macros = (es.map fun e => offset list e.stop).foldl (fun m i => m.set i 0) c.macros := by
  induction es with
  | nil => intro c; simp
  | cons e es ih =>
    intro c
    obtain ⟨hitems, htotal, hmacros⟩ := ih (c.add list e)
    refine ⟨?_, ?_, ?_⟩
    · rw [List.foldl_cons, hitems]
      simp [Sortlist.add]
    · rw [List.foldl_cons, htotal]
      simp [Sortlist.add, Nat.add_assoc]
    · rw [List.foldl_cons, hmacros]
      rfl

end Commands

/-! ## The buffer of `sortlist` -/

/-- Texts with a blank before each. -/
def blanked (ts : List Text) : Text := ts.flatMap (chr ' ' :: ·)

/-- Texts with blanks between them. -/
def spaced : List Text → Text
  | [] => []
  | t :: ts => t ++ blanked ts

theorem length_blanked (ts : List Text) : (blanked ts).length = (ts.map List.length).sum + ts.length := by
  induction ts with
  | nil => rfl
  | cons t ts ih =>
    have hcons : blanked (t :: ts) = chr ' ' :: (t ++ blanked ts) := rfl
    rw [hcons, List.length_cons, List.length_append, ih, List.map_cons, List.sum_cons,
      List.length_cons]
    omega

theorem length_spaced (ts : List Text) :
    (spaced ts).length = (ts.map List.length).sum + (ts.length - 1) := by
  cases ts with
  | nil => rfl
  | cons t ts =>
    rw [spaced, List.length_append, length_blanked, List.map_cons, List.sum_cons, List.length_cons]
    omega

theorem putto_eq {len : Nat} {sorted t : Text} (h : sorted.length + t.length ≤ len) :
    putto len sorted t = some (sorted ++ t) := if_pos h

theorem putsorted_succ {len : Nat} (items : List Sortitem) : ∀ {i : Nat} {sorted : Text}, i ≠ 0 →
    sorted.length + (blanked (items.map Sortitem.quoted)).length ≤ len →
    putsorted len i sorted items = some (sorted ++ blanked (items.map Sortitem.quoted)) := by
  induction items with
  | nil =>
    intro i sorted _ _
    simp [putsorted, blanked]
  | cons item items ih =>
    intro i sorted hi hlen
    have hcons : blanked ((item :: items).map Sortitem.quoted) =
        [chr ' '] ++ item.quoted ++ blanked (items.map Sortitem.quoted) := rfl
    rw [hcons] at hlen ⊢
    simp only [List.length_append, List.length_cons, List.length_nil] at hlen
    have hblank : putto len sorted [chr ' '] = some (sorted ++ [chr ' ']) :=
      putto_eq (by simp only [List.length_cons, List.length_nil]; omega)
    have hitem : putto len (sorted ++ [chr ' ']) item.quoted =
        some (sorted ++ [chr ' '] ++ item.quoted) :=
      putto_eq (by simp only [List.length_append, List.length_cons, List.length_nil]; omega)
    have hrest : putsorted len (i + 1) (sorted ++ [chr ' '] ++ item.quoted) items =
        some (sorted ++ [chr ' '] ++ item.quoted ++ blanked (items.map Sortitem.quoted)) :=
      ih (Nat.succ_ne_zero i) (by
        simp only [List.length_append, List.length_cons, List.length_nil]
        omega)
    simp only [putsorted, if_pos hi, hblank, hitem, hrest, Option.bind_eq_bind, Option.bind_some]
    rw [← List.append_assoc, ← List.append_assoc]

/-- **The texts fit** where there is room for them and the blanks between them. -/
theorem putsorted_eq {len : Nat} {items : List Sortitem}
    (h : (spaced (items.map Sortitem.quoted)).length ≤ len) :
    putsorted len 0 [] items = some (spaced (items.map Sortitem.quoted)) := by
  cases items with
  | nil => rfl
  | cons item items =>
    rw [List.map_cons, spaced, List.length_append] at h
    have hitem : putto len [] item.quoted = some item.quoted := putto_eq (by
      rw [List.length_nil]
      omega)
    simp only [putsorted, ne_eq, not_true_eq_false, if_false, hitem, Option.bind_eq_bind,
      Option.bind_some, List.map_cons, spaced]
    exact putsorted_succ items (Nat.succ_ne_zero 0) h

/-- **`sortlist`** on elements. -/
theorem sortlist_elements {F : Type} {s : Text} {es : List Item} {n : Nat} (h : Elements s es)
    (hn : es.length < n) (exec : Aliases F → Bool × Aliases F) {x y : Nat} {isalias : Nat → Bool}
    (hxy : ¬(x = y ∨ isalias x = false ∨ isalias y = false)) (a : Aliases F) :
    ∃ items a', Quicksort.sort
        (sortfun exec ((es.map fun e => offset s e.stop).foldl (fun m i => m.set i 0) s) x y)
        (es.map fun e => ⟨offset s e.start, e.quoted⟩)
        ((a.pusharg x .VAL_NULL).pusharg y .VAL_NULL) = some (items, a') ∧
      items.Perm (es.map fun e => ⟨offset s e.start, e.quoted⟩) ∧
      sortlist exec x y n isalias s a =
        some (some (spaced (items.map Sortitem.quoted)), (a'.poparg x).poparg y) := by
  obtain ⟨hitems, htotal, hmacros⟩ := Sortlist.add_foldl s es { macros := s }
  obtain ⟨items, a', hsort, hperm, -⟩ := Quicksort.sort_exact
    (sortfun exec ((es.map fun e => offset s e.stop).foldl (fun m i => m.set i 0) s) x y)
    (es.map fun e => ⟨offset s e.start, e.quoted⟩) ((a.pusharg x .VAL_NULL).pusharg y .VAL_NULL)
  refine ⟨items, a', hsort, hperm, ?_⟩
  rw [List.nil_append] at hitems
  rw [Nat.zero_add] at htotal
  have hlen : (spaced (items.map Sortitem.quoted)).length =
      (es.map fun e => e.quoted.length).sum + (items.length - 1) := by
    have hsum := (hperm.map fun item => item.quoted.length).sum_nat
    rw [List.map_map] at hsum
    rw [length_spaced, List.length_map, List.map_map]
    exact congrArg (· + (items.length - 1)) hsum
  unfold sortlist
  rw [if_neg hxy, sortitems_elements h hn]
  simp only [Option.bind_eq_bind, Option.bind_some, hitems, htotal, hmacros, hsort]
  rw [putsorted_eq (by rw [hlen]; split <;> omega)]
  rfl

/-! ## Termination -/

/-- There is a number of rounds with which a command returns. -/
def Returns {ρ : Type} (f : Nat → Option ρ) : Prop := ∃ n r, f n = some r

/-- A loop over elements whose body does not fail returns. -/
theorem walk_returns {β ρ : Type} {go : β → Bool} {body : β → Item → Option (β ⊕ ρ)} {done : β → ρ}
    {s : Text} {es : List Item} (h : Elements s es) (hbody : ∀ b e, (body b e).isSome) (b : β) :
    Returns fun n => walk go body done n s b := by
  obtain ⟨p, hp⟩ : ∃ p, visit go body done es b = some p := visit_isSome hbody es b
  exact ⟨es.length + 1, p, (walk_elements h (Nat.lt_succ_self _) b).trans hp⟩

/-- The commands on a list return, whatever their other arguments are; `listdel` has a second list.
`indexlist`, `at`, `sublist` and `listsplice` make no more calls than they are told to. -/
structure Returning (s : Text) : Prop where
  listlen : Returns fun n => listlen n s
  explodelist (limit : Int) : Returns fun n => explodelist n s limit
  prettylist (conj : Text) : Returns fun n => prettylist n s conj
  listincludes (needle : Text) : Returns fun n => listincludes n s needle
  listdel (del : Text) (hdel : Calm del) : Returns fun n => listdel n s del
  looplist {F : Type} (exec : Aliases F → Bool × Aliases F) (isalias : Bool) (id : Nat)
    (search : Bool) (a : Aliases F) : Returns fun n => looplist exec n isalias id s search a
  sortlist {F : Type} (exec : Aliases F → Bool × Aliases F) (x y : Nat) (isalias : Nat → Bool)
    (a : Aliases F) : Returns fun n => sortlist exec x y n isalias s a

theorem Elements.returning {s : Text} {es : List Item} (h : Elements s es) : Returning s := by
  have hn := Nat.lt_succ_self es.length
  constructor
  case listlen => exact ⟨_, _, listlen_elements h hn⟩
  case explodelist => exact fun limit => ⟨_, _, explodelist_elements h hn limit⟩
  case prettylist =>
    intro conj
    obtain ⟨p, hp⟩ : ∃ p, visit always (fun (c : Nat × Text) e =>
        some (.inl (c.1 + 1, c.2 ++ (e.text ++ conjunction conj es.length c.1)))) Prod.snd es
        (0, []) = some p := visit_isSome (fun _ _ => rfl) es _
    refine ⟨es.length + 1, p, ?_⟩
    unfold prettylist
    simp only [listlen_elements h hn, Option.bind_eq_bind, Option.bind_some, walk_elements h hn]
    exact hp
  case listincludes => exact fun needle => ⟨_, _, listincludes_elements h hn needle⟩
  case listdel =>
    intro del hdel
    obtain ⟨ds, hds⟩ := hdel.elements
    exact ⟨es.length + ds.length + 1, _, listdel_elements h hds (by omega) (by omega)⟩
  case looplist =>
    intro F exec isalias id search a
    cases isalias with
    | false => exact ⟨0, _, rfl⟩
    | true =>
      exact walk_returns h (fun _ _ => rfl) (0, a)
  case sortlist =>
    intro F exec x y isalias a
    by_cases hxy : x = y ∨ isalias x = false ∨ isalias y = false
    · exact ⟨0, (none, a), if_pos hxy⟩
    · obtain ⟨items, a', -, -, hrun⟩ := sortlist_elements h hn exec hxy a
      exact ⟨_, _, hrun⟩

/-- **Every call advances and the commands return** if and only if a walk comes to no `'@'` where an
element should begin. -/
theorem lists_exact (s : Text) :
    ((∀ t, Comes s t → Advances t) ∧ Returning s) ↔ ∀ t, Comes s t → t.head? ≠ some (chr '@') := by
  constructor
  · rintro ⟨h, -⟩ t ht
    exact (advances_iff t).mp (h t ht)
  · intro h
    obtain ⟨es, hes⟩ := Calm.elements h
    exact ⟨fun t ht => (advances_iff t).mpr (h t ht), hes.returning⟩

/-- Where a walk comes to an `'@'` the length is never known. -/
theorem listlen_hangs {s : Text} (h : ¬ Calm s) (n : Nat) : listlen n s = none := by
  cases hrun : listlen n s with
  | none => rfl
  | some len => exact absurd (calm_iff.mpr (elements_of_walk hrun)) h

/-- An `'@'` alone. -/
theorem listlen_at : ¬ ((∀ t, Comes (word "@") t → Advances t) ∧ Returning (word "@")) ∧
    ∀ n, listlen n (word "@") = none := by
  have hhead : (word "@").head? = some (chr '@') := rfl
  have hcalm : ¬ Calm (word "@") := fun h => h _ .refl hhead
  exact ⟨fun h => (advances_iff _).mp (h.1 _ .refl) hhead, listlen_hangs hcalm⟩

end Script

end QServ
