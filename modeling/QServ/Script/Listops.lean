import QServ.Script.Listtexts

/-!
# The commands on lists

What the commands on lists do to the elements that `explodelist` finds.

* `skipitems_elements`, `spliceat_elements`, `lastitem_elements`: places in a list.
* `spaced_elements`: elements with blanks between them.
* `listops_exact`: the commands are the operations on lists of the same name, with what happens to
  empty and to open elements.
-/

namespace QServ

namespace Script

variable {s : Text} {es : List Item}

/-! ## Explosion -/

/-- `explodelist` finds these elements. -/
def Explodes (s : Text) (elems : List Text) : Prop :=
  ∀ n, elems.length < n → explodelist n s (-1) = some elems

theorem Elements.explodes (h : Elements s es) : Explodes s (es.map Item.text) := by
  intro n hn
  rw [List.length_map] at hn
  exact explodelist_elements h hn (-1)

theorem map_text_eq {es fs : List Item} (h : es.map Item.parts = fs.map Item.parts) :
    es.map Item.text = fs.map Item.text := by
  have hmap := congrArg (List.map Prod.fst) h
  rwa [List.map_map, List.map_map] at hmap

/-- The same texts begin with the same. -/
theorem head_quoted {es fs : List Item} (h : es.map Item.parts = fs.map Item.parts)
    (hfs : ∀ f ∈ fs.head?, f.quoted ≠ []) : ∀ e ∈ es.head?, e.quoted ≠ [] := by
  intro e he
  cases es with
  | nil => cases he
  | cons e' es =>
    cases fs with
    | nil => cases h
    | cons f fs =>
      cases he
      have hparts : e.parts = f.parts := (List.cons.inj h).1
      rw [(Prod.mk.inj hparts).2]
      exact hfs f rfl

/-! ## Places -/

theorem passitems_elements (h : Elements s es) (k : Nat) :
    (passitems k s).bind parselist = none ∧ es[k]? = none ∨
      ∃ e t, (passitems k s).bind parselist = some (e, t) ∧ es[k]? = some e := by
  induction k generalizing s es with
  | zero =>
    cases h with
    | done h => exact Or.inl ⟨h, rfl⟩
    | next h _ => exact Or.inr ⟨_, _, h, rfl⟩
  | succ k ih =>
    cases h with
    | done h =>
      left
      rw [passitems, h]
      exact ⟨rfl, rfl⟩
    | next h hr =>
      rw [passitems, h]
      exact ih hr

theorem skipitems_elements (h : Elements s es) (k : Nat) : Elements (skipitems k s) (es.drop k) := by
  induction k generalizing s es with
  | zero => exact h
  | succ k ih =>
    rw [skipitems]
    cases h with
    | done h =>
      rw [h]
      exact (Elements.done h).of_skiplist (skiplist_idem s).symm
    | next h hr =>
      rw [h]
      exact ih hr

theorem lastitem_elements (h : Elements s es) (k : Nat) (qend : Text) :
    lastitem k s qend = (es.take k).getLast?.elim qend Item.quoteend := by
  induction k generalizing s es qend with
  | zero => rfl
  | succ k ih =>
    rw [lastitem]
    cases h with
    | done h =>
      rw [h]
      rfl
    | next h hr =>
      rw [h]
      dsimp only
      rw [ih hr, List.take_succ_cons, List.getLast?_cons]
      cases (List.take k _).getLast? <;> rfl

theorem spliceat_elements (h : Elements s es) (k : Nat) (qend : Text) :
    Elements (spliceat k s qend).1 (es.drop k) ∧
      (spliceat k s qend).2 = (es.take k).getLast?.elim qend Item.quoteend := by
  induction k generalizing s es qend with
  | zero => exact ⟨h, rfl⟩
  | succ k ih =>
    rw [spliceat]
    cases h with
    | done h =>
      rw [h]
      exact ⟨(Elements.done h).of_skiplist (skiplist_idem s).symm, rfl⟩
    | next h hr =>
      rw [h]
      dsimp only
      obtain ⟨helems, hlast⟩ := ih hr _
      refine ⟨helems, hlast.trans ?_⟩
      rw [List.take_succ_cons, List.getLast?_cons]
      cases (List.take k _).getLast? <;> rfl

/-! ## Elements with blanks between them -/

/-- An element that a walk has come to. -/
def Item.Parsed (e : Item) : Prop := ∃ s t, parselist s = some (e, t) ∧ t.head? ≠ some (chr '@')

theorem Elements.parsed (h : Elements s es) {e : Item} (he : e ∈ es) : e.Parsed := by
  induction h with
  | done => cases he
  | next h hr ih =>
    obtain rfl | he := List.mem_cons.mp he
    · exact ⟨_, _, h, hr.head_ne⟩
    · exact ih he

/-- An element alone. -/
theorem Item.Parsed.alone {e : Item} (h : e.Parsed) (hq : e.quoted ≠ []) :
    ∃ g, Elements e.quoted [g] ∧ Item.Same e g [] := by
  obtain ⟨s, t, hs, -⟩ := h
  have hs' : parselist (e.quoted ++ e.quoteend) = some (e, t) := by
    rw [← parselist_skiplist hs, ← hs]
    exact parselist_congr (skiplist_idem s)
  obtain ⟨g, hg, hsame⟩ := parselist_ended hs' hq
  exact ⟨g, .next hg (.done parselist_nil), hsame⟩

theorem joinable_ended {g : Item} {gs : List Item} (hg : g.quoteend = []) (hopen : ¬ g.Open)
    (hgs : ∀ a ∈ gs, a.quoteend ≠ []) (s : Text) : Joinable s (gs ++ [g]) where
  closed := by
    intro a ha hend
    obtain ha | ha := List.mem_append.mp ha
    · exact absurd hend (hgs a ha)
    · rwa [List.mem_singleton.mp ha]
  trails := by
    left
    rw [behind, List.getLast?_concat, Option.elim_some, hg]
    exact blank_nil

/-- **Elements with blanks between them**: the empty ones are lost, and none but the last is open. -/
theorem spaced_elements (es : List Item) (hes : ∀ e ∈ es, e.Parsed)
    (hopen : ∀ e ∈ es.dropLast, ¬ e.Open) : ∃ gs, Elements (spaced (es.map Item.quoted)) gs ∧
      gs.map Item.parts = (es.filter fun e => e.quoted ≠ []).map Item.parts := by
  induction es with
  | nil => exact ⟨[], .done parselist_nil, rfl⟩
  | cons e es ih =>
    have he := hes e List.mem_cons_self
    cases es with
    | nil =>
      have hspaced : spaced ([e].map Item.quoted) = e.quoted := List.append_nil _
      rw [hspaced]
      by_cases hq : e.quoted = []
      · rw [hq, List.filter_cons_of_neg (by simpa using hq)]
        exact ⟨[], .done parselist_nil, rfl⟩
      · obtain ⟨g, hg, hsame⟩ := he.alone hq
        rw [List.filter_cons_of_pos (by simpa using hq)]
        exact ⟨[g], hg, congrArg (· :: []) hsame.parts⟩
    | cons f es =>
      obtain ⟨gs, hgs, hmap⟩ := ih (fun a ha => hes a (List.mem_cons_of_mem e ha))
        fun a ha => hopen a (List.mem_cons_of_mem e ha)
      have hspaced : spaced ((e :: f :: es).map Item.quoted) =
          e.quoted ++ chr ' ' :: spaced ((f :: es).map Item.quoted) := rfl
      rw [hspaced]
      by_cases hq : e.quoted = []
      · rw [hq, List.nil_append, List.filter_cons_of_neg (by simpa using hq)]
        exact ⟨gs, hgs.of_skiplist (skiplist_blank _).symm, hmap⟩
      · obtain ⟨g, hg, hsame⟩ := he.alone hq
        rw [List.filter_cons_of_pos (by simpa using hq)]
        have hfit : Joinable e.quoted [g] := joinable_ended hsame.quoteend
          (fun h => hopen e List.mem_cons_self (hsame.open_iff.mp h))
          (List.forall_mem_nil fun a : Item => a.quoteend ≠ []) e.quoted
        have hfirst := head_quoted hmap fun a ha => by
          simpa using (List.mem_filter.mp (List.mem_of_mem_head? ha)).2
        obtain ⟨ks, hks, hkmap⟩ := hg.join hfit hgs fun _ => hgs.head_semicolon hfirst
        refine ⟨ks, hks, ?_⟩
        rw [hkmap, hmap, List.map_cons, List.map_cons, hsame.parts]
        rfl

theorem foldl_putspaced {p : Text} (hp : p ≠ []) (ts : List Text) :
    ts.foldl putspaced p = p ++ blanked ts := by
  induction ts generalizing p with
  | nil => exact (List.append_nil p).symm
  | cons t ts ih =>
    have hput : putspaced p t = p ++ chr ' ' :: t := by
      unfold putspaced
      rw [if_neg hp, List.append_assoc]
      rfl
    rw [List.foldl_cons, hput, ih (by simp), List.append_assoc]
    rfl

/-- The texts from the first one on that is not empty. -/
theorem foldl_putspaced_nil (ts : List Text) :
    ts.foldl putspaced [] = spaced (ts.dropWhile (· = [])) := by
  induction ts with
  | nil => rfl
  | cons t ts ih =>
    have hput : putspaced [] t = t := rfl
    rw [List.foldl_cons, hput]
    by_cases ht : t = []
    · rw [ht, ih, List.dropWhile_cons_of_pos (by simp)]
    · rw [foldl_putspaced ht, List.dropWhile_cons_of_neg (by simpa using ht)]
      rfl

/-! ## The commands -/

/-- An element as a text, or nothing. -/
theorem indexlist_elements (h : Elements s es) (pos : Int) :
    indexlist s pos = ((es.map Item.text)[pos.toNat]?).getD [] := by
  unfold indexlist
  rw [List.getElem?_map]
  obtain ⟨hpass, hes⟩ | ⟨e, t, hpass, hes⟩ := passitems_elements h pos.toNat
  · rw [hpass, hes]
    rfl
  · rw [hpass, hes]
    rfl

theorem at_elements (h : Elements s es) (pos : Int) :
    at_ s [pos] = ((es.map Item.text)[pos.toNat]?).getD [] := by
  unfold at_
  dsimp only [List.foldl_cons, List.foldl_nil]
  unfold at1
  rw [List.getElem?_map]
  obtain ⟨hpass, hes⟩ | ⟨e, t, hpass, hes⟩ := passitems_elements h pos.toNat
  · rw [hpass, hes]
    rfl
  · rw [hpass, hes]
    rfl

/-- A slice whose last element is empty, without quotes: this element is lost. -/
def shed (es : List Item) : List Item :=
  if es.getLast?.any fun e => e.quoted = [] then es.dropLast else es

/-- **The text of the first elements**. -/
theorem Elements.upto_last (h : Elements s es) {k : Nat} {e : Item} (he : (es.take k).getLast? = some e)
    {x : Text} (hs : s = x ++ e.quoteend) :
    ∃ gs, Elements x gs ∧ gs.map Item.parts = (shed (es.take k)).map Item.parts := by
  obtain ⟨as, has⟩ := List.getLast?_eq_some_iff.mp he
  have hes : es = as ++ e :: es.drop k := by
    rw [← List.singleton_append, ← List.append_assoc, ← has, List.take_append_drop]
  rw [hes] at h
  unfold shed
  rw [he, Option.any_some, has, List.dropLast_concat]
  by_cases hq : e.quoted = []
  · rw [if_pos (by simpa using hq)]
    exact h.upto_bare hq hs
  · rw [if_neg (by simpa using hq)]
    obtain ⟨gs, g, hgs, hmap, hsame, -⟩ := h.upto_closed hq hs
    refine ⟨gs ++ [g], hgs, ?_⟩
    rw [List.map_append, List.map_append, hmap, List.map_singleton, hsame.parts]
    rfl

theorem sublist_rest (h : Elements s es) (skip : Int) :
    Elements (sublist s skip none) (es.drop skip.toNat) := by
  have hmax : (max skip 0).toNat = skip.toNat := by omega
  have hdrop := skipitems_elements h skip.toNat
  unfold sublist
  dsimp only
  rw [hmax]
  split
  · exact hdrop.of_skiplist (skiplist_idem _).symm
  · exact hdrop

theorem sublist_slice (h : Elements s es) (skip count : Int) :
    ∃ gs, Elements (sublist s skip (some count)) gs ∧
      gs.map Item.parts = (shed ((es.drop skip.toNat).take count.toNat)).map Item.parts := by
  have hmax : (max skip 0).toNat = skip.toNat := by omega
  have hmax' : (max count 0).toNat = count.toNat := by omega
  have hdrop := skipitems_elements h skip.toNat
  unfold sublist
  dsimp only
  rw [hmax, hmax']
  cases hcount : count.toNat with
  | zero => exact ⟨[], .done parselist_nil, rfl⟩
  | succ len =>
    dsimp only
    cases hds : es.drop skip.toNat with
    | nil =>
      rw [hds] at hdrop
      cases hdrop with
      | done hnone =>
        rw [hnone]
        exact ⟨[], .done parselist_nil, rfl⟩
    | cons e ds =>
      rw [hds] at hdrop
      have hdrop' := hdrop.of_skiplist (skiplist_idem _).symm
      cases hdrop with
      | @next _ t _ _ hnext hr =>
        rw [hnext]
        dsimp only
        obtain ⟨l, hl⟩ : ∃ l, ((e :: ds).take (len + 1)).getLast? = some l := by
          rw [List.take_succ_cons]
          exact ⟨_, List.getLast?_cons⟩
        have hlast : lastitem len t e.quoteend = l.quoteend := by
          rw [lastitem_elements hr]
          rw [List.take_succ_cons, List.getLast?_cons] at hl
          rw [← Option.some.inj hl]
          cases (ds.take len).getLast? <;> rfl
        rw [hlast, (parselist_within hnext).1.quotestart]
        refine hdrop'.upto_last hl (upto_eq ?_).symm
        have hmem : l ∈ e :: ds := List.mem_of_mem_take (List.mem_of_mem_getLast? hl)
        exact (List.suffix_append l.quoted l.quoteend).trans (hdrop'.suffix hmem)

/-- **`listdel`**: of the elements that stay none but the last may be open. -/
theorem listdel_exact (h : Elements s es) {del : Text} {ds : List Item} (hd : Elements del ds) {n : Nat}
    (hn : es.length < n) (hn' : ds.length < n)
    (hopen : ∀ e ∈ (es.filter fun e => e.text ∉ ds.map Item.text).dropLast, ¬ e.Open) :
    ∃ t gs, listdel n s del = some t ∧ Elements t gs ∧ gs.map Item.parts =
      ((es.filter fun e => e.text ∉ ds.map Item.text).filter fun e => e.quoted ≠ []).map
        Item.parts := by
  rw [listdel_elements h hd hn hn']
  have hparsed : ∀ e ∈ es.filter fun e => e.text ∉ ds.map Item.text, e.Parsed := fun e he =>
    h.parsed (List.mem_of_mem_filter he)
  generalize es.filter (fun e => e.text ∉ ds.map Item.text) = ks at hopen hparsed ⊢
  have hdrop : (ks.map Item.quoted).dropWhile (· = []) =
      (ks.dropWhile fun e => e.quoted = []).map Item.quoted := List.dropWhile_map ..
  have hsuffix : (ks.dropWhile fun e => e.quoted = []) <:+ ks := List.dropWhile_suffix _
  have hfilter : (ks.dropWhile fun e => e.quoted = []).filter (fun e => e.quoted ≠ []) =
      ks.filter fun e => e.quoted ≠ [] := by
    clear hopen hparsed hdrop hsuffix
    induction ks with
    | nil => rfl
    | cons e ks ih =>
      by_cases hq : e.quoted = []
      · rw [List.dropWhile_cons_of_pos (by simpa using hq), ih,
          List.filter_cons_of_neg (by simpa using hq)]
      · rw [List.dropWhile_cons_of_neg (by simpa using hq)]
  obtain ⟨gs, hgs, hmap⟩ := spaced_elements (ks.dropWhile fun e => e.quoted = [])
    (fun e he => hparsed e (hsuffix.mem he)) fun e he => hopen e (by
      obtain ⟨as, has⟩ := hsuffix
      have hne : (ks.dropWhile fun e => e.quoted = []) ≠ [] := by
        intro hnil
        rw [hnil] at he
        cases he
      rw [← has, List.dropLast_append_of_ne_nil hne]
      exact List.mem_append_right as he)
  refine ⟨_, gs, rfl, ?_, ?_⟩
  · rw [foldl_putspaced_nil, hdrop]
    exact hgs
  · rw [hmap, hfilter]

/-- What `listsplice` asks of the elements before the place, the new ones and those behind, if there
are any: the last one before is not empty without quotes, and not open if something comes behind it;
the first one behind others is not empty; and a list can be put behind the new ones. -/
structure Spliceable (before : List Item) (vals : Text) (vs after : List Item) : Prop where
  shown : ∀ e ∈ before.getLast?, e.quoted ≠ []
  closed : ∀ e ∈ before.getLast?, vals ≠ [] ∨ after ≠ [] → ¬ e.Open
  first : before ≠ [] → ∀ e ∈ (vs ++ after).head?, e.quoted ≠ []
  next : vs ≠ [] → ∀ e ∈ after.head?, e.quoted ≠ []
  joinable : after ≠ [] → Joinable vals vs

theorem parseitem_none {c : UInt8} {s : Text} :
    parseitem (c :: s) = none ↔ c = chr ')' ∨ c = chr ']' := by
  rw [parseitem]
  by_cases hquote : c = chr '"'
  · rw [if_pos hquote, hquote]
    exact iff_of_false (by simp) (by decide)
  · rw [if_neg hquote]
    by_cases hopen : c = chr '(' ∨ c = chr '['
    · rw [if_pos hopen]
      refine iff_of_false (by simp) ?_
      obtain rfl | rfl := hopen
      · decide
      · decide
    · rw [if_neg hopen]
      by_cases hclose : c = chr ')' ∨ c = chr ']'
      · rw [if_pos hclose]
        exact iff_of_true rfl hclose
      · rw [if_neg hclose]
        exact iff_of_false (by simp) hclose

/-- Nothing is left of a list if it has no more elements. -/
theorem putrest_elements {p t : Text} {ds : List Item} (h : Elements t ds) :
    ds = [] ∧ putrest p t = p ∨ ds ≠ [] ∧ putrest p t = putspaced p (skiplist t) := by
  cases h with
  | done h =>
    left
    refine ⟨rfl, ?_⟩
    unfold parselist at h
    rw [Option.map_eq_none_iff] at h
    unfold putrest
    dsimp only
    cases hs : skiplist t with
    | nil => rfl
    | cons c w =>
      rw [hs, parseitem_none] at h
      exact if_pos (by simpa using h)
  | next h _ =>
    right
    refine ⟨List.cons_ne_nil _ _, ?_⟩
    have hitem := (parselist_eq_some h).1
    unfold putrest
    dsimp only
    cases hs : skiplist t with
    | nil =>
      rw [hs] at hitem
      cases hitem
    | cons c w =>
      have hclose : ¬(c = chr ')' ∨ c = chr ']') := fun hclose => by
        rw [hs, parseitem_none.mpr hclose] at hitem
        cases hitem
      exact if_neg (by simpa using hclose)

/-- The text before the place. -/
theorem splice_before (h : Elements s es) (k : Nat) (hshown : ∀ e ∈ (es.take k).getLast?, e.quoted ≠ []) :
    (es.take k = [] ∧ upto s (spliceat k s s).2 = []) ∨
      (es.take k ≠ [] ∧ upto s (spliceat k s s).2 ≠ [] ∧
        ∃ gs, Elements (upto s (spliceat k s s).2) gs ∧
          gs.map Item.parts = (es.take k).map Item.parts ∧
          ((∀ e ∈ (es.take k).getLast?, ¬ e.Open) → Joinable (upto s (spliceat k s s).2) gs)) := by
  rw [(spliceat_elements h k s).2]
  cases hlast : (es.take k).getLast? with
  | none =>
    left
    refine ⟨List.getLast?_eq_none_iff.mp hlast, ?_⟩
    rw [Option.elim_none]
    exact upto_append [] s
  | some e =>
    right
    have hq : e.quoted ≠ [] := hshown e hlast
    obtain ⟨as, has⟩ := List.getLast?_eq_some_iff.mp hlast
    have hmem : e ∈ es := List.mem_of_mem_take (List.mem_of_mem_getLast? hlast)
    obtain ⟨x, hx⟩ : e.quoted ++ e.quoteend <:+ s := h.suffix hmem
    rw [← List.append_assoc] at hx
    have hes : es = as ++ e :: es.drop k := by
      rw [← List.singleton_append, ← List.append_assoc, ← has, List.take_append_drop]
    rw [hes] at h
    obtain ⟨gs, g, hgs, hmap, hsame, hends⟩ := h.upto_closed hq hx.symm
    have hupto : upto s e.quoteend = x ++ e.quoted := by rw [← hx, upto_append]
    rw [Option.elim_some, hupto]
    refine ⟨?_, by simp [hq], gs ++ [g], hgs, ?_, fun hopen => ?_⟩
    · rw [has]
      simp
    · rw [has, List.map_append, List.map_append, hmap, List.map_singleton, hsame.parts]
      rfl
    · exact joinable_ended hsame.quoteend (fun h => hopen e rfl (hsame.open_iff.mp h)) hends _

theorem putspaced_assoc {x vals rest : Text} (hvals : vals ≠ []) :
    putspaced (putspaced x vals) rest = putspaced x (putspaced vals rest) := by
  have hne : putspaced x vals ≠ [] := by
    unfold putspaced
    simp [hvals]
  unfold putspaced at hne ⊢
  rw [if_neg hne, if_neg hvals]
  simp only [List.append_assoc]

theorem putspaced_cons {x : Text} (hx : x ≠ []) (t : Text) : putspaced x t = x ++ chr ' ' :: t := by
  unfold putspaced
  rw [if_neg hx, List.append_assoc]
  rfl

/-- **`listsplice`** takes elements out and puts others in. -/
theorem listsplice_exact (h : Elements s es) {vals : Text} {vs : List Item} (hv : Elements vals vs)
    (skip : Int) (count : Option Int)
    (hfit : Spliceable (es.take skip.toNat) vals vs
      (es.drop (skip.toNat + count.elim 0 Int.toNat))) :
    ∃ gs, Elements (listsplice s vals skip count) gs ∧ gs.map Item.parts =
      (es.take skip.toNat ++ vs ++ es.drop (skip.toNat + count.elim 0 Int.toNat)).map
        Item.parts := by
  have hskip : (max skip 0).toNat = skip.toNat := by omega
  have hcount : (count.elim 0 fun count => (max count 0).toNat) = count.elim 0 Int.toNat := by
    cases count with
    | none => rfl
    | some count =>
      rw [Option.elim_some, Option.elim_some]
      omega
  have hrest := skipitems_elements (spliceat_elements h skip.toNat s).1 (count.elim 0 Int.toNat)
  rw [List.drop_drop] at hrest
  have hbefore := splice_before h skip.toNat hfit.shown
  unfold listsplice
  dsimp only
  rw [hskip, hcount]
  generalize upto s (spliceat skip.toNat s s).2 = x at hbefore ⊢
  generalize skipitems (count.elim 0 Int.toNat) (spliceat skip.toNat s s).1 = t at hrest ⊢
  generalize es.take skip.toNat = before at hbefore hfit ⊢
  generalize es.drop (skip.toNat + count.elim 0 Int.toNat) = after at hrest hfit ⊢
  -- what comes behind the place, if anything does
  have hfront : ∀ {m : Text} {ms : List Item}, Elements m ms →
      ms.map Item.parts = (vs ++ after).map Item.parts → vals ≠ [] ∨ after ≠ [] →
      ∃ gs, Elements (putspaced x m) gs ∧
        gs.map Item.parts = (before ++ vs ++ after).map Item.parts := by
    intro m ms hm hmap hsome
    obtain ⟨hnil, rfl⟩ | ⟨hne, hx, gs, hgs, hgmap, hjoin⟩ := hbefore
    · exact ⟨ms, hm, by rw [hmap, hnil]; rfl⟩
    · rw [putspaced_cons hx]
      obtain ⟨ks, hks, hkmap⟩ := hgs.join (hjoin fun e he => hfit.closed e he hsome) hm
        fun _ => hm.head_semicolon (head_quoted hmap (hfit.first hne))
      refine ⟨ks, hks, ?_⟩
      rw [hkmap, hgmap, hmap, List.append_assoc, ← List.map_append]
  have hvals : vals = [] → vs = [] := by
    rintro rfl
    cases hv with
    | done => rfl
    | next h _ =>
      rw [parselist_nil] at h
      cases h
  obtain ⟨rfl, hput⟩ | ⟨hafter, hput⟩ := putrest_elements hrest (p := if vals = [] then x else putspaced x vals)
  · rw [hput]
    by_cases hnil : vals = []
    · rw [if_pos hnil, hvals hnil]
      obtain ⟨hbnil, rfl⟩ | ⟨-, -, gs, hgs, hgmap, -⟩ := hbefore
      · exact ⟨[], .done parselist_nil, by rw [hbnil]; rfl⟩
      · exact ⟨gs, hgs, by rw [hgmap]; simp⟩
    · rw [if_neg hnil]
      exact hfront hv (by simp) (Or.inl hnil)
  · have hrest' : Elements (skiplist t) after := hrest.of_skiplist (skiplist_idem t).symm
    rw [hput]
    by_cases hnil : vals = []
    · rw [if_pos hnil]
      exact hfront hrest' (by rw [hvals hnil]; rfl) (Or.inr hafter)
    · rw [if_neg hnil, putspaced_assoc hnil, putspaced_cons hnil]
      obtain ⟨ms, hms, hmap⟩ := hv.join (hfit.joinable hafter) hrest'
        fun hne => hrest'.head_semicolon (hfit.next hne)
      exact hfront hms (by rw [hmap, List.map_append]) (Or.inl hnil)

/-- What the commands do to the elements of a list. -/
structure Agree (s : Text) (es : List Item) : Prop where
  explodelist : Explodes s (es.map Item.text)
  listlen (n : Nat) (hn : es.length < n) : listlen n s = some es.length
  indexlist (pos : Int) : indexlist s pos = ((es.map Item.text)[pos.toNat]?).getD []
  at_pos (pos : Int) : at_ s [pos] = ((es.map Item.text)[pos.toNat]?).getD []
  indexof (elem : Text) (n : Nat) (hn : es.length < n) : listincludes n s elem =
    some (((es.map Item.text).idxOf? elem).elim (-1 : Int) fun i => (i : Int))
  rest (skip : Int) : Explodes (sublist s skip none) ((es.drop skip.toNat).map Item.text)
  slice (skip count : Int) : Explodes (sublist s skip (some count))
    ((shed ((es.drop skip.toNat).take count.toNat)).map Item.text)
  listdel (del : Text) (ds : List Item) (hdel : Elements del ds)
    (hopen : ∀ e ∈ (es.filter fun e => e.text ∉ ds.map Item.text).dropLast, ¬ e.Open) (n : Nat)
    (hn : es.length < n) (hn' : ds.length < n) : ∃ t, listdel n s del = some t ∧
      Explodes t (((es.filter fun e => e.text ∉ ds.map Item.text).filter
        fun e => e.quoted ≠ []).map Item.text)
  listsplice (vals : Text) (vs : List Item) (hvals : Elements vals vs) (skip : Int)
    (count : Option Int) (hfit : Spliceable (es.take skip.toNat) vals vs
      (es.drop (skip.toNat + count.elim 0 Int.toNat))) :
    Explodes (listsplice s vals skip count)
      ((es.take skip.toNat ++ vs ++ es.drop (skip.toNat + count.elim 0 Int.toNat)).map Item.text)

theorem explodes_of_parts {t : Text} {gs es : List Item} (h : Elements t gs)
    (hmap : gs.map Item.parts = es.map Item.parts) : Explodes t (es.map Item.text) := by
  rw [← map_text_eq hmap]
  exact h.explodes

/-- **The commands on a list** on which `parselist` always advances. -/
theorem listops_exact {s : Text} (h : Calm s) : ∃ es, Elements s es ∧ Agree s es := by
  obtain ⟨es, hes⟩ := h.elements
  refine ⟨es, hes, ?_⟩
  constructor
  case explodelist => exact hes.explodes
  case listlen => exact fun n hn => listlen_elements hes hn
  case indexlist => exact indexlist_elements hes
  case at_pos => exact at_elements hes
  case indexof => exact fun elem n hn => listincludes_elements hes hn elem
  case rest => exact fun skip => (sublist_rest hes skip).explodes
  case slice =>
    intro skip count
    obtain ⟨gs, hgs, hmap⟩ := sublist_slice hes skip count
    exact explodes_of_parts hgs hmap
  case listdel =>
    intro del ds hdel hopen n hn hn'
    obtain ⟨t, gs, ht, hgs, hmap⟩ := listdel_exact hes hdel hn hn' hopen
    exact ⟨t, ht, explodes_of_parts hgs hmap⟩
  case listsplice =>
    intro vals vs hvals skip count hfit
    obtain ⟨gs, hgs, hmap⟩ := listsplice_exact hes hvals skip count hfit
    exact explodes_of_parts hgs hmap

/-- A list with a string, a block and a word. -/
theorem listops_three : ∃ es, Elements (word "\"a b\" [c [d]] ; e") es ∧
    Agree (word "\"a b\" [c [d]] ; e") es := by
  have helems : Elements (word "\"a b\" [c [d]] ; e")
      [⟨word "a b\" [c [d]] ; e", word "\" [c [d]] ; e", word "\"a b\" [c [d]] ; e",
          word " [c [d]] ; e"⟩,
        ⟨word "c [d]] ; e", word "] ; e", word "[c [d]] ; e", word " ; e"⟩,
        ⟨word "e", [], word "e", []⟩] :=
    .next (r := word "[c [d]] ; e") (by decide +kernel) (.next (r := word " e") (by decide +kernel)
      (.next (r := []) (by decide +kernel) (.done parselist_nil)))
  exact listops_exact helems.calm

/-- An element without text or quotes is lost in a copy. -/
theorem listdel_empty : Calm (word "a;;b") ∧
    explodelist 9 (word "a;;b") (-1) = some [word "a", [], word "b"] ∧
    listdel 9 (word "a;;b") [] = some (word "a  b") ∧
    explodelist 9 (word "a  b") (-1) = some [word "a", word "b"] := by
  have helems : Elements (word "a;;b") [⟨word "a;;b", word ";;b", word "a;;b", word ";;b"⟩,
      ⟨word ";b", word ";b", word ";b", word ";b"⟩, ⟨word "b", [], word "b", []⟩] :=
    .next (r := word ";b") (by decide +kernel) (.next (r := word "b") (by decide +kernel)
      (.next (r := []) (by decide +kernel) (.done parselist_nil)))
  exact ⟨helems.calm, by decide +kernel, by decide +kernel, by decide +kernel⟩

end Script

end QServ
