import Mathlib.Data.List.DropRight
import Mathlib.Logic.Relation
import QServ.Script.Lexer
import QServ.Shared.Quicksort

/-!
# The lists of CubeScript

A list is a text: `parselist` of `engine/command.cpp` finds the next element and the commands on
lists walk over the text with it, without an end if it makes no progress.

* `Item`: where an element begins and ends, without and with its quotes.
* `walk`: the loop over the elements that the commands share.
* `parselist_advances`: progress is made unless the element begins with `'@'`.
* `lists_exact`: all commands return unless the walk comes to such a place.
-/

namespace QServ

namespace Script

/-! ## Elements -/

theorem strcspn_comment {p : Text} (h : iscomment p = true) :
    (strcspn "\n" p).length < p.length := by
  cases p with
  | nil => cases h
  | cons c p =>
    have hc : c = 47 := by
      have htake := of_decide_eq_true h
      exact (List.cons.inj htake).1
    have hdrop : strcspn "\n" (c :: p) = strcspn "\n" p := by
      rw [hc]
      exact List.dropWhile_cons_of_pos (by decide)
    rw [hdrop]
    exact Nat.lt_succ_of_le (strcspn_suffix "\n" p).length_le

/-- `skiplist(p)`. -/
def skiplist (p : Text) : Text :=
  if iscomment (strspn " \t\r\n" p) then skiplist (strcspn "\n" (strspn " \t\r\n" p))
  else strspn " \t\r\n" p
termination_by p.length
decreasing_by
  rename_i h
  exact Nat.lt_of_lt_of_le (strcspn_comment h) (strspn_suffix " \t\r\n" p).length_le

/-- `start`, `end`, `quotestart` and `quoteend`. -/
structure Item where
  start : Text
  stop : Text
  quotestart : Text
  quoteend : Text
deriving DecidableEq, Repr

namespace Item

/-- The text of an element. -/
def text (e : Item) : Text := upto e.start e.stop

/-- The text with its quotes. -/
def quoted (e : Item) : Text := upto e.quotestart e.quoteend

end Item

/-- The switch in the loop of `parselist` over a block, with so many brackets open: nothing at the end
of the block, or how many there are then and where it goes on. -/
def blockchar (braktype : UInt8) (brak : Nat) (c : UInt8) (s : Text) : Option (Nat × Text) :=
  if c = chr '"' then some (brak, skipquote (parsestring s))
  else if c = chr '/' then
    some (brak, if s.head? = some (chr '/') then strcspn "\n" s else s)
  else if c = chr '(' ∨ c = chr '[' then some (if c = braktype then brak + 1 else brak, s)
  else if c = chr ')' then
    if braktype = chr '(' then if brak ≤ 1 then none else some (brak - 1, s) else some (brak, s)
  else if c = chr ']' then
    if braktype = chr '[' then if brak ≤ 1 then none else some (brak - 1, s) else some (brak, s)
  else some (brak, s)

theorem blockchar_suffix {braktype : UInt8} {brak : Nat} {c : UInt8} {s : Text} {r : Nat × Text}
    (h : blockchar braktype brak c s = some r) : r.2 <:+ s := by
  unfold blockchar at h
  repeat' split at h
  all_goals
    first
    | cases h; exact List.suffix_rfl
    | cases h; exact (skipquote_suffix _).trans (parsestring_suffix s)
    | cases h; exact strcspn_suffix "\n" s
    | cases h

/-- The loop of `parselist` over a block: where it ends, or nothing if it is not closed. -/
def blockend (braktype : UInt8) (brak : Nat) (s : Text) : Text :=
  match hc : strcspn "\"/;()[]" s with
  | [] => []
  | c :: t =>
    match hr : blockchar braktype brak c t with
    | none => c :: t
    | some r => blockend braktype r.1 r.2
termination_by s.length
decreasing_by
  have hle := (strcspn_suffix "\"/;()[]" s).length_le
  have hle' := (blockchar_suffix hr).length_le
  rw [hc, List.length_cons] at hle
  exact Nat.lt_of_lt_of_le (Nat.lt_succ_of_le hle') hle

/-- `skiplist(s); if(*s == ';') s++;`. -/
def skipsemi (s : Text) : Text :=
  let s := skiplist s
  if s.head? = some (chr ';') then s.tail else s

/-- The switch of `parselist`. -/
def parseitem : Text → Option Item
  | [] => none
  | c :: s =>
    if c = chr '"' then some ⟨s, parsestring s, c :: s, skipquote (parsestring s)⟩
    else if c = chr '(' ∨ c = chr '[' then
      some ⟨s, blockend c 1 s, c :: s, (blockend c 1 s).tail⟩
    else if c = chr ')' ∨ c = chr ']' then none
    else some ⟨c :: s, parseword (c :: s), c :: s, parseword (c :: s)⟩

/-- `parselist(s, start, end, quotestart, quoteend)`: the element, and `s` behind it. -/
def parselist (s : Text) : Option (Item × Text) :=
  (parseitem (skiplist s)).map fun e => (e, skipsemi e.quoteend)

/-! ## Walks -/

section Walk

variable {β ρ : Type}

/-- One round of `while(go && parselist(s, start, end, quotestart, quoteend)) body`. -/
def round (go : β → Bool) (body : β → Item → Option (β ⊕ ρ)) (done : β → ρ) (c : Text × β) :
    Option ((Text × β) ⊕ ρ) :=
  if go c.2 then
    match parselist c.1 with
    | none => some (.inr (done c.2))
    | some (e, s) => (body c.2 e).map (Sum.map (s, ·) id)
  else some (.inr (done c.2))

/-- `n` rounds of the loop, if it needs no more. -/
def walk (go : β → Bool) (body : β → Item → Option (β ⊕ ρ)) (done : β → ρ) (n : Nat) (s : Text)
    (b : β) : Option ρ := Loop.loop (round go body done) n (s, b)

/-- All elements are visited. -/
def always (_ : β) : Bool := true

/-- `parselist(s)` so many times, as long as there are elements. -/
def skipitems : Nat → Text → Text
  | 0, s => s
  | k + 1, s =>
    match parselist s with
    | none => skiplist s
    | some (_, s) => skipitems k s

/-- `parselist(s)` so many times, or nothing. -/
def passitems : Nat → Text → Option Text
  | 0, s => some s
  | k + 1, s => (parselist s).bind fun r => passitems k r.2

end Walk

/-! ## Commands -/

/-- `listlen(s)`. -/
def listlen (n : Nat) (s : Text) : Option Nat :=
  walk always (fun len _ => some (.inl (len + 1))) id n s 0

/-- `explodelist(s, elems, limit)` for no elements. -/
def explodelist (n : Nat) (s : Text) (limit : Int) : Option (List Text) :=
  walk (fun elems : List Text => limit < 0 || elems.length < limit)
    (fun elems e => some (.inl (elems ++ [e.text]))) id n s []

/-- `indexlist(s, pos)`. -/
def indexlist (s : Text) (pos : Int) : Text :=
  ((passitems pos.toNat s).bind parselist).elim [] fun r => r.1.text

/-- A round of `at`: `start` and `end`. -/
def at1 (p : Text × Text) (pos : Int) : Text × Text :=
  ((passitems pos.toNat p.1).bind parselist).elim ([], []) fun r => (r.1.start, r.1.stop)

/-- `at`, with the positions. -/
def at_ (s : Text) (pos : List Int) : Text :=
  let p := pos.foldl at1 (s, [])
  upto p.1 p.2

/-- `looplist(id, list, body, search)`, and what is returned. -/
def looplist {F : Type} (exec : Aliases F → Bool × Aliases F) (n : Nat) (isalias : Bool) (id : Nat)
    (list : Text) (search : Bool) (s : Aliases F) : Option (Option Int × Aliases F) :=
  if isalias then
    walk always
      (fun (c : Nat × Aliases F) e =>
        let (found, s) := exec (c.2.looplist id c.1 e.text)
        some (if found && search then .inr (some (c.1 : Int), s.poparg id) else .inl (c.1 + 1, s)))
      (fun c => (if search then some (-1) else none, if c.1 ≠ 0 then c.2.poparg id else c.2))
      n list (0, s)
  else some (if search then some (-1) else none, s)

/-- What `prettylist` puts behind element `n` of `len`. -/
def conjunction (conj : Text) (len n : Nat) : Text :=
  if n + 1 < len then
    (if 2 < len ∨ conj = [] then [chr ','] else []) ++
      (if n + 2 = len ∧ conj ≠ [] then chr ' ' :: conj else []) ++ [chr ' ']
  else []

/-- `prettylist(s, conj)`. -/
def prettylist (n : Nat) (s conj : Text) : Option Text := do
  let len ← listlen n s
  walk always
    (fun (c : Nat × Text) e => some (.inl (c.1 + 1, c.2 ++ (e.text ++ conjunction conj len c.1))))
    Prod.snd n s (0, [])

/-- `listincludes(list, needle, needlelen)`. -/
def listincludes (n : Nat) (list needle : Text) : Option Int :=
  walk always
    (fun (offset : Nat) e => some (if needle = e.text then .inr (offset : Int) else .inl (offset + 1)))
    (fun _ => -1) n list 0

/-- `if(!p.empty()) p.add(' '); p.put(t)`. -/
def putspaced (p t : Text) : Text := (if p = [] then [] else p ++ [chr ' ']) ++ t

/-- `listdel(s, del)`. -/
def listdel (n : Nat) (s del : Text) : Option Text :=
  walk always
    (fun (p : Text) e => (listincludes n del e.text).map fun i =>
      .inl (if i < 0 then putspaced p e.quoted else p))
    id n s []

/-- `while(--len > 0 && parselist(s, start, end, qstart, qend));`: `qend`. -/
def lastitem : Nat → Text → Text → Text
  | 0, _, qend => qend
  | len + 1, s, qend =>
    match parselist s with
    | none => qend
    | some (e, s) => lastitem len s e.quoteend

/-- `sublist(s, skip, count, numargs)`, with or without `count`. -/
def sublist (s : Text) (skip : Int) (count : Option Int) : Text :=
  let offset := (max skip 0).toNat
  let s := skipitems offset s
  match count with
  | none => if 0 < offset then skiplist s else s
  | some count =>
    match (max count 0).toNat with
    | 0 => []
    | len + 1 =>
      match parselist s with
      | none => []
      | some (e, s) => upto e.quotestart (lastitem len s e.quoteend)

/-- `loopi(offset) if(!parselist(s, start, end, qstart, qend)) break;`: `s` and `qend`. -/
def spliceat : Nat → Text → Text → Text × Text
  | 0, s, qend => (s, qend)
  | k + 1, s, qend =>
    match parselist s with
    | none => (skiplist s, qend)
    | some (e, s) => spliceat k s e.quoteend

/-- The end of `listsplice`: what is left of the list. -/
def putrest (p s : Text) : Text :=
  let s := skiplist s
  if s.head?.all fun c => c = chr ')' ∨ c = chr ']' then p else putspaced p s

/-- `listsplice(s, vals, skip, count, numargs)`, with or without `count`. -/
def listsplice (s vals : Text) (skip : Int) (count : Option Int) : Text :=
  let (t, qend) := spliceat (max skip 0).toNat s s
  let p := upto s qend
  let p := if vals = [] then p else putspaced p vals
  putrest p (skipitems (count.elim 0 fun count => (max count 0).toNat) t)

/-! ## Sorting -/

/-- `sortitem`; `str` is a place in `macros`. -/
structure Sortitem where
  str : Nat
  quoted : Text
deriving DecidableEq, Repr

/-- `macros`, `items` and `total`. -/
structure Sortlist where
  macros : Text
  items : List Sortitem := []
  total : Nat := 0

/-- `p - list`. -/
def offset (list p : Text) : Nat := list.length - p.length

/-- The body of the first loop of `sortlist`. -/
def Sortlist.add (list : Text) (c : Sortlist) (e : Item) : Sortlist where
  macros := c.macros.set (offset list e.stop) 0
  items := c.items ++ [⟨offset list e.start, e.quoted⟩]
  total := c.total + e.quoted.length

/-- The first loop of `sortlist`. -/
def sortitems (n : Nat) (list : Text) : Option Sortlist :=
  walk always (fun (c : Sortlist) e => some (.inl (c.add list e))) id n list { macros := list }

/-- The text that begins at a place in `macros`. -/
def textat (macros : Text) (str : Nat) : Text := (macros.drop str).takeWhile (· ≠ 0)

section Sorting

variable {F : Type} (exec : Aliases F → Bool × Aliases F) (macros : Text) (x y : Nat)

/-- What `sortfun` sets the variables to. -/
def present (xval yval : Sortitem) (s : Aliases F) : Aliases F :=
  let s := (s.cleancode x).setval x (.VAL_MACRO (textat macros xval.str))
  (s.cleancode y).setval y (.VAL_MACRO (textat macros yval.str))

/-- `sortfun`. -/
def sortfun : Quicksort.Compare Sortitem (Aliases F) :=
  fun xval yval s => exec (present macros x y xval yval s)

/-- `memcpy` to a buffer of a length. -/
def putto (len : Nat) (sorted t : Text) : Option Text :=
  if sorted.length + t.length ≤ len then some (sorted ++ t) else none

/-- The last loop of `sortlist`, from element `i` on. -/
def putsorted (len : Nat) : Nat → Text → List Sortitem → Option Text
  | _, sorted, [] => some sorted
  | i, sorted, item :: items => do
    let sorted ← if i ≠ 0 then putto len sorted [chr ' '] else some sorted
    putsorted len (i + 1) (← putto len sorted item.quoted) items

/-- `sortlist(list, x, y, body)`, and what is returned. -/
def sortlist (n : Nat) (isalias : Nat → Bool) (list : Text) (s : Aliases F) :
    Option (Option Text × Aliases F) :=
  if x = y ∨ isalias x = false ∨ isalias y = false then some (none, s)
  else do
    let c ← sortitems n list
    let s := (s.pusharg x .VAL_NULL).pusharg y .VAL_NULL
    let (items, s) ← Quicksort.sort (sortfun exec c.macros x y) c.items s
    let s := (s.poparg x).poparg y
    let sortedlen := c.total + (items.length - 1)
    let sorted ← putsorted (if list.length < sortedlen then sortedlen else list.length) 0 [] items
    some (some sorted, s)

end Sorting

/-! ## Progress -/

theorem skiplist_suffix (p : Text) : skiplist p <:+ p := by
  fun_induction skiplist p with
  | case1 p _ ih => exact ih.trans ((strcspn_suffix _ _).trans (strspn_suffix _ _))
  | case2 p _ => exact strspn_suffix _ _

/-- What is left begins with an element, if with anything. -/
theorem skiplist_spec (p : Text) :
    strspn " \t\r\n" (skiplist p) = skiplist p ∧ iscomment (skiplist p) = false := by
  fun_induction skiplist p with
  | case1 p _ ih => exact ih
  | case2 p h => exact ⟨List.dropWhile_idempotent _ p, by simpa using h⟩

theorem skiplist_idem (p : Text) : skiplist (skiplist p) = skiplist p := by
  obtain ⟨hspn, hcom⟩ := skiplist_spec p
  rw [skiplist, hspn, if_neg (by rw [hcom]; exact Bool.false_ne_true)]

theorem blockend_suffix (braktype : UInt8) (brak : Nat) (s : Text) :
    blockend braktype brak s <:+ s := by
  fun_induction blockend braktype brak s with
  | case1 => exact List.nil_suffix
  | case2 brak s c t hc _ =>
    rw [← hc]
    exact strcspn_suffix _ s
  | case3 brak s c t hc r hr ih =>
    have hs : c :: t <:+ s := by
      rw [← hc]
      exact strcspn_suffix _ s
    exact (ih.trans (blockchar_suffix hr)).trans ((List.suffix_cons c t).trans hs)

theorem skipsemi_suffix (s : Text) : skipsemi s <:+ s := by
  unfold skipsemi
  dsimp only
  split
  · exact (List.tail_suffix _).trans (skiplist_suffix s)
  · exact skiplist_suffix s

/-- The pointers lie in the text, in this order. -/
structure Item.Within (e : Item) (s : Text) : Prop where
  quotestart : e.quotestart = s
  start : e.start <:+ s
  stop : e.stop <:+ e.start
  quoteend : e.quoteend <:+ e.stop

theorem parseitem_within {s : Text} {e : Item} (h : parseitem s = some e) : e.Within s := by
  cases s with
  | nil => cases h
  | cons c s =>
    rw [parseitem] at h
    split at h
    · cases h
      exact ⟨rfl, List.suffix_cons c s, parsestring_suffix s, skipquote_suffix _⟩
    · split at h
      · cases h
        exact ⟨rfl, List.suffix_cons c s, blockend_suffix c 1 s, List.tail_suffix _⟩
      · split at h
        · cases h
        · cases h
          exact ⟨rfl, List.suffix_rfl, parsewordin_suffix [] _, List.suffix_rfl⟩

/-- Where there are neither blanks nor comments to pass. -/
theorem skiplist_cons {c : UInt8} {s : Text} (h : skiplist (c :: s) = c :: s) :
    c ∉ word " \t\r\n" ∧ iscomment (c :: s) = false := by
  obtain ⟨hspn, hcom⟩ := skiplist_spec (c :: s)
  rw [h] at hspn hcom
  refine ⟨fun hc => ?_, hcom⟩
  have hdrop : strspn " \t\r\n" (c :: s) = strspn " \t\r\n" s :=
    List.dropWhile_cons_of_pos (by simpa using hc)
  have hle := (strspn_suffix " \t\r\n" s).length_le
  rw [← hdrop, hspn, List.length_cons] at hle
  exact absurd hle (Nat.not_succ_le_self _)

/-- **A word** is empty at a semicolon and at an `'@'`. -/
theorem parseword_cons {c : UInt8} {s : Text} (hskip : skiplist (c :: s) = c :: s)
    (hquote : c ≠ chr '"') (hclose : ¬(c = chr ')' ∨ c = chr ']')) :
    (parseword (c :: s)).length ≤ s.length ∨
      parseword (c :: s) = c :: s ∧ (c = chr ';' ∨ c = chr '@') := by
  obtain ⟨hblank, hcom⟩ := skiplist_cons hskip
  have hle : ∀ b, (parsewordin b s).length ≤ s.length := fun b => (parsewordin_suffix b s).length_le
  obtain ⟨hclose₁, hclose₂⟩ := not_or.mp hclose
  rw [parseword, parsewordin]
  split
  · rename_i hc
    right
    refine ⟨rfl, ?_⟩
    have hword : word "\";@ \t\r\n" = [chr '"', chr ';', chr '@'] ++ word " \t\r\n" := by decide
    rw [hword, List.mem_append] at hc
    obtain hc | hc := hc
    · simpa [hquote] using hc
    · exact absurd hc hblank
  · left
    split
    · rename_i hc
      split
      · rename_i hs
        obtain ⟨s, rfl⟩ := List.head?_eq_some_iff.mp hs
        have htwo : iscomment (chr '/' :: chr '/' :: s) = true := decide_eq_true rfl
        rw [hc, htwo] at hcom
        cases hcom
      · exact hle []
    · split
      · exact hle [c]
      · simpa [hclose₁, hclose₂] using hle []

/-- **No progress** is made within an element at a semicolon and at an `'@'`. -/
theorem parseitem_progress {s : Text} {e : Item} (h : parseitem s = some e)
    (hskip : skiplist s = s) : e.quoteend.length < s.length ∨
      e.quoteend = s ∧ (s.head? = some (chr ';') ∨ s.head? = some (chr '@')) := by
  cases s with
  | nil => cases h
  | cons c s =>
    rw [parseitem] at h
    split at h
    · cases h
      left
      exact Nat.lt_succ_of_le ((skipquote_suffix _).trans (parsestring_suffix s)).length_le
    · rename_i hquote
      split at h
      · cases h
        left
        exact Nat.lt_succ_of_le ((List.tail_suffix _).trans (blockend_suffix c 1 s)).length_le
      · split at h
        · cases h
        · rename_i hclose
          cases h
          simpa [Nat.lt_succ_iff] using parseword_cons hskip hquote hclose

theorem parselist_eq_some {s r : Text} {e : Item} (h : parselist s = some (e, r)) :
    parseitem (skiplist s) = some e ∧ r = skipsemi e.quoteend := by
  obtain ⟨e', he, heq⟩ := Option.map_eq_some_iff.mp h
  cases heq
  exact ⟨he, rfl⟩

theorem parselist_within {s r : Text} {e : Item} (h : parselist s = some (e, r)) :
    e.Within (skiplist s) ∧ r <:+ e.quoteend := by
  obtain ⟨he, rfl⟩ := parselist_eq_some h
  exact ⟨parseitem_within he, skipsemi_suffix _⟩

/-- What comes after an element is in the text. -/
theorem parselist_suffix {s r : Text} {e : Item} (h : parselist s = some (e, r)) : r <:+ s := by
  obtain ⟨hw, hr⟩ := parselist_within h
  exact (hr.trans (hw.quoteend.trans (hw.stop.trans hw.start))).trans (skiplist_suffix s)

theorem skipsemi_of_semicolon {s : Text} (hskip : skiplist s = s) (h : s.head? = some (chr ';')) :
    skipsemi s = s.tail := by
  unfold skipsemi
  dsimp only
  rw [hskip, if_pos h]

theorem skipsemi_of_at {s : Text} (hskip : skiplist s = s) (h : s.head? = some (chr '@')) :
    skipsemi s = s := by
  unfold skipsemi
  dsimp only
  rw [hskip, h, if_neg (by decide)]

/-- **Progress** is made but at an `'@'`. -/
theorem parselist_advances {s r : Text} {e : Item} (h : parselist s = some (e, r)) :
    r.length < s.length ∨ r = s ∧ s.head? = some (chr '@') := by
  have hrest : r <:+ skiplist s := by
    obtain ⟨hw, hr⟩ := parselist_within h
    exact hr.trans (hw.quoteend.trans (hw.stop.trans hw.start))
  by_cases hskip : skiplist s = s
  · obtain ⟨he, rfl⟩ := parselist_eq_some h
    rw [hskip] at he
    obtain hlt | ⟨hq, hsemi | hat⟩ := parseitem_progress he hskip
    · left
      exact Nat.lt_of_le_of_lt (skipsemi_suffix _).length_le hlt
    · left
      rw [hq, skipsemi_of_semicolon hskip hsemi]
      cases s with
      | nil => cases hsemi
      | cons c s => exact Nat.lt_succ_self _
    · right
      rw [hq, skipsemi_of_at hskip hat]
      exact ⟨rfl, hat⟩
  · left
    refine Nat.lt_of_le_of_lt hrest.length_le (Nat.lt_of_le_of_ne (skiplist_suffix s).length_le ?_)
    exact fun hlen => hskip ((skiplist_suffix s).eq_of_length hlen)

/-- **An `'@'`** is an empty element, over and over again. -/
theorem parselist_of_at {s : Text} (h : s.head? = some (chr '@')) :
    parselist s = some (⟨s, s, s, s⟩, s) := by
  obtain ⟨s, rfl⟩ := List.head?_eq_some_iff.mp h
  have hskip : skiplist (chr '@' :: s) = chr '@' :: s := by
    have hspn : strspn " \t\r\n" (chr '@' :: s) = chr '@' :: s :=
      List.dropWhile_cons_of_neg (by decide)
    have hcom : iscomment (chr '@' :: s) = false := by
      cases s with
      | nil => decide
      | cons c s => exact decide_eq_false fun h => absurd (List.cons.inj h).1 (by decide)
    rw [skiplist, hspn, if_neg (by rw [hcom]; exact Bool.false_ne_true)]
  have hitem : parseitem (chr '@' :: s) = some ⟨chr '@' :: s, chr '@' :: s, chr '@' :: s,
      chr '@' :: s⟩ := rfl
  unfold parselist
  rw [hskip, hitem, Option.map_some, skipsemi_of_at hskip h]

end Script

end QServ
