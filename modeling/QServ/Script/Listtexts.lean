import QServ.Lib.Scanning
import QServ.Script.Listwalks

/-!
# Texts of lists

-/

namespace QServ

namespace Script

open Scanning

/-! ## Scanners -/

theorem strcspn_scans (reject : String) : Scans (strcspn reject) := .dropWhile _

theorem strspn_scans (accept : String) : Scans (strspn accept) := .dropWhile _

theorem skipquote_scans : Scans skipquote :=
  .ofHead (fun c => c = chr '"') rfl fun c s => by simp [skipquote]

theorem parsestring_cons (c : UInt8) (p : Text) : parsestring (c :: p) =
    if c ∈ word "\r\n\"" then c :: p else if c = chr '^' then parsestring p.tail
      else parsestring p := by
  rw [parsestring.eq_def]
  cases p <;> rfl

theorem parsestring_scans : Scans parsestring where
  suffix := parsestring_suffix
  ahead := by
    intro y z r c h r'
    induction hn : y.length using Nat.strong_induction_on generalizing y with
    | _ n ih =>
      match y, hn with
      | [], _ =>
        rw [List.nil_append, parsestring_cons] at h ⊢
        split at h
        · rename_i hc
          rw [if_pos hc]
          obtain rfl := List.append_cancel_right (show [] ++ c :: r = z ++ c :: r from h)
          rfl
        · split at h
          · exact absurd h
              (not_suffix_self ((parsestring_suffix r.tail).trans (List.tail_suffix r)))
          · exact absurd h (not_suffix_self (parsestring_suffix r))
      | d :: y, hn =>
        rw [List.cons_append, parsestring_cons] at h ⊢
        have hy : y.length < n := by
          rw [← hn, List.length_cons]
          exact Nat.lt_succ_self _
        split at h
        · rename_i hd
          rw [if_pos hd]
          exact congrArg (· ++ c :: r') (List.append_cancel_right (show (d :: y) ++ _ = _ from h))
        · rename_i hd
          rw [if_neg hd]
          split at h
          · rename_i hesc
            rw [if_pos hesc]
            cases y with
            | nil => exact absurd h (not_suffix_self (parsestring_suffix r))
            | cons e y => exact ih y.length (Nat.lt_of_succ_lt hy) h rfl
          · rename_i hesc
            rw [if_neg hesc]
            exact ih y.length hy h rfl

/-- `if(*s == '/') s += strcspn(s, "\n\0")`. -/
theorem comment_scans :
    Scans fun s : Text => if s.head? = some (chr '/') then strcspn "\n" s else s where
  suffix s := by
    split
    · exact strcspn_suffix "\n" s
    · exact List.suffix_rfl
  ahead := by
    intro y z r c h r'
    have hhead : (y ++ c :: r').head? = (y ++ c :: r).head? := by cases y <;> rfl
    rw [hhead]
    split at h
    · rename_i hcom
      rw [if_pos hcom]
      exact (strcspn_scans "\n").ahead h r'
    · rename_i hcom
      rw [if_neg hcom]
      exact Scans.id.ahead h r'

section Blocks

variable {braktype brak}

/-- How many brackets are open behind a character of a block, if it does not end there. -/
def blockcount (braktype : UInt8) (brak : Nat) (c : UInt8) : Option Nat :=
  if c = chr '(' ∨ c = chr '[' then some (if c = braktype then brak + 1 else brak)
  else if c = chr ')' ∧ braktype = chr '(' ∨ c = chr ']' ∧ braktype = chr '[' then
    if brak ≤ 1 then none else some (brak - 1)
  else some brak

/-- Where it goes on behind a character of a block. -/
def blockskip (c : UInt8) (s : Text) : Text :=
  if c = chr '"' then skipquote (parsestring s)
  else if c = chr '/' then if s.head? = some (chr '/') then strcspn "\n" s else s
  else s

theorem blockskip_scans (c : UInt8) : Scans (blockskip c) := by
  unfold blockskip
  by_cases hquote : c = chr '"'
  · simp only [if_pos hquote]
    exact skipquote_scans.comp parsestring_scans
  · by_cases hslash : c = chr '/'
    · simp only [if_neg hquote, if_pos hslash]
      exact comment_scans
    · simp only [if_neg hquote, if_neg hslash]
      exact Scans.id

/-- The brackets and the text do not depend on each other. -/
theorem blockchar_eq (braktype : UInt8) (brak : Nat) (c : UInt8) (s : Text) :
    blockchar braktype brak c s = (blockcount braktype brak c).map (·, blockskip c s) := by
  unfold blockchar blockcount blockskip
  by_cases hquote : c = chr '"'
  · subst hquote
    rfl
  · by_cases hslash : c = chr '/'
    · subst hslash
      rfl
    · simp only [if_neg hquote, if_neg hslash]
      by_cases hopen : c = chr '(' ∨ c = chr '['
      · simp only [if_pos hopen, Option.map_some]
      · simp only [if_neg hopen]
        by_cases hround : c = chr ')'
        · subst hround
          have hne : ¬ chr ')' = chr ']' := by decide
          simp only [if_true, hne, true_and, false_and, or_false]
          split
          · split <;> rfl
          · rfl
        · by_cases hsquare : c = chr ']'
          · subst hsquare
            have hne : ¬ chr ']' = chr ')' := by decide
            simp only [hne, if_false, if_true, true_and, false_and, false_or]
            split
            · split <;> rfl
            · rfl
          · simp only [hround, hsquare, if_false, false_and, or_self, Option.map_some]

theorem blockend_none {s : Text} (h : strcspn "\"/;()[]" s = []) :
    blockend braktype brak s = [] := by
  rw [blockend]
  split
  · rfl
  · rename_i heq
    rw [h] at heq
    cases heq

theorem blockend_some {s t : Text} {c : UInt8} (h : strcspn "\"/;()[]" s = c :: t) :
    blockend braktype brak s = (blockcount braktype brak c).elim (c :: t) fun k =>
      blockend braktype k (blockskip c t) := by
  rw [blockend]
  split
  · rename_i heq
    rw [h] at heq
    cases heq
  · rename_i c' t' heq
    obtain ⟨rfl, rfl⟩ := List.cons.inj (h.symm.trans heq)
    have hchar := blockchar_eq braktype brak c t
    split
    · rename_i hnone
      rw [hchar, Option.map_eq_none_iff] at hnone
      rw [hnone]
      rfl
    · rename_i r hsome
      rw [hchar] at hsome
      obtain ⟨k, hk, rfl⟩ := Option.map_eq_some_iff.mp hsome
      rw [hk]
      rfl

/-- **A block** that is closed ends there, whatever is behind it. -/
theorem blockend_scans (braktype : UInt8) (brak : Nat) : Scans (blockend braktype brak) where
  suffix := blockend_suffix braktype brak
  ahead := by
    intro y z r c h r'
    induction hn : y.length using Nat.strong_induction_on generalizing y brak with
    | _ n ih =>
      cases hspn : strcspn "\"/;()[]" (y ++ c :: r) with
      | nil =>
        rw [blockend_none hspn] at h
        cases z <;> cases h
      | cons d t =>
        rw [blockend_some hspn] at h
        have hlen : (c :: r).length ≤ (d :: t).length := by
          have hle : (z ++ c :: r).length ≤ (d :: t).length := by
            rw [← h]
            cases blockcount braktype brak d with
            | none => exact Nat.le_refl _
            | some k =>
              exact ((blockend_suffix _ _ _).trans (((blockskip_scans d).suffix t).trans
                (List.suffix_cons d t))).length_le
          rw [List.length_append] at hle
          omega
        obtain ⟨w, hw, hwy⟩ := exists_append (hspn ▸ strcspn_suffix _ _) rfl hlen
        have hspn' := (strcspn_scans "\"/;()[]").ahead (hspn.trans hw) r'
        cases w with
        | nil =>
          obtain ⟨rfl, rfl⟩ := List.cons.inj hw
          rw [blockend_some hspn']
          cases hk : blockcount braktype brak d with
          | none =>
            rw [hk] at h
            rw [← List.append_cancel_right (show [] ++ d :: t = z ++ d :: t from h)]
            rfl
          | some k =>
            rw [hk] at h
            exact absurd h
              (not_suffix_self ((blockend_suffix _ _ _).trans ((blockskip_scans d).suffix t)))
        | cons d' w =>
          rw [List.cons_append] at hw hspn'
          obtain ⟨rfl, rfl⟩ := List.cons.inj hw
          rw [blockend_some hspn']
          cases hk : blockcount braktype brak d with
          | none =>
            rw [hk] at h
            exact congrArg (· ++ c :: r') (List.append_cancel_right (show (d :: w) ++ _ = _ from h))
          | some k =>
            rw [hk, Option.elim_some] at h
            have hlen' : (c :: r).length ≤ (blockskip d (w ++ c :: r)).length := by
              have hle := (blockend_suffix braktype k (blockskip d (w ++ c :: r))).length_le
              rw [h, List.length_append] at hle
              omega
            obtain ⟨v, hv, hvw⟩ := exists_append ((blockskip_scans d).suffix _) rfl hlen'
            have hless : v.length < n := by
              have hle := hvw.length_le
              have hle' := hwy.length_le
              rw [List.length_cons] at hle'
              omega
            rw [Option.elim_some, (blockskip_scans d).ahead hv r']
            rw [hv] at h
            exact ih v.length hless k h rfl

end Blocks

/-! ## Blanks and comments -/

theorem iscomment_cons (c : UInt8) (s : Text) :
    iscomment (c :: s) = true ↔ c = chr '/' ∧ s.head? = some (chr '/') := by
  have hword : word "//" = [chr '/', chr '/'] := rfl
  unfold iscomment
  rw [decide_eq_true_iff, hword]
  cases s <;> simp

theorem iscomment_nil : iscomment [] = false := rfl

theorem slash_nil : ([] : Text).head? ≠ some (chr '/') := fun h => by cases h

/-- If a comment begins depends on two characters. -/
theorem iscomment_change {c : UInt8} {w r r' : Text}
    (h : w = [] → (r.head? = some (chr '/') ↔ r'.head? = some (chr '/'))) :
    iscomment (c :: (w ++ r)) = iscomment (c :: (w ++ r')) := by
  rw [Bool.eq_iff_iff, iscomment_cons, iscomment_cons]
  cases w with
  | nil => rw [List.nil_append, List.nil_append, h rfl]
  | cons d w => rfl

variable {y z r r' u u' : Text}

/-- **Blanks and comments** before a place are passed whatever is behind it. -/
theorem skiplist_change (h : skiplist (y ++ r) = z ++ r) (hz : z ≠ [] ∨ r' = [])
    (hr' : r'.head? ≠ some (chr '/')) : skiplist (y ++ r') = z ++ r' := by
  induction hn : y.length using Nat.strong_induction_on generalizing y with
  | _ n ih =>
    have hsuffix : z ++ r <:+ strspn " \t\r\n" (y ++ r) := by
      rw [← h, skiplist]
      split
      · exact (skiplist_suffix _).trans (strcspn_suffix _ _)
      · exact List.suffix_rfl
    have hlen : z.length + r.length ≤ (strspn " \t\r\n" (y ++ r)).length := by
      rw [← List.length_append]
      exact hsuffix.length_le
    obtain ⟨w, hw, hwy⟩ := exists_append (strspn_suffix " \t\r\n" (y ++ r)) rfl (by omega)
    have hzw : z.length ≤ w.length := by
      rw [hw, List.length_append] at hlen
      omega
    have hw' : strspn " \t\r\n" (y ++ r') = w ++ r' :=
      dropWhile_change hw (hz.imp_left fun hz hw => hz (by simpa [hw] using hzw))
    rw [skiplist, hw] at h
    rw [skiplist, hw']
    split at h
    · rename_i hcom
      have hlen' : z.length + r.length ≤ (strcspn "\n" (w ++ r)).length := by
        rw [← List.length_append, ← h]
        exact (skiplist_suffix _).length_le
      obtain ⟨v, hv, hvw⟩ := exists_append (strcspn_suffix "\n" (w ++ r)) rfl (by omega)
      have hzv : z.length ≤ v.length := by
        rw [hv, List.length_append] at hlen'
        omega
      have hless : v.length < w.length := by
        have hlt := strcspn_comment hcom
        rw [hv, List.length_append, List.length_append] at hlt
        omega
      have hcom' : iscomment (w ++ r') = true := by
        cases w with
        | nil => exact absurd hless (Nat.not_lt_zero _)
        | cons c w =>
          cases w with
          | nil =>
            -- the comment would have to begin in what is behind the place
            exfalso
            obtain ⟨rfl, hr⟩ := (iscomment_cons c r).mp hcom
            obtain ⟨r, rfl⟩ := List.head?_eq_some_iff.mp hr
            have hdrop : strcspn "\n" ([chr '/'] ++ chr '/' :: r) = strcspn "\n" r :=
              (List.dropWhile_cons_of_pos (by decide)).trans
                (List.dropWhile_cons_of_pos (by decide))
            exact not_suffix_self (hdrop ▸ strcspn_suffix "\n" r) hv
          | cons d w =>
            rw [← hcom]
            exact iscomment_change fun h => by cases h
      have hv' : strcspn "\n" (w ++ r') = v ++ r' :=
        dropWhile_change hv (hz.imp_left fun hz hv => hz (by simpa [hv] using hzv))
      rw [hv] at h
      rw [if_pos hcom', hv']
      exact ih v.length (by have := hwy.length_le; omega) h rfl
    · rename_i hcom
      obtain rfl := List.append_cancel_right h
      rw [if_neg]
      cases w with
      | nil =>
        obtain hz | rfl := hz
        · exact absurd rfl hz
        · decide
      | cons c w =>
        rw [List.cons_append, iscomment_cons]
        rintro ⟨rfl, hhead⟩
        cases w with
        | nil => exact hr' hhead
        | cons d w => exact hcom ((iscomment_cons _ _).mpr ⟨rfl, hhead⟩)

/-- **A word** ends where it did if it would end there at once. -/
theorem parsewordin_change (hstop : ∀ b, parsewordin b u = u → parsewordin b u' = u')
    (hslash : u'.head? = some (chr '/') → u.head? = some (chr '/')) (y : Text) :
    ∀ b, parsewordin b (y ++ u) = u → parsewordin b (y ++ u') = u' := by
  induction y with
  | nil => exact hstop
  | cons c y ih =>
    intro b h
    have hne : c :: (y ++ u) ≠ u := fun h => by
      have hlen := congrArg List.length h
      rw [List.length_cons, List.length_append] at hlen
      omega
    rw [List.cons_append, parsewordin] at h ⊢
    split at h
    · exact absurd h hne
    · rename_i hc
      rw [if_neg hc]
      split at h
      · rename_i hc
        rw [if_pos hc]
        split at h
        · exact absurd h hne
        · rename_i hhead
          rw [if_neg]
          · exact ih b h
          · intro hhead'
            cases y with
            | nil => exact hhead (hslash hhead')
            | cons d y => exact hhead hhead'
      · rename_i hc
        rw [if_neg hc]
        split at h
        · rename_i hc
          rw [if_pos hc]
          split at h
          · exact absurd h hne
          · rename_i hfull
            rw [if_neg hfull]
            exact ih _ h
        · rename_i hc
          rw [if_neg hc]
          split at h
          · rename_i hc
            rw [if_pos hc]
            split at h
            · rename_i hopen
              rw [if_pos hopen]
              exact ih _ h
            · exact absurd h hne
          · rename_i hc
            rw [if_neg hc]
            split at h
            · rename_i hc
              rw [if_pos hc]
              split at h
              · rename_i hopen
                rw [if_pos hopen]
                exact ih _ h
              · exact absurd h hne
            · rename_i hc
              rw [if_neg hc]
              exact ih b h

theorem parsewordin_head {c : UInt8} (hcom : iscomment (c :: r') = iscomment (c :: r)) (b : Text)
    (h : parsewordin b (c :: r) = c :: r) : parsewordin b (c :: r') = c :: r' := by
  have hne : ∀ b, parsewordin b r ≠ c :: r := fun b h => by
    have hle := (parsewordin_suffix b r).length_le
    rw [h, List.length_cons] at hle
    exact Nat.not_succ_le_self _ hle
  have hslash : c = chr '/' → (r'.head? = some (chr '/') ↔ r.head? = some (chr '/')) := by
    intro hc
    rw [Bool.eq_iff_iff, iscomment_cons, iscomment_cons] at hcom
    exact ⟨fun hhead => (hcom.mp ⟨hc, hhead⟩).2, fun hhead => (hcom.mpr ⟨hc, hhead⟩).2⟩
  rw [parsewordin] at h ⊢
  split at h
  · rename_i hc
    rw [if_pos hc]
  · rename_i hc
    rw [if_neg hc]
    split at h
    · rename_i hc
      rw [if_pos hc]
      split at h
      · rename_i hhead
        rw [if_pos ((hslash hc).mpr hhead)]
      · exact absurd h (hne _)
    · rename_i hc
      rw [if_neg hc]
      split at h
      · rename_i hc
        rw [if_pos hc]
        split at h
        · rename_i hfull
          rw [if_pos hfull]
        · exact absurd h (hne _)
      · rename_i hc
        rw [if_neg hc]
        split at h
        · rename_i hc
          rw [if_pos hc]
          split at h
          · exact absurd h (hne _)
          · rename_i hopen
            rw [if_neg hopen]
        · rename_i hc
          rw [if_neg hc]
          split at h
          · rename_i hc
            rw [if_pos hc]
            split at h
            · exact absurd h (hne _)
            · rename_i hopen
              rw [if_neg hopen]
          · exact absurd h (hne _)

/-- **A string** that ends at the end of a line ends at the end of the text, too. -/
theorem parsestring_ended (h : parsestring (y ++ u) = u) : parsestring y = [] := by
  induction hn : y.length using Nat.strong_induction_on generalizing y with
  | _ n ih =>
    match y, hn with
    | [], _ => rfl
    | c :: y, hn =>
      have hy : y.length < n := by
        rw [← hn, List.length_cons]
        exact Nat.lt_succ_self _
      rw [List.cons_append, parsestring_cons] at h
      rw [parsestring_cons]
      split at h
      · exact absurd h fun h => by
          have hlen := congrArg List.length h
          rw [List.length_cons, List.length_append] at hlen
          omega
      · rename_i hc
        rw [if_neg hc]
        split at h
        · rename_i hesc
          rw [if_pos hesc]
          cases y with
          | nil => rfl
          | cons d y => exact ih y.length (Nat.lt_of_succ_lt hy) h rfl
        · rename_i hesc
          rw [if_neg hesc]
          exact ih y.length hy h rfl

/-! ## Elements -/

theorem upto_append (x q : Text) : upto (x ++ q) q = x := by
  unfold upto
  rw [List.length_append, Nat.add_sub_cancel, List.take_left]

theorem upto_eq {p q : Text} (h : q <:+ p) : upto p q ++ q = p := by
  obtain ⟨x, rfl⟩ := h
  rw [upto_append]

namespace Item

/-- It begins with a quotation mark or a bracket, and does not end with one. -/
def Open (e : Item) : Prop := e.start ≠ e.quotestart ∧ e.stop = e.quoteend

instance : DecidablePred Open := fun _ => inferInstanceAs (Decidable (_ ∧ _))

/-- The texts. -/
def parts (e : Item) : Text × Text := (e.text, e.quoted)

/-- What may come behind an element. -/
inductive Behind (e : Item) : Text → Prop
  | ended (h : e.quoted ≠ []) : Behind e []
  | blank (h : e.quoted ≠ []) (hopen : ¬ e.Open) (r : Text) : Behind e (chr ' ' :: r)
  | same {c : UInt8} {r : Text} (h : e.quoteend = c :: r) (r' : Text)
      (hcom : iscomment (c :: r') = iscomment (c :: r)) : Behind e (c :: r')

/-- The same element before something else. -/
structure Same (e e' : Item) (u' : Text) : Prop where
  parts : e'.parts = e.parts
  quoteend : e'.quoteend = u'
  open_iff : e'.Open ↔ e.Open

end Item

theorem parseitem_eq {s : Text} {e : Item} (h : parseitem s = some e) :
    s = e.quoted ++ e.quoteend := by
  obtain ⟨hstart, h₁, h₂, h₃⟩ := parseitem_within h
  unfold Item.quoted
  rw [hstart, upto_eq (h₃.trans (h₂.trans h₁))]

theorem Item.parts_eq {e : Item} {x q : Text} (h : e.start = x ++ e.stop)
    (h' : e.quotestart = q ++ e.quoteend) : e.parts = (x, q) := by
  unfold Item.parts Item.text Item.quoted
  rw [h, h', upto_append, upto_append]

theorem Item.quoted_eq {e : Item} {q : Text} (h : e.quotestart = q ++ e.quoteend) : e.quoted = q := by
  unfold Item.quoted
  rw [h, upto_append]

/-- A string before something else. -/
theorem string_behind {s : Text} {e : Item}
    (he : e = ⟨s, parsestring s, chr '"' :: s, skipquote (parsestring s)⟩) (hu : e.Behind u') :
    ∃ e', parseitem (e.quoted ++ u') = some e' ∧ Item.Same e e' u' := by
  obtain ⟨y, hy⟩ := parsestring_suffix s
  have hitem : ∀ s, parseitem (chr '"' :: s) =
      some ⟨s, parsestring s, chr '"' :: s, skipquote (parsestring s)⟩ := fun s => rfl
  by_cases hclosed : (parsestring s).head? = some (chr '"')
  · obtain ⟨u, hstop⟩ := List.head?_eq_some_iff.mp hclosed
    rw [hstop] at hy
    have hs : parsestring (y ++ chr '"' :: u) = [] ++ chr '"' :: u := by rw [hy, hstop, List.nil_append]
    have hs' : parsestring (y ++ chr '"' :: u') = chr '"' :: u' := parsestring_scans.ahead hs u'
    have hparts : e.parts = (y, chr '"' :: (y ++ [chr '"'])) :=
      Item.parts_eq (by rw [he, hstop, hy]) (by rw [he, hstop, ← hy]; simp [skipquote])
    have hquoted : e.quoted ++ u' = chr '"' :: (y ++ chr '"' :: u') := by
      rw [(Prod.mk.inj hparts).2]
      simp
    refine ⟨_, (congrArg parseitem hquoted).trans (hitem _), ?_, ?_, ?_⟩
    · rw [hparts]
      exact Item.parts_eq (by rw [hs']) (by simp [hs', skipquote])
    · simp [hs', skipquote]
    · unfold Item.Open
      rw [he, hs', hstop]
      simp [skipquote]
  · have hend : skipquote (parsestring s) = parsestring s := if_neg hclosed
    have hopen : e.Open := by
      rw [he]
      exact ⟨fun h => by simpa using congrArg List.length h, hend.symm⟩
    have hparts : e.parts = (y, chr '"' :: y) :=
      Item.parts_eq (by rw [he, hy]) (by rw [he, hend, List.cons_append, hy])
    have hquoted : e.quoted ++ u' = chr '"' :: (y ++ u') := by
      rw [(Prod.mk.inj hparts).2, List.cons_append]
    obtain ⟨hs', hend'⟩ : parsestring (y ++ u') = u' ∧ skipquote u' = u' := by
      cases hu with
      | ended =>
        have hs : parsestring (y ++ parsestring s) = parsestring s := by rw [hy]
        rw [List.append_nil]
        exact ⟨parsestring_ended hs, rfl⟩
      | blank _ h => exact absurd hopen h
      | @same c r h r' _ =>
        rw [he] at h
        dsimp only at h
        rw [hend] at h
        have hs : parsestring (y ++ c :: r) = [] ++ c :: r := by rw [← h, hy, List.nil_append]
        refine ⟨parsestring_scans.ahead hs r', if_neg ?_⟩
        rw [h] at hclosed
        exact hclosed
    refine ⟨_, (congrArg parseitem hquoted).trans (hitem _), ?_, ?_, ?_⟩
    · rw [hparts]
      exact Item.parts_eq (by rw [hs']) (by simp [hs', hend'])
    · simp [hs', hend']
    · refine ⟨fun _ => hopen, fun _ => ⟨fun h => ?_, ?_⟩⟩
      · simpa using congrArg List.length h
      · simp [hs', hend']

/-- A block before something else. -/
theorem block_behind {b : UInt8} {s : Text} {e : Item} (hb : b = chr '(' ∨ b = chr '[')
    (he : e = ⟨s, blockend b 1 s, b :: s, (blockend b 1 s).tail⟩) (hu : e.Behind u') :
    ∃ e', parseitem (e.quoted ++ u') = some e' ∧ Item.Same e e' u' := by
  obtain ⟨y, hy⟩ := blockend_suffix b 1 s
  have hquote : b ≠ chr '"' := by
    obtain rfl | rfl := hb
    · decide
    · decide
  have hitem : ∀ s, parseitem (b :: s) = some ⟨s, blockend b 1 s, b :: s, (blockend b 1 s).tail⟩ :=
    fun s => by rw [parseitem, if_neg hquote, if_pos hb]
  cases hstop : blockend b 1 s with
  | nil =>
    have hopen : e.Open := by
      rw [he, hstop]
      exact ⟨fun h => by simpa using congrArg List.length h, rfl⟩
    have hquoted : e.quoted = b :: s := Item.quoted_eq (by rw [he, hstop]; simp)
    have hu' : u' = [] := by
      cases hu with
      | ended => rfl
      | blank _ h => exact absurd hopen h
      | same h =>
        rw [he, hstop] at h
        cases h
    subst hu'
    rw [hquoted, List.append_nil, hitem, ← he]
    exact ⟨e, rfl, rfl, by rw [he, hstop]; rfl, Iff.rfl⟩
  | cons d u =>
    rw [hstop] at hy
    have hs : blockend b 1 (y ++ d :: u) = [] ++ d :: u := by rw [hy, hstop, List.nil_append]
    have hs' : blockend b 1 (y ++ d :: u') = d :: u' := (blockend_scans b 1).ahead hs u'
    have hparts : e.parts = (y, b :: (y ++ [d])) :=
      Item.parts_eq (by rw [he, hstop, hy]) (by rw [he, hstop, ← hy]; simp)
    have hquoted : e.quoted ++ u' = b :: (y ++ d :: u') := by
      rw [(Prod.mk.inj hparts).2]
      simp
    refine ⟨_, (congrArg parseitem hquoted).trans (hitem _), ?_, ?_, ?_⟩
    · rw [hparts]
      exact Item.parts_eq (by rw [hs']) (by simp [hs'])
    · simp [hs']
    · unfold Item.Open
      rw [he, hs', hstop]
      simp

/-- A word before something else. -/
theorem word_behind {c : UInt8} {s : Text} {e : Item} (hquote : c ≠ chr '"')
    (hopen : ¬(c = chr '(' ∨ c = chr '[')) (hclose : ¬(c = chr ')' ∨ c = chr ']'))
    (he : e = ⟨c :: s, parseword (c :: s), c :: s, parseword (c :: s)⟩) (hu : e.Behind u') :
    ∃ e', parseitem (e.quoted ++ u') = some e' ∧ Item.Same e e' u' := by
  obtain ⟨y, hy⟩ : parseword (c :: s) <:+ c :: s := parsewordin_suffix [] (c :: s)
  have hitem : ∀ s, parseitem (c :: s) =
      some ⟨c :: s, parseword (c :: s), c :: s, parseword (c :: s)⟩ :=
    fun s => by rw [parseitem, if_neg hquote, if_neg hopen, if_neg hclose]
  have hparts : e.parts = (y, y) := Item.parts_eq (by rw [he]; exact hy.symm) (by rw [he]; exact hy.symm)
  have hquoted : e.quoted = y := (Prod.mk.inj hparts).2
  have hclosed : ¬ e.Open := fun h => h.1 (by rw [he])
  have hword : parsewordin [] (y ++ parseword (c :: s)) = parseword (c :: s) := congrArg _ hy
  -- what comes behind ends the word and does not begin it
  obtain ⟨hstop, hslash, s', hs'⟩ : (∀ b, parsewordin b (parseword (c :: s)) = parseword (c :: s) →
      parsewordin b u' = u') ∧ (u'.head? = some (chr '/') →
        (parseword (c :: s)).head? = some (chr '/')) ∧ ∃ s', y ++ u' = c :: s' := by
    have hcons : y ≠ [] → ∃ s', y ++ u' = c :: s' := by
      intro hne
      cases y with
      | nil => exact absurd rfl hne
      | cons d y =>
        obtain rfl := (List.cons.inj hy).1
        exact ⟨y ++ u', rfl⟩
    cases hu with
    | ended h => exact ⟨fun _ _ => rfl, (fun h => by cases h), hcons (hquoted ▸ h)⟩
    | blank h _ r =>
      refine ⟨fun b _ => ?_, fun h => absurd (Option.some.inj h) (by decide), hcons (hquoted ▸ h)⟩
      rw [parsewordin, if_pos (by decide)]
    | @same d r h r' hcom =>
      rw [he] at h
      dsimp only at h
      rw [h] at hy ⊢
      refine ⟨fun b => parsewordin_head hcom b, fun h => h, ?_⟩
      cases y with
      | nil =>
        obtain rfl := (List.cons.inj hy).1
        exact ⟨r', rfl⟩
      | cons c' y =>
        obtain rfl := (List.cons.inj hy).1
        exact ⟨y ++ d :: r', rfl⟩
  have hword' : parseword (c :: s') = u' := by
    rw [← hs']
    exact parsewordin_change hstop hslash y [] hword
  refine ⟨_, by rw [hquoted, hs', hitem], ?_, hword', ?_⟩
  · rw [hparts]
    exact Item.parts_eq (by rw [hword', hs']) (by rw [hword', hs'])
  · exact iff_of_false (fun h => h.1 rfl) hclosed

/-- **An element** is the same before something else. -/
theorem parseitem_behind {s : Text} {e : Item} (h : parseitem s = some e) (hu : e.Behind u') :
    ∃ e', parseitem (e.quoted ++ u') = some e' ∧ Item.Same e e' u' := by
  cases s with
  | nil => cases h
  | cons c s =>
    rw [parseitem] at h
    split at h
    · rename_i hc
      subst hc
      exact string_behind (Option.some.inj h).symm hu
    · rename_i hquote
      split at h
      · rename_i hopen
        exact block_behind hopen (Option.some.inj h).symm hu
      · rename_i hopen
        split at h
        · cases h
        · rename_i hclose
          exact word_behind hquote hopen hclose (Option.some.inj h).symm hu

/-! ## Places in lists -/

theorem skiplist_self {c : UInt8} {s : Text} (hc : c ∉ word " \t\r\n")
    (hcom : iscomment (c :: s) = false) : skiplist (c :: s) = c :: s := by
  have hspn : strspn " \t\r\n" (c :: s) = c :: s := List.dropWhile_cons_of_neg (by simpa using hc)
  rw [skiplist, hspn, if_neg (by rw [hcom]; exact Bool.false_ne_true)]

theorem skiplist_blank (s : Text) : skiplist (chr ' ' :: s) = skiplist s := by
  have hspn : strspn " \t\r\n" (chr ' ' :: s) = strspn " \t\r\n" s :=
    List.dropWhile_cons_of_pos (by decide)
  rw [skiplist, hspn, ← skiplist]

theorem skiplist_semicolon (s : Text) : skiplist (chr ';' :: s) = chr ';' :: s := by
  refine skiplist_self (by decide) ?_
  rw [Bool.eq_false_iff]
  exact fun h => absurd ((iscomment_cons _ _).mp h).1 (by decide)

/-- A comment is longer than the two characters before it. -/
theorem length_skiplist_comment {c : UInt8} {s : Text} (h : iscomment (c :: s) = true) :
    (skiplist (c :: s)).length < s.length := by
  obtain ⟨rfl, hs⟩ := (iscomment_cons c s).mp h
  obtain ⟨s, rfl⟩ := List.head?_eq_some_iff.mp hs
  have hspn : strspn " \t\r\n" (chr '/' :: chr '/' :: s) = chr '/' :: chr '/' :: s :=
    List.dropWhile_cons_of_neg (by decide)
  have hcspn : strcspn "\n" (chr '/' :: chr '/' :: s) = strcspn "\n" s :=
    (List.dropWhile_cons_of_pos (by decide)).trans (List.dropWhile_cons_of_pos (by decide))
  rw [skiplist, hspn, if_pos h, hcspn, List.length_cons]
  exact Nat.lt_succ_of_le ((skiplist_suffix _).trans (strcspn_suffix "\n" s)).length_le

theorem skipsemi_semicolon {s t : Text} (h : skiplist s = chr ';' :: t) : skipsemi s = t := by
  unfold skipsemi
  dsimp only
  rw [h, List.head?_cons, if_pos rfl, List.tail_cons]

theorem skipsemi_other {s : Text} (h : (skiplist s).head? ≠ some (chr ';')) :
    skipsemi s = skiplist s := by
  unfold skipsemi
  dsimp only
  rw [if_neg h]

/-- A separator before a place is passed whatever is behind it. -/
theorem skipsemi_change {v : Text} (h : skipsemi (v ++ r) = z ++ r)
    (hz : z ≠ [] ∨ r.head? = some (chr ';')) (hr' : r'.head? ≠ some (chr '/')) :
    skipsemi (v ++ r') = z ++ r' := by
  by_cases hsemi : (skiplist (v ++ r)).head? = some (chr ';')
  · obtain ⟨t, ht⟩ := List.head?_eq_some_iff.mp hsemi
    rw [skipsemi_semicolon ht] at h
    subst h
    have hskip : skiplist (v ++ r) = (chr ';' :: z) ++ r := ht
    exact skipsemi_semicolon (skiplist_change hskip (Or.inl (List.cons_ne_nil _ _)) hr')
  · rw [skipsemi_other hsemi] at h
    rw [h] at hsemi
    cases z with
    | nil => exact absurd (hz.resolve_left fun h => h rfl) hsemi
    | cons c z =>
      have hskip := skiplist_change h (Or.inl (List.cons_ne_nil c z)) hr'
      rw [skipsemi_other (by rw [hskip]; exact hsemi), hskip]

theorem parselist_congr {s s' : Text} (h : skiplist s = skiplist s') : parselist s = parselist s' := by
  unfold parselist
  rw [h]

theorem Elements.of_skiplist {s s' : Text} {es : List Item} (h : Elements s es)
    (hs : skiplist s = skiplist s') : Elements s' es := by
  cases h with
  | done h => exact .done (parselist_congr hs ▸ h)
  | next h hr => exact .next (parselist_congr hs ▸ h) hr

theorem parselist_skiplist {s t : Text} {e : Item} (h : parselist s = some (e, t)) :
    skiplist s = e.quoted ++ e.quoteend := parseitem_eq (parselist_eq_some h).1

/-- **A call** finds the same element before something else. -/
theorem parselist_behind {s s' t : Text} {e : Item} (h : parselist s = some (e, t))
    (hs' : skiplist s' = e.quoted ++ u') (hu : e.Behind u') :
    ∃ e', parselist s' = some (e', skipsemi u') ∧ Item.Same e e' u' := by
  obtain ⟨e', he', hsame⟩ := parseitem_behind (parselist_eq_some h).1 hu
  refine ⟨e', ?_, hsame⟩
  unfold parselist
  rw [hs', he', Option.map_some, hsame.quoteend]

/-- An element at a semicolon. -/
theorem bare_iff {s t : Text} {e : Item} (h : parselist s = some (e, t))
    (hat : t.head? ≠ some (chr '@')) : e.quoted = [] ↔ (skiplist s).head? = some (chr ';') := by
  obtain ⟨he, ht⟩ := parselist_eq_some h
  have hs := parseitem_eq he
  constructor
  · intro hq
    rw [hq, List.nil_append] at hs
    obtain hlt | ⟨-, hsemi | hat'⟩ := parseitem_progress he (skiplist_idem s)
    · rw [hs] at hlt
      exact absurd hlt (Nat.lt_irrefl _)
    · exact hsemi
    · have hskip := skiplist_idem s
      rw [hs] at hat' hskip
      rw [skipsemi_of_at hskip hat'] at ht
      rw [ht] at hat
      exact absurd hat' hat
  · intro hsemi
    obtain ⟨w, hw⟩ := List.head?_eq_some_iff.mp hsemi
    rw [hw] at he
    have hitem : parseitem (chr ';' :: w) =
        some ⟨chr ';' :: w, chr ';' :: w, chr ';' :: w, chr ';' :: w⟩ := rfl
    rw [hitem] at he
    cases he
    exact upto_append [] (chr ';' :: w)

/-- The first element of a list does not begin at a semicolon unless it is empty. -/
theorem Elements.head_semicolon {s : Text} {es : List Item} (h : Elements s es)
    (hfirst : ∀ e ∈ es.head?, e.quoted ≠ []) : (skiplist s).head? ≠ some (chr ';') := by
  cases h with
  | done h =>
    intro hsemi
    obtain ⟨w, hw⟩ := List.head?_eq_some_iff.mp hsemi
    unfold parselist at h
    rw [hw] at h
    cases h
  | next h hr =>
    intro hsemi
    exact hfirst _ rfl ((bare_iff h hr.head_ne).mpr hsemi)

/-- The elements lie in the text. -/
theorem Elements.suffix {s : Text} {es : List Item} (h : Elements s es) {e : Item} (he : e ∈ es) :
    e.quoted ++ e.quoteend <:+ s := by
  induction h with
  | done => cases he
  | next h _ ih =>
    obtain rfl | he := List.mem_cons.mp he
    · rw [← parselist_skiplist h]
      exact skiplist_suffix _
    · exact (ih he).trans (parselist_suffix h)

theorem Elements.bare_semicolon {s : Text} {es : List Item} (h : Elements s es) {e : Item}
    (he : e ∈ es) (hq : e.quoted = []) : e.quoteend.head? = some (chr ';') := by
  induction h with
  | done => cases he
  | next h hr ih =>
    obtain rfl | he := List.mem_cons.mp he
    · have hs := parselist_skiplist h
      rw [hq, List.nil_append] at hs
      rw [← hs]
      exact (bare_iff h hr.head_ne).mp hq
    · exact ih he

/-- **What is behind an element** is changed, and what is before it stays. -/
theorem parselist_change {x : Text} {e : Item} (h : parselist (x ++ r) = some (e, z ++ r))
    (hz : z ≠ [] ∨ r.head? = some (chr ';')) (hr' : r'.head? ≠ some (chr '/')) :
    ∃ e', parselist (x ++ r') = some (e', z ++ r') ∧ e'.parts = e.parts ∧ (e'.Open ↔ e.Open) ∧
      e'.quoteend ≠ [] := by
  obtain ⟨he, ht⟩ := parselist_eq_some h
  have hs := parseitem_eq he
  have hsuffix : e.quoteend <:+ x ++ r :=
    (List.suffix_append e.quoted e.quoteend).trans (hs ▸ skiplist_suffix _)
  have hlen : z.length + r.length ≤ e.quoteend.length := by
    rw [← List.length_append, ht]
    exact (skipsemi_suffix _).length_le
  obtain ⟨v, hv, -⟩ := exists_append hsuffix rfl (by omega)
  rw [hv] at ht hlen
  have hsemi : skipsemi (v ++ r') = z ++ r' := skipsemi_change ht.symm hz hr'
  cases v with
  | nil =>
    -- the separator would have been passed, too
    exfalso
    rw [List.nil_append] at ht hlen
    obtain rfl := List.length_eq_zero_iff.mp (show z.length = 0 by omega)
    obtain ⟨w, hw⟩ := List.head?_eq_some_iff.mp (hz.resolve_left fun h => h rfl)
    rw [hw, skipsemi_semicolon (skiplist_semicolon w), List.nil_append] at ht
    exact absurd (congrArg List.length ht) (Nat.succ_ne_self _)
  | cons c v =>
    have hskip : skiplist (x ++ r) = (e.quoted ++ c :: v) ++ r := by rw [hs, hv, List.append_assoc]
    have hskip' := skiplist_change hskip (Or.inl (by simp)) hr'
    rw [List.append_assoc] at hskip'
    have hcom : iscomment (c :: (v ++ r')) = iscomment (c :: (v ++ r)) := by
      cases v with
      | cons d v => exact iscomment_change fun h => by cases h
      | nil =>
        have hnot' : iscomment (c :: r') = false := by
          rw [Bool.eq_false_iff]
          exact fun h => hr' ((iscomment_cons c r').mp h).2
        have hnot : iscomment (c :: r) = false := by
          rw [Bool.eq_false_iff]
          intro hcom
          have hlt := length_skiplist_comment hcom
          have hle := congrArg List.length ht
          have hle' : (skipsemi ([c] ++ r)).length ≤ (skiplist (c :: r)).length := by
            unfold skipsemi
            dsimp only
            split
            · exact (List.tail_suffix _).length_le
            · exact Nat.le_refl _
          rw [List.length_append] at hle
          omega
        exact hnot'.trans hnot.symm
    obtain ⟨e', he', hsame⟩ := parselist_behind h hskip' (.same hv (v ++ r') hcom)
    rw [hsemi] at he'
    refine ⟨e', he', hsame.parts, hsame.open_iff, ?_⟩
    rw [hsame.quoteend]
    exact List.cons_ne_nil _ _

/-! ## The beginning of a list -/

/-- Nothing is behind an element, and it is the same. -/
theorem parselist_ended {x : Text} {e : Item} {t : Text} (h : parselist (x ++ e.quoteend) = some (e, t))
    (hq : e.quoted ≠ []) : ∃ e', parselist x = some (e', []) ∧ Item.Same e e' [] := by
  have hskip := skiplist_change (parselist_skiplist h) (Or.inl hq) slash_nil
  rw [List.append_nil] at hskip
  obtain ⟨e', he', hsame⟩ := parselist_behind h hskip (.ended hq)
  have hnil : skipsemi [] = [] := by
    rw [skipsemi_other] <;> simp [skiplist, strspn, iscomment_nil]
  rw [hnil] at he'
  exact ⟨e', he', hsame⟩

theorem parselist_nil : parselist [] = none := by
  have hskip : skiplist [] = [] := by simp [skiplist, strspn, iscomment_nil]
  unfold parselist
  rw [hskip]
  rfl

/-- **The text up to the end of an element** has the elements up to this one. -/
theorem Elements.upto_closed {s : Text} {as bs : List Item} {e : Item} (h : Elements s (as ++ e :: bs))
    (hq : e.quoted ≠ []) {x : Text} (hs : s = x ++ e.quoteend) :
    ∃ gs g, Elements x (gs ++ [g]) ∧ gs.map Item.parts = as.map Item.parts ∧ Item.Same e g [] ∧
      ∀ a ∈ gs, a.quoteend ≠ [] := by
  induction as generalizing s x with
  | nil =>
    subst hs
    cases h with
    | next h _ =>
      obtain ⟨g, hg, hsame⟩ := parselist_ended h hq
      exact ⟨[], g, .next hg (.done parselist_nil), rfl, hsame, by simp⟩
  | cons a as ih =>
    subst hs
    cases h with
    | @next _ t _ _ h hr =>
      obtain ⟨y, hy⟩ := hr.suffix (List.mem_append_right as List.mem_cons_self)
      rw [← List.append_assoc] at hy
      subst hy
      obtain ⟨a', ha', hparts, -, hend⟩ :=
        parselist_change h (Or.inl (by simp [hq])) slash_nil
      rw [List.append_nil, List.append_nil] at ha'
      obtain ⟨gs, g, hgs, hmap, hsame, hends⟩ := ih hr rfl
      refine ⟨a' :: gs, g, .next ha' hgs, ?_, hsame, List.forall_mem_cons.mpr ⟨hend, hends⟩⟩
      rw [List.map_cons, List.map_cons, hparts, hmap]

/-- **The text up to a semicolon** at which there is an element has those before it only. -/
theorem Elements.upto_bare {s : Text} {as bs : List Item} {e : Item} (h : Elements s (as ++ e :: bs))
    (hq : e.quoted = []) {x : Text} (hs : s = x ++ e.quoteend) :
    ∃ gs, Elements x gs ∧ gs.map Item.parts = as.map Item.parts := by
  induction as generalizing s x with
  | nil =>
    subst hs
    cases h with
    | next h _ =>
      have hskip : skiplist (x ++ e.quoteend) = [] ++ e.quoteend := by
        rw [parselist_skiplist h, hq]
      have hskip' := skiplist_change hskip (Or.inr rfl) slash_nil
      rw [List.append_nil, List.append_nil] at hskip'
      refine ⟨[], .done ?_, rfl⟩
      unfold parselist
      rw [hskip']
      rfl
  | cons a as ih =>
    subst hs
    cases h with
    | @next _ t _ _ h hr =>
      obtain ⟨y, hy⟩ := hr.suffix (List.mem_append_right as List.mem_cons_self)
      rw [hq, List.nil_append] at hy
      subst hy
      have hsemi := hr.bare_semicolon (List.mem_append_right as List.mem_cons_self) hq
      obtain ⟨a', ha', hparts, -, -⟩ :=
        parselist_change h (Or.inr hsemi) slash_nil
      rw [List.append_nil, List.append_nil] at ha'
      obtain ⟨gs, hgs, hmap⟩ := ih hr rfl
      refine ⟨a' :: gs, .next ha' hgs, ?_⟩
      rw [List.map_cons, List.map_cons, hparts, hmap]

/-! ## One list behind another -/

/-- What is put behind a text after a blank is read, although the text has no more elements. -/
def Blank (s : Text) : Prop := ∀ t, skiplist (s ++ chr ' ' :: t) = skiplist t

theorem blank_nil : Blank [] := skiplist_blank

/-- What is behind the last element of a list, or the list if it has none. -/
def behind (s : Text) (es : List Item) : Text := es.getLast?.elim s Item.quoteend

/-- A list can be put behind another after a blank: no element that the text ends with is open, and
behind the last one there is at most a separator. -/
structure Joinable (s : Text) (es : List Item) : Prop where
  closed : ∀ e ∈ es, e.quoteend = [] → ¬ e.Open
  trails : Blank (behind s es) ∨ ∃ t, skiplist (behind s es) = chr ';' :: t ∧ Blank t

theorem Joinable.tail {s t : Text} {e f : Item} {es : List Item} (h : Joinable s (e :: f :: es)) :
    Joinable t (f :: es) where
  closed := fun g hg => h.closed g (List.mem_cons_of_mem e hg)
  trails := by
    have hlast : behind t (f :: es) = behind s (e :: f :: es) := by
      rw [behind, behind, List.getLast?_cons_cons, List.getLast?_cons]
      rfl
    rw [hlast]
    exact h.trails

/-- The last element before another list. -/
theorem parselist_join {s t R : Text} {e : Item} (h : parselist s = some (e, t)) (hfit : Joinable s [e])
    (hR : (skiplist R).head? ≠ some (chr ';')) :
    ∃ e' t', parselist (s ++ chr ' ' :: R) = some (e', t') ∧ skiplist t' = skiplist R ∧
      e'.parts = e.parts := by
  have hne : e.quoted ++ e.quoteend ≠ [] := by
    rw [← parselist_skiplist h]
    intro hnil
    unfold parselist at h
    rw [hnil] at h
    cases h
  have hslash : (chr ' ' :: R).head? ≠ some (chr '/') := fun h =>
    absurd (Option.some.inj h) (by decide)
  have hskip : skiplist (s ++ chr ' ' :: R) = e.quoted ++ (e.quoteend ++ chr ' ' :: R) := by
    rw [← List.append_assoc]
    refine skiplist_change (r := []) ?_ (Or.inl hne) hslash
    rw [List.append_nil, List.append_nil, parselist_skiplist h]
  have hbehind : e.Behind (e.quoteend ++ chr ' ' :: R) := by
    cases hv : e.quoteend with
    | nil =>
      rw [hv, List.append_nil] at hne
      exact .blank hne (hfit.closed e (List.mem_singleton_self e) hv) R
    | cons c v =>
      refine .same hv _ ?_
      have hcom : iscomment (c :: (v ++ chr ' ' :: R)) = iscomment (c :: (v ++ [])) :=
        iscomment_change fun _ => iff_of_false hslash slash_nil
      rwa [List.append_nil] at hcom
  obtain ⟨e', he', hsame⟩ := parselist_behind h hskip hbehind
  refine ⟨e', _, he', ?_, hsame.parts⟩
  have htrails := hfit.trails
  have hlast : behind s [e] = e.quoteend := rfl
  rw [hlast] at htrails
  obtain hblank | ⟨w, hw, hblank⟩ := htrails
  · rw [skipsemi_other (by rwa [hblank R]), skiplist_idem, hblank R]
  · have hsemi : skiplist (e.quoteend ++ chr ' ' :: R) = (chr ';' :: w) ++ chr ' ' :: R := by
      refine skiplist_change (r := []) ?_ (Or.inl (List.cons_ne_nil _ _)) hslash
      rw [List.append_nil, List.append_nil, hw]
    rw [List.cons_append] at hsemi
    rw [skipsemi_semicolon hsemi, hblank R]

/-- **One list behind another**, with a blank between them, has the elements of both. -/
theorem Elements.join {s R : Text} {es fs : List Item} (h : Elements s es) (hfit : Joinable s es)
    (hR : Elements R fs) (hfirst : es ≠ [] → (skiplist R).head? ≠ some (chr ';')) :
    ∃ gs, Elements (s ++ chr ' ' :: R) gs ∧
      gs.map Item.parts = es.map Item.parts ++ fs.map Item.parts := by
  induction h with
  | @done s h =>
    have hblank : Blank s := by
      obtain hblank | ⟨t, ht, -⟩ := hfit.trails
      · exact hblank
      · have hs : skiplist s = chr ';' :: t := ht
        unfold parselist at h
        rw [hs] at h
        cases h
    exact ⟨fs, hR.of_skiplist (hblank R).symm, rfl⟩
  | @next s t e es h hr ih =>
    have hsemi := hfirst (List.cons_ne_nil e es)
    cases es with
    | nil =>
      obtain ⟨e', t', he', ht', hparts⟩ := parselist_join h hfit hsemi
      refine ⟨e' :: fs, .next he' (hR.of_skiplist ht'.symm), ?_⟩
      rw [List.map_cons, hparts]
      rfl
    | cons f es =>
      have ht : t ≠ [] := by
        rintro rfl
        cases hr with
        | next h _ =>
          rw [parselist_nil] at h
          cases h
      have h' : parselist (s ++ []) = some (e, t ++ []) := by
        rwa [List.append_nil, List.append_nil]
      have hslash : (chr ' ' :: R).head? ≠ some (chr '/') := fun h =>
        absurd (Option.some.inj h) (by decide)
      obtain ⟨e', he', hparts, -, -⟩ := parselist_change h' (Or.inl ht) hslash
      obtain ⟨gs, hgs, hmap⟩ := ih hfit.tail fun _ => hsemi
      refine ⟨e' :: gs, .next he' hgs, ?_⟩
      rw [List.map_cons, hparts, hmap]
      rfl

end Script

end QServ
