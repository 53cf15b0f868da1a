import Mathlib.Data.List.Basic
import Mathlib.Data.List.Nodup
import Mathlib.Data.List.Induction
import Mathlib.Tactic.Common

/-!
# Reverse index loops over a list that shrinks under them

A loop `for i = n - 1, …, 0` reads entry `i` of a list that its own body may
shorten.  Removing the entry just read is harmless: the entries still to come
keep their indices.  The danger is a body that removes more, and the case treated
here is the one where the list is kept alive by some of its entries, the
*anchors*: once the last anchor is removed the whole list is emptied.

* `revLoop`: the loop, with a fault for an index past the end of the list.
* `revLoop_rel`: what every turn keeps to, the loop keeps to.
* `revLoop_keep`: if an anchor survives the loop never faults, and it leaves
  exactly the entries that were not hit.
* `revLoop_collapse` and `revLoop_strand`: if every anchor is hit the list ends up
  empty when the first entry is an anchor, and the loop reads past the end when it
  is not.
* `revLoop_ok_iff`: the loop is safe exactly when the list is not `Stranded`.
-/

namespace ReverseLoop

variable {σ α ε : Type*}

/-- `for i = n - 1, …, 0`: read entry `i` of the list of the current state and run
the body on it, `oob` being the fault of reading past the end. -/
def revLoop (items : σ → List α) (oob : ε) (body : α → σ → Except ε σ) : Nat → σ → Except ε σ
  | 0, s => .ok s
  | i + 1, s =>
    match (items s)[i]? with
    | none => .error oob
    | some a => (body a s).bind (revLoop items oob body i)

/-- What a step on a hit entry leaves of the list: the others, or nothing at all once
no anchor is left among them. -/
def shrink [DecidableEq α] (anchor : α → Bool) (l : List α) (a : α) : List α :=
  if (l.erase a).any anchor then l.erase a else []

/-- Every anchor is hit, there is one, and an entry that is none stands first. -/
def Stranded (anchor hit : α → Bool) (l : List α) : Prop :=
  (∃ a ∈ l, anchor a) ∧ (∀ a ∈ l, anchor a → hit a) ∧ ∃ a ∈ l.head?, ¬ anchor a

/-- The body of a shrinking loop: under the invariant `I` a hit entry is removed by
`shrink`, any other entry leaves the list alone, and only anchors are hit. -/
structure Shrinks [DecidableEq α] (items : σ → List α) (body : α → σ → Except ε σ)
    (I : σ → Prop) (anchor hit : α → Bool) : Prop where
  anchored : ∀ a, hit a → anchor a
  step : ∀ s a, I s → a ∈ items s → ∃ s', body a s = .ok s' ∧ I s' ∧
    items s' = if hit a then shrink anchor (items s) a else items s

/-- **The rule for what a loop relates**: a reflexive and transitive relation that every
turn keeps to, under an invariant, relates the start and the end. -/
theorem revLoop_rel {items : σ → List α} {oob : ε} {body : α → σ → Except ε σ} (I : σ → Prop)
    (R : σ → σ → Prop) (hrefl : ∀ s, R s s) (htrans : ∀ s t u, R s t → R t u → R s u)
    (hbody : ∀ s a t, I s → a ∈ items s → body a s = .ok t → I t ∧ R s t) :
    ∀ (n : Nat) (s t : σ), I s → revLoop items oob body n s = .ok t → I t ∧ R s t := by
  intro n
  induction n with
  | zero =>
    intro s t hI hrun
    obtain rfl : s = t := Except.ok.inj hrun
    exact ⟨hI, hrefl s⟩
  | succ n ih =>
    intro s t hI hrun
    rw [revLoop] at hrun
    cases hget : (items s)[n]? with
    | none => rw [hget] at hrun; cases hrun
    | some a =>
      rw [hget] at hrun
      cases hb : body a s with
      | error e => simp only [hb] at hrun; cases hrun
      | ok u =>
        simp only [hb] at hrun
        obtain ⟨hIu, hRu⟩ := hbody s a u hI (List.mem_of_getElem? hget) hb
        obtain ⟨hIt, hRt⟩ := ih u t hIu hrun
        exact ⟨hIt, htrans s u t hRu hRt⟩

section

variable [DecidableEq α] {items : σ → List α} (oob : ε) {body : α → σ → Except ε σ}
  {I : σ → Prop} {anchor hit : α → Bool}

theorem erase_middle {P Q : List α} {a : α} (hnd : (P ++ [a] ++ Q).Nodup) :
    (P ++ [a] ++ Q).erase a = P ++ Q := by
  have ha : a ∉ P := by
    rw [List.append_assoc, List.nodup_append] at hnd
    intro h
    exact hnd.2.2 a h a (by simp) rfl
  rw [List.append_assoc, List.erase_append_right _ ha]
  simp

/-- One turn of the loop, at the last entry not yet visited. -/
theorem revLoop_turn (h : Shrinks items body I anchor hit) {P Q : List α} {a : α} {s : σ}
    (hI : I s) (hs : items s = P ++ [a] ++ Q) (hnd : (P ++ [a] ++ Q).Nodup) :
    ∃ s', revLoop items oob body (P.length + 1) s = revLoop items oob body P.length s' ∧ I s' ∧
      items s' = if hit a then (if (P ++ Q).any anchor then P ++ Q else []) else P ++ (a :: Q) := by
  have hget : (items s)[P.length]? = some a := by
    rw [hs, List.append_assoc]
    simp
  obtain ⟨s', hbody, hI', hs'⟩ := h.step s a hI (List.mem_of_getElem? hget)
  refine ⟨s', ?_, hI', ?_⟩
  · rw [revLoop, hget]
    simp only [hbody, Except.bind]
  · rw [hs', hs, shrink, erase_middle hnd]
    simp

/-- **With an anchor left over the loop is safe** and leaves the entries not hit; so it
does where there is no anchor, and hence no hit, at all. -/
theorem revLoop_keep (h : Shrinks items body I anchor hit) (P : List α) :
    ∀ (Q : List α) (s : σ), I s → items s = P ++ Q → (P ++ Q).Nodup →
      ((∃ a ∈ P.filter (fun a => !hit a) ++ Q, anchor a) ∨ ∀ a ∈ P, ¬ anchor a) →
      ∃ s', revLoop items oob body P.length s = .ok s' ∧ I s' ∧
        items s' = P.filter (fun a => !hit a) ++ Q := by
  induction P using List.reverseRecOn with
  | nil => intro Q s hI hs _ _; exact ⟨s, rfl, hI, by simpa using hs⟩
  | append_singleton P a ih =>
    intro Q s hI hs hnd hanchor
    rw [List.length_append, List.length_singleton]
    obtain ⟨s', hrun, hI', hs'⟩ := revLoop_turn oob h hI hs hnd
    rw [hrun]
    by_cases ha : hit a
    · have hfilter : (P ++ [a]).filter (fun a => !hit a) = P.filter (fun a => !hit a) := by
        simp [ha]
      rw [hfilter] at hanchor ⊢
      -- an anchor hit here, so an anchor must be left over elsewhere
      have hleft : ∃ b ∈ P.filter (fun a => !hit a) ++ Q, anchor b := by
        rcases hanchor with hb | hnone
        · exact hb
        · exact absurd (h.anchored a ha) (hnone a (by simp))
      obtain ⟨b, hb, hab⟩ := hleft
      have hany : (P ++ Q).any anchor = true := by
        rw [List.any_eq_true]
        refine ⟨b, ?_, hab⟩
        rcases List.mem_append.mp hb with hb | hb
        · exact List.mem_append_left _ (List.mem_of_mem_filter hb)
        · exact List.mem_append_right _ hb
      rw [if_pos ha, hany, if_pos rfl] at hs'
      refine ih Q s' hI' hs' ?_ (Or.inl ⟨b, hb, hab⟩)
      rw [← erase_middle hnd]
      exact hnd.erase a
    · have hfilter : (P ++ [a]).filter (fun a => !hit a) ++ Q =
          P.filter (fun a => !hit a) ++ a :: Q := by
        simp [ha]
      rw [hfilter] at hanchor ⊢
      rw [if_neg ha] at hs'
      refine ih (a :: Q) s' hI' hs' (by simpa using hnd) ?_
      rcases hanchor with hb | hnone
      · exact Or.inl hb
      · exact Or.inr fun b hb => hnone b (List.mem_append_left _ hb)

/-- Every anchor is hit and the first entry is one: the list is emptied by the very
last turn, so that nothing is read after that. -/
theorem revLoop_collapse (h : Shrinks items body I anchor hit) (b : α) (hb : anchor b)
    (P : List α) :
    ∀ (Q : List α) (s : σ), I s → items s = (b :: P) ++ Q → ((b :: P) ++ Q).Nodup →
      (∀ a ∈ Q, ¬ anchor a) → (∀ a ∈ b :: P, anchor a → hit a) →
      ∃ s', revLoop items oob body (b :: P).length s = .ok s' ∧ I s' ∧ items s' = [] := by
  induction P using List.reverseRecOn with
  | nil =>
    intro Q s hI hs hnd hQ hP
    obtain ⟨s', hrun, hI', hs'⟩ := revLoop_turn oob (P := []) h hI hs hnd
    refine ⟨s', hrun, hI', ?_⟩
    have hany : ([] ++ Q).any anchor = false := by
      rw [List.nil_append, List.any_eq_false]
      exact hQ
    rw [hs', if_pos (hP b (by simp) hb), hany]
    rfl
  | append_singleton P a ih =>
    intro Q s hI hs hnd hQ hP
    rw [← List.cons_append] at hs hnd
    rw [← List.cons_append, List.length_append, List.length_singleton]
    obtain ⟨s', hrun, hI', hs'⟩ := revLoop_turn oob h hI hs hnd
    rw [hrun]
    have hP' : ∀ c ∈ b :: P, anchor c → hit c := by
      intro c hc
      exact hP c (by rw [← List.cons_append]; exact List.mem_append_left _ hc)
    by_cases ha : hit a
    · have hany : (b :: P ++ Q).any anchor = true := List.any_eq_true.mpr ⟨b, by simp, hb⟩
      rw [if_pos ha, hany, if_pos rfl] at hs'
      refine ih Q s' hI' hs' ?_ hQ hP'
      rw [← erase_middle hnd]
      exact hnd.erase a
    · rw [if_neg ha] at hs'
      refine ih (a :: Q) s' hI' hs' (by simpa using hnd) ?_ hP'
      intro c hc hac
      rcases List.mem_cons.mp hc with rfl | hc
      · exact ha (hP c (by simp) hac)
      · exact hQ c hc hac

/-- Every anchor is hit and the first entry is none: the list is emptied while entries
below are still to come, and the next turn reads past its end. -/
theorem revLoop_strand (h : Shrinks items body I anchor hit) (b : α) (hb : ¬ anchor b)
    (P : List α) :
    ∀ (Q : List α) (s : σ), I s → items s = (b :: P) ++ Q → ((b :: P) ++ Q).Nodup →
      (∀ a ∈ Q, ¬ anchor a) → (∀ a ∈ P, anchor a → hit a) → (∃ a ∈ P, anchor a) →
      revLoop items oob body (b :: P).length s = .error oob := by
  induction P using List.reverseRecOn with
  | nil => intro Q s _ _ _ _ _ hex; obtain ⟨a, ha, -⟩ := hex; simp at ha
  | append_singleton P a ih =>
    intro Q s hI hs hnd hQ hP hex
    rw [← List.cons_append] at hs hnd
    rw [← List.cons_append, List.length_append, List.length_singleton]
    obtain ⟨s', hrun, hI', hs'⟩ := revLoop_turn oob h hI hs hnd
    rw [hrun]
    by_cases ha : hit a
    · by_cases hany : (b :: P ++ Q).any anchor = true
      · rw [if_pos ha, hany, if_pos rfl] at hs'
        refine ih Q s' hI' hs' ?_ hQ (fun c hc => hP c (by simp [hc])) ?_
        · rw [← erase_middle hnd]
          exact hnd.erase a
        · obtain ⟨c, hc, hac⟩ := List.any_eq_true.mp hany
          rcases List.mem_append.mp hc with hc | hc
          · rcases List.mem_cons.mp hc with rfl | hc
            · exact absurd hac hb
            · exact ⟨c, hc, hac⟩
          · exact absurd hac (hQ c hc)
      · -- the last anchor went: the list is empty and entry `b` is read next
        rw [if_pos ha, if_neg hany] at hs'
        rw [List.length_cons, revLoop, hs']
        rfl
    · rw [if_neg ha] at hs'
      have hna : ¬ anchor a := fun hac => ha (hP a (by simp) hac)
      refine ih (a :: Q) s' hI' hs' (by simpa using hnd) ?_ (fun c hc => hP c (by simp [hc])) ?_
      · intro c hc
        rcases List.mem_cons.mp hc with rfl | hc
        · exact hna
        · exact hQ c hc
      · obtain ⟨c, hc, hac⟩ := hex
        rcases List.mem_append.mp hc with hc | hc
        · exact ⟨c, hc, hac⟩
        · rw [List.mem_singleton] at hc
          subst hc
          exact absurd hac hna

/-- What the loop leaves behind when it is safe. -/
def survivors (anchor hit : α → Bool) (l : List α) : List α :=
  if l.any anchor && !l.any (fun a => anchor a && !hit a) then []
  else l.filter fun a => !hit a

omit [DecidableEq α] in
theorem not_mem_survivors {l : List α} {a : α} (ha : hit a) : a ∉ survivors anchor hit l := by
  unfold survivors
  split
  · exact List.not_mem_nil
  · simp [List.mem_filter, ha]

omit [DecidableEq α] in
/-- With an anchor that is not hit, the survivors are the entries not hit. -/
theorem survivors_of_anchor {l : List α} {a : α} (ha : a ∈ l) (hac : anchor a) (hna : ¬ hit a) :
    survivors anchor hit l = l.filter fun a => !hit a := by
  have h : l.any (fun a => anchor a && !hit a) = true :=
    List.any_eq_true.mpr ⟨a, ha, by simp [hac, hna]⟩
  simp [survivors, h]

omit [DecidableEq α] in
theorem not_stranded_of_anchor {l : List α} {a : α} (ha : a ∈ l) (hac : anchor a)
    (hna : ¬ hit a) : ¬ Stranded anchor hit l :=
  fun hst => hna (hst.2.1 a ha hac)

/-- **A whole run of the loop**: safe, with the survivors left over, unless the list is
stranded. -/
theorem revLoop_run (h : Shrinks items body I anchor hit) {s : σ} (hI : I s)
    (hnd : (items s).Nodup) (hst : ¬ Stranded anchor hit (items s)) :
    ∃ s', revLoop items oob body (items s).length s = .ok s' ∧ I s' ∧
      items s' = survivors anchor hit (items s) := by
  obtain ⟨l, hl⟩ : ∃ l, items s = l := ⟨_, rfl⟩
  rw [hl] at hnd hst ⊢
  have hl' : items s = l ++ [] := by rw [hl, List.append_nil]
  have hnd' : (l ++ []).Nodup := by rwa [List.append_nil]
  by_cases hall : ∀ a ∈ l, anchor a → hit a
  · by_cases hex : ∃ a ∈ l, anchor a
    · obtain ⟨a, ha, hac⟩ := hex
      have hsurv : survivors anchor hit l = [] := by
        have h1 : l.any anchor = true := List.any_eq_true.mpr ⟨a, ha, hac⟩
        have h2 : l.any (fun a => anchor a && !hit a) = false := by
          rw [List.any_eq_false]
          intro c hc
          have := hall c hc
          revert this
          cases anchor c <;> cases hit c <;> simp
        simp [survivors, h1, h2]
      rw [hsurv]
      cases l with
      | nil => simp at ha
      | cons b P =>
        have hb : anchor b := by
          by_contra hb
          exact hst ⟨⟨a, ha, hac⟩, hall, b, rfl, hb⟩
        exact revLoop_collapse oob h b hb P [] s hI hl' hnd' (by simp) hall
    · have hsurv : survivors anchor hit l = l.filter fun a => !hit a := by
        have h1 : l.any anchor = false := by
          rw [List.any_eq_false]
          intro c hc hac
          exact hex ⟨c, hc, hac⟩
        simp [survivors, h1]
      rw [hsurv]
      obtain ⟨s', hrun, hI', hs'⟩ := revLoop_keep oob h l [] s hI hl' hnd'
        (Or.inr fun c hc hac => hex ⟨c, hc, hac⟩)
      exact ⟨s', hrun, hI', by rw [hs', List.append_nil]⟩
  · obtain ⟨a, ha⟩ : ∃ a, a ∈ l ∧ anchor a ∧ ¬ hit a := by
      simpa using hall
    obtain ⟨hal, hac, hna⟩ := ha
    rw [survivors_of_anchor hal hac hna]
    obtain ⟨s', hrun, hI', hs'⟩ := revLoop_keep oob h l [] s hI hl' hnd'
      (Or.inl ⟨a, by simp [hal, hna], hac⟩)
    exact ⟨s', hrun, hI', by rw [hs', List.append_nil]⟩

/-- **The loop reads only entries of the list exactly when the list is not stranded.** -/
theorem revLoop_ok_iff (h : Shrinks items body I anchor hit) {s : σ} (hI : I s)
    (hnd : (items s).Nodup) :
    (∃ s', revLoop items oob body (items s).length s = .ok s') ↔
      ¬ Stranded anchor hit (items s) := by
  constructor
  · rintro ⟨s', hrun⟩ ⟨⟨a, ha, hac⟩, hall, b, hb, hnb⟩
    obtain ⟨l, hl⟩ : ∃ l, items s = l := ⟨_, rfl⟩
    rw [hl] at hnd ha hall hb hrun
    cases l with
    | nil => simp at ha
    | cons c P =>
      obtain rfl : c = b := by simpa using hb
      have hP : ∃ a ∈ P, anchor a := by
        rcases List.mem_cons.mp ha with rfl | ha
        · exact absurd hac hnb
        · exact ⟨a, ha, hac⟩
      have herr := revLoop_strand oob h c hnb P [] s hI (by rw [hl, List.append_nil])
        (by rwa [List.append_nil]) (by simp) (fun d hd => hall d (List.mem_cons_of_mem _ hd)) hP
      rw [herr] at hrun
      exact absurd hrun (by simp)
  · intro hst
    obtain ⟨s', hrun, -, -⟩ := revLoop_run oob h hI hnd hst
    exact ⟨s', hrun⟩

end

end ReverseLoop
