import Mathlib.Data.List.Rotate
import Mathlib.Data.List.TakeWhile

/-!
# Everything but one slice of a ring

Blocks are laid out one after the other, and the whole of it once more.  The blocks of one
owner lie side by side, so that everything but them is a contiguous slice: it begins where
they end, and wraps around into the second copy.

* `drop_take_doubled`: the slice that leaves out the middle of a doubled list.
* `Grouped`: the blocks of each owner lie side by side.
* `others_isRotated`: the slice is a rotation of the blocks of everybody else.
-/

namespace Slices

open scoped List

variable {α β κ : Type*}

/-- A doubled list, from the end of `own` on and as long as the rest: it wraps around. -/
theorem drop_take_doubled (pre own post : List α) :
    (((pre ++ own ++ post) ++ (pre ++ own ++ post)).drop (pre.length + own.length)).take
      ((pre ++ own ++ post).length - own.length) = post ++ pre := by
  have hlen : (pre ++ own ++ post).length - own.length = (post ++ pre).length := by
    simp only [List.length_append]
    omega
  have hsplit : (pre ++ own ++ post) ++ (pre ++ own ++ post) =
      (pre ++ own) ++ ((post ++ pre) ++ (own ++ post)) := by
    simp only [List.append_assoc]
  rw [hlen, hsplit, ← List.length_append, List.drop_left, List.take_left]

/-! ## Groups -/

section Groups

variable (key : β → κ)

/-- The blocks of each owner lie side by side: nothing lies between two of them. -/
def Grouped (bs : List β) : Prop :=
  ∀ a b c, [a, b, c] <+ bs → key a = key c → key b = key a

variable {key}

theorem Grouped.sublist {bs cs : List β} (h : Grouped key bs) (hsub : cs <+ bs) :
    Grouped key cs :=
  fun a b c hin => h a b c (hin.trans hsub)

/-- Groups of different owners, one after the other. -/
theorem Grouped.append {bs cs : List β} (hb : Grouped key bs) (hc : Grouped key cs)
    (hne : ∀ b ∈ bs, ∀ c ∈ cs, key b ≠ key c) : Grouped key (bs ++ cs) := by
  intro a b c hin hac
  obtain ⟨l, m, hlm, hl, hm⟩ := List.sublist_append_iff.mp hin
  cases l with
  | nil =>
    obtain rfl : [a, b, c] = m := hlm
    exact hc a b c hm hac
  | cons x l =>
    obtain ⟨rfl, hrest⟩ := List.cons_eq_cons.mp hlm
    cases l with
    | nil =>
      obtain rfl : [b, c] = m := hrest
      exact absurd hac (hne a (hl.subset (by simp)) c (hm.subset (by simp)))
    | cons y l =>
      obtain ⟨rfl, hlast⟩ := List.cons_eq_cons.mp hrest
      cases l with
      | nil =>
        obtain rfl : [c] = m := hlast
        exact absurd hac (hne a (hl.subset (by simp)) c (hm.subset (by simp)))
      | cons z l =>
        obtain ⟨rfl, -⟩ := List.cons_eq_cons.mp hlast
        refine hb a b c (List.Sublist.trans ?_ hl) hac
        exact ((List.nil_sublist l).cons_cons c).cons_cons b |>.cons_cons a

/-- The blocks of one owner after those of the other. -/
theorem grouped_flatMap {γ : Type*} {cs : List γ} {f : γ → κ} (hcs : (cs.map f).Nodup)
    {g : γ → List β} (hg : ∀ c ∈ cs, ∀ b ∈ g c, key b = f c) : Grouped key (cs.flatMap g) := by
  induction cs with
  | nil =>
    intro a b c hin
    cases hin
  | cons c cs ih =>
    rw [List.map_cons, List.nodup_cons] at hcs
    obtain ⟨hc, hcs⟩ := hcs
    have hown := hg c List.mem_cons_self
    have hg := fun d hd => hg d (List.mem_cons_of_mem c hd)
    rw [List.flatMap_cons]
    refine Grouped.append ?_ (ih hcs hg) ?_
    · intro a b c hin _
      rw [hown b (hin.subset (by simp)), hown a (hin.subset (by simp))]
    · intro a ha b hb heq
      obtain ⟨d, hd, hb⟩ := List.mem_flatMap.mp hb
      rw [hown a ha, hg d hd b hb] at heq
      exact hc (heq ▸ List.mem_map_of_mem hd)

variable [DecidableEq κ] (key)

/-- The blocks in front of those of `r`: all of them, if `r` has none. -/
def before (r : κ) (bs : List β) : List β := bs.takeWhile fun b => decide (key b ≠ r)

/-- The blocks of `r`. -/
def owned (r : κ) (bs : List β) : List β := bs.filter fun b => decide (key b = r)

/-- The blocks behind those of `r`, where these lie side by side. -/
def behind (r : κ) (bs : List β) : List β :=
  (bs.dropWhile fun b => decide (key b ≠ r)).dropWhile fun b => decide (key b = r)

/-- Everything but the blocks of `r`, beginning behind them. -/
def others (r : κ) (bs : List β) : List β := behind key r bs ++ before key r bs

variable {key} {r : κ}

theorem key_of_mem_before {bs : List β} {b : β} (h : b ∈ before key r bs) : key b ≠ r := by
  simpa using List.mem_takeWhile_imp h

/-- Once those of `r` are over there are no more of them. -/
theorem Grouped.key_of_mem_behind {bs : List β} (h : Grouped key bs) {c : β}
    (hc : c ∈ behind key r bs) : key c ≠ r := by
  intro hcr
  unfold behind at hc
  have hsub : bs.dropWhile (fun b => decide (key b ≠ r)) <+ bs := List.dropWhile_sublist _
  cases hd : bs.dropWhile fun b => decide (key b ≠ r) with
  | nil =>
    rw [hd] at hc
    cases hc
  | cons a l =>
    have ha : key a = r := by
      have := List.head?_dropWhile_not (fun b => decide (key b ≠ r)) bs
      rw [hd] at this
      simpa using this
    rw [hd] at hc hsub
    rw [List.dropWhile_cons_of_pos (by simpa using ha)] at hc
    cases hl : l.dropWhile fun b => decide (key b = r) with
    | nil =>
      rw [hl] at hc
      cases hc
    | cons b m =>
      have hb : key b ≠ r := by
        have := List.head?_dropWhile_not (fun b => decide (key b = r)) l
        rw [hl] at this
        simpa using this
      rw [hl] at hc
      rcases List.mem_cons.mp hc with rfl | hc
      · exact hb hcr
      · -- `a` and `c` belong to `r`, and `b` lies between them
        have hbc : [b, c] <+ l := by
          have hm : b :: m <+ l := hl ▸ List.dropWhile_sublist _
          exact ((List.singleton_sublist.mpr hc).cons_cons b).trans hm
        exact hb ((h a b c ((hbc.cons_cons a).trans hsub) (ha.trans hcr.symm)).trans ha)

/-- The blocks before, of and behind an owner make up the list. -/
theorem Grouped.split {bs : List β} (h : Grouped key bs) (r : κ) :
    bs = before key r bs ++ owned key r bs ++ behind key r bs := by
  have h1 : bs = before key r bs ++ bs.dropWhile fun b => decide (key b ≠ r) :=
    List.takeWhile_append_dropWhile.symm
  have h2 : (bs.dropWhile fun b => decide (key b ≠ r)) =
      (bs.dropWhile fun b => decide (key b ≠ r)).takeWhile (fun b => decide (key b = r)) ++
        behind key r bs :=
    List.takeWhile_append_dropWhile.symm
  generalize hmid : (bs.dropWhile fun b => decide (key b ≠ r)).takeWhile
    (fun b => decide (key b = r)) = mid at h2
  have hown : owned key r bs = mid := by
    unfold owned
    rw [h1, h2, List.filter_append, List.filter_append]
    have hpre : (before key r bs).filter (fun b => decide (key b = r)) = [] := by
      simpa [List.filter_eq_nil_iff] using fun b (hb : b ∈ before key r bs) => key_of_mem_before hb
    have hmid' : mid.filter (fun b => decide (key b = r)) = mid := by
      rw [List.filter_eq_self, ← hmid]
      exact fun b hb => by simpa using List.mem_takeWhile_imp hb
    have hpost : (behind key r bs).filter (fun b => decide (key b = r)) = [] := by
      simpa [List.filter_eq_nil_iff] using fun b (hb : b ∈ behind key r bs) => h.key_of_mem_behind hb
    rw [hpre, hmid', hpost, List.nil_append, List.append_nil]
  rw [hown, List.append_assoc, ← h2]
  exact h1

/-! Where an owner has no block, or gets one more. -/

theorem before_of_owned_nil {bs : List β} (h : owned key r bs = []) : before key r bs = bs := by
  unfold before
  rw [List.takeWhile_eq_self_iff]
  intro b hb
  have := List.filter_eq_nil_iff.mp h b hb
  simpa using this

theorem others_of_owned_nil {bs : List β} (h : owned key r bs = []) : others key r bs = bs := by
  have hb := before_of_owned_nil h
  have hrest : bs.dropWhile (fun b => decide (key b ≠ r)) = [] := by
    rw [List.dropWhile_eq_nil_iff]
    exact fun b hm => decide_eq_true (key_of_mem_before (hb ▸ hm))
  unfold others behind
  rw [hrest, hb]
  rfl

theorem owned_append (bs cs : List β) : owned key r (bs ++ cs) = owned key r bs ++ owned key r cs :=
  List.filter_append _ _

theorem before_append_of_owned {bs : List β} (h : owned key r bs ≠ []) (cs : List β) :
    before key r (bs ++ cs) = before key r bs := by
  induction bs with
  | nil => exact absurd rfl h
  | cons b bs ih =>
    by_cases hb : key b = r
    · simp [before, hb]
    · have h' : owned key r bs ≠ [] := by simpa [owned, hb] using h
      have hcons : ∀ l, before key r (b :: l) = b :: before key r l := by
        intro l
        simp [before, hb]
      rw [List.cons_append, hcons, hcons, ih h']

theorem before_append_of_owned_nil {bs : List β} (h : owned key r bs = []) {c : β}
    (hc : key c = r) : before key r (bs ++ [c]) = bs := by
  have hb := before_of_owned_nil h
  have hpass : ∀ b ∈ bs, decide (key b ≠ r) = true :=
    fun b hm => decide_eq_true (key_of_mem_before (hb ▸ hm))
  unfold before
  rw [List.takeWhile_append_of_pos hpass]
  simp [hc]

/-- **Everything but the blocks of one owner** is a rotation of the blocks of the others. -/
theorem Grouped.others_isRotated {bs : List β} (h : Grouped key bs) (r : κ) :
    others key r bs ~r bs.filter fun b => decide (key b ≠ r) := by
  have hfilter : bs.filter (fun b => decide (key b ≠ r)) = before key r bs ++ behind key r bs := by
    conv_lhs => rw [h.split r]
    rw [List.filter_append, List.filter_append]
    have hpre : (before key r bs).filter (fun b => decide (key b ≠ r)) = before key r bs := by
      rw [List.filter_eq_self]
      exact fun b hb => decide_eq_true (key_of_mem_before hb)
    have hown : (owned key r bs).filter (fun b => decide (key b ≠ r)) = [] := by
      simp [owned]
    have hpost : (behind key r bs).filter (fun b => decide (key b ≠ r)) = behind key r bs := by
      rw [List.filter_eq_self]
      exact fun b hb => decide_eq_true (h.key_of_mem_behind hb)
    rw [hpre, hown, hpost, List.append_nil]
  rw [hfilter]
  exact List.isRotated_append

/-- **The slice that leaves out one owner**: laid out twice, the blocks of everybody else
are the piece that begins where those of `r` end. -/
theorem Grouped.slice {bs : List β} (h : Grouped key bs) (r : κ) (f : β → List α) :
    ((bs.flatMap f ++ bs.flatMap f).drop
        (((before key r bs).flatMap f).length + ((owned key r bs).flatMap f).length)).take
      ((bs.flatMap f).length - ((owned key r bs).flatMap f).length) =
    (others key r bs).flatMap f := by
  have hbs : bs.flatMap f = (before key r bs).flatMap f ++ (owned key r bs).flatMap f ++
      (behind key r bs).flatMap f := by
    conv_lhs => rw [h.split r]
    rw [List.flatMap_append, List.flatMap_append]
  unfold others
  rw [List.flatMap_append, hbs]
  exact drop_take_doubled _ _ _

end Groups

end Slices
