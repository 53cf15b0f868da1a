import Mathlib.Data.List.DropRight
import Mathlib.Data.List.Nodup
import Mathlib.Logic.Function.Basic

/-!
# Pools of shared cells

Cells in the order of their making, each with the number of those who hold it.  A cell that nobody
holds any more is taken out, unless it is the newest; the newest goes, if nobody holds it, when a
newer one is added.

* `retain`, `release`, `supersede`: the operations.
* `Counted`: the counts are those of a function, and only the newest may be without a holder.
* `Counted.retain`, `Counted.release`, `Counted.supersede`: what the operations do to the counts.
* `Covers`: the newest is only taken out when there is a newer one.
-/

namespace Pool

variable {β : Type*}

structure Cell (β : Type*) where
  id : Nat
  body : β
  refs : Nat := 0
deriving DecidableEq, Repr

def ids (l : List (Cell β)) : List Nat := l.map Cell.id

/-- What the cell with a number contains. -/
def body (i : Nat) (l : List (Cell β)) : Option β := (l.find? fun c => c.id = i).map Cell.body

/-- Change the count of a cell. -/
def recount (f : Nat → Nat) (i : Nat) (l : List (Cell β)) : List (Cell β) :=
  l.map fun c => if c.id = i then { c with refs := f c.refs } else c

/-- One holder more. -/
def retain (i : Nat) (l : List (Cell β)) : List (Cell β) := recount (· + 1) i l

/-- One holder less; a cell without holders that is not the last is taken out. -/
def release (i : Nat) (l : List (Cell β)) : List (Cell β) :=
  let l := recount (· - 1) i l
  if (l.any fun c => c.id = i ∧ c.refs = 0) ∧ (ids l).getLast? ≠ some i then
    l.filter fun c => c.id ≠ i
  else l

/-- The last ones go that nobody holds. -/
def trim (l : List (Cell β)) : List (Cell β) := l.rdropWhile fun c => c.refs = 0

/-- A newer cell is added, and the ones that are held are changed. -/
def supersede (f : β → β) (new : Cell β) (l : List (Cell β)) : List (Cell β) :=
  (trim l).map (fun c => if 0 < c.refs then { c with body := f c.body } else c) ++ [new]

/-- The counts of the cells are those of a function. -/
structure Counted (l : List (Cell β)) (n : Nat → Nat) : Prop where
  sorted : (ids l).Pairwise (· < ·)
  refs : ∀ c ∈ l, c.refs = n c.id
  held : ∀ i, 0 < n i → i ∈ ids l
  live : ∀ c ∈ l, ∀ d ∈ l, c.id < d.id → 0 < c.refs

variable {l : List (Cell β)} {n : Nat → Nat} {i j : Nat} {f : Nat → Nat}

@[simp] theorem ids_recount : ids (recount f i l) = ids l := by
  unfold ids recount
  rw [List.map_map]
  refine List.map_congr_left fun c _ => ?_
  dsimp only [Function.comp_apply]
  split <;> rfl

@[simp] theorem body_recount : body j (recount f i l) = body j l := by
  unfold body recount
  rw [List.find?_map, Option.map_map]
  have hid : (fun c : Cell β => decide (c.id = j)) ∘
      (fun c => if c.id = i then { c with refs := f c.refs } else c) = fun c => decide (c.id = j) := by
    funext c
    dsimp only [Function.comp_apply]
    split <;> rfl
  rw [hid]
  congr 1
  funext c
  dsimp only [Function.comp_apply]
  split <;> rfl

theorem mem_recount {c : Cell β} (hc : c ∈ recount f i l) :
    ∃ d ∈ l, d.id = c.id ∧ d.body = c.body ∧
      c.refs = if d.id = i then f d.refs else d.refs := by
  obtain ⟨d, hd, rfl⟩ := List.mem_map.mp hc
  refine ⟨d, hd, ?_⟩
  split <;> exact ⟨rfl, rfl, rfl⟩

theorem mem_release {c : Cell β} (hc : c ∈ release i l) : ∃ d ∈ l, d.id = c.id ∧ d.body = c.body := by
  have hmem : c ∈ recount (· - 1) i l := by
    unfold release at hc
    dsimp only at hc
    split at hc
    · exact (List.mem_filter.mp hc).1
    · exact hc
  obtain ⟨d, hd, hid, hbody, -⟩ := mem_recount hmem
  exact ⟨d, hd, hid, hbody⟩

theorem mem_supersede {g : β → β} {new c : Cell β} (hc : c ∈ supersede g new l) :
    c = new ∨ ∃ d ∈ l, c.body = d.body ∨ c.body = g d.body := by
  obtain hc | hc := List.mem_append.mp hc
  · obtain ⟨d, hd, rfl⟩ := List.mem_map.mp hc
    refine .inr ⟨d, (List.rdropWhile_prefix _ l).subset hd, ?_⟩
    split
    · exact .inr rfl
    · exact .inl rfl
  · exact .inl (List.mem_singleton.mp hc)

theorem mem_of_body {b : β} (h : body i l = some b) : ∃ c ∈ l, c.id = i ∧ c.body = b := by
  obtain ⟨c, hc, rfl⟩ := Option.map_eq_some_iff.mp h
  exact ⟨c, List.mem_of_find?_eq_some hc, by simpa using List.find?_some hc, rfl⟩

theorem body_some (h : i ∈ ids l) : ∃ b, body i l = some b := by
  obtain ⟨c, hc, rfl⟩ := List.mem_map.mp h
  unfold body
  cases hfind : l.find? fun d => d.id = c.id with
  | some d => exact ⟨d.body, rfl⟩
  | none => exact absurd (List.find?_eq_none.mp hfind c hc) (by simp)

theorem body_of_mem (hs : (ids l).Pairwise (· < ·)) {c : Cell β} (hc : c ∈ l) :
    body c.id l = some c.body := by
  obtain ⟨b, hb⟩ := body_some (List.mem_map_of_mem hc)
  obtain ⟨d, hd, hid, rfl⟩ := mem_of_body hb
  have hnodup : (l.map Cell.id).Nodup := hs.imp Nat.ne_of_lt
  rw [hb, List.inj_on_of_nodup_map hnodup hd hc hid]

/-- The last cell has the greatest number. -/
theorem le_last (hs : (ids l).Pairwise (· < ·)) (hlast : (ids l).getLast? = some i) (hj : j ∈ ids l) :
    j ≤ i := by
  obtain ⟨init, hinit⟩ := List.getLast?_eq_some_iff.mp hlast
  rw [hinit] at hs hj
  obtain hj | hj := List.mem_append.mp hj
  · exact Nat.le_of_lt ((List.pairwise_append.mp hs).2.2 j hj i (List.mem_singleton_self i))
  · exact Nat.le_of_eq (List.mem_singleton.mp hj)

theorem Counted.congr {m : Nat → Nat} (h : Counted l n) (hm : ∀ i, m i = n i) : Counted l m := by
  obtain rfl : m = n := funext hm
  exact h

theorem counted_nil : Counted ([] : List (Cell β)) fun _ => 0 :=
  ⟨List.Pairwise.nil, nofun, fun _ h => absurd h (Nat.lt_irrefl 0), nofun⟩

/-- Another count of one cell. -/
theorem Counted.recount (h : Counted l n) (hi : i ∈ ids l)
    (hlive : ∀ d ∈ l, i < d.id → 0 < f (n i)) :
    Counted (recount f i l) (Function.update n i (f (n i))) := by
  refine ⟨by rw [ids_recount]; exact h.sorted, fun c hc => ?_, fun j hj => ?_,
    fun c hc d hd hlt => ?_⟩
  · obtain ⟨d, hd, hid, -, hrefs⟩ := mem_recount hc
    rw [hrefs, ← hid, h.refs d hd]
    split
    · next heq => rw [heq, Function.update_self]
    · next hne => rw [Function.update_of_ne hne]
  · rw [ids_recount]
    by_cases hji : j = i
    · exact hji ▸ hi
    · rw [Function.update_of_ne hji] at hj
      exact h.held j hj
  · obtain ⟨c', hc', hid, -, hrefs⟩ := mem_recount hc
    obtain ⟨d', hd', hid', -⟩ := mem_recount hd
    rw [← hid, ← hid'] at hlt
    rw [hrefs]
    split
    · next heq =>
      rw [h.refs c' hc', heq]
      exact hlive d' hd' (heq ▸ hlt)
    · exact h.live c' hc' d' hd' hlt

theorem Counted.retain (h : Counted l n) (hi : i ∈ ids l) :
    Counted (retain i l) (Function.update n i (n i + 1)) :=
  h.recount hi fun _ _ _ => Nat.succ_pos _

theorem body_filter (hij : j ≠ i) : body j (l.filter fun c => c.id ≠ i) = body j l := by
  unfold body
  rw [List.find?_filter]
  congr 2
  funext c
  by_cases hc : c.id = j <;> simp [hc, hij]

/-- For every cell there is one that is as new. -/
def Covers (l l' : List (Cell β)) : Prop := ∀ i ∈ ids l, ∃ z ∈ ids l', i ≤ z

theorem Covers.of_subset {l' : List (Cell β)} (h : ids l ⊆ ids l') : Covers l l' :=
  fun i hi => ⟨i, h hi, Nat.le_refl i⟩

theorem Covers.trans {l' l'' : List (Cell β)} (h : Covers l l') (h' : Covers l' l'') :
    Covers l l'' := by
  intro i hi
  obtain ⟨z, hz, hle⟩ := h i hi
  obtain ⟨z', hz', hle'⟩ := h' z hz
  exact ⟨z', hz', Nat.le_trans hle hle'⟩

/-- What is taken out has no holder, and the last cell is newer. -/
theorem Counted.taken (h : Counted l n) {l' : List (Cell β)} (hcovers : Covers l' l)
    (hi : i ∈ ids l') (hout : i ∉ ids l) : n i = 0 ∧ ∃ z, (ids l).getLast? = some z ∧ i < z := by
  refine ⟨Nat.eq_zero_of_not_pos fun hpos => hout (h.held i hpos), ?_⟩
  obtain ⟨z, hz, hle⟩ := hcovers i hi
  have hne : ids l ≠ [] := List.ne_nil_of_mem hz
  refine ⟨_, List.getLast?_eq_some_getLast hne, ?_⟩
  have hlast := le_last h.sorted (List.getLast?_eq_some_getLast hne) hz
  refine Nat.lt_of_le_of_ne (Nat.le_trans hle hlast) fun heq => hout ?_
  rw [heq]
  exact List.getLast_mem hne

/-- **One holder less.** -/
theorem Counted.release (h : Counted l n) (hi : 0 < n i) :
    Counted (release i l) (Function.update n i (n i - 1)) ∧
      Covers l (Pool.release i l) ∧
      ∀ j, 0 < Function.update n i (n i - 1) j → body j (Pool.release i l) = body j l := by
  have hmem := h.held i hi
  have hids : ids (Pool.recount (· - 1) i l) = ids l := ids_recount
  unfold Pool.release
  dsimp only
  rw [hids]
  split
  · next hout =>
    obtain ⟨hany, hlast⟩ := hout
    obtain ⟨c, hc, hcid⟩ := List.any_eq_true.mp hany
    obtain ⟨hcid, hzero⟩ := of_decide_eq_true hcid
    have hone : n i - 1 = 0 := by
      obtain ⟨d, hd, hid, -, hrefs⟩ := mem_recount hc
      rwa [if_pos (hid.trans hcid), h.refs d hd, hid, hcid, hzero, eq_comm] at hrefs
    have hfilter : ids ((Pool.recount (· - 1) i l).filter fun c => c.id ≠ i) =
        (ids l).filter fun j => j ≠ i := by
      rw [← hids, ids, ids, List.filter_map]
      rfl
    refine ⟨⟨?_, fun c hc => ?_, fun j hj => ?_, fun c hc d hd hlt => ?_⟩, fun j hj => ?_,
      fun j hj => ?_⟩
    · rw [hfilter]
      exact h.sorted.filter _
    · obtain ⟨hc, hne⟩ := List.mem_filter.mp hc
      have hne : c.id ≠ i := of_decide_eq_true hne
      obtain ⟨d, hd, hid, -, hrefs⟩ := mem_recount hc
      rw [hrefs, if_neg (hid ▸ hne), h.refs d hd, hid, Function.update_of_ne hne]
    · have hji : j ≠ i := fun heq => by
        rw [heq, Function.update_self, hone] at hj
        exact Nat.lt_irrefl 0 hj
      rw [Function.update_of_ne hji] at hj
      rw [hfilter]
      exact List.mem_filter.mpr ⟨h.held j hj, by simpa using hji⟩
    · obtain ⟨hc, hne⟩ := List.mem_filter.mp hc
      have hne : c.id ≠ i := of_decide_eq_true hne
      obtain ⟨c', hc', hid, -, hrefs⟩ := mem_recount hc
      obtain ⟨d', hd', hid', -⟩ := mem_recount (List.mem_filter.mp hd).1
      rw [hrefs, if_neg (hid ▸ hne)]
      exact h.live c' hc' d' hd' (hid ▸ hid' ▸ hlt)
    · by_cases hji : j = i
      · -- the last one stays
        have hne : ids l ≠ [] := List.ne_nil_of_mem hmem
        have hz := List.getLast?_eq_some_getLast hne
        refine ⟨(ids l).getLast hne, ?_, hji ▸ le_last h.sorted hz hmem⟩
        rw [hfilter]
        refine List.mem_filter.mpr ⟨List.getLast_mem hne, ?_⟩
        rw [hz] at hlast
        simpa using hlast
      · refine ⟨j, ?_, Nat.le_refl j⟩
        rw [hfilter]
        exact List.mem_filter.mpr ⟨hj, by simpa using hji⟩
    · have hji : j ≠ i := fun heq => by
        rw [heq, Function.update_self, hone] at hj
        exact Nat.lt_irrefl 0 hj
      rw [body_filter hji, body_recount]
  · next hstay =>
    refine ⟨h.recount hmem fun d hd hlt => ?_, .of_subset (by simp), fun j _ => body_recount⟩
    refine Nat.pos_of_ne_zero fun hzero => hstay ⟨?_, fun hlast => ?_⟩
    · obtain ⟨c, hc, rfl⟩ := List.mem_map.mp hmem
      refine List.any_eq_true.mpr ⟨{ c with refs := c.refs - 1 }, ?_, ?_⟩
      · exact List.mem_map.mpr ⟨c, hc, if_pos rfl⟩
      · rw [h.refs c hc, hzero]
        simp
    · exact Nat.not_le.mpr hlt (le_last h.sorted hlast (List.mem_map_of_mem hd))

/-! ## A newer cell -/

/-- Those that stay are those that are held. -/
theorem Counted.trim_eq (h : Counted l n) : trim l = l.filter fun c => 0 < c.refs := by
  obtain rfl | ⟨init, z, rfl⟩ := l.eq_nil_or_concat
  · rfl
  · rw [List.concat_eq_append] at h ⊢
    have hinit : ∀ c ∈ init, 0 < c.refs := fun c hc => by
      refine h.live c (List.mem_append_left _ hc) z (by simp) ?_
      have hsorted := h.sorted
      rw [ids, List.map_append, List.pairwise_append] at hsorted
      exact hsorted.2.2 c.id (List.mem_map_of_mem hc) z.id (by simp)
    have hfilter : init.filter (fun c => 0 < c.refs) = init :=
      List.filter_eq_self.mpr fun c hc => by simpa using hinit c hc
    have hstop : trim init = init := by
      refine List.rdropWhile_eq_self_iff.mpr fun hne => ?_
      have := hinit _ (List.getLast_mem hne)
      simpa using Nat.ne_of_gt this
    unfold trim at hstop ⊢
    rw [List.filter_append, hfilter]
    by_cases hz : z.refs = 0
    · rw [List.rdropWhile_concat_pos _ _ _ (by simpa using hz), hstop]
      simp [hz]
    · rw [List.rdropWhile_concat_neg _ _ _ (by simpa using hz)]
      simp [Nat.pos_of_ne_zero hz]

theorem Counted.supersede_eq (h : Counted l n) (f : β → β) (new : Cell β) : supersede f new l =
    (l.filter fun c => 0 < n c.id).map (fun c => { c with body := f c.body }) ++ [new] := by
  unfold supersede
  rw [h.trim_eq]
  congr 1
  have hfilter : l.filter (fun c => 0 < c.refs) = l.filter fun c => 0 < n c.id :=
    List.filter_congr fun c hc => by rw [h.refs c hc]
  rw [hfilter]
  refine List.map_congr_left fun c hc => if_pos ?_
  obtain ⟨hc, hpos⟩ := List.mem_filter.mp hc
  rw [h.refs c hc]
  exact of_decide_eq_true hpos

theorem Counted.ids_supersede (h : Counted l n) (f : β → β) (new : Cell β) :
    ids (supersede f new l) = (ids l).filter (fun i => 0 < n i) ++ [new.id] := by
  rw [h.supersede_eq, ids, List.map_append, List.map_map, ids, List.filter_map]
  rfl

/-- **A newer cell.** -/
theorem Counted.supersede (h : Counted l n) (f : β → β) {new : Cell β}
    (hlt : ∀ i ∈ ids l, i < new.id) :
    Counted (supersede f new l) (Function.update n new.id new.refs) ∧
      Covers l (Pool.supersede f new l) ∧
      (∀ j, 0 < n j → body j (Pool.supersede f new l) = (body j l).map f) ∧
      body new.id (Pool.supersede f new l) = some new.body := by
  have hids := h.ids_supersede f new
  have hnew : n new.id = 0 := Nat.eq_zero_of_not_pos fun hpos =>
    Nat.lt_irrefl _ (hlt _ (h.held _ hpos))
  have hne : ∀ i ∈ ids l, i ≠ new.id := fun i hi => Nat.ne_of_lt (hlt i hi)
  refine ⟨⟨?_, fun c hc => ?_, fun j hj => ?_, fun c hc d hd hcd => ?_⟩, fun j hj => ?_,
    fun j hj => ?_, ?_⟩
  · rw [hids, List.pairwise_append]
    refine ⟨h.sorted.filter _, List.pairwise_singleton _ _, fun i hi j hj => ?_⟩
    exact List.mem_singleton.mp hj ▸ hlt i (List.mem_filter.mp hi).1
  · rw [h.supersede_eq] at hc
    obtain hc | hc := List.mem_append.mp hc
    · obtain ⟨d, hd, rfl⟩ := List.mem_map.mp hc
      have hd := (List.mem_filter.mp hd).1
      rw [Function.update_of_ne (hne d.id (List.mem_map_of_mem hd))]
      exact h.refs d hd
    · rw [List.mem_singleton.mp hc, Function.update_self]
  · rw [hids]
    by_cases hj' : j = new.id
    · exact List.mem_append_right _ (List.mem_singleton.mpr hj')
    · rw [Function.update_of_ne hj'] at hj
      exact List.mem_append_left _ (List.mem_filter.mpr ⟨h.held j hj, decide_eq_true hj⟩)
  · rw [h.supersede_eq] at hc
    obtain hc | hc := List.mem_append.mp hc
    · obtain ⟨d, hd, rfl⟩ := List.mem_map.mp hc
      obtain ⟨hd, hpos⟩ := List.mem_filter.mp hd
      exact (h.refs d hd).symm ▸ of_decide_eq_true hpos
    · -- there is no newer one
      rw [List.mem_singleton.mp hc] at hcd
      have hd : d.id ∈ ids (Pool.supersede f new l) := List.mem_map_of_mem hd
      rw [hids] at hd
      obtain hd | hd := List.mem_append.mp hd
      · exact absurd hcd (Nat.lt_asymm (hlt d.id (List.mem_filter.mp hd).1))
      · exact absurd hcd (by rw [List.mem_singleton.mp hd]; exact Nat.lt_irrefl _)
  · refine ⟨new.id, ?_, Nat.le_of_lt (hlt j hj)⟩
    rw [hids]
    exact List.mem_append_right _ (List.mem_singleton_self _)
  · have hne : new.id ≠ j := fun heq => by
      rw [← heq, hnew] at hj
      exact Nat.lt_irrefl 0 hj
    unfold body
    rw [h.supersede_eq, List.find?_append, List.find?_map, List.find?_filter]
    have hfind : (fun c : Cell β => decide (decide (0 < n c.id) = true ∧
        ((fun c => decide (c.id = j)) ∘ fun c : Cell β => { c with body := f c.body }) c = true)) =
          fun c => decide (c.id = j) := by
      funext c
      by_cases hc : c.id = j <;> simp [hc, hj]
    rw [hfind, List.find?_singleton]
    cases l.find? fun c => c.id = j <;> simp [hne]
  · have hnone : ((l.filter fun c => 0 < n c.id).map fun c => { c with body := f c.body }).find?
        (fun c => c.id = new.id) = none := by
      refine List.find?_eq_none.mpr fun c hc heq => ?_
      obtain ⟨d, hd, rfl⟩ := List.mem_map.mp hc
      have hd := hlt d.id (List.mem_map_of_mem (List.mem_filter.mp hd).1)
      exact Nat.ne_of_lt hd (of_decide_eq_true heq)
    unfold body
    rw [h.supersede_eq, List.find?_append, hnone]
    simp

/-! ## The newest -/

/-- A count says nothing of what is in the newest. -/
theorem newest_recount : ((recount f i l).getLast?).map Cell.body = l.getLast?.map Cell.body := by
  unfold recount
  rw [List.getLast?_map, Option.map_map]
  congr 1
  funext c
  dsimp only [Function.comp_apply]
  split <;> rfl

/-- The newest is not taken out. -/
theorem newest_release : ((release i l).getLast?).map Cell.body = l.getLast?.map Cell.body := by
  unfold release
  dsimp only
  split
  · next h =>
    rw [← newest_recount (l := l) (f := (· - 1)) (i := i)]
    have hlast := h.2
    generalize recount (· - 1) i l = l' at hlast
    obtain rfl | ⟨init, c, rfl⟩ := l'.eq_nil_or_concat'
    · rfl
    · have hc : c.id ≠ i := by
        intro hid
        refine hlast ?_
        unfold ids
        rw [List.getLast?_map, List.getLast?_concat, Option.map_some, hid]
      rw [List.filter_append, List.filter_cons_of_pos (by simpa using hc), List.filter_nil,
        List.getLast?_concat, List.getLast?_concat]
  · exact newest_recount

theorem newest_supersede {g : β → β} {new : Cell β} : (supersede g new l).getLast? = some new := by
  unfold supersede
  exact List.getLast?_concat

end Pool
