import Mathlib.Data.Fintype.EquivFin
import Mathlib.Data.List.FinRange
import Mathlib.Data.List.OfFn
import Mathlib.Logic.Equiv.Basic

/-!
# Rearrangements of a part of a list

What sorting in place does to the elements from one index to another.

* `Rearranges`: the same elements in another order, and the others untouched.
* `Hole`: an element is kept aside, and its place can be filled with any other element, whose place
  is then to be filled.
* `Rearranges.perm`, `Rearranges.split`: what this means for the list.
* `Ordered.join`: parts on both sides of an element that are in order are so together.
-/

namespace QServ

variable {α : Type}

/-- The elements from `lo` to `hi` are rearranged. -/
structure Rearranges (lo hi : ℕ) (a b : List α) : Prop where
  length : b.length = a.length
  exists_perm : ∃ e : Equiv.Perm ℕ, (∀ k, k < lo ∨ hi ≤ k → e k = k) ∧ ∀ k, b[k]? = a[e k]?

namespace Rearranges

variable {lo hi : ℕ} {a b c : List α}

theorem refl (a : List α) : Rearranges lo hi a a := 
  ⟨rfl, Equiv.refl ℕ, fun _ _ => rfl, fun _ => rfl⟩

theorem trans (h : Rearranges lo hi a b) (h' : Rearranges lo hi b c) : Rearranges lo hi a c := by
  obtain ⟨hlen, e, he, hget⟩ := h
  obtain ⟨hlen', e', he', hget'⟩ := h'
  refine ⟨hlen'.trans hlen, e'.trans e, fun k hk => ?_, fun k => ?_⟩
  · rw [Equiv.trans_apply, he' k hk, he k hk]
  · rw [hget', hget, Equiv.trans_apply]

theorem mono {lo' hi' : ℕ} (h : Rearranges lo hi a b) (hlo : lo' ≤ lo) (hhi : hi ≤ hi') :
    Rearranges lo' hi' a b := by
  obtain ⟨hlen, e, he, hget⟩ := h
  exact ⟨hlen, e, fun k hk => he k (by omega), hget⟩

/-- The other elements are untouched. -/
theorem outside (h : Rearranges lo hi a b) {k : ℕ} (hk : k < lo ∨ hi ≤ k) : b[k]? = a[k]? := by
  obtain ⟨-, e, he, hget⟩ := h
  rw [hget, he k hk]

/-- What holds of all elements of the part still does. -/
theorem forall_mem (h : Rearranges lo hi a b) {P : α → Prop}
    (ha : ∀ k x, lo ≤ k → k < hi → a[k]? = some x → P x) :
    ∀ k x, lo ≤ k → k < hi → b[k]? = some x → P x := by
  obtain ⟨-, e, he, hget⟩ := h
  intro k x hlo hhi hx
  rw [hget] at hx
  have hin : lo ≤ e k ∧ e k < hi := by
    by_contra hout
    have hfix : e (e k) = e k := he (e k) (by omega)
    have hk : e k = k := e.injective hfix
    omega
  exact ha (e k) x hin.1 hin.2 hx

/-- What holds of all elements of another part still does. -/
theorem forall_outside (h : Rearranges lo hi a b) {lo' hi' : ℕ} (hout : hi' ≤ lo ∨ hi ≤ lo')
    {P : α → Prop} (ha : ∀ k x, lo' ≤ k → k < hi' → a[k]? = some x → P x) :
    ∀ k x, lo' ≤ k → k < hi' → b[k]? = some x → P x := by
  intro k x hlo hhi hx
  rw [h.outside (by omega)] at hx
  exact ha k x hlo hhi hx

/-- Two elements change places. -/
theorem swap {i j : ℕ} {x y : α} (hi' : lo ≤ i ∧ i < hi) (hj : lo ≤ j ∧ j < hi)
    (hx : a[i]? = some x) (hy : a[j]? = some y) : Rearranges lo hi a ((a.set i y).set j x) := by
  have hilt : i < a.length := (List.getElem?_eq_some_iff.mp hx).1
  have hjlt : j < a.length := (List.getElem?_eq_some_iff.mp hy).1
  refine ⟨by rw [List.length_set, List.length_set], Equiv.swap i j, fun k hk => ?_, fun k => ?_⟩
  · exact Equiv.swap_apply_of_ne_of_ne (by omega) (by omega)
  · by_cases hkj : j = k
    · subst hkj
      rw [Equiv.swap_apply_right, hx]
      exact List.getElem?_set_self (by rwa [List.length_set])
    · rw [List.getElem?_set_ne hkj]
      by_cases hki : i = k
      · subst hki
        rw [Equiv.swap_apply_left, hy]
        exact List.getElem?_set_self hilt
      · rw [List.getElem?_set_ne hki, Equiv.swap_apply_of_ne_of_ne (Ne.symm hki) (Ne.symm hkj)]

/-- **The list** has the same elements. -/
theorem perm (h : Rearranges lo hi a b) : b.Perm a := by
  obtain ⟨hlen, e, -, hget⟩ := h
  have hlt : ∀ k : Fin a.length, e k < a.length := fun k => by
    have hk := hget k
    rw [List.getElem?_eq_getElem (by rw [hlen]; exact k.isLt)] at hk
    exact (List.getElem?_eq_some_iff.mp hk.symm).1
  have hinj : Function.Injective fun k : Fin a.length => (⟨e k, hlt k⟩ : Fin a.length) :=
    fun i j hij => Fin.ext (e.injective (Fin.mk.inj hij))
  have hb : b = List.ofFn ((fun k : Fin a.length => a[k]) ∘
      Equiv.ofBijective _ (Finite.injective_iff_bijective.mp hinj)) := by
    refine List.ext_getElem? fun k => ?_
    rw [List.getElem?_ofFn]
    split
    · next hk =>
      rw [hget, List.getElem?_eq_getElem (hlt ⟨k, hk⟩)]
      rfl
    · next hk =>
      exact List.getElem?_eq_none (by omega)
  have ha : a = List.ofFn fun k : Fin a.length => a[k] := List.ofFn_getElem.symm
  rw [hb]
  exact (Equiv.Perm.ofFn_comp_perm _ _).trans (List.Perm.of_eq ha.symm)

/-- **A part** between two others is a rearrangement of it. -/
theorem split {before l after : List α}
    (h : Rearranges before.length (before.length + l.length) (before ++ l ++ after) b) :
    ∃ l', b = before ++ l' ++ after ∧ l'.Perm l := by
  have hlen := h.length
  rw [List.length_append, List.length_append] at hlen
  have hbefore : b.take before.length = before := by
    refine List.ext_getElem? fun k => ?_
    rw [List.getElem?_take]
    split
    · next hk => rw [h.outside (Or.inl hk), List.append_assoc, List.getElem?_append_left hk]
    · next hk => exact (List.getElem?_eq_none (Nat.not_lt.mp hk)).symm
  have hafter : b.drop (before.length + l.length) = after := by
    refine List.ext_getElem? fun k => ?_
    rw [List.getElem?_drop, h.outside (Or.inr (Nat.le_add_right _ _)), ← List.length_append,
      List.getElem?_append_right (Nat.le_add_right _ _), Nat.add_sub_cancel_left]
  have hb : b = before ++ (b.drop before.length).take l.length ++ after := by
    have htail : (b.drop before.length).take l.length ++ after = b.drop before.length := by
      rw [← hafter, ← List.drop_drop, List.take_append_drop]
    rw [List.append_assoc, htail]
    conv_lhs => rw [← List.take_append_drop before.length b, hbefore]
  refine ⟨_, hb, ?_⟩
  have hperm := h.perm
  rw [hb] at hperm
  exact (List.perm_append_left_iff _).mp ((List.perm_append_right_iff _).mp hperm)

end Rearranges

/-- The element at `h` is kept aside as `v`; in its place `b` may hold anything. -/
structure Hole (lo hi h : ℕ) (v : α) (a b : List α) : Prop where
  le : lo ≤ h
  lt : h < hi
  length : h < b.length
  filled : Rearranges lo hi a (b.set h v)

namespace Hole

variable {lo hi h : ℕ} {v : α} {a b : List α}

theorem start (hle : lo ≤ h) (hlt : h < hi) (hv : a[h]? = some v) : Hole lo hi h v a a := by
  have hlen : h < a.length := (List.getElem?_eq_some_iff.mp hv).1
  refine ⟨hle, hlt, hlen, ?_⟩
  have hsame : a.set h v = a := by
    rw [← (List.getElem?_eq_some_iff.mp hv).2]
    exact List.set_getElem_self hlen
  rw [hsame]
  exact Rearranges.refl a

theorem length_eq (hb : Hole lo hi h v a b) : b.length = a.length := by
  rw [← hb.filled.length, List.length_set]

/-- The place is filled with another element. -/
theorem move {g : ℕ} {y : α} (hb : Hole lo hi h v a b) (hle : lo ≤ g) (hlt : g < hi)
    (hy : b[g]? = some y) : Hole lo hi g v a (b.set h y) := by
  have hlen : g < b.length := (List.getElem?_eq_some_iff.mp hy).1
  refine ⟨hle, hlt, by rwa [List.length_set], ?_⟩
  by_cases hgh : h = g
  · subst hgh
    rw [List.set_set]
    exact hb.filled
  · have hfilled := hb.filled
    have hv : (b.set h v)[h]? = some v := List.getElem?_set_self hb.length
    have hget : (b.set h v)[g]? = some y := by rw [List.getElem?_set_ne hgh, hy]
    have hswap := hfilled.trans (Rearranges.swap ⟨hb.le, hb.lt⟩ ⟨hle, hlt⟩ hv hget)
    rwa [List.set_set] at hswap

/-- Two other elements change places. -/
theorem swap {i j : ℕ} {x y : α} (hb : Hole lo hi h v a b) (hi' : lo ≤ i ∧ i < hi)
    (hj : lo ≤ j ∧ j < hi) (hih : i ≠ h) (hjh : j ≠ h) (hx : b[i]? = some x) (hy : b[j]? = some y) :
    Hole lo hi h v a ((b.set i y).set j x) := by
  refine ⟨hb.le, hb.lt, by simpa using hb.length, ?_⟩
  have hx' : (b.set h v)[i]? = some x := by rw [List.getElem?_set_ne (Ne.symm hih), hx]
  have hy' : (b.set h v)[j]? = some y := by rw [List.getElem?_set_ne (Ne.symm hjh), hy]
  have hswap := hb.filled.trans (Rearranges.swap hi' hj hx' hy')
  rwa [List.set_comm _ _ (Ne.symm hih), List.set_comm _ _ (Ne.symm hjh)] at hswap

end Hole

/-! ## Order -/

/-- A strict order whose incomparable elements are alike. -/
structure StrictWeak (lt : α → α → Prop) : Prop where
  asymm : ∀ x y, lt x y → ¬ lt y x
  trans : ∀ x y z, ¬ lt y x → ¬ lt z y → ¬ lt z x

/-- No element from `lo` to `hi` comes before an earlier one. -/
def Ordered (lt : α → α → Prop) (lo hi : ℕ) (a : List α) : Prop :=
  ∀ k l x y, lo ≤ k → k < l → l < hi → a[k]? = some x → a[l]? = some y → ¬ lt y x

/-- No element from `lo` to `hi` comes behind `p`. -/
def Below (lt : α → α → Prop) (p : α) (lo hi : ℕ) (a : List α) : Prop :=
  ∀ k x, lo ≤ k → k < hi → a[k]? = some x → ¬ lt p x

/-- No element from `lo` to `hi` comes before `p`. -/
def Above (lt : α → α → Prop) (p : α) (lo hi : ℕ) (a : List α) : Prop :=
  ∀ k x, lo ≤ k → k < hi → a[k]? = some x → ¬ lt x p

variable {lt : α → α → Prop} {lo i hi : ℕ} {p : α} {a : List α}

theorem Ordered.outside {b : List α} {lo' hi' : ℕ} (h : Ordered lt lo hi a)
    (hre : Rearranges lo' hi' a b) (hout : hi ≤ lo' ∨ hi' ≤ lo) : Ordered lt lo hi b := by
  intro k l x y hlo hkl hhi hx hy
  rw [hre.outside (by omega)] at hx
  rw [hre.outside (by omega)] at hy
  exact h k l x y hlo hkl hhi hx hy

theorem Below.append {j : ℕ} (h : Below lt p lo i a) (h' : Below lt p i j a) :
    Below lt p lo j a := by
  intro l x hl hlj hx
  by_cases hli : l < i
  · exact h l x hl hli hx
  · exact h' l x (Nat.not_lt.mp hli) hlj hx

theorem Above.append {j : ℕ} (h : Above lt p lo i a) (h' : Above lt p i j a) :
    Above lt p lo j a := by
  intro l x hl hlj hx
  by_cases hli : l < i
  · exact h l x hl hli hx
  · exact h' l x (Nat.not_lt.mp hli) hlj hx

/-- **Parts that are in order** on both sides of `p`. -/
theorem Ordered.join (hw : StrictWeak lt) (hp : a[i]? = some p) (hlow : Ordered lt lo i a)
    (hhigh : Ordered lt (i + 1) hi a) (hbelow : Below lt p lo i a)
    (habove : Above lt p (i + 1) hi a) : Ordered lt lo hi a := by
  intro k l x y hlo hkl hhi hx hy
  obtain hli | hil | hil := Nat.lt_trichotomy l i
  · exact hlow k l x y hlo hkl hli hx hy
  · rw [hil, hp] at hy
    rw [← Option.some.inj hy]
    exact hbelow k x hlo (by omega) hx
  · have hyp := habove l y hil hhi hy
    obtain hki | hik | hik := Nat.lt_trichotomy k i
    · exact hw.trans x p y (hbelow k x hlo hki hx) hyp
    · rw [hik, hp] at hx
      rwa [← Option.some.inj hx]
    · exact hhigh k l x y hik hkl hhi hx hy

/-- A part between two others, as a list. -/
theorem Ordered.pairwise {before l after : List α}
    (h : Ordered lt before.length (before.length + l.length) (before ++ l ++ after)) :
    l.Pairwise fun x y => ¬ lt y x := by
  rw [List.pairwise_iff_getElem]
  intro k m hk hm hkm
  have hget : ∀ n (hn : n < l.length),
      (before ++ l ++ after)[before.length + n]? = some l[n] := fun n hn => by
    rw [List.append_assoc, List.getElem?_append_right (Nat.le_add_right _ _),
      Nat.add_sub_cancel_left, List.getElem?_append_left hn, List.getElem?_eq_getElem hn]
  exact h _ _ _ _ (Nat.le_add_right _ k) (Nat.add_lt_add_left hkm _) (Nat.add_lt_add_left hm _)
    (hget k hk) (hget m hm)

end QServ
