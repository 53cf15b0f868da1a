import Mathlib.Data.List.Nodup
import Mathlib.Logic.Function.Basic

/-!
# Counting by kinds

Things are counted in a list with one entry for each kind: the entry of a kind that has been seen is
increased, a new kind gets a new entry behind the others.

* `bump`: one thing is counted.
* `Tallies`: the list has an entry for each kind that a count is positive for, and no other.
* `Tallies.bump`: one more thing of a kind.
* `trailing`: the entries of a list, the greatest first, but for the first where it is the greatest
  alone; `Tallies.mem_trailing_iff` is what they are about.
-/

namespace Tally

variable {β κ : Type*} [DecidableEq κ] {key : β → κ} {count : β → Nat} {inc : β → β}

/-- One more of the kind of a new entry. -/
def bump (key : β → κ) (inc : β → β) (new : β) : List β → List β
  | [] => [new]
  | b :: bs => if key b = key new then inc b :: bs else b :: bump key inc new bs

/-- The entries of a list count what a function says. -/
structure Tallies (key : β → κ) (count : β → Nat) (bs : List β) (f : κ → Nat) : Prop where
  nodup : (bs.map key).Nodup
  count : ∀ b ∈ bs, count b = f (key b)
  all : ∀ k, 0 < f k ↔ k ∈ bs.map key

omit [DecidableEq κ] in
theorem tallies_nil : Tallies key count [] fun _ => 0 :=
  ⟨List.nodup_nil, nofun, fun k => by simp⟩

theorem mem_keys_bump (hkey : ∀ b, key (inc b) = key b) {bs : List β} {new : β} {k : κ} :
    k ∈ (bump key inc new bs).map key ↔ k = key new ∨ k ∈ bs.map key := by
  induction bs with
  | nil => simp [bump]
  | cons b bs ih =>
    unfold bump
    split
    · next h => simp [hkey, h]
    · rw [List.map_cons, List.mem_cons, ih, List.map_cons, List.mem_cons]
      tauto

theorem nodup_bump (hkey : ∀ b, key (inc b) = key b) {bs : List β} {new : β}
    (h : (bs.map key).Nodup) : ((bump key inc new bs).map key).Nodup := by
  induction bs with
  | nil => simp [bump]
  | cons b bs ih =>
    obtain ⟨hb, hbs⟩ := List.nodup_cons.mp h
    unfold bump
    split
    · rw [List.map_cons, hkey]
      exact h
    · next hne =>
      refine List.nodup_cons.mpr ⟨fun hmem => ?_, ih hbs⟩
      obtain heq | hmem := (mem_keys_bump hkey).mp hmem
      · exact hne heq
      · exact hb hmem

theorem count_bump (hkey : ∀ b, key (inc b) = key b) (hinc : ∀ b, count (inc b) = count b + 1)
    {bs : List β} {new : β} (hnew : count new = 1) {f : κ → Nat} (hnodup : (bs.map key).Nodup)
    (hcount : ∀ b ∈ bs, count b = f (key b)) (hall : key new ∉ bs.map key → f (key new) = 0) :
    ∀ b ∈ bump key inc new bs, count b = f (key b) + if key b = key new then 1 else 0 := by
  induction bs with
  | nil =>
    intro b hb
    rw [List.mem_singleton.mp hb, hnew, hall (by simp), if_pos rfl]
  | cons c bs ih =>
    intro b hb
    obtain ⟨hc, hbs⟩ := List.nodup_cons.mp hnodup
    unfold bump at hb
    split at hb
    · next heq =>
      obtain rfl | hb := List.mem_cons.mp hb
      · rw [hinc, hcount c List.mem_cons_self, hkey, if_pos heq]
      · have hne : key b ≠ key new := fun h => hc (heq ▸ h ▸ List.mem_map_of_mem hb)
        rw [hcount b (List.mem_cons_of_mem _ hb), if_neg hne, Nat.add_zero]
    · next hne =>
      obtain rfl | hb := List.mem_cons.mp hb
      · rw [hcount b List.mem_cons_self, if_neg hne, Nat.add_zero]
      · refine ih hbs (fun b hb => hcount b (List.mem_cons_of_mem _ hb)) (fun hno => ?_) b hb
        refine hall fun hmem => ?_
        obtain heq | hmem := List.mem_cons.mp hmem
        · exact hne heq.symm
        · exact hno hmem

/-- **One more.** -/
theorem Tallies.bump {bs : List β} {f : κ → Nat} (h : Tallies key count bs f) (inc : β → β)
    (new : β) (hkey : ∀ b, key (inc b) = key b) (hinc : ∀ b, count (inc b) = count b + 1)
    (hnew : count new = 1) :
    Tallies key count (Tally.bump key inc new bs) fun k => f k + if k = key new then 1 else 0 := by
  refine ⟨nodup_bump hkey h.nodup, ?_, fun k => ?_⟩
  · refine count_bump hkey hinc hnew h.nodup h.count fun hno => ?_
    have := mt (h.all (key new)).mp hno
    omega
  · rw [mem_keys_bump hkey, ← h.all]
    split
    · next heq => simp [heq]
    · next hne => simp [hne]

omit [DecidableEq κ] in
theorem Tallies.perm {bs bs' : List β} {f : κ → Nat} (h : Tallies key count bs f)
    (hperm : bs.Perm bs') : Tallies key count bs' f where
  nodup := (hperm.map key).nodup_iff.mp h.nodup
  count b hb := h.count b (hperm.mem_iff.mpr hb)
  all k := (h.all k).trans (hperm.map key).mem_iff

/-- The entries that do not lead. -/
def trailing (count : β → Nat) : List β → List β
  | a :: b :: bs => if count a ≤ count b then a :: b :: bs else b :: bs
  | _ => []

/-- There are more of a kind than of any other. -/
def Leads (f : κ → Nat) (k : κ) : Prop := ∀ c, c ≠ k → f c < f k

omit [DecidableEq κ] in
/-- **Who trails**, with the greatest counts first. -/
theorem Tallies.mem_trailing_iff {bs : List β} {f : κ → Nat} (h : Tallies key count bs f)
    (hsort : bs.Pairwise fun a b => count b ≤ count a) {k : κ} (hk : 0 < f k) :
    k ∈ (trailing count bs).map key ↔ ¬Leads f k := by
  have hmem := (h.all k).mp hk
  cases bs with
  | nil => simp at hmem
  | cons a bs =>
    have ha := h.count a List.mem_cons_self
    cases bs with
    | nil =>
      -- the only kind leads
      have heq : k = key a := by simpa using hmem
      refine iff_of_false (by simp [trailing]) fun hno => hno fun c hc => ?_
      have hzero : ¬0 < f c := fun hpos => hc (by simpa [heq] using (h.all c).mp hpos)
      omega
    | cons b bs =>
      have hb := h.count b (by simp)
      obtain ⟨hall, hrest⟩ := List.pairwise_cons.mp hsort
      obtain ⟨hfresh, -⟩ := List.nodup_cons.mp h.nodup
      have hle : count b ≤ count a := hall b List.mem_cons_self
      have hba : key b ≠ key a := fun heq => hfresh (heq ▸ List.mem_map_of_mem List.mem_cons_self)
      by_cases hka : k = key a
      · subst hka
        by_cases htie : count a ≤ count b
        · rw [trailing, if_pos htie]
          refine iff_of_true hmem fun hlead => ?_
          have hlt := hlead (key b) hba
          omega
        · rw [trailing, if_neg htie]
          refine iff_of_false hfresh fun hno => hno fun c hc => ?_
          by_cases hpos : 0 < f c
          · obtain ⟨x, hx, rfl⟩ := List.mem_map.mp ((h.all c).mp hpos)
            have hcx := h.count x hx
            obtain rfl | hx := List.mem_cons.mp hx
            · exact absurd rfl hc
            · have hxb : count x ≤ count b := by
                obtain rfl | hx := List.mem_cons.mp hx
                · exact Nat.le_refl _
                · exact (List.pairwise_cons.mp hrest).1 x hx
              omega
          · omega
      · have hkb : k ∈ (b :: bs).map key := by
          obtain heq | hmem := List.mem_cons.mp hmem
          · exact absurd heq hka
          · exact hmem
        have htrail : k ∈ (trailing count (a :: b :: bs)).map key := by
          rw [trailing]
          split
          · exact hmem
          · exact hkb
        refine iff_of_true htrail fun hlead => ?_
        obtain ⟨x, hx, rfl⟩ := List.mem_map.mp hkb
        have hcx := h.count x (List.mem_cons_of_mem a hx)
        have hlt := hlead (key a) (Ne.symm hka)
        have hxa := hall x hx
        omega

end Tally
