import Mathlib.Algebra.Order.BigOperators.Group.List
import Mathlib.Data.UInt
import QServ.Lib.Cstring
import QServ.Script.Aliases

/-!
# Concatenation

`conc` of `engine/command.cpp` joins the texts of values: into an array of the length that it
computes before, if all of them are there as texts, else into a vector that grows.

* `conc`, `concbuf`: the two overloads; a write outside the array is none.
* `joined`: the texts with or without blanks between them.
* `conc_exact`: both join, unless the first has to put a blank behind a prefix.
-/

namespace QServ

namespace Script

open Cstring

variable {F : Type}

/-- `VAL_STR` or `VAL_MACRO`. -/
def Tagval.texty : Tagval F → Bool
  | .VAL_STR _ | .VAL_MACRO _ => true
  | _ => false

/-- `code[-1]>>8` before the text of a macro, whose length was put there with `len<<8`. -/
def macrolen (s : Text) : Nat := s.length * 2 ^ 8 % 2 ^ 32 / 2 ^ 8

/-- The length that is taken for the text of a value. -/
def Tagval.len (floatstr : F → Text) : Tagval F → Nat
  | .VAL_MACRO s => macrolen s
  | v => (getstr floatstr v).length

/-- The blank between two values. -/
def separator (space : Bool) : Text := if space then [0x20] else []

/-- The loop over the values of the first `conc`. -/
def putvalues (floatstr : F → Text) (space : Bool) (buf : Text) : List (Tagval F) → Text
  | [] => buf
  | [v] => buf ++ (getstr floatstr v).take (v.len floatstr)
  | v :: w :: vs =>
    putvalues floatstr space
      (buf ++ (getstr floatstr v).take (v.len floatstr) ++ separator space) (w :: vs)

/-- `conc(buf, v, n, space, prefix, prefixlen)` without the zero at the end. -/
def concbuf (floatstr : F → Text) (vs : List (Tagval F)) (space : Bool) (pre : Option Text) :
    Text :=
  match pre with
  | some pre => putvalues floatstr space (pre ++ separator (space && vs ≠ [])) vs
  | none => putvalues floatstr space [] vs

/-- `if(space) strcat(buf, " ")`. -/
def catspace (space : Bool) (buf : Text) : Option Text :=
  if space then strcat buf [0x20] else some buf

/-- The loop over the values of the second `conc`. -/
def catvalues (floatstr : F → Text) (space : Bool) (buf : Text) : List (Tagval F) → Option Text
  | [] => some buf
  | [v] => strcat buf (getstr floatstr v)
  | v :: w :: vs => do
    let buf ← strcat buf (getstr floatstr v)
    let buf ← catspace space buf
    catvalues floatstr space buf (w :: vs)

/-- The `len` of the second `conc`. -/
def conclen (floatstr : F → Text) (vs : List (Tagval F)) (space : Bool) (pre : Option Text) : Nat :=
  (if space then if pre.isSome then vs.length else vs.length - 1 else 0) +
    (pre.getD []).length + (vs.map (Tagval.len floatstr)).sum

/-- `if(prefix && space && n) { buf[prefixlen] = ' '; buf[prefixlen] = '\0'; }` -/
def putpre (buf : Text) (vs : List (Tagval F)) (space : Bool) : Option Text → Option Text
  | some pre =>
    if space && vs ≠ [] then do
      let buf ← write buf pre.length [0x20]
      write buf pre.length [0]
    else some buf
  | none => some buf

/-- `conc(v, n, space, prefix)`: the text that is returned. -/
def conc (floatstr : F → Text) (vs : List (Tagval F)) (space : Bool) (pre : Option Text) :
    Option Text :=
  if vs.all Tagval.texty then do
    let buf := strncpy (pre.getD []) (conclen floatstr vs space pre + 1)
    let buf ← putpre buf vs space pre
    let buf ← catvalues floatstr space buf vs
    some (text buf)
  else
    let buf := concbuf floatstr vs space pre
    some (text (strncpy buf (buf.length + 1)))

/-- The texts of the values behind the prefix, with blanks between them where they are asked for. -/
def joined (floatstr : F → Text) (vs : List (Tagval F)) (space : Bool) (pre : Option Text) : Text :=
  (separator space).intercalate (pre.toList ++ vs.map (getstr floatstr))

section

variable {floatstr : F → Text} {vs : List (Tagval F)} {space : Bool} {pre : Option Text}

/-! ## Texts with something between them -/

theorem length_intercalate (sep : Text) (l : List Text) : (sep.intercalate l).length =
    (l.map List.length).sum + sep.length * (l.length - 1) := by
  induction l with
  | nil => rfl
  | cons s l ih =>
    cases l with
    | nil => simp
    | cons t l =>
      rw [List.intercalate_cons_cons, List.length_append, List.length_append, ih]
      simp only [List.map_cons, List.sum_cons, List.length_cons, Nat.add_sub_cancel]
      ring

theorem not_mem_intercalate {sep : Text} {l : List Text} {c : UInt8} (hsep : c ∉ sep)
    (hl : ∀ s ∈ l, c ∉ s) : c ∉ sep.intercalate l := by
  induction l with
  | nil => exact List.not_mem_nil
  | cons s l ih =>
    have hrest := ih fun t ht => hl t (List.mem_cons_of_mem s ht)
    have hs := hl s List.mem_cons_self
    cases l with
    | nil => simpa using hs
    | cons t l =>
      rw [List.intercalate_cons_cons]
      simp only [List.mem_append, not_or]
      exact ⟨⟨hs, hsep⟩, hrest⟩

theorem zero_not_mem_separator (space : Bool) : 0 ∉ separator space := by
  cases space <;> decide +kernel

/-! ## Lengths -/

theorem len_le (v : Tagval F) : v.len floatstr ≤ (getstr floatstr v).length := by
  cases v with
  | VAL_MACRO s =>
    simp only [Tagval.len, macrolen, getstr]
    omega
  | _ => exact le_rfl

/-- The length of a macro is there if it fits into 24 bits. -/
theorem len_eq_iff (v : Tagval F) : v.len floatstr = (getstr floatstr v).length ↔
    ∀ s, v = .VAL_MACRO s → s.length < 2 ^ 24 := by
  cases v with
  | VAL_MACRO s =>
    simp only [Tagval.len, macrolen, getstr, Tagval.VAL_MACRO.injEq, forall_eq']
    omega
  | _ => simp [Tagval.len]

/-- What the first `conc` takes of a value. -/
def Tagval.cut (floatstr : F → Text) (v : Tagval F) : Text :=
  (getstr floatstr v).take (v.len floatstr)

theorem length_cut (v : Tagval F) : (v.cut floatstr).length = v.len floatstr := by
  rw [Tagval.cut, List.length_take, Nat.min_eq_left (len_le v)]

theorem cut_eq (hfit : ∀ s, .VAL_MACRO s ∈ vs → s.length < 2 ^ 24) :
    vs.map (Tagval.cut floatstr) = vs.map (getstr floatstr) := by
  refine List.map_congr_left fun v hv => ?_
  have hlen : v.len floatstr = (getstr floatstr v).length :=
    (len_eq_iff v).mpr fun s hs => hfit s (hs ▸ hv)
  rw [Tagval.cut, hlen, List.take_length]

/-! ## The vector -/

theorem putvalues_eq (buf : Text) (vs : List (Tagval F)) : putvalues floatstr space buf vs =
    buf ++ (separator space).intercalate (vs.map (Tagval.cut floatstr)) := by
  fun_induction putvalues floatstr space buf vs with
  | case1 buf => simp
  | case2 buf v => simp [Tagval.cut]
  | case3 buf v w vs ih =>
    rw [ih]
    simp only [List.map_cons, List.intercalate_cons_cons, List.append_assoc, Tagval.cut]

theorem intercalate_toList (sep : Text) (l : List Text) (pre : Option Text) :
    sep.intercalate (pre.toList ++ l) =
      pre.getD [] ++ (if pre.isSome ∧ l ≠ [] then sep else []) ++ sep.intercalate l := by
  cases pre with
  | none => simp
  | some pre => cases l <;> simp

theorem concbuf_eq (vs : List (Tagval F)) (space : Bool) (pre : Option Text) :
    concbuf floatstr vs space pre =
      (separator space).intercalate (pre.toList ++ vs.map (Tagval.cut floatstr)) := by
  rw [intercalate_toList]
  cases pre with
  | none => simp [concbuf, putvalues_eq]
  | some pre =>
    rw [concbuf, putvalues_eq]
    cases vs <;> cases space <;> simp [separator]

/-- The vector has the texts joined if and only if each has its length. -/
theorem concbuf_joined : concbuf floatstr vs space pre = joined floatstr vs space pre ↔
    ∀ s, .VAL_MACRO s ∈ vs → s.length < 2 ^ 24 := by
  rw [concbuf_eq, joined]
  constructor
  · intro h s hs
    by_contra hlong
    have hlen := congrArg List.length h
    simp only [length_intercalate, List.map_append, List.sum_append, List.length_append,
      List.length_map, List.map_map] at hlen
    have hlt : (vs.map (List.length ∘ Tagval.cut floatstr)).sum <
        (vs.map (List.length ∘ getstr floatstr)).sum := by
      refine List.sum_lt_sum _ _ (fun v _ => ?_) ⟨.VAL_MACRO s, hs, ?_⟩
      · exact (length_cut v).trans_le (len_le v)
      · refine (length_cut _).trans_lt (lt_of_le_of_ne (len_le _) fun heq => hlong ?_)
        exact (len_eq_iff _).mp heq s rfl
    omega
  · intro hfit
    rw [cut_eq hfit]

/-! ## The array -/

theorem catvalues_holds (hvs : ∀ v ∈ vs, 0 ∉ getstr floatstr v) : ∀ {buf t : Text} {size : Nat},
    Holds buf size t →
    t.length + ((separator space).intercalate (vs.map (getstr floatstr))).length < size →
    ∃ buf', catvalues floatstr space buf vs = some buf' ∧
      Holds buf' size (t ++ (separator space).intercalate (vs.map (getstr floatstr))) := by
  induction vs with
  | nil =>
    intro buf t size h _
    exact ⟨buf, rfl, by simpa using h⟩
  | cons v vs ih =>
    intro buf t size h hroom
    have hv := hvs v List.mem_cons_self
    cases vs with
    | nil =>
      simp only [List.map_cons, List.map_nil, List.intercalate_singleton] at hroom ⊢
      exact h.strcat hv hroom
    | cons w vs =>
      simp only [List.map_cons, List.intercalate_cons_cons, List.length_append] at hroom ih ⊢
      obtain ⟨b, hcat, hb⟩ := h.strcat hv (by omega)
      obtain ⟨b', hsep, hb'⟩ : ∃ b', catspace space b = some b' ∧
          Holds b' size (t ++ getstr floatstr v ++ separator space) := by
        cases space with
        | false => exact ⟨b, rfl, by simpa [separator] using hb⟩
        | true =>
          refine hb.strcat (by decide +kernel) ?_
          simp only [separator, if_true, List.length_append, List.length_singleton] at hroom ⊢
          omega
      obtain ⟨buf', hrest, hdone⟩ := ih (fun x hx => hvs x (List.mem_cons_of_mem v hx)) hb'
        (by simp only [List.length_append]; omega)
      refine ⟨buf', ?_, ?_⟩
      · simp only [catvalues, hcat, hsep, Option.bind_eq_bind, Option.bind_some, hrest]
      · simpa only [List.append_assoc] using hdone

theorem putpre_holds {buf : Text} {size : Nat} (h : Holds buf size (pre.getD [])) :
    putpre buf vs space pre = some buf := by
  cases pre with
  | none => rfl
  | some pre =>
    rw [putpre]
    split
    · exact h.rewrite 0x20
    · rfl

/-- The length is enough. -/
theorem conclen_ge (hfit : ∀ s, .VAL_MACRO s ∈ vs → s.length < 2 ^ 24) : (pre.getD []).length +
    ((separator space).intercalate (vs.map (getstr floatstr))).length ≤
      conclen floatstr vs space pre := by
  have hlen : (vs.map (getstr floatstr)).map List.length = vs.map (Tagval.len floatstr) := by
    rw [List.map_map]
    exact List.map_congr_left fun v hv => ((len_eq_iff v).mpr fun s hs => hfit s (hs ▸ hv)).symm
  rw [length_intercalate, hlen, conclen, List.length_map]
  cases space with
  | false =>
    simp only [separator, Bool.false_eq_true, if_false, List.length_nil]
    omega
  | true =>
    simp only [separator, if_true, List.length_singleton]
    split <;> omega

/-- The array has the texts with nothing between the prefix and the first. -/
theorem conc_texty (htext : vs.all Tagval.texty) (hvs : ∀ v ∈ vs, 0 ∉ getstr floatstr v)
    (hpre : 0 ∉ pre.getD []) (hfit : ∀ s, .VAL_MACRO s ∈ vs → s.length < 2 ^ 24) :
    conc floatstr vs space pre =
      some (pre.getD [] ++ (separator space).intercalate (vs.map (getstr floatstr))) := by
  have hroom : (pre.getD []).length +
      ((separator space).intercalate (vs.map (getstr floatstr))).length <
        conclen floatstr vs space pre + 1 := Nat.lt_succ_of_le (conclen_ge hfit)
  have hshort : (pre.getD []).length < conclen floatstr vs space pre + 1 := by omega
  have hnew := holds_strncpy hpre hshort
  obtain ⟨buf, hcat, hbuf⟩ := catvalues_holds hvs hnew hroom
  rw [conc, if_pos htext]
  simp only [putpre_holds hnew, hcat, Option.bind_eq_bind, Option.bind_some, hbuf.text_eq]

theorem conc_other (htext : ¬vs.all Tagval.texty) (hvs : ∀ v ∈ vs, 0 ∉ getstr floatstr v)
    (hpre : 0 ∉ pre.getD []) : conc floatstr vs space pre =
      some (concbuf floatstr vs space pre) := by
  have hzero : 0 ∉ concbuf floatstr vs space pre := by
    rw [concbuf_eq]
    refine not_mem_intercalate (zero_not_mem_separator space) fun s hs => ?_
    rcases List.mem_append.mp hs with hs | hs
    · cases pre with
      | none => simp at hs
      | some pre => rwa [List.eq_of_mem_singleton hs]
    · obtain ⟨v, hv, rfl⟩ := List.mem_map.mp hs
      exact fun h => hvs v hv (List.mem_of_mem_take h)
  rw [conc, if_neg htext]
  dsimp only
  rw [(holds_strncpy hzero (Nat.lt_succ_self _)).text_eq]

/-- A blank is missing behind the prefix if and only if there should be one. -/
theorem unspaced_eq_joined : pre.getD [] ++
      (separator space).intercalate (vs.map (getstr floatstr)) = joined floatstr vs space pre ↔
    ¬(pre.isSome ∧ space = true ∧ vs ≠ []) := by
  rw [joined, intercalate_toList, List.append_cancel_right_eq, List.self_eq_append_right]
  cases pre <;> cases space <;> cases vs <;> simp [separator]

/-- **`conc`** joins the texts, in the array and in the vector, unless a macro is too long for its
header or a prefix and a blank are put into the array.  The array is long enough for all of them. -/
theorem conc_exact (hvs : ∀ v ∈ vs, 0 ∉ getstr floatstr v) (hpre : 0 ∉ pre.getD []) :
    ((conc floatstr vs space pre = some (joined floatstr vs space pre) ∧
        concbuf floatstr vs space pre = joined floatstr vs space pre) ↔
      (∀ s, .VAL_MACRO s ∈ vs → s.length < 2 ^ 24) ∧
        ¬(vs.all Tagval.texty ∧ pre.isSome ∧ space = true ∧ vs ≠ [])) ∧
    ((∀ s, .VAL_MACRO s ∈ vs → s.length < 2 ^ 24) → (conc floatstr vs space pre).isSome) := by
  by_cases htext : vs.all Tagval.texty
  · refine ⟨⟨fun ⟨h, hbuf⟩ => ?_, fun ⟨hfit, h⟩ => ?_⟩, fun hfit => ?_⟩
    · have hfit := concbuf_joined.mp hbuf
      rw [conc_texty htext hvs hpre hfit, Option.some_inj, unspaced_eq_joined] at h
      exact ⟨hfit, fun hall => h hall.2⟩
    · have hblank : pre.getD [] ++ (separator space).intercalate (vs.map (getstr floatstr)) =
          joined floatstr vs space pre := unspaced_eq_joined.mpr fun hall => h ⟨htext, hall⟩
      exact ⟨by rw [conc_texty htext hvs hpre hfit, hblank], concbuf_joined.mpr hfit⟩
    · rw [conc_texty htext hvs hpre hfit, Option.isSome_some]
  · rw [conc_other htext hvs hpre, Option.some_inj, and_self, concbuf_joined]
    exact ⟨⟨fun hfit => ⟨hfit, fun hall => htext hall.1⟩, fun h => h.1⟩, fun _ => rfl⟩

/-- A number, which needs the vector, behind a prefix. -/
theorem conc_exact_number :
    conc (F := Empty) nofun [.VAL_STR (word "b"), .VAL_INT 2] true (some (word "a")) =
      some (word "a b 2") :=
  (((conc_exact (by decide +kernel) (by decide +kernel)).1.mpr
    ⟨by simp, by decide +kernel⟩).1).trans (by decide +kernel)

/-- The texts `a` and `b` with a blank are `ab` in the array. -/
theorem conc_unspaced :
    conc (F := Empty) nofun [.VAL_STR (word "b")] true (some (word "a")) = some (word "ab") ∧
      concbuf (F := Empty) nofun [.VAL_STR (word "b")] true (some (word "a")) = word "a b" ∧
      joined (F := Empty) nofun [.VAL_STR (word "b")] true (some (word "a")) = word "a b" := by
  decide +kernel

end

end Script

end QServ
