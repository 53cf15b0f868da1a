import QServ.Script.Compiled

/-!
# Blocks

A block in brackets is one value, whatever is substituted in it.

* `Scanned`: the loop over the characters of a block has left its pieces on a stack of their own.
* `compileblock_spec`: the block is a value, and what is behind it is left.
-/

namespace QServ

namespace Script

open Loop

variable {strict : Prop} {c c' : Compiler} {k m : Nat}

/-! ## Texts of blocks -/

theorem strcspn_cons_suffix {reject : String} {ch : UInt8} {p : Text} (h : ch ∉ word reject) :
    strcspn reject (ch :: p) <:+ p := by
  rw [strcspn, List.dropWhile_cons_of_pos (by simpa using h)]
  exact List.dropWhile_suffix _

theorem blockstr_spec (str : Text) (stop : Nat) : Yields (blockstr str stop) fun _ => True := by
  refine loop_spec (fun _ => True) (fun s => s.1.length) (fun _ => True)
    (fun s _ => ?_) _ _ trivial (Nat.lt_succ_self _)
  obtain ⟨str, buf⟩ := s
  have hless {p q rest : Text} {ch : UInt8} (hq : ch :: rest <:+ q) (hp : p <:+ rest) :
      p.length < q.length := by
    have hlen := hq.length_le
    have hlen' := hp.length_le
    rw [List.length_cons] at hlen
    omega
  simp only [blockstrstep]
  split
  · exact .pure trivial
  · have hq : strcspn "\r/\"@]" str <:+ str := strcspn_suffix _ _
    cases hcut : strcspn "\r/\"@]" str with
    | nil => exact .pure trivial
    | cons ch rest =>
      rw [hcut] at hq
      simp only
      repeat' split
      · exact .pure ⟨trivial, hless hq List.suffix_rfl⟩
      · exact .pure ⟨trivial, hless hq ((skipquote_suffix _).trans (parsestring_suffix _))⟩
      · next hslash _ =>
        refine .pure ⟨trivial, hless hq (strcspn_cons_suffix ?_)⟩
        rw [hslash]
        decide
      · exact .pure ⟨trivial, hless hq List.suffix_rfl⟩
      · exact .pure ⟨trivial, hless hq List.suffix_rfl⟩
      · exact .pure trivial

variable (strict) in
theorem compileblockstr_spec (c : Compiler) (str : Text) (stop : Nat) (mac : Bool)
    (hroom : strict → k ≤ MAXARGS) :
    Yields (compileblockstr c str stop mac) fun c' => Makes strict c c' k (k + 1) := by
  refine (blockstr_spec str stop).bind fun buf _ => .pure ?_
  cases mac with
  | true => exact .addtext (.inl ⟨rfl, rfl⟩) c buf hroom
  | false => exact .addtext (.inr ⟨rfl, rfl⟩) c buf hroom

/-! ## Substitutions -/

theorem Makes.subnamed (c : Compiler) (lookup : Text) (hroom : strict → k ≤ MAXARGS) :
    Makes strict c (subnamed c lookup) k (k + 1) := by
  have hname : Makes strict c (c.newident lookup).1 k k := .newident c lookup fun _ => rfl
  unfold Script.subnamed
  generalize c.newident lookup = x at hname ⊢
  obtain ⟨c', id, type⟩ := x
  cases type with
  | ID_VAR hex => exact hname.trans (.push _ hroom rfl rfl _)
  | ID_FVAR => exact hname.trans (.push _ hroom rfl rfl _)
  | ID_SVAR => exact hname.trans (.push _ hroom rfl rfl _)
  | ID_ALIAS =>
    refine hname.trans ?_
    simp only
    split
    · exact .push _ hroom rfl rfl _
    · exact .push _ hroom rfl rfl _
  | _ => exact (hname.trans (.compilestr _ hroom _ _)).trans (lookupu_makes _ _ hroom)

section Functions

variable {F : Type} {fl : Floats F} {r : Rec} {n : Nat}

/-- What `compileblocksub` leaves: a value, if there was something to substitute. -/
structure Substituted (strict : Prop) (c : Compiler) (p : Text) (k : Nat)
    (x : Compiler × Text × Bool) : Prop where
  rest : x.2.1 <:+ p
  makes : Makes strict c x.1 k (if x.2.2 then k + 1 else k)

variable (strict) in
theorem compileblocksub_spec (hr : RecSpec n r) (c : Compiler) (p : Text) (hlen : p.length < n)
    (hreg : Registered c.idents) (hroom : strict → k ≤ MAXARGS) :
    Yields (compileblocksub r c p) (Substituted strict c p k) := by
  unfold compileblocksub
  split
  · exact (hr.arg strict c p .VAL_STR k hlen hreg rfl nofun hroom).imp fun x hx => ⟨hx.rest, hx.makes⟩
  · split
    · refine (hr.arg strict c p .VAL_STR k hlen hreg rfl nofun hroom).bind ?_
      rintro ⟨c', q, more⟩ hx
      refine .pure ⟨hx.rest, ?_⟩
      have hmakes := hx.makes
      cases more with
      | true => exact hmakes.trans (lookupu_makes _ _ hroom)
      | false => exact hmakes
    · split
      · next hquote =>
        have hp : p ≠ [] := by
          rintro rfl
          cases hquote
        exact .pure ⟨(cutstring_spec hp).1, .subnamed c _ hroom⟩
      · simp only
        split
        · exact .pure ⟨List.suffix_rfl, .refl c fun _ => rfl⟩
        · exact .pure ⟨List.drop_suffix _ _, .subnamed c _ hroom⟩

/-! ## The loop -/

/-- How far `compileblock` has come: the pieces are values of their own. -/
structure Scanned (strict : Prop) (c : Compiler) (p : Text) (s : Blockscan) : Prop where
  start : s.start <:+ p
  rest : s.p <:+ s.start
  unopened : s.concs = 0 → s.c = c
  opened : s.concs ≠ 0 → Makes strict (c.add (inst .ENTER .RET_NULL 0)) s.c 0 s.concs
  few : s.concs ≤ MAXARGS

variable {p : Text} {s : Blockscan}

theorem Scanned.registered (h : Scanned strict c p s) (hreg : Registered c.idents) :
    Registered s.c.idents := by
  by_cases hconcs : s.concs = 0
  · rwa [h.unopened hconcs]
  · exact (h.opened hconcs).registered hreg

/-- Characters that are passed. -/
theorem Scanned.pass (h : Scanned strict c p s) {q : Text} (hq : q <:+ s.p) (brak : Nat) :
    Scanned strict c p { s with p := q, brak } :=
  ⟨h.start, hq.trans h.rest, h.unopened, h.opened, h.few⟩

/-- The pieces are few enough for two more. -/
theorem Scanned.pieces (h : Scanned strict c p s) : s.pieces.2 + 2 ≤ MAXARGS ∧
    Makes strict (c.add (inst .ENTER .RET_NULL 0)) s.pieces.1 0 s.pieces.2 := by
  have hopen : Makes strict (c.add (inst .ENTER .RET_NULL 0))
      (if s.concs = 0 then s.c.add (inst .ENTER .RET_NULL 0) else s.c) 0 s.concs := by
    split
    · next hconcs =>
      rw [h.unopened hconcs, hconcs]
      exact .refl _ fun _ => rfl
    · next hconcs => exact h.opened hconcs
  unfold Blockscan.pieces
  simp only
  split
  · refine ⟨Nat.le_of_ble_eq_true rfl, hopen.trans ?_⟩
    have hconcw (c' : Compiler) : Makes strict c' (c'.emit .CONCW .RET_STR s.concs) s.concs
        (s.concs - s.concs + 1) :=
      .emit rfl c' s.concs s.concs fun _ _ _ _ => .of le_rfl (Nat.le_succ_of_le h.few)
    rw [Nat.sub_self] at hconcw
    exact hconcw _
  · next hfew => exact ⟨Nat.le_of_not_lt hfew, hopen⟩

/-- **A substitution** is a piece for the text before it and one for what is substituted. -/
theorem compilesub_spec (hr : RecSpec n r) (hreg : Registered c.idents) (hp : p.length < n)
    (h : Scanned strict c p s) :
    Yields (compilesub r s) fun t => Scanned strict c p t ∧ t.p <:+ s.p := by
  have hesc : strspn "@" s.p <:+ s.p := strspn_suffix _ _
  unfold compilesub
  simp only
  split
  · exact .pure ⟨h.pass hesc s.brak, hesc⟩
  · obtain ⟨hfew, hopen⟩ := h.pieces
    refine (compileblockstr_spec strict s.pieces.1 s.start (s.p.length + 1) true
      fun _ => Nat.le_of_succ_le (Nat.le_of_succ_le hfew)).bind fun c₁ hstr => ?_
    have hstr' := hopen.trans hstr
    have hrest : strspn "@" s.p <:+ p := hesc.trans (h.rest.trans h.start)
    refine (compileblocksub_spec strict hr c₁ (strspn "@" s.p)
      (Nat.lt_of_le_of_lt hrest.length_le hp) (hstr'.registered hreg)
      fun _ => Nat.le_of_succ_le hfew).bind ?_
    rintro ⟨c₂, q, sub⟩ hsub
    have hmakes := hstr'.trans hsub.makes
    refine .pure ⟨⟨hsub.rest.trans hrest, List.suffix_rfl, ?_, ?_, ?_⟩, hsub.rest.trans hesc⟩
    · cases sub <;> simp
    · cases sub <;> exact fun _ => hmakes
    · cases sub
      · exact Nat.le_of_succ_le hfew
      · exact hfew

theorem blockstep_spec (hr : RecSpec n r) (hreg : Registered c.idents) (hp : p.length < n)
    (h : Scanned strict c p s) :
    Yields (blockstep r s) (Round (Scanned strict c p) (fun s => s.p.length)
      (fun x => Scanned strict c p x.1) s) := by
  unfold blockstep
  split
  · exact .pure h
  · have hcut : strcspn "@\"/[]" s.p <:+ s.p := strcspn_suffix _ _
    cases hstop : strcspn "@\"/[]" s.p with
    | nil => exact .pure (h.pass List.nil_suffix s.brak)
    | cons ch q =>
      rw [hstop] at hcut
      have hq : q <:+ s.p := (List.suffix_cons ch q).trans hcut
      -- a character is passed, and what comes behind it
      have hless {t : Text} (ht : t <:+ q) : t.length < s.p.length := by
        have hlen := hcut.length_le
        have hlen' := ht.length_le
        rw [List.length_cons] at hlen
        omega
      simp only
      repeat' split
      · have hstr := (skipquote_suffix _).trans (parsestring_suffix q)
        exact .pure ⟨h.pass (hstr.trans hq) s.brak, hless hstr⟩
      · exact .pure ⟨h.pass ((strcspn_suffix _ q).trans hq) s.brak, hless (strcspn_suffix _ q)⟩
      · exact .pure ⟨h.pass hq s.brak, hless List.suffix_rfl⟩
      · exact .pure ⟨h.pass hq (s.brak + 1), hless List.suffix_rfl⟩
      · exact .pure ⟨h.pass hq (s.brak - 1), hless List.suffix_rfl⟩
      · obtain ⟨t, ht, hscan, hrest⟩ := compilesub_spec hr hreg hp (h.pass hq s.brak)
        rw [ht]
        exact .pure ⟨hscan, hless hrest⟩

/-! ## The end -/

/-- The pieces are put together, and what is missing is made up for. -/
theorem blockdone_spec (hr : RecSpec n r) (hn : 0 < n) (c c' : Compiler) (t : Valtype)
    (concs : Nat) (blank : Bool) (hreg : Registered c.idents) (ht : t.wantable)
    (hroom : strict → k ≤ MAXARGS)
    (hclosed : concs = 0 → Makes strict c c' k (if blank then k else k + 1))
    (hopened : concs ≠ 0 → ∃ m, concs ≤ m ∧ m ≤ MAXARGS + 1 ∧
      Makes strict (c.add (inst .ENTER .RET_NULL 0)) c' 0 m) :
    Yields (blockdone fl r c' t concs blank) fun x => Makes strict c x k (k + 1) := by
  unfold blockdone
  by_cases hconcs : concs = 0
  · subst hconcs
    have hmakes := hclosed rfl
    simp only [if_true, true_and]
    cases blank with
    | true =>
      simp only [if_true] at hmakes ⊢
      cases t with
      | VAL_CODE => exact .pure (hmakes.trans (.emptyblock c' hroom))
      | VAL_IDENT => exact .pure (hmakes.trans (.compileident c' hroom _))
      | VAL_STR => exact .pure (hmakes.trans (.compilestr c' hroom _ _))
      | VAL_ANY => exact .pure (hmakes.trans (.compilestr c' hroom _ _))
      | VAL_NULL => cases ht
      | VAL_MACRO => cases ht
      | VAL_INT =>
        exact (compileval_spec hr c' .VAL_INT none (hmakes.registered hreg) rfl hroom nofun (fun _ => hn)
          fun _ => nofun).imp fun x hx => hmakes.trans hx.1
      | VAL_FLOAT =>
        exact (compileval_spec hr c' .VAL_FLOAT none (hmakes.registered hreg) rfl hroom nofun (fun _ => hn)
          fun _ => nofun).imp fun x hx => hmakes.trans hx.1
    | false =>
      simp only [Bool.false_eq_true, if_false] at hmakes ⊢
      have hforce {ret : Ret} (hret : Opcode.FORCE.plain ret) :
          Makes strict c' (c'.add (inst .FORCE ret 0)) (k + 1) (k + 1) :=
        .add hret c' 0 (k + 1) fun hs _ _ _ =>
          .of (Nat.le_add_left 1 k) (Nat.succ_le_succ (hroom hs))
      cases t with
      | VAL_CODE => exact .pure (hmakes.trans (lookupdone_makes c' .VAL_CODE hroom))
      | VAL_IDENT => exact .pure (hmakes.trans (lookupdone_makes c' .VAL_IDENT hroom))
      | VAL_STR => exact .pure hmakes
      | VAL_ANY => exact .pure hmakes
      | VAL_NULL => cases ht
      | VAL_MACRO => cases ht
      | _ => exact .pure (hmakes.trans (hforce rfl))
  · obtain ⟨m, hle, hm, hopen⟩ := hopened hconcs
    have hconcm (ret : Ret) : Makes strict c' (c'.emit .CONCM ret concs) m (m - concs) :=
      .emit rfl c' concs m fun _ _ _ _ => .of hle hm
    have hmakes : Makes strict c ((c'.emit .CONCM (t.retor .VAL_STR) concs).add
        (inst .EXIT (t.retor .VAL_STR) 0)) k (k + 1) :=
      .enter (hopen.trans (hconcm _)) (fun _ => (Nat.sub_le _ _).trans hm) hroom
    simp only [hconcs, false_and, if_false]
    cases t with
    | VAL_CODE => exact .pure (hmakes.trans (lookupdone_makes _ .VAL_CODE hroom))
    | VAL_IDENT => exact .pure (hmakes.trans (lookupdone_makes _ .VAL_IDENT hroom))
    | VAL_NULL => cases ht
    | VAL_MACRO => cases ht
    | _ => exact .pure hmakes

/-- **A block** is a value, in whatever form it is wanted. -/
theorem compileblock_spec (hr : RecSpec n r) (c : Compiler) (p : Text) (t : Valtype)
    (hlen : p.length < n) (hreg : Registered c.idents) (ht : t.wantable)
    (hroom : strict → k ≤ MAXARGS) :
    Yields (compileblock fl r c p t) fun x => x.2 <:+ p ∧ Makes strict c x.1 k (k + 1) := by
  have hn : 0 < n := Nat.zero_lt_of_lt hlen
  have hbegin : Scanned strict c p { c, p, start := p } :=
    ⟨List.suffix_rfl, List.suffix_rfl, fun _ => rfl, fun h => absurd rfl h, Nat.zero_le _⟩
  refine (loop_spec _ _ _ (fun s hs => blockstep_spec hr hreg hlen hs) (p.length + 2) _ hbegin
    (Nat.lt_succ_of_lt (Nat.lt_succ_self _))).bind ?_
  rintro ⟨s, stop⟩ (hs : Scanned strict c p s)
  have hrest : s.p <:+ p := hs.rest.trans hs.start
  have hstart : s.start.length < n := Nat.lt_of_le_of_lt hs.start.length_le hlen
  simp only
  split
  · next hcode =>
    have hc := hs.unopened (by simp_all)
    rw [hc]
    have hopen : Registered c.openblock.idents := by rwa [idents_openblock]
    refine (hr.statements strict c.openblock s.start (some (chr ']')) hstart hopen).bind ?_
    intro x hx
    exact .pure ⟨hx.1.trans hs.start, .block hx.2 hroom⟩
  · split
    · next hident =>
      have hc := hs.unopened (by simp_all)
      rw [hc]
      have hname : Makes strict c (c.newident (s.start.take (s.start.length - stop))).1 k k :=
        .newident c _ fun _ => rfl
      exact .pure ⟨hrest, hname.trans (.compileident _ hroom _)⟩
    · split
      · next hblank =>
        refine (blockdone_spec hr hn c s.c t s.concs true hreg ht hroom (fun h => ?_)
          fun h => ⟨s.concs, le_rfl, Nat.le_succ_of_le hs.few, hs.opened h⟩).bind
          fun x hx => .pure ⟨hrest, hx⟩
        rw [hs.unopened h]
        exact .refl c fun _ => rfl
      · next hblank =>
        by_cases hconcs : s.concs = 0
        · refine (compileblockstr_spec strict s.c s.start stop _ hroom).bind
            fun c' hstr => ?_
          rw [hs.unopened hconcs] at hstr
          refine (blockdone_spec hr hn c c' t _ false hreg ht hroom (fun _ => hstr)
            fun h => absurd (by simp [hconcs]) h).bind fun x hx => .pure ⟨hrest, hx⟩
        · refine (compileblockstr_spec strict s.c s.start stop _
            fun _ => hs.few).bind fun c' hstr => ?_
          refine (blockdone_spec hr hn c c' t _ false hreg ht hroom (fun h => ?_)
            fun _ => ⟨s.concs + 1, ?_, Nat.succ_le_succ hs.few, (hs.opened hconcs).trans hstr⟩).bind
            fun x hx => .pure ⟨hrest, hx⟩
          · split at h <;> omega
          · split <;> omega

end Functions

end Script

end QServ
