import QServ.Script.Blocks

/-!
# Words, arguments and statements

The functions of the compiler that a statement is made of, and the recursion closed.

* `compilearg_spec`: each argument is a value.
* `compilecommand_spec`: a command gets the values its prototype asks for.
* `functions_spec`, `compilemain_spec`: what is made of a whole text.
-/

namespace QServ

namespace Script

open Loop

variable {strict : Prop} {c c' : Compiler} {k m : Nat}

section Functions

variable {F : Type} {fl : Floats F} {r : Rec} {n : Nat}

/-! ## Words -/

/-- Nothing is skipped before a bracket. -/
theorem skipcomments_of_bracket {p : Text}
    (hp : p.head? = some (chr '(') ∨ p.head? = some (chr '[')) : skipcomments p = p := by
  obtain hp | hp := hp
  · obtain ⟨q, rfl⟩ := List.head?_eq_some_iff.mp hp
    have hblank : strspn " \t\r" (chr '(' :: q) = chr '(' :: q :=
      List.dropWhile_cons_of_neg (by decide)
    have hno : iscomment (chr '(' :: q) = false := by cases q <;> rfl
    simp [skipcomments, hblank, hno]
  · obtain ⟨q, rfl⟩ := List.head?_eq_some_iff.mp hp
    have hblank : strspn " \t\r" (chr '[' :: q) = chr '[' :: q :=
      List.dropWhile_cons_of_neg (by decide)
    have hno : iscomment (chr '[' :: q) = false := by cases q <;> rfl
    simp [skipcomments, hblank, hno]

/-- **A word** is compiled where it begins with a bracket or a dollar sign, and left where it does
not. -/
theorem compileword_spec (hr : RecSpec n r) (strict : Prop) (c : Compiler) (p : Text) (t : Valtype)
    (k : Nat) (hlen : p.length < n + 1) (hreg : Registered c.idents) (ht : t.wantable)
    (hroom : strict → k ≤ MAXARGS) :
    Yields (compileword fl r c p t) (Worded strict c p k) := by
  have hskip : skipcomments p <:+ p := skipcomments_suffix p
  have hbracket := @skipcomments_of_bracket p
  unfold compileword
  simp only
  generalize skipcomments p = q at hskip hbracket
  have hq : q.length < n + 1 := Nat.lt_of_le_of_lt hskip.length_le hlen
  have htail {ch : Char} (hhead : q.head? = some (chr ch)) : q.tail.length < q.length ∧ q ≠ [] := by
    cases q with
    | nil => cases hhead
    | cons d q => simp
  split
  · next hquote =>
    obtain ⟨hrest, hless, hword⟩ := cutstring_spec (htail hquote).2
    refine .pure ⟨hrest.trans hskip, fun _ => Nat.lt_of_lt_of_le hless hskip.length_le, nofun,
      .refl c fun _ => rfl, fun w hw => ⟨rfl, ?_⟩, fun h => ?_⟩
    · obtain rfl := Option.some.inj hw
      exact (Nat.le_of_lt hword).trans hskip.length_le
    · rw [← hbracket h, hquote] at h
      exact absurd h (by decide)
  · split
    · next hdollar =>
      refine (compilelookup_spec hr strict c q t k hq hreg ht hroom (htail hdollar).2).bind ?_
      intro x hx
      exact .pure ⟨hx.rest.trans hskip, fun _ => Nat.lt_of_lt_of_le hx.less hskip.length_le, nofun,
        hx.makes, nofun, fun _ => ⟨rfl, rfl⟩⟩
    · split
      · next hparen =>
        have hless := (htail hparen).1
        refine (hr.statements strict (c.add (inst .ENTER .RET_NULL 0)) q.tail (some (chr ')'))
          (by omega) hreg).bind fun x hx => ?_
        have hrest : x.2 <:+ q.tail := hx.1
        refine .pure ⟨(hrest.trans (List.tail_suffix q)).trans hskip, fun _ => ?_, nofun,
          (Makes.enter hx.2 (fun _ => Nat.zero_le _) hroom).trans (lookupdone_makes _ t hroom),
          nofun, fun _ => ⟨rfl, rfl⟩⟩
        exact Nat.lt_of_lt_of_le (Nat.lt_of_le_of_lt hrest.length_le hless) hskip.length_le
      · split
        · next hblock =>
          have hless := (htail hblock).1
          refine (compileblock_spec hr c q.tail t (by omega) hreg ht hroom).bind fun x hx => ?_
          have hrest : x.2 <:+ q.tail := hx.1
          refine .pure ⟨(hrest.trans (List.tail_suffix q)).trans hskip, fun _ => ?_, nofun, hx.2,
            nofun, fun _ => ⟨rfl, rfl⟩⟩
          exact Nat.lt_of_lt_of_le (Nat.lt_of_le_of_lt hrest.length_le hless) hskip.length_le
        · have hno : ¬(p.head? = some (chr '(') ∨ p.head? = some (chr '[')) := by
            intro h
            have heq := hbracket h
            subst heq
            simp_all
          split
          · next hstray =>
            have hless := (htail hstray).1
            have hmakes : Makes False c (c.note .stray) k k := .note c nofun fun _ => rfl
            refine .pure ⟨(List.tail_suffix q).trans hskip,
              fun _ => Nat.lt_of_lt_of_le hless hskip.length_le, nofun, ?_, nofun,
              fun h => absurd h hno⟩
            refine hmakes.of_unclean (fun hs hclean => (hclean.2 hs).1 ?_) _ _
            exact List.mem_append_right _ (List.mem_singleton_self _)
          · obtain ⟨hrest, hcut⟩ := cutword_spec q
            cases hword : cutword q with
            | mk w s =>
              rw [hword] at hrest hcut
              cases w with
              | none =>
                exact .pure ⟨hrest.trans hskip, nofun, fun _ => rfl, .refl c fun _ => rfl, nofun,
                  fun h => absurd h hno⟩
              | some w =>
                obtain ⟨hnone, -⟩ | ⟨w', hw', hless, -, hlen'⟩ := hcut
                · cases hnone
                · obtain rfl : w = w' := Option.some.inj hw'
                  refine .pure ⟨hrest.trans hskip,
                    fun _ => Nat.lt_of_lt_of_le hless hskip.length_le, nofun,
                    .refl c fun _ => rfl, fun v hv => ⟨rfl, ?_⟩, fun h => absurd h hno⟩
                  obtain rfl : w = v := Option.some.inj hv
                  exact hlen'.trans hskip.length_le

/-! ## Arguments -/

/-- **An argument** is a value. -/
theorem compilearg_spec (hr : RecSpec n r) (strict : Prop) (c : Compiler) (p : Text) (t : Valtype)
    (k : Nat) (hlen : p.length < n + 1) (hreg : Registered c.idents) (ht : t.wantable)
    (hcode : t = .VAL_CODE → p.length < n) (hroom : strict → k ≤ MAXARGS) :
    Yields (compilearg fl r c p t) (Argument strict c p k) := by
  refine (compileword_spec hr strict c p t k hlen hreg ht hroom).bind ?_
  rintro ⟨c', q, more, w⟩ hw
  cases more with
  | false =>
    have hmakes := hw.makes
    simp only [Bool.false_eq_true, false_and, if_false] at hmakes
    exact .pure ⟨hw.rest, nofun, hw.same, hmakes⟩
  | true =>
    cases w with
    | none =>
      have hmakes := hw.makes
      simp only [true_and, if_true] at hmakes
      exact .pure ⟨hw.rest, hw.less, nofun, hmakes⟩
    | some w =>
      have hmakes : Makes strict c c' k k := hw.makes
      have hword := (hw.word w rfl).2
      refine (compileval_spec hr c' t (some w) (hmakes.registered hreg) ht hroom
        (fun v hv h => ?_) (fun h => Nat.zero_lt_of_lt (hcode h)) nofun).bind fun x hx => ?_
      · obtain rfl : w = v := Option.some.inj hv
        exact Nat.lt_of_le_of_lt hword (hcode h)
      · exact .pure ⟨hw.rest, hw.less, nofun, hmakes.trans hx.1⟩

/-- What the loops over arguments leave: so many values more. -/
structure Arguments (strict : Prop) (c : Compiler) (p : Text) (max k : Nat)
    (x : Compiler × Text × Nat × Bool) : Prop where
  rest : x.2.1 <:+ p
  few : x.2.2.1 ≤ max
  makes : Makes strict c x.1 k (k + x.2.2.1)

/-- **Arguments** are values. -/
theorem compileargs_spec (hr : RecSpec n r) (strict : Prop) (t : Valtype) (ht : t.wantable)
    (hcode : t ≠ .VAL_CODE) : ∀ (max : Nat) (c : Compiler) (p : Text) (more : Bool) (k : Nat),
      p.length < n + 1 → Registered c.idents → (strict → k + max ≤ MAXARGS + 1) →
      Yields (compileargs fl r t max c p more) (Arguments strict c p max k) := by
  intro max
  induction max with
  | zero =>
    exact fun c p more k _ _ _ => .pure ⟨List.suffix_rfl, le_rfl, .refl c fun _ => rfl⟩
  | succ max ih =>
    intro c p more k hlen hreg hroom
    refine (compilearg_spec hr strict c p t k hlen hreg ht (fun h => absurd h hcode)
      fun hs => by have := hroom hs; omega).bind ?_
    rintro ⟨c', q, more⟩ harg
    cases more with
    | false =>
      rw [show c' = c from harg.same rfl]
      exact .pure ⟨harg.rest, Nat.zero_le _, .refl c fun _ => rfl⟩
    | true =>
      have hmakes : Makes strict c c' k (k + 1) := harg.makes
      refine (ih c' q true (k + 1) (Nat.lt_of_le_of_lt harg.rest.length_le hlen)
        (hmakes.registered hreg) fun hs => by have := hroom hs; omega).bind ?_
      rintro ⟨c'', q', numargs, more⟩ hargs
      refine .pure ⟨hargs.rest.trans harg.rest, Nat.succ_le_succ hargs.few, ?_⟩
      have hrest : Makes strict c' c'' (k + 1) (k + 1 + numargs) := hargs.makes
      rw [Nat.add_right_comm] at hrest
      exact hmakes.trans hrest

variable (strict) in
/-- Arguments beyond those that are used are values that are dropped. -/
theorem compilepops_spec (hr : RecSpec n r) (c : Compiler) (p : Text) (hlen : p.length < n + 1)
    (hreg : Registered c.idents) (hroom : strict → k ≤ MAXARGS) :
    Yields (compilepops fl r c p) fun x => x.2 <:+ p ∧ Makes strict c x.1 k k := by
  refine loop_spec (fun x => x.2 <:+ p ∧ Makes strict c x.1 k k) (fun x => x.2.length) _
    (fun x hx => ?_) _ (c, p) ⟨List.suffix_rfl, .refl c fun _ => rfl⟩ (Nat.lt_succ_self _)
  obtain ⟨c', q⟩ := x
  obtain ⟨hrest, hmakes⟩ := hx
  refine (compilearg_spec hr strict c' q .VAL_ANY k (Nat.lt_of_le_of_lt hrest.length_le hlen)
    (hmakes.registered hreg) rfl nofun hroom).bind ?_
  rintro ⟨c'', q', more⟩ harg
  cases more with
  | false =>
    rw [show c'' = c' from harg.same rfl]
    exact .pure ⟨harg.rest.trans hrest, hmakes⟩
  | true =>
    have hpush : Makes strict c' c'' k (k + 1) := harg.makes
    have hpop : Makes strict c'' (c''.add (inst .POP .RET_NULL 0)) (k + 1) k :=
      .add rfl c'' 0 (k + 1) fun hs _ _ _ =>
        .of (Nat.le_add_left 1 k) (Nat.succ_le_succ (hroom hs))
    exact .pure ⟨⟨harg.rest.trans hrest, (hmakes.trans hpush).trans hpop⟩, harg.less rfl⟩

/-! ## Prototypes -/

theorem passed_lt {args : Text} : ∀ {fuel i t : Nat}, passed args fuel i = some t → t < fuel := by
  intro fuel
  induction fuel with
  | zero => exact fun h => by cases h
  | succ fuel ih =>
    intro i t h
    rw [passed] at h
    split at h
    · obtain rfl := Option.some.inj h
      exact Nat.zero_lt_succ _
    · split at h
      · obtain rfl := Option.some.inj h
        exact Nat.zero_lt_succ _
      · obtain ⟨t, ht, rfl⟩ := Option.map_eq_some_iff.mp h
        exact Nat.succ_lt_succ (ih ht)

theorem passed_mono {args : Text} : ∀ {fuel i t : Nat},
    passed args fuel i = some t → passed args (fuel + 1) i = some t := by
  intro fuel
  induction fuel with
  | zero => exact fun h => by cases h
  | succ fuel ih =>
    intro i t h
    rw [passed] at h ⊢
    split at h
    · exact h
    · split at h
      · next hstop => rwa [if_pos hstop]
      · next hstop =>
        obtain ⟨t, ht, rfl⟩ := Option.map_eq_some_iff.mp h
        rw [if_neg hstop, ih ht]
        rfl

/-- How many rounds are left in the loop over a prototype, at the most. -/
def Protoscan.left (args : Text) (s : Protoscan) : Nat :=
  if s.more then
    (s.p.length + 1) * (2 * args.length + 2) + (passed args (args.length + 1) s.fmt).getD 0
  else args.length - s.fmt

section Left

variable {args : Text} {s t : Protoscan}

theorem left_of_taken (hs : s.more = true) (ht : t.more = true) (hp : t.p.length < s.p.length) :
    t.left args < s.left args := by
  have hpassed : (passed args (args.length + 1) t.fmt).getD 0 < 2 * args.length + 2 := by
    cases h : passed args (args.length + 1) t.fmt with
    | none => exact Nat.succ_pos _
    | some x =>
      have hx := passed_lt h
      rw [Option.getD_some]
      omega
  have hmul : (t.p.length + 2) * (2 * args.length + 2) ≤
      (s.p.length + 1) * (2 * args.length + 2) := Nat.mul_le_mul_right _ (by omega)
  rw [Protoscan.left, Protoscan.left, if_pos hs, if_pos ht]
  rw [Nat.succ_mul] at hmul
  omega

theorem left_of_last (hs : s.more = true) (ht : t.more = false) : t.left args < s.left args := by
  have hmul : 2 * args.length + 2 ≤ (s.p.length + 1) * (2 * args.length + 2) :=
    Nat.le_mul_of_pos_left _ (Nat.succ_pos _)
  rw [Protoscan.left, Protoscan.left, if_pos hs, if_neg (by simp [ht])]
  omega

theorem left_of_ended (hs : s.more = false) (ht : t.more = false) (hfmt : t.fmt = s.fmt + 1)
    (hlt : s.fmt < args.length) : t.left args < s.left args := by
  simp only [Protoscan.left, hs, ht, hfmt, Bool.false_eq_true, if_false]
  omega

/-- A letter is passed that takes no argument. -/
theorem left_of_passed (hargs : Prototype args) {fmt : UInt8} (hfmt : args[s.fmt]? = some fmt)
    (hno : ¬((wanted fmt).isSome ∨ fmt = chr 'C' ∨ fmt = chr 'V'))
    (hnext : t.fmt = if isrep fmt then s.fmt - (fmt.toNat - 48) else s.fmt + 1)
    (hs : s.more = true) (ht : t.more = true) (hp : t.p = s.p) : t.left args < s.left args := by
  have hlt : s.fmt < args.length := (List.getElem?_eq_some_iff.mp hfmt).1
  obtain ⟨x, hx⟩ := Option.isSome_iff_exists.mp (hargs.ends s.fmt hlt)
  have hx' := hx
  rw [passed, hfmt] at hx'
  simp only [if_neg hno] at hx'
  rw [← hnext] at hx'
  obtain ⟨y, hy, rfl⟩ := Option.map_eq_some_iff.mp hx'
  rw [Protoscan.left, Protoscan.left, if_pos hs, if_pos ht, hp, hx, passed_mono hy]
  exact Nat.add_lt_add_left (Nat.lt_succ_self y) _

end Left

/-- How far the loop over a prototype has come. -/
structure Proto (strict : Prop) (c : Compiler) (p args : Text) (s : Protoscan) : Prop where
  rest : s.p <:+ p
  makes : Makes strict c s.c 0 s.numargs
  room : strict → Clean strict s.c → s.numargs ≤ MAXARGS + 1
  before : ∀ ch ∈ args.take s.fmt, ch ≠ chr 'C' ∧ ch ≠ chr 'V'
  exact : (∀ fmt ∈ args, ¬isrep fmt) → s.rep = false ∧ s.numargs = arity (args.take s.fmt)

variable {p args : Text} {s : Protoscan} {fmt : UInt8}

theorem take_succ_of_getElem? {i : Nat} (h : args[i]? = some fmt) :
    args.take (i + 1) = args.take i ++ [fmt] := by
  rw [List.take_add_one, h]
  rfl

/-- A letter that is passed. -/
theorem Proto.pass (h : Proto strict c p args s) (hfmt : args[s.fmt]? = some fmt)
    (hno : arity [fmt] = 0) (hstop : fmt ≠ chr 'C' ∧ fmt ≠ chr 'V') {q : Text} (hq : q <:+ s.p)
    (more : Bool) :
    Proto strict c p args { s with p := q, more, fmt := s.fmt + 1 } where
  rest := hq.trans h.rest
  makes := h.makes
  room := h.room
  before ch hch := by
    rw [take_succ_of_getElem? hfmt] at hch
    obtain hch | hch := List.mem_append.mp hch
    · exact h.before ch hch
    · rwa [List.mem_singleton.mp hch]
  exact hreps := by
    rw [take_succ_of_getElem? hfmt, arity, List.countP_append]
    exact ⟨(h.exact hreps).1, by rw [(h.exact hreps).2, ← arity, ← arity, hno, Nat.add_zero]⟩

/-- A value more, for a letter that asks for one. -/
theorem Proto.push (h : Proto strict c p args s) (hfmt : args[s.fmt]? = some fmt)
    (hone : arity [fmt] = 1) (hstop : fmt ≠ chr 'C' ∧ fmt ≠ chr 'V') {q : Text} (hq : q <:+ s.p)
    (more : Bool) (fakeargs : Nat)
    (hmakes : Makes (strict ∧ s.numargs ≤ MAXARGS) s.c c' s.numargs (s.numargs + 1))
    (hroom : strict → Clean strict c' → s.numargs ≤ MAXARGS) :
    Proto strict c p args
      { c := c', p := q, fmt := s.fmt + 1, more, rep := s.rep, numargs := s.numargs + 1,
        fakeargs } where
  rest := hq.trans h.rest
  makes := h.makes.trans (hmakes.of_clean hroom)
  room hs hclean := Nat.succ_le_succ (hroom hs hclean)
  before ch hch := by
    rw [take_succ_of_getElem? hfmt] at hch
    obtain hch | hch := List.mem_append.mp hch
    · exact h.before ch hch
    · rwa [List.mem_singleton.mp hch]
  exact hreps := by
    rw [take_succ_of_getElem? hfmt, arity, List.countP_append]
    exact ⟨(h.exact hreps).1, by rw [(h.exact hreps).2, ← arity, ← arity, hone]⟩

theorem wantable_of_wanted {t : Valtype} (h : wanted fmt = some t) : t.wantable := by
  unfold wanted at h
  repeat' split at h
  · obtain rfl := Option.some.inj h
    rfl
  · obtain rfl := Option.some.inj h
    rfl
  · obtain rfl := Option.some.inj h
    rfl
  · obtain rfl := Option.some.inj h
    rfl
  · obtain rfl := Option.some.inj h
    rfl
  · obtain rfl := Option.some.inj h
    rfl
  · cases h

/-- There was room for a value where nothing else was noted. -/
theorem room_of_clean (c : Compiler) (hs : strict)
    (h : Clean strict (c.noteif (MAXARGS < k) .crowded)) : k ≤ MAXARGS := by
  by_contra hk
  apply (h.2 hs).2
  rw [Compiler.noteif, if_pos (by simpa using hk)]
  exact List.mem_append_right _ (List.mem_singleton_self _)

/-- `CODE_CONC` puts one value in place of the last ones. -/
theorem conc_makes (c : Compiler) (numconc : Nat) (hroom : strict → k + numconc ≤ MAXARGS) :
    Makes strict c (if 0 < numconc then c.emit .CONC .RET_STR (numconc + 1) else c)
      (k + 1 + numconc) (k + 1) := by
  split
  · have hleaves : Opcode.CONC.leaves (numconc + 1) (k + 1 + numconc) = k + 1 := by
      simp only [Opcode.leaves]
      omega
    have hconc : Makes strict c (c.emit .CONC .RET_STR (numconc + 1)) (k + 1 + numconc)
        (Opcode.CONC.leaves (numconc + 1) (k + 1 + numconc)) := by
      refine .emit rfl c (numconc + 1) (k + 1 + numconc) fun hs _ _ _ => .of ?_ ?_
      · simp only [Opcode.takes]
        omega
      · have := hroom hs
        omega
    rwa [hleaves] at hconc
  · exact .refl c fun _ => by omega

/-- **A letter** that takes an argument. -/
theorem protoarg_spec (hr : RecSpec n r) {t : Valtype} (hreg : Registered c.idents)
    (hp : p.length < n) (h : Proto strict c p args s) (hfmt : args[s.fmt]? = some fmt)
    (ht : wanted fmt = some t) :
    Yields (protoarg fl r args s fmt t) fun x =>
      Proto strict c p args x ∧ x.left args < s.left args := by
  have hlt : s.fmt < args.length := (List.getElem?_eq_some_iff.mp hfmt).1
  have hone : arity [fmt] = 1 := by simp [arity, ht]
  have hstop : fmt ≠ chr 'C' ∧ fmt ≠ chr 'V' := by
    constructor <;> rintro rfl <;> cases ht
  have hlen : s.p.length < n := Nat.lt_of_le_of_lt h.rest.length_le hp
  have hreg' : Registered s.c.idents := h.makes.registered hreg
  have harg : Yields (protoread fl r s t) fun x =>
      Argument (strict ∧ s.numargs ≤ MAXARGS) s.c s.p s.numargs x ∧
        (x.2.2 = true → s.more = true) := by
    unfold protoread
    split
    · next hmore =>
      exact (compilearg_spec hr _ s.c s.p t s.numargs (Nat.lt_succ_of_lt hlen) hreg'
        (wantable_of_wanted ht) (fun _ => hlen) And.right).imp fun x hx => ⟨hx, fun _ => hmore⟩
    · exact .pure ⟨⟨List.suffix_rfl, (fun h => by cases h), fun _ => rfl, .refl s.c fun _ => rfl⟩,
        fun h => by cases h⟩
  unfold protoarg
  refine harg.bind ?_
  rintro ⟨c', q, more⟩ ⟨harg, hmore⟩
  have hrest : q <:+ s.p := harg.rest
  cases more with
  | false =>
    obtain rfl : c' = s.c := harg.same rfl
    -- the prototype is gone through once more without arguments
    have hleft (x : Protoscan) (hx : x.more = false) (hnext : x.fmt = s.fmt + 1) :
        x.left args < s.left args := by
      cases hs : s.more with
      | true => exact left_of_last hs hx
      | false => exact left_of_ended hs hx hnext hlt
    simp only [Bool.not_false, true_and, if_true]
    split
    · next hrep =>
      refine .pure ⟨⟨hrest.trans h.rest, h.makes, h.room, fun ch hch => ?_, fun hreps => ?_⟩,
        hleft _ rfl rfl⟩
      · rw [take_succ_of_getElem? hfmt] at hch
        obtain hch | hch := List.mem_append.mp hch
        · exact h.before ch hch
        · rwa [List.mem_singleton.mp hch]
      · rw [(h.exact hreps).1] at hrep
        cases hrep
    · have hdefault : Makes (strict ∧ s.numargs ≤ MAXARGS)
          (s.c.noteif (MAXARGS < s.numargs) .crowded)
          (compiledefault fl (s.c.noteif (MAXARGS < s.numargs) .crowded) fmt)
          s.numargs (s.numargs + 1) := .compiledefault fl _ And.right fmt
      refine .pure ⟨h.push hfmt hone hstop hrest false (s.fakeargs + 1)
        ((Makes.noteif s.c _ (by simp) fun _ => rfl).trans hdefault) fun hs hclean => ?_,
        hleft _ rfl rfl⟩
      exact room_of_clean s.c hs (hclean.anti hdefault.notes)
  | true =>
    have hless : q.length < s.p.length := harg.less rfl
    have hpush : Makes (strict ∧ s.numargs ≤ MAXARGS) s.c c' s.numargs (s.numargs + 1) :=
      harg.makes
    have hnote : Makes (strict ∧ s.numargs ≤ MAXARGS) c'
        (c'.noteif (MAXARGS < s.numargs) .crowded) (s.numargs + 1) (s.numargs + 1) :=
      .noteif c' _ (by simp) fun _ => rfl
    simp only [Bool.not_true, Bool.false_eq_true, false_and, if_false]
    split
    · refine (compileargs_spec hr (strict ∧ s.numargs ≤ MAXARGS) .VAL_STR rfl (by simp)
        (MAXARGS - s.numargs) (c'.noteif (MAXARGS < s.numargs) .crowded) q true (s.numargs + 1)
        (by omega) ((hpush.trans hnote).registered hreg')
        fun hs => by have := hs.2; omega).bind ?_
      rintro ⟨c'', q', numconc, more⟩ hargs
      have hfew : numconc ≤ MAXARGS - s.numargs := hargs.few
      have hrest' : q' <:+ q := hargs.rest
      have hless' : q'.length < s.p.length := Nat.lt_of_le_of_lt hrest'.length_le hless
      have hconc : Makes (strict ∧ s.numargs ≤ MAXARGS) c''
          (if 0 < numconc then c''.emit .CONC .RET_STR (numconc + 1) else c'')
          (s.numargs + 1 + numconc) (s.numargs + 1) :=
        conc_makes c'' numconc fun hs => by have := hs.2; omega
      refine .pure ⟨h.push hfmt hone hstop (hrest'.trans hrest) more s.fakeargs
        (((hpush.trans hnote).trans hargs.makes).trans hconc) fun hs hclean => ?_, ?_⟩
      · exact room_of_clean c' hs (hclean.anti (hargs.makes.notes.trans hconc.notes))
      · cases more with
        | true => exact left_of_taken (hmore rfl) rfl hless'
        | false => exact left_of_last (hmore rfl) rfl
    · exact .pure ⟨h.push hfmt hone hstop hrest true s.fakeargs (hpush.trans hnote)
        fun hs hclean => room_of_clean c' hs hclean, left_of_taken (hmore rfl) rfl hless⟩

/-- All arguments there are. -/
theorem protorest_spec (hr : RecSpec n r) (hreg : Registered c.idents) (hp : p.length < n)
    (h : Proto strict c p args s) :
    Yields (protorest fl r s) fun x => x.2.1 <:+ p ∧ ∃ m, Makes strict c x.1 0 m ∧
      (strict → Clean strict x.1 → m ≤ MAXARGS + 1) := by
  have hlen : s.p.length < n := Nat.lt_of_le_of_lt h.rest.length_le hp
  unfold protorest
  split
  · refine (compileargs_spec hr (strict ∧ s.numargs ≤ MAXARGS + 1) .VAL_ANY rfl nofun
      (MAXARGS - s.numargs) s.c s.p true s.numargs (Nat.lt_succ_of_lt hlen)
      (h.makes.registered hreg) fun hs => by have := hs.2; omega).bind ?_
    rintro ⟨c', q, numargs, more⟩ hargs
    have hfew : numargs ≤ MAXARGS - s.numargs := hargs.few
    have hroom (hs : strict) (hclean : Clean strict c') : s.numargs ≤ MAXARGS + 1 :=
      h.room hs (hclean.anti hargs.makes.notes)
    exact .pure ⟨hargs.rest.trans h.rest, s.numargs + numargs,
      h.makes.trans (hargs.makes.of_clean hroom),
      fun hs hclean => by have := hroom hs hclean; omega⟩
  · exact .pure ⟨h.rest, s.numargs, h.makes, h.room⟩

/-- **A round** over the prototype of a command. -/
theorem protostep_spec (hr : RecSpec n r) (id : Nat) (hargs : Prototype args)
    (hreg : Registered c.idents) (hp : p.length < n) (h : Proto strict c p args s) :
    Yields (protostep fl r id args s) (Round (Proto strict c p args) (Protoscan.left args)
      (fun x => x.2.1 <:+ p ∧ ∃ m, Called strict c x.1 args x.2.2.2 0 m) s) := by
  unfold protostep
  cases hfmt : args[s.fmt]? with
  | none =>
    refine .pure ⟨h.rest, s.numargs, h.makes, .inl rfl, h.room, fun _ => ?_⟩
    have htake : args.take s.fmt = args := List.take_of_length_le (List.getElem?_eq_none_iff.mp hfmt)
    have hbefore := h.before
    rw [htake] at hbefore
    have hreps := hargs.fixed (fun hmem => (hbefore _ hmem).1 rfl) fun hmem => (hbefore _ hmem).2 rfl
    rw [(h.exact hreps).2, htake, Nat.zero_add]
  | some fmt =>
    have hlt : s.fmt < args.length := (List.getElem?_eq_some_iff.mp hfmt).1
    cases hwanted : wanted fmt with
    | some t =>
      simp only [hwanted]
      obtain ⟨x, hx, hproto, hleft⟩ : Yields (protoarg fl r args s fmt t) _ :=
        protoarg_spec hr hreg hp h hfmt hwanted
      rw [hx]
      exact .pure ⟨hproto, hleft⟩
    | none =>
      have hpassed (x : Protoscan) (hno : ¬(fmt = chr 'C' ∨ fmt = chr 'V'))
          (hnext : x.fmt = s.fmt + 1) (hrep : isrep fmt = true → s.more = false)
          (hmore : x.more = s.more) (hx : x.p = s.p) : x.left args < s.left args := by
        cases hs : s.more with
        | false => exact left_of_ended hs (hmore.trans hs) hnext hlt
        | true =>
          refine left_of_passed hargs hfmt (by simpa [hwanted] using hno) ?_ hs
            (hmore.trans hs) hx
          rw [hnext, if_neg fun h => by simp [hrep h] at hs]
      -- a value that is not read from the text
      have hvalue {c' : Compiler} (hone : arity [fmt] = 1) (hno : ¬(fmt = chr 'C' ∨ fmt = chr 'V'))
          (hrep : isrep fmt = false)
          (hmakes : Makes (strict ∧ s.numargs ≤ MAXARGS)
            (s.c.noteif (MAXARGS < s.numargs) .crowded) c' s.numargs (s.numargs + 1)) :
          Round (Proto strict c p args) (Protoscan.left args)
            (fun x : Compiler × Text × Bool × Opcode =>
              x.2.1 <:+ p ∧ ∃ m, Called strict c x.1 args x.2.2.2 0 m) s
            (.inl { s with c := c', fmt := s.fmt + 1, numargs := s.numargs + 1 }) := by
        refine ⟨h.push hfmt hone (not_or.mp hno) List.suffix_rfl s.more s.fakeargs
          ((Makes.noteif s.c _ (by simp) fun _ => rfl).trans hmakes) fun hs hclean => ?_,
          hpassed _ hno rfl (fun h => by simp [hrep] at h) rfl rfl⟩
        exact room_of_clean s.c hs (hclean.anti hmakes.notes)
      simp only [hwanted]
      split
      · next hself =>
        subst hself
        exact .pure (hvalue rfl (by decide) rfl (.compileident _ And.right id))
      · next hself =>
        split
        · next hnum =>
          subst hnum
          exact .pure (hvalue rfl (by decide) rfl (.compileint _ And.right _))
        · next hnum =>
          split
          · refine (protorest_spec hr hreg hp h).bind fun x hx => ?_
            obtain ⟨hrest, m, hmakes, hroom⟩ := hx
            exact .pure ⟨hrest, m, hmakes, .inr (.inl rfl), hroom, nofun⟩
          · next hC =>
            split
            · refine (protorest_spec hr hreg hp h).bind fun x hx => ?_
              obtain ⟨hrest, m, hmakes, hroom⟩ := hx
              exact .pure ⟨hrest, m, hmakes, .inr (.inr rfl), hroom, nofun⟩
            · next hV =>
              have hno : ¬(fmt = chr 'C' ∨ fmt = chr 'V') := not_or.mpr ⟨hC, hV⟩
              split
              · next hrep =>
                have hrep' : isrep fmt = true := by simp [isrep, hrep.1, hrep.2.1]
                refine .pure ⟨⟨h.rest, h.makes, h.room, fun ch hch => ?_, fun hreps => ?_⟩, ?_⟩
                · exact h.before ch (List.take_subset_take_left args (Nat.sub_le _ _) hch)
                · exact absurd hrep' (hreps fmt (List.mem_of_getElem? hfmt))
                · exact left_of_passed hargs hfmt (by simpa [hwanted] using hno)
                    (by rw [if_pos hrep']) hrep.2.2 hrep.2.2 rfl
              · next hrep =>
                refine .pure ⟨h.pass hfmt (by simp [arity, hwanted, hself, hnum])
                  (not_or.mp hno) List.suffix_rfl s.more, hpassed _ hno rfl (fun h => ?_) rfl rfl⟩
                simp only [isrep, Bool.and_eq_true, decide_eq_true_eq] at h
                exact Bool.eq_false_iff.mpr fun hmore => hrep ⟨h.1, h.2, hmore⟩

/-- **The call of a command**: it gets the values its prototype asks for. -/
theorem compilecommand_spec (hr : RecSpec n r) (c : Compiler) (p : Text) (id : Nat) (args : Text)
    (hlen : p.length < n) (hreg : Registered c.idents) (hargs : Prototype args)
    (hcom : Commanded c.idents id args) :
    Yields (compilecommand fl r c p id args) fun x => x.2.1 <:+ p ∧ Makes strict c x.1 0 0 := by
  have hbegin : Proto strict c p args { c, p } :=
    ⟨List.suffix_rfl, .refl c fun _ => rfl, fun _ _ => Nat.zero_le _, nofun, fun _ => ⟨rfl, rfl⟩⟩
  have hleft : Protoscan.left args { c, p } < protorounds args p := by
    have hpassed : (passed args (args.length + 1) 0).getD 0 < 2 * args.length + 2 := by
      cases h : passed args (args.length + 1) 0 with
      | none => exact Nat.succ_pos _
      | some x =>
        have hx := passed_lt h
        rw [Option.getD_some]
        omega
    simp only [Protoscan.left, if_true, protorounds, Nat.succ_mul]
    omega
  refine (loop_spec _ _ _ (fun s hs => protostep_spec hr id hargs hreg hlen hs) (protorounds args p) _
    hbegin hleft).bind ?_
  rintro ⟨c', q, more, comtype⟩ ⟨hrest, m, hcalled⟩
  exact .pure ⟨hrest, hcalled.makes.trans (called_makes hcalled hcom)⟩

/-! ## Statements -/

/-- What a statement leaves: no values. -/
structure Stated (strict : Prop) (c : Compiler) (p : Text) (k : Nat) (x : Compiler × Text × Bool) :
    Prop where
  rest : x.2.1 <:+ p
  makes : Makes strict c x.1 k 0

variable (strict) in
theorem compilenoid_spec (hr : RecSpec n r) (c : Compiler) (p : Text) (hlen : p.length < n)
    (hreg : Registered c.idents) : Yields (compilenoid fl r c p) (Stated strict c p 1) := by
  refine (compileargs_spec hr strict .VAL_ANY rfl nofun MAXARGS c p true 1
    (Nat.lt_succ_of_lt hlen) hreg fun _ => by omega).bind ?_
  rintro ⟨c', q, numargs, more⟩ hargs
  have hfew : numargs ≤ MAXARGS := hargs.few
  have hcall : Makes strict c' (c'.add (inst .CALLU .RET_NULL 0)) (1 + numargs) 0 :=
    .add rfl c' 0 (1 + numargs) fun _ _ _ _ =>
      .of (Nat.le_add_right 1 numargs) (by omega)
  exact .pure ⟨hargs.rest, hargs.makes.trans hcall⟩

theorem compilelocal_spec (hr : RecSpec n r) (c : Compiler) (p : Text) (hlen : p.length < n)
    (hreg : Registered c.idents) : Yields (compilelocal fl r c p) (Stated strict c p 0) := by
  refine (compileargs_spec hr strict .VAL_IDENT rfl nofun MAXARGS c p true 0
    (Nat.lt_succ_of_lt hlen) hreg fun _ => by omega).bind ?_
  rintro ⟨c', q, numargs, more⟩ hargs
  have hfew : numargs ≤ MAXARGS := hargs.few
  have hmakes : Makes strict c c' 0 numargs := by simpa using hargs.makes
  have hlocal (c'' : Compiler) : Makes strict c'' (c''.add (inst .LOCAL .RET_NULL 0)) numargs 0 :=
    .add rfl c'' 0 numargs fun _ _ _ _ => ⟨Nat.zero_le _, by simpa using hfew, nofun⟩
  cases more with
  | false => exact .pure ⟨hargs.rest, hmakes.trans (hlocal c')⟩
  | true =>
    refine (compilepops_spec strict hr c' q
      (Nat.lt_of_le_of_lt hargs.rest.length_le (Nat.lt_succ_of_lt hlen)) (hmakes.registered hreg)
      fun _ => hfew).bind fun x hx => ?_
    exact .pure ⟨hx.1.trans hargs.rest, (hmakes.trans hx.2).trans (hlocal x.1)⟩

/-- An instruction about an identifier that uses up its values. -/
theorem used_makes {op : Opcode} (c : Compiler) (id : Nat) (htakes : op.takes id ≤ k)
    (hk : k ≤ MAXARGS) (hop : op.plain .RET_NULL = true ∧ op.leaves id k = 0 ∧ op ≠ .COM) :
    Makes strict c (c.emit op .RET_NULL id) k 0 := by
  obtain ⟨hplain, hleaves, hcom⟩ := hop
  rw [← hleaves]
  refine .emit hplain c id k fun _ _ _ _ => ⟨htakes, ?_, fun h => absurd h hcom⟩
  split
  · exact hk
  · exact Nat.le_succ_of_le hk

theorem compilevar_spec (hr : RecSpec n r) (c : Compiler) (p : Text) (id : Nat) (hex : Bool)
    (hlen : p.length < n) (hreg : Registered c.idents) :
    Yields (compilevar fl r c p id hex) (Stated strict c p 0) := by
  have hthree : (if hex then 3 else 1) ≤ 3 := by cases hex <;> decide
  have hmax : 3 ≤ MAXARGS := Nat.le_of_ble_eq_true rfl
  refine (compileargs_spec hr strict .VAL_INT rfl nofun (if hex then 3 else 1) c p true 0
    (Nat.lt_succ_of_lt hlen) hreg fun _ => by omega).bind ?_
  rintro ⟨c', q, numargs, more⟩ hargs
  have hfew : numargs ≤ 3 := hargs.few.trans hthree
  have hmakes : Makes strict c c' 0 numargs := by simpa using hargs.makes
  match numargs with
  | 0 => exact .pure ⟨hargs.rest, hmakes.trans (used_makes c' id le_rfl (by omega) ⟨rfl, rfl, nofun⟩)⟩
  | 1 => exact .pure ⟨hargs.rest, hmakes.trans (used_makes c' id le_rfl (by omega) ⟨rfl, rfl, nofun⟩)⟩
  | 2 => exact .pure ⟨hargs.rest, hmakes.trans (used_makes c' id le_rfl (by omega) ⟨rfl, rfl, nofun⟩)⟩
  | 3 => exact .pure ⟨hargs.rest, hmakes.trans (used_makes c' id le_rfl (by omega) ⟨rfl, rfl, nofun⟩)⟩

theorem compilefvar_spec (hr : RecSpec n r) (c : Compiler) (p : Text) (id : Nat)
    (hlen : p.length < n) (hreg : Registered c.idents) :
    Yields (compilefvar fl r c p id) (Stated strict c p 0) := by
  refine (compilearg_spec hr strict c p .VAL_FLOAT 0 (Nat.lt_succ_of_lt hlen) hreg rfl nofun
    fun _ => Nat.zero_le _).bind ?_
  rintro ⟨c', q, more⟩ harg
  cases more with
  | false =>
    have hmakes : Makes strict c c' 0 0 := harg.makes
    exact .pure ⟨harg.rest, hmakes.trans (used_makes c' id (Nat.zero_le _) (Nat.zero_le _)
      ⟨rfl, rfl, nofun⟩)⟩
  | true =>
    have hmakes : Makes strict c c' 0 1 := harg.makes
    exact .pure ⟨harg.rest, hmakes.trans (used_makes c' id le_rfl (Nat.le_of_ble_eq_true rfl)
      ⟨rfl, rfl, nofun⟩)⟩

theorem compilesvar_spec (hr : RecSpec n r) (c : Compiler) (p : Text) (id : Nat)
    (hlen : p.length < n) (hreg : Registered c.idents) :
    Yields (compilesvar fl r c p id) (Stated strict c p 0) := by
  refine (compilearg_spec hr strict c p .VAL_STR 0 (Nat.lt_succ_of_lt hlen) hreg rfl nofun
    fun _ => Nat.zero_le _).bind ?_
  rintro ⟨c', q, more⟩ harg
  cases more with
  | false =>
    have hmakes : Makes strict c c' 0 0 := harg.makes
    exact .pure ⟨harg.rest, hmakes.trans (used_makes c' id (Nat.zero_le _) (Nat.zero_le _)
      ⟨rfl, rfl, nofun⟩)⟩
  | true =>
    have hmakes : Makes strict c c' 0 1 := harg.makes
    have hmax : 1 ≤ MAXARGS := Nat.le_of_ble_eq_true rfl
    refine (compileargs_spec hr strict .VAL_ANY rfl nofun (MAXARGS - 1) c' q true 1
      (Nat.lt_of_le_of_lt harg.rest.length_le (Nat.lt_succ_of_lt hlen)) (hmakes.registered hreg)
      fun _ => by omega).bind ?_
    rintro ⟨c'', q', numconc, more⟩ hargs
    have hfew : numconc ≤ MAXARGS - 1 := hargs.few
    have hconc : Makes strict c''
        (if 0 < numconc then c''.emit .CONC .RET_STR (numconc + 1) else c'') (0 + 1 + numconc)
        (0 + 1) := conc_makes c'' numconc fun _ => by omega
    exact .pure ⟨hargs.rest.trans harg.rest, ((hmakes.trans hargs.makes).trans hconc).trans
      (used_makes _ id le_rfl hmax ⟨rfl, rfl, nofun⟩)⟩

theorem Registered.prototype {ids : List Ident} {id : Nat} {args : Text} (h : Registered ids)
    (hcom : Commanded ids id args) : Prototype args := by
  obtain ⟨ident, hid, htype⟩ := Option.map_eq_some_iff.mp hcom
  exact h ident (List.mem_of_getElem? hid) args htype

variable (strict) in
theorem compilename_spec (hr : RecSpec n r) (c : Compiler) (p name : Text) (hlen : p.length < n)
    (hreg : Registered c.idents) : Yields (compilename fl r c p name) (Stated strict c p 0) := by
  have hzero : strict → 0 ≤ MAXARGS := fun _ => Nat.zero_le _
  unfold compilename
  split
  · split
    · have hvalue : Makes strict c (if (strtol name).2 = [] then c.compileint (toint (strtol name).1)
          else c.compilestr name false) 0 1 := by
        split
        · exact .compileint c hzero _
        · exact .compilestr c hzero _ _
      have hresult (c' : Compiler) : Makes strict c' (c'.add (inst .RESULT .RET_NULL 0)) 1 0 :=
        .add rfl c' 0 1 fun _ _ _ _ => .of le_rfl (Nat.le_of_ble_eq_true rfl)
      exact .pure ⟨List.suffix_rfl, hvalue.trans (hresult _)⟩
    · have hvalue : Makes strict c (c.compilestr name false) 0 1 := .compilestr c hzero _ _
      refine (compilenoid_spec strict hr _ p hlen (hvalue.registered hreg)).imp ?_
      exact fun x hx => ⟨hx.rest, hvalue.trans hx.makes⟩
  · next id haccess =>
    refine (compileargs_spec hr strict .VAL_ANY rfl nofun MAXARGS c p true 0
      (Nat.lt_succ_of_lt hlen) hreg fun _ => by omega).bind ?_
    rintro ⟨c', q, numargs, more⟩ hargs
    have hfew : numargs ≤ MAXARGS := hargs.few
    have hmakes : Makes strict c c' 0 numargs := by simpa using hargs.makes
    exact .pure ⟨hargs.rest, hmakes.trans (used_makes c' id (Nat.zero_le _) hfew ⟨rfl, rfl, nofun⟩)⟩
  · next id args haccess =>
    have hcom : Commanded c.idents id args := access_type haccess
    exact (compilecommand_spec hr c p id args hlen hreg (hreg.prototype hcom) hcom).imp
      fun x hx => ⟨hx.1, hx.2⟩
  · exact compilelocal_spec hr c p hlen hreg
  · exact compilevar_spec hr c p _ _ hlen hreg
  · exact compilefvar_spec hr c p _ hlen hreg
  · exact compilesvar_spec hr c p _ hlen hreg

/-- A value stands for what has no name. -/
def unnamed {α : Type} : Option α → Nat
  | none => 1
  | some _ => 0

theorem unnamed_le {α : Type} (x : Option α) : unnamed x ≤ 1 := by
  cases x with
  | none => exact le_rfl
  | some _ => exact Nat.zero_le 1

/-- There is a value for what is assigned to, unless it is an alias. -/
theorem assignee_makes (c : Compiler) (idname : Option Text) :
    Makes strict c (assignee c idname).1 (unnamed idname) (unnamed (assignee c idname).2) := by
  cases idname with
  | none => exact .refl c fun _ => rfl
  | some name =>
    have hname : Makes strict c (c.newident name).1 0 0 := .newident c name fun _ => rfl
    unfold assignee
    simp only
    generalize c.newident name = x at hname ⊢
    obtain ⟨c', id, type⟩ := x
    cases type with
    | ID_ALIAS => exact hname
    | _ => exact hname.trans (.compilestr c' (fun _ => Nat.zero_le _) _ _)

variable (strict) in
theorem compileassign_spec (hr : RecSpec n r) (c : Compiler) (p : Text) (idname : Option Text)
    (hlen : p.length < n) (hreg : Registered c.idents) :
    Yields (compileassign fl r c p idname) (Stated strict c p (unnamed idname)) := by
  have hassignee : Makes strict c _ _ _ := assignee_makes c idname
  have hone : 1 ≤ MAXARGS := Nat.le_of_ble_eq_true rfl
  unfold compileassign
  generalize assignee c idname = x at hassignee ⊢
  obtain ⟨c₁, id⟩ := x
  simp only at hassignee ⊢
  have hroom : unnamed id ≤ MAXARGS := (unnamed_le id).trans hone
  refine (compilearg_spec hr strict c₁ p .VAL_ANY (unnamed id) (Nat.lt_succ_of_lt hlen)
    (hassignee.registered hreg) rfl nofun fun _ => hroom).bind ?_
  rintro ⟨c₂, q, more⟩ harg
  have hvalue : Makes strict c₁ (if more then c₂ else c₂.compilestr [] false) (unnamed id)
      (unnamed id + 1) := by
    cases more with
    | true => exact harg.makes
    | false =>
      have hmakes : Makes strict c₁ c₂ (unnamed id) (unnamed id) := harg.makes
      rw [if_neg Bool.false_ne_true]
      exact hmakes.trans (.compilestr c₂ (fun _ => hroom) _ _)
  have hmakes := hassignee.trans hvalue
  cases id with
  | some id =>
    have halias (c' : Compiler) : Makes strict c'
        (c'.emit (if id < MAXARGS then .ALIASARG else .ALIAS) .RET_NULL id) 1 0 := by
      split
      · exact used_makes c' id le_rfl hone ⟨rfl, rfl, nofun⟩
      · exact used_makes c' id le_rfl hone ⟨rfl, rfl, nofun⟩
    exact .pure ⟨harg.rest, hmakes.trans (halias _)⟩
  | none =>
    have haliasu (c' : Compiler) : Makes strict c' (c'.add (inst .ALIASU .RET_NULL 0)) 2 0 :=
      .add rfl c' 0 2 fun _ _ _ _ => .of le_rfl (Nat.le_of_ble_eq_true rfl)
    exact .pure ⟨harg.rest, hmakes.trans (haliasu _)⟩

variable (strict) in
/-- **A statement** leaves no values. -/
theorem compilestatement_spec (hr : RecSpec n r) (c : Compiler) (p : Text) (hlen : p.length < n + 1)
    (hreg : Registered c.idents) : Yields (compilestatement fl r c p) (Stated strict c p 0) := by
  have hskip : skipcomments p <:+ p := skipcomments_suffix p
  refine (compileword_spec hr strict c (skipcomments p) .VAL_ANY 0
    (Nat.lt_of_le_of_lt hskip.length_le hlen) hreg rfl fun _ => Nat.zero_le _).bind ?_
  rintro ⟨c', q, more, idname⟩ hword
  have hrest : q <:+ p := hword.rest.trans hskip
  cases more with
  | false =>
    rw [show c' = c from hword.same rfl]
    exact .pure ⟨hrest, .refl c fun _ => rfl⟩
  | true =>
    have hmakes : Makes strict c c' 0 (unnamed idname) := by
      have hmakes := hword.makes
      cases idname <;> exact hmakes
    have hless : q.length < p.length := Nat.lt_of_lt_of_le (hword.less rfl) hskip.length_le
    have hskip' : skipcomments q <:+ q := skipcomments_suffix q
    have hlen' : (skipcomments q).length < n := by
      have := hskip'.length_le
      omega
    have hreg' := hmakes.registered hreg
    simp only
    split
    · have htail : (skipcomments q).tail <:+ skipcomments q := List.tail_suffix _
      refine (compileassign_spec strict hr c' (skipcomments q).tail idname
        (Nat.lt_of_le_of_lt htail.length_le hlen') hreg').imp fun x hx => ?_
      exact ⟨((hx.rest.trans htail).trans hskip').trans hrest, hmakes.trans hx.makes⟩
    · cases idname with
      | none =>
        refine (compilenoid_spec strict hr c' (skipcomments q) hlen' hreg').imp ?_
        exact fun x hx => ⟨(hx.rest.trans hskip').trans hrest, hmakes.trans hx.makes⟩
      | some name =>
        refine (compilename_spec strict hr c' (skipcomments q) name hlen' hreg').imp ?_
        exact fun x hx => ⟨(hx.rest.trans hskip').trans hrest, hmakes.trans hx.makes⟩

/-! ## Texts -/

variable (strict) in
/-- The end of a statement, or of all. -/
theorem endstatement_spec (hr : RecSpec n r) (more : Bool) (brak : Option UInt8) (c : Compiler)
    (p : Text) (hlen : p.length < n + 1) (hreg : Registered c.idents) :
    Yields (endstatement fl r more brak c p) fun x => x.2.1 <:+ p ∧ Makes strict c x.1 0 0 ∧
      (x.2.2 = false → x.2.1.length < p.length) := by
  refine loop_spec (fun x => x.2 <:+ p ∧ Makes strict c x.1 0 0) (fun x => x.2.length) _
    (fun x hx => ?_) _ (c, p) ⟨List.suffix_rfl, .refl c fun _ => rfl⟩ (Nat.lt_succ_self _)
  obtain ⟨c₁, q⟩ := x
  obtain ⟨hrest, hmakes⟩ := hx
  have hpops : Yields (compilerest fl r more c₁ q) fun x => x.2 <:+ q ∧ Makes strict c₁ x.1 0 0 := by
    unfold compilerest
    split
    · exact compilepops_spec strict hr c₁ q (Nat.lt_of_le_of_lt hrest.length_le hlen)
        (hmakes.registered hreg) fun _ => Nat.zero_le _
    · exact .pure ⟨List.suffix_rfl, .refl c₁ fun _ => rfl⟩
  unfold endstep
  refine hpops.bind ?_
  rintro ⟨c₂, q₂⟩ ⟨hrest₂, hmakes₂⟩
  have hstop : strcspn ")];/\n" q₂ <:+ q₂ := strcspn_suffix _ _
  have hmakes' : Makes strict c c₂ 0 0 := hmakes.trans hmakes₂
  cases hcut : strcspn ")];/\n" q₂ with
  | nil =>
    simp only [hcut]
    exact .pure ⟨List.nil_suffix, hmakes', nofun⟩
  | cons ch s =>
    rw [hcut] at hstop
    have hs : ch :: s <:+ q := hstop.trans hrest₂
    have hless {t : Text} (ht : t <:+ s) : t <:+ p ∧ t.length < q.length := by
      have hlen := hs.length_le
      have hlen' := ht.length_le
      rw [List.length_cons] at hlen
      exact ⟨((ht.trans (List.suffix_cons ch s)).trans hs).trans hrest, by omega⟩
    simp only [hcut]
    split
    · have hcomment : (if s.head? = some (chr '/') then strcspn "\n" s else s) <:+ s := by
        split
        · exact strcspn_suffix _ _
        · exact List.suffix_rfl
      obtain ⟨hsuffix, hlt⟩ := hless hcomment
      exact .pure ⟨⟨hsuffix, hmakes'⟩, hlt⟩
    · obtain ⟨hsuffix, hlt⟩ := hless List.suffix_rfl
      exact .pure ⟨hsuffix, hmakes', fun _ => Nat.lt_of_lt_of_le hlt hrest.length_le⟩

/-- **Statements** leave no values. -/
theorem compilestatements_spec (hr : RecSpec n r) (strict : Prop) (c : Compiler) (p : Text)
    (brak : Option UInt8) (hlen : p.length < n + 1) (hreg : Registered c.idents) :
    Yields (compilestatements fl r c p brak) fun x => x.2 <:+ p ∧ Makes strict c x.1 0 0 := by
  refine loop_spec (fun x => x.2 <:+ p ∧ Makes strict c x.1 0 0) (fun x => x.2.length) _
    (fun x hx => ?_) _ (c, p) ⟨List.suffix_rfl, .refl c fun _ => rfl⟩ (Nat.lt_succ_self _)
  obtain ⟨c₁, q⟩ := x
  obtain ⟨hrest, hmakes⟩ := hx
  have hlen₁ : q.length < n + 1 := Nat.lt_of_le_of_lt hrest.length_le hlen
  refine (compilestatement_spec strict hr c₁ q hlen₁ (hmakes.registered hreg)).bind ?_
  rintro ⟨c₂, q₂, more⟩ hstated
  have hrest₂ : q₂ <:+ q := hstated.rest
  have hmakes₂ : Makes strict c c₂ 0 0 := hmakes.trans hstated.makes
  refine (endstatement_spec strict hr more brak c₂ q₂
    (Nat.lt_of_le_of_lt hrest₂.length_le hlen₁) (hmakes₂.registered hreg)).bind ?_
  rintro ⟨c₃, q₃, done⟩ ⟨hrest₃, hmakes₃, hless⟩
  cases done with
  | true => exact .pure ⟨(hrest₃.trans hrest₂).trans hrest, hmakes₂.trans hmakes₃⟩
  | false =>
    exact .pure ⟨⟨(hrest₃.trans hrest₂).trans hrest, hmakes₂.trans hmakes₃⟩,
      Nat.lt_of_lt_of_le (hless rfl) hrest₂.length_le⟩

end Functions

/-- **The recursion** is deep enough for texts of its depth. -/
theorem functions_spec {F : Type} (fl : Floats F) : ∀ n, RecSpec n (functions fl n) := by
  intro n
  induction n with
  | zero => exact ⟨nofun, nofun, nofun, nofun⟩
  | succ n ih =>
    exact ⟨compilestatements_spec ih, compileword_spec ih, compilelookup_spec ih,
      fun strict c p t k hlen hreg ht hcode => compilearg_spec ih strict c p t k hlen hreg ht
        fun h => absurd h hcode⟩

/-- **What is made of a text**: the bracketed code of its statements; a null pointer was taken for a
text exactly where code was looked up under no name. -/
theorem compilemain_spec {F : Type} (fl : Floats F) (strict : Prop) (idents : List Ident) (p : Text)
    (hreg : Registered idents) : Yields (compilemain fl idents p) fun c =>
      (c.nulltext = true ↔ Nameless c) ∧ idents <+: c.idents ∧ Registered c.idents ∧
        ∃ l, c.code = inst .START .RET_NULL 0 :: (l ++ [inst .EXIT .RET_NULL 0]) ∧
          (Clean strict c → ∀ ids, c.idents <+: ids → Layout strict ids 0 l 0) := by
  refine (compilestatements_spec (functions_spec fl (p.length + 1)) strict
    (({ idents } : Compiler).add (inst .START .RET_NULL 0)) p none
    (Nat.lt_succ_of_lt (Nat.lt_succ_self _)) hreg).bind ?_
  rintro ⟨c, q⟩ ⟨-, hmakes⟩
  obtain ⟨l, hl, hlayout⟩ := hmakes.code
  refine .pure ⟨⟨fun hnull => ?_, fun hno => ?_⟩, hmakes.idents, hmakes.registered hreg, l, ?_, hlayout⟩
  · obtain h | h := hmakes.nameless hnull
    · cases h
    · exact h
  · obtain ⟨ids, p, hmem, -⟩ | h := hmakes.nulled hno
    · cases hmem
    · exact h
  · simp only [Compiler.add] at hl ⊢
    rw [hl]
    rfl

end Script

end QServ
