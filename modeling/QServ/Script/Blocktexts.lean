import QServ.Lib.Cstring
import QServ.Script.Blocks
import QServ.Script.Escapes

/-!
# The texts of blocks

`compileblockstr` of `engine/command.cpp` copies what `compileblock` has found into the words it has
reserved for it.

* `copyblockstr`: the copy with its memory; a write outside the words reserved is none.
* `reading`: the characters of a text, each with what it is a part of.
* `Handed`: the places `compileblock` has it copy between.
* `blockstr_exact`: which of these are copied as they should be; `last_copied` is one that is not.
-/

namespace QServ

namespace Script

open Loop Cstring

/-! ## The copy -/

/-- One round of `compileblockstr`: the rest of `str`, and `buf` with `len`. -/
def copystep (stop : Nat) :
    Text × Text × Nat → Option (Text × Text × Nat ⊕ Text × Nat)
  | (str, buf) =>
    if str.length ≤ stop then some (.inr buf)
    else
      let q := strcspn "\r/\"@]" str
      (put buf (upto str q)).bind fun buf =>
        match q with
        | [] => some (.inr buf)
        | c :: rest =>
          if c = chr '\r' then some (.inl (rest, buf))
          else if c = chr '"' then
            let e := skipquote (parsestring rest)
            (put buf (upto q e)).map fun buf => .inl (e, buf)
          else if c = chr '/' then
            if rest.head? = some (chr '/') then some (.inl (strcspn "\n" q, buf))
            else (put buf [c]).map fun buf => .inl (rest, buf)
          else if stop < q.length then (put buf [c]).map fun buf => .inl (rest, buf)
          else some (.inr buf)

/-- Words of four characters. -/
def words : Text → List Nat
  | a :: b :: c :: d :: l =>
    (a.toNat + 2 ^ 8 * b.toNat + 2 ^ 16 * c.toNat + 2 ^ 24 * d.toNat) :: words l
  | _ => []

/-- `compileblockstr(code, str, end, macro)`, where `mem` is in the words that are reserved. -/
def copyblockstr (c : Compiler) (str : Text) (stop : Nat) (mac : Bool) (mem : Text) :
    Option Compiler := do
  let (buf, len) ← Loop.loop (copystep stop) (str.length + 1) (str, mem, 0)
  let (buf, _) ← put (buf, len) (List.replicate (4 - len % 4) 0)
  let c := if mac then c.emit .MACRO .RET_NULL len else c.emit .VAL .RET_STR len
  return { c with code := c.code ++ words (buf.take (4 * (len / 4 + 1))) }

/-- The characters that are reserved for it. -/
def reserved (str : Text) (stop : Nat) : Nat := 4 * ((str.length - stop) / 4 + 1)

/-! ## What is read -/

/-- What a character is a part of: a string, an escape sequence of it, a comment, or none of these;
then it may come right behind what has a meaning of its own. -/
inductive Part
  | fresh
  | plain
  | quoted
  | escaped
  | comment
deriving DecidableEq

/-- What is behind a character that is not in a string and not in a comment. -/
def Part.behind (c : UInt8) : Part :=
  if c = chr '"' then .quoted else if c ∈ word "\r/@]" then .fresh else .plain

/-- The characters of a text, each with what it is a part of; a string ends with its line. -/
def reading : Part → Text → List (Part × UInt8)
  | _, [] => []
  | .quoted, c :: p =>
    if c ∈ word "\r\n" then (.fresh, c) :: reading (.behind c) p
    else if c = chr '"' then (.quoted, c) :: reading .fresh p
    else (.quoted, c) :: reading (if c = chr '^' then .escaped else .quoted) p
  | .escaped, c :: p => (.escaped, c) :: reading .quoted p
  | .comment, c :: p =>
    if c = chr '\n' then (.fresh, c) :: reading (.behind c) p
    else (.comment, c) :: reading .comment p
  | part, c :: p =>
    if iscomment (c :: p) then (.comment, c) :: reading .comment p
    else (part, c) :: reading (.behind c) p

/-- Characters without carriage returns and comments. -/
def strip (xs : List (Part × UInt8)) : Text :=
  (xs.filter fun x => x.1 ≠ .comment ∧ x.2 ≠ chr '\r').map Prod.snd

/-- The first characters of a text, without carriage returns and comments. -/
def stripped (str : Text) (n : Nat) : Text := strip ((reading .fresh str).take n)

/-- A character that `compileblockstr` does not come to copy where the text ends behind it. -/
def Skipped (x : Part × UInt8) : Prop :=
  x.1 = .comment ∨ x.1 = .fresh ∨ x.1 = .plain ∧ x.2 ∈ word "\r@]"

/-! ## What is handed -/

/-- Where `compileblock` has it copy, from `str` up to where so much is left; whether the bracket is
there that closes the block, as far as it has come. -/
inductive Handed (r : Rec) (c : Compiler) (p : Text) (wordtype : Valtype) : Text → Nat → Bool → Prop
  | sub {s : Blockscan} {q : Text}
      (hs : Relation.ReflTransGen (fun s t => blockstep r s = some (.inl t)) { c, p, start := p } s)
      (hbrak : s.brak ≠ 0) (hat : strcspn "@\"/[]" s.p = chr '@' :: q)
      (hlevel : s.brak ≤ q.length - (strspn "@" q).length + 1) :
      Handed r c p wordtype s.start (q.length + 1) true
  | last {s t : Blockscan} {stop : Nat}
      (hs : Relation.ReflTransGen (fun s t => blockstep r s = some (.inl t)) { c, p, start := p } s)
      (hend : blockstep r s = some (.inr (t, stop))) (hsome : stop < t.start.length)
      (htype : t.concs = 0 → wordtype ≠ .VAL_CODE ∧ wordtype ≠ .VAL_IDENT) :
      Handed r c p wordtype t.start stop (decide (s.brak = 0))

/-! ## The words reserved -/

theorem words_zeros (s : Text) : words (s ++ List.replicate (4 - s.length % 4) 0) = pack s := by
  fun_induction pack s with
  | case1 a b c d l ih =>
    have hlen : (a :: b :: c :: d :: l).length % 4 = l.length % 4 := by
      simp only [List.length_cons]
      omega
    rw [hlen, List.cons_append, List.cons_append, List.cons_append, List.cons_append, words, ih]
  | _ => rfl

/-- What a round copies behind the characters up to the one it stops at, and where the next one
begins. -/
def blockround (stop : Nat) : Text → Text × Option Text
  | [] => ([], none)
  | c :: rest =>
    if c = chr '\r' then ([], some rest)
    else if c = chr '"' then
      (upto (c :: rest) (skipquote (parsestring rest)), some (skipquote (parsestring rest)))
    else if c = chr '/' then
      if rest.head? = some (chr '/') then ([], some (strcspn "\n" (c :: rest)))
      else ([c], some rest)
    else if stop < (c :: rest).length then ([c], some rest)
    else ([], none)

section Copy

variable {stop size : Nat} {str t : Text} {buf : Text × Nat}

theorem blockstrstep_end (hstop : str.length ≤ stop) (t : Text) :
    blockstrstep stop (str, t) = some (.inr t) := by
  rw [blockstrstep.eq_def]
  exact if_pos hstop

theorem blockstrstep_eq (hstop : stop < str.length) (t : Text) : blockstrstep stop (str, t) =
    some (match (blockround stop (strcspn "\r/\"@]" str)).2 with
      | none => .inr (t ++ upto str (strcspn "\r/\"@]" str) ++
          (blockround stop (strcspn "\r/\"@]" str)).1)
      | some next => .inl (next, t ++ upto str (strcspn "\r/\"@]" str) ++
          (blockround stop (strcspn "\r/\"@]" str)).1)) := by
  rw [blockstrstep.eq_def]
  dsimp only
  rw [if_neg (Nat.not_le.mpr hstop)]
  generalize t ++ upto str (strcspn "\r/\"@]" str) = u
  cases strcspn "\r/\"@]" str with
  | nil => simp [blockround]
  | cons c rest =>
    unfold blockround
    dsimp only
    split_ifs <;> simp

theorem copystep_eq (h : Filled buf size t) (hstop : stop < str.length) :
    copystep stop (str, buf) = (put buf (upto str (strcspn "\r/\"@]" str))).bind fun buf =>
      (put buf (blockround stop (strcspn "\r/\"@]" str)).1).map fun buf =>
        match (blockround stop (strcspn "\r/\"@]" str)).2 with
        | none => .inr buf
        | some next => .inl (next, buf) := by
  rw [copystep.eq_def]
  dsimp only
  rw [if_neg (Nat.not_le.mpr hstop)]
  cases hput : put buf (upto str (strcspn "\r/\"@]" str)) with
  | none => rfl
  | some buf' =>
    have hnil := (h.of_put hput).2.put_nil
    rw [Option.bind_some, Option.bind_some]
    cases strcspn "\r/\"@]" str with
    | nil => simp [blockround, hnil]
    | cons c rest =>
      unfold blockround
      dsimp only
      split_ifs <;> simp [hnil]

theorem blockstr_grows {n : Nat} {u : Text} (h : loop (blockstrstep stop) n (str, t) = some u) :
    t <+: u := by
  induction n generalizing str t with
  | zero => cases h
  | succ n ih =>
    rw [loop] at h
    by_cases hstop : str.length ≤ stop
    · rw [blockstrstep_end hstop] at h
      cases h
      exact List.prefix_rfl
    · rw [blockstrstep_eq (Nat.lt_of_not_le hstop), List.append_assoc] at h
      cases hnext : (blockround stop (strcspn "\r/\"@]" str)).2 with
      | none =>
        rw [hnext] at h
        cases h
        exact List.prefix_append _ _
      | some next =>
        rw [hnext] at h
        exact (List.prefix_append _ _).trans (ih h)

/-- **The memory** that a copy needs is as long as what is copied. -/
theorem copy_loop {n : Nat} {u : Text} (h : Filled buf size t)
    (hloop : loop (blockstrstep stop) n (str, t) = some u) :
    (u.length ≤ size → ∃ m, loop (copystep stop) n (str, buf) = some m ∧ Filled m size u) ∧
      (size < u.length → loop (copystep stop) n (str, buf) = none) := by
  induction n generalizing str t buf with
  | zero => cases hloop
  | succ n ih =>
    by_cases hstop : str.length ≤ stop
    · have hcopy : copystep stop (str, buf) = some (.inr buf) := by
        rw [copystep.eq_def]
        exact if_pos hstop
      rw [loop, blockstrstep_end hstop] at hloop
      cases hloop
      rw [loop, hcopy]
      exact ⟨fun _ => ⟨buf, rfl, h⟩, fun hlt => absurd h.length_le (Nat.not_le.mpr hlt)⟩
    · rw [Nat.not_le] at hstop
      rw [loop, blockstrstep_eq hstop] at hloop
      rw [loop, copystep_eq h hstop]
      generalize upto str (strcspn "\r/\"@]" str) = run at hloop ⊢
      generalize blockround stop (strcspn "\r/\"@]" str) = round at hloop ⊢
      obtain ⟨chunk, next⟩ := round
      -- what is copied stays
      have hgrows : t ++ run ++ chunk <+: u := by
        cases next with
        | none =>
          cases hloop
          exact List.prefix_rfl
        | some next => exact blockstr_grows hloop
      have hlen := hgrows.length_le
      rw [List.length_append, List.length_append] at hlen
      cases hrun : put buf run with
      | none =>
        refine ⟨fun hle => ?_, fun _ => rfl⟩
        obtain ⟨m, hm, -⟩ := h.put (s := run) (by omega)
        rw [hrun] at hm
        cases hm
      | some buf' =>
        obtain ⟨-, h'⟩ := h.of_put hrun
        rw [Option.bind_some]
        cases hchunk : put buf' chunk with
        | none =>
          refine ⟨fun hle => ?_, fun _ => rfl⟩
          obtain ⟨m, hm, -⟩ := h'.put (s := chunk) (by rw [List.length_append]; omega)
          rw [hchunk] at hm
          cases hm
        | some buf'' =>
          obtain ⟨-, h''⟩ := h'.of_put hchunk
          rw [Option.map_some]
          cases next with
          | none =>
            cases hloop
            exact ⟨fun _ => ⟨buf'', rfl, h''⟩, fun hlt =>
              absurd h''.length_le (Nat.not_le.mpr hlt)⟩
          | some next => exact ih h'' hloop

/-- **The copy in its memory** is the text, where there is room for it and its zeros. -/
theorem copyblockstr_eq (c : Compiler) {u mem : Text} (mac : Bool)
    (hmem : mem.length = reserved str stop) (hu : blockstr str stop = some u) :
    copyblockstr c str stop mac mem =
      if u.length / 4 ≤ (str.length - stop) / 4 then compileblockstr c str stop mac else none := by
  have hbegin : Filled (mem, 0) (reserved str stop) [] := ⟨hmem, rfl, rfl⟩
  obtain ⟨hfits, hfull⟩ := copy_loop hbegin hu
  have hmod := Nat.mod_add_div u.length 4
  have hless : u.length % 4 < 4 := Nat.mod_lt _ (by decide)
  have hres : reserved str stop = 4 * ((str.length - stop) / 4 + 1) := rfl
  unfold copyblockstr
  by_cases hroom : u.length / 4 ≤ (str.length - stop) / 4
  · rw [if_pos hroom]
    obtain ⟨⟨buf, len⟩, hm, hfilled⟩ := hfits (by omega)
    obtain rfl : len = u.length := hfilled.count
    obtain ⟨⟨buf', len'⟩, hput, hpadded⟩ :=
      hfilled.put (s := List.replicate (4 - u.length % 4) 0) (by rw [List.length_replicate]; omega)
    have hlen' : len' = 4 * (u.length / 4 + 1) := by
      have hcount : len' = _ := hpadded.count
      rw [hcount, List.length_append, List.length_replicate]
      omega
    have hcells : buf'.take (4 * (u.length / 4 + 1)) =
        u ++ List.replicate (4 - u.length % 4) 0 := hlen' ▸ hpadded.cells
    rw [hm]
    dsimp only [bind, Option.bind]
    rw [hput]
    dsimp only
    rw [hcells, words_zeros, compileblockstr, hu]
    cases mac with
    | false => rfl
    | true => rfl
  · rw [if_neg hroom]
    by_cases hlen : u.length ≤ reserved str stop
    · obtain ⟨⟨buf, len⟩, hm, hfilled⟩ := hfits hlen
      obtain rfl : len = u.length := hfilled.count
      have hnone := hfilled.put_none (s := List.replicate (4 - u.length % 4) 0)
        (by rw [List.length_replicate]; omega)
      rw [hm]
      dsimp only [bind, Option.bind]
      rw [hnone]
    · rw [hfull (Nat.lt_of_not_le hlen)]
      rfl

end Copy

/-! ## Reading -/

/-- Neither in a string nor in a comment. -/
def Part.Outside (m : Part) : Prop := m = .fresh ∨ m = .plain

/-- What is copied of the characters. -/
def copied (xs : List (Part × UInt8)) : Text :=
  (xs.filter fun x => x.1 ≠ .comment ∧ (x.2 = chr '\r' → x.1 = .escaped)).map Prod.snd

/-- A character that is not the first of its piece. -/
def Inner (x : Part × UInt8) : Prop :=
  x.1 = .comment ∨ x.1 = .escaped ∨ x.1 = .quoted ∧ x.2 ≠ chr '\r'

theorem copied_append (xs ys : List (Part × UInt8)) :
    copied (xs ++ ys) = copied xs ++ copied ys := by
  rw [copied, List.filter_append, List.map_append]
  rfl

section Reading

variable {m : Part} {c : UInt8} {p : Text}

theorem reading_outside (hm : m.Outside) (c : UInt8) (p : Text) : reading m (c :: p) =
    if iscomment (c :: p) then (.comment, c) :: reading .comment p
    else (m, c) :: reading (.behind c) p := by
  obtain rfl | rfl := hm <;> rfl

theorem reading_plain (hm : m.Outside) (hc : c ≠ chr '/') (p : Text) :
    reading m (c :: p) = (m, c) :: reading (.behind c) p := by
  rw [reading_outside hm, if_neg fun h => hc ((iscomment_cons c p).mp h).1]

theorem reading_nil (m : Part) : reading m [] = [] := by cases m <;> rfl

theorem snd_reading (m : Part) (p : Text) : (reading m p).map Prod.snd = p := by
  induction p generalizing m with
  | nil => cases m <;> rfl
  | cons c p ih =>
    cases m <;> unfold reading <;> (repeat' split) <;> simp [ih]

theorem reading_single (c : UInt8) : reading .fresh [c] = [(.fresh, c)] := by
  have hno : ¬iscomment [c] = true := fun h => by
    have hslash := ((iscomment_cons c []).mp h).2
    cases hslash
  rw [reading_outside (.inl rfl), if_neg hno, reading_nil]

theorem length_reading (m : Part) (p : Text) : (reading m p).length = p.length := by
  rw [← List.length_map Prod.snd, snd_reading]

/-- Characters of a piece are all copied, where it is a string. -/
theorem copied_string {xs : List (Part × UInt8)} (h : ∀ x ∈ xs, Inner x ∧ x.1 ≠ .comment) :
    copied xs = xs.map Prod.snd := by
  unfold copied
  rw [List.filter_eq_self.mpr]
  intro x hx
  obtain ⟨hinner, hcomment⟩ := h x hx
  obtain hx1 | hx1 | ⟨-, hx2⟩ := hinner
  · exact absurd hx1 hcomment
  · simp [hx1]
  · simp [hcomment, hx2]

theorem strcspn_stop {reject : String} (hc : c ∈ word reject) (p : Text) :
    strcspn reject (c :: p) = c :: p :=
  List.dropWhile_cons_of_neg (by simpa using hc)

theorem strcspn_pass {reject : String} (hc : c ∉ word reject) (p : Text) :
    strcspn reject (c :: p) = strcspn reject p :=
  List.dropWhile_cons_of_pos (by simpa using hc)

theorem behind_outside (hc : c ≠ chr '"') : (Part.behind c).Outside := by
  unfold Part.behind
  rw [if_neg hc]
  split
  · exact .inl rfl
  · exact .inr rfl

/-- A string ends where the next piece begins. -/
theorem reading_string (p : Text) : ∃ xs, reading .quoted p =
    xs ++ reading .fresh (skipquote (parsestring p)) ∧ ∀ x ∈ xs, Inner x ∧ x.1 ≠ .comment := by
  have hnil : ∀ x ∈ ([] : List (Part × UInt8)), Inner x ∧ x.1 ≠ .comment := fun x hx => by cases hx
  fun_induction parsestring p with
  | case1 => exact ⟨[], rfl, hnil⟩
  | case2 c p hstop =>
    by_cases hquote : c = chr '"'
    · subst hquote
      refine ⟨[(.quoted, chr '"')], rfl, fun x hx => ?_⟩
      obtain rfl := List.mem_singleton.mp hx
      exact ⟨.inr (.inr ⟨rfl, by decide⟩), fun h => by cases h⟩
    · have hline : c ∈ word "\r\n" :=
        (List.mem_append.mp hstop).resolve_right fun h => hquote (List.mem_singleton.mp h)
      have hslash : c ≠ chr '/' := by
        rintro rfl
        exact absurd hline (by decide)
      have hskip : skipquote (c :: p) = c :: p :=
        if_neg fun h => hquote (Option.some.inj h)
      refine ⟨[], ?_, hnil⟩
      rw [hskip, List.nil_append, reading_plain (.inl rfl) hslash, reading, if_pos hline]
  | case3 _ =>
    refine ⟨[(.quoted, chr '^')], rfl, fun x hx => ?_⟩
    obtain rfl := List.mem_singleton.mp hx
    exact ⟨.inr (.inr ⟨rfl, by decide⟩), fun h => by cases h⟩
  | case4 e p _ ih =>
    obtain ⟨xs, hxs, hinner⟩ := ih
    refine ⟨(.quoted, chr '^') :: (.escaped, e) :: xs, ?_, ?_⟩
    · rw [List.cons_append, List.cons_append, ← hxs]
      rfl
    · rintro x (_ | ⟨_, _ | ⟨_, hx⟩⟩)
      · exact ⟨.inr (.inr ⟨rfl, by decide⟩), fun h => by cases h⟩
      · exact ⟨.inr (.inl rfl), fun h => by cases h⟩
      · exact hinner x hx
  | case5 c p hstop hcaret ih =>
    obtain ⟨xs, hxs, hinner⟩ := ih
    have hline : c ∉ word "\r\n" := fun h => hstop (List.mem_append_left (word "\"") h)
    have hquote : c ≠ chr '"' := by
      rintro rfl
      exact hstop (by decide)
    refine ⟨(.quoted, c) :: xs, ?_, ?_⟩
    · rw [List.cons_append, ← hxs, reading, if_neg hline, if_neg hquote, if_neg hcaret]
    · rintro x (_ | ⟨_, hx⟩)
      · refine ⟨.inr (.inr ⟨rfl, ?_⟩), fun h => by cases h⟩
        rintro rfl
        exact hline (by decide)
      · exact hinner x hx

/-- A comment goes to the end of its line. -/
theorem reading_comment (p : Text) : ∃ xs, reading .comment p =
    xs ++ reading .fresh (strcspn "\n" p) ∧ ∀ x ∈ xs, x.1 = .comment := by
  induction p with
  | nil => exact ⟨[], rfl, fun x hx => by cases hx⟩
  | cons c p ih =>
    by_cases hline : c = chr '\n'
    · subst hline
      refine ⟨[], ?_, fun x hx => by cases hx⟩
      rw [strcspn_stop (by decide), List.nil_append, reading_plain (.inl rfl) (by decide)]
      rfl
    · obtain ⟨xs, hxs, hcomment⟩ := ih
      refine ⟨(.comment, c) :: xs, ?_, ?_⟩
      · rw [strcspn_pass (by simpa [word, chr] using hline), List.cons_append, ← hxs, reading,
          if_neg hline]
      · rintro x (_ | ⟨_, hx⟩)
        · rfl
        · exact hcomment x hx

theorem copied_comment {xs : List (Part × UInt8)} (h : ∀ x ∈ xs, x.1 = .comment) :
    copied xs = [] := by
  unfold copied
  rw [List.filter_eq_nil_iff.mpr, List.map_nil]
  intro x hx
  simp [h x hx]

/-- A rest of the text that is read from a place on. -/
theorem upto_reading {m m' : Part} {p q : Text} {xs : List (Part × UInt8)}
    (h : reading m p = xs ++ reading m' q) : upto p q = xs.map Prod.snd := by
  have hsnd := congrArg (List.map Prod.snd) h
  rw [List.map_append, snd_reading, snd_reading] at hsnd
  rw [hsnd, upto_append]

/-- **A round** copies a piece, behind which the next begins. -/
theorem reading_round {stop : Nat} {q next : Text} (hm : m.Outside)
    (hc : c ∈ word "\r/\"@]") (hnext : (blockround stop (c :: q)).2 = some next) :
    ∃ x xs, reading m (c :: q) = x :: xs ++ reading .fresh next ∧
      (x.1 = m ∧ x.2 = c ∨ x.1 = .comment) ∧ (∀ y ∈ xs, Inner y) ∧
      copied (x :: xs) = (blockround stop (c :: q)).1 := by
  have hloose : m ≠ .comment ∧ m ≠ .escaped := by
    obtain rfl | rfl := hm <;> decide
  unfold blockround at hnext ⊢
  dsimp only at hnext ⊢
  split_ifs at hnext ⊢ with hreturn hquote hslash hcomment hroom
  · cases hnext
    refine ⟨(m, c), [], ?_, .inl ⟨rfl, rfl⟩, nofun, ?_⟩
    · rw [reading_plain hm (by rw [hreturn]; decide), hreturn]
      rfl
    · simp [copied, hreturn, hloose]
  · cases hnext
    obtain ⟨xs, hxs, hinner⟩ := reading_string q
    have hread : reading m (c :: q) =
        (m, c) :: xs ++ reading .fresh (skipquote (parsestring q)) := by
      rw [reading_plain hm (by rw [hquote]; decide), hquote, List.cons_append, ← hxs]
      rfl
    refine ⟨(m, c), xs, hread, .inl ⟨rfl, rfl⟩, fun y hy => (hinner y hy).1, ?_⟩
    have hfirst : copied [(m, c)] = [c] := by simp [copied, hreturn, hloose]
    rw [upto_reading hread, ← List.singleton_append, copied_append, copied_string hinner, hfirst]
    rfl
  · cases hnext
    obtain ⟨xs, hxs, hall⟩ := reading_comment q
    have hpass : strcspn "\n" (c :: q) = strcspn "\n" q := strcspn_pass (by rw [hslash]; decide) q
    have hall' : ∀ x ∈ (Part.comment, c) :: xs, x.1 = .comment := by
      rintro x (_ | ⟨_, hx⟩)
      · rfl
      · exact hall x hx
    refine ⟨(.comment, c), xs, ?_, .inr rfl, fun y hy => .inl (hall y hy), copied_comment hall'⟩
    rw [hpass, List.cons_append, ← hxs, reading_outside hm,
      if_pos ((iscomment_cons c q).mpr ⟨hslash, hcomment⟩)]
  · cases hnext
    refine ⟨(m, c), [], ?_, .inl ⟨rfl, rfl⟩, nofun, ?_⟩
    · rw [reading_outside hm, if_neg fun h => hcomment ((iscomment_cons c q).mp h).2, hslash]
      rfl
    · simp [copied, hreturn, hloose]
  · cases hnext
    refine ⟨(m, c), [], ?_, .inl ⟨rfl, rfl⟩, nofun, ?_⟩
    · rw [reading_plain hm hslash, Part.behind, if_neg hquote, if_pos]
      · rfl
      · have hcases : c = chr '\r' ∨ c = chr '/' ∨ c = chr '"' ∨ c = chr '@' ∨ c = chr ']' := by
          simpa [word, chr] using hc
        obtain h | h | h | h | h := hcases
        · exact absurd h hreturn
        · exact absurd h hslash
        · exact absurd h hquote
        · rw [h]
          decide
        · rw [h]
          decide
    · simp [copied, hreturn, hloose]

theorem behind_plain (hc : c ∉ word "\r/\"@]") : Part.behind c = .plain := by
  have hne : ∀ d ∈ word "\r/\"@]", c ≠ d := by
    rintro d hd rfl
    exact hc hd
  have hnot : c ∉ word "\r/@]" := fun h => by
    have hsub : ∀ d ∈ word "\r/@]", d ∈ word "\r/\"@]" := by decide +kernel
    exact hc (hsub c h)
  rw [Part.behind, if_neg (hne _ (by decide)), if_neg hnot]

/-- Characters that the copy does not stop at, from a place on. -/
structure Run (m : Part) (xs : List (Part × UInt8)) (m' : Part) : Prop where
  chars : ∀ x ∈ xs, x.2 ∉ word "\r/\"@]"
  first : ∀ x ∈ xs.head?, x.1 = m
  others : ∀ x ∈ xs.tail, x.1 = .plain
  behind : m' = if xs = [] then m else .plain

theorem Run.outside {xs : List (Part × UInt8)} {m' : Part} (h : Run m xs m') (hm : m.Outside) :
    m'.Outside ∧ ∀ x ∈ xs, x.1.Outside := by
  obtain ⟨-, hfirst, hothers, rfl⟩ := h
  cases xs with
  | nil => exact ⟨hm, nofun⟩
  | cons x xs =>
    refine ⟨.inr rfl, ?_⟩
    rintro y (_ | ⟨_, hy⟩)
    · exact hfirst x rfl ▸ hm
    · exact .inr (hothers y hy)

theorem reading_run (hm : m.Outside) (p : Text) : ∃ xs m',
    reading m p = xs ++ reading m' (strcspn "\r/\"@]" p) ∧ Run m xs m' := by
  induction p generalizing m with
  | nil => exact ⟨[], m, rfl, nofun, nofun, nofun, rfl⟩
  | cons c p ih =>
    by_cases hc : c ∈ word "\r/\"@]"
    · exact ⟨[], m, by rw [strcspn_stop hc, List.nil_append], nofun, nofun, nofun, rfl⟩
    · have hslash : c ≠ chr '/' := by
        rintro rfl
        exact hc (by decide)
      obtain ⟨xs, m', hxs, hrun⟩ := ih (m := .plain) (.inr rfl)
      have hm' : m' = .plain := by
        rw [hrun.behind]
        split <;> rfl
      refine ⟨(m, c) :: xs, m', ?_, ?_, ?_, ?_, ?_⟩
      · rw [strcspn_pass hc, List.cons_append, ← hxs, reading_plain hm hslash, behind_plain hc]
      · rintro x (_ | ⟨_, hx⟩)
        · exact hc
        · exact hrun.chars x hx
      · rintro x ⟨⟩
        rfl
      · cases xs with
        | nil => exact nofun
        | cons y xs =>
          rintro x (_ | ⟨_, hx⟩)
          · exact hrun.first y rfl
          · exact hrun.others x hx
      · exact hm'

/-- What is before a character, if a part of the text ends before it or has it. -/
theorem split_at {α : Type} {xs ys zs w : List α} {a : α} (h : xs ++ ys = zs ++ a :: w) :
    (∃ vs, zs = xs ++ vs ∧ ys = vs ++ a :: w) ∨ ∃ vs, xs = zs ++ a :: vs := by
  obtain ⟨vs, hzs, hys⟩ | ⟨vs, hxs, hw⟩ := List.append_eq_append_iff.mp h
  · exact .inl ⟨vs, hzs, hys⟩
  · cases vs with
    | nil => exact .inl ⟨[], by rw [hxs, List.append_nil, List.append_nil], hw.symm⟩
    | cons b vs =>
      cases hw
      exact .inr ⟨vs, hxs⟩

theorem Run.copied {xs : List (Part × UInt8)} {m' : Part} (h : Run m xs m') (hm : m.Outside) :
    copied xs = xs.map Prod.snd := by
  unfold Script.copied
  rw [List.filter_eq_self.mpr]
  intro x hx
  have hreturn : x.2 ≠ chr '\r' := fun hx2 => h.chars x hx (by rw [hx2]; decide)
  have hcomment : x.1 ≠ .comment := by
    obtain h | h := (h.outside hm).2 x hx <;> rw [h] <;> decide
  simp [hreturn, hcomment]

theorem blockround_end {stop : Nat} {q : Text} (hc : c ∈ word "@]") (h : (c :: q).length ≤ stop) :
    blockround stop (c :: q) = ([], none) := by
  have hne : ∀ d ∈ word "\r\"/", c ≠ d := by
    rintro d hd rfl
    have hno : ∀ d ∈ word "\r\"/", d ∉ word "@]" := by decide +kernel
    exact hno c hd hc
  unfold blockround
  dsimp only
  rw [if_neg (hne _ (by decide)), if_neg (hne _ (by decide)), if_neg (hne _ (by decide)),
    if_neg (Nat.not_lt.mpr h)]

theorem blockround_next {stop : Nat} {q : Text} (h : stop < (c :: q).length) :
    ∃ next, (blockround stop (c :: q)).2 = some next := by
  unfold blockround
  dsimp only
  rw [if_pos h]
  split_ifs <;> exact ⟨_, rfl⟩

theorem strcspn_head {reject : String} {q : Text} (h : strcspn reject p = c :: q) :
    c ∈ word reject := by
  have hnot := List.head?_dropWhile_not (fun c => decide (c ∉ word reject)) p
  rw [strcspn] at h
  rw [h] at hnot
  simpa using hnot

/-- **Up to a character that ends it** a text is copied, whatever is behind. -/
theorem blockstr_closed {stop : Nat} {n : Nat} {str t : Text} {zs w : List (Part × UInt8)}
    {d : Part × UInt8} (hread : reading .fresh str = zs ++ d :: w) (hd : d.1.Outside)
    (hend : d.2 ∈ word "@]") (hw : w.length + 1 = stop) (hn : str.length < n) :
    loop (blockstrstep stop) n (str, t) = some (t ++ copied zs) := by
  induction n generalizing str t zs with
  | zero => exact absurd hn (Nat.not_lt_zero _)
  | succ n ih =>
    have hlen := congrArg List.length hread
    rw [length_reading, List.length_append, List.length_cons] at hlen
    rw [loop]
    cases zs with
    | nil =>
      rw [blockstrstep_end (by rw [List.length_nil] at hlen; omega)]
      exact congrArg some (List.append_nil t).symm
    | cons z zs =>
      rw [List.length_cons] at hlen
      rw [blockstrstep_eq (by omega)]
      obtain ⟨xs, m, hxs, hrun⟩ := reading_run (.inl rfl) str
      have hm := (hrun.outside (.inl rfl)).1
      have hcopied : t ++ upto str (strcspn "\r/\"@]" str) = t ++ copied xs := by
        rw [upto_reading hxs, hrun.copied (.inl rfl)]
      rw [hcopied]
      have hle := (strcspn_suffix "\r/\"@]" str).length_le
      have hhead : ∀ c q, strcspn "\r/\"@]" str = c :: q → c ∈ word "\r/\"@]" := fun c q =>
        strcspn_head
      obtain ⟨vs, hzs, hq⟩ | ⟨vs, hbad⟩ := split_at (hxs.symm.trans hread)
      · rw [hzs, copied_append]
        generalize strcspn "\r/\"@]" str = q at hq hle hhead ⊢
        have hqlen := congrArg List.length hq
        rw [length_reading, List.length_append, List.length_cons] at hqlen
        have hqsnd := congrArg (List.map Prod.snd) hq
        rw [snd_reading] at hqsnd
        cases vs with
        | nil =>
          rw [hqsnd, List.nil_append, List.map_cons, blockround_end hend
            (by rw [List.length_cons, List.length_map]; omega)]
          simp [copied]
        | cons v vs =>
          obtain ⟨c, q, rfl⟩ : ∃ c q', q = c :: q' := ⟨_, _, hqsnd⟩
          have hqlen' : (c :: q).length = vs.length + 1 + (w.length + 1) := hqlen
          obtain ⟨next, hnext⟩ := blockround_next (by omega : stop < (c :: q).length)
          obtain ⟨x, ys, hys, -, hinner, hchunk⟩ := reading_round hm (hhead c q rfl) hnext
          rw [hnext, ← hchunk]
          have hnextlen := congrArg List.length hys
          rw [length_reading, List.length_append, length_reading] at hnextlen
          have hless : next.length < (c :: q).length := by
            rw [hnextlen, List.length_cons]
            omega
          obtain ⟨us, hvs, hrest⟩ | ⟨us, hbad⟩ := split_at (hys.symm.trans hq)
          · rw [hvs, copied_append (x :: ys), ← List.append_assoc, ← List.append_assoc]
            exact ih hrest (by omega)
          · have hdmem : d ∈ ys := by
              rw [List.cons_append] at hbad
              rw [(List.cons.inj hbad).2]
              exact List.mem_append_right _ (.head _)
            obtain h | h | ⟨h, -⟩ := hinner d hdmem
            · obtain hd | hd := hd <;> cases h.symm.trans hd
            · obtain hd | hd := hd <;> cases h.symm.trans hd
            · obtain hd | hd := hd <;> cases h.symm.trans hd
      · have hdmem : d ∈ xs := by
          rw [hbad]
          exact List.mem_append_right _ (.head _)
        have hsub : ∀ c ∈ word "@]", c ∈ word "\r/\"@]" := by decide +kernel
        exact absurd (hsub _ hend) (hrun.chars d hdmem)

theorem blockround_done {stop : Nat} {q : Text} (hc : c ∈ word "\r/\"@]")
    (h : (blockround stop (c :: q)).2 = none) :
    c ∈ word "@]" ∧ (c :: q).length ≤ stop ∧ (blockround stop (c :: q)).1 = [] := by
  unfold blockround at h ⊢
  dsimp only at h ⊢
  split_ifs at h ⊢ with hreturn hquote hslash hcomment hroom
  have hcases : c = chr '\r' ∨ c = chr '/' ∨ c = chr '"' ∨ c = chr '@' ∨ c = chr ']' := by
    simpa [word, chr] using hc
  refine ⟨?_, Nat.le_of_not_lt hroom, rfl⟩
  obtain h | h | h | h | h := hcases
  · exact absurd h hreturn
  · exact absurd h hslash
  · exact absurd h hquote
  · rw [h]
    decide
  · rw [h]
    decide

/-- The last character of a piece is copied, unless it is skipped. -/
theorem skipped_iff {x : Part × UInt8} (h : Inner x ∨ x.1 = .plain ∧ x.2 ∉ word "@]") :
    Skipped x ↔ copied [x] = [] := by
  obtain ⟨part, c⟩ := x
  unfold Skipped
  obtain (h | h | ⟨h, hc⟩) | ⟨h, hc⟩ := h
  · obtain rfl : part = .comment := h
    simp [copied]
  · obtain rfl : part = .escaped := h
    simp [copied]
  · obtain rfl : part = .quoted := h
    simp [copied, show c ≠ chr '\r' from hc]
  · obtain rfl : part = .plain := h
    have hsplit : c ∈ word "\r@]" ↔ c = chr '\r' := by
      refine ⟨fun hmem => ?_, fun h => by rw [h]; decide⟩
      obtain ⟨⟩ | ⟨_, hmem⟩ := hmem
      · rfl
      · exact absurd hmem hc
    simp [copied, hsplit]

/-- **To the end of the text** all but the last character is copied, and the last unless it is
skipped. -/
theorem blockstr_open {n : Nat} {str t : Text} {zs : List (Part × UInt8)} {x : Part × UInt8}
    (hread : reading .fresh str = zs ++ [x]) (hzs : zs ≠ []) (hn : str.length < n) :
    ∃ extra, loop (blockstrstep 1) n (str, t) = some (t ++ copied zs ++ extra) ∧
      (Skipped x ↔ extra = []) := by
  induction n generalizing str t zs with
  | zero => exact absurd hn (Nat.not_lt_zero _)
  | succ n ih =>
    have hlen := congrArg List.length hread
    have hpos := List.length_pos_of_ne_nil hzs
    rw [length_reading, List.length_append, List.length_singleton] at hlen
    rw [loop, blockstrstep_eq (by omega)]
    obtain ⟨xs, m, hxs, hrun⟩ := reading_run (.inl rfl) str
    have hm := (hrun.outside (.inl rfl)).1
    have hcopied : t ++ upto str (strcspn "\r/\"@]" str) = t ++ copied xs := by
      rw [upto_reading hxs, hrun.copied (.inl rfl)]
    rw [hcopied]
    have hhead : ∀ c q, strcspn "\r/\"@]" str = c :: q → c ∈ word "\r/\"@]" := fun c q =>
      strcspn_head
    generalize strcspn "\r/\"@]" str = q at hxs hhead ⊢
    cases q with
    | nil =>
      -- the characters that are copied at once go to the end
      rw [reading_nil, List.append_nil] at hxs
      have hzx := hxs.symm.trans hread
      have hmem : x ∈ xs.tail := by
        rw [hzx, List.tail_append_of_ne_nil hzs]
        exact List.mem_append_right _ (.head _)
      have hnot : x.2 ∉ word "@]" := fun h => by
        have hsub : ∀ c ∈ word "@]", c ∈ word "\r/\"@]" := by decide +kernel
        exact hrun.chars x (List.mem_of_mem_tail hmem) (hsub _ h)
      refine ⟨copied [x], ?_, skipped_iff (.inr ⟨hrun.others x hmem, hnot⟩)⟩
      rw [hzx, copied_append]
      simp [blockround]
    | cons c q =>
      have hc := hhead c q rfl
      cases hnext : (blockround 1 (c :: q)).2 with
      | none =>
        obtain ⟨hend, hlast, hnone⟩ := blockround_done hc hnext
        obtain rfl : q = [] := by
          rw [List.length_cons] at hlast
          exact List.length_eq_zero_iff.mp (by omega)
        have hslash : c ≠ chr '/' := by
          rintro rfl
          exact absurd hend (by decide)
        rw [reading_plain hm hslash, reading_nil] at hxs
        obtain ⟨rfl, hx⟩ := List.append_inj' (hxs.symm.trans hread) rfl
        cases hx
        refine ⟨[], by rw [hnone], ⟨fun _ => rfl, fun _ => .inr (.inr ⟨?_, .tail _ hend⟩)⟩⟩
        exact hrun.behind.trans (if_neg hzs)
      | some next =>
        obtain ⟨y, ys, hys, hy, hinner, hchunk⟩ := reading_round hm hc hnext
        have hall := hread.symm.trans hxs
        rw [hys, ← List.append_assoc] at hall
        have hless := congrArg List.length (hxs.trans (congrArg (xs ++ ·) hys))
        rw [length_reading, List.length_append, List.length_append, length_reading,
          List.length_cons] at hless
        rw [← hchunk, List.append_assoc t, ← copied_append]
        dsimp only
        have hdone : next.length ≤ 1 → ∀ u, loop (blockstrstep 1) n (next, u) = some u := by
          intro hle u
          obtain ⟨n, rfl⟩ : ∃ k, n = k + 1 := ⟨n - 1, by omega⟩
          rw [loop, blockstrstep_end hle]
        obtain _ | ⟨d, _ | ⟨e, next⟩⟩ := next
        · rw [reading_nil, List.append_nil] at hall
          refine ⟨copied [x], ?_, skipped_iff ?_⟩
          · rw [hdone (Nat.zero_le 1), ← hall, copied_append, List.append_assoc]
          · obtain rfl | ⟨ys, z, rfl⟩ := ys.eq_nil_or_concat'
            · obtain ⟨rfl, hx⟩ := List.append_inj' hall rfl
              cases hx
              obtain ⟨hym, hyc⟩ | hcomment := hy
              · refine .inr ⟨hym.trans (hrun.behind.trans (if_neg hzs)), fun hend => ?_⟩
                rw [hyc] at hend
                rw [blockround_end hend] at hnext
                · cases hnext
                · have hone := congrArg List.length hys
                  rw [length_reading, reading_nil] at hone
                  exact hone.le
              · exact .inl (.inl hcomment)
            · rw [← List.cons_append, ← List.append_assoc] at hall
              obtain ⟨-, hx⟩ := List.append_inj' hall rfl
              cases hx
              exact .inl (hinner _ (List.mem_append_right _ (.head _)))
        · rw [reading_single] at hall
          obtain ⟨rfl, hx⟩ := List.append_inj' hall rfl
          cases hx
          refine ⟨[], ?_, fun _ => rfl, fun _ => .inr (.inl rfl)⟩
          rw [hdone le_rfl, List.append_nil]
        · obtain hnil | ⟨vs, z, hvs⟩ := (reading .fresh (d :: e :: next)).eq_nil_or_concat'
          · have hzero := congrArg List.length hnil
            rw [length_reading] at hzero
            cases hzero
          · rw [hvs, ← List.append_assoc] at hall
            obtain ⟨rfl, hx⟩ := List.append_inj' hall rfl
            cases hx
            have hne : vs ≠ [] := by
              rintro rfl
              have hone := congrArg List.length hvs
              rw [length_reading] at hone
              cases hone
            obtain ⟨extra, hloop, hskip⟩ := ih (t := t ++ copied (xs ++ y :: ys)) hvs hne (by omega)
            refine ⟨extra, ?_, hskip⟩
            rw [hloop, copied_append (xs ++ y :: ys), List.append_assoc t]

end Reading

/-! ## What is copied -/

/-- The copy stays in the words that are reserved, and these have the length and the characters of
the segment, without carriage returns and comments. -/
def Copiesright (str : Text) (stop : Nat) : Prop :=
  ∀ (c : Compiler) (mac : Bool) (mem : Text), mem.length = reserved str stop →
    ∃ c' w text, copyblockstr c str stop mac mem = some c' ∧ c'.code = c.code ++ w :: text ∧
      w / 256 = (stripped str (str.length - stop)).length ∧
      text.length = (stripped str (str.length - stop)).length / 4 + 1 ∧
      text.flatMap wordbytes = stripped str (str.length - stop) ++
        List.replicate (4 - (stripped str (str.length - stop)).length % 4) 0

/-- Segments that are copied so: where the bracket is missing the last character is skipped, no
carriage return is escaped in a string, and the length is one the instruction can have. -/
structure Copyable (str : Text) (stop : Nat) (closed : Bool) : Prop where
  last : closed = false → ∀ x ∈ (reading .fresh str).getLast?, Skipped x
  returns : ∀ x ∈ (reading .fresh str).take (str.length - stop), x.1 = .escaped → x.2 ≠ chr '\r'
  length : (stripped str (str.length - stop)).length < 2 ^ 24

section Segments

variable {str : Text} {stop : Nat}

theorem length_strip_le (xs : List (Part × UInt8)) : (strip xs).length ≤ (copied xs).length := by
  unfold strip copied
  rw [List.length_map, List.length_map, ← List.countP_eq_length_filter,
    ← List.countP_eq_length_filter]
  refine List.countP_mono_left fun x _ hx => ?_
  simp only [decide_eq_true_eq] at hx ⊢
  exact ⟨hx.1, fun h => absurd h hx.2⟩

theorem strip_eq {xs : List (Part × UInt8)} (h : ∀ x ∈ xs, x.1 = .escaped → x.2 ≠ chr '\r') :
    strip xs = copied xs := by
  unfold strip copied
  congr 1
  refine List.filter_congr fun x hx => ?_
  simp only [decide_eq_decide]
  refine and_congr_right fun _ => ⟨fun hne heq => absurd heq hne, fun hesc heq => ?_⟩
  exact h x hx (hesc heq) heq

/-- A carriage return that is escaped is copied, and should not be. -/
theorem not_escaped {xs : List (Part × UInt8)} (h : (copied xs).length ≤ (strip xs).length) :
    ∀ x ∈ xs, x.1 = .escaped → x.2 ≠ chr '\r' := by
  intro x hx hescaped hreturn
  obtain ⟨as, bs, rfl, -⟩ := List.eq_append_cons_of_mem hx
  have has := length_strip_le as
  have hbs := length_strip_le bs
  have hstrip : strip (as ++ x :: bs) = strip as ++ strip bs := by
    simp [strip, hreturn]
  have hcopied : copied (as ++ x :: bs) = copied as ++ x.2 :: copied bs := by
    simp [copied, hescaped]
  rw [hstrip, hcopied, List.length_append, List.length_append, List.length_cons] at h
  omega

theorem code_compileblockstr {c c' : Compiler} {u : Text} {mac : Bool}
    (hu : blockstr str stop = some u) (h : compileblockstr c str stop mac = some c') :
    ∃ op ret, c'.code = c.code ++ inst op ret u.length :: pack u := by
  rw [compileblockstr, hu] at h
  cases mac with
  | true =>
    cases h
    exact ⟨_, _, code_addtext ..⟩
  | false =>
    cases h
    exact ⟨_, _, code_addtext ..⟩

/-- **What is copied is right** if it is no more than it should be. -/
theorem copiesright_iff {extra : Text}
    (hu : blockstr str stop =
      some (copied ((reading .fresh str).take (str.length - stop)) ++ extra)) :
    Copiesright str stop ↔ extra = [] ∧
      (∀ x ∈ (reading .fresh str).take (str.length - stop), x.1 = .escaped → x.2 ≠ chr '\r') ∧
      (stripped str (str.length - stop)).length < 2 ^ 24 := by
  constructor
  · intro h
    obtain ⟨c', w, text, hcopy, hcode, hlen, hwords, hbytes⟩ :=
      h { idents := [] } true (List.replicate (reserved str stop) 0) (List.length_replicate ..)
    rw [copyblockstr_eq _ _ (List.length_replicate ..) hu] at hcopy
    split at hcopy
    · obtain ⟨op, ret, hcode'⟩ := code_compileblockstr hu hcopy
      rw [hcode'] at hcode
      obtain ⟨rfl, rfl⟩ := List.cons.inj (List.append_cancel_left hcode)
      rw [inst_div] at hlen
      rw [length_pack, List.length_append] at hwords
      rw [List.length_append] at hlen
      -- the number of words and the length together leave no choice
      have hle := length_strip_le ((reading .fresh str).take (str.length - stop))
      unfold stripped at hlen hwords ⊢
      have hextra : extra.length = 0 := by omega
      refine ⟨List.length_eq_zero_iff.mp hextra, not_escaped ?_, ?_⟩
      · omega
      · omega
    · cases hcopy
  · rintro ⟨rfl, hreturns, hlen⟩ c mac mem hmem
    rw [List.append_nil, ← strip_eq hreturns] at hu
    have htext : blockstr str stop = some (stripped str (str.length - stop)) := hu
    have hle : (stripped str (str.length - stop)).length ≤ str.length - stop := by
      unfold stripped strip
      rw [List.length_map]
      refine (List.length_filter_le _ _).trans ?_
      rw [List.length_take]
      exact Nat.min_le_left _ _
    have hcopy := copyblockstr_eq c mac hmem htext
    rw [if_pos (Nat.div_le_div_right hle)] at hcopy
    obtain ⟨c', hc'⟩ : ∃ c', compileblockstr c str stop mac = some c' := by
      rw [compileblockstr, htext]
      exact ⟨_, rfl⟩
    obtain ⟨op, ret, hcode⟩ := code_compileblockstr htext hc'
    exact ⟨c', _, _, hcopy.trans hc', hcode, inst_div_of_lt op ret hlen, length_pack _,
      wordbytes_pack _⟩

end Segments

/-! ## The segments -/

/-- Where `compileblock` is, by what is read from where the segment begins. -/
structure Blockreads (s : Blockscan) : Prop where
  reads : ∃ xs m, m.Outside ∧ reading .fresh s.start = xs ++ reading m s.p
  closed : s.brak = 0 → ∃ xs m w, m.Outside ∧
    reading .fresh s.start = xs ++ (m, chr ']') :: w ∧ w.length = s.p.length

/-- Characters that have no meaning of their own in a block. -/
theorem reading_pass {m : Part} (hm : m.Outside) (reject : String) (hslash : chr '/' ∈ word reject)
    (hquote : chr '"' ∈ word reject) (p : Text) :
    ∃ xs m', m'.Outside ∧ reading m p = xs ++ reading m' (strcspn reject p) := by
  induction p generalizing m with
  | nil => exact ⟨[], m, hm, rfl⟩
  | cons c p ih =>
    by_cases hc : c ∈ word reject
    · exact ⟨[], m, hm, by rw [strcspn_stop hc, List.nil_append]⟩
    · have hne : ∀ d ∈ word reject, c ≠ d := by
        rintro d hd rfl
        exact hc hd
      obtain ⟨xs, m', hm', hxs⟩ := ih (behind_outside (hne _ hquote))
      refine ⟨(m, c) :: xs, m', hm', ?_⟩
      rw [strcspn_pass hc, List.cons_append, ← hxs, reading_plain hm (hne _ hslash)]

/-- A place further on in the same segment. -/
theorem Blockreads.of_reads {s t : Blockscan} (h : Blockreads s) (hstart : t.start = s.start)
    (hbrak : t.brak ≠ 0) (hreads : ∀ m : Part, m.Outside → ∃ ys m', m'.Outside ∧
      reading m s.p = ys ++ reading m' t.p) : Blockreads t := by
  obtain ⟨xs, m, hm, hxs⟩ := h.reads
  obtain ⟨ys, m', hm', hys⟩ := hreads m hm
  refine ⟨⟨xs ++ ys, m', hm', ?_⟩, fun h => absurd h hbrak⟩
  rw [hstart, hxs, hys, List.append_assoc]

theorem compilesub_cases {r : Rec} {s t : Blockscan} (h : compilesub r s = some t) :
    t = { s with p := strspn "@" s.p } ∨ t.start = t.p ∧ t.brak = s.brak := by
  unfold compilesub at h
  dsimp only at h
  split at h
  · cases h
    exact .inl rfl
  · right
    simp only [Option.bind_eq_bind, Option.bind_eq_some_iff] at h
    obtain ⟨c₁, -, ⟨c₂, p, sub⟩, -, h⟩ := h
    cases h
    exact ⟨rfl, rfl⟩

/-- The signs before a substitution that is not for this block. -/
theorem reading_signs {m : Part} (hm : m.Outside) (p : Text) :
    ∃ xs m', m'.Outside ∧ reading m p = xs ++ reading m' (strspn "@" p) := by
  induction p generalizing m with
  | nil => exact ⟨[], m, hm, rfl⟩
  | cons c p ih =>
    by_cases hc : c = chr '@'
    · subst hc
      obtain ⟨xs, m', hm', hxs⟩ := ih (m := .fresh) (.inl rfl)
      have hpass : strspn "@" (chr '@' :: p) = strspn "@" p :=
        List.dropWhile_cons_of_pos (by decide)
      refine ⟨(m, chr '@') :: xs, m', hm', ?_⟩
      rw [hpass, List.cons_append, ← hxs, reading_plain hm (by decide)]
      rfl
    · have hstop : strspn "@" (c :: p) = c :: p :=
        List.dropWhile_cons_of_neg (by simpa [word, chr] using hc)
      exact ⟨[], m, hm, by rw [hstop, List.nil_append]⟩

theorem Blockreads.next {r : Rec} {s t : Blockscan} (h : Blockreads s)
    (hstep : blockstep r s = some (.inl t)) : Blockreads t := by
  unfold blockstep at hstep
  split at hstep
  · cases hstep
  · rename_i hbrak
    cases hstop : strcspn "@\"/[]" s.p with
    | nil =>
      rw [hstop] at hstep
      cases hstep
    | cons c q =>
      rw [hstop] at hstep
      have hpass : ∀ m : Part, m.Outside → ∃ ys m', m'.Outside ∧
          reading m s.p = ys ++ reading m' (c :: q) := fun m hm => by
        rw [← hstop]
        exact reading_pass hm _ (by decide) (by decide) s.p
      dsimp only at hstep
      split_ifs at hstep with hquote hslash hcomment hopen hclose
      · cases hstep
        refine h.of_reads rfl hbrak fun m hm => ?_
        obtain ⟨ys, m', hm', hys⟩ := hpass m hm
        obtain ⟨xs, hxs, -⟩ := reading_string q
        refine ⟨ys ++ (m', c) :: xs, .fresh, .inl rfl, ?_⟩
        rw [hys, reading_plain hm' (by rw [hquote]; decide), hquote, List.append_assoc,
          List.cons_append, ← hxs]
        rfl
      · cases hstep
        refine h.of_reads rfl hbrak fun m hm => ?_
        obtain ⟨ys, m', hm', hys⟩ := hpass m hm
        obtain ⟨xs, hxs, -⟩ := reading_comment q
        refine ⟨ys ++ (.comment, c) :: xs, .fresh, .inl rfl, ?_⟩
        rw [hys, reading_outside hm', if_pos ((iscomment_cons c q).mpr ⟨hslash, hcomment⟩),
          List.append_assoc, List.cons_append, ← hxs]
      · cases hstep
        refine h.of_reads rfl hbrak fun m hm => ?_
        obtain ⟨ys, m', hm', hys⟩ := hpass m hm
        refine ⟨ys ++ [(m', c)], .behind c, behind_outside hquote, ?_⟩
        rw [hys, reading_outside hm', if_neg fun h => hcomment ((iscomment_cons c q).mp h).2,
          List.append_assoc, List.singleton_append]
      · cases hstep
        refine h.of_reads rfl (Nat.succ_ne_zero _) fun m hm => ?_
        obtain ⟨ys, m', hm', hys⟩ := hpass m hm
        refine ⟨ys ++ [(m', c)], .behind c, behind_outside hquote, ?_⟩
        rw [hys, reading_plain hm' hslash, List.append_assoc, List.singleton_append]
      · cases hstep
        obtain ⟨xs, m, hm, hxs⟩ := h.reads
        obtain ⟨ys, m', hm', hys⟩ := hpass m hm
        have hread : reading .fresh s.start = (xs ++ ys) ++ (m', chr ']') :: reading .fresh q := by
          rw [hxs, hys, reading_plain hm' hslash, hclose, List.append_assoc]
          rfl
        refine ⟨⟨xs ++ ys ++ [(m', chr ']')], .fresh, .inl rfl, ?_⟩, fun _ =>
          ⟨xs ++ ys, m', _, hm', hread, length_reading _ _⟩⟩
        rw [List.append_assoc _ [_], List.singleton_append]
        exact hread
      · obtain ⟨t', ht', h'⟩ := Option.map_eq_some_iff.mp hstep
        cases h'
        have hat : c = chr '@' := by
          have hc := strcspn_head hstop
          have hcases : c = chr '@' ∨ c = chr '"' ∨ c = chr '/' ∨ c = chr '[' ∨ c = chr ']' := by
            simpa [word, chr] using hc
          tauto
        obtain rfl | ⟨hstart, hbrak'⟩ := compilesub_cases ht'
        · refine h.of_reads rfl hbrak fun m hm => ?_
          obtain ⟨ys, m', hm', hys⟩ := hpass m hm
          obtain ⟨xs, m'', hm'', hxs⟩ := reading_signs (behind_outside hquote) q
          refine ⟨ys ++ (m', c) :: xs, m'', hm'', ?_⟩
          rw [hys, reading_plain hm' hslash, List.append_assoc, List.cons_append, ← hxs]
        · refine ⟨⟨[], .fresh, .inl rfl, by rw [hstart]; rfl⟩, fun h0 => ?_⟩
          exact absurd (hbrak'.symm.trans h0) hbrak

theorem exact_closed {str : Text} {stop : Nat} {zs w : List (Part × UInt8)} {d : Part × UInt8}
    (hread : reading .fresh str = zs ++ d :: w) (hd : d.1.Outside) (hend : d.2 ∈ word "@]")
    (hw : w.length + 1 = stop) : Copiesright str stop ↔ Copyable str stop true := by
  have hlen := congrArg List.length hread
  rw [length_reading, List.length_append, List.length_cons] at hlen
  have htake : (reading .fresh str).take (str.length - stop) = zs := by
    rw [hread, List.take_left' (by omega)]
  have hu : blockstr str stop =
      some (copied ((reading .fresh str).take (str.length - stop)) ++ []) := by
    rw [htake, List.append_nil]
    exact blockstr_closed hread hd hend hw (Nat.lt_succ_self _)
  rw [copiesright_iff hu]
  have hnot : true ≠ false := by decide
  exact ⟨fun h => ⟨fun ht => absurd ht hnot, h.2.1, h.2.2⟩, fun h => ⟨rfl, h.returns, h.length⟩⟩

theorem exact_open {str : Text} (h : 1 < str.length) :
    Copiesright str 1 ↔ Copyable str 1 false := by
  obtain hnil | ⟨zs, x, hread⟩ := (reading .fresh str).eq_nil_or_concat'
  · have hzero := congrArg List.length hnil
    rw [length_reading] at hzero
    rw [hzero] at h
    cases h
  · have hlen := congrArg List.length hread
    rw [length_reading, List.length_append, List.length_singleton] at hlen
    have hzs : zs ≠ [] := by
      rintro rfl
      rw [hlen] at h
      exact absurd h (by decide)
    have htake : (reading .fresh str).take (str.length - 1) = zs := by
      rw [hread, List.take_left' (by omega)]
    have hlast : (reading .fresh str).getLast? = some x := by rw [hread, List.getLast?_concat]
    obtain ⟨extra, hloop, hskip⟩ := blockstr_open (t := []) hread hzs (Nat.lt_succ_self _)
    have hu : blockstr str 1 =
        some (copied ((reading .fresh str).take (str.length - 1)) ++ extra) := by
      rw [htake]
      exact hloop
    rw [copiesright_iff hu, ← hskip]
    refine ⟨fun h => ⟨fun _ y hy => ?_, h.2.1, h.2.2⟩, fun h =>
      ⟨h.last rfl x hlast, h.returns, h.length⟩⟩
    rw [hlast] at hy
    cases hy
    exact h.1

/-- **Every segment** is copied as it should be just if it is copyable. -/
theorem blockstr_exact {r : Rec} {c : Compiler} {p : Text} {wordtype : Valtype} {str : Text}
    {stop : Nat} {closed : Bool} (h : Handed r c p wordtype str stop closed) :
    Copiesright str stop ↔ Copyable str stop closed := by
  have hfollows : ∀ {s}, Relation.ReflTransGen (fun s t => blockstep r s = some (.inl t))
      { c, p, start := p } s → Blockreads s := by
    intro s hs
    induction hs with
    | refl => exact ⟨⟨[], .fresh, .inl rfl, rfl⟩, fun h => by cases h⟩
    | tail _ hstep ih => exact ih.next hstep
  cases h with
  | @sub s q hs hbrak hat hlevel =>
    obtain ⟨xs, m, hm, hxs⟩ := (hfollows hs).reads
    obtain ⟨ys, m', hm', hys⟩ := reading_pass hm "@\"/[]" (by decide) (by decide) s.p
    rw [hat, reading_plain hm' (by decide)] at hys
    rw [hys, ← List.append_assoc] at hxs
    have hend : chr '@' ∈ word "@]" := by decide +kernel
    exact exact_closed hxs hm' hend (by rw [length_reading])
  | @last s t stop hs hend hsome htype =>
    unfold blockstep at hend
    split at hend
    · rename_i hbrak
      cases hend
      obtain ⟨xs, m, w, hm, hread, hw⟩ := (hfollows hs).closed hbrak
      rw [decide_eq_true hbrak]
      have hend : chr ']' ∈ word "@]" := by decide +kernel
      exact exact_closed hread hm hend (by rw [hw])
    · rename_i hbrak
      rw [decide_eq_false hbrak]
      cases hstop : strcspn "@\"/[]" s.p with
      | nil =>
        rw [hstop] at hend
        cases hend
        exact exact_open hsome
      | cons c q =>
        rw [hstop] at hend
        dsimp only at hend
        split_ifs at hend <;> simp at hend

theorem blockstr_exact_closed :
    Handed (functions nofloats 4) { idents := [] } (word "a\r]") .VAL_STR (word "a\r]") 1 true ∧
      Copiesright (word "a\r]") 1 := by
  have hhanded : Handed (functions nofloats 4) { idents := [] } (word "a\r]") .VAL_STR
      (word "a\r]") 1 true :=
    .last (s := { c := { idents := [] }, p := [], start := word "a\r]", brak := 0 })
      (.tail .refl rfl) rfl (by decide) fun _ => by decide
  have hnot : true ≠ false := by decide
  exact ⟨hhanded, (blockstr_exact hhanded).mpr ⟨fun ht => absurd ht hnot, by decide, by decide⟩⟩

/-- Where the bracket is missing the last character is copied, behind the segment; here the zeros do
not fit the word that is reserved. -/
theorem last_copied :
    Handed (functions nofloats 5) { idents := [] } (word "abcd") .VAL_STR (word "abcd") 1 false ∧
      reserved (word "abcd") 1 = 4 ∧
      copyblockstr { idents := [] } (word "abcd") 1 false (List.replicate 4 0) = none ∧
      ¬Copiesright (word "abcd") 1 := by
  have hhanded : Handed (functions nofloats 5) { idents := [] } (word "abcd") .VAL_STR
      (word "abcd") 1 false :=
    .last (s := { c := { idents := [] }, p := word "abcd", start := word "abcd" }) .refl rfl
      (by decide) fun _ => by decide
  have hnone : copyblockstr { idents := [] } (word "abcd") 1 false (List.replicate 4 0) = none := by
    rfl
  refine ⟨hhanded, rfl, hnone, fun h => ?_⟩
  obtain ⟨c', w, text, hcopy, -⟩ := h { idents := [] } false (List.replicate 4 0) rfl
  rw [hnone] at hcopy
  cases hcopy

end Script

end QServ
