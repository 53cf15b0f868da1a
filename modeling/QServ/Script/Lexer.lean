import QServ.Lib.Loop
import QServ.Script.Aliases

/-!
# The words of CubeScript

The scanners of `engine/command.cpp`.  A position in a text is what is left of it up to the
terminating zero; where a scanner stops it returns what is left.

* `skipcomments`, `parsestring`, `parseword`: where blanks, a string, a word end.
* `cutstring`, `cutword`, `unescapestring`: with the text that was passed.
* The `_suffix` lemmas: no scanner leaves the text.
-/

namespace QServ

namespace Script

/-- A character constant. -/
def chr (c : Char) : UInt8 := UInt8.ofNat c.toNat

/-- `p += strcspn(p, reject)`; the terminating zero stops it, too. -/
def strcspn (reject : String) (p : Text) : Text := p.dropWhile fun c => c ∉ word reject

/-- `p += strspn(p, accept)`. -/
def strspn (accept : String) (p : Text) : Text := p.dropWhile fun c => c ∈ word accept

/-- The text from `p` up to `q`. -/
def upto (p q : Text) : Text := p.take (p.length - q.length)

/-- `p[0]=='/' && p[1]=='/'`. -/
def iscomment (p : Text) : Bool := p.take 2 = word "//"

/-- `parsestring(p)`. -/
def parsestring : Text → Text
  | [] => []
  | c :: p =>
    if c ∈ word "\r\n\"" then c :: p
    else if c = chr '^' then
      match p with
      | [] => []
      | _ :: p => parsestring p
    else parsestring p

/-- `unescapestring(dst, src, end)`. -/
def unescapestring : Text → Text
  | [] => []
  | c :: src =>
    if c = chr '^' then
      match src with
      | [] => []
      | e :: src =>
        (if e = chr 'n' then chr '\n' else if e = chr 't' then chr '\t'
          else if e = chr 'f' then chr '\x0c' else e) :: unescapestring src
    else c :: unescapestring src

/-- `skipcomments(p)`: a comment ends before a line feed, where there are no blanks to skip. -/
def skipcomments (p : Text) : Text :=
  let p := strspn " \t\r" p
  if iscomment p then strcspn "\n" p else p

/-- `if(*p=='\"') p++`. -/
def skipquote (p : Text) : Text := if p.head? = some (chr '"') then p.tail else p

/-- `cutstring(p, len)`, with `p` at the quotation mark. -/
def cutstring (p : Text) : Text × Text :=
  let p := p.tail
  let stop := parsestring p
  (unescapestring (upto p stop), skipquote stop)

/-- `parseword(p)`, with the brackets that are open. -/
def parsewordin (brakstack : Text) : Text → Text
  | [] => []
  | c :: p =>
    if c ∈ word "\";@ \t\r\n" then c :: p
    else if c = chr '/' then
      if p.head? = some (chr '/') then c :: p else parsewordin brakstack p
    else if c = chr '[' ∨ c = chr '(' then
      if 100 ≤ brakstack.length then c :: p else parsewordin (c :: brakstack) p
    else if c = chr ']' then
      if brakstack.head? = some (chr '[') then parsewordin brakstack.tail p else c :: p
    else if c = chr ')' then
      if brakstack.head? = some (chr '(') then parsewordin brakstack.tail p else c :: p
    else parsewordin brakstack p

/-- `parseword(p)`. -/
def parseword (p : Text) : Text := parsewordin [] p

/-- `cutword(p, len)`: the word, if there is one, and what is behind it. -/
def cutword (p : Text) : Option Text × Text :=
  let stop := parseword p
  (if p.length = stop.length then none else some (upto p stop), stop)

/-- `checknumber(s)`. -/
def checknumber : Text → Bool
  | [] => false
  | c :: s =>
    isnumeral c ||
      (c = chr '+' || c = chr '-') &&
        ((s.head?.any isnumeral) || s.head? = some (chr '.') && s.tail.head?.any isnumeral) ||
      c = chr '.' && s.head?.any isnumeral

/-! ## Scanners stay in the text -/

theorem strcspn_suffix (reject : String) (p : Text) : strcspn reject p <:+ p :=
  List.dropWhile_suffix _

theorem strspn_suffix (accept : String) (p : Text) : strspn accept p <:+ p :=
  List.dropWhile_suffix _

theorem parsestring_suffix (p : Text) : parsestring p <:+ p := by
  fun_induction parsestring p with
  | case1 => exact List.suffix_rfl
  | case2 => exact List.suffix_rfl
  | case3 => exact List.nil_suffix
  | case4 d p _ ih => exact ih.trans ((List.suffix_cons d p).trans (List.suffix_cons _ _))
  | case5 c p _ _ ih => exact ih.trans (List.suffix_cons c p)

theorem skipquote_suffix (p : Text) : skipquote p <:+ p := by
  unfold skipquote
  split
  · exact List.tail_suffix p
  · exact List.suffix_rfl

theorem skipcomments_suffix (p : Text) : skipcomments p <:+ p := by
  unfold skipcomments
  simp only
  split
  · exact (strcspn_suffix _ _).trans (strspn_suffix _ _)
  · exact strspn_suffix _ _

theorem parsewordin_suffix (brakstack p : Text) : parsewordin brakstack p <:+ p := by
  fun_induction parsewordin brakstack p <;>
    first
    | exact List.suffix_rfl
    | exact (by assumption : _ <:+ _).trans (List.suffix_cons ..)

theorem length_unescapestring (p : Text) : (unescapestring p).length ≤ p.length := by
  fun_induction unescapestring p with
  | case1 => exact le_rfl
  | case2 => simp
  | case3 e src ih =>
    simp only [List.length_cons]
    omega
  | case4 c src _ ih =>
    simp only [List.length_cons]
    omega

/-- **A string** is passed with its first quotation mark, and its text is shorter. -/
theorem cutstring_spec {p : Text} (hp : p ≠ []) :
    (cutstring p).2 <:+ p ∧ (cutstring p).2.length < p.length ∧
      (cutstring p).1.length < p.length := by
  obtain ⟨c, p, rfl⟩ := List.exists_cons_of_ne_nil hp
  have hstop : parsestring p <:+ p := parsestring_suffix p
  have hrest : (cutstring (c :: p)).2 <:+ p := (skipquote_suffix _).trans hstop
  have htext : (cutstring (c :: p)).1.length ≤ p.length := by
    refine (length_unescapestring _).trans ?_
    simp only [upto, List.tail_cons, List.length_take]
    omega
  have hlen := hrest.length_le
  refine ⟨hrest.trans (List.suffix_cons c p), ?_, ?_⟩ <;> simp only [List.length_cons] <;> omega

/-- **A word** is what was passed. -/
theorem cutword_spec (p : Text) : (cutword p).2 <:+ p ∧
    ((cutword p).1 = none ∧ (cutword p).2 = p ∨
      ∃ w, (cutword p).1 = some w ∧ (cutword p).2.length < p.length ∧
        w ≠ [] ∧ w.length ≤ p.length) := by
  have hstop : parseword p <:+ p := parsewordin_suffix [] p
  have hlen := hstop.length_le
  refine ⟨hstop, ?_⟩
  unfold cutword
  by_cases h : p.length = (parseword p).length
  · left
    exact ⟨if_pos h, hstop.eq_of_length h.symm⟩
  · right
    have hupto : (upto p (parseword p)).length = p.length - (parseword p).length := by
      rw [upto, List.length_take, Nat.min_eq_left (Nat.sub_le ..)]
    refine ⟨upto p (parseword p), if_neg h, ?_, ?_, ?_⟩
    · simp only
      omega
    · intro hnil
      rw [hnil, List.length_nil] at hupto
      omega
    · omega

end Script

end QServ
