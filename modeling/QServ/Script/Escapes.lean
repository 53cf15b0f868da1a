import Mathlib.Data.UInt
import QServ.Lib.Cstring
import QServ.Script.Compilation
import QServ.Script.Listtexts
import QServ.Script.Machine

/-!
# Texts that are written for the compiler

`escapestring` and `escapeid` of `engine/command.cpp` write a text so that it can stand in a command
line, and the compiler and the machine make a value of it again.

* `escapestring`, `escapeid`, `readvalue`: the writers, and how the machine reads a string.
* `ReadsAs`: an argument is compiled to a string that is read back as a text.
* `escapes_exact`: which texts are read back; `return_lost` is one that is not.
* `Escaped`: what `parsestring` passes and `unescapestring` makes of it, piece by piece.
-/

namespace QServ

namespace Script

/-! ## The code -/

/-- What `escapestring` writes for a character. -/
def escapechar (c : UInt8) : Text :=
  if c = chr '\n' then word "^n"
  else if c = chr '\t' then word "^t"
  else if c = chr '\x0c' then word "^f"
  else if c = chr '"' then word "^\""
  else if c = chr '^' then word "^^"
  else [c]

/-- `escapestring(s)`. -/
def escapestring (s : Text) : Text := chr '"' :: s.flatMap escapechar ++ [chr '"']

/-- `escapeid(s)`. -/
def escapeid (s : Text) : Text :=
  if strcspn "\"/;()[] \x0c\t\r\n" s = [] then s else escapestring s

/-- The four characters of a word in memory. -/
def wordbytes (w : Nat) : Text :=
  [UInt8.ofNat w, UInt8.ofNat (w / 2 ^ 8), UInt8.ofNat (w / 2 ^ 16), UInt8.ofNat (w / 2 ^ 24)]

/-- The cases of `runcode` for strings: the value that is pushed, and the code behind. -/
def readvalue {F : Type} : List Nat → Option (Tagval F × List Nat)
  | [] => none
  | op :: code =>
    if op % 256 = inst .MACRO .RET_NULL 0 then
      some (.VAL_MACRO (Cstring.text (code.flatMap wordbytes)), code.drop (op / 256 / 4 + 1))
    else if op % 256 = inst .VAL .RET_STR 0 then
      some (.VAL_STR (Cstring.text ((code.flatMap wordbytes).take (op / 256))),
        code.drop (op / 256 / 4 + 1))
    else if op % 256 = inst .VALI .RET_STR 0 then
      some (.VAL_STR (Cstring.text ((wordbytes op).tail)), code)
    else none

/-- The argument at `p` is compiled to a string with this text, which the machine reads, and what is
left of the line is `rest`. -/
def ReadsAs {F : Type} (fl : Floats F) (p s rest : Text) : Prop :=
  ∀ n (c : Compiler) (t : Valtype), p.length < n → t = .VAL_STR ∨ t = .VAL_ANY →
    ∃ c' code, compilearg fl (functions fl n) c p t = some (c', rest, true) ∧
      c'.code = c.code ++ code ∧
      ∃ v : Tagval F, readvalue code = some (v, []) ∧ ∀ floatstr, getstr floatstr v = s

/-! ## Memory -/

theorem wordbytes_eq (a b c d : UInt8) :
    wordbytes (a.toNat + 2 ^ 8 * b.toNat + 2 ^ 16 * c.toNat + 2 ^ 24 * d.toNat) = [a, b, c, d] := by
  have ha := a.toNat_lt
  have hb := b.toNat_lt
  have hc := c.toNat_lt
  have hd := d.toNat_lt
  simp only [wordbytes, List.cons.injEq, ← UInt8.toNat_inj, UInt8.toNat_ofNat', and_true]
  omega

/-- The words of a text have its characters, and zeros behind them. -/
theorem wordbytes_pack (s : Text) :
    (pack s).flatMap wordbytes = s ++ List.replicate (4 - s.length % 4) 0 := by
  fun_induction pack s with
  | case1 a b c d l ih =>
    have hlen : (a :: b :: c :: d :: l).length % 4 = l.length % 4 := by
      simp only [List.length_cons]
      omega
    rw [List.flatMap_cons, ih, wordbytes_eq, hlen]
    rfl
  | case2 a b c =>
    have hword := wordbytes_eq a b c 0
    rw [UInt8.toNat_zero, Nat.mul_zero, Nat.add_zero] at hword
    rw [List.flatMap_cons, hword]
    rfl
  | case3 a b =>
    have hword := wordbytes_eq a b 0 0
    rw [UInt8.toNat_zero, Nat.mul_zero, Nat.mul_zero, Nat.add_zero] at hword
    rw [List.flatMap_cons, hword]
    rfl
  | case4 a =>
    have hword := wordbytes_eq a 0 0 0
    rw [UInt8.toNat_zero, Nat.mul_zero, Nat.mul_zero, Nat.mul_zero, Nat.add_zero] at hword
    rw [List.flatMap_cons, hword]
    rfl
  | case5 => decide

theorem wordbytes_zero (s : Text) : ∃ r, (pack s).flatMap wordbytes = s ++ 0 :: r := by
  obtain ⟨k, hk⟩ : ∃ k, 4 - s.length % 4 = k + 1 := ⟨3 - s.length % 4, by omega⟩
  exact ⟨List.replicate k 0, by rw [wordbytes_pack, hk, List.replicate_succ]⟩

/-! ## Values -/

section Values

variable {F : Type}

theorem readvalue_macro (s : Text) (h0 : 0 ∉ s) (hlen : s.length < 2 ^ 24) :
    readvalue (F := F) (inst .MACRO .RET_NULL s.length :: pack s) = some (.VAL_MACRO s, []) := by
  obtain ⟨r, hr⟩ := wordbytes_zero s
  rw [readvalue, if_pos (inst_low _ _ _), inst_div_of_lt _ _ hlen, hr, Cstring.text_append h0,
    List.drop_eq_nil_of_le (length_pack s).le]

theorem not_macro : inst .VAL .RET_STR 0 ≠ inst .MACRO .RET_NULL 0 := by decide

theorem readvalue_val (s : Text) (h0 : 0 ∉ s) (hlen : s.length < 2 ^ 24) :
    readvalue (F := F) (inst .VAL .RET_STR s.length :: pack s) = some (.VAL_STR s, []) := by
  obtain ⟨r, hr⟩ := wordbytes_zero s
  rw [readvalue, if_neg (by rw [inst_low]; exact not_macro), if_pos (inst_low _ _ _),
    inst_div_of_lt _ _ hlen, hr, List.take_left, Cstring.text_of_not_mem h0,
    List.drop_eq_nil_of_le (length_pack s).le]

theorem tail_wordbytes (op : Opcode) (ret : Ret) {w : Nat} (hw : w < 2 ^ 24) :
    (wordbytes (inst op ret w)).tail = (wordbytes w).take 3 := by
  have hdiv := inst_div_of_lt op ret hw
  generalize inst op ret w = x at hdiv
  have h8 : x / 2 ^ 8 = w := hdiv
  have h16 : x / 2 ^ 16 = w / 2 ^ 8 := by omega
  have h24 : x / 2 ^ 24 = w / 2 ^ 16 := by omega
  simp only [wordbytes, List.tail_cons, List.take_succ_cons, List.take_zero, h8, h16, h24]

/-- At most three characters are in one word. -/
theorem pack_short {s : Text} (h : s.length ≤ 3) : ∃ w < 2 ^ 24, pack s = [w] := by
  match s, h with
  | [], _ => exact ⟨0, by decide, rfl⟩
  | [a], _ => exact ⟨_, by have := a.toNat_lt; omega, rfl⟩
  | [a, b], _ => exact ⟨_, by have := a.toNat_lt; have := b.toNat_lt; omega, rfl⟩
  | [a, b, c], _ =>
    exact ⟨_, by have := a.toNat_lt; have := b.toNat_lt; have := c.toNat_lt; omega, rfl⟩

theorem readvalue_vali (s : Text) (h0 : 0 ∉ s) (h : s.length ≤ 3) :
    readvalue (F := F) [inst .VALI .RET_STR ((pack s).headD 0 : Nat)] = some (.VAL_STR s, []) := by
  obtain ⟨w, hw, hpack⟩ := pack_short h
  obtain ⟨r, hr⟩ := wordbytes_zero s
  have hbytes : wordbytes w = s ++ 0 :: r := by simpa [hpack] using hr
  have hlen : (wordbytes w).length = 4 := rfl
  have htake : Cstring.text ((wordbytes w).take 3) = s := by
    rw [hbytes, List.take_append]
    by_cases h3 : s.length = 3
    · rw [h3, Nat.sub_self, List.take_zero, List.append_nil, List.take_of_length_le h,
        Cstring.text_of_not_mem h0]
    · obtain ⟨k, hk⟩ : ∃ k, 3 - s.length = k + 1 := ⟨2 - s.length, by omega⟩
      rw [hk, List.take_succ_cons, List.take_of_length_le h, Cstring.text_append h0]
  rw [hpack, List.headD_cons, readvalue, if_neg (by rw [inst_low]; decide),
    if_neg (by rw [inst_low]; decide), if_pos (inst_low _ _ _), tail_wordbytes _ _ hw, htake]

/-- A text that is too long for the instruction is not all of what the machine skips. -/
theorem readvalue_long {s : Text} (hlen : 2 ^ 24 ≤ s.length) {v : Tagval F} :
    readvalue (inst .VAL .RET_STR s.length :: pack s) ≠ some (v, []) := by
  intro h
  rw [readvalue, if_neg (by rw [inst_low]; exact not_macro), if_pos (inst_low _ _ _), inst_div] at h
  have hdrop := (Prod.mk.inj (Option.some.inj h)).2
  have hle := List.drop_eq_nil_iff.mp hdrop
  rw [length_pack] at hle
  omega

theorem code_emit (c : Compiler) (op : Opcode) (ret : Ret) (arg : Nat) :
    (c.emit op ret arg).code = c.code ++ [inst op ret arg] := by
  rw [Compiler.emit, Compiler.add, code_noteif]

theorem code_addtext (c : Compiler) (op : Opcode) (ret : Ret) (s : Text) :
    (c.addtext op ret s).code = c.code ++ inst op ret s.length :: pack s := by
  rw [Compiler.addtext, code_emit, List.append_assoc]
  rfl

/-- A word becomes a string, of type `VAL_STR` or `VAL_ANY`. -/
theorem code_compilestr (c : Compiler) {s : Text} (h0 : 0 ∉ s) (hlen : s.length < 2 ^ 24)
    (mac : Bool) : ∃ code, (c.compilestr s mac).code = c.code ++ code ∧
      ∃ v : Tagval F, readvalue code = some (v, []) ∧ ∀ floatstr, getstr floatstr v = s := by
  unfold Compiler.compilestr
  split
  · rename_i hshort
    exact ⟨_, rfl, _, readvalue_vali s h0 hshort.1, fun _ => rfl⟩
  · split
    · exact ⟨_, code_addtext .., _, readvalue_macro s h0 hlen, fun _ => rfl⟩
    · exact ⟨_, code_addtext .., _, readvalue_val s h0 hlen, fun _ => rfl⟩

end Values

/-! ## Strings -/

/-- What an escape sequence with this character stands for. -/
def unescapechar (e : UInt8) : UInt8 :=
  if e = chr 'n' then chr '\n' else if e = chr 't' then chr '\t' else if e = chr 'f' then chr '\x0c'
  else e

/-- The characters and the escape sequences of a string, and what they stand for. -/
inductive Escaped : Text → Text → Prop
  | nil : Escaped [] []
  | char {c : UInt8} {x v : Text} (hc : c ∉ word "\r\n\"^") (h : Escaped x v) :
      Escaped (c :: x) (c :: v)
  | escape (e : UInt8) {x v : Text} (h : Escaped x v) :
      Escaped (chr '^' :: e :: x) (unescapechar e :: v)

section Strings

variable {x v : Text}

theorem parsestring_plain {c : UInt8} (hc : c ∉ word "\r\n\"^") (p : Text) :
    parsestring (c :: p) = parsestring p := by
  have hstop : c ∉ word "\r\n\"" := fun h => hc (List.mem_append_left (word "^") h)
  have hcaret : c ≠ chr '^' := by
    rintro rfl
    exact hc (by decide)
  rw [parsestring_cons, if_neg hstop, if_neg hcaret]

theorem unescapestring_plain {c : UInt8} (hc : c ∉ word "\r\n\"^") (p : Text) :
    unescapestring (c :: p) = c :: unescapestring p := by
  have hcaret : c ≠ chr '^' := by
    rintro rfl
    exact hc (by decide)
  rw [unescapestring.eq_def]
  exact if_neg hcaret

theorem parsestring_escape (e : UInt8) (p : Text) :
    parsestring (chr '^' :: e :: p) = parsestring p := by
  rw [parsestring_cons, if_neg (by decide), if_pos rfl, List.tail_cons]

theorem unescapestring_escape (e : UInt8) (p : Text) :
    unescapestring (chr '^' :: e :: p) = unescapechar e :: unescapestring p := by
  rw [unescapestring, if_pos rfl]
  rfl

/-- **The end of a string** is behind its pieces. -/
theorem Escaped.parsestring (h : Escaped x v) (rest : Text) :
    parsestring (x ++ rest) = Script.parsestring rest := by
  induction h with
  | nil => rfl
  | char hc _ ih => rw [List.cons_append, parsestring_plain hc, ih]
  | escape e _ ih => rw [List.cons_append, List.cons_append, parsestring_escape, ih]

/-- **The text of a string** is what its pieces stand for. -/
theorem Escaped.unescapestring (h : Escaped x v) (rest : Text) :
    unescapestring (x ++ rest) = v ++ Script.unescapestring rest := by
  induction h with
  | nil => rfl
  | char hc _ ih => rw [List.cons_append, unescapestring_plain hc, ih, List.cons_append]
  | escape e _ ih =>
    rw [List.cons_append, List.cons_append, unescapestring_escape, ih, List.cons_append]

/-- What `escapestring` writes for a character is a piece, unless it is a carriage return. -/
theorem Escaped.escapechar {c : UInt8} (hc : c ≠ chr '\r') (h : Escaped x v) :
    Escaped (escapechar c ++ x) (c :: v) := by
  unfold Script.escapechar
  split_ifs with hn ht hf hq hcaret
  · exact hn ▸ .escape (chr 'n') h
  · exact ht ▸ .escape (chr 't') h
  · exact hf ▸ .escape (chr 'f') h
  · exact hq ▸ .escape (chr '"') h
  · exact hcaret ▸ .escape (chr '^') h
  · refine .char (fun hmem => ?_) h
    have hcases : c = chr '\r' ∨ c = chr '\n' ∨ c = chr '"' ∨ c = chr '^' := by
      simpa [word, chr] using hmem
    tauto

theorem escaped_flatMap {s : Text} (hs : chr '\r' ∉ s) : Escaped (s.flatMap escapechar) s := by
  induction s with
  | nil => exact .nil
  | cons c s ih =>
    rw [List.mem_cons, not_or] at hs
    exact (ih hs.2).escapechar fun h => hs.1 h.symm

/-- `cutstring` at what `escapestring` has written. -/
theorem cutstring_escapestring {s : Text} (hs : chr '\r' ∉ s) (rest : Text) :
    cutstring (escapestring s ++ rest) = (s, rest) := by
  have hescaped := escaped_flatMap hs
  have htail : (escapestring s ++ rest).tail = s.flatMap escapechar ++ chr '"' :: rest := by
    rw [escapestring, List.cons_append, List.cons_append, List.tail_cons, List.append_assoc]
    rfl
  have hstop : parsestring (s.flatMap escapechar ++ chr '"' :: rest) = chr '"' :: rest := by
    rw [hescaped.parsestring, parsestring_cons, if_pos (by decide)]
  have htext : unescapestring (s.flatMap escapechar) = s := by
    simpa [unescapestring] using hescaped.unescapestring []
  unfold cutstring
  rw [htail]
  dsimp only
  rw [hstop, upto_append, htext]
  rfl

/-- Where a string ends, and what is before. -/
theorem string_pieces (p : Text) : ∃ x v, Escaped x v ∧
    (p = x ++ parsestring p ∧ (∀ c ∈ (parsestring p).head?, c ∈ word "\r\n\"") ∨
      p = x ++ [chr '^'] ∧ parsestring p = []) := by
  fun_induction parsestring p with
  | case1 => exact ⟨[], [], .nil, .inl ⟨rfl, fun c hc => by cases hc⟩⟩
  | case2 c p hstop =>
    refine ⟨[], [], .nil, .inl ⟨rfl, fun d hd => ?_⟩⟩
    rwa [← Option.some.inj hd]
  | case3 => exact ⟨[], [], .nil, .inr ⟨rfl, rfl⟩⟩
  | case4 e p _ ih =>
    obtain ⟨x, v, hescaped, hend⟩ := ih
    refine ⟨_, _, .escape e hescaped, ?_⟩
    obtain ⟨hp, hhead⟩ | ⟨hp, hnil⟩ := hend
    · refine .inl ⟨?_, hhead⟩
      rw [List.cons_append, List.cons_append, ← hp]
    · refine .inr ⟨?_, hnil⟩
      rw [List.cons_append, List.cons_append, ← hp]
  | case5 c p hstop hcaret ih =>
    obtain ⟨x, v, hescaped, hend⟩ := ih
    have hc : c ∉ word "\r\n\"^" := fun h =>
      (List.mem_append.mp h).elim hstop fun h => hcaret (List.mem_singleton.mp h)
    refine ⟨_, _, .char hc hescaped, ?_⟩
    obtain ⟨hp, hhead⟩ | ⟨hp, hnil⟩ := hend
    · refine .inl ⟨?_, hhead⟩
      rw [List.cons_append, ← hp]
    · refine .inr ⟨?_, hnil⟩
      rw [List.cons_append, ← hp]

/-- The two scanners agree on this text: it is pieces up to the end of the string, or up to a lone
caret at the end of the text, and unescaping gives what the pieces stand for. -/
def Scansalike (p : Text) : Prop :=
  ∃ x v, Escaped x v ∧ unescapestring (upto p (parsestring p)) = v ∧
    (p = x ++ parsestring p ∧ (∀ c ∈ (parsestring p).head?, c ∈ word "\r\n\"") ∨
      p = x ++ [chr '^'] ∧ parsestring p = [])

theorem scansalike (p : Text) : Scansalike p := by
  obtain ⟨x, v, hescaped, hend⟩ := string_pieces p
  refine ⟨x, v, hescaped, ?_, hend⟩
  obtain ⟨hp, -⟩ | ⟨hp, hnil⟩ := hend
  · have hupto : upto p (parsestring p) = x ++ [] := by
      generalize parsestring p = q at hp
      rw [hp, upto_append, List.append_nil]
    rw [hupto, hescaped.unescapestring]
    exact List.append_nil v
  · rw [hnil, upto, List.length_nil, Nat.sub_zero, List.take_length, hp, hescaped.unescapestring]
    exact List.append_nil v

end Strings

/-! ## Arguments -/

section Arguments

variable {F : Type} (fl : Floats F)

theorem skipcomments_self {c : UInt8} {p : Text} (hc : c ∉ word " \t\r/") :
    skipcomments (c :: p) = c :: p := by
  have hblank : c ∉ word " \t\r" := fun h => hc (List.mem_append_left (word "/") h)
  have hslash : c ≠ chr '/' := by
    rintro rfl
    exact hc (by decide)
  have hspan : strspn " \t\r" (c :: p) = c :: p :=
    List.dropWhile_cons_of_neg (by simpa using hblank)
  have hno : ¬iscomment (c :: p) = true := fun h => hslash ((iscomment_cons c p).mp h).1
  unfold skipcomments
  rw [hspan]
  exact if_neg hno

theorem compilearg_word {r : Rec} {c c' : Compiler} {p rest s : Text} {t : Valtype}
    (hword : compileword fl r c p t = some (c, rest, true, some s))
    (hval : compileval fl r c t (some s) = some c') :
    compilearg fl r c p t = some (c', rest, true) := by
  rw [compilearg, hword]
  dsimp only [bind, Option.bind]
  rw [hval]
  rfl

/-- A word that is left to `compilearg` is read as a string. -/
theorem readsAs_word {p s rest : Text} (h0 : 0 ∉ s) (hlen : s.length < 2 ^ 24)
    (h : ∀ r c t, compileword fl r c p t = some (c, rest, true, some s)) : ReadsAs fl p s rest := by
  intro n c t _ ht
  obtain rfl | rfl := ht
  · obtain ⟨code, hcode, hv⟩ := code_compilestr (F := F) c h0 hlen true
    exact ⟨_, code, compilearg_word fl (h _ c _) rfl, hcode, hv⟩
  · obtain ⟨code, hcode, hv⟩ := code_compilestr (F := F) c h0 hlen false
    exact ⟨_, code, compilearg_word fl (h _ c _) rfl, hcode, hv⟩

theorem compileword_quote (p : Text) (r : Rec) (c : Compiler) (t : Valtype) :
    compileword fl r c (chr '"' :: p) t =
      some (c, (cutstring (chr '"' :: p)).2, true, some (cutstring (chr '"' :: p)).1) := by
  have hskip : skipcomments (chr '"' :: p) = chr '"' :: p := skipcomments_self (by decide)
  rw [compileword, hskip]
  dsimp only
  rw [if_pos List.head?_cons]

theorem compileword_escapestring {s : Text} (hs : chr '\r' ∉ s) (rest : Text) (r : Rec)
    (c : Compiler) (t : Valtype) :
    compileword fl r c (escapestring s ++ rest) t = some (c, rest, true, some s) := by
  have hword := compileword_quote fl (escapestring s ++ rest).tail r c t
  have hcons : chr '"' :: (escapestring s ++ rest).tail = escapestring s ++ rest := rfl
  rw [hcons, cutstring_escapestring hs] at hword
  exact hword

theorem strcspn_eq_nil {reject : String} {s : Text} :
    strcspn reject s = [] ↔ ∀ c ∈ s, c ∉ word reject := by
  unfold strcspn
  rw [List.dropWhile_eq_nil_iff]
  simp

/-- The characters of a word that stands for itself pass `parseword`. -/
theorem parseword_bare {s : Text} (hs : ∀ c ∈ s, c ∉ word "\"/;()[] \x0c\t\r\n" ∧ c ≠ chr '@')
    (rest : Text) : parseword (s ++ rest) = parseword rest := by
  unfold parseword
  induction s with
  | nil => rfl
  | cons c s ih =>
    obtain ⟨hset, hat⟩ := hs c (.head _)
    have hstop : c ∉ word "\";@ \t\r\n" := by
      intro hc
      have hcases : c = chr '"' ∨ c = chr ';' ∨ c = chr '@' ∨ c = chr ' ' ∨ c = chr '\t' ∨
          c = chr '\r' ∨ c = chr '\n' := by
        simpa [word, chr] using hc
      obtain h | h | h | h | h | h | h := hcases
      · exact hset (h ▸ by decide)
      · exact hset (h ▸ by decide)
      · exact hat h
      · exact hset (h ▸ by decide)
      · exact hset (h ▸ by decide)
      · exact hset (h ▸ by decide)
      · exact hset (h ▸ by decide)
    have hne : ∀ d ∈ word "/()[]", c ≠ d := by
      rintro d hd rfl
      have hin : ∀ e ∈ word "/()[]", e ∈ word "\"/;()[] \x0c\t\r\n" := by decide +kernel
      exact hset (hin c hd)
    rw [List.cons_append, parsewordin, if_neg hstop, if_neg (hne _ (by decide)),
      if_neg (not_or.mpr ⟨hne _ (by decide), hne _ (by decide)⟩), if_neg (hne _ (by decide)),
      if_neg (hne _ (by decide))]
    exact ih fun d hd => hs d (.tail _ hd)

theorem compileword_bare {s rest : Text}
    (hs : ∀ c ∈ s, c ∉ word "\"/;()[] \x0c\t\r\n" ∧ c ≠ chr '@') (hne : s ≠ [])
    (hdollar : s.head? ≠ some (chr '$')) (hrest : parseword rest = rest) (r : Rec) (c : Compiler)
    (t : Valtype) : compileword fl r c (s ++ rest) t = some (c, rest, true, some s) := by
  have hcut : cutword (s ++ rest) = (some s, rest) := by
    unfold cutword
    rw [parseword_bare hs, hrest]
    have hlen : (s ++ rest).length ≠ rest.length := by
      rw [List.length_append]
      have hpos := List.length_pos_of_ne_nil hne
      omega
    dsimp only
    rw [if_neg hlen, upto_append]
  cases s with
  | nil => exact absurd rfl hne
  | cons d s =>
    obtain ⟨hset, hat⟩ := hs d (.head _)
    have hnot : ∀ e ∈ word "\"([/ \t\r", d ≠ e := by
      rintro e he rfl
      have hin : ∀ e ∈ word "\"([/ \t\r", e ∈ word "\"/;()[] \x0c\t\r\n" := by decide +kernel
      exact hset (hin d he)
    have hskip : skipcomments (d :: s ++ rest) = d :: s ++ rest :=
      skipcomments_self fun hmem => by
        have hin : ∀ e ∈ word " \t\r/", e ∈ word "\"([/ \t\r" := by decide +kernel
        exact hnot d (hin d hmem) rfl
    have hhead : ∀ e, d ≠ e → ¬(d :: s ++ rest).head? = some e := fun e hde h =>
      hde (Option.some.inj h)
    rw [compileword, hskip]
    dsimp only
    rw [if_neg (hhead _ (hnot _ (by decide))), if_neg (hhead _ fun h => hdollar (congrArg some h)),
      if_neg (hhead _ (hnot _ (by decide))), if_neg (hhead _ (hnot _ (by decide))),
      if_neg (hhead _ hat), hcut]
    rfl

/-- Nothing is left of a word but what `compileword` has left. -/
theorem compilearg_rest {r : Rec} {c c₁ c₂ : Compiler} {p q rest s : Text} {t : Valtype}
    (hword : compileword fl r c p t = some (c₁, q, true, some s))
    (harg : compilearg fl r c p t = some (c₂, rest, true)) : rest = q := by
  rw [compilearg, hword] at harg
  dsimp only [bind, Option.bind] at harg
  split at harg
  · cases harg
  · cases harg
    rfl

/-- `compilelookup` where there are no brackets and no identifiers yet. -/
theorem lookupbehind_cases {r : Rec} {c c' : Compiler} {p rest : Text} {ltype : Valtype}
    (hids : c.idents = []) (ht : ltype = .VAL_STR ∨ ltype = .VAL_ANY)
    (hp : ∀ d ∈ p, d ∉ word "\"/;()[] \x0c\t\r\n")
    (h : lookupbehind fl r c p ltype = some (c', rest)) :
    (∃ ret id, c'.code = c.code ++ [inst .LOOKUP ret (id : Nat)] ∨
      c'.code = c.code ++ [inst .LOOKUPARG ret (id : Nat)]) ∨
    lookupinvalid fl r c ltype = some c' ∨
    ∃ c₁ ret, p.head? = some (chr '$') ∧ r.lookup c p .VAL_STR = some (c₁, rest) ∧
      c'.code = c₁.code ++ [inst .LOOKUPU ret 0] := by
  have hhead : ∀ e ∈ word "\"/;()[] \x0c\t\r\n", ¬p.head? = some e := fun e he hpe =>
    hp e (List.mem_of_head? hpe) he
  have hdone : ∀ c : Compiler, lookupdone c ltype = c := by
    obtain rfl | rfl := ht
    · exact fun _ => rfl
    · exact fun _ => rfl
  unfold lookupbehind at h
  rw [if_neg (not_or.mpr ⟨hhead _ (by decide), hhead _ (by decide)⟩)] at h
  split at h
  · rename_i hdollar
    cases hlook : r.lookup c p .VAL_STR with
    | none => simp [hlook] at h
    | some x =>
      obtain ⟨c₁, q⟩ := x
      rw [hlook] at h
      cases h
      exact .inr (.inr ⟨c₁, _, hdollar, rfl, by rw [hdone]; rfl⟩)
  · rw [if_neg (hhead _ (by decide))] at h
    split at h
    · cases hinv : lookupinvalid fl r c ltype with
      | none => simp [hinv] at h
      | some c₁ =>
        rw [hinv] at h
        cases h
        exact .inr (.inl rfl)
    · rename_i lookup _ _
      left
      have hnew : ∃ c₁ id, c₁.code = c.code ∧ c.newident lookup = (c₁, id, .ID_ALIAS) := by
        unfold Compiler.newident
        rw [hids]
        dsimp only [access, List.findIdx?_nil]
        split
        · exact ⟨_, _, rfl, rfl⟩
        · refine ⟨_, _, ?_, rfl⟩
          rfl
      obtain ⟨c₁, id, hcode, hnew⟩ := hnew
      have hlookup : lookupid fl c ltype lookup = some (c₁.emit
          (if id < MAXARGS then .LOOKUPARG else .LOOKUP) (ltype.retor .VAL_STR) id) := by
        unfold lookupid
        rw [hnew]
      rw [lookupnamed, hlookup] at h
      cases h
      refine ⟨ltype.retor .VAL_STR, id, ?_⟩
      rw [hdone, code_emit, hcode]
      split
      · exact .inr rfl
      · exact .inl rfl

/-- The words of a lookup are no text, or not all of them are. -/
theorem readvalue_lookup {op : Opcode} (hop : op = .LOOKUP ∨ op = .LOOKUPARG) (ret : Ret) (id : Nat)
    (code : List Nat) : readvalue (F := F) (inst op ret id :: code) = none := by
  have hne : ∀ op' ret', op' = .MACRO ∨ op' = .VAL ∨ op' = .VALI →
      inst op ret 0 ≠ inst op' ret' 0 := by
    intro op' ret' hop'
    obtain rfl | rfl := hop <;> obtain rfl | rfl | rfl := hop' <;>
      cases ret <;> cases ret' <;> decide
  rw [readvalue, inst_low, if_neg (hne _ _ (.inl rfl)), if_neg (hne _ _ (.inr (.inl rfl))),
    if_neg (hne _ _ (.inr (.inr rfl)))]

/-- A lookup that is looked up leaves more than the words behind a text. -/
theorem lookup_leaves (n : Nat) {c c' : Compiler} {p rest : Text} (hids : c.idents = [])
    (hp : ∀ d ∈ p, d ∉ word "\"/;()[] \x0c\t\r\n")
    (h : (functions fl n).lookup c p .VAL_STR = some (c', rest)) :
    ∃ l, c'.code = c.code ++ l ∧ ∀ x (v : Tagval F) y, readvalue (l ++ x) = some (v, y) →
      x.length ≤ y.length := by
  induction n generalizing c c' p rest with
  | zero => cases h
  | succ n ih =>
    have hbehind : lookupbehind fl (functions fl n) c p.tail .VAL_STR = some (c', rest) := h
    have htail : ∀ d ∈ p.tail, d ∉ word "\"/;()[] \x0c\t\r\n" := fun d hd =>
      hp d (List.mem_of_mem_tail hd)
    obtain ⟨ret, id, hcode | hcode⟩ | hinv | ⟨c₁, ret, -, hlook, hcode⟩ :=
      lookupbehind_cases fl hids (.inl rfl) htail hbehind
    · refine ⟨_, hcode, fun x v y hread => ?_⟩
      rw [List.singleton_append, readvalue_lookup (.inl rfl)] at hread
      cases hread
    · refine ⟨_, hcode, fun x v y hread => ?_⟩
      rw [List.singleton_append, readvalue_lookup (.inr rfl)] at hread
      cases hread
    · cases hinv
      refine ⟨_, code_addtext .., fun x v y hread => ?_⟩
      have hmacro : readvalue (inst .MACRO .RET_NULL 0 :: 0 :: x) = some (v, y) := hread
      rw [readvalue, if_pos (inst_low _ _ _), inst_div] at hmacro
      exact (congrArg List.length (Prod.mk.inj (Option.some.inj hmacro)).2).le
    · obtain ⟨l, hl, hleaves⟩ := ih hids htail hlook
      refine ⟨l ++ [inst .LOOKUPU ret 0], ?_, fun x v y hread => ?_⟩
      · rw [hcode, hl, List.append_assoc]
      rw [List.append_assoc] at hread
      have hle := hleaves _ v y hread
      rw [List.singleton_append, List.length_cons] at hle
      omega

theorem compilearg_dollar (r : Rec) (c : Compiler) (p : Text) (t : Valtype) :
    compilearg fl r c (chr '$' :: p) t =
      (compilelookup fl r c (chr '$' :: p) t).map fun x => (x.1, x.2, true) := by
  have hskip : skipcomments (chr '$' :: p) = chr '$' :: p := skipcomments_self (by decide)
  have hquote : ¬(chr '$' :: p).head? = some (chr '"') := by
    rw [List.head?_cons]
    decide
  rw [compilearg, compileword, hskip]
  dsimp only
  rw [if_neg hquote, if_pos List.head?_cons]
  cases compilelookup fl r c (chr '$' :: p) t with
  | none => rfl
  | some x => rfl

/-- A word that begins with a dollar sign is a lookup. -/
theorem not_readsAs_dollar {s t : Text} (hdollar : s.head? = some (chr '$'))
    (hs : ∀ d ∈ s, d ∉ word "\"/;()[] \x0c\t\r\n") : ¬ReadsAs fl s t [] := by
  intro hreads
  obtain ⟨p, rfl⟩ := List.head?_eq_some_iff.mp hdollar
  obtain ⟨c', code, harg, hcode, v, hread, -⟩ :=
    hreads _ { idents := [] } .VAL_ANY (Nat.lt_succ_self _) (.inr rfl)
  have hlook : lookupbehind fl (functions fl ((chr '$' :: p).length + 1)) { idents := [] } p
      .VAL_ANY = some (c', []) := by
    rw [compilearg_dollar, Option.map_eq_some_iff] at harg
    obtain ⟨⟨c₁, q⟩, hx, hxc⟩ := harg
    cases hxc
    exact hx
  have hp : ∀ d ∈ p, d ∉ word "\"/;()[] \x0c\t\r\n" := fun d hd => hs d (.tail _ hd)
  have hnil : ∀ l, c'.code = [] ++ l → l = code := fun l hl =>
    List.append_cancel_left (hl.symm.trans hcode)
  obtain ⟨ret, id, hc' | hc'⟩ | hinv | ⟨c₁, ret, -, hlook, hc'⟩ :=
    lookupbehind_cases fl rfl (.inr rfl) hp hlook
  · rw [← hnil _ hc', readvalue_lookup (.inl rfl)] at hread
    cases hread
  · rw [← hnil _ hc', readvalue_lookup (.inr rfl)] at hread
    cases hread
  · cases hinv
    have hnull : readvalue (F := F) [inst .VALI .RET_NULL 0] = none := by
      rw [readvalue, if_neg (by decide), if_neg (by decide), if_neg (by decide)]
    rw [← hnil _ rfl, hnull] at hread
    cases hread
  · obtain ⟨l, hl, hleaves⟩ := lookup_leaves (F := F) fl _ rfl hp hlook
    rw [hl, List.append_assoc] at hc'
    rw [← hnil _ hc'] at hread
    exact absurd (hleaves _ v [] hread) (Nat.not_succ_le_zero 0)

end Arguments

/-! ## Both ways -/

/-- The text comes back from the compiler: as a quoted string, and as an argument of a command,
where what is behind it begins with no character of a word. -/
structure Comesback {F : Type} (fl : Floats F) (s : Text) : Prop where
  quoted : ∀ rest, ReadsAs fl (escapestring s ++ rest) s rest
  placed : ∀ rest, parseword rest = rest →
    ReadsAs fl (escapeid s ++ rest) s rest ∧ isassign (escapeid s ++ rest) = false

/-- Texts that are written well: no carriage return, a length the instruction can have, and a word
that stands for itself is none that the compiler takes for something else. -/
structure Writable (s : Text) : Prop where
  noreturn : chr '\r' ∉ s
  length : s.length < 2 ^ 24
  bare : (∀ c ∈ s, c ∉ word "\"/;()[] \x0c\t\r\n") →
    s ≠ [] ∧ chr '@' ∉ s ∧ s.head? ≠ some (chr '$') ∧ s ≠ word "="

section Both

variable {F : Type} {fl : Floats F} {s : Text}

theorem Writable.comesback (h : Writable s) (h0 : 0 ∉ s) : Comesback fl s := by
  have hquoted : ∀ rest, ReadsAs fl (escapestring s ++ rest) s rest := fun rest =>
    readsAs_word fl h0 h.length (compileword_escapestring fl h.noreturn rest)
  refine ⟨hquoted, fun rest hrest => ?_⟩
  by_cases hset : strcspn "\"/;()[] \x0c\t\r\n" s = []
  · have hid : escapeid s = s := if_pos hset
    rw [strcspn_eq_nil] at hset
    obtain ⟨hne, hat, hdollar, hassign⟩ := h.bare hset
    have hs : ∀ c ∈ s, c ∉ word "\"/;()[] \x0c\t\r\n" ∧ c ≠ chr '@' := fun c hc =>
      ⟨hset c hc, fun h => hat (h ▸ hc)⟩
    rw [hid]
    refine ⟨readsAs_word fl h0 h.length (compileword_bare fl hs hne hdollar hrest), ?_⟩
    match s, hne with
    | [d], _ =>
      have hd : d ≠ chr '=' := fun hd => hassign (by rw [hd]; rfl)
      simp [isassign, hd]
    | d :: e :: s, _ =>
      have he : e ∉ word "; \t\r\n" := fun hmem => by
        have hin : ∀ d ∈ word "; \t\r\n", d ∈ word "\"/;()[] \x0c\t\r\n" := by decide +kernel
        exact hset e (.tail _ (.head _)) (hin e hmem)
      have hslash : e ≠ chr '/' := by
        rintro rfl
        exact hset _ (.tail _ (.head _)) (by decide)
      have hno : iscomment (e :: s ++ rest) = false :=
        Bool.eq_false_iff.mpr fun h => hslash ((iscomment_cons e _).mp h).1
      have hcons : d :: e :: s ++ rest = d :: (e :: s ++ rest) := rfl
      rw [isassign, hcons, List.tail_cons, hno]
      simp [he]
  · have hid : escapeid s = escapestring s := if_neg hset
    rw [hid]
    exact ⟨hquoted rest, rfl⟩

theorem Comesback.noreturn (h : Comesback fl s) : chr '\r' ∉ s := by
  intro hmem
  obtain ⟨a, b, rfl, ha⟩ := List.eq_append_cons_of_mem hmem
  obtain ⟨c', code, harg, -⟩ :=
    h.quoted [] _ { idents := [] } .VAL_STR (Nat.lt_succ_self _) (.inl rfl)
  -- the string ends at the first carriage return
  have htail : (escapestring (a ++ chr '\r' :: b) ++ []).tail =
      a.flatMap escapechar ++ chr '\r' :: (b.flatMap escapechar ++ [chr '"']) := by
    rw [escapestring, List.append_nil, List.cons_append, List.tail_cons, List.flatMap_append,
      List.flatMap_cons, List.append_assoc, List.append_assoc]
    rfl
  have hstop : parsestring (escapestring (a ++ chr '\r' :: b) ++ []).tail =
      chr '\r' :: (b.flatMap escapechar ++ [chr '"']) := by
    rw [htail, (escaped_flatMap ha).parsestring, parsestring_cons, if_pos (by decide)]
  have hrest : [] = skipquote (parsestring (escapestring (a ++ chr '\r' :: b) ++ []).tail) :=
    compilearg_rest fl (compileword_quote fl _ _ _ _) harg
  rw [hstop] at hrest
  cases hrest

theorem Comesback.length (h : Comesback fl s) : s.length < 2 ^ 24 := by
  by_contra hlen
  obtain ⟨c', code, harg, hcode, v, hread, -⟩ :=
    h.quoted [] _ { idents := [] } .VAL_ANY (Nat.lt_succ_self _) (.inr rfl)
  have hword := fun r => compileword_escapestring fl h.noreturn [] r { idents := [] } .VAL_ANY
  rw [compilearg_word fl (hword _) rfl] at harg
  cases harg
  have hval : Compiler.compilestr { idents := [] } s false =
      Compiler.addtext { idents := [] } .VAL .RET_STR s := if_neg fun hshort => by omega
  dsimp only [Option.getD_some] at hcode
  rw [hval, code_addtext, List.nil_append, List.nil_append] at hcode
  exact readvalue_long (Nat.le_of_not_lt hlen) (hcode ▸ hread)

theorem compileword_nil (r : Rec) (c : Compiler) (t : Valtype) :
    compileword fl r c [] t = some (c, [], false, none) := rfl

theorem compileword_at (p : Text) (r : Rec) (c : Compiler) (t : Valtype) :
    compileword fl r c (chr '@' :: p) t = some (c.note .stray, p, true, none) := by
  have hskip : skipcomments (chr '@' :: p) = chr '@' :: p := skipcomments_self (by decide)
  have hhead : ∀ e, chr '@' ≠ e → ¬(chr '@' :: p).head? = some e := fun e hne h =>
    hne (Option.some.inj h)
  rw [compileword, hskip]
  dsimp only
  rw [if_neg (hhead _ (by decide)), if_neg (hhead _ (by decide)), if_neg (hhead _ (by decide)),
    if_neg (hhead _ (by decide)), if_pos List.head?_cons]
  rfl

theorem Comesback.bare (h : Comesback fl s) (hset : ∀ c ∈ s, c ∉ word "\"/;()[] \x0c\t\r\n") :
    s ≠ [] ∧ chr '@' ∉ s ∧ s.head? ≠ some (chr '$') ∧ s ≠ word "=" := by
  obtain ⟨hreads, hassign⟩ := h.placed [] rfl
  have hid : escapeid s = s := if_pos (strcspn_eq_nil.mpr hset)
  rw [hid, List.append_nil] at hreads hassign
  have hdollar : s.head? ≠ some (chr '$') := fun hdollar =>
    not_readsAs_dollar fl hdollar hset hreads
  obtain ⟨c', code, harg, hcode, v, hread, -⟩ :=
    hreads _ { idents := [] } .VAL_ANY (Nat.lt_succ_self _) (.inr rfl)
  refine ⟨?_, fun hat => ?_, hdollar, ?_⟩
  · rintro rfl
    rw [compilearg, compileword_nil] at harg
    cases harg
  · obtain ⟨a, b, rfl, ha⟩ := List.eq_append_cons_of_mem hat
    cases a with
    | nil =>
      -- a stray sign is compiled to nothing
      rw [List.nil_append, compilearg, compileword_at] at harg
      cases harg
      cases hcode
      cases hread
    | cons d a =>
      have ha' : ∀ e ∈ d :: a, e ∉ word "\"/;()[] \x0c\t\r\n" ∧ e ≠ chr '@' := fun e he =>
        ⟨hset e (List.mem_append_left _ he), fun h => ha (h ▸ he)⟩
      have hstop : parseword (chr '@' :: b) = chr '@' :: b := by
        rw [parseword, parsewordin, if_pos (by decide)]
      have hword := fun r => compileword_bare fl ha' (List.cons_ne_nil d a) hdollar hstop r
        { idents := [] } .VAL_ANY
      cases compilearg_rest fl (hword _) harg
  · rintro rfl
    exact absurd hassign (by decide)

/-- **What is written for the compiler.**  A text comes back, quoted and as an argument, just if it
is writable; and the scanner and the unescaper agree on every text. -/
theorem escapes_exact (fl : Floats F) (s : Text) (h0 : 0 ∉ s) :
    (Comesback fl s ↔ Writable s) ∧ ∀ p, Scansalike p :=
  ⟨⟨fun h => ⟨h.noreturn, h.length, h.bare⟩, fun h => h.comesback h0⟩, scansalike⟩

theorem escapes_exact_word :
    0 ∉ word "say \"hi\"^" ∧ Comesback nofloats (word "say \"hi\"^") := by
  have h0 : (0 : UInt8) ∉ word "say \"hi\"^" := by decide
  refine ⟨h0, ((escapes_exact nofloats _ h0).1).mpr ⟨by decide, by decide, fun hset => ?_⟩⟩
  exact absurd (hset (chr ' ') (by decide)) (by decide)

/-- A carriage return ends the string that it is written in: what is read is cut short. -/
theorem return_lost : cutstring (escapestring (word "a\rb")) = (word "a", word "\rb\"") ∧
    ¬Comesback nofloats (word "a\rb") :=
  ⟨by decide +kernel, fun h => h.noreturn (by decide)⟩

end Both

end Script

end QServ
