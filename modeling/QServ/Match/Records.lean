import Mathlib.Data.List.TakeWhile
import QServ.Game.Text
import QServ.Lib.Run
import QServ.Shared.Numerals
import QServ.Shared.Utf8stream

/-!
# The records of flag runs

The best run of each map and kind of ctf, in memory and in `config/flagruns.cfg`: `_doflagrun`,
`_storeflagruns` and `_loadflagruns` of `fpsgame/server.cpp`, with `serverflagruns` set.  Text is a
list of characters without the terminating zero.

* `Records.next`: a run, the server as it empties, and the server as it comes up again.
* `parseline_entry`: a record is read from the line it was written to.
* `records_kept`: in every run in which the server never comes up from a file without a record,
  and all records can be read, the records are the best runs so far.
* `first_record_lost`: a run in which they are not.
-/

namespace QServ

open Reader Utf8 Utf8stream

/-- `_flagrun`. -/
structure Flagrun where
  map : List UInt8
  gamemode : Int
  name : List UInt8
  timeused : Int
deriving DecidableEq, Repr

/-- `get_ctf_category(mode)`. -/
def get_ctf_category (mode : Int) : Nat :=
  if mode = 11 then 1
  else if mode = 12 then 2
  else if mode = 17 then 3
  else 0

/-- `is_flagrun_match(fr, current_mode, current_map)`. -/
def is_flagrun_match (fr : Flagrun) (current_mode : Int) (current_map : List UInt8) : Bool :=
  let cat := get_ctf_category current_mode
  if cat = 0 then false else get_ctf_category fr.gamemode = cat && fr.map = current_map

/-! ## The file -/

/-- The line of a record, without its end. -/
def entry (fr : Flagrun) : List UInt8 :=
  word "flagrun " ++ decimal fr.gamemode ++ word " \"" ++ fr.map ++ word "\" " ++
    decimal fr.timeused ++ word " \"" ++ fr.name ++ word "\""

/-- `'\n'`. -/
def lf : UInt8 := 10

/-- What `_storeflagruns` prints. -/
def filetext (runs : List Flagrun) : List UInt8 :=
  word "//Automatically generated by QServ: lists best flagruns" ++ [lf] ++ [lf] ++
    runs.flatMap fun fr => entry fr ++ [lf]

/-- `ss >> std::ws`. -/
def ws (ss : List UInt8) : List UInt8 := ss.dropWhile isspace

/-- `ss >> word`, which fails if there is none. -/
def getword (ss : List UInt8) : Option (List UInt8 × List UInt8) :=
  let ss := ws ss
  if ss = [] then none
  else some (ss.takeWhile (!isspace ·), ss.dropWhile (!isspace ·))

/-- `ss >> n` for an `int`, which fails without a numeral or for a number that is none. -/
def getnumber (ss : List UInt8) : Option (Int × List UInt8) :=
  let ss := ws ss
  let neg := ss.head? = some 45
  let ss := if neg ∨ ss.head? = some 43 then ss.drop 1 else ss
  let digits := ss.takeWhile isnumeral
  let n : Int := if neg then -numeral digits else numeral digits
  if digits = [] ∨ n < -2 ^ 31 ∨ 2 ^ 31 ≤ n then none
  else some (n, ss.dropWhile isnumeral)

/-- `'"'`. -/
def quote : UInt8 := 34

/-- `std::getline(ss, str, '"')`, which fails if there is nothing. -/
def getquote (ss : List UInt8) : Option (List UInt8 × List UInt8) :=
  if ss = [] then none
  else some (ss.takeWhile (· ≠ quote), (ss.dropWhile (· ≠ quote)).drop 1)

/-- The body of the loop of `_loadflagruns`. -/
def parseline (line : List UInt8) : Option Flagrun := do
  guard (line.head? ≠ some 47 ∧ line ≠ [])
  let (header, ss) ← getword line
  let (mode, ss) ← getnumber ss
  guard (header = word "flagrun")
  let (_, ss) ← getquote (ws ss)
  let (mapname, ss) ← getquote ss
  let (timeused, ss) ← getnumber ss
  let (_, ss) ← getquote (ws ss)
  let (playername, _) ← getquote ss
  guard ¬(mode < 0 ∨ 50 < mode ∨ timeused ≤ 0 ∨ mapname = [])
  return { map := mapname, gamemode := mode, name := playername, timeused }

/-- `_loadflagruns()` from a file that may not be there. -/
def loadflagruns (behind : Nat → UInt8) : Option (List UInt8) → List Flagrun
  | none => []
  | some bytes =>
    ((openutf8file (placed bytes)).getlines behind MAXSTRLEN).filterMap fun line =>
      parseline ((chars line).takeWhile (· ≠ 0))

/-! ## The records -/

/-- The records, the flag `_newflagrun` and the file.  The last three fields belong to no variable
of the source: whether the server is empty, whether a first record was made since the file was
written, and all runs that were not refused as cheats. -/
structure Records where
  runs : List Flagrun := []
  newflagrun : Bool := false
  file : Option (List UInt8) := none
  emptied : Bool := true
  unsaved : Bool := false
  history : List Flagrun := []
deriving DecidableEq, Repr

/-- What happens: `_doflagrun` for a client of this name, with the present map, mode and time; the
last client leaves; the server comes up again after it went down, in an orderly way or not. -/
inductive RecordEvent
  | doflagrun (map : List UInt8) (gamemode : Int) (name : List UInt8) (timeused : Int)
  | noclients
  | restart (orderly : Bool)
deriving DecidableEq, Repr

/-- The name without colour codes. -/
def cleanname : List UInt8 → List UInt8
  | [] => []
  | [c] => if c = 12 then [] else [c]
  | c :: d :: src => if c = 12 then cleanname src else c :: cleanname (d :: src)

/-- The first record that matches a run takes over its name, time and mode. -/
def setrecord (fr : Flagrun) : List Flagrun → List Flagrun
  | [] => []
  | r :: runs =>
    if is_flagrun_match r fr.gamemode fr.map then
      { r with name := fr.name, timeused := fr.timeused, gamemode := fr.gamemode } :: runs
    else r :: setrecord fr runs

namespace Records

variable (s : Records)

/-- `_storeflagruns()`. -/
def storeflagruns : Records :=
  { s with file := some (encodeutf8 (filetext s.runs)), unsaved := false }

/-- The record of a map and mode. -/
def record (gamemode : Int) (map : List UInt8) : Option Flagrun :=
  s.runs.find? (is_flagrun_match · gamemode map)

/-- The first record of its map and mode. -/
def addrecord (fr : Flagrun) : Records :=
  { s with runs := s.runs ++ [{ fr with name := cleanname fr.name }], unsaved := true }

/-- A better one takes its place. -/
def improve (fr : Flagrun) : Records :=
  { s with runs := setrecord fr s.runs, newflagrun := true }

/-- A run that is no cheat is remembered. -/
def note (fr : Flagrun) : Records :=
  { s with history := s.history ++ [fr], emptied := false }

/-- `_doflagrun(ci, timeused)`; the cheat is kicked, and what the clients are told is left out. -/
def doflagrun (fr : Flagrun) : Records :=
  if fr.timeused ≤ 1500 then s
  else
    match s.record fr.gamemode fr.map with
    | none => if 1024 ≤ s.runs.length then s.note fr else (s.note fr).addrecord fr
    | some best =>
      if fr.timeused ≤ best.timeused then ((s.note fr).improve fr).storeflagruns else s.note fr

/-- `noclients()`. -/
def noclients : Records :=
  let s := { s with emptied := true }
  if s.newflagrun then { s.storeflagruns with newflagrun := false } else s

/-- `serverclose()`, if the server went down in an orderly way, and `serverinit()`. -/
def restart (behind : Nat → UInt8) (orderly : Bool) : Records :=
  let s := if orderly then s.storeflagruns else s
  { s with runs := loadflagruns behind s.file, newflagrun := false, unsaved := false }

/-- The records after an event. -/
def next (behind : Nat → UInt8) : RecordEvent → Records
  | .doflagrun map gamemode name timeused => s.doflagrun { map, gamemode, name, timeused }
  | .noclients => s.noclients
  | .restart orderly => s.restart behind orderly

end Records

/-! ## Reading what was written -/

theorem takeWhile_dropWhile {p : UInt8 → Bool} {l : List UInt8} {c : UInt8} {r : List UInt8}
    (hl : ∀ d ∈ l, p d = true) (hc : p c = false) :
    (l ++ c :: r).takeWhile p = l ∧ (l ++ c :: r).dropWhile p = c :: r := by
  have htake : (c :: r).takeWhile p = [] := by
    rw [List.takeWhile_cons, hc]
    rfl
  have hdrop : (c :: r).dropWhile p = c :: r := by
    rw [List.dropWhile_cons, hc]
    rfl
  constructor
  · rw [List.takeWhile_append_of_pos hl, htake, List.append_nil]
  · rw [List.dropWhile_append_of_pos hl, hdrop]

theorem numeral_cases (c : UInt8) (h : isnumeral c = true) :
    isspace c = false ∧ c ≠ 45 ∧ c ≠ 43 := by
  have key : ∀ c : UInt8, isnumeral c = true → isspace c = false ∧ c ≠ 45 ∧ c ≠ 43 :=
    forall_byte (by decide +kernel)
  exact key c h

/-- A number is read back, with the blanks before it, up to what is no numeral. -/
theorem getnumber_decimal {n : Int} (h : 0 ≤ n) (hn : n < 2 ^ 31) {c : UInt8}
    (hc : isnumeral c = false) (r : List UInt8) :
    getnumber (32 :: (decimal n ++ c :: r)) = some (n, c :: r) := by
  obtain ⟨hdigits, hne, hval⟩ := decimal_spec h
  obtain ⟨d, ds, hd⟩ := List.exists_cons_of_ne_nil hne
  have hfirst := numeral_cases d (hdigits d (hd ▸ List.mem_cons_self))
  have hws : ws (32 :: (decimal n ++ c :: r)) = decimal n ++ c :: r := by
    unfold ws
    rw [List.dropWhile_cons, if_pos (by decide), hd, List.cons_append, List.dropWhile_cons,
      hfirst.1]
    rfl
  have hhead : (decimal n ++ c :: r).head? = some d := by
    rw [hd]
    rfl
  obtain ⟨htake, hdrop⟩ := takeWhile_dropWhile (r := r) hdigits hc
  unfold getnumber
  simp only [hws, hhead, Option.some.injEq, hfirst.2.1, hfirst.2.2, or_self, if_false,
    htake, hdrop, hval, hne, false_or]
  rw [if_neg (by omega)]

/-- What stands before a quote is read, and the quote with it. -/
theorem getquote_append {l : List UInt8} (hl : quote ∉ l) (r : List UInt8) :
    getquote (l ++ quote :: r) = some (l, r) := by
  have hall : ∀ d ∈ l, decide (d ≠ quote) = true := by
    intro d hd
    apply decide_eq_true
    rintro rfl
    exact hl hd
  obtain ⟨htake, hdrop⟩ := takeWhile_dropWhile (r := r) hall (c := quote) (by decide)
  unfold getquote
  rw [if_neg (by simp), htake, hdrop]
  rfl

/-- A record that can be read from its line: no text with a quote or the end of a line, a map that
has a name, numbers in their ranges, and a line that the buffer holds. -/
structure Readable (fr : Flagrun) : Prop where
  map : fr.map ≠ [] ∧ quote ∉ fr.map ∧ lf ∉ fr.map ∧ 0 ∉ fr.map
  name : quote ∉ fr.name ∧ lf ∉ fr.name ∧ 0 ∉ fr.name
  gamemode : 0 ≤ fr.gamemode ∧ fr.gamemode ≤ 50
  timeused : 0 < fr.timeused ∧ fr.timeused < 2 ^ 31
  length : (entry fr).length ≤ MAXSTRLEN - 1

instance (fr : Flagrun) : Decidable (Readable fr) :=
  decidable_of_iff
    ((fr.map ≠ [] ∧ quote ∉ fr.map ∧ lf ∉ fr.map ∧ 0 ∉ fr.map) ∧
      (quote ∉ fr.name ∧ lf ∉ fr.name ∧ 0 ∉ fr.name) ∧
      (0 ≤ fr.gamemode ∧ fr.gamemode ≤ 50) ∧ (0 < fr.timeused ∧ fr.timeused < 2 ^ 31) ∧
      (entry fr).length ≤ MAXSTRLEN - 1)
    ⟨fun ⟨h1, h2, h3, h4, h5⟩ => ⟨h1, h2, h3, h4, h5⟩,
      fun ⟨h1, h2, h3, h4, h5⟩ => ⟨h1, h2, h3, h4, h5⟩⟩

theorem entry_append (fr : Flagrun) (tail : List UInt8) : entry fr ++ tail =
    word "flagrun" ++ 32 :: (decimal fr.gamemode ++ 32 :: quote :: (fr.map ++ quote ::
      32 :: (decimal fr.timeused ++ 32 :: quote :: (fr.name ++ quote :: tail)))) := by
  have h1 : word "flagrun " = word "flagrun" ++ [32] := by decide
  have h2 : word " \"" = [32, quote] := by decide
  have h3 : word "\" " = [quote, 32] := by decide
  have h4 : word "\"" = [quote] := by decide
  unfold entry
  rw [h1, h2, h3, h4]
  simp only [List.append_assoc, List.cons_append, List.nil_append]

theorem ws_quote (r : List UInt8) : ws (32 :: quote :: r) = quote :: r := by
  unfold ws
  rw [List.dropWhile_cons, if_pos (by decide), List.dropWhile_cons, if_neg (by decide)]

/-- **A record is read from its line.** -/
theorem parseline_entry {fr : Flagrun} (h : Readable fr) (tail : List UInt8) :
    parseline (entry fr ++ tail) = some fr := by
  have hword : getword (entry fr ++ tail) = some (word "flagrun",
      32 :: (decimal fr.gamemode ++ 32 :: quote :: (fr.map ++ quote ::
        32 :: (decimal fr.timeused ++ 32 :: quote :: (fr.name ++ quote :: tail))))) := by
    have hall : ∀ c ∈ word "flagrun", (!isspace c) = true := by decide +kernel
    obtain ⟨htake, hdrop⟩ := takeWhile_dropWhile
      (r := decimal fr.gamemode ++ 32 :: quote :: (fr.map ++ quote ::
        32 :: (decimal fr.timeused ++ 32 :: quote :: (fr.name ++ quote :: tail))))
      hall (c := 32) (by decide)
    rw [entry_append]
    unfold getword
    have hws : ∀ r, ws (word "flagrun" ++ r) = word "flagrun" ++ r := by
      intro r
      rfl
    simp only [hws]
    rw [htake, hdrop, if_neg (by simp [word])]
  have hhead : (entry fr ++ tail).head? ≠ some 47 ∧ entry fr ++ tail ≠ [] := by
    rw [entry_append]
    constructor <;> simp [word]
  have hempty : ∀ r, getquote (quote :: r) = some ([], r) :=
    fun r => getquote_append (l := []) (by simp) r
  have hbad : ¬(fr.gamemode < 0 ∨ 50 < fr.gamemode ∨ fr.timeused ≤ 0 ∨ fr.map = []) := by
    have := h.gamemode
    have := h.timeused
    rintro (h' | h' | h' | h')
    · omega
    · omega
    · omega
    · exact h.map.1 h'
  have hmode := getnumber_decimal h.gamemode.1 (by have := h.gamemode; omega) (c := 32) (by decide)
  have htime := getnumber_decimal (le_of_lt h.timeused.1) h.timeused.2 (c := 32) (by decide)
  have hfirst : (guard ((entry fr ++ tail).head? ≠ some 47 ∧ entry fr ++ tail ≠ []) : Option Unit) =
    some () := if_pos hhead
  have hsane : (guard ¬(fr.gamemode < 0 ∨ 50 < fr.gamemode ∨ fr.timeused ≤ 0 ∨ fr.map = []) :
    Option Unit) = some () := if_pos hbad
  unfold parseline
  rw [hfirst, hword]
  simp only [Option.bind_eq_bind, Option.bind_some, hmode, ws_quote, hempty,
    getquote_append h.map.2.1, htime, getquote_append h.name.1, hsane]
  rfl

/-- The line of a record has no end in it, nor a terminating zero. -/
theorem entry_ne {fr : Flagrun} (h : Readable fr) {c : UInt8} (hc : c = lf ∨ c = 0) :
    c ∉ entry fr := by
  have hnum : isnumeral c = false := by
    rcases hc with rfl | rfl <;> decide
  have hmode := not_mem_decimal h.gamemode.1 hnum
  have htime := not_mem_decimal (le_of_lt h.timeused.1) hnum
  have hmap : c ∉ fr.map := by
    rcases hc with rfl | rfl
    · exact h.map.2.2.1
    · exact h.map.2.2.2
  have hname : c ∉ fr.name := by
    rcases hc with rfl | rfl
    · exact h.name.2.1
    · exact h.name.2.2
  have hword : c ∉ word "flagrun " ∧ c ∉ word " \"" ∧ c ∉ word "\" " ∧ c ∉ word "\"" := by
    rcases hc with rfl | rfl <;> decide
  unfold entry
  simp only [List.mem_append, not_or]
  exact ⟨⟨⟨⟨⟨⟨⟨⟨hword.1, hmode⟩, hword.2.1⟩, hmap⟩, hword.2.2.1⟩, htime⟩, hword.2.1⟩, hname⟩,
    hword.2.2.2⟩

/-- What the body of the loop sees of a line. -/
def parsecstr (line : List UInt8) : Option Flagrun :=
  parseline (line.takeWhile (· ≠ 0))

theorem parsecstr_entry {fr : Flagrun} (h : Readable fr) {tail : List UInt8} (ht : 0 ∉ tail) :
    parsecstr (entry fr ++ tail) = some fr := by
  have hall : ∀ c ∈ entry fr ++ tail, decide (c ≠ 0) = true := by
    intro c hc
    apply decide_eq_true
    rintro rfl
    rcases List.mem_append.mp hc with hc | hc
    · exact entry_ne h (Or.inr rfl) hc
    · exact ht hc
  unfold parsecstr
  rw [List.takeWhile_eq_self_iff.mpr hall]
  exact parseline_entry h tail

/-- The lines of the records, read one after the other. -/
theorem lines_entries {runs : List Flagrun} (h : ∀ fr ∈ runs, Readable fr) :
    (chop (fun c => decide (c = lf)) (MAXSTRLEN - 1)
      (runs.flatMap fun fr => entry fr ++ [lf])).filterMap parsecstr = runs := by
  induction runs with
  | nil =>
    rw [List.flatMap_nil, chop_nil]
    rfl
  | cons fr runs ih =>
    have hfr := h fr List.mem_cons_self
    have ih := ih fun r hr => h r (List.mem_cons_of_mem fr hr)
    have hnl : ∀ c ∈ entry fr, decide (c = lf) = false := by
      intro c hc
      apply decide_eq_false
      rintro rfl
      exact entry_ne hfr (Or.inl rfl) hc
    rw [List.flatMap_cons, List.append_assoc, List.singleton_append]
    rcases Nat.lt_or_ge (entry fr).length (MAXSTRLEN - 1) with hlt | hge
    · rw [chop_append _ hnl (by simp) hlt, List.filterMap_cons,
        parsecstr_entry hfr (by decide), ih]
    · -- the buffer is full before the end of the line, which is a line of its own then
      have hlen : (entry fr).length = MAXSTRLEN - 1 := le_antisymm hfr.length hge
      have hfind : (entry fr).findIdx? (fun c => decide (c = lf)) = none := by
        rw [List.findIdx?_eq_none_iff]
        exact hnl
      have hline := line_of_not_mem (fun c => decide (c = lf)) (n := 0) hfind
        (lf :: runs.flatMap fun fr => entry fr ++ [lf])
      rw [Nat.add_zero, hlen] at hline
      have hzero : ∀ l, line (fun c => decide (c = lf)) 0 l = [] := fun _ => rfl
      rw [hzero, List.append_nil] at hline
      have hne : entry fr ≠ [] := by
        intro hnil
        rw [hnil] at hlen
        cases hlen
      rw [chop_of_ne (by rw [hline]; exact hne), hline, List.drop_left]
      have hrest := chop_append (fun c => decide (c = lf)) (l := []) (a := lf) (n := MAXSTRLEN - 1)
        (by simp) (by simp) (by decide) (runs.flatMap fun fr => entry fr ++ [lf])
      have hblank : parsecstr ([] ++ [lf]) = none := by decide
      have hfull := parsecstr_entry hfr (show (0 : UInt8) ∉ ([] : List UInt8) by simp)
      rw [List.append_nil] at hfull
      rw [List.nil_append] at hrest
      rw [hrest, List.filterMap_cons, hfull, List.filterMap_cons, hblank, ih]

/-- **The file gives back the records it was written from.** -/
theorem lines_filetext {runs : List Flagrun} (h : ∀ fr ∈ runs, Readable fr) :
    (chop (fun c => decide (c = lf)) (MAXSTRLEN - 1) (filetext runs)).filterMap parsecstr =
      runs := by
  have hheader : ∀ c ∈ word "//Automatically generated by QServ: lists best flagruns",
      decide (c = lf) = false := by decide +kernel
  have hcomment : parsecstr
      (word "//Automatically generated by QServ: lists best flagruns" ++ [lf]) = none := by
    decide
  have hblank : parsecstr ([] ++ [lf]) = none := by decide
  have hrest := chop_append (fun c => decide (c = lf)) (l := []) (a := lf) (n := MAXSTRLEN - 1)
    (by simp) (by simp) (by decide) (runs.flatMap fun fr => entry fr ++ [lf])
  rw [List.nil_append] at hrest
  unfold filetext
  rw [List.append_assoc, List.append_assoc, List.singleton_append, List.singleton_append,
    chop_append _ hheader (by simp) (by decide), hrest, List.filterMap_cons, hcomment,
    List.filterMap_cons, hblank]
  exact lines_entries h

/-- The refills of the stream carry over what was not decoded of the file. -/
def CarriedFile (behind : Nat → UInt8) (bytes : List UInt8) : Prop :=
  Carried behind (openutf8file (placed bytes)).raw (openutf8file (placed bytes)).file

theorem placed_fst (bytes : List UInt8) : (placed bytes).map Prod.fst = bytes :=
  List.zipIdx_map_fst 0 bytes

/-- The file has no byte-order mark. -/
theorem body_filetext (runs : List Flagrun) :
    body (placed (encodeutf8 (filetext runs))) = placed (encodeutf8 (filetext runs)) := by
  unfold body
  rw [if_neg]
  intro hbom
  rw [List.map_take, placed_fst] at hbom
  have hfirst := congrArg List.head? hbom
  have hword : word "//Automatically generated by QServ: lists best flagruns" =
      47 :: word "/Automatically generated by QServ: lists best flagruns" := by decide
  have hencode : encode 47 = [47] := by decide
  unfold filetext at hfirst
  rw [hword, List.cons_append, List.cons_append, List.cons_append, encodeutf8, List.flatMap_cons,
    hencode] at hfirst
  simp [bom] at hfirst

/-- **The records are loaded as they were stored.** -/
theorem loadflagruns_filetext {behind : Nat → UInt8} {runs : List Flagrun}
    (h : ∀ fr ∈ runs, Readable fr)
    (hc : CarriedFile behind (encodeutf8 (filetext runs))) :
    loadflagruns behind (some (encodeutf8 (filetext runs))) = runs := by
  have hleft : (openutf8file (placed (encodeutf8 (filetext runs)))).left behind =
      text behind (placed (encodeutf8 (filetext runs))) := by
    rw [left_openutf8file, Carried.pending hc, body_eq, body_filetext]
  have hchars : (text behind (placed (encodeutf8 (filetext runs)))).map Prod.fst =
      filetext runs :=
    text_encodeutf8 (placed_fst _)
  have hnl : Utf8stream.newline = (fun c => decide (c = lf)) ∘ Prod.fst := rfl
  have hlines := lines_filetext h
  rw [← hchars, ← chop_map, List.filterMap_map, ← hnl] at hlines
  simp only [loadflagruns]
  rw [getlines_eq, hleft]
  exact hlines

/-! ## The best runs -/

/-- A record of a map and mode is the best of the runs, with the name of one who ran that time;
there is none if nobody ran. -/
def IsBest (history : List Flagrun) (gamemode : Int) (map : List UInt8) : Option Flagrun → Prop
  | none => ∀ fr ∈ history, is_flagrun_match fr gamemode map = false
  | some best => ∃ fr ∈ history, is_flagrun_match fr gamemode map = true ∧ best.name = fr.name ∧
      best.timeused = fr.timeused ∧
      ∀ fr' ∈ history, is_flagrun_match fr' gamemode map = true → fr.timeused ≤ fr'.timeused

/-- The records are the best runs so far. -/
def Records.Best (s : Records) : Prop :=
  ∀ gamemode map, IsBest s.history gamemode map (s.record gamemode map)

/-- A run on a map in a mode is one in every mode of its kind. -/
theorem match_congr {fr : Flagrun} {gamemode : Int} {map : List UInt8}
    (h : is_flagrun_match fr gamemode map = true) (r : Flagrun) :
    is_flagrun_match r fr.gamemode fr.map = is_flagrun_match r gamemode map := by
  simp only [is_flagrun_match] at h ⊢
  split at h
  · cases h
  · next hcat =>
    simp only [Bool.and_eq_true, decide_eq_true_eq] at h
    rw [h.1, h.2]

/-- A record with the name, time and mode of a run. -/
def Flagrun.beaten (r fr : Flagrun) : Flagrun :=
  { r with name := fr.name, timeused := fr.timeused, gamemode := fr.gamemode }

/-- A record that is beaten stays one of the same map and kind. -/
theorem match_beaten {r fr : Flagrun} (h : is_flagrun_match r fr.gamemode fr.map = true)
    (gamemode : Int) (map : List UInt8) :
    is_flagrun_match (r.beaten fr) gamemode map = is_flagrun_match r gamemode map := by
  simp only [is_flagrun_match, Flagrun.beaten] at h ⊢
  split at h
  · cases h
  · simp only [Bool.and_eq_true, decide_eq_true_eq] at h
    simp only [h.1]
    rfl

theorem setrecord_cons (r fr : Flagrun) (runs : List Flagrun) : setrecord fr (r :: runs) =
    if is_flagrun_match r fr.gamemode fr.map then r.beaten fr :: runs
    else r :: setrecord fr runs := rfl

/-- The record of the run's own map and kind is beaten. -/
theorem find_setrecord {fr : Flagrun} {gamemode : Int} {map : List UInt8}
    (h : is_flagrun_match fr gamemode map = true) (runs : List Flagrun) :
    (setrecord fr runs).find? (is_flagrun_match · gamemode map) =
      (runs.find? (is_flagrun_match · gamemode map)).map (·.beaten fr) := by
  induction runs with
  | nil => rfl
  | cons r runs ih =>
    rw [setrecord_cons, match_congr h]
    by_cases hr : is_flagrun_match r gamemode map
    · have hbeaten : is_flagrun_match (r.beaten fr) gamemode map = true := by
        rw [match_beaten (by rw [match_congr h]; exact hr), hr]
      rw [if_pos hr]
      simp only [List.find?_cons, hbeaten, hr]
      rfl
    · rw [if_neg hr]
      simp only [List.find?_cons, hr]
      exact ih

/-- The other records are as they were. -/
theorem find_setrecord_ne {fr : Flagrun} {gamemode : Int} {map : List UInt8}
    (h : is_flagrun_match fr gamemode map = false) {runs : List Flagrun}
    (hne : runs.find? (is_flagrun_match · fr.gamemode fr.map) ≠ none) :
    (setrecord fr runs).find? (is_flagrun_match · gamemode map) =
      runs.find? (is_flagrun_match · gamemode map) := by
  induction runs with
  | nil => rfl
  | cons r runs ih =>
    rw [setrecord_cons]
    by_cases hr : is_flagrun_match r fr.gamemode fr.map
    · -- what matches the run's own key matches no other one
      have hother : is_flagrun_match r gamemode map = false := by
        by_contra hm
        rw [Bool.not_eq_false] at hm
        simp only [is_flagrun_match] at h hr hm
        split at hm
        · cases hm
        · split at hr
          · cases hr
          · simp_all
      have hbeaten : is_flagrun_match (r.beaten fr) gamemode map = false := by
        rw [match_beaten hr, hother]
      rw [if_pos hr]
      simp only [List.find?_cons, hbeaten, hother]
    · rw [if_neg hr]
      simp only [List.find?_cons, hr] at hne
      rw [List.find?_cons, List.find?_cons, ih hne]

theorem mem_setrecord {fr r : Flagrun} {runs : List Flagrun} (h : r ∈ setrecord fr runs) :
    r ∈ runs ∨ ∃ r' ∈ runs, is_flagrun_match r' fr.gamemode fr.map = true ∧ r = r'.beaten fr := by
  induction runs with
  | nil => cases h
  | cons r' runs ih =>
    rw [setrecord_cons] at h
    split at h
    · next hm =>
      rcases List.mem_cons.mp h with rfl | h
      · exact Or.inr ⟨r', List.mem_cons_self, hm, rfl⟩
      · exact Or.inl (List.mem_cons_of_mem r' h)
    · rcases List.mem_cons.mp h with rfl | h
      · exact Or.inl List.mem_cons_self
      · rcases ih h with h | ⟨q, hq, hm, rfl⟩
        · exact Or.inl (List.mem_cons_of_mem r' h)
        · exact Or.inr ⟨q, List.mem_cons_of_mem r' hq, hm, rfl⟩

theorem cleanname_eq {name : List UInt8} (h : 12 ∉ name) : cleanname name = name := by
  fun_induction cleanname name with
  | case1 => rfl
  | case2 => simp at h
  | case3 => rfl
  | case4 => simp at h
  | case5 c d src hc ih =>
    rw [ih fun hm => h (List.mem_cons_of_mem c hm)]

namespace Records

/-- The run makes a record. -/
def Accepted (s : Records) (fr : Flagrun) : Prop :=
  1500 < fr.timeused ∧ ∀ best, s.record fr.gamemode fr.map = some best →
    fr.timeused ≤ best.timeused

/-- An event that no record is lost or altered by: a run that makes a record can be read from its
line, and if it is the first one its name has no colour codes and there is room for it; the server
comes up from a file that all first records were written to, and the stream carries over what it
does not decode of it. -/
def Survives (behind : Nat → UInt8) (s : Records) : RecordEvent → Prop
  | .doflagrun map gamemode name timeused =>
    s.Accepted { map, gamemode, name, timeused } →
      Readable { map, gamemode, name, timeused } ∧
        (s.record gamemode map = none → 12 ∉ name ∧ s.runs.length < 1024)
  | .noclients => True
  | .restart orderly =>
    (orderly = true ∨ s.unsaved = false) ∧
      ∀ bytes, (if orderly then s.storeflagruns else s).file = some bytes →
        CarriedFile behind bytes

/-- **The invariant**: the records are the best runs, each can be read from its line, and the file
holds them unless a first record was made since it was written. -/
structure Kept (s : Records) : Prop where
  best : s.Best
  readable : ∀ fr ∈ s.runs, Readable fr
  stored : s.unsaved = false →
    s.file = some (encodeutf8 (filetext s.runs)) ∨ (s.file = none ∧ s.runs = [])

variable {s : Records} {behind : Nat → UInt8}

theorem Kept.empty : Kept {} where
  best := by
    intro gamemode map
    simp [record, IsBest]
  readable := by simp
  stored := fun _ => Or.inr ⟨rfl, rfl⟩

theorem Kept.storeflagruns (h : s.Kept) : s.storeflagruns.Kept where
  best := h.best
  readable := h.readable
  stored := fun _ => Or.inl rfl

theorem Kept.noclients (h : s.Kept) : s.noclients.Kept := by
  simp only [Records.noclients]
  split
  · exact ⟨h.best, h.readable, fun _ => Or.inl rfl⟩
  · exact ⟨h.best, h.readable, h.stored⟩

/-- What is loaded are the records. -/
theorem Kept.restart {orderly : Bool} (h : s.Kept) (hs : Survives behind s (.restart orderly)) :
    (s.restart behind orderly).Kept ∧ (s.restart behind orderly).runs = s.runs := by
  obtain ⟨hsaved, hcarried⟩ := hs
  have hkept : (if orderly then s.storeflagruns else s).Kept := by
    split
    · exact h.storeflagruns
    · exact h
  have hunsaved : (if orderly then s.storeflagruns else s).unsaved = false := by
    cases orderly with
    | true => rfl
    | false => simpa using hsaved
  have hruns : (if orderly then s.storeflagruns else s).runs = s.runs := by
    cases orderly <;> rfl
  have hhistory : (if orderly then s.storeflagruns else s).history = s.history := by
    cases orderly <;> rfl
  have hload : loadflagruns behind (if orderly then s.storeflagruns else s).file = s.runs := by
    rcases hkept.stored hunsaved with hfile | ⟨hfile, hnil⟩
    · rw [hfile, loadflagruns_filetext hkept.readable (hcarried _ hfile), hruns]
    · rw [hfile, ← hruns, hnil]
      rfl
  refine ⟨⟨?_, ?_, ?_⟩, hload⟩
  · intro gamemode map
    simp only [Records.restart, record, hload, hhistory]
    exact h.best gamemode map
  · intro fr hfr
    simp only [Records.restart, hload] at hfr
    exact h.readable fr hfr
  · intro _
    simp only [Records.restart, hload]
    have := hkept.stored hunsaved
    rwa [hruns] at this

/-- The runs a record is the best of, with one more. -/
theorem IsBest.snoc {history : List Flagrun} {gamemode : Int} {map : List UInt8}
    {r : Option Flagrun} (h : IsBest history gamemode map r) {fr : Flagrun}
    (hfr : is_flagrun_match fr gamemode map = true →
      ∃ best, r = some best ∧ best.timeused ≤ fr.timeused) :
    IsBest (history ++ [fr]) gamemode map r := by
  cases r with
  | none =>
    intro q hq
    rcases List.mem_append.mp hq with hq | hq
    · exact h q hq
    · obtain rfl := List.mem_singleton.mp hq
      by_contra hm
      obtain ⟨best, hbest, -⟩ := hfr (by simpa using hm)
      cases hbest
  | some best =>
    obtain ⟨q, hq, hmatch, hname, htime, hmin⟩ := h
    refine ⟨q, List.mem_append_left _ hq, hmatch, hname, htime, ?_⟩
    intro q' hq' hm'
    rcases List.mem_append.mp hq' with hq' | hq'
    · exact hmin q' hq' hm'
    · obtain rfl := List.mem_singleton.mp hq'
      obtain ⟨b, hb, hle⟩ := hfr hm'
      obtain rfl := Option.some.inj hb
      omega

/-- The last run is the best one if it is no worse than the record before it. -/
theorem IsBest.last {history : List Flagrun} {gamemode : Int} {map : List UInt8}
    {r : Option Flagrun} (h : IsBest history gamemode map r) {fr : Flagrun}
    (hm : is_flagrun_match fr gamemode map = true)
    (hle : ∀ best, r = some best → fr.timeused ≤ best.timeused) {best : Flagrun}
    (hname : best.name = fr.name) (htime : best.timeused = fr.timeused) :
    IsBest (history ++ [fr]) gamemode map (some best) := by
  refine ⟨fr, List.mem_append_right _ List.mem_cons_self, hm, hname, htime, ?_⟩
  intro q hq hmatch
  rcases List.mem_append.mp hq with hq | hq
  · cases r with
    | none =>
      have := h q hq
      rw [hmatch] at this
      cases this
    | some b =>
      obtain ⟨w, -, -, -, hw, hmin⟩ := h
      have hwq := hmin q hq hmatch
      have hfb := hle b rfl
      omega
  · rw [List.mem_singleton.mp hq]

theorem record_note (fr : Flagrun) : (s.note fr).record = s.record := rfl

/-- A run that makes no record. -/
theorem Kept.note (h : s.Kept) {fr best : Flagrun}
    (hbest : s.record fr.gamemode fr.map = some best) (hlt : best.timeused < fr.timeused) :
    (s.note fr).Kept where
  best := by
    intro gamemode map
    apply IsBest.snoc (h.best gamemode map)
    intro hm
    refine ⟨best, ?_, le_of_lt hlt⟩
    rw [← hbest]
    unfold record
    simp only [match_congr hm]
  readable := h.readable
  stored := h.stored

/-- A first record. -/
theorem Kept.addrecord (h : s.Kept) {fr : Flagrun} (hr : Readable fr)
    (hnone : s.record fr.gamemode fr.map = none) (hname : 12 ∉ fr.name) :
    ((s.note fr).addrecord fr).Kept where
  best := by
    have hclean : ({ fr with name := cleanname fr.name } : Flagrun) = fr := by
      rw [cleanname_eq hname]
    intro gamemode map
    have hrecord : ((s.note fr).addrecord fr).record gamemode map =
        (s.record gamemode map).or
          (if is_flagrun_match fr gamemode map then some fr else none) := by
      simp only [record, Records.addrecord, hclean, List.find?_append, Records.note]
      congr 1
      simp only [List.find?_cons, List.find?_nil]
      cases is_flagrun_match fr gamemode map <;> rfl
    rw [hrecord]
    by_cases hm : is_flagrun_match fr gamemode map = true
    · have hold : s.record gamemode map = none := by
        rw [← hnone]
        unfold record
        simp only [match_congr hm]
      rw [hold, if_pos hm, Option.none_or]
      refine IsBest.last (h.best gamemode map) hm ?_ rfl rfl
      intro best hb
      rw [hold] at hb
      cases hb
    · rw [if_neg hm, Option.or_none]
      exact IsBest.snoc (h.best gamemode map) fun hm' => absurd hm' hm
  readable := by
    intro q hq
    rcases List.mem_append.mp hq with hq | hq
    · exact h.readable q hq
    · rw [List.mem_singleton.mp hq, cleanname_eq hname]
      exact hr
  stored := by
    intro hsaved
    cases hsaved

/-- A better one. -/
theorem Kept.improve (h : s.Kept) {fr best : Flagrun} (hr : Readable fr)
    (hbest : s.record fr.gamemode fr.map = some best) (hle : fr.timeused ≤ best.timeused) :
    (((s.note fr).improve fr).storeflagruns).Kept where
  best := by
    intro gamemode map
    have hrecord : (((s.note fr).improve fr).storeflagruns).record gamemode map =
        (setrecord fr s.runs).find? (is_flagrun_match · gamemode map) := rfl
    rw [hrecord]
    by_cases hm : is_flagrun_match fr gamemode map = true
    · have hold : s.record gamemode map = some best := by
        rw [← hbest]
        unfold record
        simp only [match_congr hm]
      have hfind : s.runs.find? (is_flagrun_match · gamemode map) = some best := hold
      rw [find_setrecord hm, hfind]
      refine IsBest.last (h.best gamemode map) hm ?_ rfl rfl
      intro b hb
      rw [hold] at hb
      rw [← Option.some.inj hb]
      exact hle
    · have hne : s.runs.find? (is_flagrun_match · fr.gamemode fr.map) ≠ none := by
        intro hnone
        have hfind : s.runs.find? (is_flagrun_match · fr.gamemode fr.map) = some best := hbest
        rw [hnone] at hfind
        cases hfind
      rw [find_setrecord_ne (by simpa using hm) hne]
      exact IsBest.snoc (h.best gamemode map) fun hm' => absurd hm' hm
  readable := by
    intro q hq
    rcases mem_setrecord hq with hq | ⟨r, hmem, hmatch, rfl⟩
    · exact h.readable q hq
    · -- the record keeps its map, which is that of the run
      have hmap : r.map = fr.map := by
        simp only [is_flagrun_match] at hmatch
        split at hmatch
        · cases hmatch
        · simp only [Bool.and_eq_true, decide_eq_true_eq] at hmatch
          exact hmatch.2
      have hbeaten : r.beaten fr = fr := by
        unfold Flagrun.beaten
        rw [hmap]
      rw [hbeaten]
      exact hr
  stored := fun _ => Or.inl rfl

/-- An event that no record is lost or altered by keeps the invariant. -/
theorem Kept.next {e : RecordEvent} (h : s.Kept) (he : Survives behind s e) :
    (s.next behind e).Kept := by
  cases e with
  | noclients => exact h.noclients
  | restart orderly => exact (h.restart he).1
  | doflagrun map gamemode name timeused =>
    simp only [Records.next, Records.doflagrun]
    split
    · exact h
    · next htime =>
      split
      · next hnone =>
        obtain ⟨hr, hfirst⟩ := he ⟨by simpa using htime, by rw [hnone]; simp⟩
        obtain ⟨hname, hroom⟩ := hfirst hnone
        rw [if_neg (by omega)]
        exact h.addrecord hr hnone hname
      · next best hbest =>
        split
        · next hle =>
          obtain ⟨hr, -⟩ := he ⟨by simpa using htime, by
            intro b hb
            rw [hbest] at hb
            rw [← Option.some.inj hb]
            exact hle⟩
          exact h.improve hr hbest hle
        · next hlt => exact h.note hbest (lt_of_not_ge hlt)

end Records

open Records Run

/-- **The records are the best runs**, those in memory and so those loaded as the server comes up,
in every run of events that no record is lost or altered by. -/
theorem records_kept (behind : Nat → UInt8) {es : List RecordEvent} {s : Records}
    (hrun : Steps (fun s e => (Except.ok (s.next behind e) : Except Empty Records))
      (Survives behind) {} es s) : s.Best := by
  have hkept : s.Kept := by
    apply hrun.invariant Kept
    · intro s e t hs he ht
      obtain rfl := Except.ok.inj ht
      exact hs.next he
    · exact .empty
  exact hkept.best

/-- A first record that is beaten: the file was written then, and the server comes up from it. -/
theorem records_kept_beaten : ∃ s, Steps
    (fun s e => (Except.ok (s.next (fun _ => 0) e) : Except Empty Records))
    (Survives fun _ => 0) {}
    [.doflagrun (word "abbey") 12 (word "bob") 8000, .doflagrun (word "abbey") 12 (word "al") 7000,
      .noclients, .restart false] s ∧ s.history.length = 2 ∧ s.Best := by
  obtain ⟨s, hrun, hs⟩ : ∃ s, Steps
      (fun s e => (Except.ok (s.next (fun _ => 0) e) : Except Empty Records))
      (Survives fun _ => 0) {}
      [.doflagrun (word "abbey") 12 (word "bob") 8000,
        .doflagrun (word "abbey") 12 (word "al") 7000, .noclients, .restart false] s ∧
      s.history.length = 2 := by
    refine ⟨_, .cons ?_ rfl (.cons ?_ rfl (.cons trivial rfl (.cons ?_ rfl (.nil _)))), rfl⟩
    · intro _
      decide +kernel
    · intro _
      exact ⟨by decide +kernel, fun h => absurd h (by decide +kernel)⟩
    · refine ⟨by decide +kernel, ?_⟩
      intro bytes hbytes
      have hb : bytes = encodeutf8 (filetext
          [{ map := word "abbey", gamemode := 12, name := word "al", timeused := 7000 }]) := by
        rw [← Option.some.inj hbytes]
        decide +kernel
      subst hb
      apply carried_of_short <;> decide +kernel
  exact ⟨s, hrun, hs, records_kept _ hrun⟩

/-- The runs and restarts there can be: runs in a kind of ctf that are no cheats, fewer than 1024
maps and kinds of them, and a server that comes up again after it has emptied. -/
def Played (s : Records) : RecordEvent → Prop
  | .doflagrun _ gamemode _ timeused =>
    get_ctf_category gamemode ≠ 0 ∧ 1500 < timeused ∧ s.runs.length < 1024
  | .noclients => True
  | .restart _ => s.emptied = true

/-- A first record is not written as the server empties, and is gone when it comes up again. -/
theorem first_record_lost : ∃ s, Steps
    (fun s e => (Except.ok (s.next (fun _ => 0) e) : Except Empty Records)) Played {}
    [.doflagrun (word "abbey") 12 (word "bob") 8000, .noclients, .restart false] s ∧
      ¬s.Best := by
  refine ⟨_, .cons ?_ rfl (.cons trivial rfl (.cons rfl rfl (.nil _))), ?_⟩
  · exact ⟨by decide, by decide, by decide⟩
  · intro h
    have := h 12 (word "abbey")
      { map := word "abbey", gamemode := 12, name := word "bob", timeused := 8000 }
      List.mem_cons_self
    revert this
    decide

end QServ
