import QServ.Lib.Run
import QServ.Lib.Segments
import QServ.Server.Rotation
import QServ.Server.Session

/-!
# The commands of the map rotation

`maprotation` adds a group of entries to the rotation and closes it with an entry of no modes,
`maprotationreset` empties it.  An entry of the mode `*` stands for the modes that no other entry
names, which may be none.

* `genmodemask`, `addmaprotations`: the entries of a command.
* `Rotating`: the rotation is empty, or the current entry is one of it and no separator.
* `findmaprotation_spec`: what is found matches, and nothing is found only if nothing matches.
* `rotation_exact`: in every run, and in a group whose entries all have a mode `rotatemap` goes
  through the entries in order, again and again.
-/

namespace QServ

/-! ## The modes of an entry -/

/-- The names of `gamemodes`, in order. -/
def modenames : List String :=
  [ "SP", "DMSP", "demo", "ffa", "coop edit", "teamplay", "instagib", "insta team", "efficiency",
    "effic team", "tactics", "tac team", "capture", "regen capture", "ctf", "insta ctf", "protect",
    "insta protect", "hold", "insta hold", "effic ctf", "effic protect", "effic hold", "collect",
    "insta collect", "effic collect" ]

/-- The inner loop of `searchmodename`, which skips the blanks of the name. -/
def matchname : List Char → List Char → List Char × List Char
  | h, [] => (h, [])
  | [], n => ([], n)
  | c :: h, d :: n =>
    if c = d then matchname h n
    else if c = ' ' then matchname h (d :: n)
    else (c :: h, d :: n)

/-- The outer loop: `first` is looked for again and again, and `needle` behind it. -/
def searchbehind (first : Char) (needle : List Char) : List Char → Bool
  | [] => false
  | c :: haystack =>
    if c = first then
      match matchname haystack needle with
      | (_, []) => true
      | (h, '.' :: _) => decide (h = [])
      | _ => searchbehind first needle haystack
    else searchbehind first needle haystack

/-- `searchmodename(haystack, needle)`. -/
def searchmodename (haystack : String) (needle : List Char) : Bool :=
  match needle with
  | [] => true
  | '.' :: n =>
    match matchname haystack.toList n with
    | (_, []) => true
    | (h, '.' :: _) => decide (h = [])
    | _ => false
  | c :: n => searchbehind c n haystack.toList

/-- `modemask |= 1 << k`. -/
def setbit (modemask k : Nat) : Nat := modemask ||| 1 <<< k

/-- `modemask &= ~(1 << k)`. -/
def clearbit (modemask k : Nat) : Nat := modemask ^^^ (modemask &&& 1 <<< k)

/-- `loopk(NUMGAMEMODES) if(test) op`. -/
def loopmodes (test : Nat → Nat → Bool) (op : Nat → Nat → Nat) (modemask : Nat) : Nat :=
  (List.range NUMGAMEMODES).foldl (fun m k => if test m k then op m k else m) modemask

/-- Does the name of mode `k` contain the text? -/
def namedmode (mode : List Char) (k : Nat) : Bool := searchmodename (modenames.getD k "") mode

/-- The part of `genmodemask` for a single mode, named by its number or its name. -/
def changemode (op : Nat → Nat → Nat) (modemask : Nat) (mode : List Char) : Nat :=
  let modenum : Option Int :=
    if mode.head?.any isdigit then some (Server.atoi (String.ofList mode))
    else ((List.range NUMGAMEMODES).find? (namedmode mode)).map fun k => k + STARTGAMEMODE
  match modenum with
  | some n => if mValid n then op modemask (n - STARTGAMEMODE).toNat else modemask
  | none => modemask

/-- One turn of `genmodemask`. -/
def addmode (modemask : Nat) (mode : String) : Nat :=
  match mode.toList with
  | '*' :: _ =>
    loopmodes (fun _ k => mCheckNot (k + STARTGAMEMODE) [.demo, .edit, .localOnly]) setbit
      (setbit modemask NUMGAMEMODES)
  | '!' :: '?' :: mode => loopmodes (fun _ => namedmode mode) clearbit modemask
  | '?' :: mode => loopmodes (fun _ => namedmode mode) setbit modemask
  | '!' :: mode => changemode clearbit modemask mode
  | mode => changemode setbit modemask mode

/-- `genmodemask(modes)`. -/
def genmodemask (modes : List String) : Nat := modes.foldl addmode 0

namespace Server

variable (s : Server)

/-! ## The commands -/

/-- `addmaprotation(modemask, map)`: without a map only the modes for editing are kept. -/
def addmaprotation (modemask : Nat) (map : String) : Server :=
  let modemask := if map = "" then
      loopmodes (fun m k => m.testBit k && !mCheck (k + STARTGAMEMODE) [.edit]) clearbit modemask
    else modemask
  if modemask = 0 then s
  else
    { s with
      rotexclude := if modemask.testBit NUMGAMEMODES then s.rotexclude
        else s.rotexclude ||| modemask,
      maprotations := s.maprotations ++
        [{ modes := modemask, map := String.ofList (map.toList.take (MAXSTRLEN - 1)) }] }

/-- The entries for a list of modes and a list of maps. -/
def addmaps (modes maps : List String) : Server :=
  let modemask := genmodemask modes
  if maps = [] then s.addmaprotation modemask ""
  else maps.foldl (fun s map => s.addmaprotation modemask map) s

/-- The separator at the end of `addmaprotations`. -/
def closegroup : Server :=
  match s.maprotations.getLast? with
  | some rot =>
    if rot.modes ≠ 0 then { s with maprotations := s.maprotations ++ [{ modes := 0, map := "" }] }
    else s
  | none => s

/-- `maprotation`: pairs of lists, taken apart by `explodelist`. -/
def addmaprotations (args : List (List String × List String)) : Server :=
  (args.foldl (fun s a => s.addmaps a.1 a.2) s).closegroup

/-- `maprotationreset`. -/
def maprotationreset : Server :=
  { s with maprotations := [], curmaprotation := 0, rotexclude := 0 }

/-- What happens to the rotation, and to the mode and the map that are played. -/
inductive RotationEvent where
  | maprotation (args : List (List String × List String))
  | maprotationreset
  | rotatemap (next : Bool)
  | changemap (map : String) (mode : Int)
  deriving DecidableEq, Repr

/-- One event. -/
def rotationStep (s : Server) : RotationEvent → Except Fault Server
  | .maprotation args => .ok (s.addmaprotations args)
  | .maprotationreset => .ok s.maprotationreset
  | .rotatemap next => s.rotatemap next
  | .changemap map mode => .ok (s.changemap map mode)

/-! ## What is found -/

variable {s} {mode : Int} {map : String}

/-- The entry at a place is no separator. -/
def place (s : Server) (i : Nat) : Bool := s.rotmodes i

theorem place_iff {i : Nat} :
    s.place i = true ↔ ∃ rot, s.maprotations[i]? = some rot ∧ rot.modes ≠ 0 := by
  unfold place rotmodes
  rw [if_neg (by omega)]
  cases h : s.maprotations[(i : Int).toNat]? with
  | none =>
    have : s.maprotations[i]? = none := h
    simp [this]
  | some rot =>
    have : s.maprotations[i]? = some rot := h
    simp [this]

theorem place_of_length {i : Nat} (h : s.maprotations.length ≤ i) : s.place i = false := by
  by_contra hne
  obtain ⟨rot, hrot, -⟩ := place_iff.mp (by simpa using hne)
  rw [List.getElem?_eq_none h] at hrot
  cases hrot

theorem place_congr {t : Server} (h : t.maprotations = s.maprotations) : t.place = s.place := by
  funext i
  unfold place rotmodes
  rw [h]

theorem rotstart_eq (i : Nat) : s.rotstart i = Segments.start s.place i := by
  induction i with
  | zero => rfl
  | succ i ih =>
    unfold rotstart Segments.start
    change (if s.place i = true then s.rotstart i else (i : Int) + 1) = _
    split
    · exact ih
    · rfl

/-- **The next entry** is the successor in the group. -/
theorem nextmaprotation_eq {i : Nat} (h : s.curmaprotation = i) :
    s.nextmaprotation = Segments.next s.place i := by
  unfold nextmaprotation Segments.next
  rw [h, show ((i : Int) + 1).toNat = i + 1 by omega, rotstart_eq]
  change (if s.place (i + 1) = true then (i : Int) + 1 else _) = _
  split
  · rfl
  · rfl

/-- The entry at a place matches the mode and the map. -/
def Found (s : Server) (mode : Int) (map : String) (i : Nat) : Prop :=
  ∃ rot, s.maprotations[i]? = some rot ∧ rot.matches_ s.rotexclude mode map = true

/-- A separator matches nothing. -/
theorem modes_ne_zero_of_matches {rot : MapRotation} {exclude : Nat}
    (h : rot.matches_ exclude mode map = true) : rot.modes ≠ 0 := by
  intro h0
  unfold MapRotation.matches_ MapRotation.hasmode MapRotation.modebit at h
  rw [h0, Nat.zero_testBit, Bool.false_and, Bool.false_and] at h
  cases h

theorem Found.place {i : Nat} (h : s.Found mode map i) : s.place i = true := by
  obtain ⟨rot, hrot, hmatch⟩ := h
  exact place_iff.mpr ⟨rot, hrot, modes_ne_zero_of_matches hmatch⟩

theorem rotsearch_spec {n i j : Nat} (h : s.rotsearch mode map n i = some j) :
    s.Found mode map j := by
  induction n generalizing i with
  | zero => cases h
  | succ n ih =>
    unfold rotsearch at h
    split at h
    · cases h
    · next rot hrot =>
      split at h
      · cases h
      · split at h
        · next hmatch =>
          obtain rfl := Option.some.inj h
          exact ⟨rot, hrot, hmatch⟩
        · exact ih h

/-- One turn of the last loop of `findmaprotation`. -/
def bestrot (s : Server) (mode : Int) (map : String) (best : Int) (i : Nat) : Int :=
  match s.maprotations[i]? with
  | none => best
  | some rot =>
    if rot.matches_ s.rotexclude mode map then
      if best < 0 then (i : Int)
      else match s.maprotations[best.toNat]? with
        | some b => if b.includes rot then (i : Int) else best
        | none => best
    else best

/-- A turn keeps what was found or takes the entry it looks at, which matches then. -/
theorem bestrot_spec {best : Int} (h : best = -1 ∨ 0 ≤ best) (i : Nat) :
    (s.bestrot mode map best i = best ∧ (s.Found mode map i → best ≠ -1)) ∨
      (s.bestrot mode map best i = i ∧ s.Found mode map i) := by
  unfold bestrot
  cases hrot : s.maprotations[i]? with
  | none =>
    refine Or.inl ⟨rfl, fun ⟨rot, hrot', _⟩ => ?_⟩
    rw [hrot] at hrot'
    cases hrot'
  | some rot =>
    simp only
    split
    · next hmatch =>
      have hfound : s.Found mode map i := ⟨rot, hrot, hmatch⟩
      rcases h with rfl | h0
      · exact Or.inr ⟨if_pos (by decide), hfound⟩
      · rw [if_neg (by omega)]
        have hne : best ≠ -1 := by omega
        split
        · split
          · exact Or.inr ⟨rfl, hfound⟩
          · exact Or.inl ⟨rfl, fun _ => hne⟩
        · exact Or.inl ⟨rfl, fun _ => hne⟩
    · next hno =>
      refine Or.inl ⟨rfl, fun ⟨rot', hrot', hmatch⟩ => ?_⟩
      obtain rfl := Option.some.inj (hrot.symm.trans hrot')
      exact (hno hmatch).elim

/-- The best of the first `n` entries matches, and is none only if none of them does. -/
theorem foldl_bestrot (s : Server) (mode : Int) (map : String) (n : Nat) :
    ((List.range n).foldl (s.bestrot mode map) (-1) = -1 ∧ ∀ i < n, ¬ s.Found mode map i) ∨
      ∃ i : Nat, (List.range n).foldl (s.bestrot mode map) (-1) = i ∧ s.Found mode map i := by
  induction n with
  | zero => exact Or.inl ⟨rfl, fun i hi => absurd hi (Nat.not_lt_zero i)⟩
  | succ n ih =>
    rw [List.range_succ, List.foldl_append]
    simp only [List.foldl_cons, List.foldl_nil]
    generalize (List.range n).foldl (s.bestrot mode map) (-1) = best at ih
    have h : best = -1 ∨ 0 ≤ best := by
      rcases ih with ⟨hb, -⟩ | ⟨i, hi, -⟩
      · exact Or.inl hb
      · exact Or.inr (by omega)
    rcases bestrot_spec h n with ⟨heq, hkept⟩ | ⟨heq, hfound⟩
    · rw [heq]
      rcases ih with ⟨hb, hnone⟩ | hsome
      · refine Or.inl ⟨hb, fun i hi hfound => ?_⟩
        rcases Nat.lt_or_eq_of_le (Nat.le_of_lt_succ hi) with hlt | rfl
        · exact hnone i hlt hfound
        · exact hkept hfound hb
      · exact Or.inr hsome
    · exact Or.inr ⟨n, heq, hfound⟩

theorem rotbest_spec (s : Server) (mode : Int) (map : String) :
    (s.rotbest mode map = -1 ∧ ∀ i, ¬ s.Found mode map i) ∨
      ∃ i : Nat, s.rotbest mode map = i ∧ s.Found mode map i := by
  have hloop : s.rotbest mode map =
      (List.range s.maprotations.length).foldl (s.bestrot mode map) (-1) := rfl
  rw [hloop]
  refine (foldl_bestrot s mode map _).imp (fun ⟨hb, hnone⟩ => ⟨hb, fun i hfound => ?_⟩) id
  obtain ⟨rot, hrot, -⟩ := id hfound
  exact hnone i (List.getElem?_eq_some_iff.mp hrot).1 hfound

/-- **What is found** matches the mode and the map, and nothing is found only if no entry of the
rotation does. -/
theorem findmaprotation_spec (s : Server) (mode : Int) (map : String) :
    (s.findmaprotation mode map = -1 ∧ ∀ i, ¬ s.Found mode map i) ∨
      ∃ i : Nat, s.findmaprotation mode map = i ∧ s.Found mode map i := by
  unfold findmaprotation
  simp only
  split
  · next i hi => exact Or.inr ⟨i, rfl, rotsearch_spec hi⟩
  · split
    · next i hi => exact Or.inr ⟨i, rfl, rotsearch_spec hi⟩
    · exact rotbest_spec s mode map

/-- The current entry is preferred. -/
theorem findmaprotation_eq {i : Nat} (hcur : s.curmaprotation = i) (h : s.Found mode map i) :
    s.findmaprotation mode map = i := by
  obtain ⟨rot, hrot, hmatch⟩ := h
  have hlt := (List.getElem?_eq_some_iff.mp hrot).1
  have hsearch : s.rotsearch mode map (s.maprotations.length - i) i = some i := by
    rw [show s.maprotations.length - i = (s.maprotations.length - i - 1) + 1 by omega]
    unfold rotsearch
    rw [hrot]
    simp only
    rw [if_neg (modes_ne_zero_of_matches hmatch), if_pos hmatch]
  unfold findmaprotation
  rw [hcur, show (max (i : Int) 0).toNat = i by omega]
  simp only
  rw [hsearch]

/-! ## A change of the map -/

/-- What the rotation goes by. -/
def rotation (s : Server) : List MapRotation × Int × Nat × Int × String :=
  (s.maprotations, s.curmaprotation, s.rotexclude, s.gamemode, s.smapname)

theorem rotation_changegamespeed (s : Server) (val : Int) :
    (s.changegamespeed val).rotation = s.rotation := by
  unfold changegamespeed
  simp only
  split <;> rfl

theorem rotation_pausegame (s : Server) (val : Bool) : (s.pausegame val).rotation = s.rotation := by
  unfold pausegame
  split <;> rfl

theorem rotation_clearai (s : Server) : s.clearai.rotation = s.rotation := by
  have h := congrArg rotation (fixtures_clearai s)
  exact h

theorem rotation_kicknonlocalclients (s : Server) (reason : Disc) :
    (s.kicknonlocalclients reason).rotation = s.rotation := by
  unfold kicknonlocalclients
  induction List.range MAXCLIENTS.toNat generalizing s with
  | nil => rfl
  | cons i l ih =>
    rw [List.foldl_cons, ih]
    exact of_disconnectClient rotation (fun _ => rfl) (fun _ => rfl) rotation_changegamespeed s i
      reason

theorem rotation_mapchanges (s : Server) : s.mapchanges.rotation = s.rotation := by
  unfold mapchanges
  generalize s.clients = l
  induction l generalizing s with
  | nil => rfl
  | cons n l ih =>
    rw [List.foldl_cons, ih]
    rfl

/-- **A change of the map** leaves the rotation where it is. -/
theorem rotation_changemap (s : Server) (map : String) (mode : Int) :
    (s.changemap map mode).rotation =
      (s.maprotations, s.curmaprotation, s.rotexclude, mode, map) := by
  have hstart : (s.startmap map mode).rotation =
      (s.maprotations, s.curmaprotation, s.rotexclude, mode, map) := by
    have h := (rotation_clearai ((s.pausegame false).changegamespeed
      (s.pausegame false).cfg.defaultgamespeed)).trans
      ((rotation_changegamespeed _ _).trans (rotation_pausegame s false))
    simp only [rotation, Prod.mk.injEq] at h
    simp only [rotation, startmap, h]
  unfold changemap announcemap
  simp only
  rw [rotation_mapchanges]
  generalize s.startmap map mode = u at hstart ⊢
  have hsend : ∀ u : Server, (u.sendf (-1) 1 [.int MsgType.nMapchange.code, .str u.smapname,
      .int u.gamemode, .int 1]).rotation = u.rotation := fun _ => rfl
  rw [hsend]
  split
  · exact hstart
  · rw [rotation_kicknonlocalclients, hstart]

/-! ## One turn of the rotation -/

/-- The rotation is empty, or the current entry is one of it and no separator. -/
structure Rotating (s : Server) : Prop where
  first : s.maprotations = [] ∨ s.place 0 = true
  current : s.maprotations = [] ∧ s.curmaprotation = 0 ∨
    ∃ i : Nat, s.curmaprotation = i ∧ s.place i = true

/-- The current entry matches the mode and the map that are played. -/
def Plays (s : Server) (i : Nat) : Prop :=
  s.curmaprotation = i ∧ s.Found s.gamemode s.smapname i

/-- An entry has a mode that can be played. -/
def HasMode (s : Server) (i : Nat) : Prop :=
  ∃ rot, s.maprotations[i]? = some rot ∧ ∃ k < NUMGAMEMODES, rot.modebit s.rotexclude k = true

/-- An entry that has a mode is played in one of them, in the current one if it has that. -/
theorem hasmode_findmode {rot : MapRotation} {exclude : Nat}
    (h : ∃ k < NUMGAMEMODES, rot.modebit exclude k = true) (mode : Int) :
    rot.hasmode exclude (rot.findmode exclude mode) = true := by
  unfold MapRotation.findmode
  split
  · next hmode => exact hmode
  · cases hfind : (List.range NUMGAMEMODES).find? (rot.modebit exclude) with
    | none =>
      obtain ⟨k, hk, hbit⟩ := h
      exact absurd hbit (List.find?_eq_none.mp hfind k (List.mem_range.mpr hk))
    | some k =>
      have hbit := List.find?_some hfind
      simp only [MapRotation.hasmode]
      rw [show ((k : Int) + STARTGAMEMODE - STARTGAMEMODE).toNat = k by omega]
      exact hbit

/-- The successor of an entry is one. -/
theorem place_next {i : Nat} (h : s.place i = true) :
    s.place (Segments.next s.place i) = true := by
  obtain ⟨a, b, hseg, hi, hi'⟩ := Segments.exists_segment (fun j => place_of_length) h
  have hmem := hseg.iterate_mem hi hi' 1
  exact hseg.inside _ hmem.1 hmem.2

/-- The entry that `rotatemap` chooses: the successor of the one that is played, where the
rotation has that. -/
theorem advance_spec (h : s.Rotating) (hne : s.maprotations ≠ []) (next : Bool) :
    ∃ i : Nat, s.advance next = { s with curmaprotation := i } ∧ s.place i = true ∧
      (next = true → ∀ j : Nat, s.findmaprotation s.gamemode s.smapname = j →
        i = Segments.next s.place j) := by
  have hfirst := h.first.resolve_left hne
  cases next with
  | false =>
    obtain ⟨hnil, -⟩ | ⟨i, hi, hplace⟩ := h.current
    · exact absurd hnil hne
    · refine ⟨i, ?_, hplace, fun hnext => by cases hnext⟩
      rw [← hi]
      rfl
  | true =>
    unfold advance
    simp only [if_true]
    rcases findmaprotation_spec s s.gamemode s.smapname with ⟨hnone, -⟩ | ⟨j, hj, hfound⟩
    · -- the map is not in the rotation: an entry for the mode, or the first one
      rw [hnone, if_neg (by decide)]
      have hno : ∀ j : Nat, (-1 : Int) = j → False := fun j hj => by omega
      split
      · rcases findmaprotation_spec { s with curmaprotation := -1 } s.gamemode "" with
          ⟨hfound, -⟩ | ⟨j, hfound, hj⟩
        · refine ⟨0, ?_, hfirst, fun _ j hj => (hno j hj).elim⟩
          rw [hfound]
          rfl
        · have hplace : s.place j = true := hj.place
          refine ⟨j, ?_, hplace, fun _ j hj => (hno j hj).elim⟩
          rw [hfound, max_eq_left (by omega)]
      · exact ⟨0, rfl, hfirst, fun _ j hj => (hno j hj).elim⟩
    · rw [hj, if_pos (by omega)]
      have hnext := nextmaprotation_eq (s := { s with curmaprotation := (j : Int) }) rfl
      refine ⟨Segments.next s.place j, ?_, place_next hfound.place, fun _ k hk => ?_⟩
      · rw [hnext]
        rfl
      · obtain rfl : j = k := by omega
        rfl

/-- **`rotatemap`** plays an entry of the rotation, in a mode of its own where it has not the
current one. -/
theorem rotatemap_spec (h : s.Rotating) (hne : s.maprotations ≠ []) (next : Bool) :
    ∃ t, s.rotatemap next = .ok t ∧ ∃ (i : Nat) (rot : MapRotation), s.place i = true ∧
      s.maprotations[i]? = some rot ∧ t.rotation = (s.maprotations, (i : Int), s.rotexclude,
        rot.findmode s.rotexclude s.gamemode, rot.map) ∧
      (next = true → ∀ j : Nat, s.findmaprotation s.gamemode s.smapname = j →
        i = Segments.next s.place j) := by
  obtain ⟨hnil, -⟩ | ⟨c, hc, hplace⟩ := h.current
  · exact absurd hnil hne
  · obtain ⟨i, hadv, hi, hnext⟩ := advance_spec h hne next
    obtain ⟨rot, hrot, -⟩ := place_iff.mp hi
    obtain ⟨crot, hcrot, -⟩ := place_iff.mp hplace
    have hlt := (List.getElem?_eq_some_iff.mp hcrot).1
    refine ⟨_, ?_, i, rot, hi, hrot, rotation_changemap { s with curmaprotation := i } rot.map
      (rot.findmode s.rotexclude s.gamemode), hnext⟩
    unfold rotatemap
    rw [if_neg (by omega), hadv]
    simp only [Int.toNat_natCast]
    rw [hrot]

/-! ## The rotation in every run -/

theorem rotating_of_rotation {s t : Server} (h : s.Rotating) (hl : t.maprotations = s.maprotations)
    (hc : t.curmaprotation = s.curmaprotation ∨ ∃ i : Nat, t.curmaprotation = i ∧
      s.place i = true) : t.Rotating := by
  have hplace : t.place = s.place := place_congr hl
  refine ⟨by rw [hl, hplace]; exact h.first, ?_⟩
  rw [hl, hplace]
  rcases hc with hc | hc
  · rw [hc]
    exact h.current
  · exact Or.inr hc

/-- An entry is added at the end, and a separator only behind an entry. -/
theorem Rotating.append {s t : Server} (h : s.Rotating) {rot : MapRotation}
    (hrot : s.maprotations = [] → rot.modes ≠ 0) (hl : t.maprotations = s.maprotations ++ [rot])
    (hc : t.curmaprotation = s.curmaprotation) : t.Rotating := by
  have hkeep : ∀ i, s.place i = true → t.place i = true := by
    intro i hi
    obtain ⟨r, hr, hne⟩ := place_iff.mp hi
    have hlt := (List.getElem?_eq_some_iff.mp hr).1
    exact place_iff.mpr ⟨r, by rw [hl, List.getElem?_append_left hlt, hr], hne⟩
  have hnew : s.maprotations = [] → t.place 0 = true := by
    intro hnil
    refine place_iff.mpr ⟨rot, ?_, hrot hnil⟩
    rw [hl, hnil]
    rfl
  refine ⟨Or.inr ?_, Or.inr ?_⟩
  · exact h.first.elim hnew (hkeep 0)
  · rcases h.current with ⟨hnil, hcur⟩ | ⟨i, hi, hplace⟩
    · exact ⟨0, hc.trans hcur, hnew hnil⟩
    · exact ⟨i, hc.trans hi, hkeep i hplace⟩

theorem Rotating.addmaprotation (h : s.Rotating) (modemask : Nat) (map : String) :
    (s.addmaprotation modemask map).Rotating := by
  unfold Server.addmaprotation
  simp only
  generalize (if map = "" then _ else modemask) = mask
  split
  · exact h
  · next hne => exact h.append (fun _ => hne) rfl rfl

theorem Rotating.addmaps (h : s.Rotating) (modes maps : List String) :
    (s.addmaps modes maps).Rotating := by
  unfold Server.addmaps
  simp only
  split
  · exact h.addmaprotation _ _
  · generalize genmodemask modes = modemask
    clear * - h
    induction maps generalizing s with
    | nil => exact h
    | cons map maps ih => exact ih (h.addmaprotation modemask map)

/-- A group is added and closed. -/
theorem Rotating.addmaprotations (h : s.Rotating) (args : List (List String × List String)) :
    (s.addmaprotations args).Rotating := by
  have hall : (args.foldl (fun s a => s.addmaps a.1 a.2) s).Rotating := by
    induction args generalizing s with
    | nil => exact h
    | cons a args ih => exact ih (h.addmaps a.1 a.2)
  unfold Server.addmaprotations closegroup
  split
  · next rot hlast =>
    split
    · refine hall.append (fun hnil => ?_) rfl rfl
      rw [hnil] at hlast
      cases hlast
    · exact hall
  · exact hall

/-- **One event** always ends, and leaves the current entry in the rotation. -/
theorem Rotating.step (h : s.Rotating) (e : RotationEvent) :
    ∃ t, s.rotationStep e = .ok t ∧ t.Rotating := by
  cases e with
  | maprotation args => exact ⟨_, rfl, h.addmaprotations args⟩
  | maprotationreset => exact ⟨_, rfl, Or.inl rfl, Or.inl ⟨rfl, rfl⟩⟩
  | rotatemap next =>
    by_cases hne : s.maprotations = []
    · have hout : s.rotatemap next = .ok (s.changemap "" 1) := by
        unfold rotatemap
        rw [if_pos]
        rcases h.current with ⟨-, hcur⟩ | ⟨i, hi, hplace⟩
        · rw [hne, hcur]
          decide
        · obtain ⟨rot, hrot, -⟩ := place_iff.mp hplace
          rw [hne] at hrot
          cases hrot
      have hrot := rotation_changemap s "" 1
      simp only [rotation, Prod.mk.injEq] at hrot
      exact ⟨_, hout, rotating_of_rotation h hrot.1 (Or.inl hrot.2.1)⟩
    · obtain ⟨t, ht, i, rot, hi, -, hrot, -⟩ := rotatemap_spec h hne next
      simp only [rotation, Prod.mk.injEq] at hrot
      exact ⟨t, ht, rotating_of_rotation h hrot.1 (Or.inr ⟨i, hrot.2.1, hi⟩)⟩
  | changemap map mode =>
    have hrot := rotation_changemap s map mode
    simp only [rotation, Prod.mk.injEq] at hrot
    exact ⟨_, rfl, rotating_of_rotation h hrot.1 (Or.inl hrot.2.1)⟩

theorem Rotating.of_steps {cfg : Config} {es : List RotationEvent}
    (hrun : Run.Steps rotationStep (fun _ _ => True) (initial cfg) es s) : s.Rotating := by
  refine hrun.invariant Rotating ?_ ⟨Or.inl rfl, Or.inl ⟨rfl, rfl⟩⟩
  intro s e t h _ hstep
  obtain ⟨t', ht', hrot⟩ := h.step e
  obtain rfl := Except.ok.inj (ht'.symm.trans hstep)
  exact hrot

/-! ## Going through a group -/

/-- The rotation is the same, and an entry of it is played. -/
structure Shows (s t : Server) (i : Nat) : Prop where
  maprotations : t.maprotations = s.maprotations
  rotexclude : t.rotexclude = s.rotexclude
  current : t.curmaprotation = i
  entry : ∃ rot, s.maprotations[i]? = some rot ∧ rot.hasmode s.rotexclude t.gamemode = true ∧
    t.smapname = rot.map

theorem Shows.found {t : Server} {i : Nat} (h : Shows s t i) :
    t.Found t.gamemode t.smapname i := by
  obtain ⟨rot, hrot, hmode, hmap⟩ := h.entry
  refine ⟨rot, by rw [h.maprotations, hrot], ?_⟩
  unfold MapRotation.matches_
  rw [h.rotexclude, hmode, hmap]
  simp

/-- What `rotatemap` plays has a mode: it is shown. -/
theorem shows_of_rotation {t : Server} {i : Nat} {rot : MapRotation} {played : Int}
    (hrot : s.maprotations[i]? = some rot) (hmode : s.HasMode i)
    (ht : t.rotation = (s.maprotations, (i : Int), s.rotexclude,
      rot.findmode s.rotexclude played, rot.map)) : Shows s t i := by
  obtain ⟨rot', hrot', hbit⟩ := hmode
  obtain rfl := Option.some.inj (hrot.symm.trans hrot')
  simp only [rotation, Prod.mk.injEq] at ht
  obtain ⟨hl, hc, he, hg, hm⟩ := ht
  exact ⟨hl, he, hc, rot, hrot, by rw [hg]; exact hasmode_findmode hbit _, hm⟩

/-- **The next turn** plays the successor. -/
theorem Shows.step {t : Server} {i : Nat} (h : Shows s t i) (ht : t.Rotating)
    (hmode : s.HasMode (Segments.next s.place i)) :
    ∃ u, t.rotatemap true = .ok u ∧ u.Rotating ∧ Shows s u (Segments.next s.place i) := by
  have hplace : t.place = s.place := place_congr h.maprotations
  have hne : t.maprotations ≠ [] := by
    intro hnil
    obtain ⟨rot, hrot, -⟩ := h.entry
    rw [← h.maprotations, hnil] at hrot
    cases hrot
  obtain ⟨u, hu, j, rot, hj, hrot, hrotation, hnext⟩ := rotatemap_spec ht hne true
  obtain rfl := hnext rfl i (findmaprotation_eq h.current h.found)
  obtain ⟨u', hu', hkept⟩ := ht.step (.rotatemap true)
  obtain rfl := Except.ok.inj (hu.symm.trans hu')
  rw [hplace] at hrot hrotation
  rw [h.maprotations] at hrot
  rw [h.maprotations, h.rotexclude] at hrotation
  exact ⟨u, hu, hkept, shows_of_rotation hrot hmode hrotation⟩

/-- **Repeated turns** go through the group in order, again and again. -/
theorem Shows.iterate {a b : Nat} (hseg : Segments.Segment s.place a b)
    (hall : ∀ j, a ≤ j → j < b → s.HasMode j) {t : Server} {i : Nat} (h : Shows s t i)
    (ht : t.Rotating) (hi : a ≤ i) (hi' : i < b) (k : Nat) :
    ∃ u, Run.Steps rotationStep (fun _ _ => True) t (List.replicate k (.rotatemap true)) u ∧
      Shows s u (a + (i - a + k) % (b - a)) := by
  rw [← hseg.iterate_next hi hi']
  induction k generalizing t i with
  | zero => exact ⟨t, .nil t, h⟩
  | succ k ih =>
    have hmem := hseg.iterate_mem hi hi' 1
    obtain ⟨u, hu, hrot, hshow⟩ := h.step ht (hall _ hmem.1 hmem.2)
    obtain ⟨v, hv, hv'⟩ := ih hshow hrot hmem.1 hmem.2
    refine ⟨v, .cons trivial hu hv, ?_⟩
    rw [Function.iterate_succ_apply]
    exact hv'

/-- `nextmaprotation` alone goes through the group as well. -/
theorem iterate_nextmaprotation {a b i : Nat} (hseg : Segments.Segment s.place a b)
    (hcur : s.curmaprotation = i) (hi : a ≤ i) (hi' : i < b) (k : Nat) :
    ((fun s : Server => { s with curmaprotation := s.nextmaprotation })^[k] s).curmaprotation =
      (a + (i - a + k) % (b - a) : Nat) := by
  rw [← hseg.iterate_next hi hi']
  induction k generalizing s i with
  | zero => exact hcur
  | succ k ih =>
    have hmem := hseg.iterate_mem hi hi' 1
    rw [Function.iterate_succ_apply, Function.iterate_succ_apply]
    exact ih (s := { s with curmaprotation := s.nextmaprotation }) hseg (nextmaprotation_eq hcur)
      hmem.1 hmem.2

/-- The entries from `a` to `b` are the group of an entry: separators, or the ends of the rotation,
stand around it. -/
def Group (s : Server) (i a b : Nat) : Prop := Segments.Segment s.place a b ∧ a ≤ i ∧ i < b

/-- **The rotation** in every run of its commands, with any mode and any map that is played.  The
current entry is one of the rotation and no separator, unless there is none.  What is found for a
mode and a map matches them, and nothing is found only if nothing matches.  `nextmaprotation` goes
through the group of the current entry in order, again and again.  `rotatemap` plays the successor
of the entry that is played, or another one where the map is not in the rotation, and from then on
goes through the group in order, again and again, and visits every entry of it, if all of them have
a mode. -/
theorem rotation_exact {cfg : Config} {es : List RotationEvent}
    (hrun : Run.Steps rotationStep (fun _ _ => True) (initial cfg) es s) :
    (s.maprotations = [] ∧ s.curmaprotation = 0 ∨
      ∃ i : Nat, s.curmaprotation = i ∧ s.place i = true) ∧
    (∀ mode map, (s.findmaprotation mode map = -1 ∧ ∀ i, ¬ s.Found mode map i) ∨
      ∃ i : Nat, s.findmaprotation mode map = i ∧ s.Found mode map i) ∧
    (∀ i : Nat, s.curmaprotation = i → s.place i = true → ∃ a b, s.Group i a b ∧ ∀ k : Nat,
      ((fun s : Server => { s with curmaprotation := s.nextmaprotation })^[k] s).curmaprotation =
        (a + (i - a + k) % (b - a) : Nat)) ∧
    (s.maprotations ≠ [] → ∃ (t : Server) (i a b : Nat), s.rotatemap true = .ok t ∧
      t.curmaprotation = i ∧ s.Group i a b ∧
      (∀ j : Nat, s.findmaprotation s.gamemode s.smapname = j → i = Segments.next s.place j) ∧
      ((∀ j, a ≤ j → j < b → s.HasMode j) →
        (∀ k, ∃ u, Run.Steps rotationStep (fun _ _ => True) t
          (List.replicate k (.rotatemap true)) u ∧ Shows s u (a + (i - a + k) % (b - a))) ∧
        ∀ j, a ≤ j → j < b → ∃ k < b - a, a + (i - a + k) % (b - a) = j)) := by
  have h := Rotating.of_steps hrun
  refine ⟨h.current, findmaprotation_spec s, fun i hcur hi => ?_, fun hne => ?_⟩
  · obtain ⟨a, b, hseg, hai, hib⟩ := Segments.exists_segment (fun j => place_of_length) hi
    exact ⟨a, b, ⟨hseg, hai, hib⟩, iterate_nextmaprotation hseg hcur hai hib⟩
  · obtain ⟨t, ht, i, rot, hi, hrot, hrotation, hnext⟩ := rotatemap_spec h hne true
    obtain ⟨t', ht', hkept⟩ := h.step (.rotatemap true)
    obtain rfl := Except.ok.inj (ht.symm.trans ht')
    obtain ⟨a, b, hseg, hai, hib⟩ := Segments.exists_segment (fun j => place_of_length) hi
    refine ⟨t, i, a, b, ht, congrArg (fun r => r.2.1) hrotation, ⟨hseg, hai, hib⟩, hnext rfl,
      fun hall => ⟨fun k => ?_, fun j hj hj' => ?_⟩⟩
    · exact (shows_of_rotation hrot (hall i hai hib) hrotation).iterate hseg hall hkept hai hib k
    · obtain ⟨k, hk, hvisit⟩ := hseg.visits hai hib hj hj'
      exact ⟨k, hk, by rw [← hseg.iterate_next hai hib]; exact hvisit⟩

/-- Two maps for one mode are played in turn. -/
theorem rotation_exact_two : ∃ s t : Server, s.rotatemap true = .ok t ∧
    (∃ i : Nat, t.curmaprotation = i) ∧
    ∀ mode map, (s.findmaprotation mode map = -1 ∧ ∀ i, ¬ s.Found mode map i) ∨
      ∃ i : Nat, s.findmaprotation mode map = i ∧ s.Found mode map i := by
  obtain ⟨s, hrun, hs⟩ := Run.Steps.of_any rotationStep (fun _ _ => True) (initial sampleConfig)
    [.maprotation [(["ffa"], ["a", "b"])]] (p := fun s => decide (s.maprotations ≠ []))
    (fun _ _ _ => trivial) (by decide +kernel)
  obtain ⟨-, hfound, -, hrot⟩ := rotation_exact hrun
  obtain ⟨t, i, -, -, ht, hcur, -⟩ := hrot (of_decide_eq_true hs)
  exact ⟨s, t, ht, ⟨i, hcur⟩, hfound⟩

/-- Two groups, the second of which has an entry for the modes that no other entry names, of which
there are none. -/
def exhausted : List RotationEvent :=
  [.maprotation [(["?"], ["a"])], .maprotation [(["*"], ["x"]), (["?"], ["b", "c"])],
    .changemap "b" 0, .rotatemap true]

/-- From the entry without a mode `rotatemap` goes on in the other group. -/
theorem rotation_leaves : ∃ s t u : Server,
    Run.Reachable rotationStep (initial sampleConfig) s ∧ s.Group 4 2 5 ∧
    s.curmaprotation = 4 ∧ s.Found s.gamemode s.smapname 4 ∧ s.rotatemap true = .ok t ∧
    t.curmaprotation = 2 ∧ t.rotatemap true = .ok u ∧ u.curmaprotation = 0 := by
  obtain ⟨s, hreach, hs⟩ := Run.Reachable.of_any rotationStep (initial sampleConfig) exhausted
    (p := fun s : Server => decide ((List.range 7).map s.place =
        [true, false, true, true, true, false, false] ∧ s.curmaprotation = 4 ∧
      s.findmaprotation s.gamemode s.smapname = 4) &&
      (s.rotatemap true).toOption.any fun t : Server => decide (t.curmaprotation = 2) &&
        (t.rotatemap true).toOption.any fun u : Server => decide (u.curmaprotation = 0))
    (by decide +kernel)
  obtain ⟨hs, hturns⟩ := Bool.and_eq_true _ _ |>.mp hs
  obtain ⟨hplaces, hcur, hfind⟩ := of_decide_eq_true hs
  cases ht : s.rotatemap true with
  | error f =>
    rw [ht] at hturns
    cases hturns
  | ok t =>
    rw [ht] at hturns
    obtain ⟨ht2, hturn⟩ := Bool.and_eq_true _ _ |>.mp hturns
    cases hu : t.rotatemap true with
    | error f =>
      rw [hu] at hturn
      cases hturn
    | ok u =>
      rw [hu] at hturn
      have hplace : ∀ i < 7, s.place i =
          [true, false, true, true, true, false, false].getD i false := by
        intro i hi
        rw [← hplaces]
        simp [hi]
      refine ⟨s, t, u, hreach, ⟨⟨fun i hi hi' => ?_, Or.inr (hplace 1 (by decide)),
        hplace 5 (by decide)⟩, by decide, by decide⟩, hcur, ?_, ht, of_decide_eq_true ht2, hu,
        of_decide_eq_true hturn⟩
      · rw [hplace i (by omega)]
        obtain rfl | rfl | rfl : i = 2 ∨ i = 3 ∨ i = 4 := by omega
        all_goals rfl
      · rcases findmaprotation_spec s s.gamemode s.smapname with ⟨hnone, -⟩ | ⟨i, hi, hfound⟩
        · omega
        · obtain rfl : i = 4 := by omega
          exact hfound

end Server
end QServ
