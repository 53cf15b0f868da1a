import Mathlib.Data.List.Enum
import Mathlib.Tactic.Ring
import QServ.Lib.Keyed
import QServ.Lib.Run
import QServ.Server.State

/-!
# Bases

The bases of `fpsgame/capture.h` with their counters of owners and enemies, kept up as clients
come into a base and leave it.  Where a base is, is a test `inside` of positions of any kind.

* `BaseInfo.Right`: the counters of a base are the numbers of clients in it, and nobody is in it
  who is not counted.
* `Right.enter`, `Right.leave`, `Right.occupy`: what the operations of a base keep of this.
* `counters_right`: in every run in which no team comes into a base that another one is taking,
  and no client comes or leaves unnoticed, the counters are right and a base is taken exactly
  while one team is alone in it.
-/

namespace QServ

/-- `captureservmode::baseinfo`. -/
structure BaseInfo where
  owner : String := ""
  enemy : String := ""
  ammotype : Int := 0
  ammo : Int := 0
  owners : Int := 0
  enemies : Int := 0
  converted : Int := 0
  capturetime : Int := -1
  deriving DecidableEq, Repr

namespace BaseInfo

/-- `OCCUPYBONUS`. -/
def OCCUPYBONUS : Int := 1

/-- `OCCUPYPOINTS`. -/
def OCCUPYPOINTS : Int := 1

/-- `OCCUPYENEMYLIMIT`. -/
def OCCUPYENEMYLIMIT : Int := 28

/-- `OCCUPYNEUTRALLIMIT`. -/
def OCCUPYNEUTRALLIMIT : Int := 14

/-- `MAXAMMO`. -/
def MAXAMMO : Int := 5

variable (b : BaseInfo)

/-- `valid()`: a type of ammunition from shells to cartridges. -/
def Valid : Prop := 0 < b.ammotype ∧ b.ammotype ≤ 6

instance : Decidable b.Valid := inferInstanceAs (Decidable (_ ∧ _))

/-- `noenemy()`. -/
def noenemy : BaseInfo := { b with enemy := "", enemies := 0, converted := 0 }

/-- `enter(team)`. -/
def enter (team : String) : BaseInfo :=
  if b.owner = team then { b with owners := b.owners + 1 }
  else if b.enemies = 0 then
    let b := if b.enemy = team then b else { b with converted := 0, enemy := team }
    { b with enemies := b.enemies + 1 }
  else if b.enemy ≠ team then b
  else { b with enemies := b.enemies + 1 }

/-- `steal(team)`. -/
def steal (team : String) : Bool := b.enemies = 0 && b.owner ≠ team

/-- `leave(team)`. -/
def leave (team : String) : BaseInfo :=
  if b.owner = team ∧ 0 < b.owners then { b with owners := b.owners - 1 }
  else if b.enemy ≠ team ∨ b.enemies ≤ 0 then b
  else { b with enemies := b.enemies - 1 }

/-- `occupy(team, units)`. -/
def occupy (team : String) (units : Int) : BaseInfo :=
  if b.enemy ≠ team then b
  else
    let b := { b with converted := b.converted + units }
    if units < 0 then
      if b.converted ≤ 0 then b.noenemy else b
    else if b.converted < (if b.owner ≠ "" then OCCUPYENEMYLIMIT else OCCUPYNEUTRALLIMIT) then b
    else if b.owner ≠ "" then { b with owner := "", converted := 0, enemy := team }
    else { b with owner := team, ammo := 0, capturetime := 0, owners := b.enemies }.noenemy

/-- `addammo(i)`. -/
def addammo (i : Int) : BaseInfo :=
  if MAXAMMO ≤ b.ammo then b else { b with ammo := min (b.ammo + i) MAXAMMO }

/-- The units `update` gives the enemy of a base after `t` seconds, or takes from it. -/
def units (t : Int) : Int :=
  OCCUPYBONUS * (if b.enemies ≠ 0 then 1 else -1) +
    OCCUPYPOINTS * (if b.enemies ≠ 0 then b.enemies else -(1 + b.owners)) * t

end BaseInfo

/-- What the mode reads of a client. -/
structure Capturer (P : Type) where
  cn : Int
  team : String
  state : CState
  o : P
  gameclip : Bool := false
  lastspawn : Int := -1

/-- `mapchange()`. -/
def Capturer.mapchange {P : Type} (c : Capturer P) : Capturer P :=
  { c with state := if c.state = .spectator then .spectator else .dead, gameclip := false,
           lastspawn := -1 }

/-- `reassign()`, with the `sendspawn` of who is alive; `o` is where `respawn` puts him. -/
def Capturer.reassign {P : Type} (gamemillis : Int) (o : P) (c : Capturer P) : Capturer P :=
  { c with o, lastspawn := if c.state = .alive then gamemillis else -1 }

/-- `captureservmode`, the clients and the clock of the match. -/
structure Capture (P : Type) where
  clients : List (Capturer P)
  bases : List BaseInfo
  scores : List (String × Int)
  notgotbases : Bool
  regencapture : Bool
  gamemillis : Int
  gamelimit : Int
  interm : Int

/-- What happens in a game of the mode.  `setstate` is any change of what a client is doing that
the mode is not told of; who is not alive may be `moved` anywhere (`respawn`). -/
inductive CaptureEvent (P : Type) where
  | setup (gotitems regencapture : Bool) (ammotypes : List Int) (gamelimit : Int)
  | parsebases (ammotypes : List Int)
  | connected (cn : Int) (team : String) (state : CState) (o : P)
  | clientdisconnect (cn : Int)
  | forcespectator (cn : Int)
  | setstate (cn : Int) (state : CState)
  | moved (cn : Int) (o : P) (gameclip : Bool)
  | sendspawn (cn : Int)
  | reassign (cn : Int) (o : P)
  | spawned (cn : Int)
  | died (cn : Int)
  | setteam (cn : Int) (team : String)
  | update (gamemillis curtime : Int)
  | setlimit (gamelimit : Int)
  | startintermission

namespace Capture

variable {P : Type} (inside : Nat → P → Bool) (s : Capture P)

/-- `MAXBASES`. -/
def MAXBASES : Nat := 100

/-- `SCORESECS`. -/
def SCORESECS : Int := 10

/-- `AMMOSECS`. -/
def AMMOSECS : Int := 15

/-- `getinfo(cn)` for a connected client. -/
def getinfo (cn : Int) : Option (Capturer P) := Keyed.lookup Capturer.cn cn s.clients

/-- Write through a `clientinfo *`. -/
def upd (cn : Int) (f : Capturer P → Capturer P) : Capture P :=
  { s with clients := Keyed.modify Capturer.cn cn f s.clients }

/-! ## Moving -/

/-- `stealbase(n, team)`: every client of the team in the base enters it. -/
def stealbase (n : Nat) (team : String) (b : BaseInfo) : BaseInfo :=
  s.clients.foldl (fun b c =>
    if c.state = .alive ∧ c.team ≠ "" ∧ c.team = team ∧ inside n c.o = true then b.enter c.team
    else b) b

/-- The body of `movebases`: `out` and `into` tell where the old and the new position are. -/
def movebase (team : String) (out into : Nat → Bool) (i : Nat) (b : BaseInfo) : BaseInfo :=
  if ¬b.Valid then b
  else if out i && !into i then b.leave team
  else if into i && !out i then b.enter team
  else if out i && into i && b.steal team then s.stealbase inside i team b
  else b

/-- `movebases(team, oldpos, oldclip, newpos, newclip)`. -/
def movebases (team : String) (out into : Nat → Bool) : Capture P :=
  if team = "" ∨ s.gamelimit ≤ s.gamemillis then s
  else { s with bases := s.bases.mapIdx (s.movebase inside team out into) }

/-- `leavebases(team, o)`. -/
def leavebases (team : String) (o : P) : Capture P :=
  s.movebases inside team (fun i => inside i o) fun _ => false

/-- `enterbases(team, o)`. -/
def enterbases (team : String) (o : P) : Capture P :=
  s.movebases inside team (fun _ => false) fun i => inside i o

/-- `entergame(ci)`. -/
def entergame (ci : Capturer P) : Capture P :=
  if s.notgotbases ∨ ci.state ≠ .alive ∨ ci.gameclip = true then s
  else s.enterbases inside ci.team ci.o

/-- `spawned(ci)`. -/
def spawned (ci : Capturer P) : Capture P :=
  if s.notgotbases ∨ ci.gameclip = true then s else s.enterbases inside ci.team ci.o

/-- `leavegame(ci)`. -/
def leavegame (ci : Capturer P) : Capture P :=
  if s.notgotbases ∨ ci.state ≠ .alive ∨ ci.gameclip = true then s
  else s.leavebases inside ci.team ci.o

/-- `died(ci, actor)`. -/
def died (ci : Capturer P) : Capture P :=
  if s.notgotbases ∨ ci.gameclip = true then s else s.leavebases inside ci.team ci.o

/-- `changeteam(ci, oldteam, newteam)`. -/
def changeteam (ci : Capturer P) (newteam : String) : Capture P :=
  if s.notgotbases ∨ ci.gameclip = true then s
  else (s.leavebases inside ci.team ci.o).enterbases inside newteam ci.o

/-- `moved(ci, ci->state.o, ci->gameclip, o, gameclip)`. -/
def moved (ci : Capturer P) (o : P) (gameclip : Bool) : Capture P :=
  if s.notgotbases then s
  else s.movebases inside ci.team (fun i => !ci.gameclip && inside i ci.o)
    fun i => !gameclip && inside i o

/-! ## Taking bases -/

/-- `findscore(team).total += n`. -/
def addtotal (team : String) (n : Int) : List (String × Int) → List (String × Int)
  | [] => [(team, n)]
  | cs :: rest => if cs.1 = team then (cs.1, cs.2 + n) :: rest else cs :: addtotal team n rest

/-- `findscore(team).total = n`. -/
def settotal (team : String) (n : Int) : List (String × Int) → List (String × Int)
  | [] => [(team, n)]
  | cs :: rest => if cs.1 = team then (cs.1, n) :: rest else cs :: settotal team n rest

/-- `startintermission()`. -/
def startintermission : Capture P :=
  { s with gamelimit := min s.gamelimit s.gamemillis,
           interm := if s.interm = 0 then s.gamemillis + 10000 else s.interm }

/-- The team that owns all of these bases, the first of which it owns. -/
def lastteam (bases : List BaseInfo) : Option String :=
  match bases.filter (fun b => b.Valid) with
  | [] => none
  | b :: rest => if b.owner ≠ "" && rest.all (fun c => c.owner = b.owner) then some b.owner else none

/-- `endcheck()`. -/
def endcheck : Capture P :=
  match lastteam s.bases with
  | none => s
  | some team => { s with scores := settotal team 10000 s.scores }.startintermission

/-- The body of the loop of `update`: the base after `t` seconds. -/
def updatebase (t : Int) (b : BaseInfo) : BaseInfo :=
  if ¬b.Valid then b
  else if b.enemy ≠ "" then
    if b.owners = 0 ∨ b.enemies = 0 then b.occupy b.enemy (b.units t) else b
  else if b.owner ≠ "" then
    let b := { b with capturetime := b.capturetime + t }
    if s.regencapture then b
    else
      let ammo := b.capturetime.tdiv AMMOSECS - (b.capturetime - t).tdiv AMMOSECS
      if ammo ≠ 0 then b.addammo ammo else b
  else b

/-- The scores after the loop of `update`. -/
def updatescores (t : Int) (scores : List (String × Int)) (b : BaseInfo) : List (String × Int) :=
  if b.Valid ∧ b.enemy = "" ∧ b.owner ≠ "" then
    let capturetime := b.capturetime + t
    let score := capturetime.tdiv SCORESECS - (capturetime - t).tdiv SCORESECS
    if score ≠ 0 then addtotal b.owner score scores else scores
  else scores

/-- `update()` at the times of a frame. -/
def update (gamemillis curtime : Int) : Capture P :=
  let s := { s with gamemillis }
  if s.gamelimit ≤ s.gamemillis then s
  else
    let s := s.endcheck
    let t := gamemillis.tdiv 1000 - (gamemillis - curtime).tdiv 1000
    if t < 1 then s
    else { s with scores := s.bases.foldl (updatescores t) s.scores,
                  bases := s.bases.map (s.updatebase t) }

/-! ## Maps -/

/-- `addbase(ammotype, o)` for each of the bases. -/
def addbases (ammotypes : List Int) : List BaseInfo :=
  (ammotypes.take MAXBASES).map fun ammotype => { ammotype }

/-- `loopv(clients) if(clients[i]->state.state==CS_ALIVE) entergame(clients[i])`. -/
def enterall : Capture P := s.clients.foldl (fun s ci => s.entergame inside ci) s

/-- `setup()`, after the clients were reset for a new map. -/
def setup (gotitems regencapture : Bool) (ammotypes : List Int) (gamelimit : Int) : Capture P :=
  let s := { s with
    clients := s.clients.map Capturer.mapchange
    bases := if gotitems then addbases ammotypes else [], scores := []
    notgotbases := !gotitems, regencapture, gamemillis := 0, gamelimit, interm := 0 }
  if gotitems then s.enterall inside else s

/-- `parsebases(p, commit)` of a list of bases that is taken over. -/
def parsebases (ammotypes : List Int) : Capture P :=
  if s.notgotbases then
    { s with notgotbases := false, bases := addbases ammotypes }.enterall inside
  else s

/-- Run something on a client that is connected. -/
def withinfo (cn : Int) (f : Capturer P → Capture P) : Capture P :=
  match s.getinfo cn with
  | none => s
  | some ci => f ci

/-- `connected(ci)`: a client who is not alive yet. -/
def connected (cn : Int) (team : String) (state : CState) (o : P) : Capture P :=
  if s.getinfo cn = none ∧ state ≠ .alive then
    { s with clients := s.clients ++ [{ cn, team, state, o }] }
  else s

/-- One event. -/
def next (s : Capture P) : CaptureEvent P → Capture P
  | .setup gotitems regencapture ammotypes gamelimit =>
    s.setup inside gotitems regencapture ammotypes gamelimit
  | .parsebases ammotypes => s.parsebases inside ammotypes
  | .connected cn team state o => s.connected cn team state o
  | .clientdisconnect cn => s.withinfo cn fun ci =>
    let s := s.leavegame inside ci
    { s with clients := Keyed.remove Capturer.cn cn s.clients }
  | .forcespectator cn => s.withinfo cn fun ci =>
    (s.leavegame inside ci).upd cn fun c => { c with state := .spectator }
  | .setstate cn state => s.upd cn fun c => { c with state }
  | .moved cn o gameclip => s.withinfo cn fun ci =>
    (if ci.state = .alive then s.moved inside ci o gameclip else s).upd cn fun c =>
      { c with o, gameclip }
  | .sendspawn cn => s.withinfo cn fun ci =>
    if ci.state = .dead then s.upd cn fun c => { c with lastspawn := s.gamemillis } else s
  | .reassign cn o => s.upd cn (Capturer.reassign s.gamemillis o)
  | .spawned cn => s.withinfo cn fun ci =>
    if (ci.state = .alive ∨ ci.state = .dead) ∧ 0 ≤ ci.lastspawn then
      (s.spawned inside ci).upd cn fun c => { c with state := .alive, lastspawn := -1 }
    else s
  | .died cn => s.withinfo cn fun ci =>
    if ci.state = .alive then (s.died inside ci).upd cn fun c => { c with state := .dead } else s
  | .setteam cn team => s.withinfo cn fun ci =>
    (if ci.state = .alive then s.changeteam inside ci team else s).upd cn fun c => { c with team }
  | .update gamemillis curtime => s.update gamemillis curtime
  | .setlimit gamelimit => { s with gamelimit }
  | .startintermission => s.startintermission

/-- The mode as a system; no event fails. -/
def step (s : Capture P) (e : CaptureEvent P) : Except Fault (Capture P) := .ok (s.next inside e)

/-- No client is connected and no map loaded. -/
def initial : Capture P where
  clients := []
  bases := []
  scores := []
  notgotbases := true
  regencapture := false
  gamemillis := 0
  gamelimit := 0
  interm := 0

end Capture

/-! ## Counting -/

/-- One for each base a client of a team is in, given as a test. -/
def mark (team : String) (p : Nat → Bool) (i : Nat) (t : String) : Int :=
  if team ≠ "" ∧ p i = true ∧ t = team then 1 else 0

namespace BaseInfo

variable {b : BaseInfo} {n : String → Int}

/-- **The counters are right**, `n` being the number of clients of each team in the base: they
are those of the owner and of the enemy, and nobody else is in it. -/
structure Right (b : BaseInfo) (n : String → Int) : Prop where
  owners : b.owners = n b.owner
  enemies : b.enemies = n b.enemy
  only : ∀ t, n t ≠ 0 → t = b.owner ∨ t = b.enemy
  distinct : b.enemy = "" ∨ b.enemy ≠ b.owner
  progress : 0 ≤ b.converted

/-- A team that may come in: nobody is taking the base, or the team is counted. -/
def Admits (b : BaseInfo) (team : String) : Prop :=
  b.enemies = 0 ∨ team = b.owner ∨ team = b.enemy

instance (team : String) : Decidable (b.Admits team) := inferInstanceAs (Decidable (_ ∨ _))

theorem Right.enter (h : b.Right n) {team : String} (hteam : team ≠ "")
    (hadm : b.Admits team) : (b.enter team).Right (Function.update n team (n team + 1)) := by
  have hother : ∀ t, t ≠ team → Function.update n team (n team + 1) t = n t :=
    fun t ht => Function.update_of_ne ht _ _
  unfold BaseInfo.enter
  split
  · next hown =>
    have hne : b.enemy ≠ team := by
      rcases h.distinct with hnone | hne
      · rw [hnone]
        exact Ne.symm hteam
      · rw [← hown]
        exact hne
    refine ⟨?_, ?_, fun t ht => ?_, h.distinct, h.progress⟩
    · simp [hown, h.owners]
    · simp only [hother b.enemy hne]
      exact h.enemies
    · by_cases hteam' : t = team
      · exact Or.inl (hteam'.trans hown.symm)
      · rw [hother t hteam'] at ht
        exact h.only t ht
  · next hown =>
    split
    · next hnone =>
      -- nobody of the team was there before, or he would have been counted
      have hempty : n team = 0 := by
        by_contra hne
        rcases h.only team hne with heq | heq
        · exact hown heq.symm
        · rw [heq, ← h.enemies] at hne
          exact hne hnone
      have hrest : Right { b with enemy := team, enemies := 1 } (Function.update n team (n team + 1)) := by
        refine ⟨?_, ?_, fun t ht => ?_, Or.inr (Ne.symm hown), h.progress⟩
        · simp only [hother b.owner hown]
          exact h.owners
        · simp [hempty]
        · by_cases hteam' : t = team
          · exact Or.inr hteam'
          · rw [hother t hteam'] at ht
            rcases h.only t ht with heq | heq
            · exact Or.inl heq
            · rw [heq, ← h.enemies] at ht
              exact absurd hnone ht
      split
      · next hsame =>
        refine ⟨hrest.owners, ?_, ?_, ?_, h.progress⟩
        · simp [hnone, hsame, hempty]
        · rw [hsame]
          exact hrest.only
        · rw [hsame]
          exact hrest.distinct
      · refine ⟨hrest.owners, ?_, hrest.only, hrest.distinct, le_refl 0⟩
        simp [hnone, hempty]
    · next hsome =>
      have hsame : b.enemy = team := by
        rcases hadm with h0 | h1 | h1
        · exact absurd h0 hsome
        · exact absurd h1.symm hown
        · exact h1.symm
      rw [if_neg (not_not.mpr hsame)]
      refine ⟨?_, ?_, fun t ht => ?_, h.distinct, h.progress⟩
      · simp only [hother b.owner hown]
        exact h.owners
      · simp [hsame, h.enemies]
      · by_cases hteam' : t = team
        · exact Or.inr (hteam'.trans hsame.symm)
        · rw [hother t hteam'] at ht
          exact h.only t ht

theorem Right.leave (h : b.Right n) {team : String} (hteam : team ≠ "") (hin : 0 < n team) :
    (b.leave team).Right (Function.update n team (n team - 1)) := by
  have hother : ∀ t, t ≠ team → Function.update n team (n team - 1) t = n t :=
    fun t ht => Function.update_of_ne ht _ _
  have honly : ∀ t, Function.update n team (n team - 1) t ≠ 0 → t = b.owner ∨ t = b.enemy := by
    intro t ht
    by_cases hteam' : t = team
    · rw [hteam']
      exact h.only team hin.ne'
    · rw [hother t hteam'] at ht
      exact h.only t ht
  unfold BaseInfo.leave
  by_cases hown : b.owner = team
  · have hpos : 0 < b.owners := by
      rw [h.owners, hown]
      exact hin
    have hne : b.enemy ≠ team := by
      rcases h.distinct with hnone | hne
      · rw [hnone]
        exact Ne.symm hteam
      · rw [← hown]
        exact hne
    rw [if_pos ⟨hown, hpos⟩]
    refine ⟨?_, ?_, honly, h.distinct, h.progress⟩
    · simp [hown, h.owners]
    · simp only [hother b.enemy hne]
      exact h.enemies
  · have hsame : team = b.enemy := (h.only team hin.ne').resolve_left (Ne.symm hown)
    have hpos : 0 < b.enemies := by
      rw [h.enemies, ← hsame]
      exact hin
    rw [if_neg fun hc => hown hc.1, if_neg (by simp [hsame, hpos])]
    refine ⟨?_, ?_, honly, h.distinct, h.progress⟩
    · simp only [hother b.owner hown]
      exact h.owners
    · simp [← hsame, h.enemies]

/-- **Taking a base**: its enemy makes progress while its owner is away, or loses some. -/
theorem Right.occupy (h : b.Right n) (hzero : n "" = 0) {units : Int}
    (hu : b.enemies = 0 ∧ units < 0 ∨ b.owners = 0 ∧ 0 ≤ units) :
    (b.occupy b.enemy units).Right n := by
  have hkeep : 0 ≤ b.converted + units → Right { b with converted := b.converted + units } n :=
    fun hle => ⟨h.owners, h.enemies, h.only, h.distinct, hle⟩
  have hprogress := h.progress
  unfold BaseInfo.occupy
  rw [if_neg (not_not.mpr rfl)]
  simp only
  by_cases hneg : units < 0
  · obtain ⟨hnone, -⟩ := hu.resolve_right fun hu => absurd hneg (not_lt.mpr hu.2)
    rw [if_pos hneg]
    split
    · refine ⟨h.owners, by simp [noenemy, hzero], fun t ht => ?_, Or.inl rfl, le_refl 0⟩
      rcases h.only t ht with heq | heq
      · exact Or.inl heq
      · rw [heq, ← h.enemies] at ht
        exact absurd hnone ht
    · exact hkeep (by omega)
  · obtain ⟨hnone, -⟩ := hu.resolve_left fun hu => hneg hu.2
    rw [if_neg hneg]
    have honly : ∀ t, n t ≠ 0 → t = b.enemy := by
      intro t ht
      refine (h.only t ht).resolve_left fun heq => ?_
      rw [heq, ← h.owners] at ht
      exact ht hnone
    generalize (if b.owner ≠ "" then OCCUPYENEMYLIMIT else OCCUPYNEUTRALLIMIT) = limit
    by_cases hlimit : b.converted + units < limit
    · rw [if_pos hlimit]
      exact hkeep (by omega)
    · rw [if_neg hlimit]
      split
      · refine ⟨by simp [hnone, hzero], h.enemies, fun t ht => Or.inr (honly t ht), ?_, le_refl 0⟩
        exact em (b.enemy = "")
      · exact ⟨h.enemies, by simp [noenemy, hzero], fun t ht => Or.inl (honly t ht), Or.inl rfl,
          le_refl 0⟩

/-- A base is taken after `t` seconds, once its enemy is counted and its owner is not there. -/
def Taken (b : BaseInfo) : Prop := b.enemy ≠ "" ∧ b.owners = 0 ∧ b.enemies ≠ 0

/-- **Progress** is made exactly while one team is in the base and no other. -/
theorem Right.taken_iff (h : b.Right n) (hzero : n "" = 0) (hpos : ∀ t, 0 ≤ n t) :
    b.Taken ↔ ∃ team, team ≠ b.owner ∧ 0 < n team ∧ ∀ t, t ≠ team → n t = 0 := by
  constructor
  · rintro ⟨hne, hnone, hsome⟩
    refine ⟨b.enemy, ?_, ?_, fun t ht => ?_⟩
    · exact h.distinct.resolve_left hne
    · rw [h.enemies] at hsome
      exact lt_of_le_of_ne (hpos _) (Ne.symm hsome)
    · by_contra hcount
      rcases h.only t hcount with heq | heq
      · rw [heq, ← h.owners] at hcount
        exact hcount hnone
      · exact ht heq
  · rintro ⟨team, hown, hin, halone⟩
    have hsame : team = b.enemy := (h.only team hin.ne').resolve_left hown
    refine ⟨?_, ?_, ?_⟩
    · rintro hnone
      rw [hsame, hnone, hzero] at hin
      exact lt_irrefl _ hin
    · rw [h.owners]
      exact halone _ (Ne.symm hown)
    · rw [h.enemies, ← hsame]
      exact hin.ne'

theorem Right.units_sign (h : b.Right n) (hpos : ∀ t, 0 ≤ n t) {t : Int} (ht : 1 ≤ t) :
    (b.enemies = 0 → b.units t < 0) ∧ (b.enemies ≠ 0 → 0 < b.units t) := by
  have howners : 0 ≤ b.owners := by
    rw [h.owners]
    exact hpos _
  have henemies : 0 ≤ b.enemies := by
    rw [h.enemies]
    exact hpos _
  constructor
  · intro hnone
    have hprod := Int.mul_nonneg howners (by omega : 0 ≤ t)
    have hunits : b.units t = -1 - t - b.owners * t := by
      simp only [units, hnone, OCCUPYBONUS, OCCUPYPOINTS]
      simp
      ring
    omega
  · intro hsome
    have hprod := Int.mul_nonneg henemies (by omega : 0 ≤ t)
    have hunits : b.units t = 1 + b.enemies * t := by
      simp [units, hsome, OCCUPYBONUS, OCCUPYPOINTS]
    omega

/-- A base nearer to being taken: there is progress, or it changes hands. -/
def Advanced (b b' : BaseInfo) : Prop := b.converted < b'.converted ∨ b'.owner ≠ b.owner

theorem Right.occupy_advanced (h : b.Right n) {units : Int} (hne : b.enemy ≠ "")
    (hu : b.enemies = 0 ∧ units < 0 ∨ b.enemies ≠ 0 ∧ 0 < units) :
    b.Advanced (b.occupy b.enemy units) ↔ b.enemies ≠ 0 := by
  have hprogress := h.progress
  rw [BaseInfo.occupy, if_neg (not_not.mpr rfl)]
  rcases hu with ⟨hnone, hneg⟩ | ⟨hsome, hpos⟩
  · refine ⟨fun hadv => ?_, fun hsome => absurd hnone hsome⟩
    rw [if_pos hneg] at hadv
    split at hadv
    · rcases hadv with hlt | hown
      · have hlt : b.converted < 0 := hlt
        omega
      · exact absurd rfl hown
    · rcases hadv with hlt | hown
      · have hlt : b.converted < b.converted + units := hlt
        omega
      · exact absurd rfl hown
  · refine ⟨fun _ => hsome, fun _ => ?_⟩
    rw [if_neg (by omega)]
    simp only
    generalize (if b.owner ≠ "" then OCCUPYENEMYLIMIT else OCCUPYNEUTRALLIMIT) = limit
    split
    · refine Or.inl ?_
      show b.converted < b.converted + units
      omega
    · split
      · next hown => exact Or.inr (Ne.symm hown)
      · next hown =>
        refine Or.inr ?_
        rw [not_not.mp hown]
        exact hne

end BaseInfo

namespace Capturer

variable {P : Type} (inside : Nat → P → Bool)

/-- The bases a client is alive in. -/
def within (c : Capturer P) (i : Nat) : Bool :=
  c.state = .alive && !c.gameclip && inside i c.o

/-- One for each base a client is alive in, under his team. -/
def marks (c : Capturer P) : Nat → String → Int := mark c.team (c.within inside)

end Capturer

namespace Capture

open BaseInfo Capturer

variable {P : Type} {inside : Nat → P → Bool} {s : Capture P}

/-- Every base that counts is right, `n` being the numbers of clients in each. -/
def AllRight (bases : List BaseInfo) (n : Nat → String → Int) : Prop :=
  ∀ i (b : BaseInfo), bases[i]? = some b → b.Valid → b.Right (n i)

/-- A client of the team who moves changes bases only while the match lasts, and comes into none
that another team is taking. -/
def Admitted (s : Capture P) (team : String) (out into : Nat → Bool) : Prop :=
  team = "" ∨ ∀ x ∈ s.bases.zipIdx, x.1.Valid → out x.2 ≠ into x.2 →
    s.gamemillis < s.gamelimit ∧ (into x.2 = true → x.1.Admits team)

instance (team : String) (out into : Nat → Bool) : Decidable (s.Admitted team out into) :=
  inferInstanceAs (Decidable (_ ∨ _))

@[simp] theorem mark_false (team : String) (i : Nat) (t : String) :
    mark team (fun _ => false) i t = 0 := by
  simp [mark]

theorem mark_nonneg (team : String) (p : Nat → Bool) (i : Nat) (t : String) :
    0 ≤ mark team p i t := by
  unfold mark
  split <;> omega

theorem mark_pos_iff {team : String} {p : Nat → Bool} {i : Nat} {t : String} :
    0 < mark team p i t ↔ team ≠ "" ∧ p i = true ∧ t = team := by
  unfold mark
  split
  · next h => simp [h]
  · next h => simp [h]

/-- The numbers of clients in each base after a move. -/
def shift (n : Nat → String → Int) (team : String) (out into : Nat → Bool) :
    Nat → String → Int :=
  fun i t => n i t - mark team out i t + mark team into i t

theorem shift_stay (n : Nat → String → Int) {team : String} {out into : Nat → Bool} {i : Nat}
    (h : team ≠ "" → out i = into i) : shift n team out into i = n i := by
  funext t
  have hmark : mark team out i t = mark team into i t := by
    unfold mark
    by_cases hteam : team = ""
    · simp [hteam]
    · rw [h hteam]
  rw [shift, hmark]
  omega

theorem shift_enter (n : Nat → String → Int) {team : String} {out into : Nat → Bool} {i : Nat}
    (hteam : team ≠ "") (ho : out i = false) (hi : into i = true) :
    shift n team out into i = Function.update (n i) team (n i team + 1) := by
  funext t
  by_cases ht : t = team
  · simp [shift, mark, ho, hi, ht, hteam]
  · simp [shift, mark, ht]

theorem shift_leave (n : Nat → String → Int) {team : String} {out into : Nat → Bool} {i : Nat}
    (hteam : team ≠ "") (ho : out i = true) (hi : into i = false) :
    shift n team out into i = Function.update (n i) team (n i team - 1) := by
  funext t
  by_cases ht : t = team
  · simp [shift, mark, ho, hi, ht, hteam]
  · simp [shift, mark, ht]

theorem valid_movebase {team : String} {out into : Nat → Bool} {i : Nat} {b : BaseInfo}
    (h : (s.movebase inside team out into i b).Valid) : b.Valid := by
  by_contra hv
  rw [movebase, if_pos hv] at h
  exact hv h

/-- **One base** as a client moves who is counted where he comes from. -/
theorem right_movebase {n : Nat → String → Int} {team : String} {out into : Nat → Bool} {i : Nat}
    {b : BaseInfo} (h : b.Right (n i)) (hv : b.Valid) (hteam : team ≠ "")
    (hadm : out i = false → into i = true → b.Admits team)
    (hout : out i = true → 0 < n i team) :
    (s.movebase inside team out into i b).Right (shift n team out into i) := by
  rw [movebase, if_neg (not_not.mpr hv)]
  cases ho : out i with
  | false =>
    cases hi : into i with
    | false =>
      rw [shift_stay n fun _ => ho.trans hi.symm]
      simpa using h
    | true =>
      rw [shift_enter n hteam ho hi]
      simpa using h.enter hteam (hadm ho hi)
  | true =>
    have hcount := hout ho
    cases hi : into i with
    | false =>
      rw [shift_leave n hteam ho hi]
      simpa using h.leave hteam hcount
    | true =>
      -- a client who is counted has nothing to steal
      have hnosteal : b.steal team = false := by
        unfold steal
        rcases h.only team hcount.ne' with heq | heq
        · simp [heq]
        · have hsome : b.enemies ≠ 0 := by
            rw [h.enemies, ← heq]
            exact hcount.ne'
          simp [hsome]
      rw [shift_stay n fun _ => ho.trans hi.symm]
      simpa [hnosteal] using h

/-- **A move** of a client who is counted where he comes from. -/
theorem AllRight.movebases {n : Nat → String → Int} {team : String} {out into : Nat → Bool}
    (h : AllRight s.bases n) (hadm : s.Admitted team out into)
    (hout : ∀ i, out i = true → team ≠ "" → 0 < n i team) :
    AllRight (s.movebases inside team out into).bases (shift n team out into) := by
  intro i b hb hv
  have hstays : (team ≠ "" → out i = into i) → s.bases[i]? = some b →
      b.Right (shift n team out into i) := by
    intro hstay hb
    rw [shift_stay n hstay]
    exact h i b hb hv
  by_cases hteam : team = ""
  · rw [Capture.movebases, if_pos (Or.inl hteam)] at hb
    exact hstays (fun hne => absurd hteam hne) hb
  · have hadm := hadm.resolve_left hteam
    by_cases hover : s.gamelimit ≤ s.gamemillis
    · rw [Capture.movebases, if_pos (Or.inr hover)] at hb
      refine hstays (fun _ => ?_) hb
      by_contra hne
      have hmem : (b, i) ∈ s.bases.zipIdx := List.mem_zipIdx_iff_getElem?.mpr hb
      exact absurd (hadm (b, i) hmem hv hne).1 (not_lt.mpr hover)
    · rw [Capture.movebases, if_neg (not_or.mpr ⟨hteam, hover⟩)] at hb
      rw [List.getElem?_mapIdx, Option.map_eq_some_iff] at hb
      obtain ⟨a, ha, rfl⟩ := hb
      have hva := valid_movebase hv
      have hmem : (a, i) ∈ s.bases.zipIdx := List.mem_zipIdx_iff_getElem?.mpr ha
      refine right_movebase (h i a ha hva) hva hteam (fun ho hi => ?_) fun ho => hout i ho hteam
      exact (hadm (a, i) hmem hva (by simp [ho, hi])).2 hi

/-! ## The clients in the bases -/

/-- How many of these clients are alive in each base, by their team. -/
def count (inside : Nat → P → Bool) (l : List (Capturer P)) (i : Nat) (t : String) : Int :=
  (l.map fun c => c.marks inside i t).sum

/-- How many clients of each team are alive in each base. -/
def present (inside : Nat → P → Bool) (s : Capture P) : Nat → String → Int :=
  count inside s.clients

theorem marks_nonneg (c : Capturer P) (i : Nat) (t : String) : 0 ≤ c.marks inside i t :=
  mark_nonneg _ _ _ _

@[simp] theorem count_nil : count inside ([] : List (Capturer P)) = fun _ _ => 0 := rfl

theorem count_cons (c : Capturer P) (l : List (Capturer P)) (i : Nat) (t : String) :
    count inside (c :: l) i t = c.marks inside i t + count inside l i t :=
  List.sum_cons

theorem count_nonneg (l : List (Capturer P)) (i : Nat) (t : String) : 0 ≤ count inside l i t := by
  induction l with
  | nil => exact le_refl 0
  | cons c l ih =>
    have hc : 0 ≤ c.marks inside i t := marks_nonneg c i t
    rw [count_cons]
    omega

theorem count_pos_iff {l : List (Capturer P)} {i : Nat} {t : String} :
    0 < count inside l i t ↔ ∃ c ∈ l, c.team ≠ "" ∧ c.within inside i = true ∧ t = c.team := by
  induction l with
  | nil => simp
  | cons c l ih =>
    have hc : 0 ≤ c.marks inside i t := marks_nonneg c i t
    have hl : 0 ≤ count inside l i t := count_nonneg l i t
    have hone : 0 < c.marks inside i t ↔ _ := mark_pos_iff
    rw [count_cons, List.exists_mem_cons_iff, ← ih, ← hone]
    omega

theorem count_append_away (l : List (Capturer P)) {c : Capturer P} (haway : c.state ≠ .alive)
    (i : Nat) : count inside (l ++ [c]) i = count inside l i := by
  funext t
  simp [count, marks, within, mark, haway]

theorem present_nonneg (i : Nat) (t : String) : 0 ≤ s.present inside i t :=
  count_nonneg _ _ _

theorem present_nobody (i : Nat) : s.present inside i "" = 0 := by
  by_contra hne
  have hpos : 0 < s.present inside i "" := lt_of_le_of_ne (present_nonneg i "") (Ne.symm hne)
  obtain ⟨c, -, hteam, -, heq⟩ := count_pos_iff.mp hpos
  exact hteam heq.symm

theorem present_upd {cn : Int} {ci : Capturer P} (hnd : (s.clients.map Capturer.cn).Nodup)
    (hg : s.getinfo cn = some ci) (f : Capturer P → Capturer P) :
    (s.upd cn f).present inside = fun i t =>
      s.present inside i t - ci.marks inside i t + (f ci).marks inside i t := by
  funext i t
  exact Keyed.sum_modify (fun c => c.marks inside i t) hnd hg

theorem present_remove {cn : Int} {ci : Capturer P} (hnd : (s.clients.map Capturer.cn).Nodup)
    (hg : s.getinfo cn = some ci) :
    ({ s with clients := Keyed.remove Capturer.cn cn s.clients }).present inside = fun i t =>
      s.present inside i t - ci.marks inside i t := by
  funext i t
  exact Keyed.sum_remove (fun c => c.marks inside i t) hnd hg

/-- A client is counted where he is. -/
theorem present_pos {cn : Int} {ci : Capturer P} (hg : s.getinfo cn = some ci) {i : Nat}
    (hin : ci.within inside i = true) (hteam : ci.team ≠ "") : 0 < s.present inside i ci.team :=
  count_pos_iff.mpr ⟨ci, (Keyed.lookup_mem hg).1, hteam, hin, rfl⟩

/-- **The invariant**: every base is right about the clients in it. -/
structure Counted (inside : Nat → P → Bool) (s : Capture P) : Prop where
  nodup : (s.clients.map Capturer.cn).Nodup
  right : AllRight s.bases (s.present inside)
  got : s.notgotbases = true → s.bases = []

theorem nodup_upd (h : (s.clients.map Capturer.cn).Nodup) (cn : Int)
    {f : Capturer P → Capturer P} (hf : ∀ c, (f c).cn = c.cn) :
    ((s.upd cn f).clients.map Capturer.cn).Nodup :=
  (congrArg List.Nodup (Keyed.map_modify hf)).mpr h

theorem getinfo_cn {cn : Int} {ci : Capturer P} (hg : s.getinfo cn = some ci) : ci.cn = cn :=
  (Keyed.lookup_mem hg).2

/-- Bases of a game that has none yet. -/
theorem allRight_of_notgot {n : Nat → String → Int} (h : s.bases = []) : AllRight s.bases n := by
  intro i b hb
  rw [h] at hb
  cases hb

theorem clients_movebases (team : String) (out into : Nat → Bool) :
    (s.movebases inside team out into).clients = s.clients := by
  unfold Capture.movebases
  split <;> rfl

theorem notgotbases_movebases (team : String) (out into : Nat → Bool) :
    (s.movebases inside team out into).notgotbases = s.notgotbases := by
  unfold Capture.movebases
  split <;> rfl

theorem clock_movebases (team : String) (out into : Nat → Bool) :
    (s.movebases inside team out into).gamemillis = s.gamemillis ∧
      (s.movebases inside team out into).gamelimit = s.gamelimit := by
  unfold Capture.movebases
  split <;> exact ⟨rfl, rfl⟩

theorem valid_movebases {team : String} {out into : Nat → Bool} {i : Nat} {b : BaseInfo}
    (h : (s.movebases inside team out into).bases[i]? = some b) (hv : b.Valid) :
    ∃ a : BaseInfo, s.bases[i]? = some a ∧ a.Valid := by
  unfold Capture.movebases at h
  split at h
  · exact ⟨b, h, hv⟩
  · rw [List.getElem?_mapIdx, Option.map_eq_some_iff] at h
    obtain ⟨a, ha, rfl⟩ := h
    exact ⟨a, ha, valid_movebase hv⟩

theorem movebases_nil (h : s.bases = []) (team : String) (out into : Nat → Bool) :
    (s.movebases inside team out into).bases = [] := by
  unfold Capture.movebases
  split
  · exact h
  · simp [h]

theorem shift_nowhere (n : Nat → String → Int) (team : String) {p : Nat → Bool}
    (h : ∀ i, p i = false) : shift n team p (fun _ => false) = n := by
  funext i
  exact shift_stay n fun _ => h i

theorem within_of_alive {ci : Capturer P} (halive : ci.state = .alive) (hclip : ci.gameclip = false) :
    ci.within inside = fun i => inside i ci.o := by
  funext i
  simp [within, halive, hclip]

theorem within_of_away {ci : Capturer P} (h : ci.state ≠ .alive ∨ ci.gameclip = true) :
    ci.within inside = fun _ => false := by
  funext i
  rcases h with h | h
  · simp [within, h]
  · simp [within, h]

/-- What an operation of the mode is to do: a client of the team leaves some bases and comes into
others. -/
structure Moves (inside : Nat → P → Bool) (s s' : Capture P) (team : String)
    (out into : Nat → Bool) : Prop where
  clients : s'.clients = s.clients
  got : s'.notgotbases = s.notgotbases
  clock : s'.gamemillis = s.gamemillis ∧ s'.gamelimit = s.gamelimit
  nil : s.bases = [] → s'.bases = []
  valid : ∀ (i : Nat) (b : BaseInfo), s'.bases[i]? = some b → b.Valid →
    ∃ a : BaseInfo, s.bases[i]? = some a ∧ a.Valid
  right : ∀ n, AllRight s.bases n → s.Admitted team out into →
    (∀ i, out i = true → team ≠ "" → 0 < n i team) → AllRight s'.bases (shift n team out into)

theorem moves_movebases (team : String) (out into : Nat → Bool) :
    Moves inside s (s.movebases inside team out into) team out into :=
  ⟨clients_movebases team out into, notgotbases_movebases team out into,
    clock_movebases team out into, fun h => movebases_nil h team out into,
    fun _ _ hb hv => valid_movebases hb hv, fun _ h hadm hout => h.movebases hadm hout⟩

/-- Before the bases are known there is nothing to count. -/
theorem moves_notgot (h : s.notgotbases = true → s.bases = []) (hgot : s.notgotbases = true)
    (team : String) (out into : Nat → Bool) : Moves inside s s team out into :=
  ⟨rfl, rfl, ⟨rfl, rfl⟩, id, fun _ b hb hv => ⟨b, hb, hv⟩,
    fun _ _ _ _ => allRight_of_notgot (h hgot)⟩

theorem moves_nowhere (team : String) {out into : Nat → Bool} (h : ∀ i, out i = into i) :
    Moves inside s s team out into := by
  refine ⟨rfl, rfl, ⟨rfl, rfl⟩, id, fun _ b hb hv => ⟨b, hb, hv⟩, fun n hn _ _ => ?_⟩
  have heq : shift n team out into = n := by
    funext i
    exact shift_stay n fun _ => h i
  rw [heq]
  exact hn

variable {ci : Capturer P}

theorem moves_entergame (h : s.notgotbases = true → s.bases = []) :
    Moves inside s (s.entergame inside ci) ci.team (fun _ => false) (ci.within inside) := by
  unfold entergame
  by_cases hgot : s.notgotbases = true
  · rw [if_pos (Or.inl hgot)]
    exact moves_notgot h hgot _ _ _
  · by_cases haway : ci.state ≠ .alive ∨ ci.gameclip = true
    · rw [if_pos (Or.inr haway), within_of_away haway]
      exact moves_nowhere _ fun _ => rfl
    · rw [if_neg (not_or.mpr ⟨hgot, haway⟩)]
      obtain ⟨halive, hclip⟩ := not_or.mp haway
      rw [within_of_alive (not_not.mp halive) (by simpa using hclip)]
      exact moves_movebases _ _ _

theorem moves_leavegame (h : s.notgotbases = true → s.bases = []) :
    Moves inside s (s.leavegame inside ci) ci.team (ci.within inside) (fun _ => false) := by
  unfold leavegame
  by_cases hgot : s.notgotbases = true
  · rw [if_pos (Or.inl hgot)]
    exact moves_notgot h hgot _ _ _
  · by_cases haway : ci.state ≠ .alive ∨ ci.gameclip = true
    · rw [if_pos (Or.inr haway), within_of_away haway]
      exact moves_nowhere _ fun _ => rfl
    · rw [if_neg (not_or.mpr ⟨hgot, haway⟩)]
      obtain ⟨halive, hclip⟩ := not_or.mp haway
      rw [within_of_alive (not_not.mp halive) (by simpa using hclip)]
      exact moves_movebases _ _ _

/-- A client spawns, or dies, as one who is alive enters, or leaves. -/
theorem spawned_eq : s.spawned inside ci = s.entergame inside { ci with state := .alive } := by
  simp [spawned, entergame]

theorem died_eq (halive : ci.state = .alive) : s.died inside ci = s.leavegame inside ci := by
  simp [died, leavegame, halive]

theorem changeteam_eq (halive : ci.state = .alive) (team : String) :
    s.changeteam inside ci team =
      (s.leavegame inside ci).entergame inside { ci with team } := by
  unfold changeteam leavegame entergame
  by_cases hgot : s.notgotbases = true
  · simp [hgot]
  · by_cases hclip : ci.gameclip = true
    · simp [hclip]
    · have hgot' : (s.leavebases inside ci.team ci.o).notgotbases = s.notgotbases :=
        notgotbases_movebases _ _ _
      simp [hgot, hclip, halive, hgot']

theorem moves_moved (h : s.notgotbases = true → s.bases = []) (halive : ci.state = .alive) (o : P)
    (gameclip : Bool) : Moves inside s (s.moved inside ci o gameclip) ci.team (ci.within inside)
      (within inside { ci with o, gameclip }) := by
  unfold moved
  by_cases hgot : s.notgotbases = true
  · rw [if_pos hgot]
    exact moves_notgot h hgot _ _ _
  · rw [if_neg hgot]
    have hout : ci.within inside = fun i => !ci.gameclip && inside i ci.o := by
      funext i
      simp [within, halive]
    have hinto : within inside { ci with o, gameclip } = fun i => !gameclip && inside i o := by
      funext i
      simp [within, halive]
    rw [hout, hinto]
    exact moves_movebases _ _ _

/-! ## The invariant over runs -/

theorem Counted.of_moves (h : s.Counted inside) {s' : Capture P} {team : String}
    {out into : Nat → Bool} (hm : Moves inside s s' team out into)
    (hadm : s.Admitted team out into)
    (hout : ∀ i, out i = true → team ≠ "" → 0 < s.present inside i team)
    {n : Nat → String → Int} (hn : n = shift (s.present inside) team out into) :
    (s'.clients.map Capturer.cn).Nodup ∧ AllRight s'.bases n ∧
      (s'.notgotbases = true → s'.bases = []) := by
  refine ⟨?_, ?_, fun hgot => hm.nil (h.got ?_)⟩
  · rw [hm.clients]
    exact h.nodup
  · rw [hn]
    exact hm.right _ h.right hadm hout
  · rw [← hm.got]
    exact hgot

theorem present_congr {s' : Capture P} (h : s'.clients = s.clients) :
    s'.present inside = s.present inside := by
  unfold present
  rw [h]

/-- **A client moves** within the bases and stays in his team. -/
theorem Counted.upd (h : s.Counted inside) {cn : Int} (hg : s.getinfo cn = some ci)
    {s' : Capture P} {f : Capturer P → Capturer P} (hcn : ∀ c, (f c).cn = c.cn)
    (hteam : (f ci).team = ci.team)
    (hm : Moves inside s s' ci.team (ci.within inside) ((f ci).within inside))
    (hadm : s.Admitted ci.team (ci.within inside) ((f ci).within inside)) :
    (s'.upd cn f).Counted inside := by
  have hg' : s'.getinfo cn = some ci := by
    unfold getinfo
    rw [hm.clients]
    exact hg
  have hnd' : (s'.clients.map Capturer.cn).Nodup := by
    rw [hm.clients]
    exact h.nodup
  have hn : (s'.upd cn f).present inside =
      shift (s.present inside) ci.team (ci.within inside) ((f ci).within inside) := by
    rw [present_upd hnd' hg', present_congr hm.clients]
    funext i t
    simp only [marks, shift, hteam]
  obtain ⟨-, hright, hgot⟩ := h.of_moves hm hadm (fun i ho hne => present_pos hg ho hne) hn
  exact ⟨nodup_upd hnd' cn hcn, hright, hgot⟩

/-- **A client leaves.** -/
theorem Counted.remove (h : s.Counted inside) {cn : Int} (hg : s.getinfo cn = some ci)
    {s' : Capture P} (hm : Moves inside s s' ci.team (ci.within inside) fun _ => false)
    (hadm : s.Admitted ci.team (ci.within inside) fun _ => false) :
    Counted inside { s' with clients := Keyed.remove Capturer.cn cn s'.clients } := by
  have hg' : s'.getinfo cn = some ci := by
    unfold getinfo
    rw [hm.clients]
    exact hg
  have hnd' : (s'.clients.map Capturer.cn).Nodup := by
    rw [hm.clients]
    exact h.nodup
  have hn : ({ s' with clients := Keyed.remove Capturer.cn cn s'.clients }).present inside =
      shift (s.present inside) ci.team (ci.within inside) fun _ => false := by
    rw [present_remove hnd' hg', present_congr hm.clients]
    funext i t
    simp [marks, shift]
  obtain ⟨-, hright, hgot⟩ := h.of_moves hm hadm (fun i ho hne => present_pos hg ho hne) hn
  exact ⟨Keyed.nodup_remove hnd', hright, hgot⟩

/-- A client who changes his team leaves the bases and enters them again. -/
theorem Counted.setteam (h : s.Counted inside) {cn : Int} (hg : s.getinfo cn = some ci)
    (team : String) (hleave : s.Admitted ci.team (ci.within inside) fun _ => false)
    (henter : (s.leavegame inside ci).Admitted team (fun _ => false) (ci.within inside)) :
    Counted inside ((((s.leavegame inside ci).entergame inside { ci with team }).upd cn
      fun c => { c with team })) := by
  have hm : Moves inside s (s.leavegame inside ci) _ _ _ := moves_leavegame h.got
  have hgot' : (s.leavegame inside ci).notgotbases = true → (s.leavegame inside ci).bases = [] := by
    rw [hm.got]
    exact fun hgot => hm.nil (h.got hgot)
  have hm' : Moves inside _ ((s.leavegame inside ci).entergame inside { ci with team }) _ _ _ :=
    moves_entergame hgot'
  have hclients := hm'.clients.trans hm.clients
  have hg' : ((s.leavegame inside ci).entergame inside { ci with team }).getinfo cn = some ci := by
    unfold getinfo
    rw [hclients]
    exact hg
  have hnd' : (((s.leavegame inside ci).entergame inside { ci with team }).clients.map
      Capturer.cn).Nodup := by
    rw [hclients]
    exact h.nodup
  refine ⟨nodup_upd hnd' cn fun _ => rfl, ?_, ?_⟩
  · have hright := hm.right _ h.right hleave fun i ho hne => present_pos hg ho hne
    have hright' := hm'.right _ hright henter fun i ho => absurd ho Bool.false_ne_true
    have hn : (((s.leavegame inside ci).entergame inside { ci with team }).upd cn
        fun c => { c with team }).present inside =
        shift (shift (s.present inside) ci.team (ci.within inside) fun _ => false) team
          (fun _ => false) (within inside { ci with team }) := by
      rw [present_upd hnd' hg', present_congr hclients]
      funext i t
      simp [marks, shift]
    rw [hn]
    exact hright'
  · intro hgot
    exact hm'.nil (hgot' (hm'.got ▸ hgot))

theorem addbases_right {ammotypes : List Int} {i : Nat} {b : BaseInfo}
    (h : (addbases ammotypes)[i]? = some b) : b.Right fun _ => 0 := by
  rw [addbases, List.getElem?_map, Option.map_eq_some_iff] at h
  obtain ⟨ammotype, -, rfl⟩ := h
  exact ⟨rfl, rfl, fun t ht => absurd rfl ht, Or.inl rfl, le_refl 0⟩

/-- **Every client enters**, those in one base being of one team. -/
theorem right_foldl_entergame {V : Nat → Prop} {l : List (Capturer P)} :
    ∀ {s : Capture P} (done : List (Capturer P)), (s.notgotbases = true → s.bases = []) →
      (∀ (i : Nat) (b : BaseInfo), s.bases[i]? = some b → b.Valid → V i) →
      AllRight s.bases (count inside done) →
      (∀ i, V i → ∀ c ∈ done ++ l, c.team ≠ "" → c.within inside i = true →
        s.gamemillis < s.gamelimit ∧
          ∀ d ∈ done ++ l, d.team ≠ "" → d.within inside i = true → d.team = c.team) →
      AllRight (l.foldl (fun s ci => s.entergame inside ci) s).bases
        (count inside (done ++ l)) := by
  induction l with
  | nil =>
    intro s done _ _ hright _
    rw [List.append_nil]
    exact hright
  | cons c l ih =>
    intro s done hgot hV hright hone
    have hm : Moves inside s (s.entergame inside c) _ _ _ := moves_entergame hgot
    have hsplit : done ++ c :: l = (done ++ [c]) ++ l := by simp
    have hadm : s.Admitted c.team (fun _ => false) (c.within inside) := by
      refine or_iff_not_imp_left.mpr fun hteam ⟨b, i⟩ hmem hv hne => ?_
      simp only at hv hne ⊢
      have hb : s.bases[i]? = some b := List.mem_zipIdx_iff_getElem?.mp hmem
      have hin : c.within inside i = true := by simpa using hne
      obtain ⟨htime, hsame⟩ := hone i (hV i b hb hv) c
        (List.mem_append_right _ List.mem_cons_self) hteam hin
      refine ⟨htime, fun _ => ?_⟩
      by_cases hnone : b.enemies = 0
      · exact Or.inl hnone
      · -- the enemy is counted, so he is somebody in the base
        have hpos : 0 < count inside done i b.enemy := by
          rw [(hright i b hb hv).enemies] at hnone
          exact lt_of_le_of_ne (count_nonneg _ _ _) (Ne.symm hnone)
        obtain ⟨d, hd, hdteam, hdin, heq⟩ := count_pos_iff.mp hpos
        refine Or.inr (Or.inr ?_)
        rw [heq]
        exact (hsame d (List.mem_append_left _ hd) hdteam hdin).symm
    rw [List.foldl_cons, hsplit]
    refine ih (done ++ [c]) (hm.got ▸ fun h => hm.nil (hgot h)) (fun i b hb hv => ?_) ?_ ?_
    · obtain ⟨a, ha, hva⟩ := hm.valid i b hb hv
      exact hV i a ha hva
    · have hn : count inside (done ++ [c]) =
          shift (count inside done) c.team (fun _ => false) (c.within inside) := by
        funext i t
        simp [shift, marks, count]
      rw [hn]
      exact hm.right _ hright hadm fun i ho => absurd ho Bool.false_ne_true
    · rw [hm.clock.1, hm.clock.2, ← hsplit]
      exact hone

theorem enterall_clients : (s.enterall inside).clients = s.clients ∧
    (s.enterall inside).notgotbases = s.notgotbases := by
  have hfold : ∀ (l : List (Capturer P)) (s : Capture P),
      (l.foldl (fun s ci => s.entergame inside ci) s).clients = s.clients ∧
        (l.foldl (fun s ci => s.entergame inside ci) s).notgotbases = s.notgotbases := by
    intro l
    induction l with
    | nil => exact fun _ => ⟨rfl, rfl⟩
    | cons c l ih =>
      intro s
      have hkeep : (s.entergame inside c).clients = s.clients ∧
          (s.entergame inside c).notgotbases = s.notgotbases := by
        unfold entergame
        split
        · exact ⟨rfl, rfl⟩
        · exact ⟨clients_movebases _ _ _, notgotbases_movebases _ _ _⟩
      rw [List.foldl_cons, (ih _).1, (ih _).2]
      exact hkeep
  exact hfold s.clients s

/-- Clients who are in one of these bases are of one team, and come while the match lasts. -/
def OneTeam (inside : Nat → P → Bool) (s : Capture P) (bases : List BaseInfo) : Prop :=
  ∀ x ∈ bases.zipIdx, x.1.Valid → ∀ c ∈ s.clients, c.team ≠ "" → c.within inside x.2 = true →
    s.gamemillis < s.gamelimit ∧
      ∀ d ∈ s.clients, d.team ≠ "" → d.within inside x.2 = true → d.team = c.team

instance (bases : List BaseInfo) : Decidable (s.OneTeam inside bases) :=
  inferInstanceAs (Decidable (∀ x ∈ bases.zipIdx, _))

theorem Counted.enterall (hnd : (s.clients.map Capturer.cn).Nodup) (hgot : s.notgotbases = false)
    (hbases : ∀ (i : Nat) (b : BaseInfo), s.bases[i]? = some b → b.Right fun _ => 0)
    (hone : s.OneTeam inside s.bases) : (s.enterall inside).Counted inside := by
  obtain ⟨hclients, hgot'⟩ : (s.enterall inside).clients = s.clients ∧ _ := enterall_clients
  refine ⟨by rw [hclients]; exact hnd, ?_, fun h => ?_⟩
  · rw [present_congr hclients]
    refine right_foldl_entergame (V := fun i => ∃ b, (b, i) ∈ s.bases.zipIdx ∧ b.Valid) []
      (fun h => ?_) (fun i b hb hv => ?_) (fun i b hb hv => hbases i b hb) ?_
    · rw [hgot] at h
      cases h
    · exact ⟨b, List.mem_zipIdx_iff_getElem?.mpr hb, hv⟩
    · rintro i ⟨b, hmem, hv⟩
      exact hone (b, i) hmem hv
  · rw [hgot', hgot] at h
    cases h

/-! ## Every run -/

/-- A client of a team who is gone from the bases he is in. -/
def Leaves (inside : Nat → P → Bool) (s : Capture P) (cn : Int) : Prop :=
  ∀ ci ∈ s.getinfo cn, s.Admitted ci.team (ci.within inside) fun _ => false

/-- A client who spawns was dead, or is in no base. -/
def Spawns (inside : Nat → P → Bool) (s : Capture P) (cn : Int) : Prop :=
  ∀ ci ∈ s.getinfo cn, 0 ≤ ci.lastspawn →
    (ci.state = .alive → ci.team = "" ∨
      ∀ x ∈ s.bases.zipIdx, x.1.Valid → ci.within inside x.2 = false) ∧
      s.Admitted ci.team (ci.within inside) (within inside { ci with state := .alive })

/-- A client stays where he is, as far as the bases go. -/
def Stays (inside : Nat → P → Bool) (s : Capture P) (cn : Int) (f : Capturer P → Capturer P) :
    Prop :=
  ∀ ci ∈ s.getinfo cn, ci.team = "" ∨
    ∀ x ∈ s.bases.zipIdx, x.1.Valid → (f ci).within inside x.2 = ci.within inside x.2

/-- No team comes into a base that another one is taking, nobody comes or leaves after the end of
the match, and nobody comes to be in a base, or is gone from one, without a word to the mode. -/
def Clean (inside : Nat → P → Bool) (s : Capture P) : CaptureEvent P → Prop
  | .parsebases ammotypes =>
    s.notgotbases = true → s.OneTeam inside (addbases ammotypes)
  | .clientdisconnect cn => s.Leaves inside cn
  | .forcespectator cn => s.Leaves inside cn
  | .setstate cn state => s.Stays inside cn fun c => { c with state }
  | .reassign cn o => s.Stays inside cn (Capturer.reassign s.gamemillis o)
  | .moved cn o gameclip => ∀ ci ∈ s.getinfo cn,
    s.Admitted ci.team (ci.within inside) (within inside { ci with o, gameclip })
  | .spawned cn => s.Spawns inside cn
  | .died cn => s.Leaves inside cn
  | .setteam cn team => s.Leaves inside cn ∧ ∀ ci ∈ s.getinfo cn,
    (s.leavegame inside ci).Admitted team (fun _ => false) (ci.within inside)
  | _ => True

instance (s : Capture P) (cn : Int) : Decidable (s.Leaves inside cn) :=
  inferInstanceAs (Decidable (∀ ci ∈ _, _))

instance (s : Capture P) (cn : Int) : Decidable (s.Spawns inside cn) :=
  inferInstanceAs (Decidable (∀ ci ∈ _, _))

instance (s : Capture P) (cn : Int) (f : Capturer P → Capturer P) :
    Decidable (s.Stays inside cn f) :=
  inferInstanceAs (Decidable (∀ ci ∈ _, _))

instance decidableClean (s : Capture P) : ∀ e : CaptureEvent P, Decidable (s.Clean inside e)
  | .parsebases _ => inferInstanceAs (Decidable (_ → _))
  | .clientdisconnect cn => inferInstanceAs (Decidable (s.Leaves inside cn))
  | .forcespectator cn => inferInstanceAs (Decidable (s.Leaves inside cn))
  | .setstate cn state => inferInstanceAs (Decidable (s.Stays inside cn fun c => { c with state }))
  | .reassign cn o =>
    inferInstanceAs (Decidable (s.Stays inside cn (Capturer.reassign s.gamemillis o)))
  | .moved cn _ _ => inferInstanceAs (Decidable (∀ ci ∈ s.getinfo cn, _))
  | .spawned cn => inferInstanceAs (Decidable (s.Spawns inside cn))
  | .died cn => inferInstanceAs (Decidable (s.Leaves inside cn))
  | .setteam cn _ => inferInstanceAs (Decidable (s.Leaves inside cn ∧ ∀ ci ∈ s.getinfo cn, _))
  | .setup .. | .connected .. | .sendspawn .. | .update .. | .setlimit .. | .startintermission =>
    isTrue trivial

/-- A change that leaves a client where he is. -/
theorem Counted.same (h : s.Counted inside) {cn : Int} {f : Capturer P → Capturer P}
    (hcn : ∀ c, (f c).cn = c.cn)
    (hsame : ∀ ci ∈ s.getinfo cn, ∀ x ∈ s.bases.zipIdx, x.1.Valid →
      (f ci).marks inside x.2 = ci.marks inside x.2) : (s.upd cn f).Counted inside := by
  cases hg : s.getinfo cn with
  | none =>
    have hnobody : s.upd cn f = s := by
      unfold Capture.upd
      rw [Keyed.modify_of_not_mem (Keyed.lookup_eq_none.mp hg)]
    rw [hnobody]
    exact h
  | some ci =>
    refine ⟨nodup_upd h.nodup cn hcn, fun i b hb hv => ?_, h.got⟩
    have hb : s.bases[i]? = some b := hb
    have hn : (s.upd cn f).present inside i = s.present inside i := by
      funext t
      have hmarks := hsame ci hg (b, i) (List.mem_zipIdx_iff_getElem?.mpr hb) hv
      rw [present_upd h.nodup hg]
      simp only [hmarks]
      omega
    rw [hn]
    exact h.right i b hb hv

theorem Counted.stays (h : s.Counted inside) {cn : Int} {f : Capturer P → Capturer P}
    (hcn : ∀ c, (f c).cn = c.cn) (hteam : ∀ c, (f c).team = c.team)
    (hstay : s.Stays inside cn f) : (s.upd cn f).Counted inside := by
  refine h.same hcn fun ci hg x hx hv => ?_
  funext t
  unfold marks mark
  rw [hteam]
  rcases hstay ci hg with hnone | hstay
  · simp [hnone]
  · rw [hstay x hx hv]

/-- Nobody is in a base who is not alive. -/
theorem counted_of_dead (hnd : (s.clients.map Capturer.cn).Nodup)
    (hdead : ∀ c ∈ s.clients, c.state ≠ .alive)
    (hright : ∀ (i : Nat) (b : BaseInfo), s.bases[i]? = some b → b.Right fun _ => 0)
    (hgot : s.notgotbases = true → s.bases = []) : s.Counted inside := by
  refine ⟨hnd, fun i b hb hv => ?_, hgot⟩
  have hn : s.present inside i = fun _ => 0 := by
    funext t
    by_contra hne
    have hpos : 0 < s.present inside i t := lt_of_le_of_ne (present_nonneg i t) (Ne.symm hne)
    obtain ⟨c, hc, -, hin, -⟩ := count_pos_iff.mp hpos
    simp [within, hdead c hc] at hin
  rw [hn]
  exact hright i b hb

theorem enterall_of_dead (hdead : ∀ c ∈ s.clients, c.state ≠ .alive) : s.enterall inside = s := by
  have hfold : ∀ l : List (Capturer P), (∀ c ∈ l, c.state ≠ .alive) →
      l.foldl (fun s ci => s.entergame inside ci) s = s := by
    intro l
    induction l with
    | nil => exact fun _ => rfl
    | cons c l ih =>
      intro hl
      have hstay : s.entergame inside c = s := by
        simp [entergame, hl c List.mem_cons_self]
      rw [List.foldl_cons, hstay]
      exact ih fun d hd => hl d (List.mem_cons_of_mem _ hd)
  exact hfold s.clients hdead

theorem Counted.setup (h : s.Counted inside) (gotitems regencapture : Bool) (ammotypes : List Int)
    (gamelimit : Int) : (s.setup inside gotitems regencapture ammotypes gamelimit).Counted inside := by
  have hdead : ∀ c ∈ s.clients.map mapchange, c.state ≠ .alive := by
    intro c hc
    obtain ⟨d, -, rfl⟩ := List.mem_map.mp hc
    unfold mapchange
    split <;> exact CState.noConfusion
  have hnd : ((s.clients.map mapchange).map Capturer.cn).Nodup := by
    rw [List.map_map]
    exact h.nodup
  cases gotitems with
  | false => exact counted_of_dead hnd hdead (fun i b hb => by cases hb) fun _ => rfl
  | true =>
    rw [Capture.setup]
    simp only [if_true]
    rw [enterall_of_dead hdead]
    exact counted_of_dead hnd hdead (fun i b hb => addbases_right hb) fun hgot => by cases hgot

/-- Who enters once more where he is in no base is not counted again. -/
theorem Moves.again {s' : Capture P} {team : String} {into : Nat → Bool}
    (hm : Moves inside s s' team (fun _ => false) into)
    (hnone : team = "" ∨ ∀ x ∈ s.bases.zipIdx, x.1.Valid → into x.2 = false) :
    Moves inside s s' team into into := by
  refine ⟨hm.clients, hm.got, hm.clock, hm.nil, hm.valid, fun n hn _ _ => ?_⟩
  have hadm : s.Admitted team (fun _ => false) into :=
    hnone.imp_right fun hnone x hx hv hne => absurd (hnone x hx hv).symm hne
  have hright := hm.right n hn hadm fun i ho => absurd ho Bool.false_ne_true
  intro i b hb hv
  have hsame : shift n team into into i = shift n team (fun _ => false) into i := by
    obtain ⟨a, ha, hva⟩ := hm.valid i b hb hv
    rw [shift_stay n fun _ => rfl, shift_stay n fun hteam => ?_]
    have hnone := hnone.resolve_left hteam
    exact (hnone (a, i) (List.mem_zipIdx_iff_getElem?.mpr ha) hva).symm
  rw [hsame]
  exact hright i b hb hv

theorem Counted.spawned (h : s.Counted inside) {cn : Int} (hg : s.getinfo cn = some ci)
    (hstate : ci.state = .alive ∨ ci.state = .dead) (hspawn : 0 ≤ ci.lastspawn)
    (hc : s.Spawns inside cn) : Counted inside
      ((s.spawned inside ci).upd cn fun c => { c with state := .alive, lastspawn := -1 }) := by
  obtain ⟨hnone, hadm⟩ := hc ci hg hspawn
  have hm : Moves inside s (s.spawned inside ci) ci.team (fun _ => false)
      (within inside { ci with state := .alive }) := by
    rw [spawned_eq]
    exact moves_entergame h.got
  refine h.upd hg (fun _ => rfl) rfl ?_ hadm
  rcases hstate with halive | hdead
  · have hsame : within inside { ci with state := .alive } = ci.within inside := by
      funext i
      simp [within, halive]
    have hsame' : within inside { ci with state := .alive, lastspawn := -1 } = ci.within inside :=
      hsame
    rw [hsame']
    rw [hsame] at hm
    exact hm.again (hnone halive)
  · have hout : ci.within inside = fun _ => false := within_of_away (Or.inl (by simp [hdead]))
    rw [hout]
    exact hm

theorem Counted.of_eq (h : s.Counted inside) {s' : Capture P} (hclients : s'.clients = s.clients)
    (hbases : s'.bases = s.bases) (hgot : s'.notgotbases = s.notgotbases) : s'.Counted inside := by
  refine ⟨hclients ▸ h.nodup, ?_, ?_⟩
  · rw [hbases, present_congr hclients]
    exact h.right
  · rw [hbases, hgot]
    exact h.got

theorem endcheck_eq : s.endcheck.clients = s.clients ∧ s.endcheck.bases = s.bases ∧
    s.endcheck.notgotbases = s.notgotbases ∧ s.endcheck.regencapture = s.regencapture := by
  unfold endcheck
  split <;> exact ⟨rfl, rfl, rfl, rfl⟩

theorem addammo_eq (b : BaseInfo) (k : Int) :
    (b.addammo k).owner = b.owner ∧ (b.addammo k).enemy = b.enemy ∧
      (b.addammo k).owners = b.owners ∧ (b.addammo k).enemies = b.enemies ∧
      (b.addammo k).converted = b.converted := by
  unfold addammo
  split <;> exact ⟨rfl, rfl, rfl, rfl, rfl⟩

/-- What a second does to a base that nobody takes. -/
theorem updatebase_held {b : BaseInfo} (hv : b.Valid) (hnone : b.enemy = "") (t : Int) :
    (s.updatebase t b).owner = b.owner ∧ (s.updatebase t b).enemy = b.enemy ∧
      (s.updatebase t b).owners = b.owners ∧ (s.updatebase t b).enemies = b.enemies ∧
      (s.updatebase t b).converted = b.converted := by
  rw [updatebase, if_neg (not_not.mpr hv), if_neg (not_not.mpr hnone)]
  split
  · simp only
    split
    · exact ⟨rfl, rfl, rfl, rfl, rfl⟩
    · split
      · exact addammo_eq _ _
      · exact ⟨rfl, rfl, rfl, rfl, rfl⟩
  · exact ⟨rfl, rfl, rfl, rfl, rfl⟩

variable {n : String → Int} {b : BaseInfo}

theorem right_updatebase (h : b.Right n) (hv : b.Valid) (hzero : n "" = 0) (hpos : ∀ t, 0 ≤ n t)
    {t : Int} (ht : 1 ≤ t) : (s.updatebase t b).Right n := by
  by_cases hnone : b.enemy = ""
  · obtain ⟨howner, henemy, howners, henemies, hconv⟩ := updatebase_held (s := s) hv hnone t
    refine ⟨?_, ?_, ?_, ?_, ?_⟩
    · rw [howner, howners]
      exact h.owners
    · rw [henemy, henemies]
      exact h.enemies
    · rw [howner, henemy]
      exact h.only
    · rw [howner, henemy]
      exact h.distinct
    · rw [hconv]
      exact h.progress
  · rw [updatebase, if_neg (not_not.mpr hv), if_pos hnone]
    obtain ⟨hneg, hposu⟩ := h.units_sign hpos ht
    split
    · next halone =>
      refine h.occupy hzero ?_
      by_cases hsome : b.enemies = 0
      · exact Or.inl ⟨hsome, hneg hsome⟩
      · exact Or.inr ⟨halone.resolve_right hsome, (hposu hsome).le⟩
    · exact h

/-- **Progress**: a base is nearer to being taken after a second or more exactly if somebody takes
it. -/
theorem advanced_iff (h : b.Right n) (hv : b.Valid) (hpos : ∀ t, 0 ≤ n t)
    {t : Int} (ht : 1 ≤ t) : b.Advanced (s.updatebase t b) ↔ b.Taken := by
  by_cases hnone : b.enemy = ""
  · obtain ⟨howner, -, -, -, hconv⟩ := updatebase_held (s := s) hv hnone t
    refine iff_of_false ?_ fun htaken => htaken.1 hnone
    unfold Advanced
    rw [howner, hconv]
    simp
  · rw [updatebase, if_neg (not_not.mpr hv), if_pos hnone]
    obtain ⟨hneg, hposu⟩ := h.units_sign hpos ht
    split
    · next halone =>
      rw [h.occupy_advanced hnone]
      · refine ⟨fun hsome => ⟨hnone, halone.resolve_right hsome, hsome⟩, fun htaken => htaken.2.2⟩
      · by_cases hsome : b.enemies = 0
        · exact Or.inl ⟨hsome, hneg hsome⟩
        · exact Or.inr ⟨hsome, hposu hsome⟩
    · next hboth =>
      refine iff_of_false ?_ fun htaken => hboth (Or.inl htaken.2.1)
      simp [Advanced]

theorem ammotype_occupy (team : String) (units : Int) :
    (b.occupy team units).ammotype = b.ammotype := by
  unfold occupy
  split
  · rfl
  · simp only
    generalize (if b.owner ≠ "" then OCCUPYENEMYLIMIT else OCCUPYNEUTRALLIMIT) = limit
    split_ifs <;> rfl

theorem valid_updatebase (t : Int) : (s.updatebase t b).Valid ↔ b.Valid := by
  have htype : (s.updatebase t b).ammotype = b.ammotype := by
    unfold updatebase
    split
    · rfl
    · split
      · split
        · exact ammotype_occupy _ _
        · rfl
      · split
        · simp only
          unfold addammo
          split_ifs <;> rfl
        · rfl
  unfold BaseInfo.Valid
  rw [htype]

theorem Counted.update (h : s.Counted inside) (gamemillis curtime : Int) :
    (s.update gamemillis curtime).Counted inside := by
  unfold Capture.update
  simp only
  split
  · exact h.of_eq rfl rfl rfl
  · obtain ⟨hclients, hbases, hgot, -⟩ := endcheck_eq (s := { s with gamemillis })
    split
    · exact h.of_eq hclients hbases hgot
    · next ht =>
      refine ⟨?_, ?_, fun hnot => ?_⟩
      · simp only [hclients]
        exact h.nodup
      · intro i b hb hv
        simp only [hbases, List.getElem?_map, Option.map_eq_some_iff] at hb
        obtain ⟨a, ha, rfl⟩ := hb
        have hva := (valid_updatebase _).mp hv
        have hn : present inside { s with gamemillis } i = s.present inside i := rfl
        refine right_updatebase ?_ hva (present_nobody i) (fun t => present_nonneg i t) (by omega)
        show a.Right (count inside _ i)
        simp only [hclients]
        exact h.right i a ha hva
      · simp only [hgot] at hnot
        show List.map _ _ = []
        rw [hbases, List.map_eq_nil_iff]
        exact h.got hnot

theorem counted_initial : (initial : Capture P).Counted inside :=
  ⟨List.nodup_nil, allRight_of_notgot rfl, fun _ => rfl⟩

theorem Counted.withinfo (h : s.Counted inside) {cn : Int} {f : Capturer P → Capture P}
    (hf : ∀ ci, s.getinfo cn = some ci → (f ci).Counted inside) :
    (s.withinfo cn f).Counted inside := by
  unfold Capture.withinfo
  cases hg : s.getinfo cn with
  | none => exact h
  | some ci => exact hf ci hg

/-- A client who is not alive leaves the bases as he is told to. -/
theorem Counted.away (h : s.Counted inside) {cn : Int} (hg : s.getinfo cn = some ci)
    {f : Capturer P → Capturer P} (hcn : ∀ c, (f c).cn = c.cn) (hteam : (f ci).team = ci.team)
    (haway : (f ci).state ≠ .alive) (hc : s.Leaves inside cn) :
    ((s.leavegame inside ci).upd cn f).Counted inside := by
  have hout : (f ci).within inside = fun _ => false := within_of_away (Or.inl haway)
  refine h.upd hg hcn hteam ?_ ?_
  · rw [hout]
    exact moves_leavegame h.got
  · rw [hout]
    exact hc ci hg

/-- Whatever happens to a client who is not alive, he is in no base. -/
theorem Counted.dead (h : s.Counted inside) {cn : Int} (hg : s.getinfo cn = some ci)
    {f : Capturer P → Capturer P} (hcn : ∀ c, (f c).cn = c.cn) (hci : ci.state ≠ .alive)
    (haway : (f ci).state ≠ .alive) : (s.upd cn f).Counted inside := by
  refine h.same hcn fun c hc x _ _ => ?_
  rw [hg] at hc
  obtain rfl := Option.some.inj hc
  funext t
  simp [marks, mark, within, hci, haway]

/-- **Every event** that is clean keeps the bases right. -/
theorem Counted.next (h : s.Counted inside) {e : CaptureEvent P} (hc : s.Clean inside e) :
    (s.next inside e).Counted inside := by
  cases e with
  | setup gotitems regencapture ammotypes gamelimit => exact h.setup _ _ _ _
  | parsebases ammotypes =>
    show (s.parsebases inside ammotypes).Counted inside
    unfold Capture.parsebases
    split
    · next hgot => exact Counted.enterall h.nodup rfl (fun i b hb => addbases_right hb) (hc hgot)
    · exact h
  | connected cn team state o =>
    show (s.connected cn team state o).Counted inside
    unfold Capture.connected
    split
    · next hfree =>
      refine ⟨Keyed.nodup_add h.nodup hfree.1, fun i b hb hv => ?_, h.got⟩
      have hn : count inside (s.clients ++ [⟨cn, team, state, o, false, -1⟩]) i =
          s.present inside i := count_append_away s.clients hfree.2 i
      show b.Right (count inside (s.clients ++ [⟨cn, team, state, o, false, -1⟩]) i)
      rw [hn]
      exact h.right i b hb hv
    · exact h
  | clientdisconnect cn =>
    exact h.withinfo fun ci hg => h.remove hg (moves_leavegame h.got) (hc ci hg)
  | forcespectator cn =>
    exact h.withinfo fun ci hg => h.away hg (fun _ => rfl) rfl CState.noConfusion hc
  | setstate cn state => exact h.stays (fun _ => rfl) (fun _ => rfl) hc
  | moved cn o gameclip =>
    refine h.withinfo fun ci hg => ?_
    split
    · next halive => exact h.upd hg (fun _ => rfl) rfl (moves_moved h.got halive o gameclip) (hc ci hg)
    · next haway => exact h.dead hg (fun _ => rfl) haway haway
  | sendspawn cn =>
    refine h.withinfo fun ci hg => ?_
    split
    · exact h.same (fun _ => rfl) fun c _ x _ _ => rfl
    · exact h
  | reassign cn o => exact h.stays (fun _ => rfl) (fun _ => rfl) hc
  | spawned cn =>
    refine h.withinfo fun ci hg => ?_
    split
    · next hgo => exact h.spawned hg hgo.1 hgo.2 hc
    · exact h
  | died cn =>
    refine h.withinfo fun ci hg => ?_
    split
    · next halive =>
      rw [died_eq halive]
      exact h.away hg (fun _ => rfl) rfl CState.noConfusion hc
    · exact h
  | setteam cn team =>
    refine h.withinfo fun ci hg => ?_
    split
    · next halive =>
      rw [changeteam_eq halive]
      exact h.setteam hg team (hc.1 ci hg) (hc.2 ci hg)
    · next haway => exact h.dead hg (fun _ => rfl) haway haway
  | update gamemillis curtime => exact h.update gamemillis curtime
  | setlimit gamelimit => exact h.of_eq rfl rfl rfl
  | startintermission => exact h.of_eq rfl rfl rfl

/-- **Every run** whose events are clean keeps the bases right. -/
theorem Counted.of_steps {es : List (CaptureEvent P)}
    (hrun : Run.Steps (Capture.step inside) (Clean inside) initial es s) : s.Counted inside := by
  refine hrun.invariant (Counted inside) (fun s e s' h hc hs => ?_) counted_initial
  obtain rfl := Except.ok.inj hs
  exact h.next hc

theorem bases_update (gamemillis curtime : Int) (htime : gamemillis < s.gamelimit)
    (ht : 1 ≤ gamemillis.tdiv 1000 - (gamemillis - curtime).tdiv 1000) :
    (s.update gamemillis curtime).bases = s.bases.map
      (s.updatebase (gamemillis.tdiv 1000 - (gamemillis - curtime).tdiv 1000)) := by
  obtain ⟨-, hbases, -, hregen⟩ := endcheck_eq (s := { s with gamemillis })
  unfold Capture.update
  simp only
  rw [if_neg (not_le.mpr htime), if_neg (not_lt.mpr ht)]
  simp only [hbases]
  refine List.map_congr_left fun b _ => ?_
  unfold updatebase
  simp only [hregen]

/-- **The counters of the bases** are the numbers of clients in them, and in a frame of a second or
more a base is nearer to being taken exactly if one team that does not own it is in it alone: in
every run in which no team comes into a base that another one is taking, and no client comes or
leaves without being counted. -/
theorem counters_right {es : List (CaptureEvent P)}
    (hrun : Run.Steps (Capture.step inside) (Clean inside) initial es s) {i : Nat} {b : BaseInfo}
    (hb : s.bases[i]? = some b) (hv : b.Valid) :
    b.owners = s.present inside i b.owner ∧ b.enemies = s.present inside i b.enemy ∧
      ∀ gamemillis curtime b', gamemillis < s.gamelimit →
        1 ≤ gamemillis.tdiv 1000 - (gamemillis - curtime).tdiv 1000 →
        (s.update gamemillis curtime).bases[i]? = some b' →
        (b.Advanced b' ↔ ∃ team, team ≠ b.owner ∧ 0 < s.present inside i team ∧
          ∀ t, t ≠ team → s.present inside i t = 0) := by
  have h := Counted.of_steps hrun
  have hright := h.right i b hb hv
  refine ⟨hright.owners, hright.enemies, fun gamemillis curtime b' htime ht hb' => ?_⟩
  rw [bases_update gamemillis curtime htime ht, List.getElem?_map, hb, Option.map_some] at hb'
  obtain rfl := Option.some.inj hb'
  rw [advanced_iff hright hv (fun t => present_nonneg i t) ht]
  exact hright.taken_iff (present_nobody i) fun t => present_nonneg i t

/-- Two players of one team come into a neutral base, and take it. -/
theorem counters_right_two : ∃ s : Capture Bool, ∃ b : BaseInfo, s.bases[0]? = some b ∧
    b.enemy = "evil" ∧ b.enemies = 2 ∧ s.present (fun _ o => o) 0 "evil" = 2 := by
  obtain ⟨s, hrun, b, hb, hv, henemy, hcount⟩ := Run.Steps.of_execIf (Capture.step fun _ o => o)
    (Clean fun _ o => o) initial
    [.setup true true [1] 600000, .connected 0 "evil" .dead false, .connected 1 "evil" .dead false,
      .sendspawn 0, .spawned 0, .sendspawn 1, .spawned 1, .moved 0 true false, .moved 1 true false]
    (p := fun s => ∃ b ∈ s.bases[0]?, b.Valid ∧ b.enemy = "evil" ∧ b.enemies = 2) (by decide)
  obtain ⟨-, henemies, -⟩ := counters_right hrun hb hv
  rw [henemy, hcount] at henemies
  exact ⟨s, b, hb, henemy, hcount, henemies.symm⟩

/-- An opponent comes into a neutral base that is being taken, its takers leave, and he is joined by
one of his own team: two are there, and one is counted. -/
theorem opponent_uncounted : ∃ s : Capture Bool, ∃ b : BaseInfo,
    Run.Reachable (Capture.step fun _ o => o) initial s ∧ s.bases[0]? = some b ∧ b.Valid ∧
      b.enemy = "good" ∧ b.enemies = 1 ∧ s.present (fun _ o => o) 0 "good" = 2 := by
  obtain ⟨s, hrun, hs⟩ := Run.Reachable.of_any (Capture.step fun _ o => o) initial
    [.setup true true [1] 600000, .connected 0 "evil" .dead false, .connected 1 "good" .dead false,
      .connected 2 "good" .dead false, .sendspawn 0, .spawned 0, .sendspawn 1, .spawned 1,
      .sendspawn 2, .spawned 2, .moved 0 true false, .moved 1 true false, .moved 0 false false,
      .moved 2 true false]
    (p := fun s => ∃ b ∈ s.bases[0]?, b.Valid ∧ b.enemy = "good" ∧ b.enemies = 1 ∧
      s.present (fun _ o => o) 0 "good" = 2) (by decide)
  obtain ⟨b, hb, hrest⟩ := of_decide_eq_true hs
  exact ⟨s, b, hrun, hb, hrest⟩

end Capture
end QServ
