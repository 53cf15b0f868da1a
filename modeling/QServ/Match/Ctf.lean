import QServ.Lib.Keyed
import QServ.Lib.Run
import QServ.Server.State

/-!
# Capture the flag

The game of `fpsgame/ctf.h` in its three modes (ctf, protect, hold), with the passing of flags.
Where the base of a flag is, is a test `near` of its spawn point and a position, of any kind.

* `Ctf.takeflag`, `Ctf.scoreflag`, `Ctf.dopassflagsequence`, `Ctf.update`: what moves a flag.
* `Ctf.next`: the events of a game.
-/

namespace QServ

/-- `ctfservmode::flag`. -/
structure Flag (P : Type) where
  version : Int := 0
  spawnindex : Int := -1
  spawnloc : P
  team : Int := 0
  droptime : Int := 0
  owntime : Int := 0
  holdtime : Int := 0
  owner : Int := -1
  dropcount : Int := 0
  dropper : Int := -1
  invistime : Int := 0
  deriving DecidableEq, Repr

namespace Flag

variable {P : Type} (f : Flag P)

/-- `INT_MAX`. -/
def INT_MAX : Int := 2 ^ 31 - 1

/-- `HOLDDEATHPENALTY`. -/
def HOLDDEATHPENALTY : Int := 5

/-- `hasowner()`. -/
def hasowner : Bool := 0 ≤ f.owner

/-- `ownflag(i, owner, owntime, ownteam)`. -/
def ownflag (owner owntime ownteam : Int) : Flag P :=
  let held := f.holdtime ≠ 0 ∧ f.team = ownteam
  let holdtime := if f.droptime ≠ 0 ∧ f.droptime < owntime then
    f.holdtime + 2 * (owntime - f.droptime) else f.holdtime
  { f with
    owner, owntime
    holdtime := if held then min holdtime owntime else owntime
    team := if ¬held ∧ 0 ≤ ownteam then ownteam else f.team
    dropcount := if owner = f.dropper then
      (if f.dropcount < INT_MAX then f.dropcount + 1 else f.dropcount) else 0
    dropper := -1
    invistime := 0 }

/-- `dropflag(i, o, droptime, dropper)`. -/
def dropflag (droptime dropper : Int) : Flag P :=
  { f with droptime, dropcount := if dropper < 0 then 0 else f.dropcount, dropper, owner := -1
           invistime := 0 }

/-- `returnflag(i, invistime)`. -/
def returnflag (invistime : Int) : Flag P :=
  { f with droptime := 0, holdtime := 0, dropcount := 0, owner := -1, dropper := -1, invistime }

/-- `deadflag(i)`. -/
def deadflag (lastmillis : Int) : Flag P :=
  if f.holdtime = 0 then f
  else
    let limit := if ¬f.hasowner ∧ f.droptime ≠ 0 ∧ f.holdtime ≤ f.droptime then f.droptime
      else lastmillis
    let holdtime := f.holdtime + HOLDDEATHPENALTY * 1000
    { f with holdtime := if limit ≤ holdtime then 0 else holdtime }

/-- What is done to the flags a client dropped who dies or leaves. -/
def forget (cn : Int) : Flag P :=
  if f.dropper = cn then { f with dropper := -1, dropcount := 0 } else f

/-- `spawnflag(i)`, `n` being the number of places and `draw` the number drawn last. -/
def spawn (n draw : Nat) : Flag P :=
  if n = 0 then f else { f with spawnindex := (draw % n : Nat) }

/-- `++f.version`. -/
def bump : Flag P := { f with version := f.version + 1 }

end Flag

/-- What the mode reads of a client, with the fields of QServ's flag runs. -/
structure Runner (P : Type) where
  cn : Int
  team : String
  state : CState
  o : P
  flags : Int := 0
  lasttakeflag : Int := 0
  hasPassedFlag : Bool := false

/-- `mapchange()`. -/
def Runner.mapchange {P : Type} (c : Runner P) : Runner P :=
  { c with state := if c.state = .spectator then .spectator else .dead, flags := 0,
           lasttakeflag := 0 }

/-- `_xi.lasttakeflag = t`. -/
def Runner.settake {P : Type} (t : Int) (c : Runner P) : Runner P := { c with lasttakeflag := t }

/-- `hasPassedFlag = b`. -/
def Runner.setpassed {P : Type} (b : Bool) (c : Runner P) : Runner P := { c with hasPassedFlag := b }

/-- `state.flags++`. -/
def Runner.addflag {P : Type} (c : Runner P) : Runner P := { c with flags := c.flags + 1 }

/-- The marks of a flag run are taken off. -/
def Runner.unmark {P : Type} (c : Runner P) : Runner P :=
  { c with lasttakeflag := 0, hasPassedFlag := false }

/-- What is sent to everybody about a flag. -/
inductive FlagMsg where
  | take (cn i version : Int)
  | drop (cn i version : Int)
  | return (cn i version : Int)
  | score (cn relay relayversion goal goalversion spawnindex team score flags : Int)
  | reset (i version spawnindex team score : Int)
  | invis (i : Int)
  deriving DecidableEq, Repr

/-- `ctfservmode`, the clients, and the clocks of the match; `runs` are the calls of
`_doflagrun(ci, timeused)`, `sent` the messages. -/
structure Ctf (P : Type) where
  clients : List (Runner P)
  flags : List (Flag P)
  holdspawns : List P
  scores : Int × Int
  notgotflags : Bool
  hold : Bool
  protect : Bool
  tkpenalty : Bool
  lastmillis : Int
  gamemillis : Int
  gamelimit : Int
  gamespeed : Int
  interm : Int
  runs : List (Int × Int) := []
  sent : List FlagMsg := []

/-- What happens in a game of the mode.  `setstate` is any change of what a client is doing that
the mode is not told of; `rnd` are the draws of `spawnflag`. -/
inductive CtfEvent (P : Type) where
  | setup (gotitems hold protect tkpenalty : Bool) (spots : List (P × Int))
    (gamelimit gamespeed : Int) (rnd : Nat → Nat)
  | parseflags (spots : List (P × Int)) (rnd : Nat → Nat)
  | connected (cn : Int) (team : String) (state : CState) (o : P) (flags : Int)
  | clientdisconnect (cn : Int)
  | forcespectator (cn : Int)
  | setstate (cn : Int) (state : CState)
  | moved (cn : Int) (o : P)
  | spawned (cn : Int)
  | died (cn : Int) (actor : Option Int)
  | setteam (cn : Int) (team : String)
  | takeflag (cn i version : Int)
  | trydropflag (cn : Int)
  | passflag (actor target : Int) (rnd : Nat → Nat)
  | update (lastmillis gamemillis : Int) (rnd : Nat → Nat)
  | changegamespeed (val : Int)
  | setlimit (gamelimit : Int)
  | startintermission

/-- `ctfteamflag(s)`. -/
def ctfteamflag (team : String) : Int := if team = "good" then 1 else if team = "evil" then 2 else 0

namespace Ctf

variable {P : Type} (near : P → P → Bool) (s : Ctf P)

/-- `MAXFLAGS`. -/
def MAXFLAGS : Nat := 20

/-- `FLAGLIMIT`. -/
def FLAGLIMIT : Int := 10

/-- `MAXHOLDSPAWNS`. -/
def MAXHOLDSPAWNS : Nat := 100

/-- `HOLDSECS`. -/
def HOLDSECS : Int := 20

/-- `RESETFLAGTIME`. -/
def RESETFLAGTIME : Int := 10000

/-- `INVISFLAGTIME`. -/
def INVISFLAGTIME : Int := 20000

/-- `getinfo(cn)` for a connected client. -/
def getinfo (cn : Int) : Option (Runner P) := Keyed.lookup Runner.cn cn s.clients

/-- Write through a `clientinfo *`. -/
def upd (cn : Int) (f : Runner P → Runner P) : Ctf P :=
  { s with clients := Keyed.modify Runner.cn cn f s.clients }

/-- Write through a `flag &`. -/
def updflag (i : Nat) (f : Flag P → Flag P) : Ctf P := { s with flags := s.flags.modify i f }

/-- `sendf(-1, 1, ...)`. -/
def sendf (m : FlagMsg) : Ctf P := { s with sent := s.sent ++ [m] }

/-- `flags[i].version`. -/
def version (i : Nat) : Int := (s.flags[i]?.map Flag.version).getD 0

/-- `flags[i].spawnindex`. -/
def spawnindex (i : Nat) : Int := (s.flags[i]?.map Flag.spawnindex).getD (-1)

/-- `totalscore(team)`. -/
def totalscore (team : Int) : Int :=
  if team = 1 then s.scores.1 else if team = 2 then s.scores.2 else 0

/-- `addscore(team, score)`; it returns `totalscore(team)` of the result. -/
def addscore (team score : Int) : Ctf P :=
  if team = 1 then { s with scores := (s.scores.1 + score, s.scores.2) }
  else if team = 2 then { s with scores := (s.scores.1, s.scores.2 + score) }
  else s

/-- `startintermission()`, which sets the speed of the game back to 100. -/
def startintermission : Ctf P :=
  { s with
    gamelimit := min s.gamelimit s.gamemillis
    gamespeed := if s.interm = 0 then 100 else s.gamespeed
    interm := if s.interm = 0 then s.gamemillis + 10000 else s.interm }

/-- `spawnflag(i)`. -/
def spawnflag (i draw : Nat) : Ctf P := s.updflag i fun f => f.spawn s.holdspawns.length draw

/-! ## Dropping -/

/-- `dropflag(ci, dropper)` for one flag. -/
def drop1 (ci : Runner P) (dropper : Int) (s : Ctf P) (i : Nat) : Ctf P :=
  match s.flags[i]? with
  | none => s
  | some f =>
    if f.owner ≠ ci.cn then s
    else if s.protect ∧ near f.spawnloc ci.o = true then
      (s.updflag i fun f => (f.returnflag 0).bump).sendf (.return ci.cn i (f.version + 1))
    else
      let s := s.sendf (.drop ci.cn i (f.version + 1))
      let s := s.upd ci.cn Runner.unmark
      s.updflag i fun f => (f.dropflag s.lastmillis dropper).bump

/-- `dropflag(ci, dropper)`. -/
def dropflag (ci : Runner P) (dropper : Int) : Ctf P :=
  if s.notgotflags then s else (List.range s.flags.length).foldl (drop1 near ci dropper) s

/-- The flags a client dropped are nobody's any more. -/
def forget (cn : Int) : Ctf P := { s with flags := s.flags.map fun f => f.forget cn }

/-- `leavegame(ci)`. -/
def leavegame (ci : Runner P) : Ctf P := (s.dropflag near ci ci.cn).forget ci.cn

/-- The flags a client holds lose some of the time they were held. -/
def deadflags (cn : Int) : Ctf P :=
  if s.hold then
    { s with flags := s.flags.map fun f => if f.owner = cn then f.deadflag s.lastmillis else f }
  else s

/-- `died(ci, actor)`. -/
def died (ci : Runner P) (actor : Option (Runner P)) : Ctf P :=
  if s.notgotflags then s
  else
    let dropper := match actor with
      | none => ci.cn
      | some a => if s.tkpenalty ∧ a.cn ≠ ci.cn ∧ a.team = ci.team then a.cn else ci.cn
    ((s.deadflags ci.cn).dropflag near ci dropper).forget ci.cn

/-! ## Taking and scoring -/

/-- The record of a flag run in `scoreflag`. -/
def doflagrun (ci : Runner P) : Ctf P :=
  let timeused := s.gamemillis - ci.lasttakeflag
  if ci.lasttakeflag ≠ 0 ∧ timeused ≤ 90 * 1000 then
    { s with runs := s.runs ++ [(ci.cn, timeused)] }
  else s

/-- The credit of a flag run in `scoreflag`. -/
def flagrun (ci : Runner P) : Ctf P :=
  let s := if ¬s.hold ∧ ¬s.protect ∧ ¬ci.hasPassedFlag then
      (s.doflagrun ci).upd ci.cn (Runner.settake 0)
    else s
  s.upd ci.cn (Runner.setpassed false)

/-- What `scoreflag(ci, goal, relay)` does to the flags. -/
def scoreflags (goal : Nat) (relay : Option Nat) (draw : Nat) : Ctf P :=
  let s := s.updflag (relay.getD goal) fun f =>
    f.returnflag (if s.protect then s.lastmillis else 0)
  let s := if s.hold then s.spawnflag goal draw else s
  let s := match relay with
    | none => s
    | some j => s.updflag j Flag.bump
  s.updflag goal Flag.bump

/-- `scoreflag(ci, goal, relay)`. -/
def scoreflag (ci : Runner P) (goal : Nat) (relay : Option Nat) (draw : Nat) : Ctf P :=
  let s := s.scoreflags goal relay draw
  let s := s.upd ci.cn Runner.addflag
  let team := ctfteamflag ci.team
  let s := s.addscore team 1
  let s := s.sendf (.score ci.cn ((relay.map Int.ofNat).getD (-1))
    ((relay.map s.version).getD (-1)) goal (s.version goal) (s.spawnindex goal) team
    (s.totalscore team) (ci.flags + 1))
  let s := s.flagrun ci
  if FLAGLIMIT ≤ s.totalscore team then s.startintermission else s

/-- The client owns a flag: the number of the first one. -/
def carried (cn : Int) : Option Nat := s.flags.findIdx? fun f => f.owner = cn

/-- A take request that `takeflag` looks at. -/
def Takes (ci : Runner P) (f : Flag P) (version : Int) : Prop :=
  s.notgotflags = false ∧ ci.state = .alive ∧ ci.team ≠ "" ∧
    (if s.hold then 0 ≤ f.spawnindex else f.team = 1 ∨ f.team = 2) ∧ f.owner < 0 ∧
    f.version = version ∧ ¬(f.droptime ≠ 0 ∧ f.dropper = ci.cn ∧ 3 ≤ f.dropcount)

instance (ci : Runner P) (f : Flag P) (version : Int) : Decidable (s.Takes ci f version) :=
  inferInstanceAs (Decidable (_ ∧ _))

/-- A client picks the flag up, rather than scoring with it or returning it. -/
def Owns (ci : Runner P) (f : Flag P) : Prop :=
  s.hold = true ∨ (s.protect = true ↔ f.team = ctfteamflag ci.team)

instance (ci : Runner P) (f : Flag P) : Decidable (s.Owns ci f) :=
  inferInstanceAs (Decidable (_ ∨ _))

/-- The time of a take for flag runs: none at another speed of the game, and never 0. -/
def taketime : Int := if s.gamespeed = 100 then (if s.gamemillis ≠ 0 then s.gamemillis else 1) else 0

/-- A flag picked up, with the clock of flag runs when it was at home. -/
def pickup (ci : Runner P) (i : Nat) (f : Flag P) : Ctf P :=
  let s := s.updflag i fun f =>
    (f.ownflag ci.cn s.lastmillis (if s.hold then ctfteamflag ci.team else -1)).bump
  let s := s.sendf (.take ci.cn i (f.version + 1))
  if f.droptime = 0 ∧ ¬s.protect ∧ ¬s.hold then s.upd ci.cn (Runner.settake s.taketime) else s

/-- `takeflag(ci, i, version)`. -/
def takeflag (ci : Runner P) (i : Nat) (version : Int) : Ctf P :=
  match s.flags[i]? with
  | none => s
  | some f =>
    if ¬s.Takes ci f version then s
    else if s.Owns ci f then
      if (s.carried ci.cn).isSome then s else s.pickup ci i f
    else if s.protect then
      if f.invistime = 0 then s.scoreflag ci i none 0 else s
    else if f.droptime ≠ 0 then
      (s.updflag i fun f => (f.returnflag 0).bump).sendf (.return ci.cn i (f.version + 1))
    else
      match s.carried ci.cn with
      | none => s
      | some j => s.scoreflag ci i (some j) 0

/-! ## Frames and passes -/

/-- A flag that lay for too long goes home, as one that is scored. -/
def resetflag (draw i : Nat) (f : Flag P) : Ctf P :=
  if f.owner < 0 ∧ f.droptime ≠ 0 ∧ RESETFLAGTIME ≤ s.lastmillis - f.droptime then
    let s := s.scoreflags i none draw
    let s := if s.hold then s else s.addscore f.team (if s.protect then -1 else 0)
    s.sendf (.reset i (f.version + 1) (s.spawnindex i) (if s.hold then 0 else f.team)
      (if s.hold then 0 else s.totalscore f.team))
  else s

/-- A flag that was invisible for long enough is seen again. -/
def showflag (i : Nat) : Ctf P :=
  match s.flags[i]? with
  | none => s
  | some f =>
    if f.invistime ≠ 0 ∧ INVISFLAGTIME ≤ s.lastmillis - f.invistime then
      (s.updflag i fun f => { f with invistime := 0 }).sendf (.invis i)
    else s

/-- A flag held for long enough scores. -/
def holdflag (draw i : Nat) : Ctf P :=
  match s.flags[i]? with
  | none => s
  | some f =>
    if s.hold ∧ 0 ≤ f.owner ∧ HOLDSECS * 1000 ≤ s.lastmillis - f.holdtime then
      match s.getinfo f.owner with
      | some ci => s.scoreflag ci i none draw
      | none =>
        let s := (s.spawnflag i draw).updflag i Flag.bump
        s.sendf (.reset i (f.version + 1) (s.spawnindex i) 0 0)
    else s

/-- The body of the loop of `update`. -/
def update1 (rnd : Nat → Nat) (s : Ctf P) (i : Nat) : Ctf P :=
  match s.flags[i]? with
  | none => s
  | some f => ((s.resetflag (rnd i) i f).showflag i).holdflag (rnd i) i

/-- `update()`. -/
def update (rnd : Nat → Nat) : Ctf P :=
  if s.gamelimit ≤ s.gamemillis ∨ s.notgotflags then s
  else (List.range s.flags.length).foldl (update1 rnd) s

/-- The body of the loop of `dopassflagsequence`. -/
def pass1 (rnd : Nat → Nat) (actor target : Runner P) (s : Ctf P) (i : Nat) : Ctf P :=
  match s.flags[i]? with
  | none => s
  | some f =>
    if f.owner ≠ actor.cn then s
    else
      let s := s.updflag i fun f => f.returnflag 0
      let s := (s.dropflag near actor actor.cn).forget actor.cn
      let s := match s.getinfo target.cn with
        | none => s
        | some target => s.takeflag target i (s.version i)
      let s := s.update rnd
      s.upd target.cn (Runner.setpassed true)

/-- `dopassflagsequence(actor, target)`. -/
def dopassflagsequence (rnd : Nat → Nat) (actor target : Runner P) : Ctf P :=
  (List.range s.flags.length).foldl (pass1 near rnd actor target) s

/-! ## Maps -/

/-- `addflag(i, o, team, invistime)` for each of the flags of a map. -/
def addflags (spots : List (P × Int)) (invistime : Int) : List (Flag P) :=
  (spots.take MAXFLAGS).map fun spot => { spawnloc := spot.1, team := spot.2, invistime }

/-- `setupholdspawns()`.  Where a flag of this mode spawns is told by its index. -/
def setupholdspawns (draw : Nat) : Ctf P :=
  match s.holdspawns with
  | [] => s
  | o :: _ =>
    let s := { s with flags := [{ spawnloc := o }] }
    let s := (s.spawnflag 0 draw).updflag 0 Flag.bump
    s.sendf (.reset 0 (s.version 0) (s.spawnindex 0) 0 0)

/-- The flags of a map are set up. -/
def setupflags (spots : List (P × Int)) (rnd : Nat → Nat) : Ctf P :=
  let s := if s.hold then
      { s with holdspawns := (spots.take MAXHOLDSPAWNS).map Prod.fst }.setupholdspawns (rnd 0)
    else { s with flags := addflags spots (if s.protect then s.lastmillis else 0) }
  { s with notgotflags := false }

/-- `setup()`, after the clients were reset for a new map. -/
def setup (gotitems hold protect tkpenalty : Bool) (spots : List (P × Int))
    (gamelimit gamespeed : Int) (rnd : Nat → Nat) : Ctf P :=
  let s := { s with
    clients := s.clients.map Runner.mapchange
    flags := [], holdspawns := [], scores := (0, 0), notgotflags := true, hold, protect
    tkpenalty, gamemillis := 0, gamelimit, gamespeed, interm := 0 }
  if gotitems then s.setupflags spots rnd else s

/-- `parseflags(p, commit)` of a list of flags that is taken over. -/
def parseflags (spots : List (P × Int)) (rnd : Nat → Nat) : Ctf P :=
  if s.notgotflags then s.setupflags spots rnd else s

/-- `changegamespeed(val)` in a game of the mode. -/
def changegamespeed (val : Int) : Ctf P :=
  let val := max 10 (min val 1000)
  let s := if val ≠ 100 then
    { s with clients := s.clients.map (Runner.settake 0) } else s
  { s with gamespeed := val }

/-- Run something on a client that is connected. -/
def withinfo (cn : Int) (f : Runner P → Ctf P) : Ctf P :=
  match s.getinfo cn with
  | none => s
  | some ci => f ci

/-- `connected(ci)`: a client who is not alive yet, with the flags of his saved score. -/
def connected (cn : Int) (team : String) (state : CState) (o : P) (flags : Int) : Ctf P :=
  if s.getinfo cn = none ∧ 0 ≤ cn ∧ state ≠ .alive then
    { s with clients := s.clients ++ [{ cn, team, state, o, flags }] }
  else s

/-- What `dodamage` asks before a flag is passed. -/
def passflag (rnd : Nat → Nat) (actor target : Runner P) : Ctf P :=
  if actor.cn ≠ target.cn ∧ actor.team = target.team ∧ target.state = .alive then
    s.dopassflagsequence near rnd actor target
  else s

/-- One event. -/
def next (s : Ctf P) : CtfEvent P → Ctf P
  | .setup gotitems hold protect tkpenalty spots gamelimit gamespeed rnd =>
    s.setup gotitems hold protect tkpenalty spots gamelimit gamespeed rnd
  | .parseflags spots rnd => s.parseflags spots rnd
  | .connected cn team state o flags => s.connected cn team state o flags
  | .clientdisconnect cn => s.withinfo cn fun ci =>
    let s := s.leavegame near ci
    { s with clients := Keyed.remove Runner.cn cn s.clients }
  | .forcespectator cn => s.withinfo cn fun ci =>
    (s.leavegame near ci).upd cn fun c => { c with state := .spectator }
  | .setstate cn state => s.upd cn fun c => { c with state }
  | .moved cn o => s.upd cn fun c => { c with o }
  | .spawned cn => s.withinfo cn fun ci =>
    if ci.state = .dead then s.upd cn fun c => { c with state := .alive } else s
  | .died cn actor => s.withinfo cn fun ci =>
    if ci.state = .alive then
      (s.died near ci (actor.bind s.getinfo)).upd cn fun c => { c with state := .dead }
    else s
  | .setteam cn team => s.withinfo cn fun ci =>
    (if ci.state = .alive then s.dropflag near ci ci.cn else s).upd cn fun c => { c with team }
  | .takeflag cn i version => s.withinfo cn fun ci =>
    if 0 ≤ i then s.takeflag ci i.toNat version else s
  | .trydropflag cn => s.withinfo cn fun ci => s.dropflag near ci ci.cn
  | .passflag actor target rnd => s.withinfo actor fun a => s.withinfo target fun t =>
    s.passflag near rnd a t
  | .update lastmillis gamemillis rnd => { s with lastmillis, gamemillis }.update rnd
  | .changegamespeed val => s.changegamespeed val
  | .setlimit gamelimit => { s with gamelimit }
  | .startintermission => s.startintermission

/-- The mode as a system; no event fails. -/
def step (s : Ctf P) (e : CtfEvent P) : Except Fault (Ctf P) := .ok (s.next near e)

/-- No client is connected and no map loaded. -/
def initial : Ctf P where
  clients := []
  flags := []
  holdspawns := []
  scores := (0, 0)
  notgotflags := true
  hold := false
  protect := false
  tkpenalty := true
  lastmillis := 0
  gamemillis := 0
  gamelimit := 0
  gamespeed := 100
  interm := 0

end Ctf
end QServ
