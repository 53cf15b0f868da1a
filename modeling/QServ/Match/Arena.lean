import QServ.Match.Bases
import QServ.Match.Flags
import QServ.Match.Tokens

/-!
# The match

A match in one of the modes with a `smode` (the three of `ctf.h`, `capture.h`, `collect.h`): the
frags of `fpsgame/server.cpp`, the clock of the match, and when in a frame the mode is updated.

* `Clock.checkintermission`, `Clock.startintermission`: how a match ends.
* `Arena.kill`, `Arena.suicide`: what a death counts.
* `Arena.next`: the messages of the clients, and what `serverupdate` does in a frame.
-/

namespace QServ

/-- `gamemillis`, `gamelimit` and `interm`. -/
structure Clock where
  gamemillis : Int
  gamelimit : Int
  interm : Int
  deriving DecidableEq, Repr

namespace Clock

variable (c : Clock)

/-- `checkintermission(force)`; `tied` is what `checkovertime()` finds. -/
def checkintermission (force tied : Bool) : Clock :=
  if c.gamelimit ≤ c.gamemillis ∧ c.interm = 0 then
    if !force && tied then { c with gamelimit := max c.gamemillis c.gamelimit + 2 * 60000 }
    else { c with interm := c.gamemillis + 10000 }
  else c

/-- `startintermission()`. -/
def startintermission : Clock :=
  { c with gamelimit := min c.gamelimit c.gamemillis }.checkintermission true false

/-- The end of `serverupdate`: the intermission itself is over. -/
def endintermission : Clock :=
  if 0 < c.interm ∧ c.interm < c.gamemillis then { c with interm := -1 } else c

/-- **The match is over**: the intermission has started, or the time limit is reached. -/
def Over : Prop := c.interm ≠ 0 ∨ c.gamelimit ≤ c.gamemillis

instance : Decidable c.Over := inferInstanceAs (Decidable (_ ∨ _))

end Clock

/-- `smode`. -/
inductive Mode (P : Type) where
  | ctf (g : Ctf P)
  | capture (g : Capture P)
  | collect (g : Collect)

namespace Capture

variable {P : Type} (s : Capture P)

/-- The loop of `update` over the bases, after `t` seconds. -/
def updatebases (t : Int) : Capture P :=
  if t < 1 then s
  else { s with scores := s.bases.foldl (updatescores t) s.scores,
                bases := s.bases.map (s.updatebase t) }

/-- `update` is `endcheck` and the loop. -/
theorem update_eq (gamemillis curtime : Int) (h : gamemillis < s.gamelimit) :
    s.update gamemillis curtime = { s with gamemillis }.endcheck.updatebases
      (gamemillis.tdiv 1000 - (gamemillis - curtime).tdiv 1000) := by
  unfold update updatebases
  simp only
  rw [if_neg (not_le.mpr h)]

end Capture

/-- A message of a client, or an operation on one, that the mode alone deals with. -/
def CtfEvent.message {P : Type} : CtfEvent P → Bool
  | .parseflags .. | .forcespectator .. | .setstate .. | .moved .. | .spawned .. | .setteam ..
  | .takeflag .. | .trydropflag .. | .changegamespeed .. => true
  | .setup .. | .connected .. | .clientdisconnect .. | .died .. | .passflag .. | .update ..
  | .setlimit .. | .startintermission => false

/-- A message of a client, or an operation on one, that the mode alone deals with. -/
def CaptureEvent.message {P : Type} : CaptureEvent P → Bool
  | .parsebases .. | .forcespectator .. | .setstate .. | .moved .. | .sendspawn .. | .reassign ..
  | .spawned .. | .setteam .. => true
  | .setup .. | .connected .. | .clientdisconnect .. | .died .. | .update .. | .setlimit ..
  | .startintermission => false

/-- A message of a client, or an operation on one, that the mode alone deals with. -/
def CollectEvent.message : CollectEvent → Bool
  | .parsebases .. | .forcespectator .. | .setstate .. | .spawn .. | .switchteam ..
  | .deposittokens .. | .taketoken .. => true
  | .setup .. | .connected .. | .clientdisconnect .. | .died .. | .update .. | .startintermission =>
    false

namespace Mode

variable {P : Type} (near : P → P → Bool) (inside : Nat → P → Bool)

/-- The clock of the match. -/
def clock : Mode P → Clock
  | ctf g => ⟨g.gamemillis, g.gamelimit, g.interm⟩
  | capture g => ⟨g.gamemillis, g.gamelimit, g.interm⟩
  | collect g => ⟨g.gamemillis, g.gamelimit, g.interm⟩

/-- The clock is set; the speed of the game is 100 when the intermission starts. -/
def setclock (c : Clock) : Mode P → Mode P
  | ctf g => ctf { g with
      gamemillis := c.gamemillis, gamelimit := c.gamelimit, interm := c.interm
      gamespeed := if g.interm = 0 ∧ c.interm ≠ 0 then 100 else g.gamespeed }
  | capture g => capture { g with
      gamemillis := c.gamemillis, gamelimit := c.gamelimit, interm := c.interm }
  | collect g => collect { g with
      gamemillis := c.gamemillis, gamelimit := c.gamelimit, interm := c.interm }

/-- `lastmillis`, which the frame of capture does not read. -/
def setmillis (lastmillis : Int) : Mode P → Mode P
  | ctf g => ctf { g with lastmillis }
  | capture g => capture g
  | collect g => collect { g with lastmillis }

/-- `getinfo(cn)`: the team of a connected client, and what he is doing. -/
def getinfo (cn : Int) : Mode P → Option (String × CState)
  | ctf g => (g.getinfo cn).map fun c => (c.team, c.state)
  | capture g => (g.getinfo cn).map fun c => (c.team, c.state)
  | collect g => (g.getinfo cn).map fun c => (c.team, c.state)

/-- The connected clients with their flags. -/
def tally : Mode P → List (Int × Int)
  | ctf g => g.clients.map fun c => (c.cn, c.flags)
  | capture g => g.clients.map fun c => (c.cn, 0)
  | collect g => g.clients.map fun c => (c.cn, c.flags)

/-- `getteamscores(scores)`, with the teams that have none. -/
def scores : Mode P → List (String × Int)
  | ctf g => [("good", g.scores.1), ("evil", g.scores.2)]
  | capture g => g.scores
  | collect g => [("good", g.scores.1), ("evil", g.scores.2)]

/-- `teamhasplayers(team)`. -/
def teamhasplayers (team : String) : Mode P → Bool
  | ctf g => g.clients.any fun c => c.team = team
  | capture g => g.clients.any fun c => c.team = team
  | collect g => g.clients.any fun c => c.team = team

/-- `smode->died(victim, actor)`, and the victim is dead. -/
def died (cn : Int) (actor : Option Int) (m : Mode P) : Mode P :=
  match m with
  | ctf g => ctf (g.next near (.died cn actor))
  | capture g => capture (g.next inside (.died cn))
  | collect g =>
    let penalty := match actor.bind m.getinfo, m.getinfo cn with
      | some a, some c => a.1 = c.1
      | _, _ => true
    collect (g.step (.died cn penalty))

/-- `connected(ci)`. -/
def connected (cn : Int) (team : String) (state : CState) (o : P) (flags : Int) : Mode P → Mode P
  | ctf g => ctf (g.next near (.connected cn team state o flags))
  | capture g => capture (g.next inside (.connected cn team state o))
  | collect g => collect (g.step (.connected cn team state))

/-- `clientdisconnect(cn)`. -/
def clientdisconnect (cn : Int) : Mode P → Mode P
  | ctf g => ctf (g.next near (.clientdisconnect cn))
  | capture g => capture (g.next inside (.clientdisconnect cn))
  | collect g => collect (g.step (.clientdisconnect cn))

/-- `ctfmode.dopassflagsequence(actor, target)`. -/
def passflag (actor target : Int) (rnd : Nat → Nat) : Mode P → Mode P
  | ctf g => ctf (g.next near (.passflag actor target rnd))
  | m => m

end Mode

/-- How an event of a client comes to be processed: in `processevents`, or in `flushevents` when
he asks to spawn again (`suicide` is called by messages, too). -/
inductive Path where
  | frame
  | message
  deriving DecidableEq, Repr

/-- Where `serverupdate` is. -/
inductive Phase where
  | idle
  | events
  | bases
  deriving DecidableEq, Repr

/-- A match: the mode with the clients, their frags and deaths, `teaminfos`, and where
`serverupdate` is. -/
structure Arena (P : Type) where
  mode : Mode P
  frags : Int → Int
  deaths : Int → Int
  teaminfos : List (String × Int)
  phase : Phase := .idle

/-- What happens in a match until the next map is loaded. -/
inductive ArenaEvent (P : Type) where
  | ctf (e : CtfEvent P)
  | capture (e : CaptureEvent P)
  | collect (e : CollectEvent)
  | connected (cn : Int) (team : String) (state : CState) (o : P) (frags deaths flags : Int)
  | clientdisconnect (cn : Int)
  | addteaminfo (team : String)
  | kill (via : Path) (actor target : Int)
  | suicide (via : Path) (cn : Int)
  | passflag (via : Path) (actor target : Int) (rnd : Nat → Nat)
  | frame (lastmillis : Int) (curtime : Nat)
  | update (rnd : Nat → Nat)
  | updatebases (curtime : Nat)
  | endframe (curtime : Nat) (tied : Bool)
  | endgame
  | startintermission

namespace Arena

variable {P : Type} (near : P → P → Bool) (inside : Nat → P → Bool) (a : Arena P)

/-- `MAXTEAMS`. -/
def MAXTEAMS : Nat := 128

/-- The clock of the match. -/
def clock : Clock := a.mode.clock

/-- `fragvalue(victim, actor)`, given whether they are of one team. -/
def fragvalue (isteam : Bool) : Int := if isteam then -1 else 1

/-- `state.frags += v`. -/
def addfrags (cn v : Int) : Arena P := { a with frags := Function.update a.frags cn (a.frags cn + v) }

/-- `state.deaths++`. -/
def adddeath (cn : Int) : Arena P :=
  { a with deaths := Function.update a.deaths cn (a.deaths cn + 1) }

/-- `if(t) t->frags += v` of the team. -/
def addteamfrags (team : String) (v : Int) : Arena P :=
  { a with teaminfos := Keyed.modify Prod.fst team (fun t => (t.1, t.2 + v)) a.teaminfos }

/-- The frags of a team. -/
def teamfrags (team : String) : Int := ((Keyed.lookup Prod.fst team a.teaminfos).map Prod.snd).getD 0

/-- `addteaminfo(team)`, with `pruneteaminfo()` where there are too many. -/
def addteaminfo (team : String) : Arena P :=
  if (Keyed.lookup Prod.fst team a.teaminfos).isSome then a
  else if a.teaminfos.length < MAXTEAMS then { a with teaminfos := a.teaminfos ++ [(team, 0)] }
  else
    let pruned := a.teaminfos.filter fun t => t.2 ≠ 0 || a.mode.teamhasplayers t.1
    if pruned.length < a.teaminfos.length then { a with teaminfos := pruned ++ [(team, 0)] } else a

/-- The events of the clients are processed on this path. -/
def Processes (via : Path) : Prop := via = .message ∨ a.phase = .events

instance (via : Path) : Decidable (a.Processes via) := inferInstanceAs (Decidable (_ ∨ _))

/-- A lethal hit of `dodamage(target, actor)`. -/
def kill (actor target : Int) : Arena P :=
  match a.mode.getinfo actor, a.mode.getinfo target with
  | some (actorteam, _), some (team, .alive) =>
    let v := fragvalue (target = actor || team = actorteam)
    let a := ((a.adddeath target).addfrags actor v).addteamfrags actorteam v
    { a with mode := a.mode.died near inside target (some actor) }
  | _, _ => a

/-- `suicide(ci)`. -/
def suicide (cn : Int) : Arena P :=
  match a.mode.getinfo cn with
  | some (team, .alive) =>
    let v := fragvalue true
    let a := ((a.addfrags cn v).adddeath cn).addteamfrags team v
    { a with mode := a.mode.died near inside cn none }
  | _ => a

/-- `smode->update()`, of capture only `endcheck()`. -/
def update (rnd : Nat → Nat) : Arena P :=
  match a.mode with
  | .ctf g => { a with mode := .ctf (g.update rnd) }
  | .capture g =>
    if g.gamelimit ≤ g.gamemillis then a else { a with mode := .capture g.endcheck, phase := .bases }
  | .collect g => { a with mode := .collect (g.update g.lastmillis g.gamemillis) }

/-- The rest of `captureservmode::update()`. -/
def updatebases (curtime : Int) : Arena P :=
  match a.mode with
  | .capture g =>
    let t := g.gamemillis.tdiv 1000 - (g.gamemillis - curtime).tdiv 1000
    { a with mode := .capture (g.updatebases t), phase := .events }
  | _ => a

/-- The beginning of `serverupdate`. -/
def frame (lastmillis curtime : Int) : Arena P :=
  let gamemillis := a.clock.gamemillis + curtime
  { a with mode := (a.mode.setmillis lastmillis).setclock { a.clock with gamemillis }
           phase := if gamemillis < a.clock.gamelimit then .events else .idle }

/-- The end of `serverupdate`. -/
def endframe (curtime : Int) (tied : Bool) : Arena P :=
  let c := if 0 < a.clock.gamemillis - curtime then a.clock.checkintermission false tied else a.clock
  { a with mode := a.mode.setclock c.endintermission, phase := .idle }

/-- One event. -/
def next (a : Arena P) : ArenaEvent P → Arena P
  | .ctf e =>
    match a.mode with
    | .ctf g => if e.message then { a with mode := .ctf (g.next near e) } else a
    | _ => a
  | .capture e =>
    match a.mode with
    | .capture g => if e.message then { a with mode := .capture (g.next inside e) } else a
    | _ => a
  | .collect e =>
    match a.mode with
    | .collect g => if e.message then { a with mode := .collect (g.step e) } else a
    | _ => a
  | .connected cn team state o frags deaths flags =>
    if a.mode.getinfo cn = none then
      { a with mode := a.mode.connected near inside cn team state o flags
               frags := Function.update a.frags cn frags
               deaths := Function.update a.deaths cn deaths }
    else a
  | .clientdisconnect cn =>
    { a with mode := a.mode.clientdisconnect near inside cn
             frags := Function.update a.frags cn 0, deaths := Function.update a.deaths cn 0 }
  | .addteaminfo team => a.addteaminfo team
  | .kill via actor target => if a.Processes via then a.kill near inside actor target else a
  | .suicide via cn => if a.Processes via then a.suicide near inside cn else a
  | .passflag via actor target rnd =>
    if a.Processes via then { a with mode := a.mode.passflag near actor target rnd } else a
  | .frame lastmillis curtime => a.frame lastmillis curtime
  | .update rnd => if a.phase = .events then a.update rnd else a
  | .updatebases curtime => if a.phase = .bases then a.updatebases curtime else a
  | .endframe curtime tied => a.endframe curtime tied
  | .endgame => { a with mode := a.mode.setclock { a.clock with gamelimit := a.clock.gamemillis } }
  | .startintermission => { a with mode := a.mode.setclock a.clock.startintermission }

/-- The match as a system; no event fails. -/
def step (a : Arena P) (e : ArenaEvent P) : Except Fault (Arena P) := .ok (a.next near inside e)

end Arena
end QServ
