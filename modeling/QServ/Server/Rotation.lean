import QServ.Server.Disconnect

/-!
# Map rotation and map changes

The rotation list (`maprotations`, `findmaprotation`, `nextmaprotation`), the choice
`rotatemap` makes from it, and what `changemap` does to the session.  A rotation entry may
name a game mode that is for local play only; changing to such a mode throws out every
network client (`kicknonlocalclients`).
-/

namespace QServ

namespace MapRotation

variable (exclude : Nat) (rot : MapRotation)

/-- Bit `k` of `calcmodemask()`: the modes of a `*` entry are those no other entry names. -/
def modebit (k : Nat) : Bool :=
  rot.modes.testBit k && !(rot.modes.testBit NUMGAMEMODES && exclude.testBit k)

/-- `hasmode(mode)`. -/
def hasmode (mode : Int) : Bool := rot.modebit exclude (mode - STARTGAMEMODE).toNat

/-- `findmode(mode)`: the mode itself if the entry has it, else its first mode. -/
def findmode (mode : Int) : Int :=
  if rot.hasmode exclude mode then mode
  else match (List.range NUMGAMEMODES).find? (rot.modebit exclude) with
    | some k => k + STARTGAMEMODE
    | none => mode

/-- `match(reqmode, reqmap)`. -/
def matches_ (reqmode : Int) (reqmap : String) : Bool :=
  rot.hasmode exclude reqmode &&
    (decide (rot.map = "") || decide (reqmap = "") || decide (rot.map = reqmap))

/-- `includes(rot)`. -/
def includes (r : MapRotation) : Bool :=
  if r.modes = rot.modes then decide (r.map ≠ "") && decide (rot.map = "")
  else decide (r.modes &&& rot.modes = r.modes)

end MapRotation

/-- What `mapchange()` does to the state of one client. -/
def ClientInfo.mapchange (c : ClientInfo) : ClientInfo :=
  { c with state := if c.state = .spectator then .spectator else .dead, exceeded := 0,
           overflow := 0, clientmap := "", mapcrc := 0 }

namespace Server

variable (s : Server)

/-- `maprotations.inrange(i) && maprotations[i].modes`. -/
def rotmodes (i : Int) : Bool :=
  if i < 0 then false
  else match s.maprotations[i.toNat]? with
    | some rot => decide (rot.modes ≠ 0)
    | none => false

/-- The start of the group of entries that ends at `i`: the `do … while` of
`nextmaprotation`, and the loop for `start` in `findmaprotation`. -/
def rotstart : Nat → Int
  | 0 => 0
  | i + 1 => if s.rotmodes i then rotstart i else (i : Int) + 1

/-- `nextmaprotation()`: the next entry of the group, or its first one again. -/
def nextmaprotation : Int :=
  if s.rotmodes (s.curmaprotation + 1) then s.curmaprotation + 1
  else s.rotstart (s.curmaprotation + 1).toNat

/-- The first entry from `i` on, `n` of them at most and within the group, that matches. -/
def rotsearch (mode : Int) (map : String) : Nat → Nat → Option Nat
  | 0, _ => none
  | n + 1, i =>
    match s.maprotations[i]? with
    | none => none
    | some rot =>
      if rot.modes = 0 then none
      else if rot.matches_ s.rotexclude mode map then some i
      else rotsearch mode map n (i + 1)

/-- The last part of `findmaprotation`: of all matching entries, one that includes the
ones before it. -/
def rotbest (mode : Int) (map : String) : Int :=
  (List.range s.maprotations.length).foldl (fun best i =>
    match s.maprotations[i]? with
    | none => best
    | some rot =>
      if rot.matches_ s.rotexclude mode map then
        if best < 0 then (i : Int)
        else match s.maprotations[best.toNat]? with
          | some b => if b.includes rot then (i : Int) else best
          | none => best
      else best) (-1)

/-- `findmaprotation(mode, map)`. -/
def findmaprotation (mode : Int) (map : String) : Int :=
  let cur := (max s.curmaprotation 0).toNat
  match s.rotsearch mode map (s.maprotations.length - cur) cur with
  | some i => i
  | none =>
    let start := (s.rotstart cur).toNat
    match s.rotsearch mode map (s.curmaprotation.toNat - start) start with
    | some i => i
    | none => s.rotbest mode map

/-! ## Changing the map -/

/-- `changemap(map, mode)` up to the point where network clients are thrown out: the game
is unpaused, the bots are removed and the clocks are set back. -/
def startmap (map : String) (mode : Int) : Server :=
  let s := s.pausegame false
  let s := s.changegamespeed s.cfg.defaultgamespeed
  let s := s.clearai
  { s with gamemode := mode, gamemillis := 0, gamelimit := 10 * 60000, nextexceeded := 0,
           smapname := map }

/-- `kicknonlocalclients(reason)`: the engine's slots from the first to the last. -/
def kicknonlocalclients (reason : Disc) : Server :=
  (List.range MAXCLIENTS.toNat).foldl (fun s (i : Nat) => s.disconnectClient i reason) s

/-- The loop of `changemap` that calls `mapchange()` for every client. -/
def mapchanges : Server :=
  s.clients.foldl (fun s n => s.upd n ClientInfo.mapchange) s

/-- The end of `changemap`: the new map is announced. -/
def announcemap : Server :=
  (s.sendf (-1) 1 [.int MsgType.nMapchange.code, .str s.smapname, .int s.gamemode,
    .int 1]).mapchanges

/-- `changemap(map, mode)`. -/
def changemap (map : String) (mode : Int) : Server :=
  let s := s.startmap map mode
  let s := if mMp mode then s else s.kicknonlocalclients .localmode
  s.announcemap

/-- The state in which `rotatemap(next)` has chosen the entry to play. -/
def advance (next : Bool) : Server :=
  if next then
    let cur := s.findmaprotation s.gamemode s.smapname
    let s := { s with curmaprotation := cur }
    { s with curmaprotation :=
        if 0 ≤ cur then s.nextmaprotation
        else if s.smapname ≠ "" then max (s.findmaprotation s.gamemode "") 0 else 0 }
  else s

/-- `rotatemap(next)`. -/
def rotatemap (next : Bool) : Except Fault Server :=
  if s.curmaprotation < 0 ∨ s.maprotations.length ≤ s.curmaprotation then .ok (s.changemap "" 1)
  else
    let s := s.advance next
    match s.maprotations[s.curmaprotation.toNat]? with
    | none => .error .outOfRange
    | some rot => .ok (s.changemap rot.map (rot.findmode s.rotexclude s.gamemode))

/-- `numclients(exclude, true, true, true)`: humans that play, or hold a privilege. -/
def numactive (exclude : Int) : Nat :=
  (s.cl.filter fun c => decide (c.clientnum ≠ exclude) && decide (c.aitype = .human) &&
    (decide (c.state ≠ .spectator) || decide (c.privilege ≠ .none) || c.isLocal)).length

/-- `hasmap(ci)`. -/
def hasmap (c : ClientInfo) : Bool :=
  (mEdit s.gamemode && (decide (0 < s.clients.length) || c.isLocal)) ||
    (decide (s.smapname ≠ "") &&
      (!mTimed s.gamemode || decide (s.gamemillis < s.gamelimit) ||
        (decide (c.state = .spectator) && decide (c.privilege = .none) && !c.isLocal) ||
        decide (s.numactive c.clientnum ≠ 0)))

end Server
end QServ
