import Mathlib.Data.List.Sort
import QServ.Lib.Bulletin
import QServ.Lib.Run
import QServ.Server.State

/-!
# Into and out of spectating

The paths of `fpsgame/server.cpp` and `mod/QCom.cpp` that make a client a spectator or stop him
from being one, with all that writes `state.state` or `isSpecLocked`.

* `Attendee`, `Gallery`: what these paths read and write of the clients and of the server.
* `Notice`, `hear`, `Gallery.view`: what is sent about spectating, and what a client who has heard
  it believes.
* `ServMode`: the virtual functions of `smode`.
* `Gallery.forcespectator`, `unspectate`, `checkmaps`, `spectatorMsg`, `tryspawn`, `editmode`, the
  text commands.
* `Gallery.step`: everything that happens to a client.

Where the source goes on to `rotatemap` (`unspectate`, `N_SPECTATOR`) or begins with it
(`connected`), the change of the map is an event of its own; so are the departures of bots and of
network clients in `changemap`, and the deaths that `flushevents` brings.
-/

namespace QServ

/-- The fields of `clientinfo` and `gamestate` that the paths read or write.  `clientinfo()` leaves
`lasttimeplayed` and `lifesequence` as they are in memory. -/
structure Attendee where
  ip : String
  connected : Bool := false
  isLocal : Bool := false
  aitype : AiType := .human
  ownernum : Int
  bots : List Int := []
  privilege : Priv := .none
  state : CState := .dead
  editstate : CState := .dead
  lifesequence : Int
  lastspawn : Int := -1
  lasttimeplayed : Int
  timeplayed : Int := 0
  isSpecLocked : Bool := false
  warned : Bool := false
  clientmap : String := ""
  mapcrc : Int := 0
  deriving DecidableEq, Repr

namespace Attendee

variable (c : Attendee)

/-- `fpsstate::respawn` as far as it concerns the paths. -/
def respawn : Attendee := { c with lastspawn := -1 }

/-- `state.timeplayed += lastmillis - state.lasttimeplayed`. -/
def addtime (lastmillis : Int) : Attendee :=
  { c with timeplayed := c.timeplayed + (lastmillis - c.lasttimeplayed) }

/-- `spawnstate(ci)` and `lastspawn`, as `sendspawn` and `welcomepacket` set them. -/
def spawnstate (gamemillis : Int) : Attendee :=
  { c with lifesequence := (c.lifesequence + 1) % 128, lastspawn := gamemillis }

/-- `mapchange()`. -/
def mapchange : Attendee :=
  { c.respawn with
    state := if c.state = .spectator then .spectator else .dead
    editstate := if c.state = .spectator then c.editstate else .dead
    timeplayed := 0, clientmap := "", mapcrc := 0, warned := false }

/-- A human who is not a spectator: whose map `checkmaps` looks at. -/
def Plays : Prop := c.state ≠ .spectator ∧ c.aitype = .human

instance : Decidable c.Plays := inferInstanceAs (Decidable (_ ∧ _))

/-- `validaiclient`: a client that may own bots. -/
def validaiclient : Bool :=
  decide (c.aitype = .human) &&
    (decide (c.state ≠ .spectator) || c.isLocal || decide (c.privilege ≠ .none))

end Attendee

/-- What is sent about spectating: `N_SPECTATOR` to everybody but `exclude`, the same without its
last argument, `N_CDIS`, an `N_RESUME` to everybody, and a welcome to the client `cn`, with whether
it says he spectates and the states of the others. -/
inductive Notice where
  | spectator (cn val : Int) (exclude : Int)
  | spectator2 (cn : Int)
  | cdis (cn : Int)
  | resume (cn : Int) (state : CState)
  | welcome (cn : Int) (spectator : Bool) (others : List (Int × CState))
  deriving DecidableEq, Repr

/-- What the client `v` believes about `u` after a notice, having believed `b`: the last status he
was told, and nobody spectates of whom nothing was told. -/
def hear (v u : Int) (b : Bool) : Notice → Bool
  | .spectator cn val exclude => if cn = u ∧ v ≠ exclude then decide (val ≠ 0) else b
  | .spectator2 _ => b
  | .cdis cn => if cn = u then false else b
  | .resume cn state => if cn = u then decide (state = .spectator) else b
  | .welcome cn spectator others =>
    if cn ≠ v then b
    else if u = v then spectator
    else match others.find? fun o => o.1 = u with
      | some o => decide (o.2 = .spectator)
      | none => b

/-- `servermode`: what the paths call of the game mode.  `Holds m cn` says that the mode has
something of the client: a flag he carries or dropped, tokens, a base he stands in.  Leaving the
game makes the mode forget him, and it takes up nobody else. -/
structure ServMode (M : Type) where
  leavegame : M → Int → Bool → M
  entergame : M → Int → M
  spawned : M → Int → M
  died : M → Int → Option Int → M
  canspawn : M → Int → Bool → Bool
  Holds : M → Int → Prop
  forgets : ∀ m cn disconnecting, ¬Holds (leavegame m cn disconnecting) cn
  takes_none : ∀ m cn disconnecting cn', Holds (leavegame m cn disconnecting) cn' → Holds m cn'

/-- The clients and what the paths read of the server.  `since` is where in the log a client has
joined. -/
structure Gallery (M : Type) where
  info : Int → Option Attendee
  clients : List Int
  smode : Option M
  gamemode : Int
  smapname : String
  gamemillis : Int
  lastmillis : Int
  mcrc : Int
  modifiedmapspectator : Int
  mastermode : MasterMode
  instacoop : Bool
  lockedSpecIPs : List String
  log : List Notice
  since : Int → Nat

/-- What happens to the clients. -/
inductive SpecEvent (M : Type) where
  /-- `clientconnect`, with what memory holds. -/
  | connect (n : Int) (ip : String) (lasttimeplayed lifesequence : Int)
  | localconnect (n : Int) (lasttimeplayed lifesequence : Int)
  /-- `connected(ci)`, with the playing time of his saved score. -/
  | join (n : Int) (restored : Option Int)
  /-- `clientdisconnect`, and the record is freed. -/
  | disconnect (n : Int)
  /-- `setmaster`, `revokemaster` and the commands that give a privilege. -/
  | setpriv (n : Int) (p : Priv)
  /-- `addai`; `addBotHelper` lends a privilege for it, so that the owner is left open. -/
  | addai (bot : Int) (owner : Option Int)
  | deleteai (bot : Int)
  /-- `reassignai`. -/
  | shiftai (bot : Int) (owner : Option Int)
  /-- `reinitai` of a bot that stays. -/
  | reinitai (bot : Int)
  /-- `changemap` without the clients it throws out, with the new `smode`. -/
  | changemap (map : String) (mode : Int) (smode : Option M)
  /-- `N_CHECKMAPS`. -/
  | checkmapsMsg (n : Int)
  | mapcrc (n : Int) (text : String) (crc : Int)
  /-- `N_TRYSPAWN` of `ci` for `cq`. -/
  | tryspawn (n q : Int)
  /-- `N_SPAWN` of `ci` for `cq`. -/
  | spawn (n q ls : Int)
  /-- A lethal hit in `dodamage`. -/
  | die (target : Int) (actor : Option Int)
  | suicide (n : Int)
  | editmode (n val : Int)
  | spectator (n spectator val : Int)
  | togglelockspec (n cn : Int)
  | forcespectatorCmd (n cn : Int)
  | unspectateCmd (n cn : Int)
  /-- The playing time is brought up to date (`rankteams`, `findscore`). -/
  | settle (n : Int)
  /-- The game mode goes on by itself. -/
  | game (m : M)
  | tick (lastmillis gamemillis : Int)
  | settings (mcrc modifiedmapspectator : Int) (mastermode : MasterMode) (instacoop : Bool)

namespace Gallery

variable {M : Type} (s : Gallery M)

/-- Write through a `clientinfo *`. -/
def upd (cn : Int) (f : Attendee → Attendee) : Gallery M :=
  { s with info := fun n => if n = cn then (s.info n).map f else s.info n }

/-- A notice goes out. -/
def send (m : Notice) : Gallery M := { s with log := s.log ++ [m] }

/-- A call of `smode`, where there is one. -/
def call (f : M → M) : Gallery M := { s with smode := s.smode.map f }

/-- `getclientinfo(n)`: the engine's client table only, so never a bot. -/
def getclientinfo (n : Int) : Option Attendee := if 0 ≤ n ∧ n < MAXCLIENTS then s.info n else none

/-- A client who has finished connecting. -/
def Joined (n : Int) : Prop := ∃ c ∈ s.info n, c.connected = true

instance (n : Int) : Decidable (s.Joined n) := inferInstanceAs (Decidable (∃ c ∈ s.info n, _))

/-- Who the server says spectates. -/
def spectating (n : Int) : Bool := (s.info n).any fun c => c.state = .spectator

/-- Who the client `v` believes to spectate. -/
def view (v u : Int) : Bool := Bulletin.heard (hear v u) false (s.since v) s.log

/-! ## Bots -/

/-- The loop body of `findaiclient`. -/
def leastbots (exclude : Int) (least : Option (Int × Nat)) (n : Int) : Option (Int × Nat) :=
  match s.info n with
  | none => least
  | some c =>
    if c.validaiclient = false ∨ n = exclude then least
    else if least.all fun l => c.bots.length < l.2 then some (n, c.bots.length)
    else least

/-- `findaiclient(exclude)`: the first of the eligible clients with the fewest bots. -/
def findaiclient (exclude : Int) : Option Int :=
  (s.clients.foldl (s.leastbots exclude) none).map Prod.fst

/-- `owner->bots.removeobj(bot)`, the owner being looked up by `getclientinfo`. -/
def disown (owner bot : Int) : Gallery M :=
  if 0 ≤ owner ∧ owner < MAXCLIENTS then
    s.upd owner fun o => { o with bots := o.bots.filter (· ≠ bot) }
  else s

/-- `shiftai(ci, owner)`: take a bot from its owner and give it to another one. -/
def shiftai (bot : Int) (owner : Option Int) : Gallery M :=
  match s.info bot with
  | none => s
  | some b =>
    let s := s.disown b.ownernum bot
    match owner with
    | none => s.upd bot fun b => { b with ownernum := -1 }
    | some o =>
      if bot = o then s
      else (s.upd bot fun b => { b with ownernum := o }).upd o fun c =>
        { c with bots := c.bots ++ [bot] }

/-- `removeai(ci)`: every bot of the client is given to somebody else. -/
def removeai (n : Int) : Gallery M :=
  match s.info n with
  | none => s
  | some c => c.bots.reverse.foldl (fun s bot => s.shiftai bot (s.findaiclient n)) s

/-- `revokemaster(ci)`. -/
def revokemaster (n : Int) : Gallery M :=
  let s := s.upd n fun c => { c with privilege := .none }
  match s.info n with
  | none => s
  | some c => if c.state = .spectator ∧ c.isLocal = false then s.removeai n else s

/-! ## Maps -/

/-- `crcs.add` or `match->matches++`. -/
def addcrc (crc : Int) : List (Int × Nat) → List (Int × Nat)
  | [] => [(crc, 1)]
  | (k, n) :: l => if k = crc then (k, n + 1) :: l else (k, n) :: addcrc crc l

/-- The humans that play, as the loops of `checkmaps` visit them. -/
def players : List Attendee := (s.clients.filterMap s.info).filter fun c => c.Plays

/-- `crcs`, sorted. -/
def crcs : List (Int × Nat) :=
  ((s.players.filter fun c => c.clientmap ≠ "").foldl (fun l c => addcrc c.mapcrc l)
    (if s.mcrc ≠ 0 then [(s.mcrc, s.clients.length + 1)] else [])).insertionSort
      fun x y => y.2 ≤ x.2

/-- Too few clients have told the checksum of their map. -/
def toofew : Bool :=
  let total := s.players.length
  let unsent := (s.players.filter fun c => c.clientmap = "" ∧ c.mapcrc = 0).length
  decide (s.mcrc = 0) && decide ((total : Int) - unsent < min total 4)

/-- The checksums that are not those of the most clients. -/
def modified : List Int :=
  match s.crcs with
  | a :: b :: l => (if a.2 ≤ b.2 then a :: b :: l else b :: l).map Prod.fst
  | _ => []

/-- `checkmaps` finds that a client has a modified map. -/
def HasModified (c : Attendee) : Prop :=
  c.Plays ∧ if c.clientmap = "" then c.mapcrc < 0 else c.mapcrc ∈ s.modified

instance (c : Attendee) : Decidable (s.HasModified c) := by
  unfold HasModified
  infer_instance

/-- The loops of `checkmaps` that warn, with `req < 0`. -/
def warn : Gallery M :=
  s.clients.foldl (fun t n => t.upd n fun c =>
    if s.HasModified c then { c with warned := true } else c) s

variable (sm : ServMode M)

/-! ## Entering and leaving -/

/-- `forcespectator(ci)`. -/
def forcespectator (n : Int) : Gallery M :=
  match s.info n with
  | none => s
  | some c =>
    let s := s.call fun m => sm.leavegame m n false
    let s := s.upd n fun c => { c with state := .spectator }.addtime s.lastmillis
    let s := if !c.isLocal && (decide (c.privilege = .none) || c.warned) then s.removeai n else s
    s.send (.spectator n 1 (-1))

/-- `unspectate(ci)`. -/
def unspectate (n : Int) : Gallery M :=
  (s.upd n fun c => { c.respawn with state := .dead, lasttimeplayed := s.lastmillis }).send
    (.spectator n 0 (-1))

/-- `ci->isSpecLocked = locked`. -/
def lock (n : Int) (locked : Bool) : Gallery M := s.upd n fun c => { c with isSpecLocked := locked }

/-- The last loop of `checkmaps` at one client. -/
def specmodified (n : Int) : Gallery M :=
  match s.info n with
  | none => s
  | some c =>
    if c.isLocal = false ∧ c.warned = true ∧ c.state ≠ .spectator then
      (s.forcespectator sm n).lock n true
    else s

/-- `checkmaps()`. -/
def checkmaps : Gallery M :=
  if mEdit s.gamemode ∨ s.smapname = "" ∨ s.toofew then s
  else
    let s := s.warn
    if s.modifiedmapspectator ≠ 0 ∧ (s.mcrc ≠ 0 ∨ s.modifiedmapspectator = 1) then
      s.clients.foldl (fun s n => s.specmodified sm n) s
    else s

/-- `suicide(ci)`. -/
def suicide (n : Int) : Gallery M :=
  match s.info n with
  | none => s
  | some c =>
    if c.state = .alive then
      (s.call fun m => sm.died m n none).upd n fun c => { c.respawn with state := .dead }
    else s

/-- `sendspawn(ci)`. -/
def sendspawn (n : Int) : Gallery M := s.upd n fun c => c.spawnstate s.gamemillis

/-! ## Messages of a client -/

/-- `cq`: the client himself, or a bot of his (`N_FROMAI`). -/
def Commands (n q : Int) : Prop := q = n ∨ ∃ b ∈ s.info q, b.ownernum = n

instance (n q : Int) : Decidable (s.Commands n q) :=
  inferInstanceAs (Decidable (_ ∨ ∃ b ∈ s.info q, _))

/-- `N_MAPCRC`. -/
def mapcrcMsg (n : Int) (text : String) (crc : Int) : Gallery M :=
  if text ≠ s.smapname then
    s.upd n fun c =>
      if c.clientmap ≠ "" then { c with clientmap := "", mapcrc := 0 }
      else if 0 < c.mapcrc then { c with mapcrc := 0 } else c
  else
    (s.upd n fun c =>
      { c with clientmap := text, mapcrc := if text ≠ "" then crc else 1 }).checkmaps sm

/-- The spawn that `N_TRYSPAWN` asks for. -/
def respawnAs (n q : Int) : Gallery M :=
  match s.info n, s.info q with
  | some c, some b =>
    if b.state ≠ .dead ∨ 0 ≤ b.lastspawn ∨
        s.smode.all (fun m => sm.canspawn m q false) = false then s
    else if c.clientmap = "" ∧ c.mapcrc = 0 then
      let s := (s.upd n fun c => { c with mapcrc := -1 }).checkmaps sm
      match s.info q with
      | none => s
      | some b =>
        if q = n then (if b.state ≠ .dead then s else s.sendspawn q)
        else if b.ownernum ≠ n then s else s.sendspawn q
    else s.sendspawn q
  | _, _ => s

/-- `N_TRYSPAWN`. -/
def tryspawn (n q : Int) : Gallery M :=
  match s.info n with
  | none => s
  | some c =>
    if c.isSpecLocked then
      -- the format `ri2` sends two integers of the three given
      if c.state ≠ .spectator then
        (s.upd n fun c => { c with state := .spectator }).send (.spectator2 n)
      else s
    else if s.Commands n q then s.respawnAs sm n q
    else s

/-- `N_SPAWN`. -/
def spawn (n q ls : Int) : Gallery M :=
  match s.info q with
  | none => s
  | some b =>
    if s.Commands n q ∧ (b.state = .alive ∨ b.state = .dead ∨ b.state = .editing) ∧
        ls = b.lifesequence ∧ 0 ≤ b.lastspawn then
      (s.upd q fun b => { b with lastspawn := -1, state := .alive }).call fun m => sm.spawned m q
    else s

/-- `N_EDITMODE`. -/
def editmode (n val : Int) : Gallery M :=
  match s.info n with
  | none => s
  | some c =>
    if c.isLocal = false ∧ mEdit s.gamemode = false then s
    else if val ≠ 0 then
      if c.state ≠ .alive ∧ c.state ≠ .dead then s
      else
        let s := s.call fun m => sm.leavegame m n false
        if s.instacoop then (s.forcespectator sm n).lock n true
        else
          let s := s.upd n fun c => { c with editstate := c.state, state := .editing }
          if mEdit s.gamemode then s else (s.forcespectator sm n).lock n true
    else if c.state ≠ .editing then s
    else (s.call fun m => sm.entergame m n).upd n fun c => { c with state := c.editstate }

/-- `N_SPECTATOR` for a client that becomes a spectator. -/
def enter (sp : Attendee) (n : Int) : Gallery M :=
  let s := if sp.state = .alive then s.suicide sm n else s
  let s := s.call fun m => sm.leavegame m n false
  let s := s.upd n fun c => { c with state := .spectator }.addtime s.lastmillis
  if !sp.isLocal && decide (sp.privilege = .none) then s.removeai n else s

/-- `N_SPECTATOR` for a client that stops spectating. -/
def leave (sp : Attendee) (n : Int) : Gallery M :=
  let s := s.upd n fun c => { c.respawn with state := .dead, lasttimeplayed := s.lastmillis }
  if sp.clientmap ≠ "" ∨ sp.mapcrc ≠ 0 then s.checkmaps sm else s

/-- The end of `N_SPECTATOR`: who is locked is told so himself. -/
def announce (n val : Int) : Gallery M :=
  if (s.info n).any fun c => c.isSpecLocked then s else s.send (.spectator n val (-1))

/-- `N_SPECTATOR`. -/
def spectatorMsg (n spectator val : Int) : Except Fault (Gallery M) :=
  match s.info n with
  | none => .ok s
  | some c =>
    if c.privilege = .none ∧ c.isLocal = false ∧ (spectator ≠ n ∨ (c.state = .spectator ∧
        MasterMode.mmLocked.code ≤ s.mastermode.code)) then .ok s
    else
      match s.getclientinfo spectator with
      | none => .error .nullDeref
      | some sp =>
        if sp.isSpecLocked ∧ val = 0 then
          -- the format `ri2` sends two integers of the three given
          if sp.state ≠ .spectator then
            .ok ((s.upd spectator fun c => { c with state := .spectator }).send
              (.spectator2 spectator))
          else .ok s
        else if sp.state = .spectator ↔ val ≠ 0 then .ok s
        else if val ≠ 0 then .ok ((s.enter sm sp spectator).announce spectator val)
        else .ok ((s.leave sm sp spectator).announce spectator val)

/-! ## Text commands -/

/-- A command of an administrator on another client who has connected. -/
def onTarget (n cn : Int) (f : Attendee → Gallery M) : Gallery M :=
  match s.info n, s.getclientinfo cn with
  | some c, some t => if c.privilege = .admin ∧ cn ≠ n ∧ t.connected then f t else s
  | _, _ => s

/-- `target_ip`. -/
def targetIp (t : Attendee) : String := if t.ip ≠ "" then t.ip else "0.0.0.0"

/-- The address is taken off `lockedSpecIPs`. -/
def unlockIp (ip : String) : Gallery M :=
  { s with lockedSpecIPs := s.lockedSpecIPs.filter (· ≠ ip) }

/-- `togglelockspec_cmd`. -/
def togglelockspecCmd (n cn : Int) : Gallery M :=
  s.onTarget n cn fun t =>
    let ip := targetIp t
    if t.isSpecLocked = false then
      let s := (s.forcespectator sm cn).lock cn true
      { s with lockedSpecIPs :=
          if ip ∈ s.lockedSpecIPs then s.lockedSpecIPs else s.lockedSpecIPs ++ [ip] }
    else ((s.unspectate cn).lock cn false).unlockIp ip

/-- `forcespectator_cmd`. -/
def forcespectatorCmd (n cn : Int) : Gallery M := s.onTarget n cn fun _ => s.forcespectator sm cn

/-- `unspectate_cmd`. -/
def unspectateCmd (n cn : Int) : Gallery M :=
  s.onTarget n cn fun t =>
    let s := s.unspectate cn
    if t.isSpecLocked then (s.lock cn false).unlockIp (targetIp t) else s

/-! ## Coming and going -/

/-- `sendservinfo(ci)`. -/
def sendservinfo (n : Int) : Gallery M :=
  if (s.info n).any fun c => c.isSpecLocked then s.forcespectator sm n else s

/-- A new record in a free slot of the engine. -/
def newinfo (n : Int) (c : Attendee) : Gallery M :=
  { s with info := fun m => if m = n then some c else s.info m }

/-- `clientconnect`: in a mode that is not played over the network the client is refused. -/
def clientconnect (n : Int) (ip : String) (lasttimeplayed lifesequence : Int) : Gallery M :=
  if (0 ≤ n ∧ n < MAXCLIENTS ∧ s.info n = none) ∧ mMp s.gamemode then
    (s.newinfo n { ip, ownernum := n, lasttimeplayed, lifesequence
                   isSpecLocked := decide (ip ∈ s.lockedSpecIPs) }).sendservinfo sm n
  else s

/-- `localconnect`. -/
def localconnect (n : Int) (lasttimeplayed lifesequence : Int) : Gallery M :=
  if 0 ≤ n ∧ n < MAXCLIENTS ∧ s.info n = none then
    (s.newinfo n { ip := "", ownernum := n, lasttimeplayed, lifesequence
                   isLocal := true }).sendservinfo sm n
  else s

/-- What `N_RESUME` says in the welcome of `n`. -/
def others (n : Int) : List (Int × CState) :=
  (s.clients.filter (· ≠ n)).filterMap fun m => (s.info m).map fun c => (m, c.state)

/-- `sendwelcome(ci)`. -/
def sendwelcome (n : Int) : Gallery M :=
  match s.info n with
  | none => s
  | some c =>
    if c.state = .spectator then
      (s.send (.spectator n 1 n)).send (.welcome n true (s.others n))
    else
      let s :=
        if mCheck s.gamemode [.demo] || mMp s.gamemode then
          s.upd n fun c =>
            if s.smode.all fun m => sm.canspawn m n true then c.spawnstate s.gamemillis
            else { c with state := .dead }
        else s
      s.send (.welcome n false (s.others n))

/-- `restorescore(ci)` and `sendresume(ci)`. -/
def restorescore (n : Int) (restored : Option Int) : Gallery M :=
  match restored, s.info n with
  | some timeplayed, some c =>
    (s.upd n fun c => { c with timeplayed }).send (.resume n c.state)
  | _, _ => s

/-- The record of a client who is taken into `clients`. -/
def enlist (n : Int) : Gallery M :=
  { s.upd n fun c =>
      { c with
        connected := true
        state := if MasterMode.mmLocked.code ≤ s.mastermode.code then .spectator else c.state
        lasttimeplayed := s.lastmillis } with
    clients := s.clients ++ [n]
    since := fun m => if m = n then s.log.length else s.since m }

/-- `connected(ci)`. -/
def join (n : Int) (restored : Option Int) : Gallery M :=
  match s.info n with
  | none => s
  | some c =>
    if c.connected then s else ((s.enlist n).sendwelcome sm n).restorescore n restored

/-- The record is freed. -/
def free (n : Int) : Gallery M :=
  { s with info := fun m => if m = n then none else s.info m }

/-- `clients.removeobj(ci)`. -/
def unlist (n : Int) : Gallery M := { s with clients := s.clients.filter (· ≠ n) }

/-- `clientdisconnect(n)`. -/
def clientdisconnect (n : Int) : Gallery M :=
  match s.getclientinfo n with
  | none => s
  | some c =>
    if c.connected then
      (((((s.call fun m => sm.leavegame m n true).send (.cdis n)).unlist n).removeai n).free n)
    else s.free n

/-- `deleteai(ci)`. -/
def deleteai (bot : Int) : Gallery M :=
  if bot < MAXCLIENTS then s
  else
    match s.info bot with
    | none => s
    | some b =>
      let s := (s.call fun m => sm.leavegame m bot true).send (.cdis bot)
      ((s.disown b.ownernum bot).unlist bot).free bot

/-- A human who has connected may own bots. -/
def Owner (owner : Option Int) : Prop :=
  ∀ o ∈ owner, ∃ c ∈ s.info o, c.connected = true ∧ c.aitype = .human

instance (owner : Option Int) : Decidable (s.Owner owner) := by
  unfold Owner
  cases owner with
  | none => exact isTrue (by simp)
  | some o =>
    exact decidable_of_iff (∃ c ∈ s.info o, c.connected = true ∧ c.aitype = .human) (by simp)

/-- `addai`: a bot in a free slot, or one again that was about to be removed. -/
def addai (bot : Int) (owner : Option Int) : Gallery M :=
  if bot < MAXCLIENTS ∨ ¬s.Owner owner then s
  else
    let adopt (s : Gallery M) : Gallery M :=
      match owner with
      | none => s
      | some o => s.upd o fun c => { c with bots := c.bots ++ [bot] }
    match s.info bot with
    | some b =>
      if b.ownernum < 0 then adopt (s.upd bot fun b => { b with ownernum := owner.getD (-1) })
      else s
    | none =>
      let s := s.newinfo bot
        { ip := "", connected := true, aitype := .bot, ownernum := owner.getD (-1)
          lasttimeplayed := s.lastmillis, lifesequence := 0 }
      adopt { s with clients := s.clients ++ [bot] }

/-- `reinitai(ci)` of a bot that has an owner. -/
def reinitai (bot : Int) : Gallery M :=
  match s.info bot with
  | none => s
  | some b =>
    if bot < MAXCLIENTS ∨ b.ownernum < 0 then s
    else
      let s := s.upd bot Attendee.respawn
      if b.state = .alive then s.sendspawn bot else s.send (.resume bot b.state)

/-- `changemap(map, mode)` where nobody is thrown out any more. -/
def changemap (map : String) (mode : Int) (smode : Option M) : Gallery M :=
  let s := { s with smode, gamemode := mode, gamemillis := 0, smapname := map }
  s.clients.foldl (fun s n => s.upd n fun c =>
    let c := { c.mapchange with lasttimeplayed := s.lastmillis }
    if mMp mode ∧ c.state ≠ .spectator then c.spawnstate s.gamemillis else c) s

/-- A message of the main loop comes from a client who has finished connecting. -/
def fromClient (n : Int) (f : Except Fault (Gallery M)) : Except Fault (Gallery M) :=
  if s.Joined n ∧ n < MAXCLIENTS then f else .ok s

/-- One event. -/
def step (s : Gallery M) : SpecEvent M → Except Fault (Gallery M)
  | .connect n ip t0 ls0 => .ok (s.clientconnect sm n ip t0 ls0)
  | .localconnect n t0 ls0 => .ok (s.localconnect sm n t0 ls0)
  | .join n restored => .ok (s.join sm n restored)
  | .disconnect n => .ok (s.clientdisconnect sm n)
  | .setpriv n p =>
    .ok (if p = .none then s.revokemaster n else s.upd n fun c => { c with privilege := p })
  | .addai bot owner => .ok (s.addai bot owner)
  | .deleteai bot => .ok (s.deleteai sm bot)
  | .shiftai bot owner =>
    .ok (if MAXCLIENTS ≤ bot ∧ s.Owner owner then s.shiftai bot owner else s)
  | .reinitai bot => .ok (s.reinitai bot)
  | .changemap map mode smode => .ok (s.changemap map mode smode)
  -- with a client that asks, nobody is warned or forced
  | .checkmapsMsg _ => .ok s
  | .mapcrc n text crc => s.fromClient n (.ok (s.mapcrcMsg sm n text crc))
  | .tryspawn n q => s.fromClient n (.ok (s.tryspawn sm n q))
  | .spawn n q ls => s.fromClient n (.ok (s.spawn sm n q ls))
  | .die target actor =>
    .ok (if (s.info target).any fun c => c.state = .alive then
        (s.call fun m => sm.died m target actor).upd target fun c => { c with state := .dead }
      else s)
  | .suicide n => .ok (s.suicide sm n)
  | .editmode n val => s.fromClient n (.ok (s.editmode sm n val))
  | .spectator n spectator val => s.fromClient n (s.spectatorMsg sm n spectator val)
  | .togglelockspec n cn => s.fromClient n (.ok (s.togglelockspecCmd sm n cn))
  | .forcespectatorCmd n cn => s.fromClient n (.ok (s.forcespectatorCmd sm n cn))
  | .unspectateCmd n cn => s.fromClient n (.ok (s.unspectateCmd n cn))
  | .settle n =>
    .ok (s.upd n fun c => { c.addtime s.lastmillis with lasttimeplayed := s.lastmillis })
  | .game m => .ok (s.call fun _ => m)
  | .tick lastmillis gamemillis => .ok { s with lastmillis, gamemillis }
  | .settings mcrc modifiedmapspectator mastermode instacoop =>
    .ok { s with mcrc, modifiedmapspectator, mastermode, instacoop }

/-- The server as it starts. -/
def initial : Gallery M where
  info := fun _ => none
  clients := []
  smode := none
  gamemode := 0
  smapname := ""
  gamemillis := 0
  lastmillis := 0
  mcrc := 0
  modifiedmapspectator := 1
  mastermode := .mmOpen
  instacoop := false
  lockedSpecIPs := []
  log := []
  since := fun _ => 0

end Gallery
end QServ
