import QServ.Server.Auth

/-!
# What clients can ask of the session

The handlers of `parsepacket` and of the text commands that touch the session: claiming
and handing on privileges, the master mode, bans and kicks, pausing, watching and bots.
Each takes the number of the client it acts for; a handler that finds no record there
would be following a freed pointer.
-/

namespace QServ
namespace Server

variable (s : Server)

/-- The record a handler acts for. -/
def sender (n : Int) : Except Fault ClientInfo :=
  match s.info n with
  | some c => .ok c
  | none => .error .useAfterFree

/-- `ci->privilege || ci->local`. -/
def privileged (c : ClientInfo) : Bool := decide (c.privilege ≠ .none) || c.isLocal

/-! ## Messages -/

/-- The name `N_CONNECT` and `N_SWITCHNAME` enter into the record. -/
def connectName (name : String) : String :=
  let name := filtertext name false false MAXNAMELEN
  if name = "" then "unnamed" else name

/-- `N_CONNECT`. -/
def connectMsg (n : Int) (name pwd authdesc authname : String) (banned : Nat → Bool) :
    Except Fault Server := do
  let s := s.upd n fun c => { c with name := connectName name }
  let c ← s.sender n
  let disc := s.allowconnect c pwd banned
  if disc = .none then s.connected n
  else if disc = .localmode || s.cfg.serverauth = "" || s.cfg.serverauth ≠ authdesc then
    .ok (s.disconnectClient n disc)
  else
    match s.tryauth n authname authdesc with
    | (s, true) => .ok (s.upd n fun c => { c with connectauth := disc })
    | (s, false) => .ok (s.disconnectClient n disc)

/-- `N_AUTHANS`. -/
def authansMsg (n : Int) (desc : String) (id : Nat) (ans : String) : Except Fault Server :=
  (s.answerchallenge n id ans desc).map Prod.fst

/-- `N_SETMASTER`. -/
def setmasterMsg_ (n mn val : Int) (text : String) : Except Fault Server := do
  let c ← s.sender n
  if mn ≠ c.clientnum then
    if !privileged c then .ok s
    else
      match s.getclientinfo mn with
      | none => .ok s
      | some m =>
        if (!c.isLocal && c.privilege ≤ m.privilege) || (val ≠ 0 && m.privilege ≠ .none) then .ok s
        else .ok (s.setmaster mn (val ≠ 0) "" none none .master true).1
  else .ok (s.setmaster n (val ≠ 0) text).1

/-- `MM_MODE` bit of a master mode. -/
def maskbit (mm : MasterMode) : Bool := s.mastermask.testBit mm.code

/-- `N_MASTERMODE`, for a mode in range. -/
def mastermodeMsg (n : Int) (mm : MasterMode) : Except Fault Server := do
  let c ← s.sender n
  if !privileged c then .ok s
  else if c.privilege = .admin || c.isLocal || s.maskbit mm then
    if mm = .mmPrivate && s.cl.length = 1 && c.privilege ≠ .admin && s.cfg.nosingleprivate then
      .ok (s.servmsgTo n
        "\x0c3Error: Server can't be set to private when only one client is connected.")
    else
      let ips := if mm = .mmPrivate then s.cl.map fun d => s.getclientip d.clientnum else []
      .ok (({ s with mastermode := mm, allowedips := ips }).sendf (-1) 1
        [.int MsgType.nMastermode.code, .int mm.code])
  else
    .ok (s.servmsgTo n ("\x0c3Error: Failed to change mastermode (" ++ toString mm.code ++
      " is disabled)"))

/-- `N_CLEARBANS`. -/
def clearbansMsg (n : Int) : Except Fault Server := do
  let c ← s.sender n
  .ok (if privileged c then s.clearbans else s)

/-- `N_KICK`. -/
def kickMsg_ (n victim : Int) (text : String) : Except Fault Server :=
  (s.trykick n victim (some (filtertext text)) none none .none false).map Prod.fst

/-- The change `N_SPECTATOR` makes to the client it names. -/
def spectate (sp : ClientInfo) (spectator val : Int) : Server :=
  let s :=
    if val ≠ 0 then
      let s := s.upd spectator fun c => { c with state := .spectator }
      if !sp.isLocal && sp.privilege = .none then s.removeai spectator else s
    else s.upd spectator fun c => { c with state := .dead }
  if sp.isSpecLocked then s.servmsgTo spectator "\x0c3You are locked in spectator mode."
  else s.sendf (-1) 1 [.int MsgType.nSpectator.code, .int spectator, .int val]

/-- `N_SPECTATOR`, and whether a new map is to be chosen (`rotatemap(true)`) after it. -/
def spectatorMsg (n spectator val : Int) : Except Fault (Server × Bool) := do
  let c ← s.sender n
  if !privileged c && (spectator ≠ n || (c.state = .spectator &&
      MasterMode.mmLocked.code ≤ s.mastermode.code)) then .ok (s, false)
  else
    match s.getclientinfo spectator with
    | none => .error .nullDeref
    | some sp =>
      if sp.isSpecLocked && val = 0 then
        if sp.state ≠ .spectator then
          -- the format `ri2` sends two integers of the three given
          .ok ((s.upd spectator fun c => { c with state := .spectator }).sendf (-1) 1
            [.int MsgType.nSpectator.code, .int spectator], false)
        else .ok (s, false)
      else if sp.state = .spectator ↔ val ≠ 0 then .ok (s, false)
      else
        let s := s.spectate sp spectator val
        match s.info spectator with
        | none => .error .useAfterFree
        | some sp => .ok (s, decide (val = 0) && !s.hasmap sp)

/-- `N_AUTHTRY`. -/
def authtryMsg (n : Int) (desc name : String) : Except Fault Server := do
  let _ ← s.sender n
  .ok (s.tryauth n name desc).1

/-- `N_AUTHKICK`. -/
def authkickMsg (n : Int) (desc name : String) (victim : Int) (text : String) :
    Except Fault Server := do
  let _ ← s.sender n
  let level : Option Priv :=
    if desc ≠ "" then (s.finduser name desc).map UserInfo.privilege else some .auth
  match level with
  | none => .ok s
  | some authpriv => do
    let text := filtertext text
    match ← s.trykick n victim (some text) (some name) (some desc) authpriv true with
    | (s, false) => .ok s
    | (s, true) =>
      match s.tryauth n name desc with
      | (s, false) => .ok s
      | (s, true) =>
        .ok (s.upd n fun c => { c with authkickvictim := victim, authkickreason := some text })

/-- `N_PAUSEGAME`. -/
def pausegameMsg (n val : Int) : Except Fault Server := do
  let c ← s.sender n
  .ok (if c.privilege < s.pausepriv && !c.isLocal then s
    else s.pausegame (decide (0 < val)) c.clientnum)

/-- `N_GAMESPEED`. -/
def gamespeedMsg (n val : Int) : Except Fault Server := do
  let c ← s.sender n
  .ok (if c.privilege < (if s.cfg.restrictgamespeed then .admin else .master) && !c.isLocal then s
    else s.changegamespeed val c.clientnum)

/-- `N_SWITCHNAME`. -/
def switchnameMsg (n : Int) (name : String) : Except Fault Server := do
  let _ ← s.sender n
  .ok (s.upd n fun c => { c with name := connectName name })

/-! ## Text commands -/

/-- `GetClientNumByName(name)`: `-1` for nobody, `-2` for more than one. -/
def clientNumByName (name : String) : Int :=
  match (List.range MAXCLIENTS.toNat).filter fun i : Nat =>
    match s.getclientinfo i with
    | some c => c.connected && decide (c.name = name)
    | none => false with
  | [] => -1
  | [i] => i
  | _ => -2

/-- The number that a text stands for: blanks, a sign and digits, zero where there are none. -/
def numberOf (text : String) : Int :=
  let digits (cs : List Char) : Int :=
    ((cs.takeWhile isdigit).foldl (fun n c => 10 * n + (c.toNat - 48)) 0 : Nat)
  match text.toList.dropWhile iscubespace with
  | '-' :: cs => -digits cs
  | '+' :: cs => digits cs
  | cs => digits cs

/-- `atoi(text)`: the number as a `long` of 64 bits, cut to 32. -/
def atoi (text : String) : Int := int32 (max (-2 ^ 63) (min (numberOf text) (2 ^ 63 - 1)))

/-- The client a text command names, by number or by name. -/
def commandTarget (arg : String) : Int :=
  match arg.toList with
  | c :: _ => if isdigit c then atoi arg else s.clientNumByName arg
  | [] => s.clientNumByName arg

/-- The checks every command with a target makes: a connected client, and not the sender
where `self` is the error for that.  Any failure is answered with an error message. -/
def target (n : Int) (self : Option String) (arg : String) : Except String ClientInfo :=
  let cn := s.commandTarget arg
  if cn = -1 then .error "\x0c3Error: Player name not found."
  else if cn = -2 then
    .error "\x0c3Error: Multiple players have that name. Use their CN instead!"
  else if cn < 0 ∨ MAXCLIENTS ≤ cn then .error "\x0c3Error: Invalid client number specified."
  else
    match self, decide (cn = n) with
    | some e, true => .error e
    | _, _ =>
      match s.getclientinfo cn with
      | some c => if c.connected then .ok c else .error "\x0c3Error: Player not connected"
      | none => .error "\x0c3Error: Player not connected"

/-- `sendprivs_cmd`. -/
def sendprivsCmd (n : Int) (arg : String) : Except Fault Server :=
  match s.target n (some "\x0c3Error: You cannot share privileges with yourself.") arg with
  | .error e => .ok (s.servmsgTo n e)
  | .ok c =>
    if !s.cfg.enablemultiplemasters then
      .ok (s.servmsgTo n "\x0c3Error: This server has disabled the multiple masters feature")
    else do
      let self ← s.sender n
      let s := s.servmsgTo n ("\x0c7Ok, " ++ s.colorname self ++
        "\x0c7. Sharing your privileges with \x0c0" ++ s.colorname c ++ "\x0c7.")
      if self.privilege = .master then
        let s := s.servmsgTo c.clientnum
          ("\x0c7You have received \x0c0master \x0c7from \x0c0" ++ s.colorname self ++ "\x0c7.")
        .ok (s.setmaster c.clientnum true "" none none .master true).1
      else if self.privilege = .admin then
        let s := s.servmsgTo c.clientnum
          ("\x0c7You have received \x0c6admin \x0c7from \x0c6" ++ s.colorname self ++ "\x0c7.")
        .ok (s.setmaster c.clientnum true "" none none .admin true).1
      else .ok s

/-- `revokepriv_cmd`. -/
def revokeprivCmd (n : Int) (arg : String) : Except Fault Server :=
  match s.target n none arg with
  | .error e => .ok (s.servmsgTo n e)
  | .ok c =>
    let s := s.servmsgTo n ("Privileges have been revoked from the specified client \x0c3" ++
      s.colorname c)
    .ok (s.setmaster c.clientnum false "" none none .none true).1

/-- `invadmin_cmd`. -/
def invadminCmd (n : Int) (arg : String) : Except Fault Server := do
  let _ ← s.sender n
  if s.cfg.invadminpass = arg then
    .ok ((s.upd n fun c => { c with privilege := .admin, isInvAdmin := true }).servmsgTo n
      "Invisible \x0c6admin \x0c7activated")
  else .ok (s.servmsgTo n "\x0c3Error: Incorrect admin password")

/-- `ban_cmd`; the message at its end reads the record the kick has freed, which only its
text shows. -/
def banCmd (n : Int) (arg minutes : String) : Except Fault Server :=
  match s.target n (some "\x0c3Error: You cannot ban yourself.") arg with
  | .error e => .ok (s.servmsgTo n e)
  | .ok c =>
    let expiremilliseconds := int32 (atoi minutes * 60000)
    let expireminutes := expiremilliseconds.tdiv 60000
    if expireminutes ≤ 0 then .ok (s.servmsgTo n "\x0c3Error: Ban time must be above 1 minute.")
    else
      .ok ((s.addban (s.getclientip c.clientnum) expiremilliseconds).disconnectClient
        c.clientnum .kick)

/-- `cw_cmd` and `duel_cmd` once the mode is known: the map is changed and the game is
paused for the length of the countdown. -/
def matchCmd (n mode : Int) (map : String) : Except Fault Server := do
  let s := s.changemap map mode
  let c ← s.sender n
  .ok ((s.pausegame true c.clientnum).pausegame false c.clientnum)

/-- `allowmaster_cmd`: the masks `MM_PRIVSERV` and `MM_PUBSERV`. -/
def allowmasterCmd (on : Bool) : Server :=
  { s with mastermask := if on then 0x100F else 3 }

end Server
end QServ
