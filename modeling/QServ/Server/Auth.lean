import QServ.Game.Text
import QServ.Server.Trykick
import QServ.Server.Rotation

/-!
# Connecting and authentication

A client enters with `N_CONNECT` or with the answer to an auth challenge, and claims a
privilege by answering one.  A challenge is either made by the server itself, from the
public key in its user table, or by the master server, which is sent the answer and
replies with `succauth` or `failauth`.
-/

namespace QServ
namespace Server

variable (s : Server)

/-! ## Pending requests -/

/-- `cleanauth(full)` on the record of `n`. -/
def cleanauth (n : Int) (full : Bool := true) : Server :=
  s.upd n fun c =>
    { c with authreq := 0, authchallenge := none,
             authkickvictim := if full then -1 else c.authkickvictim,
             authkickreason := if full then none else c.authkickreason }

/-- `cleanauthkick()`. -/
def cleanauthkick (n : Int) : Server :=
  s.upd n fun c => { c with authkickvictim := -1, authkickreason := none }

/-- `users.access(userkey(name, desc))`. -/
def finduser (name desc : String) : Option UserInfo :=
  s.users.find? fun u => decide (u.name = name) && decide (u.desc = desc)

/-- `findauth(id)`: the first listed client whose request has this number. -/
def findauth (id : Nat) : Option ClientInfo := s.cl.find? fun c => decide (c.authreq = id)

/-- The request numbers are 32 bits wide and never zero: `if(!nextauthreq) nextauthreq = 1;
ci->authreq = nextauthreq++`. -/
def authreqid : Nat := if s.nextauthreq = 0 then 1 else s.nextauthreq

/-- A new request is entered into the record of `n`. -/
def newauthreq (n : Int) (user desc : String) : Server :=
  ({ s with nextauthreq := (s.authreqid + 1) % 2 ^ 32 }).upd n fun c =>
    { c with authreq := s.authreqid, authname := filtertext user false false 100,
             authdesc := desc }

/-- `requestmaster(req)`. -/
def requestmaster (req : MasterReq) : Server × Bool :=
  if s.masterup then ({ s with toMaster := s.toMaster ++ [req] }, true) else (s, false)

/-- The text of a refused request to the master server. -/
def nomaster : String := "not connected to authentication server"

/-- A challenge for the key of `u` is kept in the record of `n` and sent to the client. -/
def sendchallenge (n : Int) (desc : String) (id : Nat) (u : UserInfo) : Server :=
  let ch : Challenge := { pubkey := u.pubkey, seed := s.seed }
  (({ s with seed := s.seed + 1 }).upd n fun c => { c with authchallenge := some ch }).sendf n 1
    [.int MsgType.nAuthchal.code, .str desc, .int id, .str (s.cfg.genchallenge ch)]

/-- `tryauth` up to the point where the request has been made, or could not be. -/
def askauth (n : Int) (user desc : String) : Server :=
  let id := s.authreqid
  let name := filtertext user false false 100
  let s := (s.cleanauth n).newauthreq n user desc
  if desc ≠ "" then
    match s.finduser name desc with
    | some u => s.sendchallenge n desc id u
    | none => s.cleanauth n
  else
    match s.requestmaster (.reqauth id name) with
    | (s, true) => s
    | (s, false) => (s.cleanauth n).servmsgTo n nomaster

/-- `tryauth(ci, user, desc)`. -/
def tryauth (n : Int) (user desc : String) : Server × Bool :=
  let s := s.askauth n user desc
  match s.info n with
  | none => (s, false)
  | some c =>
    if c.authreq ≠ 0 then (s, true)
    else if c.connectauth ≠ .none then (s.disconnectClient n c.connectauth, false)
    else (s, false)

/-! ## Entering the game -/

/-- `allowconnect(ci, pwd)`; `checkbans` also looks at the permanent and the global bans,
which `banned` stands for. -/
def allowconnect (c : ClientInfo) (pwd : String) (banned : Nat → Bool) : Disc :=
  if c.isLocal then .none
  else if !mMp s.gamemode then .localmode
  else if s.cfg.serverpass ≠ "" then
    if s.checkpassword c s.cfg.serverpass pwd then .none else .password
  else if s.cfg.adminpass ≠ "" && s.checkpassword c s.cfg.adminpass pwd then .none
  else if s.cfg.maxclients ≤ s.numhumans then .maxclients
  else
    let ip := s.getclientip c.clientnum
    if s.bannedips.any (fun b => b.ip = ip) || banned ip then .ipban
    else if s.mastermode = .mmPrivate && !s.allowedips.contains ip then .privatemode
    else .none

/-- The part of `connected(ci)` after the map has been rotated: the client is moved from
one list to the other, and watches while the server is locked. -/
def enlist (n : Int) : Server :=
  let s := { s with connects := s.connects.filter (· ≠ n), clients := s.clients ++ [n] }
  s.upd n fun c =>
    { c with connectauth := .none, connected := true,
             state := if MasterMode.mmLocked.code ≤ s.mastermode.code then .spectator
               else c.state }

/-- `connected(ci)`. -/
def connected (n : Int) : Except Fault Server := do
  let s ← match s.info n with
    | none => .error .useAfterFree
    | some c => if s.hasmap c then .ok s else s.rotatemap false
  match s.info n with
  | none => .error .useAfterFree
  | some _ => .ok (s.enlist n)

/-! ## Answers -/

/-- What a verified answer buys: the kick it was asked for, or the privilege. -/
def authgranted (n : Int) (authdesc : Option String) (authpriv : Priv) : Except Fault Server :=
  match s.info n with
  | none => .error .useAfterFree
  | some c =>
    if 0 ≤ c.authkickvictim then
      match s.setmaster n true "" (some c.authname) authdesc authpriv false true with
      | (s, true) =>
        (s.trykick n c.authkickvictim c.authkickreason (some c.authname) authdesc authpriv
          false).map Prod.fst
      | (s, false) => .ok s
    else .ok (s.setmaster n true "" (some c.authname) authdesc authpriv).1

/-- The answer up to its first character that is no hexadecimal digit. -/
def hexdigits (val : String) : String := String.ofList (val.toList.takeWhile isxdigit)

/-- A connecting client that has authenticated is let in. -/
def letin (n : Int) (c : ClientInfo) : Except Fault Server :=
  if c.connectauth ≠ .none then s.connected n else .ok s

/-- The part of `answerchallenge` for a challenge made here. -/
def checkanswer (n : Int) (c : ClientInfo) (val : String) : Except Fault Server :=
  match c.authchallenge with
  | none => .ok s
  | some ch =>
    if s.cfg.checkchallenge val ch then
      match s.finduser c.authname c.authdesc with
      | none => .ok s
      | some u => (s.letin n c).bind fun s => s.authgranted n (some c.authdesc) u.privilege
    else .ok s

/-- `answerchallenge(ci, id, val, desc)`. -/
def answerchallenge (n : Int) (id : Nat) (val desc : String) : Except Fault (Server × Bool) :=
  match s.info n with
  | none => .error .useAfterFree
  | some c =>
    if c.authreq ≠ id || c.authdesc ≠ desc then
      .ok (s.cleanauth n, decide (c.connectauth = .none))
    else
      let val := hexdigits val
      if desc ≠ "" then
        (s.checkanswer n c val).bind fun s =>
          match s.info n with
          | none => .error .useAfterFree
          | some c => .ok (s.cleanauth n, decide (c.connectauth = .none))
      else
        match s.requestmaster (.confauth id val) with
        | (s, true) => .ok (s, decide (c.authreq ≠ 0) || decide (c.connectauth = .none))
        | (s, false) =>
          .ok ((s.cleanauth n).servmsgTo n nomaster, decide (c.connectauth = .none))

/-- `authfailed(ci)`. -/
def authfailedOf (c : ClientInfo) : Server :=
  let s := s.cleanauth c.clientnum
  if c.connectauth ≠ .none then s.disconnectClient c.clientnum c.connectauth else s

/-- `authfailed(id)`. -/
def authfailed (id : Nat) : Server :=
  match s.findauth id with
  | none => s
  | some c => s.authfailedOf c

/-- `authsucceeded(id)`. -/
def authsucceeded (id : Nat) : Except Fault Server :=
  match s.findauth id with
  | none => .ok s
  | some c =>
    let n := c.clientnum
    ((s.cleanauth n (decide (c.connectauth ≠ .none))).letin n c).bind fun s =>
      match s.info n with
      | none => .error .useAfterFree
      | some c =>
        (s.authgranted n none .auth).map fun s =>
          if 0 ≤ c.authkickvictim then s.cleanauthkick n else s

/-- `authchallenged(id, val)`. -/
def authchallenged (id : Nat) (val : String) : Server :=
  match s.findauth id with
  | none => s
  | some c => s.sendf c.clientnum 1 [.int MsgType.nAuthchal.code, .str "", .int id, .str val]

/-- `masterdisconnected()`: every pending request fails. -/
def masterdisconnected : Server :=
  s.clients.reverse.foldl (fun s n =>
    match s.info n with
    | none => s
    | some c => if c.authreq ≠ 0 then s.authfailedOf c else s) s

end Server
end QServ
