import QServ.Engine.Master
import QServ.Lib.Keyed
import QServ.Lib.Pool
import QServ.Lib.Run
import QServ.Server.Pbans
import QServ.Server.State
import QServ.Shared.Numerals

/-!
# The master server

The state of `engine/masterserver.cpp` without the input buffers and the challenges of the clients:
the servers that are registered, the lists that are sent to clients, and what is pending for each
client.

* `step`: what happens, with what the sockets did as part of the event.
* `Track`: what has been sent to a client, as units, and other things that no variable holds.
-/

namespace QServ

namespace Masterserver

/-! ## Constants and the clock -/

/-- `OUTPUT_LIMIT`. -/
def OUTPUT_LIMIT : Nat := 64 * 1024

/-- `CLIENT_TIME`. -/
def CLIENT_TIME : UInt32 := 180000

/-- `CLIENT_LIMIT`. -/
def CLIENT_LIMIT : Nat := 4096

/-- `DUP_LIMIT`. -/
def DUP_LIMIT : Nat := 16

/-- `PING_TIME`. -/
def PING_TIME : UInt32 := 3000

/-- `PING_RETRY`. -/
def PING_RETRY : Nat := 5

/-- `KEEPALIVE_TIME`. -/
def KEEPALIVE_TIME : UInt32 := 3900000

/-- `SERVER_LIMIT`. -/
def SERVER_LIMIT : Nat := 4096

/-- `SERVER_DUP_LIMIT`. -/
def SERVER_DUP_LIMIT : Nat := 10

/-- `ENET_TIME_OVERFLOW`. -/
def ENET_TIME_OVERFLOW : UInt32 := 86400000

/-- `ENET_TIME_GREATER(a, b)`. -/
def timeGreater (a b : UInt32) : Bool := decide (ENET_TIME_OVERFLOW ≤ b - a)

/-- `ENET_TIME_DIFFERENCE(a, b)`. -/
def timeDifference (a b : UInt32) : UInt32 := if ENET_TIME_OVERFLOW ≤ a - b then b - a else a - b

/-! ## Texts -/

/-- `inet_ntop`. -/
def hostip (host : Nat) : List UInt8 :=
  [46].intercalate ((List.range 4).map fun i => decimal (host / 256 ^ i % 256 : Nat))

/-- The loop of `ipmask::print` over the octets from `i` on, of which there are `n` more; `next` is
the octet behind the last one that was printed. -/
def printoctets (m : IpMask) : Nat → Nat → Nat → List UInt8
  | 0, _, _ => []
  | n + 1, i, next =>
    if m.mask / 256 ^ i % 256 = 0 then printoctets m n (i + 1) next
    else
      (if next ≠ 0 then [46] else []) ++ (List.replicate (i - next) [42, 46]).flatten ++
        decimal (m.ip / 256 ^ i % 256 : Nat) ++ printoctets m n (i + 1) (i + 1)

/-- `for(; (bits&0xFF) == 0xFF; bits >>= 8) range -= 8; for(; bits&1; bits >>= 1) --range;`. -/
def printrange : Nat → Nat → Nat → Nat × Nat
  | 0, bits, range => (bits, range)
  | fuel + 1, bits, range =>
    if bits % 256 = 255 then printrange fuel (bits / 256) (range - 8)
    else if bits % 2 = 1 then printrange fuel (bits / 2) (range - 1)
    else (bits, range)

/-- `if(!bits && range%8) buf += snprintf(buf, sizeof(buf), "/%d", range);`. -/
def printsuffix : Nat × Nat → List UInt8
  | (bits, range) => if bits = 0 ∧ range % 8 ≠ 0 then 47 :: decimal range else []

/-- `ipmask::print`. -/
def printmask (m : IpMask) : List UInt8 :=
  printoctets m 4 0 0 ++
    printsuffix (printrange 32 (2 ^ 32 - 1 - IpMask.htonl m.mask) 32)

/-! ## State -/

/-- `gameserver`. -/
structure Gameserver where
  host : Nat
  addrport : Int
  ip : List UInt8
  port : Int
  numpings : Nat := 0
  lastping : UInt32 := 0
  lastpong : UInt32 := 0
deriving DecidableEq, Repr

/-- `gameserverlists` and `gbanlists`. -/
inductive Owner where
  | servers
  | bans
deriving DecidableEq, Repr

/-- What has been sent as a whole: the output that was pending, or a list. -/
inductive Sending where
  | lines (ls : List (List UInt8))
  | list (message : Owner × Nat) (text : List UInt8)
deriving DecidableEq, Repr

/-- What no variable holds: the bytes that the socket of a client has taken and the units that are
complete; the lines that were output, without those that were thrown away, and the ones of them
that are in the output buffer; the lists that were given to him; whether a line was output when a
list was partly sent; and the newest list of bans that was distributed since he registered. -/
structure Track where
  sent : List UInt8 := []
  units : List Sending := []
  written : List (List UInt8) := []
  pending : List (List UInt8) := []
  given : List (Owner × Nat) := []
  torn : Bool := false
  due : Option (List UInt8) := none
deriving DecidableEq, Repr

/-- `client`, with a number for his socket and whether it is in `readset` or in `writeset`. -/
structure Client where
  conn : Nat
  host : Nat
  message : Option (Owner × Nat) := none
  output : List UInt8 := []
  outputpos : Nat := 0
  connecttime : UInt32
  lastinput : UInt32
  servport : Int := -1
  shouldpurge : Bool := false
  registeredserver : Bool := false
  readable : Bool := false
  writable : Bool := false
  track : Track := {}
deriving DecidableEq, Repr

/-- The master server; `made` and `accepted` number the lists and the clients. -/
structure State where
  servtime : UInt32 := 0
  bans : List IpMask := []
  servbans : List IpMask := []
  gbans : List IpMask := []
  mastermotd : List UInt8 := []
  gameservers : List Gameserver := []
  updateserverlist : Bool := true
  lists : Owner → List (Pool.Cell (List UInt8)) := fun _ => []
  made : Nat := 0
  clients : List Client := []
  accepted : Nat := 0

/-! ## Clients -/

namespace Client

variable (c : Client)

/-- `outputf(c, msg)`. -/
def outputf (msg : List UInt8) : Client :=
  let torn := decide (c.message.isSome ∧ c.output = [] ∧ c.outputpos ≠ 0 ∧ msg ≠ [])
  { c with
    output := c.output ++ msg
    track := { c.track with
      written := c.track.written ++ [msg]
      pending := c.track.pending ++ [msg]
      torn := c.track.torn || torn } }

/-- `c.message = l`. -/
def take (message : Owner × Nat) : Client :=
  { c with message, track := { c.track with given := c.track.given ++ [message] } }

/-- `c.output.setsize(0); c.outputpos = 0; c.shouldpurge = true;`: what was pending is thrown
away. -/
def discard : Client :=
  { c with
    output := []
    outputpos := 0
    shouldpurge := true
    track := { c.track with
      written := c.track.written.take (c.track.written.length - c.track.pending.length)
      pending := [] } }

/-- `if(c.message || c.output.length())`: into `writeset`, else into `readset`. -/
def select : Client :=
  let writable := c.message.isSome || decide (c.output ≠ [])
  { c with writable, readable := !writable }

/-- `c.output.setsize(0); c.outputpos = 0;`: the output is sent. -/
def finishoutput : Client :=
  { c with
    output := []
    outputpos := 0
    track := { c.track with
      units := c.track.units ++ [.lines c.track.pending]
      pending := [] } }

/-- `c.message = NULL; c.outputpos = 0;`: the message is sent. -/
def finishmessage (message : Owner × Nat) (text : List UInt8) : Client :=
  { c with
    message := none
    outputpos := 0
    track := { c.track with units := c.track.units ++ [.list message text] } }

/-- The bytes that the socket takes of a text; those beyond it are from elsewhere in memory. -/
def taken (text : List UInt8) (res : Nat) (beyond : List UInt8) : List UInt8 :=
  if c.outputpos ≤ text.length then (text.drop c.outputpos).take res else beyond.take res

/-- The socket has taken some bytes. -/
def advance (bytes : List UInt8) : Client :=
  { c with
    writable := false
    outputpos := c.outputpos + bytes.length
    track := { c.track with sent := c.track.sent ++ bytes } }

/-- A list of bans is distributed. -/
def distribute (text : List UInt8) : Client :=
  { c with track := { c.track with due := some text } }

/-- A new list of bans is for a client whose server is registered, unless another list is pending
for him. -/
def hand (text : List UInt8) (id : Nat) : Client :=
  if 0 ≤ c.servport then
    (if c.message = none then c.take (.bans, id) else c).distribute text
  else c

end Client

namespace State

variable (s : State)

def update (conn : Nat) (f : Client → Client) : State :=
  { s with clients := Keyed.modify Client.conn conn f s.clients }

/-- `outputf(c, msg)`. -/
def outputf (conn : Nat) (msg : List UInt8) : State := s.update conn (Client.outputf · msg)

/-- `c.message = l; c.message->refs++;`. -/
def give (conn : Nat) (o : Owner) (id : Nat) : State :=
  { s.update conn (Client.take · (o, id)) with
    lists := Function.update s.lists o (Pool.retain id (s.lists o)) }

/-- `messagebuf::purge`. -/
def purge (message : Owner × Nat) : Except Fault State :=
  if message.2 ∈ Pool.ids (s.lists message.1) then
    .ok { s with
      lists := Function.update s.lists message.1 (Pool.release message.2 (s.lists message.1)) }
  else .error .useAfterFree

/-- `if(c.message) c.message->purge();`. -/
def purgemessage (c : Client) : Except Fault State :=
  match c.message with
  | none => .ok s
  | some message => s.purge message

/-- `purgeclient`. -/
def purgeclient (conn : Nat) : Except Fault State :=
  match Keyed.lookup Client.conn conn s.clients with
  | none => .ok s
  | some c => (s.purgemessage c).map fun s =>
      { s with clients := Keyed.remove Client.conn conn s.clients }

/-! ## Lists -/

/-- The newest list of its kind. -/
def last (o : Owner) : Option (Pool.Cell (List UInt8)) := (s.lists o).getLast?

/-- What `genserverlist` writes. -/
def serverlist : List UInt8 :=
  (if cstr s.mastermotd ≠ [] then word "echo " ++ cstr s.mastermotd ++ [newline] else []) ++
  ((s.gameservers.filter fun g => g.lastpong ≠ 0).flatMap fun g =>
    word "addserver " ++ g.ip ++ 32 :: decimal g.port ++ [newline]) ++ [0]

/-- `genserverlist`. -/
def genserverlist : State :=
  if s.updateserverlist then
    { s with
      lists := Function.update s.lists .servers
        (Pool.supersede id { id := s.made, body := s.serverlist } (s.lists .servers))
      made := s.made + 1
      updateserverlist := false }
  else s

/-- What `gengbanlist` writes. -/
def banlist : List UInt8 :=
  word "cleargbans\n" ++ s.gbans.flatMap fun b => word "addgban " ++ printmask b ++ [newline]

/-- `if(!m->endswith(*l)) m->concat(*l);`. -/
def extend (l m : List UInt8) : List UInt8 :=
  if l.isSuffixOf m then m else (if m.getLast? = some 0 then m.dropLast else m) ++ l

/-- `gengbanlist`. -/
def gengbanlist : State :=
  let text := s.banlist
  if (s.last .bans).map Pool.Cell.body = some text then s
  else
    let refs := s.clients.countP fun c => 0 ≤ c.servport ∧ c.message = none
    { s with
      lists := Function.update s.lists .bans
        (Pool.supersede (extend text) { id := s.made, body := text, refs } (s.lists .bans))
      made := s.made + 1
      clients := s.clients.map fun c => c.hand text s.made }

/-! ## Servers -/

/-- The first server with an address is to be pinged again. -/
def repin (host : Nat) (port : Int) : List Gameserver → Option (List Gameserver)
  | [] => none
  | g :: gs =>
    if g.host = host ∧ g.port = port then some ({ g with lastping := 0, numpings := 0 } :: gs)
    else (repin host port gs).map (g :: ·)

/-- `addgameserver(c)`. -/
def addgameserver (c : Client) : State :=
  if SERVER_LIMIT ≤ s.gameservers.length then s
  else
    match repin c.host c.servport s.gameservers with
    | some gameservers => { s with gameservers }
    | none =>
      if SERVER_DUP_LIMIT ≤ s.gameservers.countP fun g => g.host = c.host then
        s.outputf c.conn (word "failreg too many servers on ip\n")
      else
        { s with
          gameservers := s.gameservers ++ [{
            host := c.host, addrport := c.servport + 1, ip := hostip c.host, port := c.servport }] }

/-- `findclient(s)`. -/
def findclient (g : Gameserver) : Option Client :=
  s.clients.find? fun c => g.host = c.host ∧ g.port = c.servport

/-- `servermessage(s, msg)`. -/
def servermessage (g : Gameserver) (msg : List UInt8) : State :=
  match s.findclient g with
  | none => s
  | some c => s.outputf c.conn msg

/-- The client of a server that has answered. -/
def confirm (c : Client) : State :=
  let s := (s.update c.conn fun c => { c with registeredserver := true }).outputf c.conn
    (word "succreg\n")
  match c.message, s.last .bans with
  | none, some l => (s.give c.conn .bans l.id).update c.conn (Client.distribute · l.body)
  | _, _ => s

/-- One packet of `checkserverpongs`, from an address. -/
def pong (host : Nat) (port : Int) : State :=
  match s.gameservers.findIdx? fun g => g.host = host ∧ g.addrport = port with
  | none => s
  | some i =>
    match s.gameservers[i]? with
    | none => s
    | some g =>
      let t :=
        if g.lastping ≠ 0 ∧ (g.lastpong = 0 ∨ timeGreater g.lastping g.lastpong) then
          match s.findclient g with
          | none => s
          | some c => s.confirm c
        else s
      { t with
        updateserverlist := t.updateserverlist || decide (g.lastpong = 0)
        gameservers := s.gameservers.set i
          { g with lastpong := if s.servtime ≠ 0 then s.servtime else 1 } }

/-- One turn of `checkgameservers`: the server if it stays, and the state. -/
def checkgameserver (g : Gameserver) : Option Gameserver × State :=
  if g.lastping ≠ 0 ∧ g.lastpong ≠ 0 ∧ !timeGreater g.lastping g.lastpong then
    if KEEPALIVE_TIME < timeDifference s.servtime g.lastpong then
      (none, { s with updateserverlist := true })
    else (some g, s)
  else if g.lastping = 0 ∨ PING_TIME < timeDifference s.servtime g.lastping then
    if PING_RETRY ≤ g.numpings then
      (none, { s.servermessage g (word "failreg failed pinging server\n") with
        updateserverlist := true })
    else
      (some { g with
        numpings := g.numpings + 1
        lastping := if s.servtime ≠ 0 then s.servtime else 1 }, s)
  else (some g, s)

/-- The loop of `checkgameservers`. -/
def checkservers : List Gameserver → State → List Gameserver × State
  | [], s => ([], s)
  | g :: gs, s =>
    let (g?, s) := s.checkgameserver g
    let (kept, s) := checkservers gs s
    (g?.toList ++ kept, s)

/-- `checkgameservers`. -/
def checkgameservers : State :=
  let (gameservers, s) := checkservers s.gameservers s
  { s with gameservers }

/-- `bangameservers`. -/
def bangameservers : State :=
  { s with
    gameservers := s.gameservers.filter fun g => !checkBanlist s.servbans g.host
    updateserverlist :=
      s.updateserverlist || s.gameservers.any fun g => checkBanlist s.servbans g.host }

/-- `banclients`. -/
def banclients : Except Fault State :=
  (s.clients.reverse.filter fun c => checkBanlist s.bans c.host).foldlM
    (fun s c => s.purgeclient c.conn) s

/-! ## Requests -/

/-- A line of a client; what `reqauth` and `confauth` output is part of it. -/
inductive Request where
  | list
  | regserv (port : Int)
  | auth (replies : List (List UInt8))
  | nothing
deriving DecidableEq, Repr

/-- The body of the loop of `checkclientinput`: what it returns, if it does. -/
def request (conn : Nat) (r : Request) : Option Bool × State :=
  match Keyed.lookup Client.conn conn s.clients with
  | none => (some false, s)
  | some c =>
    let s := s.update conn fun c => { c with lastinput := s.servtime }
    match r with
    | .list =>
      let s := s.genserverlist
      match c.message, s.last .servers with
      | none, some l => (some true, (s.give conn .servers l.id).update conn Client.discard)
      | _, _ => (some false, s)
    | .regserv port =>
      if checkBanlist s.servbans c.host then (some false, s)
      else if port < 0 ∨ 0xFFFF - 1 < port ∨ (0 ≤ c.servport ∧ port ≠ c.servport) then
        (none, s.outputf conn (word "failreg invalid port\n"))
      else
        (none, (s.update conn fun c => { c with servport := port }).addgameserver
          { c with servport := port })
    | .auth replies => (none, replies.foldl (fun s msg => s.outputf conn msg) s)
    | .nothing => (none, s)

/-- `checkclientinput`, for the lines that are complete; `fits` says whether the rest fits. -/
def checkclientinput (conn : Nat) (fits : Bool) : List Request → State → Bool × State
  | [], s => (fits, s)
  | r :: rs, s =>
    match s.request conn r with
    | (some result, s) => (result, s)
    | (none, s) => checkclientinput conn fits rs s

/-! ## Sockets -/

/-- A client is accepted, if he is not banned and there is room for him; the oldest one from his
address goes if there are too many. -/
def accept (host : Nat) : Except Fault State :=
  if CLIENT_LIMIT ≤ s.clients.length ∨ checkBanlist s.bans host then .ok s
  else
    let dups := s.clients.filter fun c => c.host = host
    let oldest := dups.tail.foldl
      (fun best c => if c.connecttime < best.connecttime then c else best)
    let s' := match dups with
      | first :: _ => if DUP_LIMIT ≤ dups.length then s.purgeclient (oldest first).conn else .ok s
      | [] => .ok s
    s'.map fun s =>
      { s with
        clients := s.clients ++
          [{ conn := s.accepted, host, connecttime := s.servtime, lastinput := s.servtime }]
        accepted := s.accepted + 1 }

/-- What is sent of the output or, without any, of the message. -/
def current (c : Client) : Except Fault (List UInt8) :=
  if c.output ≠ [] then .ok c.output
  else
    match c.message with
    | none => .ok []
    | some (o, id) =>
      match Pool.body id (s.lists o) with
      | none => .error .useAfterFree
      | some text => .ok text

/-- The output or the message is complete. -/
def finish (c : Client) (text : List UInt8) : Except Fault State :=
  if c.output ≠ [] then .ok (s.update c.conn Client.finishoutput)
  else
    match c.message with
    | none => .ok s
    | some message =>
      (s.purge message).map fun s => s.update c.conn (Client.finishmessage · message text)

/-- What follows when all is sent; a client who has asked for the servers leaves. -/
def complete (c : Client) (text : List UInt8) : Except Fault State :=
  (s.finish c text).bind fun s =>
    match Keyed.lookup Client.conn c.conn s.clients with
    | none => .ok s
    | some c =>
      if c.message = none ∧ c.output = [] ∧ c.shouldpurge then s.purgeclient c.conn else .ok s

/-- The sending part of `checkclients`.  The socket fails or takes some bytes. -/
def send (conn : Nat) (result : Option Nat) (beyond : List UInt8) : Except Fault State :=
  match Keyed.lookup Client.conn conn s.clients with
  | none => .ok s
  | some c =>
    if c.writable ∧ (c.message.isSome ∨ c.output ≠ []) then
      (s.current c).bind fun text =>
        match result with
        | none => s.purgeclient conn
        | some res =>
          let bytes := c.taken text res beyond
          let s := s.update conn (Client.advance · bytes)
          if text.length ≤ c.outputpos + bytes.length then s.complete c text else .ok s
    else .ok s

/-- The receiving part of `checkclients`, with the lines that are complete. -/
def receive (conn : Nat) (requests : List Request) (fits : Bool) : Except Fault State :=
  match Keyed.lookup Client.conn conn s.clients with
  | none => .ok s
  | some c =>
    if c.readable then
      let s := s.update conn fun c => { c with readable := false }
      match checkclientinput conn fits requests s with
      | (true, s) => .ok s
      | (false, s) => s.purgeclient conn
    else .ok s

/-- `if(c.output.length() > OUTPUT_LIMIT)`, and a client who has been silent for too long. -/
def limits (conn : Nat) : Except Fault State :=
  match Keyed.lookup Client.conn conn s.clients with
  | none => .ok s
  | some c =>
    if OUTPUT_LIMIT < c.output.length ∨
        (if c.registeredserver then KEEPALIVE_TIME else CLIENT_TIME) ≤
          timeDifference s.servtime c.lastinput then
      s.purgeclient conn
    else .ok s

/-! ## Events -/

/-- What happens: `master.cfg` is read again, the clock is read, the challenges of the clients
expire and the sockets are selected, packets and connections arrive, the socket of a client takes
bytes, gives some or is closed, and the servers are checked. -/
inductive Event where
  | reload (bans servbans gbans : List IpMask) (mastermotd : List UInt8)
  | clock (servtime : UInt32)
  | select (expired : Nat → List (List UInt8))
  | pong (host : Nat) (port : Int)
  | accept (host : Nat)
  | send (conn : Nat) (result : Option Nat) (beyond : List UInt8)
  | receive (conn : Nat) (requests : List Request) (fits : Bool)
  | hangup (conn : Nat)
  | limits (conn : Nat)
  | checkgameservers

/-- One event. -/
def step (s : State) : Event → Except Fault State
  | .reload bans servbans gbans mastermotd =>
    ({ s with bans, servbans, gbans, mastermotd }.bangameservers.banclients).map gengbanlist
  | .clock servtime => .ok { s with servtime }
  | .select expired => .ok { s with
      clients := s.clients.map fun c => ((expired c.conn).foldl Client.outputf c).select }
  | .pong host port => .ok (s.pong host port)
  | .accept host => s.accept host
  | .send conn result beyond => s.send conn result beyond
  | .receive conn requests fits => s.receive conn requests fits
  | .hangup conn => s.purgeclient conn
  | .limits conn => s.limits conn
  | .checkgameservers => .ok s.checkgameservers

end State

end Masterserver

end QServ
