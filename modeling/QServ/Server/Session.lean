import QServ.Lib.Run
import QServ.Server.Messages

/-!
# Runs of the session

The server as a transition system.  An `Event` is one thing that happens to the session: a
client arriving or leaving, one message, one text command, one line from the master server,
a map change, the passing of time.

Loops of `disconnect_client` calls are runs of `disconnect` events: `kickclients_steps` for
kicks that no client asks for (teamkilling, new permanent bans), `sweepexceeded_steps` for
overdue clients, `changemap_steps` for a change to a local mode.
-/

namespace QServ

/-- A word of a text command: `strtok` yields no empty ones. -/
abbrev Token := { word : String // word ≠ "" }

/-- The text commands that touch the session, with their arguments. -/
inductive Command where
  | sendprivs (arg : Token)
  | revokepriv (arg : Token)
  | invadmin (arg : Token)
  | ban (arg minutes : Token)
  | allowmaster (on : Bool)
  deriving DecidableEq, Repr

/-- The privilege `ncommand` registers a command with. -/
def Command.priv : Command → Priv
  | sendprivs _ => .master
  | revokepriv _ => .admin
  | invadmin _ => .none
  | ban _ _ => .admin
  | allowmaster _ => .admin

/-- What can happen to the session. -/
inductive Event where
  /-- A peer connects to slot `n` (`addclient`, `clientconnect`). -/
  | connect (n : Int) (host : Nat) (hostname : String) (sessionid : Int)
  /-- `disconnect_client(n, reason)`. -/
  | disconnect (n : Int) (reason : Disc)
  /-- The peer of slot `n` is gone (`ENET_EVENT_TYPE_DISCONNECT`). -/
  | drop (n : Int)
  | hello (n : Int) (name pwd authdesc authname : String) (banned : Nat → Bool)
  | authans (n : Int) (desc : String) (id : Nat) (ans : String)
  | setmaster (n mn val : Int) (text : String)
  | mastermode (n : Int) (mm : MasterMode)
  | clearbans (n : Int)
  | kick (n victim : Int) (text : String)
  | spectator (n spectator val : Int)
  | authtry (n : Int) (desc name : String)
  | authkick (n : Int) (desc name : String) (victim : Int) (text : String)
  | pausegame (n val : Int)
  | gamespeed (n val : Int)
  | switchname (n : Int) (name : String)
  | addbot (n : Int) (name : String)
  | delbot (n : Int)
  | command (n : Int) (cmd : Command)
  /-- `autoAddBot` and `autoBotBalance` add a bot for the client `n`. -/
  | autobot (n : Int) (name : String)
  /-- A bot is taken away (`deleteai`, `removeBotHelper`). -/
  | deleteai (bot : Int)
  /-- `reassignai`: a bot is shifted to another owner. -/
  | shiftai (bot : Int) (owner : Option ClientInfo)
  /-- `changemap` up to the point where a local mode throws out its clients. -/
  | startmap (map : String) (mode : Int)
  /-- The end of `changemap`. -/
  | announcemap
  /-- A rotation or a vote has moved on in the rotation list. -/
  | rotate (cur : Int)
  /-- The countdown of `#cw` and `#duel`. -/
  | countdown (n : Int)
  /-- `addban`, for a kick or for teamkilling. -/
  | addban (ip : Nat) (expire : Int)
  /-- Bans run out, or are taken back by an administrator. -/
  | unban (ban : Ban)
  /-- The game changes what a player is doing, or notes that its position is overdue. -/
  | play (n : Int) (st : CState) (exceeded : Int)
  /-- The next sweep over clients that stopped reporting is scheduled. -/
  | schedule (nextexceeded : Int)
  /-- Time passes. -/
  | tick (totalmillis gamemillis : Int)
  /-- Script variables, users, permanent settings and the rotation are set. -/
  | settings (cfg : Config) (users : List UserInfo) (rot : List MapRotation) (exclude : Nat)
  | masterup (up : Bool)
  | succauth (id : Nat)
  | failauth (id : Nat)
  | chalauth (id : Nat) (val : String)
  | masterdisconnected

namespace Server

/-- Settings for sample runs, with a hash that is never empty. -/
def sampleConfig : Config where
  invadminpass := "default"
  hashstring := fun text => "#" ++ text
  hashstring_ne := by simp
  genchallenge := fun ch => ch.pubkey
  checkchallenge := fun ans ch => decide (ans = ch.pubkey)

/-- The server as it starts up, before its script variables are set. -/
def initial (cfg : Config) : Server where
  info := fun _ => none
  connects := []
  clients := []
  nbots := 0
  mastermode := .mmOpen
  mastermask := 0x100F
  allowedips := []
  bannedips := []
  gamepaused := false
  gamespeed := 100
  gamemode := 0
  smapname := ""
  maprotations := []
  curmaprotation := 0
  rotexclude := 0
  gamemillis := 0
  gamelimit := 0
  nextexceeded := 0
  totalmillis := 0
  nextauthreq := 0
  seed := 0
  users := []
  sent := []
  masterup := false
  toMaster := []
  cfg

variable (s : Server)

/-- `addclient` and `clientconnect`: a fresh record in a free slot of the engine. -/
def clientconnect (n : Int) (host : Nat) (hostname : String) (sessionid : Int) : Server :=
  if 0 ≤ n ∧ n < MAXCLIENTS ∧ s.info n = none then
    { s with
      info := fun m => if m = n then
          some { clientnum := n, ownernum := n, host, hostname, sessionid }
        else s.info m,
      connects := s.connects ++ [n] }
  else s

/-- A peer is gone: its record is taken off the lists and freed. -/
def drop (n : Int) : Server :=
  match s.getclientinfo n with
  | none => s
  | some _ => (s.clientdisconnect n).free n

/-- A text command: its privilege is checked against that of the sender. -/
def command (n : Int) (cmd : Command) : Except Fault Server := do
  let c ← s.sender n
  if cmd.priv ≤ c.privilege then
    match cmd with
    | .sendprivs arg => s.sendprivsCmd n arg.val
    | .revokepriv arg => s.revokeprivCmd n arg.val
    | .invadmin arg => s.invadminCmd n arg.val
    | .ban arg minutes => s.banCmd n arg.val minutes.val
    | .allowmaster on => .ok (s.allowmasterCmd on)
  else .ok (s.servmsgTo n "\x0c3Insufficient permission")

/-- The messages of the main loop come from clients that have finished connecting. -/
def fromClient (n : Int) (h : Server → Except Fault Server) : Except Fault Server :=
  match s.info n with
  | some c => if c.connected ∧ n < MAXCLIENTS then h s else .ok s
  | none => .ok s

/-- One event. -/
def step (s : Server) : Event → Except Fault Server
  | .connect n host hostname sid => .ok (s.clientconnect n host hostname sid)
  | .disconnect n reason => .ok (s.disconnectClient n reason)
  | .drop n => .ok (s.drop n)
  | .hello n name pwd authdesc authname banned =>
    match s.info n with
    | some c =>
      -- `connectfilter`: only before an auth request, and never twice
      if c.connected = false ∧ c.connectauth = .none then
        s.connectMsg n name pwd authdesc authname banned
      else .ok s
    | none => .ok s
  | .authans n desc id ans =>
    match s.info n with
    | some c =>
      if c.connected ∧ n < MAXCLIENTS ∨ c.connectauth ≠ .none then s.authansMsg n desc id ans
      else .ok s
    | none => .ok s
  | .setmaster n mn val text => s.fromClient n fun s => s.setmasterMsg_ n mn val text
  | .mastermode n mm => s.fromClient n fun s => s.mastermodeMsg n mm
  | .clearbans n => s.fromClient n fun s => s.clearbansMsg n
  | .kick n victim text => s.fromClient n fun s => s.kickMsg_ n victim text
  | .spectator n spectator val =>
    s.fromClient n fun s => (s.spectatorMsg n spectator val).map Prod.fst
  | .authtry n desc name => s.fromClient n fun s => s.authtryMsg n desc name
  | .authkick n desc name victim text =>
    s.fromClient n fun s => s.authkickMsg n desc name victim text
  | .pausegame n val => s.fromClient n fun s => s.pausegameMsg n val
  | .gamespeed n val => s.fromClient n fun s => s.gamespeedMsg n val
  | .switchname n name => s.fromClient n fun s => s.switchnameMsg n name
  | .addbot n name => s.fromClient n fun s => .ok (s.reqadd n name)
  | .delbot n => s.fromClient n fun s => .ok (s.reqdel n)
  | .command n cmd => s.fromClient n fun s => s.command n cmd
  | .autobot n name => .ok (s.addBotHelper n name)
  | .deleteai bot => .ok (if MAXCLIENTS ≤ bot then s.deleteai bot else s)
  | .shiftai bot owner => .ok (s.shiftai bot owner)
  | .startmap map mode => .ok (s.startmap map mode)
  | .announcemap => .ok s.announcemap
  | .rotate cur => .ok { s with curmaprotation := cur }
  | .countdown n => .ok ((s.pausegame true n).pausegame false n)
  | .addban ip expire => .ok (s.addban ip expire)
  | .unban ban => .ok { s with bannedips := s.bannedips.filter (· ≠ ban) }
  | .play n st exceeded => .ok (s.upd n fun c => { c with state := st, exceeded })
  | .schedule t => .ok { s with nextexceeded := t }
  | .tick total game => .ok { s with totalmillis := total, gamemillis := game }
  | .settings cfg users rot exclude =>
    .ok { s with cfg, users, maprotations := rot, rotexclude := exclude }
  | .masterup up => .ok { s with masterup := up }
  | .succauth id => s.authsucceeded id
  | .failauth id => .ok (s.authfailed id)
  | .chalauth id val => .ok (s.authchallenged id val)
  | .masterdisconnected => .ok s.masterdisconnected

/-! ## Loops of departures are runs -/

open Run ReverseLoop

variable {s}

/-- **Kicks that no client asks for** are departures one after the other. -/
theorem kickclients_steps {t : Server} {ip : Nat}
    (hrun : s.kickclients ip none = .ok t) :
    ∃ ns : List Int, Steps step (fun _ _ => True) s (ns.map fun n => .disconnect n .kick) t := by
  refine (revLoop_rel (fun _ => True) (fun s t => ∃ ns : List Int,
    Steps step (fun _ _ => True) s (ns.map fun n => .disconnect n .kick) t)
    (fun s => ⟨[], .nil s⟩) ?_ ?_ _ s t trivial hrun).2
  · rintro s t u ⟨ns, h⟩ ⟨ns', h'⟩
    refine ⟨ns ++ ns', ?_⟩
    rw [List.map_append]
    exact h.append h'
  · intro u n v _ _ hbody
    refine ⟨trivial, ?_⟩
    have hstay : ∃ ns : List Int,
        Steps step (fun _ _ => True) u (ns.map fun n => .disconnect n .kick) u := ⟨[], .nil u⟩
    unfold kickBody at hbody
    cases hc : u.info n with
    | none => rw [hc] at hbody; cases hbody
    | some c =>
      rw [hc] at hbody
      simp only at hbody
      split at hbody
      · obtain rfl := Except.ok.inj hbody
        exact hstay
      · obtain rfl := Except.ok.inj hbody
        split
        · exact ⟨[c.clientnum], .single trivial rfl⟩
        · exact hstay

/-- The events of the sweep over clients that stopped reporting. -/
def IsSweep (e : Event) : Prop :=
  (∃ n, e = .disconnect n .msgerr) ∨ ∃ t, e = .schedule t

/-- **The sweep** disconnects clients and schedules the next one. -/
theorem sweepexceeded_steps {t : Server} (hrun : s.sweepexceeded = .ok t) :
    ∃ es, (∀ e ∈ es, IsSweep e) ∧ Steps step (fun _ _ => True) s es t := by
  refine (revLoop_rel (fun _ => True) (fun s t => ∃ es, (∀ e ∈ es, IsSweep e) ∧
    Steps step (fun _ _ => True) s es t) (fun s => ⟨[], by simp, .nil s⟩) ?_ ?_ _ s t trivial
    hrun).2
  · rintro s t u ⟨es, he, h⟩ ⟨es', he', h'⟩
    refine ⟨es ++ es', fun e hmem => ?_, h.append h'⟩
    rcases List.mem_append.mp hmem with hmem | hmem
    · exact he e hmem
    · exact he' e hmem
  · intro u n v _ _ hbody
    refine ⟨trivial, ?_⟩
    have hstay : ∃ es, (∀ e ∈ es, IsSweep e) ∧ Steps step (fun _ _ => True) u es u :=
      ⟨[], by simp, .nil u⟩
    unfold exceededBody at hbody
    cases hc : u.info n with
    | none => rw [hc] at hbody; cases hbody
    | some c =>
      rw [hc] at hbody
      simp only at hbody
      split at hbody
      · obtain rfl := Except.ok.inj hbody
        exact hstay
      · split at hbody
        · obtain rfl := Except.ok.inj hbody
          exact ⟨[.disconnect c.clientnum .msgerr], by simp [IsSweep], .single trivial rfl⟩
        · obtain rfl := Except.ok.inj hbody
          unfold scheduleexceeded
          simp only
          split
          · exact hstay
          · split
            · exact ⟨[.schedule (c.exceeded + calcpushrange c)], by simp [IsSweep],
                .single trivial rfl⟩
            · exact hstay

/-- **A map change** is its start, the departures where the new mode is local, and its end. -/
theorem changemap_steps (s : Server) (map : String) (mode : Int) :
    Steps step (fun _ _ => True) s
      ([.startmap map mode] ++ (if mMp mode then [] else
        (List.range MAXCLIENTS.toNat).map fun i : Nat => .disconnect i .localmode) ++
        [.announcemap]) (s.changemap map mode) := by
  have hkick : ∀ (l : List Nat) (s : Server), Steps step (fun _ _ => True) s
      (l.map fun i : Nat => .disconnect i .localmode)
      (l.foldl (fun s (i : Nat) => s.disconnectClient i .localmode) s) := by
    intro l
    induction l with
    | nil => exact fun s => .nil s
    | cons i l ih =>
      intro s
      rw [List.map_cons, List.foldl_cons]
      exact .cons trivial rfl (ih (s.disconnectClient i .localmode))
  have hmode : Steps step (fun _ _ => True) (s.startmap map mode) (if mMp mode then [] else
      (List.range MAXCLIENTS.toNat).map fun i : Nat => .disconnect i .localmode)
      (if mMp mode then s.startmap map mode
        else (s.startmap map mode).kicknonlocalclients .localmode) := by
    split
    · exact .nil _
    · unfold kicknonlocalclients
      exact hkick (List.range MAXCLIENTS.toNat) _
  have hend : ∀ u : Server, Steps step (fun _ _ => True) u [.announcemap] u.announcemap :=
    fun u => .single trivial rfl
  have hstart : Steps step (fun _ _ => True) s [.startmap map mode] (s.startmap map mode) :=
    .single trivial rfl
  unfold changemap
  exact (hstart.append hmode).append (hend _)

end Server
end QServ
