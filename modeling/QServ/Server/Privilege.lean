import QServ.Server.Aiman

/-!
# Master and administrator privileges

`setmaster` and what it needs: the pause flag, the game speed, the names shown
in messages and the `N_CURRENTMASTER` block that tells every client who holds
which privilege.
-/

namespace QServ
namespace Server

variable (s : Server)

/-! ## Names -/

/-- `duplicatename(ci, name)`. -/
def duplicatename (c : ClientInfo) : Bool :=
  s.cl.any fun d => decide (d.clientnum ≠ c.clientnum) && decide (d.name = c.name)

/-- `colorname(ci)`. -/
def colorname (c : ClientInfo) : String :=
  if c.name ≠ "" && !s.duplicatename c && decide (c.aitype = .human) then c.name
  else if c.aitype = .human then c.name ++ " \x0cs\x0c5(" ++ toString c.clientnum ++ ")\x0cr"
  else c.name ++ " \x0cs\x0c5[" ++ toString c.clientnum ++ "]\x0cr"

/-- `sendservmsg(s)`: a server message to everybody. -/
def sendservmsg (msg : String) : Server :=
  s.sendf (-1) 1 [.int MsgType.nServmsg.code, .str msg]

/-- A server message to one client. -/
def servmsgTo (cn : Int) (msg : String) : Server :=
  s.sendf cn 1 [.int MsgType.nServmsg.code, .str msg]

/-! ## Pausing and the game speed -/

/-- `pausegame(val, ci)`. -/
def pausegame (val : Bool) (by_ : Int := -1) : Server :=
  if s.gamepaused = val then s
  else ({ s with gamepaused := val }).sendf (-1) 1
    [.int MsgType.nPausegame.code, .int (if val then 1 else 0), .int by_]

@[simp] theorem roster_pausegame (s : Server) (val : Bool) (n : Int) :
    (s.pausegame val n).roster = s.roster := by
  unfold pausegame
  split <;> rfl

/-- The privilege `checkpausegame` and `N_PAUSEGAME` ask for. -/
def pausepriv : Priv := if s.cfg.restrictpausegame then .admin else .master

/-- `checkpausegame`: unpause when nobody is left who could. -/
def checkpausegame : Server :=
  if !s.gamepaused then s
  else if s.cl.any fun c => decide (s.pausepriv ≤ c.privilege) || c.isLocal then s
  else s.pausegame false

@[simp] theorem roster_checkpausegame (s : Server) : s.checkpausegame.roster = s.roster := by
  unfold checkpausegame
  split
  · rfl
  · split
    · rfl
    · exact roster_pausegame s false (-1)

/-- `changegamespeed(val, ci)`. -/
def changegamespeed (val : Int) (by_ : Int := -1) : Server :=
  let val := max 10 (min 1000 val)
  if s.gamespeed = val then s
  else ({ s with gamespeed := val }).sendf (-1) 1
    [.int MsgType.nGamespeed.code, .int val, .int by_]

@[simp] theorem roster_changegamespeed (s : Server) (val n : Int) :
    (s.changegamespeed val n).roster = s.roster := by
  unfold changegamespeed
  simp only
  split <;> rfl

/-! ## Claiming and giving up privileges -/

/-- `hashpassword(cn, sessionid, pwd)`. -/
def hashpassword (c : ClientInfo) (pwd : String) : String :=
  s.cfg.hashstring (toString c.clientnum ++ " " ++ toString c.sessionid ++ " " ++ pwd)

/-- `checkpassword(ci, wanted, given)`. -/
def checkpassword (c : ClientInfo) (wanted given : String) : Bool :=
  decide (s.hashpassword c wanted = given)

/-- `MM_AUTOAPPROVE`: may master be claimed without auth? -/
def autoapprove : Bool := s.mastermask.testBit 12

/-- The clients and privileges an `N_CURRENTMASTER` block lists: a pair for each
record of `cs` with at least master. -/
def masterpairs (cs : List ClientInfo) : List Field :=
  (cs.filter fun c => decide (Priv.master ≤ c.privilege)).flatMap fun c =>
    [.int c.clientnum, .int c.privilege.code]

/-- The `N_CURRENTMASTER` block `setmaster` broadcasts. -/
def currentmaster : List Field :=
  [.int MsgType.nCurrentmaster.code, .int s.mastermode.code] ++ masterpairs s.cl ++ [.int (-1)]

/-- `ci->privilege = p`. -/
def setpriv (cn : Int) (p : Priv) : Server := s.upd cn fun c => { c with privilege := p }

/-- `revokemaster(ci)`. -/
def revokemaster (cn : Int) : Server :=
  let s := s.setpriv cn .none
  match s.info cn with
  | some c => if c.state = .spectator && !c.isLocal then s.removeai cn else s
  | none => s

@[simp] theorem core_revokemaster (s : Server) (cn : Int) :
    (s.revokemaster cn).core = (s.setpriv cn .none).core := by
  unfold revokemaster
  simp only
  split
  · split
    · exact core_removeai _ cn
    · rfl
  · rfl

/-- Is there a client that keeps the server from being ownerless? -/
def hasmaster : Bool := s.cl.any fun c => c.isLocal || decide (Priv.master ≤ c.privilege)

/-- The reset `setmaster` makes when no master is left. -/
def resetmastermode : Server :=
  if s.hasmaster then s else { s with mastermode := .mmOpen, allowedips := [] }

@[simp] theorem roster_resetmastermode (s : Server) :
    s.resetmastermode.roster = s.roster := by
  unfold resetmastermode
  split <;> rfl

/-- The message of a successful `setmaster`. -/
def setmasterMsg (c : ClientInfo) (val : Bool) (name : String)
    (authname authdesc : Option String) : String :=
  match val, authname with
  | true, some an =>
    match authdesc with
    | some ad =>
      if ad ≠ "" then "\x0c0" ++ s.colorname c ++ " \x0c7claimed \x0c6" ++ name ++
        " \x0c7as '\x0cs\x0c5" ++ an ++ "\x0cr' [\x0cs\x0c0" ++ ad ++ "\x0cr]"
      else "\x0c0" ++ s.colorname c ++ " \x0c7claimed " ++ name ++ " \x0c7as '\x0cs\x0c5" ++ an ++
        "\x0cr'"
    | none => "\x0c0" ++ s.colorname c ++ " \x0c7claimed " ++ name ++ " \x0c7as '\x0cs\x0c5" ++ an ++
        "\x0cr'"
  | val, _ => "\x0c0" ++ s.colorname c ++ " \x0c7" ++ (if val then "claimed" else "relinquished") ++
      " " ++ name

/-- What `setmaster` does once a privilege has changed: reset an ownerless
server, announce the new masters, unpause if nobody can. -/
def setmasterDone (cn : Int) (val : Bool) (name : String) (authname authdesc : Option String) :
    Server :=
  let s := s.resetmastermode
  let msg := match s.info cn with
    | some c => s.setmasterMsg c val name authname authdesc
    | none => ""
  (s.sendf (-1) 1 ([.int MsgType.nServmsg.code, .str msg] ++ s.currentmaster)).checkpausegame

@[simp] theorem roster_setmasterDone (s : Server) (cn : Int) (val : Bool) (name : String)
    (an ad : Option String) : (s.setmasterDone cn val name an ad).roster = s.roster := by
  unfold setmasterDone
  simp only
  rw [roster_checkpausegame, roster_of_core (core_sendf _ _ _ _), roster_resetmastermode]

/-- The level a claim asks for: administrator for local clients and with the
administrator's password, what the caller grants otherwise. -/
def wantpriv (c : ClientInfo) (pass : String) (authpriv : Priv) : Priv :=
  if c.isLocal || (s.cfg.adminpass ≠ "" && s.checkpassword c s.cfg.adminpass pass) then .admin
  else authpriv

/-- Why an unforced claim of master is turned down, if it is. -/
def claimRefusal (c : ClientInfo) (authname : Option String) : Option String :=
  if c.state = .spectator then some "Spectators may not claim master."
  else if !s.cfg.enablemultiplemasters &&
      (s.cl.any fun d => decide (d.clientnum ≠ c.clientnum) && decide (d.privilege ≠ .none)) then
    some "\x0c3Error: Someone already has privileges"
  else if authname.isNone && !s.autoapprove && decide (c.privilege = .none) && !c.isLocal then
    some "This server requires you to use the \"/auth\" command to claim master."
  else none

/-- `setmaster(ci, val, pass, authname, authdesc, authpriv, force, trial)`. -/
def setmaster (cn : Int) (val : Bool) (pass : String := "") (authname : Option String := none)
    (authdesc : Option String := none) (authpriv : Priv := .master) (force : Bool := false)
    (trial : Bool := false) : Server × Bool :=
  match s.info cn with
  | none => (s, false)
  | some c =>
    if authname.isSome && !val then (s, false)
    else if val then
      let want := s.wantpriv c pass authpriv
      if want ≤ c.privilege then (s, true)
      else
        match (if want ≤ .master && !force then s.claimRefusal c authname else none) with
        | some why => (s.servmsgTo cn why, false)
        | none =>
          if trial then (s, true)
          else
            ((s.setpriv cn want).setmasterDone cn true want.name authname authdesc, true)
    else if c.privilege = .none then (s, false)
    else if trial then (s, true)
    else ((s.revokemaster cn).setmasterDone cn false c.privilege.name authname authdesc, true)

/-- **Everything `setmaster` can do to the roster**: nothing, or write one privilege.  A
grant raises the privilege to the level asked for, a release takes it away. -/
theorem setmaster_cases (s : Server) (cn : Int) (val : Bool) (pass : String)
    (an ad : Option String) (authpriv : Priv) (force trial : Bool) :
    (s.setmaster cn val pass an ad authpriv force trial).1.core = s.core ∨
      ∃ c, s.info cn = some c ∧ trial = false ∧
        ((val = true ∧ c.privilege < s.wantpriv c pass authpriv ∧
          (s.wantpriv c pass authpriv ≤ .master → force = false → s.claimRefusal c an = none) ∧
          (s.setmaster cn val pass an ad authpriv force trial).1 =
            (s.setpriv cn (s.wantpriv c pass authpriv)).setmasterDone cn true
              (s.wantpriv c pass authpriv).name an ad) ∨
        (val = false ∧ c.privilege ≠ .none ∧
          (s.setmaster cn val pass an ad authpriv force trial).1 =
            (s.revokemaster cn).setmasterDone cn false c.privilege.name an ad)) := by
  unfold setmaster
  cases hc : s.info cn with
  | none => exact Or.inl rfl
  | some c =>
    simp only
    split
    · exact Or.inl rfl
    · cases val with
      | true =>
        simp only [if_true]
        split
        · exact Or.inl rfl
        · next hlt =>
          split
          · exact Or.inl (core_sendf _ _ _ _)
          · next hallow =>
            cases trial with
            | true => exact Or.inl rfl
            | false =>
              refine Or.inr ⟨c, rfl, rfl, Or.inl ⟨trivial, lt_of_not_ge hlt, ?_, ?_⟩⟩
              · intro hle hforce
                rwa [if_pos (by simp [hle, hforce])] at hallow
              · rw [if_neg Bool.false_ne_true]
      | false =>
        simp only [Bool.false_eq_true, if_false]
        split
        · exact Or.inl rfl
        · next hp =>
          cases trial with
          | true => exact Or.inl rfl
          | false =>
            refine Or.inr ⟨c, rfl, rfl, Or.inr ⟨trivial, hp, ?_⟩⟩
            rw [if_neg Bool.false_ne_true]

end Server
end QServ
