import Mathlib.Order.Basic
import Mathlib.Order.Defs.LinearOrder
import Mathlib.Order.Lattice
import Mathlib.Data.List.Basic
import Mathlib.Data.Nat.Bitwise
import Mathlib.Logic.Function.Basic
import QServ.Game.Modes
import QServ.Game.Protocol

/-!
# The session state of the server

The data `fpsgame/server.cpp`, `fpsgame/fpsgame.h` and `engine/server.cpp` keep
about who is connected and what they may do: the client records, the two client
lists, the master mode, the allowed and banned addresses, the pause flag and
what has been sent so far.

A `clientinfo *` is modelled by its client number.  The map `info` is the heap:
it holds the live record of every client number, `none` once the record has been
freed, so that a stale pointer is a number whose record is gone.  Humans live
below `MAXCLIENTS` (the slots of the engine's client table), bots from
`MAXCLIENTS` on (the entries of `bots`).
-/

namespace QServ

/-! ## Enumerations -/

/-- `enum { PRIV_NONE = 0, PRIV_MASTER, PRIV_AUTH, PRIV_ADMIN }`. -/
inductive Priv where
  | none
  | master
  | auth
  | admin
  deriving DecidableEq, Repr

namespace Priv

/-- The integer the privilege is compared and sent as. -/
def code : Priv → Nat
  | none => 0
  | master => 1
  | auth => 2
  | admin => 3

theorem code_injective : Function.Injective code := by
  intro a b h
  cases a <;> cases b <;> first | rfl | simp [code] at h

instance : LinearOrder Priv := LinearOrder.lift' code code_injective

theorem le_def (a b : Priv) : a ≤ b ↔ a.code ≤ b.code := Iff.rfl

theorem lt_def (a b : Priv) : a < b ↔ a.code < b.code := Iff.rfl

theorem le_admin (p : Priv) : p ≤ admin := by cases p <;> decide

/-- `ci->privilege` used as a condition: any privilege at all is at least master. -/
theorem ne_none_iff (p : Priv) : p ≠ none ↔ master ≤ p := by cases p <;> decide

/-- `privname` of the server. -/
def name : Priv → String
  | admin => "\x0c6admin"
  | auth => "\x0c8auth"
  | master => "\x0c0master"
  | none => "\x0c1unknown"

end Priv

/-- The master modes `N_MASTERMODE` accepts, from `MM_OPEN` to `MM_PRIVATE`. -/
inductive MasterMode where
  | mmOpen
  | mmVeto
  | mmLocked
  | mmPrivate
  deriving DecidableEq, Repr

/-- The integer the master mode is sent as. -/
def MasterMode.code : MasterMode → Nat
  | mmOpen => 0
  | mmVeto => 1
  | mmLocked => 2
  | mmPrivate => 3

/-- `enum { CS_ALIVE = 0, CS_DEAD, CS_SPAWNING, CS_LAGGED, CS_EDITING, CS_SPECTATOR }`. -/
inductive CState where
  | alive
  | dead
  | spawning
  | lagged
  | editing
  | spectator
  deriving DecidableEq, Repr

/-- `enum { AI_NONE = 0, AI_BOT, AI_MAX }`. -/
inductive AiType where
  | human
  | bot
  deriving DecidableEq, Repr

/-- The reasons a client is disconnected with (`DISC_*`). -/
inductive Disc where
  | none
  | eop
  | localmode
  | kick
  | msgerr
  | ipban
  | privatemode
  | maxclients
  | timeout
  | overflow
  | password
  deriving DecidableEq, Repr

/-- `disconnectreason`. -/
def Disc.reason : Disc → Option String
  | eop => some "end of packet"
  | localmode => some "server is in local mode"
  | kick => some "kicked/banned"
  | msgerr => some "message error"
  | ipban => some "ip is banned"
  | privatemode => some "server is in private mode"
  | maxclients => some "server FULL"
  | timeout => some "connection timed out"
  | overflow => some "overflow"
  | password => some "invalid password"
  | none => Option.none

/-- What the C++ program may do that it must not: read past the end of a vector, use a
record that has been freed, or follow a null pointer. -/
inductive Fault where
  | outOfRange
  | useAfterFree
  | nullDeref
  deriving DecidableEq, Repr

/-- `MAXCLIENTS`: bots are numbered from here on. -/
def MAXCLIENTS : Int := 128

/-- `MAXBOTS`. -/
def MAXBOTS : Nat := 32

/-! ## What goes out on the wire -/

/-- One argument of a `sendf` format or one `put` of a packet. -/
inductive Field where
  | int (n : Int)
  | str (s : String)
  deriving DecidableEq, Repr

/-- A packet handed to `sendpacket`: receiver (`-1` for everybody), channel,
fields in order and the client left out of a broadcast. -/
structure Sent where
  cn : Int
  chan : Nat
  fields : List Field
  exclude : Int := -1
  deriving DecidableEq, Repr

/-! ## Records -/

/-- A public key as the user table holds it; its text is all the session needs. -/
abbrev PubKey := String

/-- The secret kept for an `N_AUTHCHAL` that was sent out: the key it was made
from and the seed it was drawn with. -/
structure Challenge where
  pubkey : PubKey
  seed : Nat
  deriving DecidableEq, Repr

/-- The fields of `clientinfo` the session logic reads and writes.  `host` is the
peer's address in the engine's client table (`getclientip`), `hostname` its text and
`roundTrip` the peer's round trip time with its variance. -/
structure ClientInfo where
  clientnum : Int
  ownernum : Int
  host : Nat := 0
  hostname : String := ""
  sessionid : Int := 0
  name : String := ""
  privilege : Priv := .none
  connected : Bool := false
  isLocal : Bool := false
  state : CState := .dead
  aitype : AiType := .human
  bots : List Int := []
  aireinit : Nat := 0
  connectauth : Disc := .none
  authreq : Nat := 0
  authname : String := ""
  authdesc : String := ""
  authchallenge : Option Challenge := none
  authkickvictim : Int := -1
  authkickreason : Option String := none
  isInvAdmin : Bool := false
  isSpecLocked : Bool := false
  isMuted : Bool := false
  isEditMuted : Bool := false
  exceeded : Int := 0
  roundTrip : Int := 500
  overflow : Nat := 0
  clientmap : String := ""
  mapcrc : Int := 0

/-- The value of an `int` of 32 bits after it has wrapped around. -/
def int32 (x : Int) : Int := x.bmod (2 ^ 32)

theorem int32_of_lt {x : Int} (h : -2 ^ 31 ≤ x) (h' : x < 2 ^ 31) : int32 x = x :=
  Int.bmod_eq_of_le (by omega) (by omega)

/-- What wraps around stays congruent. -/
theorem int32_spec (x : Int) :
    -2 ^ 31 ≤ int32 x ∧ int32 x < 2 ^ 31 ∧ ∃ k : Int, int32 x = x - k * 2 ^ 32 := by
  unfold int32
  refine ⟨?_, ?_, x.bdiv (2 ^ 32), ?_⟩
  · have := Int.le_bmod (x := x) (m := 2 ^ 32) (by decide)
    omega
  · have := Int.bmod_lt (x := x) (m := 2 ^ 32) (by decide)
    omega
  · have := Int.bdiv_add_bmod' x (2 ^ 32)
    rw [show ((2 ^ 32 : Nat) : Int) = 2 ^ 32 from rfl] at this
    omega

/-- An entry of `bannedips`. -/
structure Ban where
  time : Int
  expire : Int
  ip : Nat
  deriving DecidableEq, Repr

/-- An entry of the table of auth users. -/
structure UserInfo where
  name : String
  desc : String
  pubkey : PubKey
  privilege : Priv
  deriving DecidableEq, Repr

/-- An entry of `maprotations`: a mask of game modes, bit `k` standing for mode
`k + STARTGAMEMODE`, and a map.  A mask of zero separates two groups. -/
structure MapRotation where
  modes : Nat
  map : String
  deriving DecidableEq, Repr

/-- A line sent to the master server. -/
inductive MasterReq where
  | reqauth (id : Nat) (user : String)
  | confauth (id : Nat) (val : String)
  deriving DecidableEq, Repr

/-- Script variables and the primitives of `shared/crypto.cpp` the session uses:
`hashstring` is the tiger hash printed in hexadecimal, never an empty text,
`genchallenge` prints the challenge a secret stands for and `checkchallenge` tells
whether an answer solves it. -/
structure Config where
  adminpass : String := ""
  serverpass : String := ""
  serverauth : String := ""
  invadminpass : String := ""
  maxclients : Nat := 8
  restrictpausegame : Bool := false
  restrictgamespeed : Bool := false
  enablemultiplemasters : Bool := false
  nosingleprivate : Bool := false
  clearbansonempty : Bool := true
  defaultgamespeed : Int := 100
  botlimit : Nat := 8
  hashstring : String → String
  hashstring_ne : ∀ text, hashstring text ≠ ""
  genchallenge : Challenge → String
  checkchallenge : String → Challenge → Bool

/-- The session state of the server.  `seed` stands for the state of the random number
generator, `masterup` for the result of `requestmaster` and `toMaster` for the lines on
their way to the master server. -/
structure Server where
  info : Int → Option ClientInfo
  connects : List Int
  clients : List Int
  nbots : Nat
  mastermode : MasterMode
  mastermask : Nat
  allowedips : List Nat
  bannedips : List Ban
  gamepaused : Bool
  gamespeed : Int
  gamemode : Int
  smapname : String
  maprotations : List MapRotation
  curmaprotation : Int
  rotexclude : Nat
  gamemillis : Int
  gamelimit : Int
  nextexceeded : Int
  totalmillis : Int
  nextauthreq : Nat
  seed : Nat
  users : List UserInfo
  sent : List Sent
  masterup : Bool
  toMaster : List MasterReq
  cfg : Config

namespace Server

variable (s : Server)

/-- The records of the listed clients, as `loopv(clients)` visits them. -/
def cl : List ClientInfo := s.clients.filterMap s.info

/-- Write through a `clientinfo *`: the record of `cn` is changed by `f`. -/
def upd (cn : Int) (f : ClientInfo → ClientInfo) : Server :=
  { s with info := fun n => if n = cn then (s.info n).map f else s.info n }

/-- Free the record of `cn`. -/
def free (cn : Int) : Server :=
  { s with info := fun n => if n = cn then none else s.info n }

/-- `clients.removeobj(ci)`. -/
def unlist (cn : Int) : Server := { s with clients := s.clients.filter (· ≠ cn) }

/-- `bannedips.shrink(0)`. -/
def clearbans : Server := { s with bannedips := [] }

/-- `sendf(cn, chan, ...)`. -/
def sendf (cn : Int) (chan : Nat) (fields : List Field) : Server :=
  { s with sent := s.sent ++ [{ cn, chan, fields }] }

@[simp] theorem info_upd (cn n : Int) (f : ClientInfo → ClientInfo) :
    (s.upd cn f).info n = if n = cn then (s.info n).map f else s.info n := rfl

@[simp] theorem clients_upd (cn : Int) (f : ClientInfo → ClientInfo) :
    (s.upd cn f).clients = s.clients := rfl

@[simp] theorem info_free (cn n : Int) :
    (s.free cn).info n = if n = cn then none else s.info n := rfl

@[simp] theorem clients_free (cn : Int) : (s.free cn).clients = s.clients := rfl

@[simp] theorem info_sendf (cn : Int) (chan : Nat) (fs : List Field) :
    (s.sendf cn chan fs).info = s.info := rfl

@[simp] theorem clients_sendf (cn : Int) (chan : Nat) (fs : List Field) :
    (s.sendf cn chan fs).clients = s.clients := rfl

theorem mem_cl {s : Server} {c : ClientInfo} : c ∈ s.cl ↔ ∃ cn ∈ s.clients, s.info cn = some c :=
  List.mem_filterMap

end Server

end QServ
