import Mathlib.Data.List.Basic
import Mathlib.Tactic.NormNum

/-!
# Game modes

The table `gamemodes` of `fpsgame/game.h` with the predicates the server asks of
it.  Mode numbers start at `STARTGAMEMODE = -3`; a number outside the table is
not valid and fails every check, the negative ones included.
-/

namespace QServ

/-- The flags of a game mode (`M_*`). -/
inductive ModeFlag where
  | team
  | noitems
  | noammo
  | insta
  | efficiency
  | tactics
  | capture
  | regen
  | ctf
  | protect
  | hold
  | edit
  | demo
  | localOnly
  | lobby
  | dmsp
  | classicsp
  | collect
  deriving DecidableEq, Repr

open ModeFlag

/-- The flags of the rows of `gamemodes`, in order. -/
def gamemodes : List (List ModeFlag) :=
  [ [localOnly, classicsp],
    [localOnly, dmsp],
    [demo, localOnly],
    [lobby],
    [edit],
    [team],
    [noitems, insta],
    [noitems, insta, team],
    [noitems, efficiency],
    [noitems, efficiency, team],
    [noitems, tactics],
    [noitems, tactics, team],
    [noammo, tactics, capture, team],
    [noitems, capture, regen, team],
    [ctf, team],
    [noitems, insta, ctf, team],
    [ctf, protect, team],
    [noitems, insta, ctf, protect, team],
    [ctf, hold, team],
    [noitems, insta, ctf, hold, team],
    [noitems, efficiency, ctf, team],
    [noitems, efficiency, ctf, protect, team],
    [noitems, efficiency, ctf, hold, team],
    [collect, team],
    [noitems, insta, collect, team],
    [noitems, efficiency, collect, team] ]

/-- `STARTGAMEMODE`. -/
def STARTGAMEMODE : Int := -3

/-- `NUMGAMEMODES`. -/
def NUMGAMEMODES : Nat := gamemodes.length

/-- `m_valid(mode)`. -/
def mValid (mode : Int) : Bool :=
  decide (STARTGAMEMODE ≤ mode) && decide (mode < STARTGAMEMODE + NUMGAMEMODES)

/-- The flags of a mode, none for a mode that is not valid. -/
def modeFlags (mode : Int) : List ModeFlag :=
  if mValid mode then (gamemodes[(mode - STARTGAMEMODE).toNat]?).getD [] else []

/-- `m_check(mode, flag)` with a set of flags: any of them is set. -/
def mCheck (mode : Int) (fs : List ModeFlag) : Bool :=
  fs.any fun f => decide (f ∈ modeFlags mode)

/-- `m_checknot(mode, flag)`: a valid mode with none of the flags. -/
def mCheckNot (mode : Int) (fs : List ModeFlag) : Bool :=
  mValid mode && !mCheck mode fs

/-- `m_checkall(mode, flag)`. -/
def mCheckAll (mode : Int) (fs : List ModeFlag) : Bool :=
  mValid mode && fs.all fun f => decide (f ∈ modeFlags mode)

/-- `m_mp(mode)`: a mode that can be played over the network. -/
def mMp (mode : Int) : Bool := mCheckNot mode [localOnly]

/-- `m_timed`. -/
def mTimed (mode : Int) : Bool := mCheckNot mode [demo, edit, localOnly]

/-- `m_botmode`. -/
def mBotmode (mode : Int) : Bool := mCheckNot mode [demo, localOnly]

/-- `m_teammode`. -/
def mTeammode (mode : Int) : Bool := mCheck mode [team]

/-- `m_edit`. -/
def mEdit (mode : Int) : Bool := mCheck mode [edit]

/-- `m_noitems`. -/
def mNoitems (mode : Int) : Bool := mCheck mode [noitems]

/-- `m_noammo`. -/
def mNoammo (mode : Int) : Bool := mCheck mode [noammo, noitems]

/-- `m_classicsp`. -/
def mClassicsp (mode : Int) : Bool := mCheck mode [classicsp]

/-- `m_capture`. -/
def mCapture (mode : Int) : Bool := mCheck mode [capture]

/-- `m_ctf`. -/
def mCtf (mode : Int) : Bool := mCheck mode [ctf]

/-- `m_protect`. -/
def mProtect (mode : Int) : Bool := mCheckAll mode [ctf, protect]

/-- `m_hold`. -/
def mHold (mode : Int) : Bool := mCheckAll mode [ctf, hold]

/-- `m_collect`. -/
def mCollect (mode : Int) : Bool := mCheck mode [collect]

/-- A networked mode is a valid one. -/
theorem mValid_of_mMp {mode : Int} (h : mMp mode = true) : mValid mode = true := by
  rw [mMp, mCheckNot, Bool.and_eq_true] at h
  exact h.1

end QServ
