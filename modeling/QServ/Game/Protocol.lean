import Mathlib.Data.List.Basic

/-!
# Message codes

The message types of the network protocol (`N_*`), their fixed sizes
(`msgsizes`) and the filters of `checktype`, as `fpsgame/game.h` and
`fpsgame/server.cpp` list them.
-/

namespace QServ

/-- The network message codes, in the order of the enumeration. -/
inductive MsgType where
  | nConnect
  | nServinfo
  | nWelcome
  | nInitclient
  | nPos
  | nText
  | nSound
  | nCdis
  | nShoot
  | nExplode
  | nSuicide
  | nDied
  | nDamage
  | nHitpush
  | nShotfx
  | nExplodefx
  | nTryspawn
  | nSpawnstate
  | nSpawn
  | nForcedeath
  | nGunselect
  | nTaunt
  | nMapchange
  | nMapvote
  | nTeaminfo
  | nItemspawn
  | nItempickup
  | nItemacc
  | nTeleport
  | nJumppad
  | nPing
  | nPong
  | nClientping
  | nTimeup
  | nForceintermission
  | nServmsg
  | nItemlist
  | nResume
  | nEditmode
  | nEditent
  | nEditf
  | nEditt
  | nEditm
  | nFlip
  | nCopy
  | nPaste
  | nRotate
  | nReplace
  | nDelcube
  | nRemip
  | nEditvslot
  | nUndo
  | nRedo
  | nNewmap
  | nGetmap
  | nSendmap
  | nClipboard
  | nEditvar
  | nMastermode
  | nKick
  | nClearbans
  | nCurrentmaster
  | nSpectator
  | nSetmaster
  | nSetteam
  | nBases
  | nBaseinfo
  | nBasescore
  | nRepammo
  | nBaseregen
  | nAnnounce
  | nListdemos
  | nSenddemolist
  | nGetdemo
  | nSenddemo
  | nDemoplayback
  | nRecorddemo
  | nStopdemo
  | nCleardemos
  | nTakeflag
  | nReturnflag
  | nResetflag
  | nInvisflag
  | nTrydropflag
  | nDropflag
  | nScoreflag
  | nInitflags
  | nSayteam
  | nClient
  | nAuthtry
  | nAuthkick
  | nAuthchal
  | nAuthans
  | nReqauth
  | nPausegame
  | nGamespeed
  | nAddbot
  | nDelbot
  | nInitai
  | nFromai
  | nBotlimit
  | nBotbalance
  | nMapcrc
  | nCheckmaps
  | nSwitchname
  | nSwitchmodel
  | nSwitchteam
  | nInittokens
  | nTaketoken
  | nExpiretokens
  | nDroptokens
  | nDeposittokens
  | nStealtokens
  | nServcmd
  | nDemopacket
  deriving DecidableEq, Repr

namespace MsgType

/-- All message types, in the order of their codes. -/
def all : List MsgType :=
  [nConnect, nServinfo, nWelcome, nInitclient, nPos, nText, nSound, nCdis, nShoot, nExplode,
    nSuicide, nDied, nDamage, nHitpush, nShotfx, nExplodefx, nTryspawn, nSpawnstate, nSpawn,
    nForcedeath, nGunselect, nTaunt, nMapchange, nMapvote, nTeaminfo, nItemspawn, nItempickup,
    nItemacc, nTeleport, nJumppad, nPing, nPong, nClientping, nTimeup, nForceintermission,
    nServmsg, nItemlist, nResume, nEditmode, nEditent, nEditf, nEditt, nEditm, nFlip, nCopy,
    nPaste, nRotate, nReplace, nDelcube, nRemip, nEditvslot, nUndo, nRedo, nNewmap, nGetmap,
    nSendmap, nClipboard, nEditvar, nMastermode, nKick, nClearbans, nCurrentmaster, nSpectator,
    nSetmaster, nSetteam, nBases, nBaseinfo, nBasescore, nRepammo, nBaseregen, nAnnounce,
    nListdemos, nSenddemolist, nGetdemo, nSenddemo, nDemoplayback, nRecorddemo, nStopdemo,
    nCleardemos, nTakeflag, nReturnflag, nResetflag, nInvisflag, nTrydropflag, nDropflag,
    nScoreflag, nInitflags, nSayteam, nClient, nAuthtry, nAuthkick, nAuthchal, nAuthans,
    nReqauth, nPausegame, nGamespeed, nAddbot, nDelbot, nInitai, nFromai, nBotlimit, nBotbalance,
    nMapcrc, nCheckmaps, nSwitchname, nSwitchmodel, nSwitchteam, nInittokens, nTaketoken,
    nExpiretokens, nDroptokens, nDeposittokens, nStealtokens, nServcmd, nDemopacket]

/-- The integer a message type is sent as. -/
def code (t : MsgType) : Int := t.ctorIdx

/-- The message type of an integer, none from `NUMMSG` on and below zero. -/
def ofCode (n : Int) : Option MsgType := if 0 ≤ n then all[n.toNat]? else none

theorem all_getElem_ctorIdx (t : MsgType) : all[t.ctorIdx]? = some t := by cases t <;> rfl

/-- Codes are read back as the type they were written for. -/
@[simp] theorem ofCode_code (t : MsgType) : ofCode t.code = some t := by
  rw [ofCode, code, if_pos (Int.natCast_nonneg _), Int.toNat_natCast]
  exact all_getElem_ctorIdx t

theorem code_injective : Function.Injective code := by
  intro a b h
  have hab : ofCode a.code = ofCode b.code := by rw [h]
  simpa using hab

/-- `msgsizelookup`: the size of a message with its type, `0` for the sizes that
are variable or not checked. -/
def msgsize : MsgType → Nat
  | .nWelcome | .nSuicide | .nTryspawn | .nTaunt | .nForceintermission | .nRemip
  | .nGetmap | .nClearbans | .nRepammo | .nListdemos | .nStopdemo | .nTrydropflag
  | .nDelbot | .nCheckmaps => 1
  | .nSound | .nCdis | .nForcedeath | .nGunselect | .nItemspawn | .nItempickup | .nPing
  | .nPong | .nClientping | .nTimeup | .nEditmode | .nNewmap | .nMastermode | .nAnnounce
  | .nRecorddemo | .nCleardemos | .nAddbot | .nFromai | .nBotlimit | .nBotbalance
  | .nSwitchmodel | .nTaketoken | .nDeposittokens => 2
  | .nSpawn | .nItemacc | .nSpectator | .nGetdemo | .nDemoplayback | .nTakeflag
  | .nInvisflag => 3
  | .nExplodefx | .nReturnflag => 4
  | .nDied => 5
  | .nDamage | .nBaseregen | .nResetflag => 6
  | .nHitpush | .nDropflag => 7
  | .nShotfx | .nScoreflag => 10
  | .nEditent => 11
  | .nSpawnstate | .nFlip | .nCopy | .nPaste | .nDelcube => 14
  | .nRotate => 15
  | .nEditf | .nEditt | .nEditm | .nEditvslot => 16
  | .nReplace => 17
  | _ => 0

/-- The mask `msgfilter` holds for a message type: `1` server-only, `2` coop-edit
only, `3` coop-edit without overflow check, `4` without overflow check. -/
def msgfilter : MsgType → Nat
  | .nConnect | .nServinfo | .nInitclient | .nWelcome | .nMapchange | .nServmsg
  | .nDamage | .nHitpush | .nShotfx | .nExplodefx | .nDied | .nSpawnstate | .nForcedeath
  | .nTeaminfo | .nItemacc | .nItemspawn | .nTimeup | .nCdis | .nCurrentmaster | .nPong
  | .nResume | .nBasescore | .nBaseinfo | .nBaseregen | .nAnnounce | .nSenddemolist
  | .nSenddemo | .nDemoplayback | .nDropflag | .nScoreflag | .nReturnflag | .nResetflag
  | .nInvisflag | .nClient | .nAuthchal | .nInitai | .nExpiretokens | .nDroptokens
  | .nStealtokens | .nDemopacket => 1
  | .nSendmap | .nRemip | .nNewmap | .nGetmap | .nClipboard => 2
  | .nEditent | .nEditf | .nEditt | .nEditm | .nFlip | .nCopy | .nPaste | .nRotate
  | .nReplace | .nDelcube | .nEditvar | .nEditvslot | .nUndo | .nRedo => 3
  | .nPos => 4
  | _ => 0

/-- The mask `connectfilter` holds for a message type: what a client may send
before it is connected. -/
def connectfilter : MsgType → Nat
  | .nConnect => 1
  | .nAuthans => 2
  | .nPing => 3
  | _ => 0

end MsgType

end QServ
