import QServ.Game.Modes
import QServ.Lib.Keyed
import QServ.Lib.Run
import QServ.Match.Shots
import QServ.Server.State

/-!
# Items

The items of a map: a request to pick one up waits in the queue of a client, the first one gets the
item, and a timer spawns it again.  Clients are not local.

* `Items.step`: what happens, with the messages and the timers in a log.
* `Items.Sound`: what the log says of the items.
* `Items.items_exact`: who gets an item, and when it is announced again.
-/

namespace QServ

/-! ## Types -/

/-- `I_SHELLS`. -/
def I_SHELLS : Int := 8

/-- `I_CARTRIDGES`. -/
def I_CARTRIDGES : Int := 13

/-- `I_HEALTH`. -/
def I_HEALTH : Int := 14

/-- `I_BOOST`. -/
def I_BOOST : Int := 15

/-- `I_GREENARMOUR`. -/
def I_GREENARMOUR : Int := 16

/-- `I_YELLOWARMOUR`. -/
def I_YELLOWARMOUR : Int := 17

/-- `I_QUAD`. -/
def I_QUAD : Int := 18

/-- `MAXENTS`. -/
def MAXENTS : Int := 10000

/-- What `itemstat` has of an item. -/
structure Itemstat where
  add : Int
  max : Int
  info : Int
deriving DecidableEq, Repr

/-- `itemstats`. -/
def itemstats : List Itemstat :=
  [⟨10, 30, 1⟩, ⟨20, 60, 2⟩, ⟨5, 15, 3⟩, ⟨5, 15, 4⟩, ⟨10, 30, 5⟩, ⟨30, 120, 6⟩, ⟨25, 100, -1⟩,
    ⟨100, 200, 50⟩, ⟨100, 100, 1⟩, ⟨200, 200, 2⟩, ⟨20000, 30000, -1⟩]

/-- `itemstats[type-I_SHELLS]`. -/
def itemstat (type : Int) : Itemstat := itemstats.getD (type - I_SHELLS).toNat ⟨0, 0, 0⟩

/-- What `fpsstate` and `gamestate` have of a client. -/
structure Gamestate where
  state : CState
  lastdeath : Int := 0
  health : Int := 100
  maxhealth : Int := 100
  armour : Int := 0
  armourtype : Int := 0
  quadmillis : Int := 0
  ammo : List Int := List.replicate 12 0
deriving DecidableEq, Repr

namespace Gamestate

variable (gs : Gamestate)

/-- `isalive(gamemillis)`. -/
def isalive (gamemillis : Int) : Bool :=
  decide (gs.state = .alive ∨ gs.state = .dead ∧ gamemillis - gs.lastdeath ≤ DEATHMILLIS)

/-- `canpickup(type)`; `A_YELLOW` is 2. -/
def canpickup (type : Int) : Bool :=
  let is := itemstat type
  if type < I_SHELLS ∨ I_QUAD < type then false
  else if type = I_BOOST then decide (gs.maxhealth < is.max ∨ gs.health < gs.maxhealth)
  else if type = I_HEALTH then decide (gs.health < gs.maxhealth)
  else if type = I_GREENARMOUR ∧ gs.armourtype = 2 ∧ 100 ≤ gs.armour then false
  else if type = I_GREENARMOUR ∨ type = I_YELLOWARMOUR then
    decide (gs.armourtype = 0 ∨ gs.armour < is.max)
  else if type = I_QUAD then decide (gs.quadmillis < is.max)
  else decide (gs.ammo.getD is.info.toNat 0 < is.max)

/-- `pickup(type)`. -/
def pickup (type : Int) : Gamestate :=
  let is := itemstat type
  if type < I_SHELLS ∨ I_QUAD < type then gs
  else if type = I_BOOST then
    let maxhealth := min (gs.maxhealth + is.info) is.max
    { gs with maxhealth, health := min (gs.health + is.add) maxhealth }
  else if type = I_HEALTH then { gs with health := min (gs.health + is.add) gs.maxhealth }
  else if type = I_GREENARMOUR ∨ type = I_YELLOWARMOUR then
    { gs with armour := min (gs.armour + is.add) is.max, armourtype := is.info }
  else if type = I_QUAD then { gs with quadmillis := min (gs.quadmillis + is.add) is.max }
  else
    let ammo := min (gs.ammo.getD is.info.toNat 0 + is.add) is.max
    { gs with ammo := gs.ammo.set is.info.toNat ammo }

end Gamestate

/-- `gameevent`: a request for an item, or something else that a client does to himself and to
others, at a time or at once. -/
inductive Gameevent where
  | pickup (ent : Int)
  | other (millis : Option Int) (keepable : Bool) (process : Int → Gamestate → Gamestate)

/-- `keepable()`. -/
def Gameevent.keepable : Gameevent → Bool
  | .pickup _ => false
  | .other _ keepable _ => keepable

/-- What a client is to the items. -/
structure Picker where
  cn : Int
  privilege : Bool := false
  state : Gamestate
  events : List Gameevent := []
  lastevent : Int := 0

/-- `server_entity`; `NOTUSED` is 0. -/
structure ServerEntity where
  type : Int := 0
  spawntime : Int := 0
  spawned : Bool := false
deriving DecidableEq, Repr

/-- `N_ITEMSPAWN`, `N_ITEMACC` to everybody with the spawn time, or to one client, and
`N_ANNOUNCE`; what is not sent: the timers run, an item is put into the table as available or is
edited, and the table is emptied. -/
inductive Note where
  | itemspawn (i : Nat)
  | itemacc (i : Nat) (sender : Int) (time : Int)
  | refused (i : Nat) (sender : Int)
  | announce (type : Int)
  | timers (curtime : Int)
  | put (i : Nat)
  | edited (i : Nat)
  | cleared
deriving DecidableEq, Repr

/-- The item is made available: it is announced, or put into the table. -/
def Note.Avails (i : Nat) : Note → Prop
  | .itemspawn j | .put j => j = i
  | _ => False

/-- The time that the timers count. -/
def Note.time : Note → Int
  | .timers curtime => curtime
  | _ => 0

/-! ## The server -/

/-- `sents`, the mode and the clock of the match, and the clients. -/
structure Items where
  gamemode : Int := 0
  gamemillis : Int := 0
  gamelimit : Int := 0
  notgotitems : Bool := true
  sents : List ServerEntity := []
  clients : List Picker := []
  log : List Note := []

namespace Items

variable (s : Items)

/-- `getinfo(cn)`. -/
def getinfo (cn : Int) : Option Picker := Keyed.lookup Picker.cn cn s.clients

/-- Write through a `clientinfo *`. -/
def upd (cn : Int) (f : Picker → Picker) : Items :=
  { s with clients := Keyed.modify Picker.cn cn f s.clients }

/-- Something is sent, or happens that is not. -/
def note (n : Note) : Items := { s with log := s.log ++ [n] }

/-- `canspawnitem(type)`. -/
def canspawnitem (type : Int) : Bool :=
  !mNoitems s.gamemode && decide (I_SHELLS ≤ type ∧ type ≤ I_QUAD) &&
    (!mNoammo s.gamemode || decide (type < I_SHELLS ∨ I_CARTRIDGES < type))

/-- `numclients(-1, true, false)`. -/
def numclients : Nat := s.clients.countP fun c => c.state.state ≠ .spectator

/-- `spawntime(type)`. -/
def spawntime (type : Int) : Int :=
  if mClassicsp s.gamemode then 2147483647
  else
    let np : Int := if s.numclients < 3 then 4 else if 4 < s.numclients then 2 else 3
    let sec :=
      if I_SHELLS ≤ type ∧ type ≤ I_CARTRIDGES then np * 4
      else if type = I_HEALTH then np * 5
      else if type = I_GREENARMOUR then 20
      else if type = I_YELLOWARMOUR then 30
      else if type = I_BOOST then 60
      else if type = I_QUAD then 70
      else 0
    sec * 1000

/-- `delayspawn(type)`. -/
def delayspawn (type : Int) : Bool :=
  if type = I_GREENARMOUR ∨ type = I_YELLOWARMOUR then !mClassicsp s.gamemode
  else decide (type = I_BOOST ∨ type = I_QUAD)

/-- `m_timed && gamemillis >= gamelimit`. -/
def isover : Bool := mTimed s.gamemode && decide (s.gamelimit ≤ s.gamemillis)

/-- `pickup(i, sender)`. -/
def pickup (i sender : Int) : Bool × Items :=
  match s.sents[i.toNat]? with
  | none => (false, s)
  | some e =>
    if s.isover ∨ i < 0 ∨ !e.spawned then (false, s)
    else
      match s.getinfo sender with
      | none => (false, s)
      | some ci =>
        if !ci.state.canpickup e.type then (false, s.note (.refused i.toNat sender))
        else
          let time := s.spawntime e.type
          let s :=
            { s with sents := s.sents.set i.toNat { e with spawned := false, spawntime := time } }
          (true, (s.note (.itemacc i.toNat sender time)).upd sender fun c =>
            { c with state := c.state.pickup e.type })

/-- `pickupevent::process(ci)`. -/
def process (ci : Picker) (ent : Int) : Items :=
  if mMp s.gamemode ∧ !ci.state.isalive s.gamemillis then s else (s.pickup ent ci.cn).2

/-- Another event is processed. -/
def apply (process : Int → Gamestate → Gamestate) : Items :=
  { s with clients := s.clients.map fun c => { c with state := process c.cn c.state } }

/-- The loop of `flushevents` over a queue: the events that remain. -/
def flush (cn millis : Int) : List Gameevent → Items → Items × List Gameevent
  | [], s => (s, [])
  | ev :: evs, s =>
    match ev, s.getinfo cn with
    | .pickup ent, some ci => flush cn millis evs (s.process ci ent)
    | .other none _ process, some _ => flush cn millis evs (s.apply process)
    | .other (some time) _ process, some ci =>
      if millis < time then (s, ev :: evs)
      else if ci.lastevent ≤ time then
        flush cn millis evs ((s.upd cn fun c => { c with lastevent := time }).apply process)
      else flush cn millis evs s
    | _, none => (s, ev :: evs)

/-- `flushevents(ci, millis)`. -/
def flushevents (cn millis : Int) : Items :=
  match s.getinfo cn with
  | none => s
  | some ci =>
    let (s, events) := flush cn millis ci.events s
    s.upd cn fun c => { c with events }

/-- `processevents()`, for the clients from one on. -/
def processevents (curtime : Int) : List Int → Items → Items
  | [], s => s
  | cn :: cns, s =>
    let s := s.upd cn fun c =>
      if 0 < curtime ∧ c.state.quadmillis ≠ 0 then
        { c with state := { c.state with quadmillis := max (c.state.quadmillis - curtime) 0 } }
      else c
    processevents curtime cns (s.flushevents cn s.gamemillis)

/-- What the timer does to an item, and what is sent. -/
def tick (curtime : Int) (i : Nat) (e : ServerEntity) : ServerEntity × List Note :=
  if e.spawntime = 0 then (e, [])
  else
    let time := e.spawntime - curtime
    if time ≤ 0 then ({ e with spawntime := 0, spawned := true }, [.itemspawn i])
    else
      ({ e with spawntime := time },
        if time ≤ 10000 ∧ 10000 < e.spawntime ∧ (e.type = I_QUAD ∨ e.type = I_BOOST) then
          [.announce e.type]
        else [])

/-- `loopv(sents) if(sents[i].spawntime)`, from an item on. -/
def ticks (curtime : Int) : Nat → List ServerEntity → List ServerEntity × List Note
  | _, [] => ([], [])
  | i, e :: es =>
    ((tick curtime i e).1 :: (ticks curtime (i + 1) es).1,
      (tick curtime i e).2 ++ (ticks curtime (i + 1) es).2)

/-- The timers of the items. -/
def timers (curtime : Int) : Items :=
  let (sents, notes) := ticks curtime 0 s.sents
  { s with sents, log := s.log ++ .timers curtime :: notes }

/-- `serverupdate()`, where the game is not paused. -/
def serverupdate (curtime : Nat) : Items :=
  let s := { s with gamemillis := s.gamemillis + curtime }
  if mCheck s.gamemode [.demo] ∨ s.isover then s
  else
    let s := processevents curtime (s.clients.map Picker.cn) s
    if curtime = 0 then s else s.timers curtime

/-! ## The table -/

/-- `while(sents.length()<=n) sents.add(se);`. -/
def extend (n : Nat) : Items :=
  { s with sents := s.sents ++ List.replicate (n + 1 - s.sents.length) {} }

/-- `sents[n].type = type;` and, if it can spawn, its timer or the item itself. -/
def additem (n : Nat) (type : Int) : Items :=
  let s := s.extend n
  let e := { (s.sents.getD n {}) with type }
  if s.canspawnitem type then
    if mMp s.gamemode ∧ s.delayspawn type then
      { s with sents := s.sents.set n { e with spawntime := s.spawntime type } }
    else { s with sents := s.sents.set n { e with spawned := true } }.note (.put n)
  else { s with sents := s.sents.set n e }

/-- `loopv(ments) if(canspawnitem(ments[i].type))`, from an entity on. -/
def loadments : Nat → List Int → Items → Items
  | _, [], s => s
  | i, type :: types, s =>
    loadments (i + 1) types (if s.canspawnitem type then s.additem i type else s)

/-- `resetitems()`. -/
def resetitems : Items := { s with sents := [] }.note .cleared

/-- `loaditems()`; the types are those of the entities of the map, if it is there. -/
def loaditems (ments : Option (List Int)) : Items :=
  let s := { s.resetitems with notgotitems := true }
  match ments with
  | none => s
  | some types =>
    if mEdit s.gamemode then s else { loadments 0 types s with notgotitems := false }

/-- `changemap(s, mode)`. -/
def changemap (mode : Int) (ments : Option (List Int)) : Items :=
  let s := { s with gamemode := mode, gamemillis := 0, gamelimit := 600000 }.loaditems ments
  { s with clients := s.clients.map fun c => { c with events := [], lastevent := 0 } }

/-- The loop of `N_ITEMLIST`. -/
def additems : List (Int × Int) → Items → Items
  | [], s => s
  | (n, type) :: items, s =>
    if n < 0 ∨ MAXENTS ≤ n then s else additems items (s.additem n.toNat type)

/-- `N_ITEMLIST`, of a client with the map or another one. -/
def itemlist (cn : Int) (hasmap : Bool) (items : List (Int × Int)) : Items :=
  match s.getinfo cn with
  | none => s
  | some ci =>
    if ci.state.state = .spectator ∧ !ci.privilege ∨ !s.notgotitems ∨ !hasmap then s
    else { additems items s with notgotitems := false }

/-- `N_EDITENT`; it comes through in the mode for it. -/
def editent (cn i type : Int) : Except Fault Items :=
  match s.getinfo cn with
  | none => .ok s
  | some ci =>
    if !mEdit s.gamemode ∨ ci.state.state = .spectator then .ok s
    else
      let canspawn := s.canspawnitem type
      if i < MAXENTS ∧ (0 ≤ i ∧ i < s.sents.length ∨ canspawn) then
        if i < 0 then .error .outOfRange
        else
          let s := s.extend i.toNat
          let e := { (s.sents.getD i.toNat {}) with type }
          let touched : Bool :=
            if canspawn then !e.spawned else e.spawned || decide (e.spawntime ≠ (0 : Int))
          let e := if touched then
              { e with spawntime := if canspawn then 1 else 0, spawned := false }
            else e
          .ok ({ s with sents := s.sents.set i.toNat e }.note (.edited i.toNat))
      else .ok s

/-- `N_NEWMAP`. -/
def newmap (cn : Int) : Items :=
  match s.getinfo cn with
  | none => s
  | some ci =>
    if !mEdit s.gamemode ∨ !ci.privilege ∧ ci.state.state = .spectator then s
    else { s.resetitems with notgotitems := false }

/-! ## Events -/

/-- What happens to the items and the clients.  `setstate` and `setlimit` are any change of what a
client is and of the length of the match that the items are not told of, and `deletecontents` throws
the events of a client away. -/
inductive Event where
  | changemap (mode : Int) (ments : Option (List Int))
  | connected (cn : Int) (privilege : Bool) (state : Gamestate)
  | clientdisconnect (cn : Int)
  | setstate (cn : Int) (privilege : Bool) (state : Gamestate)
  | setlimit (gamelimit : Int)
  | deletecontents (cn : Int)
  | itemlist (cn : Int) (hasmap : Bool) (items : List (Int × Int))
  | editent (cn i type : Int)
  | newmap (cn : Int)
  | addevent (cn : Int) (ev : Gameevent)
  | tryspawn (cn : Int) (deadflush : Option Int)
  | serverupdate (curtime : Nat)

/-- One event. -/
def step (s : Items) : Event → Except Fault Items
  | .changemap mode ments => .ok (s.changemap mode ments)
  | .connected cn privilege state =>
    .ok (if s.getinfo cn = none then { s with clients := s.clients ++ [{ cn, privilege, state }] }
      else s)
  | .clientdisconnect cn => .ok { s with clients := Keyed.remove Picker.cn cn s.clients }
  | .setstate cn privilege state => .ok (s.upd cn fun c => { c with privilege, state })
  | .setlimit gamelimit => .ok { s with gamelimit }
  | .deletecontents cn => .ok (s.upd cn fun c => { c with events := [] })
  | .itemlist cn hasmap items => .ok (s.itemlist cn hasmap items)
  | .editent cn i type => s.editent cn i type
  | .newmap cn => .ok (s.newmap cn)
  | .addevent cn ev => .ok (s.upd cn fun c =>
      if c.state.state = .spectator ∨ 100 < c.events.length then c
      else { c with events := c.events ++ [ev] })
  | .tryspawn cn deadflush =>
    let s := match deadflush with
      | none => s
      | some millis => s.flushevents cn millis
    .ok (s.upd cn fun c => { c with events := c.events.filter Gameevent.keepable })
  | .serverupdate curtime => .ok (s.serverupdate curtime)

/-! ## The log -/

/-- An item was taken, and this has come since. -/
def Taken (i : Nat) (time : Int) (log since : List Note) : Prop :=
  ∃ l sender, log = l ++ .itemacc i sender time :: since

/-- The time that the timers have counted. -/
def elapsed (log : List Note) : Int := (log.map Note.time).sum

/-- Nothing was taken since the table was emptied. -/
def Untaken (log : List Note) : Prop := ∀ i time since, Taken i time log since → .cleared ∈ since

variable {s t : Items}

theorem split_append {n : Note} {log ns l l' : List Note} (hn : n ∉ ns)
    (h : log ++ ns = l ++ n :: l') : ∃ l'', l' = l'' ++ ns ∧ log = l ++ n :: l'' := by
  obtain ⟨l₁, rfl, hl₁⟩ | ⟨l₁, rfl, hl₁⟩ := List.append_eq_append_iff.mp h
  · -- the log ends before the entry, which is then among the new ones
    refine (hn ?_).elim
    rw [hl₁]
    exact List.mem_append_right _ (.head _)
  · obtain _ | ⟨m, l''⟩ := l₁
    · refine (hn ?_).elim
      rw [List.nil_append] at hl₁
      rw [← hl₁]
      exact .head _
    · obtain ⟨rfl, rfl⟩ := List.cons.inj hl₁
      exact ⟨l'', rfl, rfl⟩

theorem split_snoc {m n : Note} {log l l' : List Note} (h : log ++ [m] = l ++ n :: l') :
    l = log ∧ n = m ∧ l' = [] ∨ ∃ l'', l' = l'' ++ [m] ∧ log = l ++ n :: l'' := by
  obtain rfl | ⟨l'', k, rfl⟩ := l'.eq_nil_or_concat
  · obtain ⟨rfl, hm⟩ := List.append_inj' h rfl
    exact .inl ⟨rfl, (List.cons.inj hm).1.symm, rfl⟩
  · rw [List.concat_eq_append, ← List.cons_append, ← List.append_assoc] at h
    obtain ⟨rfl, hm⟩ := List.append_inj' h rfl
    rw [List.concat_eq_append, hm]
    exact .inr ⟨l'', rfl, rfl⟩

theorem taken_append {i : Nat} {time : Int} {log since ns : List Note}
    (hns : ∀ j sender time', Note.itemacc j sender time' ∉ ns)
    (h : Taken i time (log ++ ns) since) :
    ∃ since', since = since' ++ ns ∧ Taken i time log since' := by
  obtain ⟨l, sender, heq⟩ := h
  obtain ⟨l'', rfl, hlog⟩ := split_append (hns i sender time) heq
  exact ⟨l'', rfl, l, sender, hlog⟩

theorem taken_snoc {i j : Nat} {time time' sender : Int} {log since : List Note}
    (h : Taken i time (log ++ [.itemacc j sender time']) since) :
    i = j ∧ time = time' ∧ since = [] ∨
      ∃ since', since = since' ++ [.itemacc j sender time'] ∧ Taken i time log since' := by
  obtain ⟨l, sender', heq⟩ := h
  obtain ⟨-, hn, rfl⟩ | ⟨l'', rfl, hlog⟩ := split_snoc heq
  · cases hn
    exact .inl ⟨rfl, rfl, rfl⟩
  · exact .inr ⟨l'', rfl, l, sender', hlog⟩

theorem elapsed_append (l l' : List Note) : elapsed (l ++ l') = elapsed l + elapsed l' := by
  unfold elapsed
  rw [List.map_append, List.sum_append]

/-- An item is taken once before it is made available again. -/
def Exclusive (log : List Note) : Prop :=
  ∀ i l sender time l', log = l ++ .itemacc i sender time :: l' →
    ∀ time' since, Taken i time' l since → ∃ n ∈ since, n.Avails i

theorem Exclusive.append {log ns : List Note} (h : Exclusive log)
    (hns : ∀ j sender time, Note.itemacc j sender time ∉ ns) : Exclusive (log ++ ns) := by
  intro i l sender time l' heq
  obtain ⟨l'', -, hlog⟩ := split_append (hns i sender time) heq
  exact h i l sender time l'' hlog

theorem Exclusive.snoc {log : List Note} (h : Exclusive log) {j : Nat} {sender time : Int}
    (hj : ∀ time' since, Taken j time' log since → ∃ n ∈ since, n.Avails j) :
    Exclusive (log ++ [.itemacc j sender time]) := by
  intro i l sender' time' l' heq
  obtain ⟨rfl, hn, -⟩ | ⟨l'', -, hlog⟩ := split_snoc heq
  · cases hn
    exact hj
  · exact h i l sender' time' l'' hlog

/-- **What the log says of the items**: one that was taken is only there where it has been made
available since, and its timer has counted what has gone by. -/
structure Sound (s : Items) : Prop where
  there : ∀ i time since, Taken i time s.log since → .cleared ∉ since → i < s.sents.length
  shown : ∀ i e time since, Taken i time s.log since → s.sents[i]? = some e → e.spawned = true →
    ∃ n ∈ since, n.Avails i
  timed : mEdit s.gamemode = false → ∀ i time since, Taken i time s.log since → .cleared ∉ since →
    .put i ∉ since ∧ (.itemspawn i ∈ since → time ≤ elapsed since) ∧
      (.itemspawn i ∉ since → elapsed since < time ∧
        ∃ e, s.sents[i]? = some e ∧ e.spawntime = time - elapsed since)
  exclusive : Exclusive s.log

theorem Sound.same (h : Sound s) (hsents : t.sents = s.sents) (hlog : t.log = s.log)
    (hmode : t.gamemode = s.gamemode) : Sound t := by
  obtain ⟨hthere, hshown, htimed, hexcl⟩ := h
  refine ⟨?_, ?_, ?_, ?_⟩
  · rwa [hlog, hsents]
  · rwa [hlog, hsents]
  · rwa [hlog, hsents, hmode]
  · rwa [hlog]

/-- Something that has nothing to do with the items. -/
theorem Sound.refused (h : Sound s) (i : Nat) (sender : Int) :
    Sound (s.note (.refused i sender)) := by
  have hns : ∀ j sender' time, Note.itemacc j sender' time ∉ [Note.refused i sender] := by simp
  have hsents : (s.note (.refused i sender)).sents = s.sents := rfl
  refine ⟨fun j time since htaken hclear => ?_, fun j e time since htaken he hsp => ?_,
    fun hmode j time since htaken hclear => ?_, h.exclusive.append hns⟩
  · obtain ⟨since, rfl, hbefore⟩ := taken_append hns htaken
    exact h.there j time since hbefore fun hc => hclear (List.mem_append_left _ hc)
  · obtain ⟨since, rfl, hbefore⟩ := taken_append hns htaken
    obtain ⟨n, hn, hav⟩ := h.shown j e time since hbefore he hsp
    exact ⟨n, List.mem_append_left _ hn, hav⟩
  · obtain ⟨since, rfl, hbefore⟩ := taken_append hns htaken
    have := h.timed hmode j time since hbefore fun hc => hclear (List.mem_append_left _ hc)
    rw [hsents]
    simpa [elapsed_append, elapsed, Note.time] using this

theorem spawntime_pos (s : Items) {gs : Gamestate} {type : Int} (h : gs.canpickup type = true) :
    0 < s.spawntime type := by
  have hrange : I_SHELLS ≤ type ∧ type ≤ I_QUAD := by
    unfold Gamestate.canpickup at h
    split at h
    · cases h
    · omega
  have hnp : 0 < (if s.numclients < 3 then (4 : Int) else if 4 < s.numclients then 2 else 3) := by
    split_ifs <;> decide
  unfold spawntime
  generalize (if s.numclients < 3 then (4 : Int) else if 4 < s.numclients then 2 else 3) = np at hnp
  simp only [I_SHELLS, I_QUAD, I_CARTRIDGES, I_HEALTH, I_GREENARMOUR, I_YELLOWARMOUR, I_BOOST] at *
  split_ifs <;> omega

/-- **A request.** -/
theorem pickup_cases (s : Items) (i sender : Int) :
    (s.pickup i sender).1 = true ∧ (∃ e ci, s.sents[i.toNat]? = some e ∧ e.spawned = true ∧
      s.isover = false ∧ s.getinfo sender = some ci ∧ ci.state.canpickup e.type = true ∧
      (s.pickup i sender).2.sents =
        s.sents.set i.toNat { e with spawned := false, spawntime := s.spawntime e.type } ∧
      (s.pickup i sender).2.log = s.log ++ [.itemacc i.toNat sender (s.spawntime e.type)] ∧
      (s.pickup i sender).2.gamemode = s.gamemode ∧
      (s.pickup i sender).2.notgotitems = s.notgotitems) ∨
    (s.pickup i sender).1 = false ∧ ((s.pickup i sender).2 = s ∨
      (s.pickup i sender).2 = s.note (.refused i.toNat sender)) := by
  unfold pickup
  split
  · exact .inr ⟨rfl, .inl rfl⟩
  · next e he =>
    split
    · exact .inr ⟨rfl, .inl rfl⟩
    · next hok =>
      split
      · exact .inr ⟨rfl, .inl rfl⟩
      · next ci hci =>
        split
        · exact .inr ⟨rfl, .inr rfl⟩
        · next hcan =>
          simp only [not_or, Bool.not_eq_true] at hok
          exact .inl ⟨rfl, e, ci, he, by simpa using hok.2.2, hok.1, hci, by simpa using hcan, rfl,
            rfl, rfl, rfl⟩

theorem Sound.pickup (h : Sound s) (i sender : Int) : Sound (s.pickup i sender).2 := by
  obtain ⟨-, e, ci, he, hspawned, -, -, hcan, hsents, hlog, hmode, -⟩ | ⟨-, heq | heq⟩ :=
    pickup_cases s i sender
  · have hpos := spawntime_pos s hcan
    have hi : i.toNat < s.sents.length := (List.getElem?_eq_some_iff.mp he).1
    -- whatever took the item before, it has been made available since
    have havail : ∀ time since, Taken i.toNat time s.log since → ∃ n ∈ since, n.Avails i.toNat :=
      fun time since htaken => h.shown _ e time since htaken he hspawned
    have hget : ∀ j, j ≠ i.toNat → (s.pickup i sender).2.sents[j]? = s.sents[j]? := by
      intro j hj
      rw [hsents, List.getElem?_set_ne (Ne.symm hj)]
    have hnew : (s.pickup i sender).2.sents[i.toNat]? =
        some { e with spawned := false, spawntime := s.spawntime e.type } := by
      rw [hsents, List.getElem?_set_self hi]
    refine ⟨fun j time since htaken hclear => ?_, fun j e' time since htaken he' hsp => ?_,
      fun hnotedit j time since htaken hclear => ?_, ?_⟩
    · rw [hlog] at htaken
      rw [hsents, List.length_set]
      obtain ⟨rfl, -, -⟩ | ⟨since, rfl, hbefore⟩ := taken_snoc htaken
      · exact hi
      · exact h.there j time since hbefore fun hc => hclear (List.mem_append_left _ hc)
    · by_cases hj : j = i.toNat
      · subst hj
        obtain rfl := Option.some.inj (hnew.symm.trans he')
        cases hsp
      · rw [hlog] at htaken
        obtain ⟨rfl, -, -⟩ | ⟨since, rfl, hbefore⟩ := taken_snoc htaken
        · exact (hj rfl).elim
        · rw [hget j hj] at he'
          obtain ⟨n, hn, hav⟩ := h.shown j e' time since hbefore he' hsp
          exact ⟨n, List.mem_append_left _ hn, hav⟩
    · rw [hmode] at hnotedit
      rw [hlog] at htaken
      obtain ⟨rfl, rfl, rfl⟩ | ⟨since, rfl, hbefore⟩ := taken_snoc htaken
      · refine ⟨List.not_mem_nil, nofun, fun _ => ⟨hpos, _, hnew, ?_⟩⟩
        simp [elapsed]
      · have hclear' : Note.cleared ∉ since := fun hc => hclear (List.mem_append_left _ hc)
        obtain ⟨hput, hspawn, hwait⟩ := h.timed hnotedit j time since hbefore hclear'
        have helapsed : elapsed (since ++ [.itemacc i.toNat sender (s.spawntime e.type)]) =
            elapsed since := by simp [elapsed, Note.time]
        rw [helapsed]
        refine ⟨by simpa using hput, fun hmem => hspawn (by simpa using hmem), fun hmem => ?_⟩
        have hmem : Note.itemspawn j ∉ since := by simpa using hmem
        by_cases hj : j = i.toNat
        · subst hj
          obtain ⟨n, hn, ha⟩ := havail time since hbefore
          cases n with
          | itemspawn k =>
            obtain rfl : k = i.toNat := ha
            exact (hmem hn).elim
          | put k =>
            obtain rfl : k = i.toNat := ha
            exact (hput hn).elim
          | _ => exact ha.elim
        · obtain ⟨hlt, e', he', htime⟩ := hwait hmem
          exact ⟨hlt, e', (hget j hj).trans he', htime⟩
    · rw [hlog]
      exact h.exclusive.snoc havail
  · rw [heq]
    exact h
  · rw [heq]
    exact h.refused _ _

/-- Before the items are known there are none, where nobody edits them. -/
structure Ready (s : Items) : Prop extends Sound s where
  loaded : mEdit s.gamemode = false → s.notgotitems = true → s.sents = []

theorem Ready.same (h : Ready s) (hsents : t.sents = s.sents) (hlog : t.log = s.log)
    (hmode : t.gamemode = s.gamemode) (hgot : t.notgotitems = s.notgotitems) : Ready t := by
  refine ⟨h.toSound.same hsents hlog hmode, ?_⟩
  rw [hmode, hgot, hsents]
  exact h.loaded

theorem Ready.pickup (h : Ready s) (i sender : Int) : Ready (s.pickup i sender).2 := by
  refine ⟨h.toSound.pickup i sender, ?_⟩
  obtain ⟨-, e, ci, -, -, -, -, -, hsents, -, hmode, hgot⟩ | ⟨-, heq | heq⟩ :=
    pickup_cases s i sender
  · rw [hmode, hgot, hsents]
    intro hedit hnot
    rw [h.loaded hedit hnot, List.set_nil]
  · rw [heq]
    exact h.loaded
  · rw [heq]
    exact h.loaded

theorem Ready.process (h : Ready s) (ci : Picker) (ent : Int) : Ready (s.process ci ent) := by
  unfold Items.process
  split
  · exact h
  · exact h.pickup ent ci.cn

theorem Ready.flush (cn millis : Int) (evs : List Gameevent) (h : Ready s) :
    Ready (flush cn millis evs s).1 := by
  induction evs generalizing s with
  | nil => exact h
  | cons ev evs ih =>
    rw [Items.flush.eq_def]
    dsimp only
    split
    · exact ih (h.process _ _)
    · exact ih (h.same rfl rfl rfl rfl)
    · split_ifs
      · exact h
      · exact ih (h.same rfl rfl rfl rfl)
      · exact ih h
    · exact h

theorem Ready.flushevents (h : Ready s) (cn millis : Int) : Ready (s.flushevents cn millis) := by
  unfold Items.flushevents
  split
  · exact h
  · exact (h.flush cn millis _).same rfl rfl rfl rfl

theorem Ready.processevents (h : Ready s) (curtime : Int) (cns : List Int) :
    Ready (processevents curtime cns s) := by
  induction cns generalizing s with
  | nil => exact h
  | cons cn cns ih =>
    refine ih (Ready.flushevents ?_ cn _)
    exact h.same rfl rfl rfl rfl

/-! ## The timers -/

theorem ticks_get (curtime : Int) (k : Nat) (es : List ServerEntity) (j : Nat) :
    (ticks curtime k es).1[j]? = es[j]?.map fun e => (tick curtime (k + j) e).1 := by
  induction es generalizing k j with
  | nil => rfl
  | cons e es ih =>
    cases j with
    | zero => rfl
    | succ j =>
      simp only [ticks, List.getElem?_cons_succ, ih]
      rw [Nat.add_right_comm, Nat.add_assoc]

theorem mem_ticks {curtime : Int} {k : Nat} {es : List ServerEntity} {n : Note} :
    n ∈ (ticks curtime k es).2 ↔ ∃ j e, es[j]? = some e ∧ n ∈ (tick curtime (k + j) e).2 := by
  induction es generalizing k with
  | nil => simp [ticks]
  | cons e es ih =>
    rw [ticks, List.mem_append, ih]
    refine ⟨?_, ?_⟩
    · rintro (hn | ⟨j, e', he', hn⟩)
      · exact ⟨0, e, rfl, hn⟩
      · refine ⟨j + 1, e', he', ?_⟩
        rwa [Nat.add_right_comm, Nat.add_assoc] at hn
    · rintro ⟨_ | j, e', he', hn⟩
      · obtain rfl := Option.some.inj he'
        exact .inl hn
      · refine .inr ⟨j, e', he', ?_⟩
        rwa [Nat.add_right_comm, Nat.add_assoc]

/-- **What the timer does to an item**: it is announced when the time is over, and waits until
then. -/
theorem tick_spec (curtime : Int) (i : Nat) (e : ServerEntity) :
    (e.spawntime = 0 ∧ tick curtime i e = (e, [])) ∨
    (e.spawntime ≠ 0 ∧ e.spawntime ≤ curtime ∧
      tick curtime i e = ({ e with spawntime := 0, spawned := true }, [.itemspawn i])) ∨
    (e.spawntime ≠ 0 ∧ curtime < e.spawntime ∧
      (tick curtime i e).1 = { e with spawntime := e.spawntime - curtime } ∧
      ∀ n ∈ (tick curtime i e).2, n = .announce e.type) := by
  unfold tick
  by_cases h0 : e.spawntime = 0
  · rw [if_pos h0]
    exact .inl ⟨h0, rfl⟩
  · rw [if_neg h0]
    by_cases htime : e.spawntime - curtime ≤ 0
    · refine .inr (.inl ⟨h0, by omega, ?_⟩)
      exact if_pos htime
    · refine .inr (.inr ⟨h0, by omega, ?_⟩)
      dsimp only
      rw [if_neg htime]
      refine ⟨rfl, fun n hn => ?_⟩
      dsimp only at hn
      split at hn
      · exact List.mem_singleton.mp hn
      · cases hn

/-- The timers announce an item, or something else. -/
theorem ticks_notes {curtime : Int} {es : List ServerEntity} {n : Note}
    (h : n ∈ (ticks curtime 0 es).2) : (∃ i, n = .itemspawn i) ∨ ∃ type, n = .announce type := by
  obtain ⟨j, e, -, hn⟩ := mem_ticks.mp h
  obtain ⟨-, heq⟩ | ⟨-, -, heq⟩ | ⟨-, -, -, hall⟩ := tick_spec curtime (0 + j) e
  · rw [heq] at hn
    cases hn
  · rw [heq] at hn
    exact .inl ⟨_, List.mem_singleton.mp hn⟩
  · exact .inr ⟨_, hall n hn⟩

/-- **The item that is announced.** -/
theorem itemspawn_mem_ticks {curtime : Int} {es : List ServerEntity} {i : Nat} {e : ServerEntity}
    (he : es[i]? = some e) :
    .itemspawn i ∈ (ticks curtime 0 es).2 ↔ e.spawntime ≠ 0 ∧ e.spawntime ≤ curtime := by
  rw [mem_ticks]
  refine ⟨?_, fun ⟨h0, htime⟩ => ?_⟩
  · rintro ⟨j, e', he', hn⟩
    obtain ⟨-, heq⟩ | ⟨h0, htime, heq⟩ | ⟨-, -, -, hall⟩ := tick_spec curtime (0 + j) e'
    · rw [heq] at hn
      cases hn
    · rw [heq, List.mem_singleton, Nat.zero_add] at hn
      obtain rfl : i = j := by simpa using hn
      obtain rfl := Option.some.inj (he.symm.trans he')
      exact ⟨h0, htime⟩
    · cases hall _ hn
  · refine ⟨i, e, he, ?_⟩
    obtain ⟨h0', -⟩ | ⟨-, -, heq⟩ | ⟨-, htime', -⟩ := tick_spec curtime (0 + i) e
    · exact (h0 h0').elim
    · rw [heq, Nat.zero_add]
      exact .head _
    · omega

theorem elapsed_ticks (curtime : Int) (es : List ServerEntity) :
    elapsed (.timers curtime :: (ticks curtime 0 es).2) = curtime := by
  have hzero : elapsed (ticks curtime 0 es).2 = 0 := by
    refine List.sum_eq_zero fun t ht => ?_
    obtain ⟨n, hn, rfl⟩ := List.mem_map.mp ht
    obtain ⟨i, rfl⟩ | ⟨type, rfl⟩ := ticks_notes hn
    · rfl
    · rfl
  have hcons : elapsed (.timers curtime :: (ticks curtime 0 es).2) =
      curtime + elapsed (ticks curtime 0 es).2 := by
    unfold elapsed
    rw [List.map_cons, List.sum_cons]
    rfl
  rw [hcons, hzero, Int.add_zero]

theorem Sound.timers (h : Sound s) {curtime : Int} (hcur : 0 ≤ curtime) :
    Sound (s.timers curtime) := by
  have hlog : (s.timers curtime).log =
    s.log ++ .timers curtime :: (ticks curtime 0 s.sents).2 := rfl
  have hget : ∀ i : Nat, (s.timers curtime).sents[i]? =
      s.sents[i]?.map fun e => (tick curtime i e).1 := by
    intro i
    have := ticks_get curtime 0 s.sents i
    rwa [Nat.zero_add] at this
  have hother : ∀ n ∈ Note.timers curtime :: (ticks curtime 0 s.sents).2, n = .timers curtime ∨
      (∃ i, n = .itemspawn i) ∨ ∃ type, n = .announce type := by
    intro n hn
    obtain rfl | hn := List.mem_cons.mp hn
    · exact .inl rfl
    · exact .inr (ticks_notes hn)
  have hmem : ∀ i, .itemspawn i ∈ Note.timers curtime :: (ticks curtime 0 s.sents).2 ↔
      .itemspawn i ∈ (ticks curtime 0 s.sents).2 := by simp
  have hns : ∀ j sender time,
      Note.itemacc j sender time ∉ Note.timers curtime :: (ticks curtime 0 s.sents).2 := by
    intro j sender time hn
    obtain heq | ⟨_, heq⟩ | ⟨_, heq⟩ := hother _ hn <;> cases heq
  refine ⟨fun i time since htaken hclear => ?_, fun i e' time since htaken he' hsp => ?_,
    fun hmode i time since htaken hclear => ?_, ?_⟩
  · rw [hlog] at htaken
    obtain ⟨since, rfl, hbefore⟩ := taken_append hns htaken
    have hlt := h.there i time since hbefore fun hc => hclear (List.mem_append_left _ hc)
    by_contra hge
    have hnone := hget i
    rw [List.getElem?_eq_none (Nat.le_of_not_lt hge), List.getElem?_eq_getElem hlt] at hnone
    cases hnone
  · rw [hlog] at htaken
    obtain ⟨since, rfl, hbefore⟩ := taken_append hns htaken
    rw [hget] at he'
    obtain ⟨e, he, rfl⟩ := Option.map_eq_some_iff.mp he'
    obtain ⟨-, heq⟩ | ⟨h0, htime, -⟩ | ⟨-, -, heq, -⟩ := tick_spec curtime i e
    · rw [heq] at hsp
      obtain ⟨n, hn, hav⟩ := h.shown i e time since hbefore he hsp
      exact ⟨n, List.mem_append_left _ hn, hav⟩
    · -- the item is announced
      have hann := (itemspawn_mem_ticks he).mpr ⟨h0, htime⟩
      exact ⟨_, List.mem_append_right _ ((hmem i).mpr hann), rfl⟩
    · rw [heq] at hsp
      obtain ⟨n, hn, hav⟩ := h.shown i e time since hbefore he hsp
      exact ⟨n, List.mem_append_left _ hn, hav⟩
  · rw [hlog] at htaken
    obtain ⟨since, rfl, hbefore⟩ := taken_append hns htaken
    obtain ⟨hput, hspawn, hwait⟩ :=
      h.timed hmode i time since hbefore fun hc => hclear (List.mem_append_left _ hc)
    rw [elapsed_append, elapsed_ticks]
    refine ⟨fun hn => ?_, fun hn => ?_, fun hn => ?_⟩
    · obtain hn | hn := List.mem_append.mp hn
      · exact hput hn
      · obtain heq | ⟨_, heq⟩ | ⟨_, heq⟩ := hother _ hn <;> cases heq
    · by_cases hbef : Note.itemspawn i ∈ since
      · have := hspawn hbef
        omega
      · obtain ⟨-, e, he, htime⟩ := hwait hbef
        have hnow := (hmem i).mp ((List.mem_append.mp hn).resolve_left hbef)
        have := (itemspawn_mem_ticks he).mp hnow
        omega
    · obtain ⟨hlt, e, he, htime⟩ := hwait fun hb => hn (List.mem_append_left _ hb)
      have hnot := fun hann =>
        hn (List.mem_append_right _ ((hmem i).mpr ((itemspawn_mem_ticks he).mpr hann)))
      obtain ⟨h0, -⟩ | ⟨h0, hle, -⟩ | ⟨-, hgt, heq, -⟩ := tick_spec curtime i e
      · omega
      · exact (hnot ⟨h0, hle⟩).elim
      · refine ⟨by omega, (tick curtime i e).1, by rw [hget, he]; rfl, ?_⟩
        rw [heq]
        dsimp only
        omega
  · rw [hlog]
    exact h.exclusive.append hns

theorem Ready.timers (h : Ready s) {curtime : Int} (hcur : 0 ≤ curtime) :
    Ready (s.timers curtime) := by
  refine ⟨h.toSound.timers hcur, fun hedit hnot => ?_⟩
  have hsents : (s.timers curtime).sents = (ticks curtime 0 s.sents).1 := rfl
  rw [hsents, h.loaded hedit hnot]
  rfl

theorem Ready.serverupdate (h : Ready s) (curtime : Nat) : Ready (s.serverupdate curtime) := by
  have hclock : Ready { s with gamemillis := s.gamemillis + curtime } := h.same rfl rfl rfl rfl
  unfold Items.serverupdate
  dsimp only
  split
  · exact hclock
  · have hevents := hclock.processevents curtime (s.clients.map Picker.cn)
    split
    · exact hevents
    · exact hevents.timers (Int.natCast_nonneg curtime)

/-! ## The table -/

/-- An entry of the table is written: what is there afterwards. -/
theorem set_extend (s : Items) (n : Nat) (e : ServerEntity) :
    s.sents.length ≤ ((s.extend n).sents.set n e).length ∧
      ∀ (i : Nat) (e' : ServerEntity), ((s.extend n).sents.set n e)[i]? = some e' →
        e'.spawned = true → i = n ∧ e' = e ∨ s.sents[i]? = some e' := by
  have hsents : (s.extend n).sents =
    s.sents ++ List.replicate (n + 1 - s.sents.length) ({} : ServerEntity) := rfl
  refine ⟨by rw [List.length_set, hsents, List.length_append]; omega, fun i e' he' hsp => ?_⟩
  by_cases hi : i = n
  · subst hi
    have hlt : i < (s.extend i).sents.length := by
      rw [hsents, List.length_append, List.length_replicate]
      omega
    rw [List.getElem?_set_self hlt] at he'
    exact .inl ⟨rfl, (Option.some.inj he').symm⟩
  · rw [List.getElem?_set_ne (Ne.symm hi), hsents] at he'
    obtain hmem | hlt := Nat.lt_or_ge i s.sents.length
    · rw [List.getElem?_append_left hmem] at he'
      exact .inr he'
    · -- what the table is filled up with is not there
      rw [List.getElem?_append_right hlt] at he'
      obtain rfl := List.eq_of_mem_replicate (List.mem_of_getElem? he')
      cases hsp

/-- An entry that stands where none was is not there. -/
theorem spawned_getD_extend {n : Nat} (h : ((s.extend n).sents.getD n {}).spawned = true) :
    ∃ e, s.sents[n]? = some e ∧ e.spawned = true := by
  have hsents : (s.extend n).sents =
    s.sents ++ List.replicate (n + 1 - s.sents.length) ({} : ServerEntity) := rfl
  rw [List.getD_eq_getElem?_getD, hsents] at h
  obtain hmem | hlt := Nat.lt_or_ge n s.sents.length
  · rw [List.getElem?_append_left hmem, List.getElem?_eq_getElem hmem] at h
    exact ⟨_, List.getElem?_eq_getElem hmem, h⟩
  · rw [List.getElem?_append_right hlt] at h
    rw [List.getElem?_replicate] at h
    split at h <;> cases h

/-- The table after some entries of it were written: an item that is there was so before, unless
it was put there. -/
def Rewritten (ns : List Note) (s t : Items) : Prop :=
  t.gamemode = s.gamemode ∧ t.log = s.log ++ ns ∧ s.sents.length ≤ t.sents.length ∧
    ∀ (i : Nat) (e' : ServerEntity), t.sents[i]? = some e' → e'.spawned = true →
      (∃ n ∈ ns, n.Avails i) ∨ ∃ e, s.sents[i]? = some e ∧ e.spawned = true

/-- The table is changed by somebody who edits it, or before anything was taken. -/
theorem Sound.rewritten (h : Sound s) {ns : List Note} (hw : Rewritten ns s t)
    (hns : ∀ j sender time, Note.itemacc j sender time ∉ ns)
    (hun : mEdit s.gamemode = false → Untaken s.log) : Sound t := by
  obtain ⟨hmode, hlog, hlen, hsp⟩ := hw
  refine ⟨fun i time since htaken hclear => ?_, fun i e' time since htaken he' hsp' => ?_,
    fun hedit i time since htaken hclear => ?_, ?_⟩
  · rw [hlog] at htaken
    obtain ⟨since, rfl, hbefore⟩ := taken_append hns htaken
    have := h.there i time since hbefore fun hc => hclear (List.mem_append_left _ hc)
    omega
  · rw [hlog] at htaken
    obtain ⟨since, rfl, hbefore⟩ := taken_append hns htaken
    obtain ⟨n, hn, hav⟩ | ⟨e, he, hbef⟩ := hsp i e' he' hsp'
    · exact ⟨n, List.mem_append_right _ hn, hav⟩
    · obtain ⟨n, hn, hav⟩ := h.shown i e time since hbefore he hbef
      exact ⟨n, List.mem_append_left _ hn, hav⟩
  · rw [hlog] at htaken
    obtain ⟨since, rfl, hbefore⟩ := taken_append hns htaken
    rw [hmode] at hedit
    exact (hclear (List.mem_append_left _ (hun hedit i time since hbefore))).elim
  · rw [hlog]
    exact h.exclusive.append hns

theorem Untaken.append {log ns : List Note} (h : Untaken log)
    (hns : ∀ j sender time, Note.itemacc j sender time ∉ ns) : Untaken (log ++ ns) := by
  intro i time since htaken
  obtain ⟨since, rfl, hbefore⟩ := taken_append hns htaken
  exact List.mem_append_left _ (h i time since hbefore)

/-- **An entry of an item list or of a map.** -/
theorem additem_spec (s : Items) (n : Nat) (type : Int) :
    ∃ ns, (ns = [] ∨ ns = [.put n]) ∧ Rewritten ns s (s.additem n type) := by
  unfold additem
  dsimp only
  split_ifs
  · -- it spawns later
    refine ⟨[], .inl rfl, rfl, (List.append_nil _).symm, (set_extend s n _).1, ?_⟩
    intro i e' he' hsp
    obtain ⟨rfl, rfl⟩ | hbef := (set_extend s n _).2 i e' he' hsp
    · exact .inr (spawned_getD_extend hsp)
    · exact .inr ⟨e', hbef, hsp⟩
  · -- it is there
    refine ⟨[.put n], .inr rfl, rfl, rfl, (set_extend s n _).1, fun i e' he' hsp => ?_⟩
    obtain ⟨rfl, -⟩ | hbef := (set_extend s n _).2 i e' he' hsp
    · exact .inl ⟨_, .head _, rfl⟩
    · exact .inr ⟨e', hbef, hsp⟩
  · refine ⟨[], .inl rfl, rfl, (List.append_nil _).symm, (set_extend s n _).1, ?_⟩
    intro i e' he' hsp
    obtain ⟨rfl, rfl⟩ | hbef := (set_extend s n _).2 i e' he' hsp
    · exact .inr (spawned_getD_extend hsp)
    · exact .inr ⟨e', hbef, hsp⟩

/-- What may be written into the table: anything where it is edited, else nothing was taken. -/
structure Open (s : Items) : Prop extends Sound s where
  untaken : mEdit s.gamemode = false → Untaken s.log

theorem Open.additem (h : Open s) (n : Nat) (type : Int) : Open (s.additem n type) := by
  obtain ⟨ns, hns, hw⟩ := additem_spec s n type
  have hnone : ∀ j sender time, Note.itemacc j sender time ∉ ns := by
    obtain rfl | rfl := hns <;> simp
  refine ⟨h.toSound.rewritten hw hnone h.untaken, ?_⟩
  rw [hw.1, hw.2.1]
  exact fun hedit => (h.untaken hedit).append hnone

theorem Open.additems (h : Open s) (items : List (Int × Int)) : Open (additems items s) := by
  induction items generalizing s with
  | nil => exact h
  | cons item items ih =>
    rw [Items.additems]
    split
    · exact h
    · exact ih (h.additem _ _)

theorem Open.loadments (h : Open s) (i : Nat) (types : List Int) : Open (loadments i types s) := by
  induction types generalizing s i with
  | nil => exact h
  | cons type types ih =>
    rw [Items.loadments]
    refine ih ?_ (i + 1)
    split
    · exact h.additem _ _
    · exact h

/-- What is known of the items once they are there. -/
theorem Open.ready (h : Open s) : Ready { s with notgotitems := false } :=
  ⟨h.toSound.same rfl rfl rfl, nofun⟩

/-- The table is emptied, maybe for another mode. -/
theorem Open.resetitems (h : Exclusive s.log) : Open s.resetitems := by
  have hns : ∀ j sender time, Note.itemacc j sender time ∉ [Note.cleared] := by simp
  have hlog : s.resetitems.log = s.log ++ [.cleared] := rfl
  have hall : Untaken s.resetitems.log := by
    rw [hlog]
    intro i time since htaken
    obtain ⟨since, rfl, -⟩ := taken_append hns htaken
    exact List.mem_append_right _ (.head _)
  refine ⟨⟨?_, nofun, ?_, ?_⟩, fun _ => hall⟩
  · exact fun i time since htaken hclear => (hclear (hall i time since htaken)).elim
  · exact fun _ i time since htaken hclear => (hclear (hall i time since htaken)).elim
  · rw [hlog]
    exact h.append hns

theorem Ready.loaditems (h : Exclusive s.log) (ments : Option (List Int)) :
    Ready (s.loaditems ments) := by
  have hopen := Open.resetitems h
  have hempty : Ready { s.resetitems with notgotitems := true } :=
    ⟨hopen.toSound.same rfl rfl rfl, fun _ _ => rfl⟩
  unfold Items.loaditems
  dsimp only
  split
  · exact hempty
  · next types =>
    split
    · exact hempty
    · next hedit =>
      refine Open.ready (Open.loadments ⟨hempty.toSound, ?_⟩ 0 types)
      exact hopen.untaken

theorem Ready.changemap (h : Ready s) (mode : Int) (ments : Option (List Int)) :
    Ready (s.changemap mode ments) := by
  let s' := { s with gamemode := mode, gamemillis := 0, gamelimit := 600000 }
  have hload : Ready (s'.loaditems ments) := Ready.loaditems (s := s') h.exclusive ments
  exact hload.same rfl rfl rfl rfl

/-- Nothing was taken before the items are known. -/
theorem Ready.open (h : Ready s) (hnot : s.notgotitems = true) : Open s := by
  refine ⟨h.toSound, fun hedit i time since htaken => ?_⟩
  by_contra hclear
  have hlt := h.there i time since htaken hclear
  rw [h.loaded hedit hnot] at hlt
  cases hlt

theorem Ready.itemlist (h : Ready s) (cn : Int) (hasmap : Bool) (items : List (Int × Int)) :
    Ready (s.itemlist cn hasmap items) := by
  unfold Items.itemlist
  split
  · exact h
  · split
    · exact h
    · next hok =>
      simp only [not_or, Bool.not_eq_true, Bool.not_eq_false'] at hok
      exact ((h.open hok.2.1).additems items).ready

theorem Ready.newmap (h : Ready s) (cn : Int) : Ready (s.newmap cn) := by
  unfold Items.newmap
  split
  · exact h
  · split
    · exact h
    · exact (Open.resetitems h.exclusive).ready

/-- **Somebody edits an entity**: an item that is not there stays so until the timers run. -/
theorem editent_spec {cn i type : Int} (ht : s.editent cn i type = .ok t) :
    t = s ∨ mEdit s.gamemode = true ∧ Rewritten [.edited i.toNat] s t := by
  unfold editent at ht
  split at ht
  · exact .inl (Except.ok.inj ht).symm
  · split at ht
    · exact .inl (Except.ok.inj ht).symm
    · next hedit =>
      simp only [not_or, Bool.not_eq_true, Bool.not_eq_false'] at hedit
      dsimp only at ht
      split at ht
      · split at ht
        · cases ht
        · obtain rfl := Except.ok.inj ht
          refine .inr ⟨hedit.1, rfl, rfl, (set_extend s i.toNat _).1, fun j e' he' hsp => .inr ?_⟩
          obtain ⟨rfl, rfl⟩ | hbef := (set_extend s i.toNat _).2 j e' he' hsp
          · refine spawned_getD_extend ?_
            revert hsp
            split_ifs <;> simp
          · exact ⟨e', hbef, hsp⟩
      · exact .inl (Except.ok.inj ht).symm

theorem Ready.editent (h : Ready s) {cn i type : Int} (ht : s.editent cn i type = .ok t) :
    Ready t := by
  obtain rfl | ⟨hedit, hw⟩ := editent_spec ht
  · exact h
  · have hno : mEdit s.gamemode ≠ false := by simp [hedit]
    refine ⟨h.toSound.rewritten hw (by simp) fun hf => (hno hf).elim, ?_⟩
    rw [hw.1]
    exact fun hf => (hno hf).elim

/-! ## Runs -/

theorem Ready.step (h : Ready s) {e : Event} (ht : step s e = .ok t) : Ready t := by
  cases e with
  | changemap mode ments =>
    obtain rfl := Except.ok.inj ht
    exact h.changemap mode ments
  | connected cn privilege state =>
    obtain rfl := Except.ok.inj ht
    split
    · exact h.same rfl rfl rfl rfl
    · exact h
  | itemlist cn hasmap items =>
    obtain rfl := Except.ok.inj ht
    exact h.itemlist cn hasmap items
  | editent cn i type => exact h.editent ht
  | newmap cn =>
    obtain rfl := Except.ok.inj ht
    exact h.newmap cn
  | tryspawn cn deadflush =>
    obtain rfl := Except.ok.inj ht
    cases deadflush with
    | none => exact h.same rfl rfl rfl rfl
    | some millis => exact (h.flushevents cn millis).same rfl rfl rfl rfl
  | serverupdate curtime =>
    obtain rfl := Except.ok.inj ht
    exact h.serverupdate curtime
  | _ =>
    obtain rfl := Except.ok.inj ht
    exact h.same rfl rfl rfl rfl

/-- **Items are exact.**  Between two times that an item is taken it is announced or put into the
table, and without editing it is announced; it is announced when the timers have counted its spawn
time.  A request that is granted is for an item that is there, in a match that is not over, and one
that is refused changes nothing. -/
theorem items_exact {es : List Event} (hrun : Run.Steps step (fun _ _ => True) {} es s) :
    Exclusive s.log ∧
    (mEdit s.gamemode = false → ∀ i time since, Taken i time s.log since → .cleared ∉ since →
      .put i ∉ since ∧ (.itemspawn i ∈ since ↔ time ≤ elapsed since)) ∧
    ∀ (u : Items) (i sender : Int),
      (u.pickup i sender).1 = true ∧ (∃ e ci, u.sents[i.toNat]? = some e ∧ e.spawned = true ∧
        u.isover = false ∧ u.getinfo sender = some ci ∧ ci.state.canpickup e.type = true ∧
        (u.pickup i sender).2.log = u.log ++ [.itemacc i.toNat sender (u.spawntime e.type)]) ∨
      (u.pickup i sender).1 = false ∧ (u.pickup i sender).2.sents = u.sents ∧
        (u.pickup i sender).2.clients = u.clients := by
  have hinit : Ready {} := by
    refine ⟨⟨?_, nofun, ?_, ?_⟩, fun _ _ => rfl⟩
    · rintro i time since ⟨l, sender, hl⟩
      simp at hl
    · rintro - i time since ⟨l, sender, hl⟩
      simp at hl
    · intro i l sender time l' hl
      simp at hl
  have h : Ready s := hrun.invariant Ready (fun s e t hs _ ht => hs.step ht) hinit
  refine ⟨h.exclusive, fun hedit i time since htaken hclear => ?_, fun u i sender => ?_⟩
  · obtain ⟨hput, hspawn, hwait⟩ := h.timed hedit i time since htaken hclear
    refine ⟨hput, hspawn, fun hle => ?_⟩
    by_contra hnot
    have := (hwait hnot).1
    omega
  · obtain ⟨hgot, e, ci, he, hsp, hover, hci, hcan, -, hlog, -, -⟩ | ⟨hno, heq | heq⟩ :=
      pickup_cases u i sender
    · exact .inl ⟨hgot, e, ci, he, hsp, hover, hci, hcan, hlog⟩
    · rw [heq]
      exact .inr ⟨hno, rfl, rfl⟩
    · rw [heq]
      exact .inr ⟨hno, rfl, rfl⟩

/-- A client who lacks half of his health. -/
def hurt : Gamestate := { state := .alive, health := 50 }

/-- Somebody takes the health of a map, and it is announced again. -/
theorem items_exact_health : ∃ s : Items,
    s.log = [.cleared, .put 0, .itemacc 0 0 20000, .timers 100, .timers 19900, .itemspawn 0] ∧
    (.itemspawn 0 ∈ [Note.timers 100, .timers 19900, .itemspawn 0] ↔
      20000 ≤ elapsed [.timers 100, .timers 19900, .itemspawn 0]) := by
  obtain ⟨s, hrun, hp⟩ := Run.Steps.of_any step (fun _ _ => True) {}
    [.changemap 0 (some [14]), .connected 0 false hurt, .addevent 0 (.pickup 0), .serverupdate 100,
      .serverupdate 19900]
    (p := fun s => decide (s.log = [.cleared, .put 0, .itemacc 0 0 20000, .timers 100,
      .timers 19900, .itemspawn 0]) && !mEdit s.gamemode) (fun _ _ _ => trivial) (by decide +kernel)
  simp only [Bool.and_eq_true, decide_eq_true_eq, Bool.not_eq_true'] at hp
  refine ⟨s, hp.1, ((items_exact hrun).2.1 hp.2 0 20000 _ ⟨[.cleared, .put 0], 0, ?_⟩ ?_).2⟩
  · rw [hp.1]
    rfl
  · decide

/-- While a map is edited an item list puts an item back that was taken, and another client takes it
before it is announced; and an item is announced earlier than its spawn time after it was taken. -/
theorem items_not_exact :
    (¬∀ (es : List Event) (s : Items), Run.Steps step (fun _ _ => True) {} es s →
      ∀ i l sender time since sender' time' l',
        s.log = l ++ .itemacc i sender time :: (since ++ .itemacc i sender' time' :: l') →
          .itemspawn i ∈ since) ∧
    ∃ (es : List Event) (s t : Items), Run.Steps step (fun _ _ => True) {} es s ∧
      s.gamemillis = 100 ∧ s.log = [.cleared, .put 0, .itemacc 0 0 20000, .timers 100] ∧
      step s (.serverupdate 19900) = .ok t ∧ t.gamemillis = 20000 ∧ .itemspawn 0 ∈ t.log := by
  refine ⟨?_, ?_⟩
  · obtain ⟨s, hrun, hp⟩ := Run.Steps.of_any step (fun _ _ => True) {}
      [.changemap 1 none, .connected 0 false hurt, .connected 1 false hurt, .editent 0 0 14,
        .serverupdate 1, .addevent 0 (.pickup 0), .serverupdate 1, .itemlist 0 true [(0, 14)],
        .addevent 1 (.pickup 0), .serverupdate 1]
      (p := fun s => decide (s.log = [.cleared, .edited 0, .timers 1, .itemspawn 0,
        .itemacc 0 0 20000, .timers 1, .put 0, .itemacc 0 1 20000, .timers 1]))
      (fun _ _ _ => trivial) (by decide +kernel)
    intro hall
    have := hall _ s hrun 0 [.cleared, .edited 0, .timers 1, .itemspawn 0] 0 20000
      [.timers 1, .put 0] 1 20000 [.timers 1] (of_decide_eq_true hp)
    revert this
    decide
  · obtain ⟨s, hrun, hp⟩ := Run.Steps.of_any step (fun _ _ => True) {}
      [.changemap 0 (some [14]), .connected 0 false hurt, .addevent 0 (.pickup 0),
        .serverupdate 100]
      (p := fun s => decide (s.gamemillis = 100 ∧
        s.log = [.cleared, .put 0, .itemacc 0 0 20000, .timers 100] ∧
        (s.serverupdate 19900).gamemillis = 20000 ∧ .itemspawn 0 ∈ (s.serverupdate 19900).log))
      (fun _ _ _ => trivial) (by decide +kernel)
    obtain ⟨hclock, hlog, hthen, hann⟩ := of_decide_eq_true hp
    exact ⟨_, s, _, hrun, hclock, hlog, rfl, hthen, hann⟩

end Items

end QServ
