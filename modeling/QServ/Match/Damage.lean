import QServ.Lib.Keyed
import QServ.Lib.Loop
import QServ.Match.Shots

/-!
# Damage

`dodamage(target, actor, damage, gun)` and `suicide(ci)` of `fpsgame/server.cpp`: health and armour,
what is sent about them, and deaths.  The texts for the console and `effectiveness`, a sum of
floats, are left out, and so is what becomes of `setpushed` and `addteamkill`.

* `Battle.dodamage`: the damage; `Battle.heal` is what teammates get instead.
* `Hud.read`: what a client makes of `N_DAMAGE`.
* `Processed`: a death, or none.
* `dodamage_faithful_iff`: what is sent is what has happened, unless somebody is healed.
-/

namespace QServ

namespace Combat

/-! ## The clients -/

/-- What damage and shots read and write of a `clientinfo` and its state; `bot` is an `aitype`, and
`hasx` that `o.x` is not zero. -/
structure Fighter where
  ownernum : Int32
  connected : Bool
  bot : Bool
  team : String
  hasx : Bool
  gs : Shooter
  health : Int
  maxhealth : Int
  armour : Int
  armourtype : Int
  lifesequence : Int
  lastspawn : Int
  deadflush : Int
  deaths : Int
  frags : Int
  teamkills : Int
  suicides : Int
  damage : Int
  gundamage : Int → Int
  spreefrags : Int
  multifrags : Int
  lastfragmillis : Int

/-- What is sent, and what is called: without a `dest` it is sent to all, and the fields are those
behind the type of the message.  A shot or an explosion that is accepted comes with its time, that
of the flush and the ammunition there was. -/
inductive Note where
  | damage (dest : Option Int32) (fields : List Int)
  | hitpush (dest : Option Int32) (target gun : Int32) (damage : Int) (dir : Vec)
  | died (target actor : Int32) (frags tfrags : Int)
  | modedied (target : Int32) (actor : Option Int32)
  | passflag (actor target : Int32)
  | setpushed (cn : Int32)
  | addteamkill (actor target : Int32)
  | shotfx (cn id gun : Int32) (millis fmillis ammo : Int)
  | explodefx (cn id gun : Int32) (millis fmillis : Int)
  | respawned (cn : Int32)
  | spawned (cn : Int32)
deriving DecidableEq, Repr

/-- The modes, the variables and what is computed with floats: `rescale(DNF)`, whether a shot goes
too far, and the damage of an explosion at a distance.  `healamount` has the range of its
variable. -/
structure Rules where
  teammode : Bool
  smode : Bool
  healteammates : Bool
  passflag : Bool
  friendlyfire : Bool
  nodamage : Bool
  healamount : Int
  multifragmillis : Int
  rescale : Vec → Vec
  toofar : Shot → Bool
  falloff : Int32 → Int32 → Int → Int
  healamount_pos : 1 ≤ healamount
  healamount_lt : healamount < 2 ^ 31

/-- The clients by their numbers, and the game. -/
structure Battle where
  clients : List Int32
  info : Int32 → Fighter
  teaminfos : List (String × Int)
  gamemillis : Int
  totalmillis : Int
  firstblood : Bool
  log : List Note

/-- `fpsstate::dodamage(damage)`. -/
def Fighter.dodamage (damage : Int) (t : Fighter) : Fighter :=
  let ad := (int32 (int32 (damage * (t.armourtype + 1)) * 25)).tdiv 100
  let ad := if t.armour < ad then t.armour else ad
  { t with armour := int32 (t.armour - ad), health := int32 (t.health - int32 (damage - ad)) }

namespace Battle

variable (r : Rules) (target actor : Int32) (b : Battle)

/-- A client is changed. -/
def upd (cn : Int32) (f : Fighter → Fighter) : Battle :=
  { b with info := Function.update b.info cn (f (b.info cn)) }

/-- Something is sent or called. -/
def post (n : Note) : Battle := { b with log := b.log ++ [n] }

/-- `isteam(a, b)` of two clients. -/
def isteam : Bool := r.teammode && decide ((b.info actor).team = (b.info target).team)

/-- `fragvalue(victim, actor)`. -/
def fragvalue : Int := if target = actor || b.isteam r target actor then -1 else 1

/-- The frags of a team. -/
def teamfrags (team : String) : Int :=
  ((Keyed.lookup Prod.fst team b.teaminfos).map Prod.snd).getD 0

/-- `if(t) t->frags += v` of the team. -/
def addteamfrags (team : String) (v : Int) : Battle :=
  if r.teammode then
    { b with teaminfos := Keyed.modify Prod.fst team (fun t => (t.1, t.2 + v)) b.teaminfos }
  else b

/-- `enable_healteammates`: each of the two messages has its type only. -/
def heal : Battle :=
  if r.healteammates then
    let b := b.upd target fun t => { t with health := int32 (t.health + r.healamount) }
    if (b.info target).bot then b
    else
      let b := b.post (.damage (some target) [])
      let b := b.upd target fun t => { t with health := int32 (t.health - 1) }
      b.post (.damage (some target) [])
  else b

/-- What a teammate gets. -/
def aid : Battle :=
  let b := b.heal r target
  if r.passflag then b.post (.passflag actor target) else b

/-- `if(!nodamage)`. -/
def hurt (damage : Int) : Battle :=
  if r.nodamage then b
  else
    let b := b.upd target (Fighter.dodamage damage)
    let t := b.info target
    b.post (.damage none [target.toInt, actor.toInt, damage, t.armour, t.health])

/-- `actor->state.damage += damage`. -/
def adddamage (damage : Int) : Battle :=
  if target ≠ actor ∧ !b.isteam r target actor then
    b.upd actor fun a => { a with damage := int32 (a.damage + damage) }
  else b

/-- The push of a hit. -/
def push (damage : Int) (gun : Int32) (hitpush : Vec) : Battle :=
  if target = actor then b.post (.setpushed target)
  else if hitpush = (0, 0, 0) then b
  else
    let t := b.info target
    let dest := if t.health ≤ 0 then none else some t.ownernum
    (b.post (.hitpush dest target gun damage (r.rescale hitpush))).post (.setpushed target)

/-- `multifrags` and `lastfragmillis` of one who gets a frag. -/
def multifrag (v : Int) : Battle :=
  if 0 < v then
    b.upd actor fun a => { a with
      multifrags :=
        if b.totalmillis - a.lastfragmillis < r.multifragmillis then a.multifrags + 1 else 1
      lastfragmillis := b.totalmillis }
  else b

/-- The frags of a death, for the actor and his team, and `N_DIED`. -/
def frag : Battle :=
  let v := b.fragvalue r target actor
  let team := (b.info actor).team
  let b := b.upd target fun t => { t with deaths := t.deaths + 1 }
  let b := b.upd actor fun a => { a with frags := a.frags + v }
  let b := (b.multifrag r actor v).addteamfrags r team v
  b.post (.died target actor (b.info actor).frags (if r.teammode then b.teamfrags team else 0))

/-- The sprees that a death starts and ends. -/
def spree : Battle :=
  let b := { b with firstblood := b.firstblood || decide (actor ≠ target) }
  let b := if actor ≠ target ∧ !(b.info actor).bot then
      b.upd actor fun a => { a with spreefrags := a.spreefrags + 1 }
    else b
  b.upd target fun t => { t with spreefrags := 0, multifrags := 0, lastfragmillis := 0 }

/-- `if(smode) smode->died(victim, actor)`. -/
def modedied (actor : Option Int32) : Battle :=
  if r.smode then b.post (.modedied target actor) else b

/-- The target is dead. -/
def bury : Battle :=
  b.upd target fun t => { t with
    gs := { t.gs with state := .dead, lastdeath := b.gamemillis }
    deadflush := b.gamemillis + DEATHMILLIS }

/-- `actor != target && m_teammode && isteam(actor->team, target->team)`. -/
def mate : Bool := decide (actor ≠ target) && b.isteam r target actor

/-- A death by a teammate. -/
def teamkill : Battle :=
  if b.mate r target actor then
    (b.upd actor fun a => { a with teamkills := a.teamkills + 1 }).post (.addteamkill actor target)
  else b

/-- `if(ts.health<=0)`. -/
def die : Battle :=
  if (b.info target).health ≤ 0 then
    let b := (b.frag r target actor).spree target actor
    ((b.modedied r target (some actor)).bury target).teamkill r target actor
  else b

/-- The clients are connected and `o.x` of the target is not zero. -/
def checked : Bool :=
  (b.info actor).connected && (b.info target).connected && (b.info target).hasx

/-- `actor->state.guninfo[gun].damage += damage`. -/
def addgundamage (damage : Int) (gun : Int32) : Battle :=
  b.upd actor fun a => { a with
    gundamage := Function.update a.gundamage gun.toInt (int32 (a.gundamage gun.toInt + damage)) }

/-- `dodamage(target, actor, damage, gun, hitpush)`. -/
def dodamage (damage : Int) (gun : Int32) (hitpush : Vec) : Battle :=
  if !b.checked target actor then b
  else
    let mate := b.mate r target actor
    let alive := decide ((b.info target).gs.state = .alive)
    let b := b.addgundamage actor damage gun
    if mate && !alive then b
    else
      let damage := if mate && !r.friendlyfire then 0 else damage
      let b := if mate then b.aid r target actor else b
      let b := b.hurt r target actor damage
      let b := b.adddamage r target actor damage
      let b := b.push r target actor damage gun hitpush
      b.die r target actor

/-- `respawn()`. -/
def respawn (cn : Int32) : Battle :=
  (b.upd cn fun f => { f with
    maxhealth := 100, health := 100, armour := 0, armourtype := 0, hasx := true
    deadflush := 0, lastspawn := -1
    gs := { f.gs with
      quadmillis := 0, gunwait := 0, lastshot := 0
      ammo := fun n => if n = 0 then 1 else 0 } }).post (.respawned cn)

/-- `suicide(ci)`. -/
def suicide (cn : Int32) : Battle :=
  if (b.info cn).gs.state ≠ .alive then b
  else
    let v := b.fragvalue r cn cn
    let team := (b.info cn).team
    let b := b.upd cn fun f => { f with frags := f.frags + v, deaths := f.deaths + 1 }
    let b := b.addteamfrags r team v
    let tfrags := if r.teammode then b.teamfrags team else 0
    let b := b.post (.died cn cn (b.info cn).frags tfrags)
    let b := b.upd cn fun f => { f with spreefrags := 0, multifrags := 0, lastfragmillis := 0 }
    let b := b.modedied r cn none
    let b := b.upd cn fun f => { f with
      suicides := f.suicides + 1
      gs := { f.gs with state := .dead, lastdeath := b.gamemillis } }
    b.respawn cn

/-! ## What a client is told -/

section

variable {b b' b'' : Battle} {target actor cn : Int32} {f : Fighter → Fighter} {n : Note}

@[simp] theorem upd_log : (b.upd cn f).log = b.log := rfl

@[simp] theorem upd_teaminfos : (b.upd cn f).teaminfos = b.teaminfos := rfl

@[simp] theorem upd_gamemillis : (b.upd cn f).gamemillis = b.gamemillis := rfl

@[simp] theorem post_info : (b.post n).info = b.info := rfl

@[simp] theorem post_log : (b.post n).log = b.log ++ [n] := rfl

@[simp] theorem post_teaminfos : (b.post n).teaminfos = b.teaminfos := rfl

@[simp] theorem post_gamemillis : (b.post n).gamemillis = b.gamemillis := rfl

@[simp] theorem upd_info_self : (b.upd cn f).info cn = f (b.info cn) := Function.update_self ..

theorem upd_info_of_ne {cn' : Int32} (h : cn' ≠ cn) : (b.upd cn f).info cn' = b.info cn' :=
  Function.update_of_ne h ..

/-- What a change does not touch is as it was, for everybody. -/
theorem upd_same {α : Type} (g : Fighter → α) (hf : ∀ a, g (f a) = g a) (cn' : Int32) :
    g ((b.upd cn f).info cn') = g (b.info cn') := by
  by_cases h : cn' = cn
  · rw [h, upd_info_self, hf]
  · rw [upd_info_of_ne h]

end

end Battle

/-- What a client shows of each client: armour and health. -/
abbrev Hud := Int32 → Int × Int

/-- `N_DAMAGE`. -/
def Note.isdamage : Note → Bool
  | .damage .. => true
  | _ => false

/-- `N_DIED` and the call of the mode. -/
def Note.isdeath : Note → Bool
  | .died .. | .modedied .. => true
  | _ => false

namespace Hud

/-- What a client makes of something that is sent; an `N_DAMAGE` that has not all its fields cannot
be read. -/
def read (me : Int32) (hud : Hud) : Note → Option Hud
  | .damage dest fields =>
    if dest = none ∨ dest = some me then
      if 1 + fields.length = MsgType.nDamage.msgsize then
        some fun cn =>
          if cn.toInt = fields.getD 0 0 then (fields.getD 3 0, fields.getD 4 0) else hud cn
      else none
    else some hud
  | _ => some hud

theorem read_quiet {me : Int32} {n : Note} (hud : Hud) (h : n.isdamage = false) :
    read me hud n = some hud := by
  cases n <;> first | rfl | cases h

/-- What a client makes of all that is sent. -/
def readall (me : Int32) (hud : Hud) (ns : List Note) : Option Hud := ns.foldlM (read me) hud

/-- The client shows what the server has, but for one. -/
def Shows (but : Option Int32) (b : Battle) (hud : Hud) : Prop :=
  ∀ cn, some cn ≠ but → hud cn = ((b.info cn).armour, (b.info cn).health)

theorem readall_append (me : Int32) (hud : Hud) (ns ns' : List Note) :
    readall me hud (ns ++ ns') = (readall me hud ns).bind fun hud => readall me hud ns' :=
  List.foldlM_append ..

theorem readall_quiet {me : Int32} {ns : List Note} (hud : Hud)
    (h : ∀ n ∈ ns, n.isdamage = false) : readall me hud ns = some hud := by
  induction ns with
  | nil => rfl
  | cons n ns ih =>
    obtain ⟨hn, hns⟩ := List.forall_mem_cons.mp h
    change (read me hud n).bind _ = _
    rw [read_quiet hud hn]
    exact ih hns

/-- One message that cannot be read spoils the rest. -/
theorem readall_spoilt {me : Int32} {n : Note} (h : ∀ hud, read me hud n = none) (hud : Hud)
    (ns ns' : List Note) : readall me hud (ns ++ n :: ns') = none := by
  rw [readall_append]
  cases readall me hud ns with
  | none => rfl
  | some hud =>
    change (read me hud n).bind _ = none
    rw [h]
    rfl

end Hud

open Loop Hud

/-- **What is announced**: a client that showed what the server has shows it again, but for one. -/
def Announced (me : Int32) (but but' : Option Int32) (b b' : Battle) : Prop :=
  ∃ ns, b'.log = b.log ++ ns ∧
    ∀ hud, Shows but b hud → Yields (readall me hud ns) (Shows but' b')

/-- Nothing of it: health and armour are as they were. -/
structure Quiet (b b' : Battle) : Prop where
  log : ∃ ns, b'.log = b.log ++ ns ∧ ∀ n ∈ ns, n.isdamage = false
  health : ∀ cn, (b'.info cn).health = (b.info cn).health
  armour : ∀ cn, (b'.info cn).armour = (b.info cn).armour

section

variable {me target actor : Int32} {but but' but'' : Option Int32} {b b' b'' : Battle}
  {f : Fighter → Fighter} {r : Rules}

theorem Quiet.refl (b : Battle) : Quiet b b :=
  ⟨⟨[], (List.append_nil _).symm, nofun⟩, fun _ => rfl, fun _ => rfl⟩

theorem Quiet.trans (h : Quiet b b') (h' : Quiet b' b'') : Quiet b b'' := by
  obtain ⟨ns, hlog, hns⟩ := h.log
  obtain ⟨ns', hlog', hns'⟩ := h'.log
  refine ⟨⟨ns ++ ns', ?_, List.forall_mem_append.mpr ⟨hns, hns'⟩⟩,
    fun cn => (h'.health cn).trans (h.health cn), fun cn => (h'.armour cn).trans (h.armour cn)⟩
  rw [hlog', hlog, List.append_assoc]

theorem Quiet.upd (h : Quiet b b') (cn : Int32) (hh : ∀ a, (f a).health = a.health)
    (ha : ∀ a, (f a).armour = a.armour) : Quiet b (b'.upd cn f) :=
  ⟨h.log, fun cn' => (Battle.upd_same Fighter.health hh cn').trans (h.health cn'),
    fun cn' => (Battle.upd_same Fighter.armour ha cn').trans (h.armour cn')⟩

theorem Quiet.post {n : Note} (h : Quiet b b') (hn : n.isdamage = false) : Quiet b (b'.post n) := by
  obtain ⟨ns, hlog, hns⟩ := h.log
  refine ⟨⟨ns ++ [n], ?_, List.forall_mem_append.mpr ⟨hns, by simpa using hn⟩⟩, h.health, h.armour⟩
  rw [Battle.post_log, hlog, List.append_assoc]

theorem Quiet.announced (h : Quiet b b') : Announced me but but b b' := by
  obtain ⟨ns, hlog, hns⟩ := h.log
  refine ⟨ns, hlog, fun hud hshows => ⟨hud, readall_quiet hud hns, fun cn hcn => ?_⟩⟩
  rw [hshows cn hcn, h.health, h.armour]

theorem Announced.trans (h : Announced me but but' b b') (h' : Announced me but' but'' b' b'') :
    Announced me but but'' b b'' := by
  obtain ⟨ns, hlog, hns⟩ := h
  obtain ⟨ns', hlog', hns'⟩ := h'
  refine ⟨ns ++ ns', by rw [hlog', hlog, List.append_assoc], fun hud hshows => ?_⟩
  rw [readall_append]
  exact (hns hud hshows).bind hns'

/-- A client is changed in any way, and nothing is sent. -/
theorem Announced.upd : Announced me none (some target) b (b.upd target f) := by
  refine ⟨[], (List.append_nil _).symm, fun hud hshows => ⟨hud, rfl, fun cn hcn => ?_⟩⟩
  rw [hshows cn nofun, Battle.upd_info_of_ne]
  exact fun heq => hcn (congrArg some heq)

/-- **`N_DAMAGE`** says what the target has now. -/
theorem announced_hurt (h : but = none ∨ but = some target) (damage : Int)
    (hno : r.nodamage = false) : Announced me but none b (b.hurt r target actor damage) := by
  unfold Battle.hurt
  rw [if_neg (by simp [hno])]
  dsimp only
  refine ⟨_, rfl, fun hud hshows => ⟨_, rfl, fun cn _ => ?_⟩⟩
  by_cases hcn : cn = target
  · subst hcn
    simp
  · have hne : cn.toInt ≠ target.toInt := fun heq => hcn (Int32.toInt_inj.mp heq)
    have hbut : some cn ≠ but := by
      obtain rfl | rfl := h
      · exact nofun
      · exact fun heq => hcn (Option.some.inj heq)
    simp [hne, hshows cn hbut, Battle.upd_info_of_ne hcn]

/-! ## The parts of damage -/

theorem quiet_adddamage (damage : Int) : Quiet b (b.adddamage r target actor damage) := by
  unfold Battle.adddamage
  split
  · exact (Quiet.refl b).upd actor (fun _ => rfl) fun _ => rfl
  · exact .refl b

theorem quiet_push (damage : Int) (gun : Int32) (hitpush : Vec) :
    Quiet b (b.push r target actor damage gun hitpush) := by
  unfold Battle.push
  split_ifs
  · exact (Quiet.refl b).post rfl
  · exact .refl b
  · exact ((Quiet.refl b).post rfl).post rfl

theorem Quiet.addteamfrags (h : Quiet b b') (team : String) (v : Int) :
    Quiet b (b'.addteamfrags r team v) := by
  unfold Battle.addteamfrags
  split
  · exact ⟨h.log, h.health, h.armour⟩
  · exact h

theorem Quiet.multifrag (h : Quiet b b') (v : Int) : Quiet b (b'.multifrag r actor v) := by
  unfold Battle.multifrag
  split
  · exact h.upd actor (fun _ => rfl) fun _ => rfl
  · exact h

theorem quiet_frag : Quiet b (b.frag r target actor) := by
  unfold Battle.frag
  dsimp only
  refine ((Quiet.multifrag ?_ _).addteamfrags _ _).post rfl
  refine Quiet.upd ?_ actor (fun _ => rfl) fun _ => rfl
  exact (Quiet.refl b).upd target (fun _ => rfl) fun _ => rfl

theorem quiet_spree : Quiet b (b.spree target actor) := by
  unfold Battle.spree
  dsimp only
  have hfirst : Quiet b { b with firstblood := b.firstblood || decide (actor ≠ target) } :=
    ⟨⟨[], (List.append_nil _).symm, nofun⟩, fun _ => rfl, fun _ => rfl⟩
  refine Quiet.upd ?_ target (fun _ => rfl) fun _ => rfl
  split
  · exact hfirst.upd actor (fun _ => rfl) fun _ => rfl
  · exact hfirst

theorem Quiet.modedied (h : Quiet b b') (actor : Option Int32) :
    Quiet b (b'.modedied r target actor) := by
  unfold Battle.modedied
  split
  · exact h.post rfl
  · exact h

theorem Quiet.bury (h : Quiet b b') : Quiet b (b'.bury target) :=
  h.upd target (fun _ => rfl) fun _ => rfl

theorem Quiet.teamkill (h : Quiet b b') : Quiet b (b'.teamkill r target actor) := by
  unfold Battle.teamkill
  split
  · exact Quiet.post (h.upd actor (fun _ => rfl) fun _ => rfl) rfl
  · exact h

theorem quiet_die : Quiet b (b.die r target actor) := by
  unfold Battle.die
  split
  · have hfrag : Quiet b ((b.frag r target actor).spree target actor) :=
      quiet_frag.trans quiet_spree
    exact (hfrag.modedied _).bury.teamkill
  · exact .refl b

/-- What follows a hit that is announced says no more about it. -/
theorem quiet_rest (damage : Int) (gun : Int32) (hitpush : Vec) :
    Quiet b (((b.adddamage r target actor damage).push r target actor damage gun hitpush).die r
      target actor) :=
  ((quiet_adddamage damage).trans (quiet_push damage gun hitpush)).trans quiet_die

/-! ## Deaths -/

/-- Nobody dies and nobody's frags change. -/
structure Lives (b b' : Battle) : Prop where
  log : ∃ ns, b'.log = b.log ++ ns ∧ ∀ n ∈ ns, n.isdeath = false
  state : ∀ cn, (b'.info cn).gs = (b.info cn).gs
  team : ∀ cn, (b'.info cn).team = (b.info cn).team
  deadflush : ∀ cn, (b'.info cn).deadflush = (b.info cn).deadflush
  deaths : ∀ cn, (b'.info cn).deaths = (b.info cn).deaths
  frags : ∀ cn, (b'.info cn).frags = (b.info cn).frags
  teaminfos : b'.teaminfos = b.teaminfos
  gamemillis : b'.gamemillis = b.gamemillis

/-- **One death**: of the target, with its frags for the actor and his team, one `N_DIED` and one
call of the mode. -/
structure Dies (r : Rules) (target actor : Int32) (b b' : Battle) : Prop where
  log : ∃ ns, b'.log = b.log ++ ns ∧ ns.filter Note.isdeath =
    .died target actor (b'.info actor).frags
        (if r.teammode then b'.teamfrags (b.info actor).team else 0) ::
      if r.smode then [.modedied target (some actor)] else []
  dead : (b'.info target).gs =
    { (b.info target).gs with state := .dead, lastdeath := b.gamemillis }
  deadflush : (b'.info target).deadflush = b.gamemillis + DEATHMILLIS
  others : ∀ cn ≠ target, (b'.info cn).gs = (b.info cn).gs
  deaths : ∀ cn, (b'.info cn).deaths = (b.info cn).deaths + if cn = target then 1 else 0
  frags : ∀ cn, (b'.info cn).frags =
    (b.info cn).frags + if cn = actor then b.fragvalue r target actor else 0
  teaminfos : b'.teaminfos =
    (b.addteamfrags r (b.info actor).team (b.fragvalue r target actor)).teaminfos

theorem Lives.refl (b : Battle) : Lives b b :=
  ⟨⟨[], (List.append_nil _).symm, nofun⟩, fun _ => rfl, fun _ => rfl, fun _ => rfl, fun _ => rfl,
    fun _ => rfl, rfl, rfl⟩

theorem Lives.upd (h : Lives b b') (cn : Int32) (hg : ∀ a, (f a).gs = a.gs)
    (ht : ∀ a, (f a).team = a.team) (hl : ∀ a, (f a).deadflush = a.deadflush)
    (hd : ∀ a, (f a).deaths = a.deaths) (hf : ∀ a, (f a).frags = a.frags) :
    Lives b (b'.upd cn f) where
  log := h.log
  state cn' := (Battle.upd_same Fighter.gs hg cn').trans (h.state cn')
  team cn' := (Battle.upd_same Fighter.team ht cn').trans (h.team cn')
  deadflush cn' := (Battle.upd_same Fighter.deadflush hl cn').trans (h.deadflush cn')
  deaths cn' := (Battle.upd_same Fighter.deaths hd cn').trans (h.deaths cn')
  frags cn' := (Battle.upd_same Fighter.frags hf cn').trans (h.frags cn')
  teaminfos := h.teaminfos
  gamemillis := h.gamemillis

theorem Lives.post {n : Note} (h : Lives b b') (hn : n.isdeath = false) : Lives b (b'.post n) := by
  obtain ⟨⟨ns, hlog, hns⟩, hstate, hteam, hflush, hdeaths, hfrags, hinfos, hmillis⟩ := h
  refine ⟨⟨ns ++ [n], ?_, List.forall_mem_append.mpr ⟨hns, by simpa using hn⟩⟩, hstate, hteam,
    hflush, hdeaths, hfrags, hinfos, hmillis⟩
  rw [Battle.post_log, hlog, List.append_assoc]

theorem Lives.isteam (h : Lives b b') : b'.isteam r target actor = b.isteam r target actor := by
  unfold Battle.isteam
  rw [h.team, h.team]

theorem Lives.fragvalue (h : Lives b b') :
    b'.fragvalue r target actor = b.fragvalue r target actor := by
  unfold Battle.fragvalue
  rw [h.isteam]

theorem Lives.heal (h : Lives b b') : Lives b (b'.heal r target) := by
  unfold Battle.heal
  split
  · have hhealed : Lives b (b'.upd target fun t =>
        { t with health := int32 (t.health + r.healamount) }) :=
      h.upd target (fun _ => rfl) (fun _ => rfl) (fun _ => rfl) (fun _ => rfl) fun _ => rfl
    dsimp only
    split
    · exact hhealed
    · have hsent := hhealed.post (n := .damage (some target) []) rfl
      refine Lives.post ?_ rfl
      exact hsent.upd target (fun _ => rfl) (fun _ => rfl) (fun _ => rfl) (fun _ => rfl)
        fun _ => rfl
  · exact h

theorem Lives.aid (h : Lives b b') : Lives b (b'.aid r target actor) := by
  unfold Battle.aid
  dsimp only
  split
  · exact h.heal.post rfl
  · exact h.heal

theorem Lives.hurt (h : Lives b b') (damage : Int) : Lives b (b'.hurt r target actor damage) := by
  unfold Battle.hurt
  split
  · exact h
  · refine Lives.post ?_ rfl
    exact h.upd target (fun _ => rfl) (fun _ => rfl) (fun _ => rfl) (fun _ => rfl) fun _ => rfl

theorem Lives.adddamage (h : Lives b b') (damage : Int) :
    Lives b (b'.adddamage r target actor damage) := by
  unfold Battle.adddamage
  split
  · exact h.upd actor (fun _ => rfl) (fun _ => rfl) (fun _ => rfl) (fun _ => rfl) fun _ => rfl
  · exact h

theorem Lives.push (h : Lives b b') (damage : Int) (gun : Int32) (hitpush : Vec) :
    Lives b (b'.push r target actor damage gun hitpush) := by
  unfold Battle.push
  split_ifs
  · exact h.post rfl
  · exact h
  · exact (h.post rfl).post rfl

/-- Nobody dies in what comes before a death. -/
theorem Lives.dies (h : Lives b b') (h' : Dies r target actor b' b'') :
    Dies r target actor b b'' := by
  obtain ⟨ns, hlog, hns⟩ := h.log
  obtain ⟨ns', hlog', hns'⟩ := h'.log
  have hnone : ns.filter Note.isdeath = [] := List.filter_eq_nil_iff.mpr fun n hn => by
    rw [hns n hn]
    exact Bool.false_ne_true
  refine ⟨⟨ns ++ ns', by rw [hlog', hlog, List.append_assoc], ?_⟩, ?_, ?_,
    fun cn hcn => (h'.others cn hcn).trans (h.state cn), fun cn => ?_, fun cn => ?_, ?_⟩
  · rw [List.filter_append, hnone, List.nil_append, hns', h.team]
  · rw [h'.dead, h.state, h.gamemillis]
  · rw [h'.deadflush, h.gamemillis]
  · rw [h'.deaths, h.deaths]
  · rw [h'.frags, h.frags, h.fragvalue]
  · rw [h'.teaminfos, h.fragvalue, h.team]
    unfold Battle.addteamfrags
    split
    · simp only [h.teaminfos]
    · exact h.teaminfos

@[simp] theorem addteamfrags_info (team : String) (v : Int) :
    (b.addteamfrags r team v).info = b.info := by
  unfold Battle.addteamfrags
  split <;> rfl

@[simp] theorem addteamfrags_log (team : String) (v : Int) :
    (b.addteamfrags r team v).log = b.log := by
  unfold Battle.addteamfrags
  split <;> rfl

@[simp] theorem addteamfrags_gamemillis (team : String) (v : Int) :
    (b.addteamfrags r team v).gamemillis = b.gamemillis := by
  unfold Battle.addteamfrags
  split <;> rfl

theorem lives_multifrag (v : Int) : Lives b (b.multifrag r actor v) := by
  unfold Battle.multifrag
  split
  · exact (Lives.refl b).upd actor (fun _ => rfl) (fun _ => rfl) (fun _ => rfl) (fun _ => rfl)
      fun _ => rfl
  · exact .refl b

theorem lives_spree : Lives b (b.spree target actor) := by
  unfold Battle.spree
  dsimp only
  have hfirst : Lives b { b with firstblood := b.firstblood || decide (actor ≠ target) } :=
    ⟨⟨[], (List.append_nil _).symm, nofun⟩, fun _ => rfl, fun _ => rfl, fun _ => rfl, fun _ => rfl,
      fun _ => rfl, rfl, rfl⟩
  refine Lives.upd ?_ target (fun _ => rfl) (fun _ => rfl) (fun _ => rfl) (fun _ => rfl)
    fun _ => rfl
  split
  · exact hfirst.upd actor (fun _ => rfl) (fun _ => rfl) (fun _ => rfl) (fun _ => rfl) fun _ => rfl
  · exact hfirst

theorem lives_teamkill : Lives b (b.teamkill r target actor) := by
  unfold Battle.teamkill
  split
  · refine Lives.post ?_ rfl
    exact (Lives.refl b).upd actor (fun _ => rfl) (fun _ => rfl) (fun _ => rfl) (fun _ => rfl)
      fun _ => rfl
  · exact .refl b

theorem multifrag_log (v : Int) : (b.multifrag r actor v).log = b.log := by
  unfold Battle.multifrag
  split <;> rfl

variable (target actor) in
/-- **The frags of a death.** -/
theorem frag_spec : ∃ b', b.frag r target actor = b' ∧
    b'.log = b.log ++ [.died target actor (b'.info actor).frags
      (if r.teammode then b'.teamfrags (b.info actor).team else 0)] ∧
    (∀ cn, (b'.info cn).gs = (b.info cn).gs) ∧
    (∀ cn, (b'.info cn).deaths = (b.info cn).deaths + if cn = target then 1 else 0) ∧
    (∀ cn, (b'.info cn).frags =
      (b.info cn).frags + if cn = actor then b.fragvalue r target actor else 0) ∧
    b'.teaminfos =
      (b.addteamfrags r (b.info actor).team (b.fragvalue r target actor)).teaminfos ∧
    b'.gamemillis = b.gamemillis := by
  refine ⟨_, rfl, ?_⟩
  unfold Battle.frag
  dsimp only
  generalize b.fragvalue r target actor = v
  generalize hb₁ : b.upd target (fun t => { t with deaths := t.deaths + 1 }) = b₁
  generalize hb₂ : b₁.upd actor (fun a => { a with frags := a.frags + v }) = b₂
  have hmulti : Lives b₂ (b₂.multifrag r actor v) := lives_multifrag v
  have hgs₁ : ∀ cn, (b₁.info cn).gs = (b.info cn).gs := by
    rw [← hb₁]
    exact Battle.upd_same Fighter.gs fun _ => rfl
  have hgs₂ : ∀ cn, (b₂.info cn).gs = (b₁.info cn).gs := by
    rw [← hb₂]
    exact Battle.upd_same Fighter.gs fun _ => rfl
  have hdeaths : ∀ cn, (b₂.info cn).deaths = (b₁.info cn).deaths := by
    rw [← hb₂]
    exact Battle.upd_same Fighter.deaths fun _ => rfl
  have hfrags : ∀ cn, (b₁.info cn).frags = (b.info cn).frags := by
    rw [← hb₁]
    exact Battle.upd_same Fighter.frags fun _ => rfl
  refine ⟨?_, fun cn => ?_, fun cn => ?_, fun cn => ?_, ?_, ?_⟩
  · simp only [Battle.post_log, Battle.post_info, addteamfrags_log, addteamfrags_info,
      multifrag_log, Battle.teamfrags, Battle.post_teaminfos, ← hb₂, ← hb₁, Battle.upd_log]
  · simp only [Battle.post_info, addteamfrags_info]
    rw [hmulti.state, hgs₂, hgs₁]
  · simp only [Battle.post_info, addteamfrags_info]
    rw [hmulti.deaths, hdeaths, ← hb₁]
    by_cases hcn : cn = target
    · rw [hcn, Battle.upd_info_self, if_pos rfl]
    · rw [Battle.upd_info_of_ne hcn, if_neg hcn, add_zero]
  · simp only [Battle.post_info, addteamfrags_info]
    rw [hmulti.frags, ← hfrags, ← hb₂]
    by_cases hcn : cn = actor
    · rw [hcn, Battle.upd_info_self, if_pos rfl]
    · rw [Battle.upd_info_of_ne hcn, if_neg hcn, add_zero]
  · have hinfos : (b₂.multifrag r actor v).teaminfos = b.teaminfos := by
      rw [hmulti.teaminfos, ← hb₂, ← hb₁]
      rfl
    simp only [Battle.post_teaminfos]
    unfold Battle.addteamfrags
    split
    · simp only [hinfos]
    · exact hinfos
  · simp only [Battle.post_gamemillis, addteamfrags_gamemillis]
    rw [hmulti.gamemillis, ← hb₂, ← hb₁]
    rfl

variable (target) in
theorem modedied_spec (actor : Option Int32) : (b.modedied r target actor).info = b.info ∧
    (b.modedied r target actor).teaminfos = b.teaminfos ∧
    (b.modedied r target actor).gamemillis = b.gamemillis ∧
    (b.modedied r target actor).log =
      b.log ++ if r.smode then [.modedied target actor] else [] := by
  unfold Battle.modedied
  split
  · exact ⟨rfl, rfl, rfl, rfl⟩
  · exact ⟨rfl, rfl, rfl, (List.append_nil _).symm⟩

theorem filter_lives {ns : List Note} (h : ∀ n ∈ ns, n.isdeath = false) :
    ns.filter Note.isdeath = [] := List.filter_eq_nil_iff.mpr fun n hn => by
  rw [h n hn]
  exact Bool.false_ne_true

variable (target) in
theorem bury_spec : (∀ cn ≠ target, (b.bury target).info cn = b.info cn) ∧
    ((b.bury target).info target).gs =
      { (b.info target).gs with state := .dead, lastdeath := b.gamemillis } ∧
    ((b.bury target).info target).deadflush = b.gamemillis + DEATHMILLIS ∧
    (∀ cn, ((b.bury target).info cn).deaths = (b.info cn).deaths) ∧
    (∀ cn, ((b.bury target).info cn).frags = (b.info cn).frags) := by
  refine ⟨fun cn hcn => Battle.upd_info_of_ne hcn, ?_, ?_,
    Battle.upd_same Fighter.deaths fun _ => rfl, Battle.upd_same Fighter.frags fun _ => rfl⟩
  · unfold Battle.bury
    rw [Battle.upd_info_self]
  · unfold Battle.bury
    rw [Battle.upd_info_self]

/-- **A death**, where health is zero or below. -/
theorem dies_die (hhealth : (b.info target).health ≤ 0) :
    Dies r target actor b (b.die r target actor) := by
  unfold Battle.die
  rw [if_pos hhealth]
  dsimp only
  obtain ⟨b₁, heq, hlog, hgs, hdeaths, hfrags, hinfos, hmillis⟩ := frag_spec target actor (b := b)
    (r := r)
  rw [heq]
  have hspree : Lives b₁ (b₁.spree target actor) := lives_spree
  generalize b₁.spree target actor = b₂ at hspree
  obtain ⟨hinfo₃, hinfos₃, hmillis₃, hlog₃⟩ := modedied_spec target (r := r) (b := b₂)
    (some actor)
  generalize b₂.modedied r target (some actor) = b₃ at hinfo₃ hinfos₃ hmillis₃ hlog₃
  have hkill : Lives (b₃.bury target) ((b₃.bury target).teamkill r target actor) := lives_teamkill
  obtain ⟨hothers, hburied, hflush, hdeaths₄, hfrags₄⟩ := bury_spec target (b := b₃)
  obtain ⟨ns₂, hlog₂, hns₂⟩ := hspree.log
  obtain ⟨ns₅, hlog₅, hns₅⟩ := hkill.log
  have hinfos₅ : ((b₃.bury target).teamkill r target actor).teaminfos = b₁.teaminfos := by
    rw [hkill.teaminfos, ← hspree.teaminfos, ← hinfos₃]
    rfl
  have hfrags₅ : ∀ cn, (((b₃.bury target).teamkill r target actor).info cn).frags =
      (b₁.info cn).frags := by
    intro cn
    rw [hkill.frags, hfrags₄, hinfo₃, hspree.frags]
  have hlog₆ : ((b₃.bury target).teamkill r target actor).log = b.log ++
      (.died target actor (b₁.info actor).frags
          (if r.teammode then b₁.teamfrags (b.info actor).team else 0) ::
        (ns₂ ++ (if r.smode then [.modedied target (some actor)] else []) ++ ns₅)) := by
    rw [hlog₅]
    change b₃.log ++ ns₅ = _
    rw [hlog₃, hlog₂, hlog]
    simp only [List.append_assoc, List.cons_append, List.nil_append]
  refine ⟨⟨_, hlog₆, ?_⟩, ?_, ?_, fun cn hcn => ?_, fun cn => ?_, fun cn => ?_, ?_⟩
  · rw [List.filter_cons_of_pos rfl, List.filter_append, List.filter_append, filter_lives hns₂,
      filter_lives hns₅, List.nil_append, List.append_nil, hfrags₅]
    unfold Battle.teamfrags
    rw [hinfos₅]
    cases r.smode <;> rfl
  · rw [hkill.state, hburied, hinfo₃, hspree.state, hgs, hmillis₃, hspree.gamemillis, hmillis]
  · rw [hkill.deadflush, hflush, hmillis₃, hspree.gamemillis, hmillis]
  · rw [hkill.state, hothers cn hcn, hinfo₃, hspree.state, hgs]
  · rw [hkill.deaths, hdeaths₄, hinfo₃, hspree.deaths, hdeaths]
  · rw [hfrags₅, hfrags]
  · rw [hinfos₅, hinfos]

/-! ## Damage -/

/-- What a hit does after the target has got what teammates get. -/
def Battle.wound (r : Rules) (target actor : Int32) (b : Battle) (damage : Int) (gun : Int32)
    (hitpush : Vec) : Battle :=
  ((((b.hurt r target actor damage).adddamage r target actor damage).push r target actor damage gun
    hitpush).die r target actor)

theorem dodamage_eq (halive : (b.info target).gs.state = .alive) (damage : Int) (gun : Int32)
    (hitpush : Vec) : b.dodamage r target actor damage gun hitpush =
      if b.checked target actor then
        if b.mate r target actor then
          ((b.addgundamage actor damage gun).aid r target actor).wound r target actor
            (if r.friendlyfire then damage else 0) gun hitpush
        else (b.addgundamage actor damage gun).wound r target actor damage gun hitpush
      else b := by
  unfold Battle.dodamage Battle.wound
  cases b.checked target actor <;> cases b.mate r target actor <;> cases r.friendlyfire <;>
    simp [halive]

theorem Quiet.addgundamage (h : Quiet b b') (damage : Int) (gun : Int32) :
    Quiet b (b'.addgundamage actor damage gun) :=
  h.upd actor (fun _ => rfl) fun _ => rfl

theorem Lives.addgundamage (h : Lives b b') (damage : Int) (gun : Int32) :
    Lives b (b'.addgundamage actor damage gun) :=
  h.upd actor (fun _ => rfl) (fun _ => rfl) (fun _ => rfl) (fun _ => rfl) fun _ => rfl

variable (target actor) in
/-- **A wound** that brings health to zero or below is one death, and another is none. -/
theorem Lives.wound (h : Lives b b') (damage : Int) (gun : Int32) (hitpush : Vec) :
    (((b'.wound r target actor damage gun hitpush).info target).health ≤ 0 →
      Dies r target actor b (b'.wound r target actor damage gun hitpush)) ∧
    (0 < ((b'.wound r target actor damage gun hitpush).info target).health →
      Lives b (b'.wound r target actor damage gun hitpush)) := by
  have hlives : Lives b (((b'.hurt r target actor damage).adddamage r target actor damage).push r
      target actor damage gun hitpush) := ((h.hurt damage).adddamage damage).push damage gun hitpush
  unfold Battle.wound
  generalize ((b'.hurt r target actor damage).adddamage r target actor damage).push r target actor
    damage gun hitpush = b₁ at hlives
  have hsame : ((b₁.die r target actor).info target).health = (b₁.info target).health :=
    quiet_die.health target
  rw [hsame]
  refine ⟨fun hhealth => hlives.dies (dies_die hhealth), fun hhealth => ?_⟩
  unfold Battle.die
  rw [if_neg (by omega)]
  exact hlives

/-- A teammate is healed. -/
def Heals (r : Rules) (target actor : Int32) (b : Battle) : Prop :=
  b.checked target actor = true ∧ b.mate r target actor = true ∧ r.healteammates = true

/-- **A hit as it should be**: what is sent can be read and says what has happened, nobody has more
health than he can from being healed, and there is one death where health is zero or below, and
else none. -/
structure Faithful (r : Rules) (target actor : Int32) (b b' : Battle) : Prop where
  announced : ∀ me, Announced me none none b b'
  healed : Heals r target actor b →
    ((b.heal r target).info target).health ≤ max (b.info target).health (b.info target).maxhealth
  dies : (b'.info target).health ≤ 0 → Dies r target actor b b'
  lives : 0 < (b'.info target).health → Lives b b'

variable (actor) in
/-- **Deaths**, whatever happens to the teammates of the actor. -/
theorem dodamage_deaths (halive : (b.info target).gs.state = .alive)
    (hpos : 0 < (b.info target).health) (damage : Int) (gun : Int32) (hitpush : Vec) :
    (((b.dodamage r target actor damage gun hitpush).info target).health ≤ 0 →
      Dies r target actor b (b.dodamage r target actor damage gun hitpush)) ∧
    (0 < ((b.dodamage r target actor damage gun hitpush).info target).health →
      Lives b (b.dodamage r target actor damage gun hitpush)) := by
  rw [dodamage_eq halive]
  have hgun : Lives b (b.addgundamage actor damage gun) := (Lives.refl b).addgundamage damage gun
  split
  · split
    · have haid : Lives b ((b.addgundamage actor damage gun).aid r target actor) := hgun.aid
      exact haid.wound target actor _ gun hitpush
    · exact hgun.wound target actor damage gun hitpush
  · exact ⟨fun hhealth => absurd hhealth (by omega), fun _ => .refl b⟩

/-- A wound is announced; where damage is off nothing changes. -/
theorem announced_wound (h : r.nodamage = false ∧ but = some target ∨ but = none) (damage : Int)
    (gun : Int32) (hitpush : Vec) :
    Announced me but none b (b.wound r target actor damage gun hitpush) := by
  unfold Battle.wound
  have hrest (b : Battle) : Announced me none none b (((b.adddamage r target actor damage).push r
      target actor damage gun hitpush).die r target actor) :=
    (quiet_rest damage gun hitpush).announced
  refine Announced.trans ?_ (hrest _)
  cases hno : r.nodamage with
  | false => exact announced_hurt (h.elim (fun h => .inr h.2) .inl) damage hno
  | true =>
    obtain ⟨hyes, -⟩ | rfl := h
    · rw [hno] at hyes
      cases hyes
    · unfold Battle.hurt
      rw [if_pos hno]
      exact (Quiet.refl b).announced

/-- A bot is healed, and nobody is told. -/
theorem heal_bot (hheal : r.healteammates = true) (hbot : (b.info target).bot = true) :
    b.heal r target =
      b.upd target fun t => { t with health := int32 (t.health + r.healamount) } := by
  unfold Battle.heal
  rw [if_pos hheal]
  dsimp only
  rw [if_pos]
  rw [Battle.upd_info_self]
  exact hbot

/-- Everybody else is sent the types of two messages. -/
theorem heal_human (hheal : r.healteammates = true) (hbot : (b.info target).bot = false) :
    (b.heal r target).log = b.log ++ [.damage (some target) [], .damage (some target) []] := by
  unfold Battle.heal
  rw [if_pos hheal]
  dsimp only
  rw [if_neg]
  · simp
  · rw [Battle.upd_info_self]
    simp [hbot]

variable (target actor) in
theorem aid_log : ∃ ns, (b.aid r target actor).log = (b.heal r target).log ++ ns ∧
    (b.aid r target actor).info = (b.heal r target).info := by
  unfold Battle.aid
  dsimp only
  split
  · exact ⟨[_], rfl, rfl⟩
  · exact ⟨[], (List.append_nil _).symm, rfl⟩

/-- A part of a message that says nothing is not what has happened. -/
theorem not_announced {ns : List Note} (hlog : b'.log = b.log ++ .damage (some target) [] :: ns) :
    ¬Announced target none none b b' := by
  rintro ⟨ns', hlog', hall⟩
  obtain rfl := List.append_cancel_left (hlog'.symm.trans hlog)
  let hud : Hud := fun cn => ((b.info cn).armour, (b.info cn).health)
  obtain ⟨hud', hread, -⟩ := hall hud fun _ _ => rfl
  have hspoilt : readall target hud ([] ++ .damage (some target) [] :: ns) = none := by
    refine readall_spoilt (fun hud => ?_) hud [] ns
    simp [Hud.read, MsgType.msgsize]
  rw [List.nil_append, hread] at hspoilt
  cases hspoilt

variable (target actor) in
/-- A wound where damage is off. -/
theorem quiet_wound (hno : r.nodamage = true) (damage : Int) (gun : Int32) (hitpush : Vec) :
    Quiet b (b.wound r target actor damage gun hitpush) := by
  unfold Battle.wound Battle.hurt
  rw [if_pos hno]
  exact quiet_rest damage gun hitpush

variable (target actor) in
theorem wound_log (damage : Int) (gun : Int32) (hitpush : Vec) :
    ∃ ns, (b.wound r target actor damage gun hitpush).log = b.log ++ ns := by
  obtain ⟨hdies, hlives⟩ := (Lives.refl b).wound target actor (r := r)
    damage gun hitpush
  obtain h | h := le_or_gt ((b.wound r target actor damage gun hitpush).info target).health 0
  · obtain ⟨ns, hlog, -⟩ := (hdies h).log
    exact ⟨ns, hlog⟩
  · obtain ⟨ns, hlog, -⟩ := (hlives h).log
    exact ⟨ns, hlog⟩

variable (target actor) in
theorem quiet_aid (hoff : r.healteammates = false) : Quiet b (b.aid r target actor) := by
  have hheal : b.heal r target = b := by
    unfold Battle.heal
    exact if_neg (by simp [hoff])
  unfold Battle.aid
  rw [hheal]
  dsimp only
  split
  · exact (Quiet.refl b).post rfl
  · exact .refl b

/-- Nobody is healed, and all is announced. -/
theorem announced_unhealed (halive : (b.info target).gs.state = .alive)
    (hno : ¬Heals r target actor b) (damage : Int) (gun : Int32) (hitpush : Vec) :
    Announced me none none b (b.dodamage r target actor damage gun hitpush) := by
  rw [dodamage_eq halive]
  have hgun : Quiet b (b.addgundamage actor damage gun) := (Quiet.refl b).addgundamage damage gun
  split
  · next hchecked =>
    split
    · next hmate =>
      have hoff : r.healteammates = false := by
        by_contra hon
        exact hno ⟨hchecked, hmate, by simpa using hon⟩
      have haid := hgun.trans (quiet_aid target actor hoff)
      exact haid.announced.trans (announced_wound (.inr rfl) _ gun hitpush)
    · exact hgun.announced.trans (announced_wound (.inr rfl) damage gun hitpush)
  · exact (Quiet.refl b).announced

variable (actor) in
/-- What is left of a bot that is healed: nothing is sent about it, and the rest is as it was. -/
theorem aid_bot (hheal : r.healteammates = true) (hbot : (b.info target).bot = true) :
    (∃ ns, (b.aid r target actor).log = b.log ++ ns ∧ ∀ n ∈ ns, n.isdamage = false) ∧
    (b.aid r target actor).info = (b.upd target fun t =>
      { t with health := int32 (t.health + r.healamount) }).info := by
  unfold Battle.aid
  rw [heal_bot hheal hbot]
  dsimp only
  split
  · exact ⟨⟨[.passflag actor target], rfl, by simp [Note.isdamage]⟩, rfl⟩
  · exact ⟨⟨[], (List.append_nil _).symm, nofun⟩, rfl⟩

variable (me actor) in
theorem announced_aid_bot (hheal : r.healteammates = true) (hbot : (b.info target).bot = true) :
    Announced me none (some target) b (b.aid r target actor) := by
  obtain ⟨⟨ns, hlog, hns⟩, hinfo⟩ := aid_bot actor hheal hbot
  refine ⟨ns, hlog, fun hud hshows => ⟨hud, readall_quiet hud hns, fun cn hcn => ?_⟩⟩
  rw [hinfo, Battle.upd_info_of_ne fun heq => hcn (congrArg some heq)]
  exact hshows cn nofun

/-- A sum that wraps around is not what it was. -/
theorem int32_add_ne {x y : Int} (hpos : 1 ≤ y) (hlt : y < 2 ^ 31) : int32 (x + y) ≠ x := by
  obtain ⟨-, -, k, hk⟩ := int32_spec (x + y)
  intro heq
  rw [heq] at hk
  omega

/-- **Hits**: what is sent is what has happened, healing leaves nobody with more health than he can
have, and deaths are as they should be, if and only if no teammate is healed, or the teammate is a
bot, damage is on and he lacks what he gets. -/
theorem dodamage_faithful_iff (halive : (b.info target).gs.state = .alive)
    (hpos : 0 < (b.info target).health) (damage : Int) (gun : Int32) (hitpush : Vec) :
    Faithful r target actor b (b.dodamage r target actor damage gun hitpush) ↔
      (Heals r target actor b → (b.info target).bot = true ∧ r.nodamage = false ∧
        int32 ((b.info target).health + r.healamount) ≤
          max (b.info target).health (b.info target).maxhealth) := by
  obtain ⟨hdies, hlives⟩ := dodamage_deaths actor (r := r) halive hpos damage gun hitpush
  have hgun : Quiet b (b.addgundamage actor damage gun) := (Quiet.refl b).addgundamage damage gun
  have hbots : ∀ cn, ((b.addgundamage actor damage gun).info cn).bot = (b.info cn).bot :=
    Battle.upd_same Fighter.bot fun _ => rfl
  have heq (hheals : Heals r target actor b) : b.dodamage r target actor damage gun hitpush =
      ((b.addgundamage actor damage gun).aid r target actor).wound r target actor
        (if r.friendlyfire then damage else 0) gun hitpush := by
    rw [dodamage_eq halive, if_pos hheals.1, if_pos hheals.2.1]
  constructor
  · intro hfaithful hheals
    have hannounced := hfaithful.announced target
    rw [heq hheals] at hannounced
    have hbot : (b.info target).bot = true := by
      by_contra hhuman
      rw [Bool.not_eq_true, ← hbots target] at hhuman
      obtain ⟨ns₁, haid, -⟩ := aid_log target actor (r := r)
        (b := b.addgundamage actor damage gun)
      obtain ⟨ns₂, hwound⟩ := wound_log target actor (r := r)
        (b := (b.addgundamage actor damage gun).aid r target actor)
        (if r.friendlyfire then damage else 0) gun hitpush
      rw [haid, heal_human hheals.2.2 hhuman, List.append_assoc, List.append_assoc] at hwound
      exact not_announced (b := b) hwound hannounced
    refine ⟨hbot, ?_, ?_⟩
    · by_contra hno
      rw [Bool.not_eq_false] at hno
      obtain ⟨⟨ns₁, haid, hns₁⟩, hinfo⟩ := aid_bot actor hheals.2.2
        ((hbots target).trans hbot)
      obtain ⟨⟨ns₂, hwound, hns₂⟩, hhealth, -⟩ := quiet_wound target actor
        (b := (b.addgundamage actor damage gun).aid r target actor) hno
        (if r.friendlyfire then damage else 0) gun hitpush
      obtain ⟨ns, hlog, hall⟩ := hannounced
      rw [hwound, haid, List.append_assoc] at hlog
      obtain rfl := List.append_cancel_left hlog
      obtain ⟨hud', hread, hshows⟩ := hall
        (fun cn => ((b.info cn).armour, (b.info cn).health)) fun _ _ => rfl
      rw [readall_quiet _ (List.forall_mem_append.mpr ⟨hns₁, hns₂⟩)] at hread
      obtain rfl := Option.some.inj hread
      have hsame := congrArg Prod.snd (hshows target nofun)
      dsimp only at hsame
      rw [hhealth, hinfo, Battle.upd_info_self] at hsame
      dsimp only at hsame
      rw [hgun.health] at hsame
      exact int32_add_ne r.healamount_pos r.healamount_lt hsame.symm
    · have hhealed := hfaithful.healed hheals
      rw [heal_bot hheals.2.2 hbot, Battle.upd_info_self] at hhealed
      exact hhealed
  · intro hcond
    refine ⟨fun me => ?_, fun hheals => ?_, hdies, hlives⟩
    · by_cases hheals : Heals r target actor b
      · obtain ⟨hbot, hno, -⟩ := hcond hheals
        rw [heq hheals]
        have haid := announced_aid_bot me actor hheals.2.2
          ((hbots target).trans hbot)
        exact (hgun.announced.trans haid).trans (announced_wound (.inl ⟨hno, rfl⟩) _ gun hitpush)
      · exact announced_unhealed halive hheals damage gun hitpush
    · obtain ⟨hbot, -, hle⟩ := hcond hheals
      rw [heal_bot hheals.2.2 hbot, Battle.upd_info_self]
      exact hle

/-! ## Everybody else -/

/-- What shots and spawns read of a client. -/
def Fighter.vital (f : Fighter) : Shooter × Int × Int := (f.gs, f.health, f.deadflush)

/-- What only spawns change. -/
def Fighter.life (f : Fighter) : Int × Int := (f.lastspawn, f.lifesequence)

/-- Shots and explosions that are accepted, and spawns. -/
def Note.ismark : Note → Bool
  | .shotfx .. | .explodefx .. | .respawned .. | .spawned .. => true
  | _ => false

/-- Nothing is accepted and nobody spawns, and but for one the clients go on as they were. -/
structure Spares (but : Option Int32) (b b' : Battle) : Prop where
  log : ∃ ns, b'.log = b.log ++ ns ∧ ∀ n ∈ ns, n.ismark = false
  clients : b'.clients = b.clients
  gamemillis : b'.gamemillis = b.gamemillis
  life : ∀ cn, (b'.info cn).life = (b.info cn).life
  vital : ∀ cn, some cn ≠ but → (b'.info cn).vital = (b.info cn).vital

theorem Spares.refl (b : Battle) : Spares but b b :=
  ⟨⟨[], (List.append_nil _).symm, nofun⟩, rfl, rfl, fun _ => rfl, fun _ _ => rfl⟩

theorem Spares.upd (h : Spares but b b') (cn : Int32) (hl : ∀ a, (f a).life = a.life)
    (hf : ∀ a, (f a).vital = a.vital) : Spares but b (b'.upd cn f) :=
  ⟨h.log, h.clients, h.gamemillis,
    fun cn' => (Battle.upd_same Fighter.life hl cn').trans (h.life cn'),
    fun cn' hcn => (Battle.upd_same Fighter.vital hf cn').trans (h.vital cn' hcn)⟩

/-- The one is changed. -/
theorem Spares.updbut (h : Spares (some target) b b') (hl : ∀ a, (f a).life = a.life) :
    Spares (some target) b (b'.upd target f) := by
  refine ⟨h.log, h.clients, h.gamemillis,
    fun cn' => (Battle.upd_same Fighter.life hl cn').trans (h.life cn'), fun cn hcn => ?_⟩
  rw [Battle.upd_info_of_ne fun heq => hcn (congrArg some heq)]
  exact h.vital cn hcn

theorem Spares.post {n : Note} (h : Spares but b b') (hn : n.ismark = false) :
    Spares but b (b'.post n) := by
  obtain ⟨⟨ns, hlog, hns⟩, hclients, hmillis, hlife, hvital⟩ := h
  refine ⟨⟨ns ++ [n], ?_, List.forall_mem_append.mpr ⟨hns, by simpa using hn⟩⟩, hclients, hmillis,
    hlife, hvital⟩
  rw [Battle.post_log, hlog, List.append_assoc]

theorem Spares.trans (h : Spares but b b') (h' : Spares but b' b'') : Spares but b b'' := by
  obtain ⟨ns, hlog, hns⟩ := h.log
  obtain ⟨ns', hlog', hns'⟩ := h'.log
  refine ⟨⟨ns ++ ns', ?_, List.forall_mem_append.mpr ⟨hns, hns'⟩⟩, h'.clients.trans h.clients,
    h'.gamemillis.trans h.gamemillis, fun cn => (h'.life cn).trans (h.life cn),
    fun cn hcn => (h'.vital cn hcn).trans (h.vital cn hcn)⟩
  rw [hlog', hlog, List.append_assoc]

theorem Spares.aid (h : Spares (some target) b b') :
    Spares (some target) b (b'.aid r target actor) := by
  have hheal : Spares (some target) b (b'.heal r target) := by
    unfold Battle.heal
    split
    · have hhealed : Spares (some target) b (b'.upd target fun t =>
          { t with health := int32 (t.health + r.healamount) }) := h.updbut fun _ => rfl
      dsimp only
      split
      · exact hhealed
      · have hsent := hhealed.post (n := .damage (some target) []) rfl
        refine Spares.post ?_ rfl
        exact hsent.updbut fun _ => rfl
    · exact h
  unfold Battle.aid
  dsimp only
  split
  · exact hheal.post rfl
  · exact hheal

theorem Spares.hurt (h : Spares (some target) b b') (damage : Int) :
    Spares (some target) b (b'.hurt r target actor damage) := by
  unfold Battle.hurt
  split
  · exact h
  · refine Spares.post ?_ rfl
    exact h.updbut fun _ => rfl

theorem Spares.adddamage (h : Spares but b b') (damage : Int) :
    Spares but b (b'.adddamage r target actor damage) := by
  unfold Battle.adddamage
  split
  · exact h.upd actor (fun _ => rfl) fun _ => rfl
  · exact h

theorem Spares.push (h : Spares but b b') (damage : Int) (gun : Int32) (hitpush : Vec) :
    Spares but b (b'.push r target actor damage gun hitpush) := by
  unfold Battle.push
  split_ifs
  · exact h.post rfl
  · exact h
  · exact (h.post rfl).post rfl

theorem Spares.addteamfrags (h : Spares but b b') (team : String) (v : Int) :
    Spares but b (b'.addteamfrags r team v) := by
  unfold Battle.addteamfrags
  split
  · exact ⟨h.log, h.clients, h.gamemillis, h.life, h.vital⟩
  · exact h

theorem Spares.modedied (h : Spares but b b') (actor : Option Int32) :
    Spares but b (b'.modedied r target actor) := by
  unfold Battle.modedied
  split
  · exact h.post rfl
  · exact h

theorem spares_frag : Spares but b (b.frag r target actor) := by
  unfold Battle.frag Battle.multifrag
  dsimp only
  refine (Spares.addteamfrags ?_ _ _).post rfl
  have hboth : Spares but b ((b.upd target fun t => { t with deaths := t.deaths + 1 }).upd actor
      fun a => { a with frags := a.frags + b.fragvalue r target actor }) := by
    refine Spares.upd ?_ actor (fun _ => rfl) fun _ => rfl
    exact (Spares.refl b).upd target (fun _ => rfl) fun _ => rfl
  split
  · exact hboth.upd actor (fun _ => rfl) fun _ => rfl
  · exact hboth

theorem Spares.spree (h : Spares but b b') : Spares but b (b'.spree target actor) := by
  unfold Battle.spree
  dsimp only
  have hfirst : Spares but b { b' with firstblood := b'.firstblood || decide (actor ≠ target) } :=
    ⟨h.log, h.clients, h.gamemillis, h.life, h.vital⟩
  refine Spares.upd ?_ target (fun _ => rfl) fun _ => rfl
  split
  · exact hfirst.upd actor (fun _ => rfl) fun _ => rfl
  · exact hfirst

theorem spares_die : Spares (some target) b (b.die r target actor) := by
  unfold Battle.die
  split
  · have hfrag : Spares (some target) b ((b.frag r target actor).spree target actor) :=
      spares_frag.spree
    have hbury : Spares (some target) b ((((b.frag r target actor).spree target actor).modedied r
        target (some actor)).bury target) := (hfrag.modedied _).updbut fun _ => rfl
    unfold Battle.teamkill
    dsimp only
    split
    · refine Spares.post ?_ rfl
      exact hbury.upd actor (fun _ => rfl) fun _ => rfl
    · exact hbury
  · exact .refl b

variable (target actor) in
/-- **Damage** spares everybody but the target. -/
theorem dodamage_spares (damage : Int) (gun : Int32) (hitpush : Vec) :
    Spares (some target) b (b.dodamage r target actor damage gun hitpush) := by
  have hgun : Spares (some target) b (b.addgundamage actor damage gun) :=
    (Spares.refl b).upd actor (fun _ => rfl) fun _ => rfl
  unfold Battle.dodamage
  dsimp only
  split
  · exact .refl b
  · split
    · exact hgun
    · refine Spares.trans ?_ spares_die
      refine Spares.push (Spares.adddamage (Spares.hurt ?_ _) _) _ _ _
      split
      · exact hgun.aid
      · exact hgun

/-! ## Suicides -/

theorem respawn_spec (cn : Int32) : (b.respawn cn).log = b.log ++ [.respawned cn] ∧
    (∀ cn' ≠ cn, (b.respawn cn).info cn' = b.info cn') ∧
    ((b.respawn cn).info cn).gs = { (b.info cn).gs with
      quadmillis := 0, gunwait := 0, lastshot := 0, ammo := fun n => if n = 0 then 1 else 0 } ∧
    ((b.respawn cn).info cn).health = 100 ∧ ((b.respawn cn).info cn).deadflush = 0 ∧
    ((b.respawn cn).info cn).life = (-1, (b.info cn).lifesequence) := by
  unfold Battle.respawn
  simp only [Battle.post_info, Battle.upd_info_self, Fighter.life]
  exact ⟨rfl, fun cn' hcn => Battle.upd_info_of_ne hcn, trivial, trivial, trivial, trivial⟩

theorem addteamfrags_clients (team : String) (v : Int) :
    (b.addteamfrags r team v).clients = b.clients := by
  unfold Battle.addteamfrags
  split <;> rfl

variable (target) in
theorem modedied_clients (actor : Option Int32) :
    (b.modedied r target actor).clients = b.clients := by
  unfold Battle.modedied
  split <;> rfl

/-- **A suicide** is one death, too. -/
theorem suicide_spec (cn : Int32) (halive : (b.info cn).gs.state = .alive) :
    (∃ frags tfrags, (b.suicide r cn).log = b.log ++ (.died cn cn frags tfrags ::
      ((if r.smode then [.modedied cn none] else []) ++ [.respawned cn]))) ∧
    (b.suicide r cn).clients = b.clients ∧ (b.suicide r cn).gamemillis = b.gamemillis ∧
    (∀ cn' ≠ cn, (b.suicide r cn).info cn' = b.info cn') ∧
    ((b.suicide r cn).info cn).gs = { (b.info cn).gs with
      state := .dead, lastdeath := b.gamemillis, quadmillis := 0, gunwait := 0, lastshot := 0
      ammo := fun n => if n = 0 then 1 else 0 } ∧
    ((b.suicide r cn).info cn).health = 100 ∧ ((b.suicide r cn).info cn).deadflush = 0 ∧
    ((b.suicide r cn).info cn).life = (-1, (b.info cn).lifesequence) := by
  unfold Battle.suicide
  rw [if_neg (by simp [halive])]
  dsimp only
  generalize hb₁ : ((b.upd cn fun f => { f with
    frags := f.frags + b.fragvalue r cn cn, deaths := f.deaths + 1 }).addteamfrags r
      (b.info cn).team (b.fragvalue r cn cn)) = b₁
  have hinfo₁ : ∀ cn' ≠ cn, b₁.info cn' = b.info cn' := by
    intro cn' hcn
    rw [← hb₁, addteamfrags_info, Battle.upd_info_of_ne hcn]
  have hvital₁ : (b₁.info cn).gs = (b.info cn).gs ∧ (b₁.info cn).life = (b.info cn).life := by
    rw [← hb₁, addteamfrags_info, Battle.upd_info_self]
    exact ⟨rfl, rfl⟩
  have hlog₁ : b₁.log = b.log := by
    rw [← hb₁, addteamfrags_log]
    rfl
  have hclients₁ : b₁.clients = b.clients := by
    rw [← hb₁, addteamfrags_clients]
    rfl
  have hmillis₁ : b₁.gamemillis = b.gamemillis := by
    rw [← hb₁, addteamfrags_gamemillis]
    rfl
  generalize (if r.teammode = true then b₁.teamfrags (b.info cn).team else 0) = tfrags
  generalize hb₂ : ((b₁.post (.died cn cn (b₁.info cn).frags tfrags)).upd cn fun f => { f with
    spreefrags := 0, multifrags := 0, lastfragmillis := 0 }) = b₂
  have hinfo₂ : ∀ cn' ≠ cn, b₂.info cn' = b.info cn' := by
    intro cn' hcn
    rw [← hb₂, Battle.upd_info_of_ne hcn, Battle.post_info, hinfo₁ cn' hcn]
  have hvital₂ : (b₂.info cn).gs = (b.info cn).gs ∧ (b₂.info cn).life = (b.info cn).life := by
    rw [← hb₂, Battle.upd_info_self]
    exact hvital₁
  have hlog₂ : b₂.log = b.log ++ [.died cn cn (b₁.info cn).frags tfrags] := by
    rw [← hlog₁, ← hb₂]
    rfl
  have hclients₂ : b₂.clients = b.clients := by
    rw [← hclients₁, ← hb₂]
    rfl
  have hmillis₂ : b₂.gamemillis = b.gamemillis := by
    rw [← hmillis₁, ← hb₂]
    rfl
  obtain ⟨hinfo₃, -, hmillis₃, hlog₃⟩ := modedied_spec cn (r := r) (b := b₂) none
  have hclients₃ := modedied_clients cn (r := r) (b := b₂) none
  generalize b₂.modedied r cn none = b₃ at hinfo₃ hmillis₃ hlog₃ hclients₃
  generalize hb₄ : (b₃.upd cn fun f => { f with
    suicides := f.suicides + 1
    gs := { f.gs with state := .dead, lastdeath := b₃.gamemillis } }) = b₄
  obtain ⟨hlog₅, hothers₅, hgs₅, hhealth₅, hflush₅, hlife₅⟩ := respawn_spec (b := b₄) cn
  have hlog₄ : b₄.log = b₃.log := by rw [← hb₄, Battle.upd_log]
  refine ⟨⟨(b₁.info cn).frags, tfrags, ?_⟩, ?_, ?_, fun cn' hcn => ?_, ?_, hhealth₅, hflush₅, ?_⟩
  · rw [hlog₅, hlog₄, hlog₃, hlog₂]
    simp only [List.append_assoc, List.cons_append, List.nil_append]
  · rw [← hclients₂, ← hclients₃, ← hb₄]
    rfl
  · rw [← hmillis₂, ← hmillis₃, ← hb₄]
    rfl
  · rw [hothers₅ cn' hcn, ← hb₄, Battle.upd_info_of_ne hcn, hinfo₃, hinfo₂ cn' hcn]
  · rw [hgs₅, ← hb₄, Battle.upd_info_self, hinfo₃, hmillis₃, hmillis₂, hvital₂.1]
  · have hsame : (b₄.info cn).lifesequence = (b.info cn).lifesequence := by
      rw [← hb₄, Battle.upd_info_self, hinfo₃]
      exact congrArg Prod.snd hvital₂.2
    rw [hlife₅, hsame]

end

end Combat

end QServ
