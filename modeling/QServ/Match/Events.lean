import QServ.Lib.Run
import QServ.Match.Damage

/-!
# The events of the clients

Shots, explosions and suicides wait in the queue of a client until they are flushed: in
`serverupdate`, and when the client asks to spawn again.  Their times are the client's own, moved by
an offset.

* `Game.step`: the messages of the clients, and `serverupdate`.
* `follow`: what a log may say of a client; `Sound`: what holds between the log and the clients.
* `events_exact`: the times of what is accepted.
* `projectiles_exact`: rockets and grenades.
* `damage_exact`: what hits announce, and deaths, in any run.
-/

namespace QServ

namespace Combat

/-- `explodeevent`. -/
structure Explosion where
  id : Int32
  millis : Int
  gun : Int32
  hits : List Hit
deriving DecidableEq, Repr

/-- What is derived from `gameevent`, but for items. -/
inductive Event where
  | shot (e : Shot)
  | explode (e : Explosion)
  | suicide
deriving DecidableEq, Repr

/-- The time of a `timedevent`. -/
def Event.millis : Event → Option Int
  | .shot e => some e.millis
  | .explode e => some e.millis
  | .suicide => none

/-- `keepable()`. -/
def Event.keepable : Event → Bool
  | .explode _ => true
  | _ => false

/-- The events of a client. -/
structure Queue where
  events : List Event := []
  timesync : Bool := false
  gameoffset : Int := 0
  lastevent : Int := 0
deriving DecidableEq, Repr

/-! ## Shots and explosions -/

/-- `exprad` of a gun that has projectiles. -/
def exprad (gun : Int) : Int := if gun = GUN_RL then 40 else if gun = GUN_GL then 45 else 0

/-- `EXP_SELFDAMDIV`. -/
def EXP_SELFDAMDIV : Int := 2

/-- `projectilestate<8>::remove(val)`. -/
def remove (projs : List Int32) (val : Int32) : Option (List Int32) :=
  (projs.findIdx? (· == val)).map fun i => (projs.set i (projs.getLastD val)).dropLast

/-- The game as `shotevent::process(ci)` sees it. -/
def arms (r : Rules) (cn : Int32) : Arms Battle where
  shooter b := (b.info cn).gs
  setshooter b gs := b.upd cn fun f => { f with gs }
  getinfo b n :=
    if n ∈ b.clients then some ⟨(b.info n).gs.state, (b.info n).lifesequence⟩ else none
  dodamage b target damage gun dir := b.dodamage r target cn damage gun dir
  toofar := r.toofar

/-- How far the loop over the hits of an explosion has come: the targets so far, and those that
`dodamage` was called for. -/
structure Blast where
  world : Battle
  seen : List Int32 := []
  struck : List Int32 := []

namespace Battle

variable (r : Rules) (cn : Int32) (b : Battle)

/-- `shotevent::process(ci)`. -/
def shoot (e : Shot) (fmillis : Int) : Battle :=
  let gs := (b.info cn).gs
  if (arms r cn).refuses b.gamemillis e gs then b
  else
    let shotfx := .shotfx cn e.id e.gun e.millis fmillis (gs.ammo e.gun.toInt)
    ((arms r cn).process b.gamemillis e (b.post shotfx)).world

/-- A hit of an explosion is not skipped, but for those that come twice. -/
def reaches (e : Explosion) (h : Hit) : Bool :=
  decide (h.target ∈ b.clients) && decide ((b.info h.target).gs.state = .alive) &&
    decide (h.lifesequence.toInt = (b.info h.target).lifesequence) && decide (0 ≤ h.dist.toInt) &&
    decide (h.dist.toInt ≤ 16 * exprad e.gun.toInt)

/-- What an explosion does to a target. -/
def burn (e : Explosion) (h : Hit) : Battle :=
  let damage := (guninfo e.gun.toInt).damage
  let damage := if (b.info cn).gs.quadmillis ≠ 0 then int32 (damage * 4) else damage
  let damage := r.falloff e.gun h.dist damage
  let damage := if h.target = cn then damage.tdiv EXP_SELFDAMDIV else damage
  b.dodamage r h.target cn damage e.gun h.dir

end Battle

/-- The body of the loop over the hits of an explosion. -/
def Blast.hit (r : Rules) (cn : Int32) (e : Explosion) (v : Blast) (h : Hit) : Blast :=
  if v.world.reaches e h && decide (h.target ∉ v.seen) then
    { world := v.world.burn r cn e h, seen := v.seen ++ [h.target],
      struck := v.struck ++ [h.target] }
  else { v with seen := v.seen ++ [h.target] }

/-- The loop over the hits of an explosion. -/
def blast (r : Rules) (cn : Int32) (e : Explosion) (b : Battle) : Blast :=
  e.hits.foldl (Blast.hit r cn e) { world := b }

/-- The projectile is taken out. -/
def takeprojectile (e : Explosion) (gs : Shooter) : Option Shooter :=
  if e.gun.toInt = GUN_RL then (remove gs.rockets e.id).map fun rockets => { gs with rockets }
  else if e.gun.toInt = GUN_GL then
    (remove gs.grenades e.id).map fun grenades => { gs with grenades }
  else none

namespace Battle

variable (r : Rules) (cn : Int32) (b : Battle)

/-- `explodeevent::process(ci)`. -/
def explode (e : Explosion) (fmillis : Int) : Battle :=
  match takeprojectile e (b.info cn).gs with
  | none => b
  | some gs =>
    let b := b.upd cn fun f => { f with gs }
    (blast r cn e (b.post (.explodefx cn e.id e.gun e.millis fmillis))).world

/-- `process(ci)`. -/
def process (fmillis : Int) : Event → Battle
  | .shot e => b.shoot r cn e fmillis
  | .explode e => b.explode r cn e fmillis
  | .suicide => b.suicide r cn

end Battle

/-! ## The queues -/

/-- The game with the queues of the clients. -/
structure Game where
  battle : Battle
  queues : Int32 → Queue

/-- What `spawnstate(gamemode)` sets: health only in insta, and some ammunition. -/
structure Loadout where
  insta : Bool
  armour : Int
  armourtype : Int
  ammo : Int → Option Int

/-- The messages of a client; `canspawn` is what the mode and the map check. -/
inductive Message where
  | shoot (id gun : Int32) (start finish : Vec) (hits : List Hit)
  | explode (cmillis gun id : Int32) (hits : List Hit)
  | suicide
  | tryspawn (canspawn : Bool) (loadout : Loadout)
  | spawn (ls : Int)
  | moved (hasx : Bool)

/-- A message of a client, or `serverupdate`, which may leave the events for later. -/
inductive Input where
  | message (cn : Int32) (m : Message)
  | serverupdate (curtime : Nat) (processes : Bool)

/-- `waitexpired(gamemillis)`. -/
def waitexpired (gamemillis : Int) (gs : Shooter) : Bool :=
  decide (gs.gunwait ≤ int32 (gamemillis - gs.lastshot))

namespace Queue

variable (q : Queue)

/-- `geteventmillis(servmillis, clientmillis)`. -/
def geteventmillis (servmillis : Int) (clientmillis : Int32) (gs : Shooter) : Int × Queue :=
  if !q.timesync || (q.events.isEmpty && waitexpired servmillis gs) then
    (servmillis, { q with
      timesync := true, gameoffset := int32 (servmillis - clientmillis.toInt) })
  else (int32 (q.gameoffset + clientmillis.toInt), q)

/-- `addevent(e)`. -/
def addevent (state : CState) (e : Event) : Queue :=
  if state = .spectator ∨ 100 < q.events.length then q else { q with events := q.events ++ [e] }

/-- `cleartimedevents(ci)`. -/
def cleartimedevents : Queue :=
  { q with events := q.events.filter Event.keepable, timesync := false }

end Queue

/-- `quadmillis` runs down. -/
def Fighter.elapse (curtime : Nat) (f : Fighter) : Fighter :=
  if 0 < curtime ∧ f.gs.quadmillis ≠ 0 then
    { f with gs := { f.gs with quadmillis := max (f.gs.quadmillis - curtime) 0 } }
  else f

namespace Game

variable (r : Rules) (cn : Int32) (g : Game)

/-- The queue of a client is changed. -/
def updqueue (f : Queue → Queue) : Game :=
  { g with queues := Function.update g.queues cn (f (g.queues cn)) }

/-- `flush(ci, fmillis)` of an event; one that has to wait is no result. -/
def flush (fmillis : Int) (e : Event) : Option Game :=
  match e.millis with
  | none => some { g with battle := g.battle.process r cn fmillis e }
  | some millis =>
    if fmillis < millis then none
    else if (g.queues cn).lastevent ≤ millis then
      let g := g.updqueue cn fun q => { q with lastevent := millis }
      some { g with battle := g.battle.process r cn fmillis e }
    else some g

/-- The loop of `flushevents`, with the events that are left. -/
def flushfrom (fmillis : Int) : List Event → Game → List Event × Game
  | [], g => ([], g)
  | e :: es, g =>
    match g.flush r cn fmillis e with
    | none => (e :: es, g)
    | some g => flushfrom fmillis es g

/-- `flushevents(ci, millis)`. -/
def flushevents (fmillis : Int) : Game :=
  let (events, g) := flushfrom r cn fmillis (g.queues cn).events g
  g.updqueue cn fun q => { q with events }

/-- The loop of `processevents` for a client. -/
def processevent (curtime : Nat) (g : Game) (cn : Int32) : Game :=
  let b := g.battle.upd cn (Fighter.elapse curtime)
  flushevents r cn { g with battle := b } b.gamemillis

/-- `processevents()`. -/
def processevents (curtime : Nat) : Game := g.battle.clients.foldl (processevent r curtime) g

/-- An event with a time is put in the queue. -/
def addtimed (clientmillis : Int32) (e : Int → Event) : Game :=
  let gs := (g.battle.info cn).gs
  g.updqueue cn fun q =>
    let (millis, q) := q.geteventmillis g.battle.gamemillis clientmillis gs
    q.addevent gs.state (e millis)

/-- `sendspawn(ci)`. -/
def sendspawn (loadout : Loadout) : Game :=
  { g with battle := g.battle.upd cn fun f => { f with
    health := if loadout.insta then 1 else f.health
    armour := loadout.armour
    armourtype := loadout.armourtype
    gs := { f.gs with ammo := fun n => (loadout.ammo n).getD (f.gs.ammo n) }
    lifesequence := (f.lifesequence + 1) % 128
    lastspawn := g.battle.gamemillis } }

/-- `N_TRYSPAWN`. -/
def tryspawn (loadout : Loadout) : Game :=
  let f := g.battle.info cn
  if f.gs.state ≠ .dead ∨ 0 ≤ f.lastspawn then g
  else
    let g :=
      if f.deadflush ≠ 0 then
        let g := g.flushevents r cn f.deadflush
        { g with battle := g.battle.respawn cn }
      else g
    (g.updqueue cn Queue.cleartimedevents).sendspawn cn loadout

/-- `N_SPAWN`. -/
def spawn (ls : Int) : Game :=
  let f := g.battle.info cn
  if (f.gs.state = .alive ∨ f.gs.state = .dead ∨ f.gs.state = .editing) ∧ ls = f.lifesequence ∧
      0 ≤ f.lastspawn then
    { g with battle := (g.battle.upd cn fun f => { f with
        lastspawn := -1, gs := { f.gs with state := .alive } }).post (.spawned cn) }
  else g

/-- A message. -/
def receive : Message → Game
  | .shoot id gun start finish hits =>
    g.addtimed cn id fun millis => .shot ⟨id, millis, gun, start, finish, hits⟩
  | .explode cmillis gun id hits =>
    g.addtimed cn cmillis fun millis => .explode ⟨id, millis, gun, hits⟩
  | .suicide => g.updqueue cn fun q => q.addevent (g.battle.info cn).gs.state .suicide
  | .tryspawn canspawn loadout => if canspawn then g.tryspawn r cn loadout else g
  | .spawn ls => g.spawn cn ls
  | .moved hasx => { g with battle := g.battle.upd cn fun f => { f with hasx } }

/-- One input. -/
def next (g : Game) : Input → Game
  | .message cn m => if cn ∈ g.battle.clients then g.receive r cn m else g
  | .serverupdate curtime processes =>
    let b := { g.battle with
      gamemillis := g.battle.gamemillis + curtime, totalmillis := g.battle.totalmillis + curtime }
    let g := { g with battle := b }
    if processes then g.processevents r curtime else g

/-- The time of what an input flushes. -/
def flushtime : Input → Int
  | .message cn _ => (g.battle.info cn).deadflush
  | .serverupdate curtime _ => g.battle.gamemillis + curtime

/-- One input; the time of the game does not run over. -/
def step (g : Game) (i : Input) : Except Unit Game :=
  let g := g.next r i
  if g.battle.gamemillis < 2 ^ 31 then .ok g else .error ()

end Game

/-! ## What the log says -/

/-- What is known of a client: whether he is alive, the last shot of this life with the delay of its
gun, and the time of the last event. -/
structure Record where
  alive : Bool := false
  last : Option (Int × Int) := none
  time : Int := 0
deriving DecidableEq, Repr

/-- **A log is followed**: an event that is accepted is none before the last one and none after its
flush, a shot comes when the delay is over and there is ammunition, and only who is alive dies. -/
def follow (cn : Int32) (s : Record) : Note → Option Record
  | .shotfx cn' _ gun millis fmillis ammo =>
    if cn' ≠ cn then some s
    else if s.time ≤ millis ∧ millis ≤ fmillis ∧ 0 < ammo ∧ ∀ x ∈ s.last, x.1 + x.2 ≤ millis then
      some { s with last := some (millis, (guninfo gun.toInt).attackdelay), time := millis }
    else none
  | .explodefx cn' _ _ millis fmillis =>
    if cn' ≠ cn then some s
    else if s.time ≤ millis ∧ millis ≤ fmillis then some { s with time := millis }
    else none
  | .died target _ _ _ =>
    if target ≠ cn then some s else if s.alive then some { s with alive := false } else none
  | .respawned cn' => some (if cn' = cn then { s with last := none } else s)
  | .spawned cn' => some (if cn' = cn then { s with alive := true } else s)
  | _ => some s

/-- The ids of the shots of a gun. -/
def shots (cn : Int32) (gun : Int) (log : List Note) : List Int32 :=
  log.filterMap fun
    | .shotfx cn' id gun' _ _ _ => if cn' = cn ∧ gun'.toInt = gun then some id else none
    | _ => none

/-- The ids of the explosions of a gun. -/
def explosions (cn : Int32) (gun : Int) (log : List Note) : List Int32 :=
  log.filterMap fun
    | .explodefx cn' id gun' _ _ => if cn' = cn ∧ gun'.toInt = gun then some id else none
    | _ => none

/-- The shots of a gun with an id. -/
def fired (cn : Int32) (gun : Int) (id : Int32) (log : List Note) : Nat :=
  (shots cn gun log).count id

/-- The explosions of a gun with an id. -/
def exploded (cn : Int32) (gun : Int) (id : Int32) (log : List Note) : Nat :=
  (explosions cn gun log).count id

/-- The projectiles of a gun. -/
def projs (gun : Int) (gs : Shooter) : List Int32 :=
  if gun = GUN_RL then gs.rockets else if gun = GUN_GL then gs.grenades else []

theorem follow_neutral {cn : Int32} {n : Note} (s : Record) (hd : n.isdeath = false)
    (hm : n.ismark = false) : follow cn s n = some s := by
  cases n <;> first | rfl | exact Bool.noConfusion hm | exact Bool.noConfusion hd

theorem followed_neutral {cn : Int32} {ns : List Note} (s : Record)
    (hd : ∀ n ∈ ns, n.isdeath = false) (hm : ∀ n ∈ ns, n.ismark = false) :
    ns.foldlM (follow cn) s = some s := by
  induction ns with
  | nil => rfl
  | cons n ns ih =>
    obtain ⟨hn, hns⟩ := List.forall_mem_cons.mp hd
    obtain ⟨hn', hns'⟩ := List.forall_mem_cons.mp hm
    rw [List.foldlM_cons, follow_neutral s hn hn']
    exact ih hns hns'

/-- Where nothing is accepted only deaths matter. -/
theorem followed_filter (cn : Int32) {ns : List Note} (hm : ∀ n ∈ ns, n.ismark = false) :
    ∀ s, ns.foldlM (follow cn) s = (ns.filter Note.isdeath).foldlM (follow cn) s := by
  induction ns with
  | nil => exact fun _ => rfl
  | cons n ns ih =>
    obtain ⟨hn, hns⟩ := List.forall_mem_cons.mp hm
    intro s
    cases hd : n.isdeath with
    | false =>
      rw [List.foldlM_cons, follow_neutral s hd hn, List.filter_cons_of_neg (by simp [hd])]
      exact ih hns s
    | true =>
      rw [List.filter_cons_of_pos hd, List.foldlM_cons, List.foldlM_cons]
      cases follow cn s n with
      | none => rfl
      | some s' => exact ih hns s'

theorem counts_neutral (cn : Int32) (gun : Int) (id : Int32) {ns : List Note}
    (hm : ∀ n ∈ ns, n.ismark = false) : fired cn gun id ns = 0 ∧ exploded cn gun id ns = 0 := by
  have hshots : shots cn gun ns = [] := by
    refine List.filterMap_eq_nil_iff.mpr fun n hn => ?_
    have hmark := hm n hn
    cases n <;> first | rfl | cases hmark
  have hexplosions : explosions cn gun ns = [] := by
    refine List.filterMap_eq_nil_iff.mpr fun n hn => ?_
    have hmark := hm n hn
    cases n <;> first | rfl | cases hmark
  exact ⟨by rw [fired, hshots, List.count_nil], by rw [exploded, hexplosions, List.count_nil]⟩

/-- One shot. -/
theorem fired_one (cn cn' id id' gun' : Int32) (gun millis fmillis ammo : Int) :
    fired cn gun id [.shotfx cn' id' gun' millis fmillis ammo] =
      if cn' = cn ∧ gun'.toInt = gun ∧ id' = id then 1 else 0 := by
  unfold fired shots
  by_cases hcn : cn' = cn <;> by_cases hgun : gun'.toInt = gun <;> by_cases hid : id' = id <;>
    simp [hcn, hgun, hid]

/-- One explosion. -/
theorem exploded_one (cn cn' id id' gun' : Int32) (gun millis fmillis : Int) :
    exploded cn gun id [.explodefx cn' id' gun' millis fmillis] =
      if cn' = cn ∧ gun'.toInt = gun ∧ id' = id then 1 else 0 := by
  unfold exploded explosions
  by_cases hcn : cn' = cn <;> by_cases hgun : gun'.toInt = gun <;> by_cases hid : id' = id <;>
    simp [hcn, hgun, hid]

theorem fired_append (cn : Int32) (gun : Int) (id : Int32) (l l' : List Note) :
    fired cn gun id (l ++ l') = fired cn gun id l + fired cn gun id l' := by
  rw [fired, shots, List.filterMap_append, List.count_append]
  rfl

theorem exploded_append (cn : Int32) (gun : Int) (id : Int32) (l l' : List Note) :
    exploded cn gun id (l ++ l') = exploded cn gun id l + exploded cn gun id l' := by
  rw [exploded, explosions, List.filterMap_append, List.count_append]
  rfl

/-! ## What holds between the log and the clients -/

/-- **The clients and their queues are as the log says**, given the times of their last events;
since the start no more has exploded than there was and was fired. -/
structure Sound (start : Battle) (lastevent : Int32 → Int) (b : Battle) : Prop where
  log : start.log <+: b.log
  millis : 0 ≤ b.gamemillis
  nonneg : ∀ cn, 0 ≤ lastevent cn
  alive : ∀ cn, (b.info cn).gs.state = .alive → 0 < (b.info cn).health
  dead : ∀ cn, (b.info cn).gs.state = .dead → (b.info cn).deadflush = 0 → 0 < (b.info cn).health
  spawns : ∀ cn, 0 ≤ (b.info cn).lastspawn →
    0 < (b.info cn).health ∧ (b.info cn).gs.state ≠ .alive
  followed : ∀ cn, ∃ s, b.log.foldlM (follow cn) {} = some s ∧
    (s.alive = true ↔ (b.info cn).gs.state = .alive) ∧
    (∀ x ∈ s.last, (b.info cn).gs.lastshot = x.1 ∧ (b.info cn).gs.gunwait = x.2) ∧
    s.time ≤ lastevent cn
  projs : ∀ cn gun id,
    (projs gun (b.info cn).gs).count id + exploded cn gun id b.log + fired cn gun id start.log ≤
      (projs gun (start.info cn).gs).count id + exploded cn gun id start.log + fired cn gun id b.log

/-- The time of the flush in which something was accepted. -/
def Note.flushed : Note → Option Int
  | .shotfx _ _ _ _ fmillis _ => some fmillis
  | .explodefx _ _ _ _ fmillis => some fmillis
  | _ => none

/-- What is accepted is flushed at a time. -/
def Flushes (fmillis : Int) (b b' : Battle) : Prop :=
  ∃ ns, b'.log = b.log ++ ns ∧ ∀ n ∈ ns, ∀ t ∈ n.flushed, t = fmillis

/-- After a flush: the same clients at the same time, and nobody has come to life. -/
structure Later (fmillis : Int) (b b' : Battle) : Prop where
  clients : b'.clients = b.clients
  gamemillis : b'.gamemillis = b.gamemillis
  alive : ∀ cn, (b'.info cn).gs.state = .alive → (b.info cn).gs.state = .alive
  log : Flushes fmillis b b'

section

variable {fmillis : Int} {b b' b'' : Battle}

theorem Flushes.of_eq (h : b'.log = b.log) : Flushes fmillis b b' :=
  ⟨[], h.trans (List.append_nil _).symm, nofun⟩

theorem Flushes.trans (h : Flushes fmillis b b') (h' : Flushes fmillis b' b'') :
    Flushes fmillis b b'' := by
  obtain ⟨ns, hlog, hns⟩ := h
  obtain ⟨ns', hlog', hns'⟩ := h'
  refine ⟨ns ++ ns', ?_, List.forall_mem_append.mpr ⟨hns, hns'⟩⟩
  rw [hlog', hlog, List.append_assoc]

theorem Flushes.one {n : Note} (hlog : b'.log = b.log ++ [n]) (hn : ∀ t ∈ n.flushed, t = fmillis) :
    Flushes fmillis b b' := ⟨[n], hlog, by simpa using hn⟩

/-- Where nothing is accepted any time will do. -/
theorem Flushes.unmarked {ns : List Note} (hlog : b'.log = b.log ++ ns)
    (hm : ∀ n ∈ ns, n.ismark = false) : Flushes fmillis b b' := by
  refine ⟨ns, hlog, fun n hn t ht => ?_⟩
  have hmark := hm n hn
  cases n <;> first | exact Bool.noConfusion hmark | cases ht

theorem Later.refl (b : Battle) : Later fmillis b b := ⟨rfl, rfl, fun _ h => h, .of_eq rfl⟩

theorem Later.trans (h : Later fmillis b b') (h' : Later fmillis b' b'') : Later fmillis b b'' :=
  ⟨h'.clients.trans h.clients, h'.gamemillis.trans h.gamemillis,
    fun cn hcn => h.alive cn (h'.alive cn hcn), h.log.trans h'.log⟩

end

section

variable {r : Rules} {cn target actor : Int32} {start b b' : Battle} {le : Int32 → Int}
  {fmillis : Int}

/-- What was followed to here is followed on. -/
theorem followed_append {ns : List Note} {s s' : Record}
    (hs : b.log.foldlM (follow cn) {} = some s) (hlog : b'.log = b.log ++ ns)
    (hns : ns.foldlM (follow cn) s = some s') : b'.log.foldlM (follow cn) {} = some s' := by
  rw [hlog, List.foldlM_append, hs]
  exact hns

/-- Where nothing is accepted and the projectiles stay, they are accounted for. -/
theorem Sound.projs_same (hs : Sound start le b) {ns : List Note} (hlog : b'.log = b.log ++ ns)
    (hm : ∀ n ∈ ns, n.ismark = false)
    (hsame : ∀ cn gun, Combat.projs gun (b'.info cn).gs = Combat.projs gun (b.info cn).gs)
    (cn : Int32) (gun : Int) (id : Int32) :
    (Combat.projs gun (b'.info cn).gs).count id + exploded cn gun id b'.log +
        fired cn gun id start.log ≤ (Combat.projs gun (start.info cn).gs).count id +
      exploded cn gun id start.log + fired cn gun id b'.log := by
  obtain ⟨hfired, hexploded⟩ := counts_neutral cn gun id hm
  rw [hlog, fired_append, exploded_append, hfired, hexploded, hsame]
  exact hs.projs cn gun id

/-- The log only grows. -/
theorem Sound.grow (hs : Sound start le b) {ns : List Note} (hlog : b'.log = b.log ++ ns) :
    start.log <+: b'.log := by
  rw [hlog]
  exact hs.log.trans (List.prefix_append b.log ns)

/-- **Damage** to one who is alive keeps everything as the log says. -/
theorem Sound.dodamage (hs : Sound start le b) (halive : (b.info target).gs.state = .alive)
    (damage : Int) (gun : Int32) (hitpush : Vec) :
    Sound start le (b.dodamage r target actor damage gun hitpush) ∧
      Later fmillis b (b.dodamage r target actor damage gun hitpush) := by
  obtain ⟨hdies, hlives⟩ := dodamage_deaths actor (r := r) halive (hs.alive _ halive)
    damage gun hitpush
  have hspares := dodamage_spares target actor (r := r) (b := b) damage gun
    hitpush
  generalize b.dodamage r target actor damage gun hitpush = b' at hdies hlives hspares
  obtain ⟨⟨ns, hlog, hmarks⟩, hclients, hmillis, hlife, hvital⟩ := hspares
  have hspawn : ∀ cn, (b'.info cn).lastspawn = (b.info cn).lastspawn := fun cn =>
    congrArg Prod.fst (hlife cn)
  have hhealth : ∀ cn ≠ target, (b'.info cn).health = (b.info cn).health := fun cn hcn =>
    congrArg (fun v => v.2.1) (hvital cn fun heq => hcn (Option.some.inj heq))
  have hflush : ∀ cn ≠ target, (b'.info cn).deadflush = (b.info cn).deadflush := fun cn hcn =>
    congrArg (fun v => v.2.2) (hvital cn fun heq => hcn (Option.some.inj heq))
  have hnospawn : ¬0 ≤ (b.info target).lastspawn := fun h => (hs.spawns target h).2 halive
  obtain hle | hgt := le_or_gt (b'.info target).health 0
  · -- the target dies
    obtain ⟨⟨ns', hlog', hdeath⟩, hdead, hdeadflush, hothers, -⟩ := hdies hle
    obtain rfl := List.append_cancel_left (hlog.symm.trans hlog')
    have hstate : ∀ cn, (b'.info cn).gs.state = .alive →
        cn ≠ target ∧ (b.info cn).gs.state = .alive := by
      intro cn hcn
      by_cases heq : cn = target
      · subst heq
        rw [hdead] at hcn
        cases hcn
      · rw [hothers cn heq] at hcn
        exact ⟨heq, hcn⟩
    refine ⟨⟨hs.grow hlog, hmillis ▸ hs.millis, hs.nonneg, fun cn hcn => ?_, fun cn hcn hzero => ?_,
      fun cn hcn => ?_, fun cn => ?_, hs.projs_same hlog hmarks fun cn gun => ?_⟩,
      ⟨hclients, hmillis, fun cn hcn => (hstate cn hcn).2, .unmarked hlog hmarks⟩⟩
    · obtain ⟨hne, hwas⟩ := hstate cn hcn
      rw [hhealth cn hne]
      exact hs.alive cn hwas
    · by_cases heq : cn = target
      · subst heq
        have hpos := hs.millis
        rw [hdeadflush, DEATHMILLIS] at hzero
        omega
      · rw [hothers cn heq] at hcn
        rw [hflush cn heq] at hzero
        rw [hhealth cn heq]
        exact hs.dead cn hcn hzero
    · rw [hspawn] at hcn
      have hne : cn ≠ target := fun heq => hnospawn (heq ▸ hcn)
      rw [hhealth cn hne, hothers cn hne]
      exact hs.spawns cn hcn
    · obtain ⟨s, hfollowed, halive', hlast, htime⟩ := hs.followed cn
      have hfilter := followed_filter cn hmarks s
      have hmode : (if r.smode then [Note.modedied target (some actor)] else []).foldlM (follow cn)
          = (some : Record → Option Record) := by
        cases r.smode <;> rfl
      by_cases heq : cn = target
      · subst heq
        have hyes : s.alive = true := halive'.mpr halive
        refine ⟨{ s with alive := false }, followed_append hfollowed hlog ?_, ?_, ?_, htime⟩
        · rw [hfilter, hdeath, List.foldlM_cons]
          simp only [follow, ne_eq, not_true_eq_false, if_false, hyes, if_true]
          exact congrFun hmode _
        · rw [hdead]
          simp
        · rw [hdead]
          exact hlast
      · refine ⟨s, followed_append hfollowed hlog ?_, ?_, ?_, htime⟩
        · rw [hfilter, hdeath, List.foldlM_cons]
          simp only [follow, ne_eq, Ne.symm heq, not_false_eq_true, if_true]
          exact congrFun hmode _
        · rw [hothers cn heq]
          exact halive'
        · rw [hothers cn heq]
          exact hlast
    · by_cases heq : cn = target
      · rw [heq, hdead]
        rfl
      · rw [hothers cn heq]
  · -- nobody dies
    obtain ⟨⟨ns', hlog', hdeath⟩, hstate, -, hdeadflush, -⟩ := hlives hgt
    obtain rfl := List.append_cancel_left (hlog.symm.trans hlog')
    refine ⟨⟨hs.grow hlog, hmillis ▸ hs.millis, hs.nonneg, fun cn hcn => ?_, fun cn hcn hzero => ?_,
      fun cn hcn => ?_, fun cn => ?_, hs.projs_same hlog hmarks fun cn gun => by rw [hstate]⟩,
      ⟨hclients, hmillis, fun cn hcn => by rwa [hstate] at hcn, .unmarked hlog hmarks⟩⟩
    · by_cases heq : cn = target
      · rw [heq]
        exact hgt
      · rw [hstate] at hcn
        rw [hhealth cn heq]
        exact hs.alive cn hcn
    · have hne : cn ≠ target := by
        rintro rfl
        rw [hstate, halive] at hcn
        cases hcn
      rw [hstate] at hcn
      rw [hdeadflush] at hzero
      rw [hhealth cn hne]
      exact hs.dead cn hcn hzero
    · rw [hspawn] at hcn
      have hne : cn ≠ target := fun heq => hnospawn (heq ▸ hcn)
      rw [hhealth cn hne, hstate]
      exact hs.spawns cn hcn
    · obtain ⟨s, hfollowed, halive', hlast, htime⟩ := hs.followed cn
      refine ⟨s, followed_append hfollowed hlog (followed_neutral s hdeath hmarks), ?_, ?_, htime⟩
      · rw [hstate]
        exact halive'
      · rw [hstate]
        exact hlast

/-! ## Shots -/

/-- **The hits of a shot.** -/
theorem Sound.volley {b₀ : Battle} {e : Shot} (hits : List Hit) : ∀ {v : Volley Battle},
    Sound start le v.world → Later fmillis b₀ v.world →
      Sound start le (hits.foldl ((arms r cn).hit e Arms.addint) v).world ∧
        Later fmillis b₀ (hits.foldl ((arms r cn).hit e Arms.addint) v).world := by
  induction hits with
  | nil => exact fun hs hl => ⟨hs, hl⟩
  | cons h hits ih =>
    intro v hs hl
    rw [List.foldl_cons]
    obtain ⟨-, heq⟩ | ⟨-, -, heq⟩ | ⟨hp, -, heq⟩ := (arms r cn).hit_cases h v
    · rw [heq]
      exact ih hs hl
    · rw [heq]
      exact ih hs hl
    · rw [heq]
      have halive : (v.world.info h.target).gs.state = .alive := by
        unfold Arms.passes arms at hp
        dsimp only at hp
        by_cases hmem : h.target ∈ v.world.clients
        · rw [if_pos hmem] at hp
          simp only [Bool.and_eq_true, decide_eq_true_eq] at hp
          exact hp.1.1.1
        · rw [if_neg hmem] at hp
          cases hp
      have hstruck : Sound start le ((arms r cn).strike e v.world h) ∧
          Later fmillis v.world ((arms r cn).strike e v.world h) := hs.dodamage halive _ _ _
      exact ih hstruck.1 (hl.trans hstruck.2)

theorem addprojectile_count (ps : List Int32) (val id : Int32) :
    (addprojectile ps val).count id ≤ ps.count id + if val = id then 1 else 0 := by
  unfold addprojectile
  split
  · rw [List.count_singleton]
    by_cases h : val = id <;> simp [h]
  · rw [List.count_append, List.count_singleton]
    by_cases h : val = id <;> simp [h]

/-- What is fired is one projectile more, at most. -/
theorem projs_fire (e : Shot) (gs : Shooter) (gun : Int) (id : Int32) :
    (projs gun (Arms.fire e gs)).count id ≤
      (projs gun gs).count id + if e.gun.toInt = gun ∧ e.id = id then 1 else 0 := by
  have hrockets := addprojectile_count gs.rockets e.id id
  have hgrenades := addprojectile_count gs.grenades e.id id
  unfold projs Arms.fire
  dsimp only
  by_cases hrl : gun = GUN_RL
  · rw [if_pos hrl, if_pos hrl]
    by_cases hgun : e.gun.toInt = GUN_RL
    · simpa [hrl, hgun] using hrockets
    · simp [hrl, hgun]
  · rw [if_neg hrl, if_neg hrl]
    by_cases hgl : gun = GUN_GL
    · rw [if_pos hgl, if_pos hgl]
      by_cases hgun : e.gun.toInt = GUN_GL
      · simpa [hgl, hgun] using hgrenades
      · simp [hgl, hgun]
    · simp [hgl]

/-- **An event is accepted**: the log says so, and the client has other weapons. -/
theorem Sound.accept (hs : Sound start le b) {n : Note} {gs : Shooter}
    (hflushed : ∀ t ∈ n.flushed, t = fmillis)
    (hstate : gs.state = (b.info cn).gs.state)
    (hother : ∀ cn' ≠ cn, (∀ s, follow cn' s n = some s) ∧ ∀ gun id, exploded cn' gun id [n] = 0)
    (hself : ∀ s : Record, (∀ x ∈ s.last, (b.info cn).gs.lastshot = x.1 ∧
      (b.info cn).gs.gunwait = x.2) → s.time ≤ le cn → ∃ s', follow cn s n = some s' ∧
        s'.alive = s.alive ∧ (∀ x ∈ s'.last, gs.lastshot = x.1 ∧ gs.gunwait = x.2) ∧
          s'.time ≤ le cn)
    (hprojs : ∀ gun id, (Combat.projs gun gs).count id + exploded cn gun id [n] ≤
      (Combat.projs gun (b.info cn).gs).count id + fired cn gun id [n]) :
    Sound start le ((b.post n).upd cn fun f => { f with gs }) ∧
      Later fmillis b ((b.post n).upd cn fun f => { f with gs }) := by
  generalize hb' : (b.post n).upd cn (fun f => { f with gs }) = b'
  have hothers : ∀ cn' ≠ cn, b'.info cn' = b.info cn' := by
    intro cn' hcn
    rw [← hb', Battle.upd_info_of_ne hcn, Battle.post_info]
  have hinfo : b'.info cn = { b.info cn with gs } := by
    rw [← hb', Battle.upd_info_self, Battle.post_info]
  have hstates : ∀ cn', (b'.info cn').gs.state = (b.info cn').gs.state := by
    intro cn'
    by_cases hcn : cn' = cn
    · rw [hcn, hinfo]
      exact hstate
    · rw [hothers cn' hcn]
  have hrest : ∀ cn', (b'.info cn').health = (b.info cn').health ∧
      (b'.info cn').deadflush = (b.info cn').deadflush ∧
      (b'.info cn').lastspawn = (b.info cn').lastspawn := by
    intro cn'
    by_cases hcn : cn' = cn
    · rw [hcn, hinfo]
      exact ⟨rfl, rfl, rfl⟩
    · rw [hothers cn' hcn]
      exact ⟨rfl, rfl, rfl⟩
  have hlog : b'.log = b.log ++ [n] := by
    rw [← hb']
    rfl
  refine ⟨⟨hs.grow hlog, by rw [← hb']; exact hs.millis, hs.nonneg, fun cn' hcn => ?_,
    fun cn' hcn hzero => ?_, fun cn' hcn => ?_, fun cn' => ?_, fun cn' gun id => ?_⟩,
    ⟨by rw [← hb']; rfl, by rw [← hb']; rfl, fun cn' hcn => (hstates cn').symm.trans hcn,
      .one hlog hflushed⟩⟩
  · rw [(hrest cn').1]
    exact hs.alive cn' ((hstates cn').symm.trans hcn)
  · rw [(hrest cn').1]
    exact hs.dead cn' ((hstates cn').symm.trans hcn) ((hrest cn').2.1 ▸ hzero)
  · rw [(hrest cn').1, hstates]
    exact hs.spawns cn' ((hrest cn').2.2 ▸ hcn)
  · obtain ⟨s, hfollowed, halive, hlast, htime⟩ := hs.followed cn'
    by_cases hcn : cn' = cn
    · subst hcn
      obtain ⟨s', hfollow, halive', hlast', htime'⟩ := hself s hlast htime
      refine ⟨s', followed_append hfollowed hlog ?_, ?_, ?_, htime'⟩
      · rw [List.foldlM_cons, hfollow]
        rfl
      · rw [halive', hstates]
        exact halive
      · rw [hinfo]
        exact hlast'
    · refine ⟨s, followed_append hfollowed hlog ?_, ?_, ?_, htime⟩
      · rw [List.foldlM_cons, (hother cn' hcn).1]
        rfl
      · rw [hstates]
        exact halive
      · rw [hothers cn' hcn]
        exact hlast
  · have hbefore := hs.projs cn' gun id
    rw [hlog, fired_append, exploded_append]
    by_cases hcn : cn' = cn
    · subst hcn
      have hone := hprojs gun id
      rw [hinfo]
      dsimp only
      omega
    · have hnone := (hother cn' hcn).2 gun id
      rw [hothers cn' hcn]
      omega

/-- A shot is fired. -/
theorem Sound.fire (hs : Sound start le b) {e : Shot} (hle : le cn = e.millis)
    (hflush : e.millis ≤ fmillis)
    (hgo : (arms r cn).refuses b.gamemillis e (b.info cn).gs = false) :
    let shotfx := .shotfx cn e.id e.gun e.millis fmillis ((b.info cn).gs.ammo e.gun.toInt)
    Sound start le ((b.post shotfx).upd cn fun f => { f with gs := Arms.fire e (b.info cn).gs }) ∧
      Later fmillis b
        ((b.post shotfx).upd cn fun f => { f with gs := Arms.fire e (b.info cn).gs }) := by
  unfold Arms.refuses at hgo
  simp only [Bool.or_eq_false_iff, decide_eq_false_iff_not, not_lt, not_le] at hgo
  obtain ⟨⟨⟨⟨⟨-, hwait⟩, -⟩, -⟩, hammo⟩, -⟩ := hgo
  refine hs.accept (by simp [Note.flushed]) rfl
    (fun cn' hcn => ⟨fun s => ?_, fun gun id => rfl⟩) (fun s hlast htime => ?_) fun gun id => ?_
  · simp only [follow, ne_eq, Ne.symm hcn, not_false_eq_true, if_true]
  · have hlater : ∀ x ∈ s.last, x.1 + x.2 ≤ e.millis := by
      intro x hx
      obtain ⟨hx₁, hx₂⟩ := hlast x hx
      omega
    refine ⟨{ s with last := some (e.millis, (guninfo e.gun.toInt).attackdelay), time := e.millis },
      ?_, rfl, ?_, hle.ge⟩
    · simp only [follow, ne_eq, not_true_eq_false, if_false]
      rw [if_pos ⟨hle ▸ htime, hflush, hammo, hlater⟩]
    · rintro _ ⟨⟩
      exact ⟨rfl, rfl⟩
  · have hone : fired cn gun id [.shotfx cn e.id e.gun e.millis fmillis
        ((b.info cn).gs.ammo e.gun.toInt)] = if e.gun.toInt = gun ∧ e.id = id then 1 else 0 := by
      simp [fired_one]
    rw [hone]
    exact projs_fire e (b.info cn).gs gun id

/-- **`shotevent::process(ci)`.** -/
theorem Sound.shoot (hs : Sound start le b) {e : Shot} (hle : le cn = e.millis)
    (hflush : e.millis ≤ fmillis) :
    Sound start le (b.shoot r cn e fmillis) ∧ Later fmillis b (b.shoot r cn e fmillis) := by
  unfold Battle.shoot
  dsimp only
  cases hgo : (arms r cn).refuses b.gamemillis e (b.info cn).gs with
  | true => exact ⟨hs, .refl b⟩
  | false =>
    rw [if_neg Bool.false_ne_true]
    obtain ⟨hfire, hlater⟩ := hs.fire hle hflush hgo
    unfold Arms.process Arms.processWith
    have hno : ¬(arms r cn).refuses b.gamemillis e ((arms r cn).shooter (b.post (.shotfx cn e.id
        e.gun e.millis fmillis ((b.info cn).gs.ammo e.gun.toInt)))) = true := by
      change ¬(arms r cn).refuses b.gamemillis e (b.info cn).gs = true
      rw [hgo]
      exact Bool.false_ne_true
    rw [if_neg hno]
    dsimp only
    split
    · exact ⟨hfire, hlater⟩
    · exact Sound.volley e.hits hfire hlater

/-! ## Explosions -/

/-- A projectile that is removed was there. -/
theorem remove_perm {ps ps' : List Int32} {val : Int32} (h : remove ps val = some ps') :
    ps.Perm (val :: ps') := by
  unfold remove at h
  obtain ⟨i, hi, rfl⟩ := Option.map_eq_some_iff.mp h
  obtain ⟨hlt, hval, -⟩ := List.findIdx?_eq_some_iff_getElem.mp hi
  rw [beq_iff_eq] at hval
  obtain ⟨l₁, l₂, rfl, rfl⟩ : ∃ l₁ l₂, ps = l₁ ++ val :: l₂ ∧ l₁.length = i := by
    refine ⟨ps.take i, ps.drop (i + 1), ?_, List.length_take_of_le hlt.le⟩
    rw [← hval, List.getElem_cons_drop, List.take_append_drop]
  rw [List.set_append_right _ _ (le_refl _), Nat.sub_self, List.set_cons_zero]
  obtain rfl | ⟨l₂, z, rfl⟩ := l₂.eq_nil_or_concat
  · simp
  · have hlast : (l₁ ++ val :: l₂.concat z).getLastD val = z := by
      rw [List.concat_eq_append, ← List.cons_append, ← List.append_assoc, List.getLastD_concat]
    have hdrop : (l₁ ++ z :: l₂.concat z).dropLast = l₁ ++ z :: l₂ := by
      rw [List.concat_eq_append, ← List.cons_append, ← List.append_assoc, List.dropLast_concat]
    rw [hlast, hdrop, List.concat_eq_append]
    have hmove : (l₁ ++ val :: (l₂ ++ [z])).Perm (val :: (l₁ ++ (l₂ ++ [z]))) := List.perm_middle
    refine hmove.trans (List.Perm.cons val ?_)
    refine List.Perm.append_left l₁ ?_
    exact List.perm_append_comm

/-- **What explodes** was fired. -/
theorem takeprojectile_spec {e : Explosion} {gs gs' : Shooter}
    (h : takeprojectile e gs = some gs') (gun : Int) (id : Int32) :
    (projs gun gs').count id + (if e.gun.toInt = gun ∧ e.id = id then 1 else 0) =
      (projs gun gs).count id := by
  have hcount : ∀ {ps ps' : List Int32}, remove ps e.id = some ps' →
      ps'.count id + (if e.id = id then 1 else 0) = ps.count id := by
    intro ps ps' hremove
    rw [(remove_perm hremove).count_eq, List.count_cons]
    simp only [beq_iff_eq]
  unfold takeprojectile at h
  unfold projs
  by_cases hrl : e.gun.toInt = GUN_RL
  · rw [if_pos hrl] at h
    obtain ⟨rockets, hremove, rfl⟩ := Option.map_eq_some_iff.mp h
    rw [hrl]
    by_cases hgun : gun = GUN_RL
    · simpa [hgun] using hcount hremove
    · simp [hgun, Ne.symm hgun]
  · rw [if_neg hrl] at h
    by_cases hgl : e.gun.toInt = GUN_GL
    · rw [if_pos hgl] at h
      obtain ⟨grenades, hremove, rfl⟩ := Option.map_eq_some_iff.mp h
      rw [hgl]
      by_cases hgun : gun = GUN_GL
      · subst hgun
        have hne : ¬GUN_GL = GUN_RL := by decide
        simpa [hne] using hcount hremove
      · simp [hgun, Ne.symm hgun]
    · rw [if_neg hgl] at h
      cases h

/-- **The hits of an explosion**: no target is struck twice. -/
theorem Sound.blast {b₀ : Battle} {e : Explosion} (hits : List Hit) : ∀ {v : Blast},
    Sound start le v.world → Later fmillis b₀ v.world →
      Sound start le (hits.foldl (Blast.hit r cn e) v).world ∧
        Later fmillis b₀ (hits.foldl (Blast.hit r cn e) v).world := by
  induction hits with
  | nil => exact fun hs hl => ⟨hs, hl⟩
  | cons h hits ih =>
    intro v hs hl
    rw [List.foldl_cons]
    cases hreach : v.world.reaches e h && decide (h.target ∉ v.seen) with
    | false =>
      have heq : Blast.hit r cn e v h = { v with seen := v.seen ++ [h.target] } := by
        rw [Blast.hit, hreach, if_neg Bool.false_ne_true]
      rw [heq]
      exact ih hs hl
    | true =>
      obtain ⟨seen, struck, heq⟩ : ∃ seen struck,
          Blast.hit r cn e v h = ⟨v.world.burn r cn e h, seen, struck⟩ := by
        rw [Blast.hit, hreach, if_pos rfl]
        exact ⟨_, _, rfl⟩
      have halive : (v.world.info h.target).gs.state = .alive := by
        unfold Battle.reaches at hreach
        simp only [Bool.and_eq_true, decide_eq_true_eq] at hreach
        exact hreach.1.1.1.1.2
      have hstruck : Sound start le (v.world.burn r cn e h) ∧
          Later fmillis v.world (v.world.burn r cn e h) :=
        hs.dodamage halive _ _ _
      rw [heq]
      exact ih hstruck.1 (hl.trans hstruck.2)

/-- **`explodeevent::process(ci)`.** -/
theorem Sound.explode (hs : Sound start le b) {e : Explosion} (hle : le cn = e.millis)
    (hflush : e.millis ≤ fmillis) :
    Sound start le (b.explode r cn e fmillis) ∧ Later fmillis b (b.explode r cn e fmillis) := by
  unfold Battle.explode
  cases htake : takeprojectile e (b.info cn).gs with
  | none => exact ⟨hs, .refl b⟩
  | some gs =>
    dsimp only
    have hcounts := takeprojectile_spec htake
    obtain ⟨hstate, hshot, hwait⟩ : gs.state = (b.info cn).gs.state ∧
        gs.lastshot = (b.info cn).gs.lastshot ∧ gs.gunwait = (b.info cn).gs.gunwait := by
      unfold takeprojectile at htake
      split_ifs at htake
      · obtain ⟨ps, -, rfl⟩ := Option.map_eq_some_iff.mp htake
        exact ⟨rfl, rfl, rfl⟩
      · obtain ⟨ps, -, rfl⟩ := Option.map_eq_some_iff.mp htake
        exact ⟨rfl, rfl, rfl⟩
    have hother : ∀ cn' ≠ cn,
        (∀ s, follow cn' s (.explodefx cn e.id e.gun e.millis fmillis) = some s) ∧
        ∀ gun id, exploded cn' gun id [.explodefx cn e.id e.gun e.millis fmillis] = 0 := by
      intro cn' hcn
      refine ⟨fun s => ?_, fun gun id => ?_⟩
      · simp only [follow, ne_eq, Ne.symm hcn, not_false_eq_true, if_true]
      · simp [exploded_one, Ne.symm hcn]
    have hflushed : ∀ t ∈ Note.flushed (.explodefx cn e.id e.gun e.millis fmillis),
        t = fmillis := by
      simp [Note.flushed]
    obtain ⟨haccept, hlater⟩ := hs.accept hflushed hstate hother (fun s hlast htime => by
      refine ⟨{ s with time := e.millis }, ?_, rfl, fun x hx => ?_, hle.ge⟩
      · simp only [follow, ne_eq, not_true_eq_false, if_false]
        rw [if_pos ⟨hle ▸ htime, hflush⟩]
      · rw [hshot, hwait]
        exact hlast x hx) fun gun id => by
      have hone : exploded cn gun id [.explodefx cn e.id e.gun e.millis fmillis] =
          if e.gun.toInt = gun ∧ e.id = id then 1 else 0 := by
        simp [exploded_one]
      rw [hone, hcounts gun id]
      exact Nat.le_add_right ..
    exact Sound.blast e.hits haccept hlater

/-! ## Suicides and spawns -/

theorem marks_neutral {cn : Int32} {gun : Int} {id : Int32} {ns : List Note}
    (hns : ∀ n ∈ ns, exploded cn gun id [n] = 0) : exploded cn gun id ns = 0 := by
  induction ns with
  | nil => rfl
  | cons n ns ih =>
    obtain ⟨hn, hrest⟩ := List.forall_mem_cons.mp hns
    have hsplit := exploded_append cn gun id [n] ns
    rw [hn, ih hrest] at hsplit
    exact hsplit

variable (cn b') in
/-- **One client is changed** in what is no shot and no explosion. -/
theorem Sound.change (hs : Sound start le b) (ns : List Note) (hlog : b'.log = b.log ++ ns)
    (hmillis : b'.gamemillis = b.gamemillis) (hothers : ∀ cn' ≠ cn, b'.info cn' = b.info cn')
    (hprojs : ∀ gun, Combat.projs gun (b'.info cn).gs = Combat.projs gun (b.info cn).gs)
    (hns : ∀ n ∈ ns, ∀ cn' gun id, exploded cn' gun id [n] = 0)
    (halive : (b'.info cn).gs.state = .alive → 0 < (b'.info cn).health)
    (hdead : (b'.info cn).gs.state = .dead → (b'.info cn).deadflush = 0 → 0 < (b'.info cn).health)
    (hspawns : 0 ≤ (b'.info cn).lastspawn →
      0 < (b'.info cn).health ∧ (b'.info cn).gs.state ≠ .alive)
    (hother : ∀ cn' ≠ cn, ∀ s, ns.foldlM (follow cn') s = some s)
    (hself : ∀ s : Record, (s.alive = true ↔ (b.info cn).gs.state = .alive) →
      (∀ x ∈ s.last, (b.info cn).gs.lastshot = x.1 ∧ (b.info cn).gs.gunwait = x.2) →
        ∃ s', ns.foldlM (follow cn) s = some s' ∧
          (s'.alive = true ↔ (b'.info cn).gs.state = .alive) ∧
          (∀ x ∈ s'.last, (b'.info cn).gs.lastshot = x.1 ∧ (b'.info cn).gs.gunwait = x.2) ∧
          s'.time = s.time) : Sound start le b' := by
  have hcase : ∀ (P : Int32 → Prop), P cn → (∀ cn' ≠ cn, P cn') → ∀ cn', P cn' := by
    intro P hcn hne cn'
    by_cases heq : cn' = cn
    · exact heq ▸ hcn
    · exact hne cn' heq
  refine ⟨hs.grow hlog, hmillis ▸ hs.millis, hs.nonneg, hcase _ halive fun cn' hcn => ?_,
    hcase _ hdead fun cn' hcn => ?_, hcase _ hspawns fun cn' hcn => ?_,
    hcase _ ?_ fun cn' hcn => ?_, fun cn' gun id => ?_⟩
  · rw [hothers cn' hcn]
    exact hs.alive cn'
  · rw [hothers cn' hcn]
    exact hs.dead cn'
  · rw [hothers cn' hcn]
    exact hs.spawns cn'
  · obtain ⟨s, hfollowed, halive', hlast, htime⟩ := hs.followed cn
    obtain ⟨s', hfollow, halive'', hlast', htime'⟩ := hself s halive' hlast
    exact ⟨s', followed_append hfollowed hlog hfollow, halive'', hlast', htime' ▸ htime⟩
  · obtain ⟨s, hfollowed, halive', hlast, htime⟩ := hs.followed cn'
    refine ⟨s, followed_append hfollowed hlog (hother cn' hcn s), ?_, ?_, htime⟩
    · rw [hothers cn' hcn]
      exact halive'
    · rw [hothers cn' hcn]
      exact hlast
  · have hsame : Combat.projs gun (b'.info cn').gs = Combat.projs gun (b.info cn').gs :=
      hcase (fun cn' => Combat.projs gun (b'.info cn').gs = Combat.projs gun (b.info cn').gs)
        (hprojs gun) (fun cn' hcn => by rw [hothers cn' hcn]) cn'
    have hbefore := hs.projs cn' gun id
    have hnone := marks_neutral fun n hn => hns n hn cn' gun id
    rw [hlog, fired_append, exploded_append, hsame, hnone]
    omega

/-- **`suicide(ci)`.** -/
theorem Sound.suicide (hs : Sound start le b) (cn : Int32) :
    Sound start le (b.suicide r cn) ∧ Later fmillis b (b.suicide r cn) := by
  by_cases halive : (b.info cn).gs.state = .alive
  · obtain ⟨⟨frags, tfrags, hlog⟩, hclients, hmillis, hothers, hgs, hhealth, hflush, hlife⟩ :=
      suicide_spec (r := r) cn halive
    generalize b.suicide r cn = b' at hlog hclients hmillis hothers hgs hhealth hflush hlife
    have hspawn : (b'.info cn).lastspawn = -1 := congrArg Prod.fst hlife
    have hdead : (b'.info cn).gs.state = .dead := by rw [hgs]
    have hmode (cn' : Int32) (s : Record) :
        (if r.smode then [Note.modedied cn none] else []).foldlM (follow cn') s = some s := by
      cases r.smode <;> rfl
    have hns : ∀ n ∈ Note.died cn cn frags tfrags :: ((if r.smode then [Note.modedied cn none]
        else []) ++ [Note.respawned cn]),
        n.flushed = none ∧ ∀ cn' gun id, exploded cn' gun id [n] = 0 := by
      intro n hn
      simp only [List.mem_cons, List.mem_append, List.not_mem_nil, or_false] at hn
      obtain rfl | hn | rfl := hn
      · exact ⟨rfl, fun _ _ _ => rfl⟩
      · split at hn
        · obtain rfl := List.mem_singleton.mp hn
          exact ⟨rfl, fun _ _ _ => rfl⟩
        · cases hn
      · exact ⟨rfl, fun _ _ _ => rfl⟩
    refine ⟨hs.change cn b' _ hlog hmillis hothers (fun gun => by rw [hgs]; rfl)
      (fun n hn cn' gun id => ?_) (fun h => ?_) (fun _ _ => by rw [hhealth]; decide) (fun h => ?_)
      (fun cn' hcn s => ?_) (fun s hyes _ => ?_), ⟨hclients, hmillis, fun cn' hcn => ?_,
        _, hlog, fun n hn => ?_⟩⟩
    · exact (hns n hn).2 cn' gun id
    · rw [hdead] at h
      cases h
    · rw [hspawn] at h
      exact absurd h (by decide)
    · rw [List.foldlM_cons]
      simp only [follow, ne_eq, Ne.symm hcn, not_false_eq_true, if_true]
      change (_ : List Note).foldlM (follow cn') s = some s
      rw [List.foldlM_append, hmode]
      simp [follow, Ne.symm hcn]
    · refine ⟨{ s with alive := false, last := none }, ?_, ?_, nofun, rfl⟩
      · rw [List.foldlM_cons]
        simp only [follow, ne_eq, not_true_eq_false, if_false, hyes.mpr halive, if_true]
        change (_ : List Note).foldlM (follow cn) _ = _
        rw [List.foldlM_append, hmode]
        simp [follow]
      · rw [hdead]
        simp
    · by_cases heq : cn' = cn
      · exact heq ▸ halive
      · rwa [hothers cn' heq] at hcn
    · rw [(hns n hn).1]
      nofun
  · have hsame : b.suicide r cn = b := by
      unfold Battle.suicide
      exact if_pos halive
    rw [hsame]
    exact ⟨hs, .refl b⟩

variable (cn b') in
/-- A client is changed in what the log does not say. -/
theorem Sound.unseen (hs : Sound start le b) (hlog : b'.log = b.log)
    (hmillis : b'.gamemillis = b.gamemillis) (hothers : ∀ cn' ≠ cn, b'.info cn' = b.info cn')
    (hstate : (b'.info cn).gs.state = (b.info cn).gs.state)
    (hshot : (b'.info cn).gs.lastshot = (b.info cn).gs.lastshot)
    (hwait : (b'.info cn).gs.gunwait = (b.info cn).gs.gunwait)
    (hprojs : ∀ gun, Combat.projs gun (b'.info cn).gs = Combat.projs gun (b.info cn).gs)
    (halive : (b'.info cn).gs.state = .alive → 0 < (b'.info cn).health)
    (hdead : (b'.info cn).gs.state = .dead → (b'.info cn).deadflush = 0 → 0 < (b'.info cn).health)
    (hspawns : 0 ≤ (b'.info cn).lastspawn →
      0 < (b'.info cn).health ∧ (b'.info cn).gs.state ≠ .alive) : Sound start le b' := by
  refine hs.change cn b' [] (hlog.trans (List.append_nil _).symm) hmillis hothers hprojs nofun
    halive hdead hspawns (fun _ _ _ => rfl) fun s hyes hlast => ⟨s, rfl, ?_, ?_, rfl⟩
  · rw [hstate]
    exact hyes
  · rw [hshot, hwait]
    exact hlast

/-- **`respawn()`.** -/
theorem Sound.respawn (hs : Sound start le b) (cn : Int32) : Sound start le (b.respawn cn) := by
  obtain ⟨hlog, hothers, hgs, hhealth, hflush, hlife⟩ := respawn_spec (b := b) cn
  have hspawn : ((b.respawn cn).info cn).lastspawn = -1 := congrArg Prod.fst hlife
  have hstate : ((b.respawn cn).info cn).gs.state = (b.info cn).gs.state := by rw [hgs]
  have hpos : 0 < ((b.respawn cn).info cn).health := by
    rw [hhealth]
    decide
  refine hs.change cn (b.respawn cn) _ hlog rfl hothers (fun gun => by rw [hgs]; rfl) ?_ (fun _ => hpos)
    (fun _ _ => hpos) (fun h => ?_) (fun cn' hcn s => ?_) fun s hyes hlast => ?_
  · intro n hn cn' gun id
    obtain rfl := List.mem_singleton.mp hn
    rfl
  · rw [hspawn] at h
    exact absurd h (by decide)
  · simp [follow, Ne.symm hcn]
  · refine ⟨{ s with last := none }, ?_, ?_, nofun, rfl⟩
    · simp [follow]
    · rw [hstate]
      exact hyes

/-- The clients are as the log says with later times, too. -/
theorem Sound.mono {le' : Int32 → Int} (hs : Sound start le b) (hle : ∀ cn, le cn ≤ le' cn) :
    Sound start le' b := by
  refine ⟨hs.log, hs.millis, fun cn => (hs.nonneg cn).trans (hle cn), hs.alive, hs.dead, hs.spawns,
    fun cn => ?_, hs.projs⟩
  obtain ⟨s, hfollowed, halive, hlast, htime⟩ := hs.followed cn
  exact ⟨s, hfollowed, halive, hlast, htime.trans (hle cn)⟩

end

/-! ## The game -/

namespace Game

/-- The clients and their queues are as the log says. -/
def Fine (start : Battle) (g : Game) : Prop :=
  Sound start (fun cn => (g.queues cn).lastevent) g.battle

variable {start : Battle} {r : Rules} {cn : Int32} {g g' : Game} {fmillis : Int}

/-- Queues may change but for the times of the last events. -/
theorem Fine.updqueue (hg : g.Fine start) {f : Queue → Queue}
    (hf : ∀ q, (f q).lastevent = q.lastevent) :
    (g.updqueue cn f).Fine start := by
  have hsame : (fun cn' => ((g.updqueue cn f).queues cn').lastevent) =
      fun cn' => (g.queues cn').lastevent := by
    funext cn'
    unfold Game.updqueue
    dsimp only
    by_cases hcn : cn' = cn
    · rw [hcn, Function.update_self, hf]
    · rw [Function.update_of_ne hcn]
  unfold Fine
  rw [hsame]
  exact hg

/-- The time of the last event of a client is later. -/
theorem Fine.advance (hg : g.Fine start) {millis : Int} (hle : (g.queues cn).lastevent ≤ millis) :
    (g.updqueue cn fun q => { q with lastevent := millis }).Fine start := by
  refine Sound.mono hg fun cn' => ?_
  unfold Game.updqueue
  dsimp only
  by_cases hcn : cn' = cn
  · rw [hcn, Function.update_self]
    exact hle
  · rw [Function.update_of_ne hcn]

/-- **An event is flushed.** -/
theorem Fine.flush (hg : g.Fine start) {e : Event} (h : g.flush r cn fmillis e = some g') :
    g'.Fine start ∧ Later fmillis g.battle g'.battle := by
  unfold Game.flush at h
  cases e with
  | suicide =>
    obtain rfl := Option.some.inj h
    exact Sound.suicide hg cn
  | shot e =>
    dsimp only [Event.millis] at h
    split_ifs at h with hwait hlast
    · obtain rfl := Option.some.inj h
      have hs := hg.advance hlast
      exact hs.shoot (by simp [Game.updqueue]) (not_lt.mp hwait)
    · obtain rfl := Option.some.inj h
      exact ⟨hg, .refl _⟩
  | explode e =>
    dsimp only [Event.millis] at h
    split_ifs at h with hwait hlast
    · obtain rfl := Option.some.inj h
      have hs := hg.advance hlast
      exact hs.explode (by simp [Game.updqueue]) (not_lt.mp hwait)
    · obtain rfl := Option.some.inj h
      exact ⟨hg, .refl _⟩

variable (cn fmillis) in
/-- The loop of `flushevents`. -/
theorem Fine.flushfrom (es : List Event) : ∀ {g : Game}, g.Fine start →
    (Game.flushfrom r cn fmillis es g).2.Fine start ∧
      Later fmillis g.battle (Game.flushfrom r cn fmillis es g).2.battle := by
  induction es with
  | nil => exact fun hg => ⟨hg, .refl _⟩
  | cons e es ih =>
    intro g hg
    unfold Game.flushfrom
    cases hflush : g.flush r cn fmillis e with
    | none => exact ⟨hg, .refl _⟩
    | some g' =>
      obtain ⟨hg', hlater⟩ := hg.flush hflush
      obtain ⟨hfine, hlater'⟩ := ih hg'
      exact ⟨hfine, hlater.trans hlater'⟩

/-- **`flushevents(ci, millis)`.** -/
theorem Fine.flushevents (hg : g.Fine start) (cn : Int32) (fmillis : Int) :
    (g.flushevents r cn fmillis).Fine start ∧
      Later fmillis g.battle (g.flushevents r cn fmillis).battle := by
  obtain ⟨hfine, hlater⟩ := Fine.flushfrom cn fmillis (r := r)
    (g.queues cn).events hg
  generalize hrun : Game.flushfrom r cn fmillis (g.queues cn).events g = x at hfine hlater
  have heq : g.flushevents r cn fmillis = x.2.updqueue cn fun q => { q with events := x.1 } := by
    unfold Game.flushevents
    rw [hrun]
  rw [heq]
  exact ⟨hfine.updqueue fun _ => rfl, hlater⟩

/-- A client in the loop of `processevents`. -/
theorem Fine.processevent (hg : g.Fine start) (curtime : Nat) (cn : Int32) :
    (g.processevent r curtime cn).Fine start ∧
      Later g.battle.gamemillis (g.battle.upd cn (Fighter.elapse curtime))
        (g.processevent r curtime cn).battle := by
  unfold Game.processevent
  refine Fine.flushevents ?_ cn _
  have hothers : ∀ cn' ≠ cn, (g.battle.upd cn (Fighter.elapse curtime)).info cn' =
      g.battle.info cn' := fun cn' hcn => Battle.upd_info_of_ne hcn
  have hself : (g.battle.upd cn (Fighter.elapse curtime)).info cn =
      (g.battle.info cn).elapse curtime := Battle.upd_info_self
  refine Sound.unseen cn (g.battle.upd cn (Fighter.elapse curtime)) hg rfl rfl
    hothers ?_ ?_ ?_ ?_ ?_ ?_ ?_
  all_goals rw [hself]; unfold Fighter.elapse; split
  all_goals first | rfl | exact fun _ => rfl | skip
  · exact hg.alive cn
  · exact hg.alive cn
  · exact hg.dead cn
  · exact hg.dead cn
  · exact hg.spawns cn
  · exact hg.spawns cn

/-- **`processevents()`.** -/
theorem Fine.processevents (hg : g.Fine start) (curtime : Nat) :
    (g.processevents r curtime).Fine start ∧
      Flushes g.battle.gamemillis g.battle (g.processevents r curtime).battle := by
  unfold Game.processevents
  generalize g.battle.clients = cns
  induction cns generalizing g with
  | nil => exact ⟨hg, .of_eq rfl⟩
  | cons cn cns ih =>
    obtain ⟨hfine, hlater⟩ := hg.processevent (r := r) curtime cn
    obtain ⟨hrest, hflushes⟩ := ih hfine
    have hmillis : (g.processevent r curtime cn).battle.gamemillis = g.battle.gamemillis :=
      hlater.gamemillis
    rw [hmillis] at hflushes
    have hfirst : Flushes g.battle.gamemillis g.battle (g.processevent r curtime cn).battle :=
      hlater.log
    exact ⟨hrest, hfirst.trans hflushes⟩

theorem geteventmillis_lastevent (q : Queue) (servmillis : Int) (clientmillis : Int32)
    (gs : Shooter) : (q.geteventmillis servmillis clientmillis gs).2.lastevent = q.lastevent := by
  unfold Queue.geteventmillis
  split <;> rfl

theorem addevent_lastevent (q : Queue) (state : CState) (e : Event) :
    (q.addevent state e).lastevent = q.lastevent := by
  unfold Queue.addevent
  split <;> rfl

theorem Fine.addtimed (hg : g.Fine start) (cn : Int32) (clientmillis : Int32) (e : Int → Event) :
    (g.addtimed cn clientmillis e).Fine start := by
  unfold Game.addtimed
  refine hg.updqueue fun q => ?_
  dsimp only
  rw [addevent_lastevent, geteventmillis_lastevent]

/-- **`sendspawn(ci)`** of one who is not alive and has health. -/
theorem Fine.sendspawn (hg : g.Fine start) (hno : (g.battle.info cn).gs.state ≠ .alive)
    (hpos : 0 < (g.battle.info cn).health) (loadout : Loadout) :
    (g.sendspawn cn loadout).Fine start := by
  have hhealth : 0 < if loadout.insta then 1 else (g.battle.info cn).health := by
    split
    · decide
    · exact hpos
  unfold Game.sendspawn
  generalize hf : (fun f : Fighter => { f with
    health := if loadout.insta then 1 else f.health
    armour := loadout.armour
    armourtype := loadout.armourtype
    gs := { f.gs with ammo := fun n => (loadout.ammo n).getD (f.gs.ammo n) }
    lifesequence := (f.lifesequence + 1) % 128
    lastspawn := g.battle.gamemillis }) = f
  have hothers : ∀ cn' ≠ cn, (g.battle.upd cn f).info cn' = g.battle.info cn' := fun cn' hcn =>
    Battle.upd_info_of_ne hcn
  have hself : (g.battle.upd cn f).info cn = f (g.battle.info cn) := Battle.upd_info_self
  refine Sound.unseen cn (g.battle.upd cn f) hg rfl rfl hothers ?_ ?_ ?_ ?_ ?_ ?_ ?_
  all_goals rw [hself, ← hf]
  · exact fun _ => rfl
  · exact fun _ => hhealth
  · exact fun _ _ => hhealth
  · exact fun _ => ⟨hhealth, hno⟩

/-- **`N_TRYSPAWN`.** -/
theorem Fine.tryspawn (hg : g.Fine start) (loadout : Loadout) :
    (g.tryspawn r cn loadout).Fine start ∧
      Flushes (g.battle.info cn).deadflush g.battle (g.tryspawn r cn loadout).battle := by
  unfold Game.tryspawn
  dsimp only
  by_cases hdead : (g.battle.info cn).gs.state = .dead ∧ ¬0 ≤ (g.battle.info cn).lastspawn
  · have hno : (g.battle.info cn).gs.state ≠ .alive := by
      rw [hdead.1]
      decide
    rw [if_neg (by simpa using hdead)]
    split
    · obtain ⟨hflushed, hlater⟩ := hg.flushevents (r := r) cn (g.battle.info cn).deadflush
      generalize g.flushevents r cn (g.battle.info cn).deadflush = g' at hflushed hlater
      have hrespawned : Fine start { g' with battle := g'.battle.respawn cn } :=
        Sound.respawn hflushed cn
      obtain ⟨-, -, hgs, hhealth, -⟩ := respawn_spec (b := g'.battle) cn
      refine ⟨Fine.sendspawn (hrespawned.updqueue (f := Queue.cleartimedevents) fun _ => rfl) ?_ ?_
        loadout, hlater.log.trans (.one rfl nofun)⟩
      · change ((g'.battle.respawn cn).info cn).gs.state ≠ .alive
        rw [hgs]
        exact fun halive => hno (hlater.alive cn halive)
      · change 0 < ((g'.battle.respawn cn).info cn).health
        rw [hhealth]
        decide
    · next hflush =>
      rw [not_not] at hflush
      exact ⟨Fine.sendspawn (hg.updqueue (f := Queue.cleartimedevents) fun _ => rfl) hno
        (hg.dead cn hdead.1 hflush) loadout, .of_eq rfl⟩
  · rw [if_pos (by
      by_contra hor
      exact hdead (not_or.mp hor |>.imp not_not.mp id))]
    exact ⟨hg, .of_eq rfl⟩

/-- **`N_SPAWN`.** -/
theorem Fine.spawn (hg : g.Fine start) (ls : Int) :
    (g.spawn cn ls).Fine start ∧ Flushes fmillis g.battle (g.spawn cn ls).battle := by
  unfold Game.spawn
  dsimp only
  split
  · next hok =>
    obtain ⟨-, -, hspawn⟩ := hok
    obtain ⟨hpos, hno⟩ := hg.spawns cn hspawn
    generalize hf : (fun f : Fighter => { f with
      lastspawn := -1, gs := { f.gs with state := .alive } }) = f
    have hothers : ∀ cn' ≠ cn, ((g.battle.upd cn f).post (.spawned cn)).info cn' =
        g.battle.info cn' := fun cn' hcn => Battle.upd_info_of_ne hcn
    have hself : ((g.battle.upd cn f).post (.spawned cn)).info cn = f (g.battle.info cn) :=
      Battle.upd_info_self
    refine ⟨Sound.change cn _ hg [.spawned cn] rfl rfl hothers ?_ ?_ ?_ ?_ ?_ ?_ ?_,
      .one rfl nofun⟩
    · rw [hself, ← hf]
      exact fun _ => rfl
    · intro n hn cn' gun id
      obtain rfl := List.mem_singleton.mp hn
      rfl
    · rw [hself, ← hf]
      exact fun _ => hpos
    · rw [hself, ← hf]
      exact fun _ _ => hpos
    · rw [hself, ← hf]
      intro h
      change (0 : Int) ≤ -1 at h
      exact absurd h (by decide)
    · intro cn' hcn s
      simp [follow, Ne.symm hcn]
    · intro s _ hlast
      refine ⟨{ s with alive := true }, by simp [follow], ?_, ?_, rfl⟩
      · rw [hself, ← hf]
        simp
      · rw [hself, ← hf]
        exact hlast
  · exact ⟨hg, .of_eq rfl⟩

/-- **A message.** -/
theorem Fine.receive (hg : g.Fine start) (m : Message) :
    (g.receive r cn m).Fine start ∧
      Flushes (g.battle.info cn).deadflush g.battle (g.receive r cn m).battle := by
  cases m with
  | shoot id gun start finish hits =>
    have hadded := Fine.addtimed hg cn id fun millis =>
      .shot ⟨id, millis, gun, start, finish, hits⟩
    exact ⟨hadded, .of_eq rfl⟩
  | explode cmillis gun id hits =>
    have hadded := Fine.addtimed hg cn cmillis fun millis =>
      .explode ⟨id, millis, gun, hits⟩
    exact ⟨hadded, .of_eq rfl⟩
  | suicide => exact ⟨hg.updqueue fun q => addevent_lastevent q _ _, .of_eq rfl⟩
  | tryspawn canspawn loadout =>
    cases canspawn with
    | false => exact ⟨hg, .of_eq rfl⟩
    | true => exact hg.tryspawn loadout
  | spawn ls => exact hg.spawn ls
  | moved hasx =>
    have hothers : ∀ cn' ≠ cn, (g.battle.upd cn fun f => { f with hasx }).info cn' =
        g.battle.info cn' := fun cn' hcn => Battle.upd_info_of_ne hcn
    have hself : (g.battle.upd cn fun f => { f with hasx }).info cn =
        { g.battle.info cn with hasx } := Battle.upd_info_self
    refine ⟨Sound.unseen cn (g.battle.upd cn fun f => { f with hasx }) hg rfl rfl
      hothers ?_ ?_ ?_ ?_ ?_ ?_ ?_, .of_eq rfl⟩
    all_goals rw [hself]
    · exact fun _ => rfl
    · exact hg.alive cn
    · exact hg.dead cn
    · exact hg.spawns cn

/-- **One input.** -/
theorem Fine.next (hg : g.Fine start) (i : Input) :
    (g.next r i).Fine start ∧ Flushes (g.flushtime i) g.battle (g.next r i).battle := by
  cases i with
  | message cn m =>
    change Fine start (if cn ∈ g.battle.clients then g.receive r cn m else g) ∧
      Flushes _ _ (if cn ∈ g.battle.clients then g.receive r cn m else g).battle
    split
    · exact hg.receive m
    · exact ⟨hg, .of_eq rfl⟩
  | serverupdate curtime processes =>
    let b := { g.battle with
      gamemillis := g.battle.gamemillis + curtime, totalmillis := g.battle.totalmillis + curtime }
    let g' := { g with battle := b }
    have hlater : Fine start g' :=
      { log := hg.log
        millis := Int.add_nonneg hg.millis (Int.natCast_nonneg curtime)
        nonneg := hg.nonneg
        alive := hg.alive
        dead := hg.dead
        spawns := hg.spawns
        followed := hg.followed
        projs := hg.projs }
    change Fine start (if processes then g'.processevents r curtime else g') ∧
      Flushes g'.battle.gamemillis g'.battle
        (if processes then g'.processevents r curtime else g').battle
    split
    · exact hlater.processevents curtime
    · exact ⟨hlater, .of_eq rfl⟩

end Game

/-! ## What a log that is followed says -/

/-- The client of a note that `follow` looks at. -/
def Note.client : Note → Option Int32
  | .shotfx cn .. | .explodefx cn .. | .died cn .. | .respawned cn | .spawned cn => some cn
  | _ => none

/-- The time of a shot or an explosion of a client. -/
def Note.accepted (cn : Int32) : Note → Option Int
  | .shotfx cn' _ _ millis _ _ => if cn' = cn then some millis else none
  | .explodefx cn' _ _ millis _ => if cn' = cn then some millis else none
  | _ => none

/-- What a note of a log that is followed can do. -/
inductive Follows (cn : Int32) (s : Record) : Note → Record → Prop where
  | shot {id gun : Int32} {millis fmillis ammo : Int} (htime : s.time ≤ millis)
      (hflush : millis ≤ fmillis) (hammo : 0 < ammo) (hlast : ∀ x ∈ s.last, x.1 + x.2 ≤ millis) :
      Follows cn s (.shotfx cn id gun millis fmillis ammo)
        { s with last := some (millis, (guninfo gun.toInt).attackdelay), time := millis }
  | explosion {id gun : Int32} {millis fmillis : Int} (htime : s.time ≤ millis)
      (hflush : millis ≤ fmillis) :
      Follows cn s (.explodefx cn id gun millis fmillis) { s with time := millis }
  | died {actor : Int32} {frags tfrags : Int} (halive : s.alive = true) :
      Follows cn s (.died cn actor frags tfrags) { s with alive := false }
  | respawned : Follows cn s (.respawned cn) { s with last := none }
  | spawned : Follows cn s (.spawned cn) { s with alive := true }
  | other {n : Note} (hn : n.client ≠ some cn) : Follows cn s n s

section

variable {cn : Int32} {l l₁ l₂ : List Note} {s s' : Record} {n : Note}

theorem follow_cases (h : follow cn s n = some s') : Follows cn s n s' := by
  by_cases hcn : n.client = some cn
  · cases n with
    | shotfx cn' id gun millis fmillis ammo =>
      obtain rfl := Option.some.inj hcn
      simp only [follow, ne_eq, not_true_eq_false, if_false] at h
      split at h
      · next hok =>
        obtain rfl := Option.some.inj h
        exact .shot hok.1 hok.2.1 hok.2.2.1 hok.2.2.2
      · cases h
    | explodefx cn' id gun millis fmillis =>
      obtain rfl := Option.some.inj hcn
      simp only [follow, ne_eq, not_true_eq_false, if_false] at h
      split at h
      · next hok =>
        obtain rfl := Option.some.inj h
        exact .explosion hok.1 hok.2
      · cases h
    | died target actor frags tfrags =>
      obtain rfl := Option.some.inj hcn
      simp only [follow, ne_eq, not_true_eq_false, if_false] at h
      split at h
      · next halive =>
        obtain rfl := Option.some.inj h
        exact .died halive
      · cases h
    | respawned cn' =>
      obtain rfl := Option.some.inj hcn
      simp only [follow, if_true, Option.some.injEq] at h
      exact h ▸ .respawned
    | spawned cn' =>
      obtain rfl := Option.some.inj hcn
      simp only [follow, if_true, Option.some.injEq] at h
      exact h ▸ .spawned
    | _ => cases hcn
  · have hsame : follow cn s n = some s := by
      cases n with
      | shotfx cn' => exact if_pos fun heq => hcn (congrArg some heq)
      | explodefx cn' => exact if_pos fun heq => hcn (congrArg some heq)
      | died cn' => exact if_pos fun heq => hcn (congrArg some heq)
      | respawned cn' => exact congrArg some (if_neg fun heq => hcn (congrArg some heq))
      | spawned cn' => exact congrArg some (if_neg fun heq => hcn (congrArg some heq))
      | _ => rfl
    obtain rfl := Option.some.inj (hsame.symm.trans h)
    exact .other hcn

/-- A log that is followed is followed to each of its notes. -/
theorem followed_at (h : (l₁ ++ n :: l₂).foldlM (follow cn) s = some s') :
    ∃ s₁ s₂, l₁.foldlM (follow cn) s = some s₁ ∧ Follows cn s₁ n s₂ ∧
      l₂.foldlM (follow cn) s₂ = some s' := by
  rw [List.foldlM_append] at h
  obtain ⟨s₁, hs₁, h⟩ := Option.bind_eq_some_iff.mp h
  rw [List.foldlM_cons] at h
  obtain ⟨s₂, hs₂, h⟩ := Option.bind_eq_some_iff.mp h
  exact ⟨s₁, s₂, hs₁, follow_cases hs₂, h⟩

theorem accepted_other (h : n.client ≠ some cn) : n.accepted cn = none := by
  cases n with
  | shotfx cn' => exact if_neg fun heq => h (congrArg some heq)
  | explodefx cn' => exact if_neg fun heq => h (congrArg some heq)
  | _ => rfl

/-- The time of what was last accepted. -/
theorem Follows.time (h : Follows cn s n s') :
    s'.time = (n.accepted cn).getD s.time ∧ s.time ≤ s'.time := by
  cases h with
  | shot htime => simpa [Note.accepted] using htime
  | explosion htime => simpa [Note.accepted] using htime
  | other hn =>
    rw [accepted_other hn]
    exact ⟨rfl, le_rfl⟩
  | _ => exact ⟨rfl, le_rfl⟩

/-- **Who is alive** has come to life since he last died. -/
theorem followed_alive (h : l.foldlM (follow cn) {} = some s) (halive : s.alive = true) :
    ∃ l₁ l₂, l = l₁ ++ .spawned cn :: l₂ ∧
      ∀ actor frags tfrags, .died cn actor frags tfrags ∉ l₂ := by
  induction l using List.reverseRecOn generalizing s with
  | nil =>
    obtain rfl := Option.some.inj h
    cases halive
  | append_singleton l n ih =>
    obtain ⟨s₁, s₂, hl, hn, hnil⟩ := followed_at h
    obtain rfl := Option.some.inj hnil
    have hbefore (hyes : s₁.alive = true)
        (hn : ∀ actor frags tfrags, n ≠ .died cn actor frags tfrags) :
        ∃ l₁ l₂, l ++ [n] = l₁ ++ .spawned cn :: l₂ ∧
          ∀ actor frags tfrags, .died cn actor frags tfrags ∉ l₂ := by
      obtain ⟨l₁, l₂, rfl, hl₂⟩ := ih hl hyes
      refine ⟨l₁, l₂ ++ [n], by simp, fun actor frags tfrags hmem => ?_⟩
      obtain hmem | hmem := List.mem_append.mp hmem
      · exact hl₂ actor frags tfrags hmem
      · exact hn actor frags tfrags (List.mem_singleton.mp hmem).symm
    cases hn with
    | shot => exact hbefore halive nofun
    | explosion => exact hbefore halive nofun
    | died => cases halive
    | respawned => exact hbefore halive nofun
    | spawned => exact ⟨l, [], rfl, fun _ _ _ => List.not_mem_nil⟩
    | other hcn =>
      refine hbefore halive fun actor frags tfrags heq => hcn ?_
      rw [heq]
      rfl

end
/-! ## Runs -/

/-- **The game begins**: nothing has happened yet, nobody is alive, everybody has health, and there
are no projectiles. -/
structure Game.Fresh (g : Game) : Prop where
  log : g.battle.log = []
  millis : 0 ≤ g.battle.gamemillis
  dead : ∀ cn, (g.battle.info cn).gs.state ≠ .alive
  health : ∀ cn, 0 < (g.battle.info cn).health
  rockets : ∀ cn, (g.battle.info cn).gs.rockets = []
  grenades : ∀ cn, (g.battle.info cn).gs.grenades = []
  lastevent : ∀ cn, (g.queues cn).lastevent = 0

section

variable {r : Rules} {g g₀ g₁ g₂ : Game} {is is₁ is₂ : List Input} {start : Battle}

theorem Game.Fresh.projs (hg : g.Fresh) (cn : Int32) (gun : Int) :
    projs gun (g.battle.info cn).gs = [] := by
  unfold Combat.projs
  rw [hg.rockets, hg.grenades]
  split_ifs <;> rfl

theorem Game.Fresh.fine (hg : g.Fresh) : g.Fine g.battle where
  log := List.prefix_rfl
  millis := hg.millis
  nonneg cn := (hg.lastevent cn).ge
  alive cn h := absurd h (hg.dead cn)
  dead cn _ _ := hg.health cn
  spawns cn _ := ⟨hg.health cn, hg.dead cn⟩
  followed cn := by
    refine ⟨{}, by rw [hg.log]; rfl, ?_, nofun, (hg.lastevent cn).ge⟩
    simp [hg.dead cn]
  projs _ _ _ := le_rfl

/-- From any moment on. -/
theorem Game.Fine.restart (hg : g.Fine start) : g.Fine g.battle where
  log := List.prefix_rfl
  millis := hg.millis
  nonneg := hg.nonneg
  alive := hg.alive
  dead := hg.dead
  spawns := hg.spawns
  followed := hg.followed
  projs _ _ _ := le_rfl

/-- **A run** keeps the clients as the log says. -/
theorem Game.Fine.run (hg : g₁.Fine start) (hrun : Run.exec (Game.step r) g₁ is = .ok g₂) :
    g₂.Fine start := by
  refine Run.exec_history (fun _ g => g.Fine start) hg (fun _ g i g' _ hfine hstep => ?_) hrun
  unfold Game.step at hstep
  dsimp only at hstep
  split at hstep
  · obtain rfl := Except.ok.inj hstep
    exact (hfine.next i).1
  · cases hstep

end

/-- A client who is about to spawn. -/
def recruit : Fighter where
  ownernum := 0
  connected := true
  bot := false
  team := "good"
  hasx := true
  gs := { Arms.rifleman with state := .dead }
  health := 100
  maxhealth := 100
  armour := 0
  armourtype := 0
  lifesequence := 0
  lastspawn := 0
  deadflush := 0
  deaths := 0
  frags := 0
  teamkills := 0
  suicides := 0
  damage := 0
  gundamage _ := 0
  spreefrags := 0
  multifrags := 0
  lastfragmillis := 0

/-- Two clients, and the game begins. -/
def skirmish : Game where
  battle :=
    { clients := [0, 1], info := fun _ => recruit, teaminfos := [("good", 0)], gamemillis := 0
      totalmillis := 0, firstblood := false, log := [] }
  queues _ := {}

/-- A team game in which teammates heal each other. -/
def infirmary : Rules where
  teammode := true
  smode := false
  healteammates := true
  passflag := false
  friendlyfire := false
  nodamage := false
  healamount := 5
  multifragmillis := 1000
  rescale v := v
  toofar _ := false
  falloff _ _ damage := damage
  healamount_pos := by decide
  healamount_lt := by decide

theorem skirmish_fresh : skirmish.Fresh := by
  refine ⟨rfl, le_rfl, fun _ => ?_, fun _ => ?_, fun _ => rfl, fun _ => rfl, fun _ => rfl⟩
  · exact CState.noConfusion
  · change (0 : Int) < 100
    decide

/-- What the log of a run is. -/
theorem skirmish_log {is : List Input} {ns : List Note}
    (h : (Run.exec (Game.step infirmary) skirmish is).toOption.any
      fun g => decide (g.battle.log = ns)) :
    ∃ g, Run.exec (Game.step infirmary) skirmish is = .ok g ∧ g.battle.log = ns := by
  obtain ⟨g, hrun, hlog⟩ := Run.exec_of_any h
  exact ⟨g, hrun, of_decide_eq_true hlog⟩

/-- A rocket is fired, the client takes his life, and the rocket explodes in the next one. -/
def latecomer : List Input :=
  [.message 0 (.spawn 0), .serverupdate 1000 true, .message 0 (.shoot 1 3 (0, 0, 0) (0, 0, 0) []),
    .serverupdate 10 true, .message 0 .suicide, .serverupdate 10 true,
    .message 0 (.tryspawn true ⟨false, 0, 0, fun _ => some 10⟩), .message 0 (.spawn 1),
    .message 0 (.explode 900 3 1 []), .serverupdate 10 true]

theorem latecomer_log : ∃ g, Run.exec (Game.step infirmary) skirmish latecomer = .ok g ∧
    g.battle.log = [.spawned 0, .shotfx 0 1 3 1000 1010 10, .died 0 0 (-1) (-1), .respawned 0,
      .spawned 0, .explodefx 0 1 3 1020 1030] :=
  skirmish_log (by decide +kernel)

/-- A teammate is hit. -/
def treated : List Input :=
  [.message 0 (.spawn 0), .message 1 (.spawn 0), .serverupdate 2000 true,
    .message 0 (.shoot 1 4 (0, 0, 0) (0, 0, 0) [⟨1, 0, 16, 1, (0, 0, 0)⟩]), .serverupdate 10 true]

theorem treated_log : ∃ g, Run.exec (Game.step infirmary) skirmish treated = .ok g ∧
    g.battle.log = [.spawned 0, .spawned 1, .shotfx 0 1 4 2000 2010 10, .damage (some 1) [],
      .damage (some 1) [], .damage none [1, 0, 0, 0, 104]] :=
  skirmish_log (by decide +kernel)

section

variable {r : Rules} {g g₀ g₁ g₂ : Game} {is is₁ is₂ : List Input} {start : Battle}

/-- **An explosion strikes a target once.** -/
theorem blast_nodup (r : Rules) (cn : Int32) (e : Explosion) (b : Battle) :
    (blast r cn e b).struck.Nodup := by
  have hloop : ∀ (hits : List Hit) {v : Blast}, v.struck.Nodup → (∀ t ∈ v.struck, t ∈ v.seen) →
      (hits.foldl (Blast.hit r cn e) v).struck.Nodup := by
    intro hits
    induction hits with
    | nil => exact fun hv _ => hv
    | cons h hits ih =>
      intro v hv hseen
      rw [List.foldl_cons]
      by_cases hreach : (v.world.reaches e h && decide (h.target ∉ v.seen)) = true
      · have hnew : h.target ∉ v.seen := by
          rw [Bool.and_eq_true, decide_eq_true_eq] at hreach
          exact hreach.2
        rw [Blast.hit, if_pos hreach]
        refine ih ?_ fun t ht => ?_
        · refine List.nodup_append.mpr ⟨hv, List.nodup_singleton _, fun t ht t' ht' heq => ?_⟩
          rw [List.mem_singleton.mp ht'] at heq
          exact hnew (heq ▸ hseen t ht)
        · obtain ht | ht := List.mem_append.mp ht
          · exact List.mem_append_left _ (hseen t ht)
          · exact List.mem_append_right _ ht
      · rw [Blast.hit, if_neg hreach]
        exact ih hv fun t ht => List.mem_append_left _ (hseen t ht)
  exact hloop e.hits List.nodup_nil nofun

/-- What has exploded since the start was there or was fired. -/
theorem Sound.spent {le : Int32 → Int} {b : Battle} {ns : List Note} (hs : Sound start le b)
    (hlog : b.log = start.log ++ ns) (cn : Int32) (gun : Int) :
    (Combat.projs gun (b.info cn).gs ++ explosions cn gun ns).Subperm
      (Combat.projs gun (start.info cn).gs ++ shots cn gun ns) := by
  refine List.subperm_ext_iff.mpr fun id _ => ?_
  have hcount := hs.projs cn gun id
  rw [hlog, exploded_append, fired_append] at hcount
  unfold fired exploded at hcount
  rw [List.count_append, List.count_append]
  omega

/-- **Projectiles.**  Whatever a client sends, what explodes was fired: over the whole game the ids
that exploded are among those of the shots, each as often as it was fired at most, and from any
moment on among those that he had then and that were fired since; and an explosion strikes a target
once. -/
theorem projectiles_exact (hg : g₀.Fresh) (hrun₁ : Run.exec (Game.step r) g₀ is₁ = .ok g₁)
    (hrun₂ : Run.exec (Game.step r) g₁ is₂ = .ok g₂) (cn : Int32) (gun : Int) :
    (explosions cn gun g₁.battle.log).Subperm (shots cn gun g₁.battle.log) ∧
    (explosions cn gun g₁.battle.log).length ≤ (shots cn gun g₁.battle.log).length ∧
    (∃ ns, g₂.battle.log = g₁.battle.log ++ ns ∧
      (projs gun (g₂.battle.info cn).gs ++ explosions cn gun ns).Subperm
        (projs gun (g₁.battle.info cn).gs ++ shots cn gun ns)) ∧
    ∀ e b, (blast r cn e b).struck.Nodup := by
  have hfine := hg.fine.run hrun₁
  have hsince := hfine.restart.run hrun₂
  obtain ⟨ns, hns⟩ := hsince.log
  have hall : (explosions cn gun g₁.battle.log).Subperm (shots cn gun g₁.battle.log) := by
    have hspent := hfine.spent (by rw [hg.log]; rfl) cn gun
    rw [hg.projs, List.nil_append] at hspent
    exact (List.sublist_append_right _ _).subperm.trans hspent
  exact ⟨hall, hall.length_le, ⟨ns, hns.symm, hsince.spent hns.symm cn gun⟩,
    fun e b => blast_nodup r cn e b⟩

/-- A rocket that is fired in one life explodes in the next one. -/
theorem projectiles_exact_latecomer : ∃ g₁,
    Run.exec (Game.step infirmary) skirmish latecomer = .ok g₁ ∧
      (explosions 0 GUN_RL g₁.battle.log).Subperm (shots 0 GUN_RL g₁.battle.log) := by
  obtain ⟨g₁, hrun, -⟩ := latecomer_log
  have hnone : Run.exec (Game.step infirmary) g₁ [] = .ok g₁ := rfl
  exact ⟨g₁, hrun, (projectiles_exact skirmish_fresh hrun hnone 0 GUN_RL).1⟩

/-- **More explodes in a life than is fired in it.** -/
theorem rocket_outlives : ¬∀ (r : Rules) (g g₁ : Game) (is : List Input), g.Fresh →
    Run.exec (Game.step r) g is = .ok g₁ → ∀ cn gun l₁ l₂,
      g₁.battle.log = l₁ ++ .respawned cn :: l₂ → .respawned cn ∉ l₂ →
        (explosions cn gun l₂).length ≤ (shots cn gun l₂).length := by
  intro hall
  obtain ⟨g₁, hrun, hlog⟩ := latecomer_log
  have hle := hall infirmary skirmish g₁ latecomer skirmish_fresh hrun 0 GUN_RL
    [.spawned 0, .shotfx 0 1 3 1000 1010 10, .died 0 0 (-1) (-1)]
    [.spawned 0, .explodefx 0 1 3 1020 1030] hlog (by decide)
  exact absurd hle (by decide)

/-! ## Damage in a run -/

/-- **Damage.**  In every run who dies was alive: he has come to life since he last died.  Who is
alive has health, and of a hit of such a one all that the clients are told is so, healing leaves
nobody with more health than he can have, and he dies if his health is gone, with one death, one
`N_DIED`, the frags of the actor and his team and one call of the mode, if and only if no teammate
is healed, or he is a bot, damage is on and he lacks what he gets. -/
theorem damage_exact (hg : g.Fresh) (hrun : Run.exec (Game.step r) g is = .ok g₁) :
    (∀ cn actor frags tfrags l₁ l₂, g₁.battle.log = l₁ ++ .died cn actor frags tfrags :: l₂ →
      ∃ l l', l₁ = l ++ .spawned cn :: l' ∧
        ∀ actor frags tfrags, .died cn actor frags tfrags ∉ l') ∧
    (∀ target, (g₁.battle.info target).gs.state = .alive → 0 < (g₁.battle.info target).health) ∧
    ∀ (b : Battle) target actor damage gun hitpush, (b.info target).gs.state = .alive →
      0 < (b.info target).health →
      (Faithful r target actor b (b.dodamage r target actor damage gun hitpush) ↔
        (Heals r target actor b → (b.info target).bot = true ∧ r.nodamage = false ∧
          int32 ((b.info target).health + r.healamount) ≤
            max (b.info target).health (b.info target).maxhealth)) := by
  have hfine := hg.fine.run hrun
  refine ⟨fun cn actor frags tfrags l₁ l₂ hlog => ?_, hfine.alive,
    fun b target actor damage gun hitpush halive hpos =>
      dodamage_faithful_iff halive hpos damage gun hitpush⟩
  obtain ⟨s, hs, -⟩ := hfine.followed cn
  rw [hlog] at hs
  obtain ⟨s₁, s₂, hbefore, hdied, -⟩ := followed_at hs
  cases hdied with
  | died halive => exact followed_alive hbefore halive
  | other hn => exact absurd rfl hn

/-- A client is hit by a teammate. -/
theorem damage_exact_treated : ∃ g₁, Run.exec (Game.step infirmary) skirmish treated = .ok g₁ ∧
    ∀ target, (g₁.battle.info target).gs.state = .alive → 0 < (g₁.battle.info target).health := by
  obtain ⟨g₁, hrun, -⟩ := treated_log
  exact ⟨g₁, hrun, (damage_exact skirmish_fresh hrun).2.1⟩

/-- **What is sent to a teammate who is healed cannot be read.** -/
theorem healed_unread : ¬∀ (r : Rules) (g g₁ : Game) (is : List Input), g.Fresh →
    Run.exec (Game.step r) g is = .ok g₁ → ∀ me hud,
      ∃ hud', Hud.readall me hud g₁.battle.log = some hud' := by
  intro hall
  obtain ⟨g₁, hrun, hlog⟩ := treated_log
  obtain ⟨hud', hread⟩ := hall infirmary skirmish g₁ treated skirmish_fresh hrun 1 fun _ => (0, 100)
  have hnone : ∀ hud, Hud.read 1 hud (.damage (some 1) []) = none := fun _ => rfl
  have hspoilt := Hud.readall_spoilt hnone
    (fun _ => (0, 100)) [.spawned 0, .spawned 1, .shotfx 0 1 4 2000 2010 10]
    [.damage (some 1) [], .damage none [1, 0, 0, 0, 104]]
  rw [hlog] at hread
  cases hspoilt.symm.trans hread

end

end Combat

end QServ
