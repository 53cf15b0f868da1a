import QServ.Lib.Replica
import QServ.Match.Bases

/-!
# Bases at the clients

The messages `captureservmode` sends about its bases and scores, and `captureclientmode`, which
keeps a copy by them.

* `Capture.nextTold`: an event of the mode with what it sends; `nextTold_state` connects it with
  `Capture.next`.
* `CaptureClient.apply`: what a client does with a message.
* `Agree`: the copy has the owner, the enemy, the ammunition of an owned base and the progress on a
  contested one, and the scores of all teams.
* `bases_followed`: from its join on a client has them after every step of every run.
-/

namespace QServ

open Replica

/-- What is sent about bases: `N_MAPCHANGE` with the bases of the map, `N_BASES`, `N_BASEINFO` and
`N_BASESCORE`. -/
inductive CaptureMsg
  | mapchange (ammotypes : List Int)
  | bases (l : List (Int × String × String × Int × Int))
  | baseinfo (i : Nat) (owner enemy : String) (converted ammo : Int)
  | basescore (base : Int) (team : String) (total : Int)
deriving DecidableEq, Repr

/-! ## The client -/

/-- `captureclientmode::baseinfo`, as far as it comes from the server. -/
structure BaseView where
  owner : String := ""
  enemy : String := ""
  ammotype : Int := 0
  converted : Int := 0
  ammo : Int := 0
deriving DecidableEq, Repr

/-- `captureclientmode`. -/
structure CaptureClient where
  bases : List BaseView := []
  scores : List (String × Int) := []
deriving DecidableEq, Repr

/-- `getteamscore(team)`. -/
def getteamscore (scores : List (String × Int)) (team : String) : Int :=
  ((scores.find? fun cs => cs.1 = team).map Prod.snd).getD 0

namespace CaptureClient

variable (c : CaptureClient)

/-- `initbase(i, ammotype, owner, enemy, converted, ammo)`. -/
def initbase (i : Nat) (b : Int × String × String × Int × Int) : CaptureClient :=
  { c with bases := c.bases.modify i fun _ =>
      { ammotype := b.1, owner := b.2.1, enemy := b.2.2.1, converted := b.2.2.2.1,
        ammo := b.2.2.2.2 } }

/-- `initbase` for each of a list of bases, the first of which is the `i`th. -/
def initbases : CaptureClient → Nat → List (Int × String × String × Int × Int) → CaptureClient
  | c, _, [] => c
  | c, i, b :: l => initbases (c.initbase i b) (i + 1) l

/-- `updatebase(i, owner, enemy, converted, ammo)`. -/
def updatebase (i : Nat) (owner enemy : String) (converted ammo : Int) : CaptureClient :=
  { c with bases := c.bases.modify i fun b => { b with owner, enemy, converted, ammo } }

/-- A message; a new map is set up by `setup()`. -/
def apply : CaptureMsg → CaptureClient
  | .mapchange ammotypes => { bases := ammotypes.map fun ammotype => { ammotype } }
  | .bases l => c.initbases 0 l
  | .baseinfo i owner enemy converted ammo => c.updatebase i owner enemy converted ammo
  | .basescore _ team total => { c with scores := Capture.settotal team total c.scores }

end CaptureClient

/-! ## The server -/

namespace BaseInfo

variable (b : BaseInfo) (team : String)

/-- What `enter(team)` returns. -/
def enters : Bool := b.owner ≠ team && b.enemies = 0

/-- What `leave(team)` returns. -/
def leaves : Bool :=
  !(b.owner = team && 0 < b.owners) && b.enemy = team && 0 < b.enemies && b.enemies - 1 = 0

/-- What `takeammo(team)` returns. -/
def takesammo : Bool := b.owner = team && 0 < b.ammo

/-- What `takeammo(team)` leaves where it returns true. -/
def takeammo : BaseInfo := { b with ammo := b.ammo - 1 }

/-- The seconds that count for something every `secs` seconds, of the last `t`. -/
def ticks (secs t : Int) : Int := (b.capturetime + t).tdiv secs - (b.capturetime + t - t).tdiv secs

end BaseInfo

/-- `sendbaseinfo(i)`. -/
def sendbaseinfo (i : Nat) (b : BaseInfo) : CaptureMsg :=
  .baseinfo i b.owner b.enemy (if b.enemy ≠ "" then b.converted else 0)
    (if b.owner ≠ "" then b.ammo else 0)

/-- A base and the scores. -/
abbrev BaseScores := BaseInfo × List (String × Int)

/-- `loopv(bases)`, the first base being the `i`th. -/
def eachbase (f : Nat → BaseInfo → List (String × Int) → Told BaseScores CaptureMsg) :
    Nat → List BaseInfo → List (String × Int) →
      Told (List BaseInfo × List (String × Int)) CaptureMsg
  | _, [], scores => quiet ([], scores)
  | i, b :: bases, scores =>
    let r := f i b scores
    let rest := eachbase f (i + 1) bases r.state.2
    ⟨(r.state.1 :: rest.state.1, rest.state.2), r.sent ++ rest.sent⟩

namespace Capture

variable {P : Type} (inside : Nat → P → Bool) (s : Capture P)

/-- A loop over the bases of the mode. -/
def loopbases (f : Nat → BaseInfo → List (String × Int) → Told BaseScores CaptureMsg) :
    Told (Capture P) CaptureMsg :=
  let r := eachbase f 0 s.bases s.scores
  ⟨{ s with bases := r.state.1, scores := r.state.2 }, r.sent⟩

/-- Whether `movebases` sends the `i`th base. -/
def movesends (team : String) (out into : Nat → Bool) (i : Nat) (b : BaseInfo) : Bool :=
  b.Valid && (out i && !into i && b.leaves team || into i && !out i && b.enters team ||
    out i && into i && b.steal team)

/-- The body of `movebases`. -/
def movebaseTold (team : String) (out into : Nat → Bool) (i : Nat) (b : BaseInfo)
    (scores : List (String × Int)) : Told BaseScores CaptureMsg :=
  let b' := s.movebase inside team out into i b
  ⟨(b', scores), if movesends team out into i b then [sendbaseinfo i b'] else []⟩

/-- `movebases(team, oldpos, oldclip, newpos, newclip)`. -/
def movebasesTold (team : String) (out into : Nat → Bool) : Told (Capture P) CaptureMsg :=
  if team = "" ∨ s.gamelimit ≤ s.gamemillis then quiet s
  else s.loopbases (s.movebaseTold inside team out into)

/-- `leavebases(team, o)`. -/
def leavebasesTold (team : String) (o : P) : Told (Capture P) CaptureMsg :=
  s.movebasesTold inside team (fun i => inside i o) fun _ => false

/-- `enterbases(team, o)`. -/
def enterbasesTold (team : String) (o : P) : Told (Capture P) CaptureMsg :=
  s.movebasesTold inside team (fun _ => false) fun i => inside i o

/-- `entergame(ci)`. -/
def entergameTold (ci : Capturer P) : Told (Capture P) CaptureMsg :=
  if s.notgotbases ∨ ci.state ≠ .alive ∨ ci.gameclip = true then quiet s
  else s.enterbasesTold inside ci.team ci.o

/-- `spawned(ci)`. -/
def spawnedTold (ci : Capturer P) : Told (Capture P) CaptureMsg :=
  if s.notgotbases ∨ ci.gameclip = true then quiet s else s.enterbasesTold inside ci.team ci.o

/-- `leavegame(ci)`. -/
def leavegameTold (ci : Capturer P) : Told (Capture P) CaptureMsg :=
  if s.notgotbases ∨ ci.state ≠ .alive ∨ ci.gameclip = true then quiet s
  else s.leavebasesTold inside ci.team ci.o

/-- `died(ci, actor)`. -/
def diedTold (ci : Capturer P) : Told (Capture P) CaptureMsg :=
  if s.notgotbases ∨ ci.gameclip = true then quiet s else s.leavebasesTold inside ci.team ci.o

/-- `changeteam(ci, oldteam, newteam)`. -/
def changeteamTold (ci : Capturer P) (newteam : String) : Told (Capture P) CaptureMsg :=
  if s.notgotbases ∨ ci.gameclip = true then quiet s
  else (s.leavebasesTold inside ci.team ci.o).andThen fun s => s.enterbasesTold inside newteam ci.o

/-- `moved(ci, ci->state.o, ci->gameclip, o, gameclip)`. -/
def movedTold (ci : Capturer P) (o : P) (gameclip : Bool) : Told (Capture P) CaptureMsg :=
  if s.notgotbases then quiet s
  else s.movebasesTold inside ci.team (fun i => !ci.gameclip && inside i ci.o)
    fun i => !gameclip && inside i o

/-- `replenishammo(ci)`; how much ammunition the client has is not in the model. -/
def replenishammoTold (ci : Capturer P) (noitems : Bool) (hasmaxammo : Int → Bool) :
    Told (Capture P) CaptureMsg :=
  if noitems = true ∨ s.notgotbases ∨ ci.state ≠ .alive ∨ ci.team = "" then quiet s
  else
    match s.bases.zipIdx.find? fun b =>
      b.1.Valid && inside b.2 ci.o && !hasmaxammo b.1.ammotype && b.1.takesammo ci.team with
    | none => quiet s
    | some (b, i) => ⟨{ s with bases := s.bases.set i b.takeammo }, [sendbaseinfo i b.takeammo]⟩

/-- `endcheck()`. -/
def endcheckTold : Told (Capture P) CaptureMsg :=
  ⟨s.endcheck, (lastteam s.bases).elim [] fun team => [.basescore (-1) team 10000]⟩

/-- The body of the loop of `update`. -/
def updatebaseTold (t : Int) (i : Nat) (b : BaseInfo) (scores : List (String × Int)) :
    Told BaseScores CaptureMsg :=
  let b' := s.updatebase t b
  let scores' := updatescores t scores b
  ⟨(b', scores'),
    if ¬b.Valid then []
    else if b.enemy ≠ "" then [sendbaseinfo i b']
    else if b.owner ≠ "" then
      (if b.ticks SCORESECS t ≠ 0 then
          [.basescore i b.owner (getteamscore scores' b.owner)] else []) ++
        if !s.regencapture && b.ticks AMMOSECS t ≠ 0 && b.ammo < BaseInfo.MAXAMMO then
          [sendbaseinfo i b'] else []
    else []⟩

/-- `update()` at the times of a frame. -/
def updateTold (gamemillis curtime : Int) : Told (Capture P) CaptureMsg :=
  let s := { s with gamemillis }
  if s.gamelimit ≤ s.gamemillis then quiet s
  else
    s.endcheckTold.andThen fun s =>
      let t := gamemillis.tdiv 1000 - (gamemillis - curtime).tdiv 1000
      if t < 1 then quiet s else s.loopbases (s.updatebaseTold t)

/-- The `N_BASES` of `initclient`. -/
def sendbases : CaptureMsg :=
  .bases (s.bases.map fun b => (b.ammotype, b.owner, b.enemy, b.converted, b.ammo))

/-- `initclient(ci, p, true)`, behind the `N_MAPCHANGE` of the welcome. -/
def initclient (map : List Int) : List CaptureMsg :=
  .mapchange map :: s.scores.map (fun cs => .basescore (-1) cs.1 cs.2) ++ [s.sendbases]

/-- `loopv(clients) if(clients[i]->state.state==CS_ALIVE) entergame(clients[i])`. -/
def enterallTold : Told (Capture P) CaptureMsg :=
  loop (fun ci s => s.entergameTold inside ci) s.clients s

/-- `setup()`, after the clients were reset for a new map. -/
def setupTold (gotitems regencapture : Bool) (ammotypes : List Int) (gamelimit : Int) :
    Told (Capture P) CaptureMsg :=
  let s := { s with
    clients := s.clients.map Capturer.mapchange
    bases := if gotitems then addbases ammotypes else [], scores := []
    notgotbases := !gotitems, regencapture, gamemillis := 0, gamelimit, interm := 0 }
  if gotitems then
    Told.andThen ⟨s, [.mapchange ammotypes, s.sendbases]⟩ fun s => s.enterallTold inside
  else ⟨s, [.mapchange ammotypes]⟩

/-- `parsebases(p, commit)` of a list of bases that is taken over. -/
def parsebasesTold (ammotypes : List Int) : Told (Capture P) CaptureMsg :=
  if s.notgotbases then
    let s := { s with notgotbases := false, bases := addbases ammotypes }
    Told.andThen ⟨s, [s.sendbases]⟩ fun s => s.enterallTold inside
  else quiet s

/-- Run something on a client that is connected. -/
def withinfoTold (cn : Int) (f : Capturer P → Told (Capture P) CaptureMsg) :
    Told (Capture P) CaptureMsg :=
  match s.getinfo cn with
  | none => quiet s
  | some ci => f ci

/-- One event. -/
def nextTold (s : Capture P) : CaptureEvent P → Told (Capture P) CaptureMsg
  | .setup gotitems regencapture ammotypes gamelimit =>
    s.setupTold inside gotitems regencapture ammotypes gamelimit
  | .parsebases ammotypes => s.parsebasesTold inside ammotypes
  | .connected cn team state o => quiet (s.connected cn team state o)
  | .clientdisconnect cn => s.withinfoTold cn fun ci =>
    (s.leavegameTold inside ci).andThen fun s =>
      quiet { s with clients := Keyed.remove Capturer.cn cn s.clients }
  | .forcespectator cn => s.withinfoTold cn fun ci =>
    (s.leavegameTold inside ci).andThen fun s =>
      quiet (s.upd cn fun c => { c with state := .spectator })
  | .setstate cn state => quiet (s.upd cn fun c => { c with state })
  | .moved cn o gameclip => s.withinfoTold cn fun ci =>
    (if ci.state = .alive then s.movedTold inside ci o gameclip else quiet s).andThen fun s =>
      quiet (s.upd cn fun c => { c with o, gameclip })
  | .sendspawn cn => s.withinfoTold cn fun ci =>
    quiet (if ci.state = .dead then s.upd cn fun c => { c with lastspawn := s.gamemillis } else s)
  | .reassign cn o => quiet (s.upd cn (Capturer.reassign s.gamemillis o))
  | .spawned cn => s.withinfoTold cn fun ci =>
    if (ci.state = .alive ∨ ci.state = .dead) ∧ 0 ≤ ci.lastspawn then
      (s.spawnedTold inside ci).andThen fun s =>
        quiet (s.upd cn fun c => { c with state := .alive, lastspawn := -1 })
    else quiet s
  | .died cn => s.withinfoTold cn fun ci =>
    if ci.state = .alive then
      (s.diedTold inside ci).andThen fun s => quiet (s.upd cn fun c => { c with state := .dead })
    else quiet s
  | .setteam cn team => s.withinfoTold cn fun ci =>
    (if ci.state = .alive then s.changeteamTold inside ci team else quiet s).andThen fun s =>
      quiet (s.upd cn fun c => { c with team })
  | .update gamemillis curtime => s.updateTold gamemillis curtime
  | .setlimit gamelimit => quiet { s with gamelimit }
  | .startintermission => quiet s.startintermission

/-! ## The events are those of the mode -/

variable {s : Capture P} {inside : Nat → P → Bool}

/-- A loop over the bases that leaves the scores. -/
theorem eachbase_bases {f : Nat → BaseInfo → List (String × Int) → Told BaseScores CaptureMsg}
    {g : Nat → BaseInfo → BaseInfo} {h : List (String × Int) → BaseInfo → List (String × Int)}
    (hf : ∀ i b scores, (f i b scores).state = (g i b, h scores b)) :
    ∀ (bases : List BaseInfo) (i : Nat) (scores : List (String × Int)),
      (eachbase f i bases scores).state =
        (bases.mapIdx fun j => g (i + j), bases.foldl h scores) := by
  intro bases
  induction bases with
  | nil =>
    intro i scores
    rfl
  | cons b bases ih =>
    intro i scores
    have hidx : (fun j => g (i + (j + 1))) = fun j => g (i + 1 + j) :=
      funext fun j => by rw [Nat.add_right_comm i 1 j, Nat.add_assoc]
    rw [eachbase, List.mapIdx_cons, List.foldl_cons, hidx]
    simp [hf, ih]

theorem foldl_const_left {α β : Type*} (l : List α) (b : β) : l.foldl (fun b _ => b) b = b := by
  induction l with
  | nil => rfl
  | cons a l ih => exact ih

theorem mapIdx_const {α β : Type*} (f : α → β) (l : List α) : (l.mapIdx fun _ => f) = l.map f := by
  apply List.ext_getElem?
  simp

theorem loopbases_state {f : Nat → BaseInfo → List (String × Int) → Told BaseScores CaptureMsg}
    {g : Nat → BaseInfo → BaseInfo} {h : List (String × Int) → BaseInfo → List (String × Int)}
    (hf : ∀ i b scores, (f i b scores).state = (g i b, h scores b)) :
    (s.loopbases f).state =
      { s with bases := s.bases.mapIdx g, scores := s.bases.foldl h s.scores } := by
  have hidx : (fun j => g (0 + j)) = g := funext fun j => by rw [Nat.zero_add]
  simp only [loopbases, eachbase_bases hf, hidx]

@[simp] theorem movebasesTold_state (team : String) (out into : Nat → Bool) :
    (s.movebasesTold inside team out into).state = s.movebases inside team out into := by
  unfold movebasesTold movebases
  split
  · rfl
  · have hbody : ∀ i b scores, (s.movebaseTold inside team out into i b scores).state =
        (s.movebase inside team out into i b, scores) := fun _ _ _ => rfl
    rw [loopbases_state hbody, foldl_const_left]

@[simp] theorem entergameTold_state (ci : Capturer P) :
    (s.entergameTold inside ci).state = s.entergame inside ci := by
  unfold entergameTold entergame
  split
  · rfl
  · exact movebasesTold_state ..

@[simp] theorem spawnedTold_state (ci : Capturer P) :
    (s.spawnedTold inside ci).state = s.spawned inside ci := by
  unfold spawnedTold Capture.spawned
  split
  · rfl
  · exact movebasesTold_state ..

@[simp] theorem leavegameTold_state (ci : Capturer P) :
    (s.leavegameTold inside ci).state = s.leavegame inside ci := by
  unfold leavegameTold leavegame
  split
  · rfl
  · exact movebasesTold_state ..

@[simp] theorem diedTold_state (ci : Capturer P) :
    (s.diedTold inside ci).state = s.died inside ci := by
  unfold diedTold Capture.died
  split
  · rfl
  · exact movebasesTold_state ..

@[simp] theorem changeteamTold_state (ci : Capturer P) (newteam : String) :
    (s.changeteamTold inside ci newteam).state = s.changeteam inside ci newteam := by
  unfold changeteamTold Capture.changeteam
  split
  · rfl
  · simp [leavebasesTold, enterbasesTold, leavebases, enterbases]

@[simp] theorem movedTold_state (ci : Capturer P) (o : P) (gameclip : Bool) :
    (s.movedTold inside ci o gameclip).state = s.moved inside ci o gameclip := by
  unfold movedTold Capture.moved
  split
  · rfl
  · exact movebasesTold_state ..

@[simp] theorem enterallTold_state : (s.enterallTold inside).state = s.enterall inside :=
  loop_state (fun ci _ => entergameTold_state ci) s.clients s

theorem updateTold_state (gamemillis curtime : Int) :
    (s.updateTold gamemillis curtime).state = s.update gamemillis curtime := by
  unfold updateTold update
  dsimp only
  split
  · rfl
  · rw [andThen_state]
    split
    · rfl
    · have hbody : ∀ s : Capture P, ∀ t i b scores, (s.updatebaseTold t i b scores).state =
          (s.updatebase t b, updatescores t scores b) := fun _ _ _ _ _ => rfl
      rw [loopbases_state (hbody _ _), mapIdx_const]
      rfl

theorem withinfoTold_state {cn : Int} {f : Capturer P → Told (Capture P) CaptureMsg}
    {g : Capturer P → Capture P} (h : ∀ ci, (f ci).state = g ci) :
    (s.withinfoTold cn f).state = s.withinfo cn g := by
  unfold withinfoTold withinfo
  cases s.getinfo cn with
  | none => rfl
  | some ci => exact h ci

/-- What an event leaves is what it leaves in the mode without messages. -/
theorem nextTold_state (e : CaptureEvent P) : (s.nextTold inside e).state = s.next inside e := by
  cases e with
  | setup gotitems regencapture ammotypes gamelimit =>
    simp only [nextTold, Capture.next, setupTold, setup]
    split
    · simp
    · rfl
  | parsebases ammotypes =>
    simp only [nextTold, Capture.next, parsebasesTold, parsebases]
    split
    · simp
    · rfl
  | clientdisconnect cn => exact withinfoTold_state fun ci => by simp
  | forcespectator cn => exact withinfoTold_state fun ci => by simp
  | moved cn o gameclip =>
    refine withinfoTold_state fun ci => ?_
    split <;> simp
  | sendspawn cn => exact withinfoTold_state fun ci => rfl
  | spawned cn =>
    refine withinfoTold_state fun ci => ?_
    split <;> simp
  | died cn =>
    refine withinfoTold_state fun ci => ?_
    split <;> simp
  | setteam cn team =>
    refine withinfoTold_state fun ci => ?_
    split <;> simp
  | update gamemillis curtime => exact updateTold_state gamemillis curtime
  | _ => rfl

/-! ## What a client sees -/

theorem getteamscore_settotal (team : String) (n : Int) (scores : List (String × Int)) :
    getteamscore (settotal team n scores) = Function.update (getteamscore scores) team n := by
  funext t
  induction scores with
  | nil =>
    by_cases h : t = team
    · subst h
      simp [settotal, getteamscore]
    · rw [Function.update_of_ne h]
      simp [settotal, getteamscore, Ne.symm h]
  | cons cs scores ih =>
    unfold settotal
    by_cases hcs : cs.1 = team
    · rw [if_pos hcs]
      by_cases ht : t = team
      · subst ht
        simp [getteamscore, hcs]
      · rw [Function.update_of_ne ht]
        simp [getteamscore, hcs, Ne.symm ht]
    · rw [if_neg hcs]
      by_cases ht : cs.1 = t
      · have hne : t ≠ team := ht ▸ hcs
        rw [Function.update_of_ne hne]
        simp [getteamscore, ht]
      · unfold getteamscore at ih ⊢
        rw [List.find?_cons_of_neg (by simpa using ht), ih]
        by_cases hteam : t = team
        · subst hteam
          simp
        · rw [Function.update_of_ne hteam, Function.update_of_ne hteam,
            List.find?_cons_of_neg (by simpa using ht)]

theorem addtotal_eq (team : String) (n : Int) (scores : List (String × Int)) :
    addtotal team n scores = settotal team (getteamscore scores team + n) scores := by
  induction scores with
  | nil => simp [addtotal, settotal, getteamscore]
  | cons cs scores ih =>
    unfold addtotal settotal
    by_cases hcs : cs.1 = team
    · simp [hcs, getteamscore]
    · rw [if_neg hcs, if_neg hcs, ih]
      simp [getteamscore, hcs]

theorem nodup_settotal {scores : List (String × Int)} (h : (scores.map Prod.fst).Nodup)
    (team : String) (n : Int) : ((settotal team n scores).map Prod.fst).Nodup := by
  have hkeys : (settotal team n scores).map Prod.fst =
      if team ∈ scores.map Prod.fst then scores.map Prod.fst
      else scores.map Prod.fst ++ [team] := by
    clear h
    induction scores with
    | nil => simp [settotal]
    | cons cs scores ih =>
      unfold settotal
      by_cases hcs : cs.1 = team
      · simp [hcs]
      · rw [if_neg hcs, List.map_cons, ih]
        simp only [List.map_cons, List.mem_cons, Ne.symm hcs, false_or]
        split <;> simp
  rw [hkeys]
  split
  · exact h
  · next hnew => exact List.nodup_append.2 ⟨h, by simp, fun a ha b hb => by
      rw [List.mem_singleton.1 hb]
      exact fun heq => hnew (heq ▸ ha)⟩

end Capture

/-- A client has the owner, the enemy and the kind of a base, its ammunition while it is owned and
the progress on it while it is contested. -/
structure BaseInfo.Seen (b : BaseInfo) (v : BaseView) : Prop where
  owner : v.owner = b.owner
  enemy : v.enemy = b.enemy
  ammotype : v.ammotype = b.ammotype
  ammo : b.owner ≠ "" → v.ammo = b.ammo
  converted : b.enemy ≠ "" → v.converted = b.converted

/-- A base that looks the same. -/
structure BaseInfo.Same (b b' : BaseInfo) : Prop where
  owner : b'.owner = b.owner
  enemy : b'.enemy = b.enemy
  ammotype : b'.ammotype = b.ammotype
  ammo : b.owner ≠ "" → b'.ammo = b.ammo
  converted : b.enemy ≠ "" → b'.converted = b.converted

theorem BaseInfo.Same.refl (b : BaseInfo) : b.Same b := ⟨rfl, rfl, rfl, fun _ => rfl, fun _ => rfl⟩

theorem BaseInfo.Seen.congr {b b' : BaseInfo} {v : BaseView} (h : b.Seen v) (hs : b.Same b') :
    b'.Seen v where
  owner := h.owner.trans hs.owner.symm
  enemy := h.enemy.trans hs.enemy.symm
  ammotype := h.ammotype.trans hs.ammotype.symm
  ammo hne := by
    rw [hs.owner] at hne
    rw [h.ammo hne, hs.ammo hne]
  converted hne := by
    rw [hs.enemy] at hne
    rw [h.converted hne, hs.converted hne]

/-- A client has the scores of all teams; the server keeps one for each. -/
structure Known (scores : List (String × Int)) (c : CaptureClient) : Prop where
  totals : getteamscore c.scores = getteamscore scores
  distinct : (scores.map Prod.fst).Nodup

/-- **Agreement** of a client, on a map with `n` bases of which the server has the first `m`. -/
structure Agree {P : Type} (n m : Nat) (s : Capture P) (c : CaptureClient) : Prop where
  length : c.bases.length = n
  count : s.bases.length = m
  bases : ∀ (i : Nat) (b : BaseInfo) (v : BaseView),
    s.bases[i]? = some b → c.bases[i]? = some v → b.Seen v
  scores : Known s.scores c

namespace Capture

variable {P : Type} {s t : Capture P} {inside : Nat → P → Bool} {n m : Nat} {c : CaptureClient}

open CaptureClient

/-- What no client sees. -/
theorem agree_congr (hb : t.bases = s.bases) (hs : t.scores = s.scores) (h : Agree n m s c) :
    Agree n m t c where
  length := h.length
  count := (congrArg List.length hb).trans h.count
  bases := by
    rw [hb]
    exact h.bases
  scores := by
    rw [hs]
    exact h.scores

/-- A base that was sent is seen. -/
theorem seen_updatebase {b : BaseInfo} {v : BaseView} (ht : v.ammotype = b.ammotype) :
    b.Seen { v with
      owner := b.owner
      enemy := b.enemy
      converted := if b.enemy ≠ "" then b.converted else 0
      ammo := if b.owner ≠ "" then b.ammo else 0 } where
  owner := rfl
  enemy := rfl
  ammotype := ht
  ammo h := if_pos h
  converted h := if_pos h

theorem updatebase_getElem? (i j : Nat) (owner enemy : String) (converted ammo : Int) :
    (c.updatebase i owner enemy converted ammo).bases[j]? =
      c.bases[j]?.map fun v => if i = j then { v with owner, enemy, converted, ammo } else v :=
  List.getElem?_modify ..

/-- What the round of a loop over the bases does for the client: it sees the base and the scores,
and the other bases as before. -/
def Keeps (f : Nat → BaseInfo → List (String × Int) → Told BaseScores CaptureMsg) : Prop :=
  ∀ i b scores (c : CaptureClient),
    (∀ v, c.bases[i]? = some v → b.Seen v) → Known scores c →
    let r := f i b scores
    let c' := r.sent.foldl apply c
    (∀ v, c'.bases[i]? = some v → r.state.1.Seen v) ∧ Known r.state.2 c' ∧
      (∀ j, j ≠ i → c'.bases[j]? = c.bases[j]?) ∧ c'.bases.length = c.bases.length

theorem Keeps.eachbase {f : Nat → BaseInfo → List (String × Int) → Told BaseScores CaptureMsg}
    (hf : Keeps f) : ∀ (bases : List BaseInfo) (k : Nat) (scores : List (String × Int))
      (c : CaptureClient),
      (∀ i b v, bases[i]? = some b → c.bases[k + i]? = some v → b.Seen v) →
      Known scores c →
      let r := QServ.eachbase f k bases scores
      let c' := r.sent.foldl apply c
      (∀ i b v, r.state.1[i]? = some b → c'.bases[k + i]? = some v → b.Seen v) ∧
        Known r.state.2 c' ∧ (∀ j, j < k → c'.bases[j]? = c.bases[j]?) ∧
        c'.bases.length = c.bases.length := by
  intro bases
  induction bases with
  | nil =>
    intro k scores c _ hscores
    refine ⟨fun i b v hb => ?_, hscores, fun _ _ => rfl, rfl⟩
    simp [QServ.eachbase] at hb
  | cons b bases ih =>
    intro k scores c hbases hscores
    obtain ⟨hhead, hsc, hothers, hlen⟩ := hf k b scores c (fun v hv => hbases 0 b v rfl hv) hscores
    have htail := ih (k + 1) (f k b scores).state.2 ((f k b scores).sent.foldl apply c)
      (fun i b' v hb hv => by
        rw [hothers _ (by omega), Nat.add_right_comm, Nat.add_assoc] at hv
        exact hbases (i + 1) b' v hb hv) hsc
    obtain ⟨hrest, hsc', hbefore, hlen'⟩ := htail
    simp only [QServ.eachbase, List.foldl_append]
    refine ⟨fun i b' v hb hv => ?_, hsc', fun j hj => ?_, hlen'.trans hlen⟩
    · cases i with
      | zero =>
        obtain rfl := Option.some.inj hb
        refine hhead v ?_
        rw [← hbefore k (by omega)]
        exact hv
      | succ i =>
        refine hrest i b' v hb ?_
        rw [← hv, Nat.add_right_comm, Nat.add_assoc]
    · rw [hbefore j (by omega), hothers j (by omega)]

theorem length_eachbase (f : Nat → BaseInfo → List (String × Int) → Told BaseScores CaptureMsg) :
    ∀ (bases : List BaseInfo) (k : Nat) (scores : List (String × Int)),
      (QServ.eachbase f k bases scores).state.1.length = bases.length := by
  intro bases
  induction bases with
  | nil => exact fun _ _ => rfl
  | cons b bases ih => exact fun k scores => congrArg (· + 1) (ih (k + 1) _)

/-- A loop over the bases is followed if each round is. -/
theorem follows_loopbases
    {f : Nat → BaseInfo → List (String × Int) → Told BaseScores CaptureMsg} (hf : Keeps f) :
    Follows apply (Agree n m) s (s.loopbases f) := by
  intro c h
  have hall := hf.eachbase s.bases 0 s.scores c
    (fun i b v hb hv => h.bases i b v hb (by rwa [Nat.zero_add] at hv)) h.scores
  obtain ⟨hbases, hscores, _, hlen⟩ := hall
  refine ⟨hlen.trans h.length, (length_eachbase f _ _ _).trans h.count, fun i b v hb hv => ?_,
    hscores⟩
  exact hbases i b v hb (by rwa [Nat.zero_add])

/-- The base a round sends is seen. -/
theorem keeps_send {b b' : BaseInfo} {i : Nat} {scores : List (String × Int)}
    (ht : b'.ammotype = b.ammotype) (hb : ∀ v, c.bases[i]? = some v → b.Seen v)
    (hs : Known scores c) :
    (∀ v, (apply c (sendbaseinfo i b')).bases[i]? = some v → b'.Seen v) ∧
      Known scores (apply c (sendbaseinfo i b')) ∧
      (∀ j, j ≠ i → (apply c (sendbaseinfo i b')).bases[j]? = c.bases[j]?) ∧
      (apply c (sendbaseinfo i b')).bases.length = c.bases.length := by
  refine ⟨fun v hv => ?_, ⟨hs.totals, hs.distinct⟩, fun j hj => ?_, ?_⟩
  · simp only [apply, sendbaseinfo, updatebase_getElem?] at hv
    obtain ⟨v', hv', rfl⟩ := Option.map_eq_some_iff.1 hv
    rw [if_pos trivial]
    exact seen_updatebase ((hb v' hv').ammotype.trans ht.symm)
  · simp only [apply, sendbaseinfo, updatebase_getElem?, if_neg hj.symm]
    simp
  · exact List.length_modify ..

/-- A base a round does not send looks the same. -/
theorem keeps_same {b b' : BaseInfo} {i : Nat} {scores : List (String × Int)} (hsame : b.Same b')
    (hb : ∀ v, c.bases[i]? = some v → b.Seen v)
    (hs : Known scores c) :
    (∀ v, c.bases[i]? = some v → b'.Seen v) ∧ Known scores c ∧
      (∀ j, j ≠ i → c.bases[j]? = c.bases[j]?) ∧ c.bases.length = c.bases.length :=
  ⟨fun v hv => (hb v hv).congr hsame, hs, fun _ _ => rfl, rfl⟩

theorem same_enter {b : BaseInfo} {team : String} (h : b.enters team = false) :
    b.Same (b.enter team) := by
  unfold BaseInfo.enters at h
  unfold BaseInfo.enter
  split
  · exact ⟨rfl, rfl, rfl, fun _ => rfl, fun _ => rfl⟩
  · next hown =>
    have hne : b.enemies ≠ 0 := by simpa [hown] using h
    rw [if_neg hne]
    split
    · exact .refl b
    · exact ⟨rfl, rfl, rfl, fun _ => rfl, fun _ => rfl⟩

theorem same_leave (b : BaseInfo) (team : String) : b.Same (b.leave team) := by
  unfold BaseInfo.leave
  split
  · exact ⟨rfl, rfl, rfl, fun _ => rfl, fun _ => rfl⟩
  · split
    · exact .refl b
    · exact ⟨rfl, rfl, rfl, fun _ => rfl, fun _ => rfl⟩

theorem ammotype_enter (b : BaseInfo) (team : String) : (b.enter team).ammotype = b.ammotype := by
  unfold BaseInfo.enter
  split
  · rfl
  · split
    · dsimp only
      split <;> rfl
    · split <;> rfl

theorem ammotype_stealbase (i : Nat) (team : String) (b : BaseInfo) :
    (s.stealbase inside i team b).ammotype = b.ammotype := by
  unfold stealbase
  induction s.clients generalizing b with
  | nil => rfl
  | cons ci clients ih =>
    rw [List.foldl_cons, ih]
    split
    · exact ammotype_enter b ci.team
    · rfl

theorem ammotype_movebase (team : String) (out into : Nat → Bool) (i : Nat) (b : BaseInfo) :
    (s.movebase inside team out into i b).ammotype = b.ammotype := by
  unfold movebase
  split
  · rfl
  · split
    · exact (same_leave b team).ammotype
    · split
      · exact ammotype_enter b team
      · split
        · exact ammotype_stealbase i team b
        · rfl

/-- A base that `movebases` does not send looks the same. -/
theorem same_movebase {team : String} {out into : Nat → Bool} {i : Nat} {b : BaseInfo}
    (h : movesends team out into i b = false) : b.Same (s.movebase inside team out into i b) := by
  unfold movesends at h
  unfold movebase
  split
  · exact .refl b
  · next hvalid =>
    rw [not_not] at hvalid
    split
    · exact same_leave b team
    · split
      · next hleave henter =>
        refine same_enter ?_
        simp only [Bool.and_eq_true, Bool.not_eq_true'] at henter
        simpa [hvalid, henter] using h
      · split
        · next hsteal =>
          simp [hvalid, hsteal] at h
        · exact .refl b

theorem keeps_movebase (team : String) (out into : Nat → Bool) :
    Keeps (s.movebaseTold inside team out into) := by
  intro i b scores c hb hs
  unfold movebaseTold
  cases hsend : movesends team out into i b with
  | true => exact keeps_send (ammotype_movebase team out into i b) hb hs
  | false => exact keeps_same (same_movebase hsend) hb hs

theorem follows_movebases (team : String) (out into : Nat → Bool) :
    Follows apply (Agree n m) s (s.movebasesTold inside team out into) := by
  unfold movebasesTold
  split
  · exact .stay
  · exact follows_loopbases (keeps_movebase team out into)

theorem follows_entergame (ci : Capturer P) :
    Follows apply (Agree n m) s (s.entergameTold inside ci) := by
  unfold entergameTold
  split
  · exact .stay
  · exact follows_movebases _ _ _

theorem follows_spawned (ci : Capturer P) :
    Follows apply (Agree n m) s (s.spawnedTold inside ci) := by
  unfold spawnedTold
  split
  · exact .stay
  · exact follows_movebases _ _ _

theorem follows_leavegame (ci : Capturer P) :
    Follows apply (Agree n m) s (s.leavegameTold inside ci) := by
  unfold leavegameTold
  split
  · exact .stay
  · exact follows_movebases _ _ _

theorem follows_died (ci : Capturer P) : Follows apply (Agree n m) s (s.diedTold inside ci) := by
  unfold diedTold
  split
  · exact .stay
  · exact follows_movebases _ _ _

theorem follows_changeteam (ci : Capturer P) (newteam : String) :
    Follows apply (Agree n m) s (s.changeteamTold inside ci newteam) := by
  unfold changeteamTold
  split
  · exact .stay
  · exact .andThen (follows_movebases _ _ _) (follows_movebases _ _ _)

theorem follows_moved (ci : Capturer P) (o : P) (gameclip : Bool) :
    Follows apply (Agree n m) s (s.movedTold inside ci o gameclip) := by
  unfold movedTold
  split
  · exact .stay
  · exact follows_movebases _ _ _

theorem follows_enterall : Follows apply (Agree n m) s (s.enterallTold inside) :=
  .loop (fun ci _ => follows_entergame ci) s.clients s

/-- A score that was sent is known. -/
theorem agree_basescore (h : Agree n m s c) (base : Int) (team : String) (total : Int)
    (ht : t.scores = settotal team total s.scores) (hb : t.bases = s.bases) :
    Agree n m t (apply c (.basescore base team total)) where
  length := h.length
  count := (congrArg List.length hb).trans h.count
  bases := by
    rw [hb]
    exact h.bases
  scores := by
    rw [ht]
    exact ⟨by simp only [apply, getteamscore_settotal, h.scores.totals],
      nodup_settotal h.scores.distinct team total⟩

theorem follows_endcheck : Follows apply (Agree n m) s s.endcheckTold := by
  intro c h
  unfold endcheckTold endcheck
  cases lastteam s.bases with
  | none => exact h
  | some team => exact agree_basescore h (-1) team 10000 rfl rfl

theorem same_addammo_of_full {b : BaseInfo} (h : ¬b.ammo < BaseInfo.MAXAMMO) (i : Int) :
    b.addammo i = b := by
  unfold BaseInfo.addammo
  rw [if_pos (by omega)]

theorem ammotype_addammo (b : BaseInfo) (i : Int) : (b.addammo i).ammotype = b.ammotype := by
  unfold BaseInfo.addammo
  split <;> rfl

theorem updatescores_owned {b : BaseInfo} (hvalid : b.Valid) (he : b.enemy = "") (ho : b.owner ≠ "")
    (t : Int) (scores : List (String × Int)) :
    updatescores t scores b =
      if b.ticks SCORESECS t ≠ 0 then addtotal b.owner (b.ticks SCORESECS t) scores
      else scores := by
  unfold updatescores
  rw [if_pos ⟨hvalid, he, ho⟩]
  rfl

theorem updatebase_owned {b : BaseInfo} (hvalid : b.Valid) (he : b.enemy = "") (ho : b.owner ≠ "")
    (t : Int) : s.updatebase t b =
      if s.regencapture then { b with capturetime := b.capturetime + t }
      else if b.ticks AMMOSECS t ≠ 0 then
        BaseInfo.addammo { b with capturetime := b.capturetime + t } (b.ticks AMMOSECS t)
      else { b with capturetime := b.capturetime + t } := by
  unfold updatebase
  rw [if_neg (not_not.2 hvalid), if_neg (not_not.2 he), if_pos ho]
  rfl

/-- An owned base looks the same after a round in which its ammunition is not sent. -/
theorem same_updatebase_owned {b : BaseInfo} (hvalid : b.Valid) (he : b.enemy = "")
    (ho : b.owner ≠ "") {t : Int}
    (h : (!s.regencapture && b.ticks AMMOSECS t ≠ 0 && b.ammo < BaseInfo.MAXAMMO) = false) :
    b.Same (s.updatebase t b) := by
  rw [updatebase_owned hvalid he ho]
  split
  · exact ⟨rfl, rfl, rfl, fun _ => rfl, fun _ => rfl⟩
  · next hregen =>
    split
    · next hticks =>
      have hfull : ¬b.ammo < BaseInfo.MAXAMMO := by simpa [hregen, hticks] using h
      rw [same_addammo_of_full (b := { b with capturetime := b.capturetime + t }) hfull]
      exact ⟨rfl, rfl, rfl, fun _ => rfl, fun _ => rfl⟩
    · exact ⟨rfl, rfl, rfl, fun _ => rfl, fun _ => rfl⟩

theorem ammotype_updatebase (t : Int) (b : BaseInfo) :
    (s.updatebase t b).ammotype = b.ammotype := by
  unfold updatebase
  split
  · rfl
  · split
    · split
      · exact ammotype_occupy _ _
      · rfl
    · split
      · dsimp only
        split
        · rfl
        · split
          · exact ammotype_addammo _ _
          · rfl
      · rfl

/-- The score of a round, as a client takes it. -/
theorem scores_round {b : BaseInfo} (hvalid : b.Valid) (he : b.enemy = "") (ho : b.owner ≠ "")
    (t : Int) {scores : List (String × Int)} (hs : Known scores c) (i : Nat) :
    let sent : List CaptureMsg := if b.ticks SCORESECS t ≠ 0 then
      [.basescore i b.owner (getteamscore (updatescores t scores b) b.owner)] else []
    (sent.foldl apply c).bases = c.bases ∧
      Known (updatescores t scores b) (sent.foldl apply c) := by
  rw [updatescores_owned hvalid he ho]
  split
  · refine ⟨rfl, ?_, ?_⟩
    · simp only [List.foldl_cons, List.foldl_nil, apply, getteamscore_settotal, addtotal_eq,
        hs.totals, Function.update_self]
    · rw [addtotal_eq]
      exact nodup_settotal hs.distinct ..
  · exact ⟨rfl, hs⟩

theorem keeps_updatebase (t : Int) : Keeps (s.updatebaseTold t) := by
  intro i b scores c hb hs
  unfold updatebaseTold
  by_cases hvalid : b.Valid
  swap
  · simp only [updatebase, updatescores, hvalid, not_false_eq_true, if_true, false_and, if_false]
    exact keeps_same (.refl b) hb hs
  by_cases hcontested : b.enemy ≠ ""
  · simp only [updatescores, hvalid, hcontested, not_true_eq_false, if_false, ne_eq,
      not_false_eq_true, if_true, and_false, false_and]
    refine keeps_send ?_ hb hs
    unfold updatebase
    rw [if_neg (not_not.2 hvalid), if_pos hcontested]
    split
    · exact ammotype_occupy _ _
    · rfl
  by_cases howned : b.owner ≠ ""
  swap
  · simp only [updatebase, updatescores, hvalid, hcontested, howned, not_true_eq_false, if_false,
      and_false]
    exact keeps_same (.refl b) hb hs
  rw [ne_eq, not_not] at hcontested
  obtain ⟨hbases, hscores⟩ := scores_round hvalid hcontested howned t hs i
  simp only [hvalid, hcontested, not_true_eq_false, if_false, ne_eq, howned, not_false_eq_true,
    if_true, List.foldl_append]
  simp only [ne_eq] at hbases hscores
  rw [← hbases] at hb ⊢
  generalize List.foldl apply c (if ¬b.ticks SCORESECS t = 0 then
    [.basescore i b.owner (getteamscore (updatescores t scores b) b.owner)] else []) = c₁
    at hb hscores ⊢
  split
  · exact keeps_send (ammotype_updatebase t b) hb hscores
  · next hquiet =>
    refine keeps_same (same_updatebase_owned hvalid hcontested howned ?_) hb hscores
    simpa using hquiet

theorem follows_update (gamemillis curtime : Int) :
    Follows apply (Agree n m) s (s.updateTold gamemillis curtime) := by
  unfold updateTold
  refine .after (t := { s with gamemillis }) (fun c h => agree_congr (s := s) rfl rfl h) ?_
  dsimp only
  split
  · exact .stay
  · refine .andThen follows_endcheck ?_
    split
    · exact .stay
    · exact follows_loopbases (keeps_updatebase _)

theorem follows_replenishammo (ci : Capturer P) (noitems : Bool) (hasmaxammo : Int → Bool) :
    Follows apply (Agree n m) s (s.replenishammoTold inside ci noitems hasmaxammo) := by
  unfold replenishammoTold
  split
  · exact .stay
  · split
    · exact .stay
    · next b i hfind =>
      intro c h
      have hb : s.bases[i]? = some b :=
        List.mk_mem_zipIdx_iff_getElem?.1 (List.mem_of_find?_eq_some hfind)
      have hsend := @keeps_send c b b.takeammo i s.scores rfl (fun v => h.bases i b v hb) h.scores
      obtain ⟨hseen, hscores, hothers, hlen⟩ := hsend
      refine ⟨hlen.trans h.length, (List.length_set ..).trans h.count, fun j b' v hj hv => ?_,
        hscores⟩
      rw [List.getElem?_set] at hj
      by_cases hij : i = j
      · subst hij
        rw [if_pos rfl] at hj
        split at hj
        · obtain rfl := Option.some.inj hj
          exact hseen v hv
        · cases hj
      · rw [if_neg hij] at hj
        exact h.bases j b' v hj (by rwa [← hothers j (Ne.symm hij)])

/-! ## Lists of bases -/

theorem initbases_spec : ∀ (l : List (Int × String × String × Int × Int)) (k : Nat)
    (c : CaptureClient), (c.initbases k l).scores = c.scores ∧
      (c.initbases k l).bases.length = c.bases.length ∧
      (∀ j, j < k → (c.initbases k l).bases[j]? = c.bases[j]?) ∧
      ∀ i b v, l[i]? = some b → (c.initbases k l).bases[k + i]? = some v →
        v = { ammotype := b.1, owner := b.2.1, enemy := b.2.2.1, converted := b.2.2.2.1,
              ammo := b.2.2.2.2 } := by
  intro l
  induction l with
  | nil =>
    intro k c
    refine ⟨rfl, rfl, fun _ _ => rfl, fun i b v hb => ?_⟩
    simp at hb
  | cons b l ih =>
    intro k c
    obtain ⟨hs, hlen, hbefore, hspec⟩ := ih (k + 1) (c.initbase k b)
    refine ⟨hs, hlen.trans (List.length_modify ..), fun j hj => ?_, fun i b' v hb hv => ?_⟩
    · refine (hbefore j (by omega)).trans ?_
      simp [initbase, show k ≠ j by omega]
    · cases i with
      | zero =>
        obtain rfl := Option.some.inj hb
        have hk := (hbefore k (by omega)).symm.trans hv
        simp only [initbase, List.getElem?_modify] at hk
        obtain ⟨_, _, hv⟩ := Option.map_eq_some_iff.1 hk
        simpa using hv.symm
      | succ i =>
        refine hspec i b' v hb ?_
        rw [← hv, Nat.add_right_comm, Nat.add_assoc]
        rfl

/-- A client that was sent all bases and has the scores agrees. -/
theorem agree_sendbases (hlen : c.bases.length = n) (hs : Known s.scores c) :
    Agree n s.bases.length s (apply c s.sendbases) := by
  obtain ⟨hscores, hlength, -, hspec⟩ := initbases_spec
    (s.bases.map fun b => (b.ammotype, b.owner, b.enemy, b.converted, b.ammo)) 0 c
  refine ⟨hlength.trans hlen, rfl, fun i b v hb hv => ?_,
    ⟨(congrArg getteamscore hscores).trans hs.totals, hs.distinct⟩⟩
  have hl : (s.bases.map fun b => (b.ammotype, b.owner, b.enemy, b.converted, b.ammo))[i]? =
      some (b.ammotype, b.owner, b.enemy, b.converted, b.ammo) := by
    rw [List.getElem?_map, hb]
    rfl
  have hview := hspec i _ v hl (by rwa [Nat.zero_add])
  subst hview
  exact ⟨rfl, rfl, rfl, fun _ => rfl, fun _ => rfl⟩

/-- The scores of a join, to a client that has none. -/
theorem foldl_basescores : ∀ (scores : List (String × Int)) (c : CaptureClient),
    (scores.map Prod.fst).Nodup →
    ((scores.map fun cs => CaptureMsg.basescore (-1) cs.1 cs.2).foldl apply c).bases = c.bases ∧
      ∀ team, getteamscore
        ((scores.map fun cs => CaptureMsg.basescore (-1) cs.1 cs.2).foldl apply c).scores team =
          ((scores.find? fun cs => cs.1 = team).map Prod.snd).getD
            (getteamscore c.scores team) := by
  intro scores
  induction scores with
  | nil => exact fun c _ => ⟨rfl, fun _ => rfl⟩
  | cons cs scores ih =>
    intro c hnd
    obtain ⟨hfresh, hnd⟩ := List.nodup_cons.1 hnd
    obtain ⟨hb, hs⟩ := ih (apply c (.basescore (-1) cs.1 cs.2)) hnd
    refine ⟨hb, fun team => ?_⟩
    rw [List.map_cons, List.foldl_cons, hs]
    simp only [apply, getteamscore_settotal]
    by_cases h : cs.1 = team
    · subst h
      have hnone : scores.find? (fun x => decide (x.1 = cs.1)) = none := by
        refine List.find?_eq_none.2 fun x hx => ?_
        have hne : x.1 ≠ cs.1 := fun heq => hfresh (heq ▸ List.mem_map_of_mem hx)
        simpa using hne
      simp [hnone]
    · rw [Function.update_of_ne (Ne.symm h)]
      simp [h]

/-- **A join**: who applies the messages of his welcome agrees. -/
theorem agree_initclient (hnd : (s.scores.map Prod.fst).Nodup) (map : List Int)
    (c : CaptureClient) : Agree map.length s.bases.length s ((s.initclient map).foldl apply c) := by
  unfold initclient
  rw [List.foldl_append]
  obtain ⟨hb, hs⟩ := foldl_basescores s.scores (apply c (.mapchange map)) hnd
  refine agree_sendbases ?_ ⟨funext hs, hnd⟩
  rw [List.foldl_cons, hb]
  simp [apply]

variable (inside) in
theorem follows_setup (gotitems regencapture : Bool) (ammotypes : List Int) (gamelimit : Int)
    (c : CaptureClient) :
    let r := s.setupTold inside gotitems regencapture ammotypes gamelimit
    ∃ m ≤ ammotypes.length, Agree ammotypes.length m r.state (r.sent.foldl apply c) := by
  unfold setupTold
  dsimp only
  split
  · have hsent : ∀ t : Capture P, t.scores = [] → ∀ m, t.bases.length = m →
        Agree ammotypes.length m t ([.mapchange ammotypes, t.sendbases].foldl apply c) := by
      rintro t ht m rfl
      refine agree_sendbases (by simp [apply]) ?_
      rw [ht]
      exact ⟨rfl, List.nodup_nil⟩
    unfold Told.andThen
    rw [List.foldl_append]
    refine ⟨(addbases ammotypes).length, ?_, follows_enterall _ (hsent _ ?_ _ ?_)⟩
    · simp [addbases]
    · rfl
    · rfl
  · exact ⟨0, Nat.zero_le _, by simp [apply], rfl, fun i b v hb => by simp at hb, rfl,
      List.nodup_nil⟩

variable (inside) in
theorem follows_parsebases (ammotypes : List Int) (h : Agree n m s c) :
    let r := s.parsebasesTold inside ammotypes
    ∃ m', (m' = m ∨ s.notgotbases ∧ m' ≤ ammotypes.length) ∧
      Agree n m' r.state (r.sent.foldl apply c) := by
  unfold parsebasesTold
  split
  · next hnotgot =>
    unfold Told.andThen
    dsimp only
    rw [List.foldl_append]
    refine ⟨(addbases ammotypes).length, Or.inr ⟨hnotgot, by simp [addbases]⟩,
      follows_enterall _ ?_⟩
    exact agree_sendbases (s := { s with notgotbases := false, bases := addbases ammotypes })
      h.length ⟨h.scores.totals, h.scores.distinct⟩
  · exact ⟨m, Or.inl rfl, h⟩

theorem follows_withinfo {cn : Int} {f : Capturer P → Told (Capture P) CaptureMsg}
    (h : ∀ ci, Follows apply (Agree n m) s (f ci)) :
    Follows apply (Agree n m) s (s.withinfoTold cn f) := by
  unfold withinfoTold
  split
  · exact .stay
  · exact h _

/-- What changes only the clients or the clock. -/
theorem follows_quiet (hb : t.bases = s.bases) (hs : t.scores = s.scores) :
    Follows apply (Agree n m) s (quiet t) :=
  .quiet fun _ h => agree_congr hb hs h

variable (inside) in
/-- Each event other than new bases is followed. -/
theorem follows_next {e : CaptureEvent P}
    (he : ∀ gotitems regencapture ammotypes gamelimit,
      e ≠ .setup gotitems regencapture ammotypes gamelimit) (hp : ∀ types, e ≠ .parsebases types) :
    Follows apply (Agree n m) s (s.nextTold inside e) := by
  cases e with
  | setup gotitems regencapture ammotypes gamelimit => exact absurd rfl (he _ _ _ _)
  | parsebases ammotypes => exact absurd rfl (hp _)
  | connected cn team state o =>
    have hsame : (s.connected cn team state o).bases = s.bases ∧
        (s.connected cn team state o).scores = s.scores := by
      unfold Capture.connected
      split <;> exact ⟨rfl, rfl⟩
    exact follows_quiet hsame.1 hsame.2
  | clientdisconnect cn =>
    exact follows_withinfo fun ci => .andThen (follows_leavegame ci) (follows_quiet rfl rfl)
  | forcespectator cn =>
    exact follows_withinfo fun ci => .andThen (follows_leavegame ci) (follows_quiet rfl rfl)
  | setstate cn state => exact follows_quiet rfl rfl
  | moved cn o gameclip =>
    refine follows_withinfo fun ci => .andThen ?_ (follows_quiet rfl rfl)
    split
    · exact follows_moved ci o gameclip
    · exact .stay
  | sendspawn cn =>
    refine follows_withinfo fun ci => follows_quiet ?_ ?_
    · split <;> rfl
    · split <;> rfl
  | reassign cn o => exact follows_quiet rfl rfl
  | spawned cn =>
    refine follows_withinfo fun ci => ?_
    split
    · exact .andThen (follows_spawned ci) (follows_quiet rfl rfl)
    · exact .stay
  | died cn =>
    refine follows_withinfo fun ci => ?_
    split
    · exact .andThen (follows_died ci) (follows_quiet rfl rfl)
    · exact .stay
  | setteam cn team =>
    refine follows_withinfo fun ci => .andThen ?_ (follows_quiet rfl rfl)
    split
    · exact follows_changeteam ci team
    · exact .stay
  | update gamemillis curtime => exact follows_update gamemillis curtime
  | setlimit gamelimit => exact follows_quiet rfl rfl
  | startintermission => exact follows_quiet rfl rfl

end Capture

/-! ## Games -/

/-- A game: the mode, and the bases of the map as the files of all clients have them. -/
structure BaseGame (P : Type) where
  capture : Capture P := Capture.initial
  map : List Int := []

/-- What happens in a game: the events of the mode, a client who takes ammunition, and a local
client who edits. -/
inductive BaseEvent (P : Type)
  | play (e : CaptureEvent P)
  | replenishammo (cn : Int) (noitems : Bool) (hasmaxammo : Int → Bool)
  | editmode (cn : Int)

namespace BaseGame

variable {P : Type} (inside : Nat → P → Bool) (g : BaseGame P)

/-- The mode does something on the same map. -/
def same (r : Told (Capture P) CaptureMsg) : Told (BaseGame P) CaptureMsg :=
  ⟨{ g with capture := r.state }, r.sent⟩

/-- The map after an event. -/
def mapAfter : CaptureEvent P → List Int
  | .setup _ _ ammotypes _ => ammotypes
  | _ => g.map

/-- One event, with what it sends to every client. -/
def next : BaseEvent P → Told (BaseGame P) CaptureMsg
  | .play e =>
    let r := g.capture.nextTold inside e
    ⟨{ capture := r.state, map := g.mapAfter e }, r.sent⟩
  | .replenishammo cn noitems hasmaxammo => g.same <| g.capture.withinfoTold cn fun ci =>
    g.capture.replenishammoTold inside ci noitems hasmaxammo
  | .editmode cn => g.same <| g.capture.withinfoTold cn fun ci =>
    (g.capture.leavegameTold inside ci).andThen fun s =>
      quiet (s.upd cn fun c => { c with state := .editing })

/-- Who joins is sent the map, the scores and the bases. -/
def welcome : List CaptureMsg := g.capture.initclient g.map

/-- The bases a client sends for a map the server does not have are no more than the map has. -/
def Fits (g : BaseGame P) : BaseEvent P → Prop
  | .play (.parsebases ammotypes) => g.capture.notgotbases → ammotypes.length ≤ g.map.length
  | _ => True

/-- The same for each event of a run. -/
def AllFit : BaseGame P → List (BaseEvent P) → Prop
  | _, [] => True
  | g, e :: es => g.Fits e ∧ AllFit (g.next inside e).state es

variable {inside g}

/-- A client agrees on a game; `fit` is whether the bases were always those of the map. -/
def Agrees (fit : Prop) (g : BaseGame P) (c : CaptureClient) : Prop :=
  ∃ m, (fit → m ≤ g.map.length) ∧ Agree g.map.length m g.capture c

theorem follows_same {fit : Prop} {r : Told (Capture P) CaptureMsg}
    (h : ∀ m, Follows CaptureClient.apply (Agree g.map.length m) g.capture r) :
    Follows CaptureClient.apply (Agrees fit) g (g.same r) := by
  rintro c ⟨m, hm, hc⟩
  exact ⟨m, hm, h m c hc⟩

theorem follows_next {fit : Prop} (e : BaseEvent P) (hfit : fit → g.Fits e) :
    Follows CaptureClient.apply (Agrees fit) g (g.next inside e) := by
  cases e with
  | play e =>
    rintro c ⟨m, hm, hc⟩
    by_cases hsetup : ∃ a b ammotypes d, e = .setup a b ammotypes d
    · obtain ⟨a, b, ammotypes, d, rfl⟩ := hsetup
      obtain ⟨m', hm', hagree⟩ := Capture.follows_setup inside (s := g.capture)
        a b ammotypes d c
      exact ⟨m', fun _ => hm', hagree⟩
    · have hmap : g.mapAfter e = g.map := by
        cases e with
        | setup a b ammotypes d => exact absurd ⟨a, b, ammotypes, d, rfl⟩ hsetup
        | _ => rfl
      by_cases hparse : ∃ ammotypes, e = .parsebases ammotypes
      · obtain ⟨ammotypes, rfl⟩ := hparse
        obtain ⟨m', hm', hagree⟩ := Capture.follows_parsebases inside ammotypes hc
        refine ⟨m', fun h => ?_, hagree⟩
        rcases hm' with rfl | ⟨hnotgot, hle⟩
        · exact hm h
        · exact hle.trans (hfit h hnotgot)
      · refine ⟨m, ?_, ?_⟩
        · simpa [next, hmap] using hm
        · have := Capture.follows_next inside (e := e)
            (fun a b ammotypes d he => hsetup ⟨a, b, ammotypes, d, he⟩)
            (fun ammotypes he => hparse ⟨ammotypes, he⟩) c hc
          simpa [next, hmap] using this
  | replenishammo cn noitems hasmaxammo =>
    exact follows_same fun m => Capture.follows_withinfo fun ci =>
      Capture.follows_replenishammo ci noitems hasmaxammo
  | editmode cn =>
    exact follows_same fun m => Capture.follows_withinfo fun ci =>
      .andThen (Capture.follows_leavegame ci) (Capture.follows_quiet rfl rfl)

/-- The run rule: who agrees at some time agrees from then on. -/
theorem follows_run {fit : Prop} (es : List (BaseEvent P)) (g : BaseGame P)
    (hfit : fit → AllFit inside g es) :
    Follows CaptureClient.apply (Agrees fit) g (replay (next inside) g es) := by
  induction es generalizing g with
  | nil => exact .stay
  | cons e es ih =>
    unfold replay
    rw [loop_cons]
    exact .andThen (follows_next e fun h => (hfit h).1) (ih _ fun h => (hfit h).2)

theorem allFit_append {es₁ es₂ : List (BaseEvent P)} : ∀ {g : BaseGame P},
    AllFit inside g (es₁ ++ es₂) ↔
      AllFit inside g es₁ ∧ AllFit inside (replay (next inside) g es₁).state es₂ := by
  induction es₁ with
  | nil =>
    intro g
    rw [AllFit, true_and]
    rfl
  | cons e es ih =>
    intro g
    unfold replay at ih ⊢
    rw [List.cons_append, AllFit, AllFit, ih, loop_cons, andThen_state, and_assoc]

/-- Who joins after a run agrees.  That the server keeps one score for each team shows in a client
who was there from the beginning. -/
theorem agrees_welcome {fit : Prop} {es : List (BaseEvent P)} (hfit : fit → AllFit inside {} es)
    (c : CaptureClient) :
    Agrees fit (replay (next inside) {} es).state
      ((replay (next inside) {} es).state.welcome.foldl CaptureClient.apply c) := by
  have hstart : Agrees fit ({} : BaseGame P) {} :=
    ⟨0, fun _ => Nat.le_refl 0, rfl, rfl, fun i b v hb => by simp [Capture.initial] at hb, rfl,
      List.nodup_nil⟩
  obtain ⟨m, hm, h⟩ := follows_run es {} hfit {} hstart
  obtain rfl := h.count
  exact ⟨_, hm, Capture.agree_initclient h.scores.distinct _ c⟩

end BaseGame

open BaseGame

/-- **Bases at the clients.**  A client joins after any run; from then on, after every further run,
it has the owner, the enemy and the kind of each base, its ammunition while it is owned and the
progress on it while it is contested, and the scores of all teams.  These are all bases of the
server, unless a client sent more bases for a map than the map has. -/
theorem bases_followed {P : Type} (inside : Nat → P → Bool) (es₁ es₂ : List (BaseEvent P))
    (c₀ : CaptureClient) :
    let g₁ := (replay (BaseGame.next inside) {} es₁).state
    let r := replay (BaseGame.next inside) g₁ es₂
    let c := (g₁.welcome ++ r.sent).foldl CaptureClient.apply c₀
    (∀ i b, r.state.capture.bases[i]? = some b → i < r.state.map.length →
      ∃ v, c.bases[i]? = some v ∧ b.Seen v) ∧
    getteamscore c.scores = getteamscore r.state.capture.scores ∧
    (AllFit inside {} (es₁ ++ es₂) → r.state.capture.bases.length ≤ r.state.map.length) := by
  intro g₁ r c
  have hagree : ∀ fit, (fit → AllFit inside {} (es₁ ++ es₂)) → Agrees fit r.state c := by
    intro fit hfit
    have hsplit : fit → AllFit inside {} es₁ ∧ AllFit inside g₁ es₂ :=
      fun h => allFit_append.1 (hfit h)
    change Agrees fit r.state ((g₁.welcome ++ r.sent).foldl CaptureClient.apply c₀)
    rw [List.foldl_append]
    exact follows_run es₂ g₁ (fun h => (hsplit h).2) _ (agrees_welcome (fun h => (hsplit h).1) c₀)
  refine ⟨fun i b hb hi => ?_, ?_, fun hfit => ?_⟩
  · obtain ⟨m, -, h⟩ := hagree False False.elim
    rw [← h.length] at hi
    exact ⟨c.bases[i], List.getElem?_eq_getElem hi, h.bases i b _ hb (List.getElem?_eq_getElem hi)⟩
  · obtain ⟨m, -, h⟩ := hagree False False.elim
    exact h.scores.totals
  · obtain ⟨m, hm, h⟩ := hagree True fun _ => hfit
    exact h.count.trans_le (hm trivial)

end QServ
