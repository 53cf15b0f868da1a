import Mathlib.Tactic.Ring
import QServ.Lib.Keyed
import QServ.Lib.Run
import QServ.Server.State

/-!
# Skulls

The tokens of `fpsgame/collect.h`: dropped where a player dies, stolen from a base, picked up
by a message of a client, carried, and deposited at a base of the other team.

* `Collect.total`: the tokens deposited, carried and lying on the map.
* `total_le`: in every run they are at most the tokens created and those picked up.
* `tokens_conserved`: a pick-up is credited and the token stays where it lies, so the tokens
  are conserved as long as no pick-up is credited; a message that is not changes nothing.
-/

namespace QServ

/-- What the mode keeps of a client. -/
structure Carrier where
  cn : Int
  team : String
  state : CState
  tokens : Nat := 0
  flags : Int := 0
  deriving DecidableEq, Repr

/-- `collectservmode::token`; `dropper` is the client that dropped it, or `-1 - b` for the base
`b` it was stolen from. -/
structure CollectToken where
  id : Int
  team : Int
  droptime : Int
  dropper : Int
  deriving DecidableEq, Repr

/-- `collectservmode::base`. -/
structure CollectBase where
  team : Int
  laststeal : Int := 0
  deriving DecidableEq, Repr

/-- `collectservmode`, the clients and the clock of the match. -/
structure Collect where
  clients : List Carrier
  bases : List CollectBase
  scores : Int × Int
  tokens : List CollectToken
  nexttoken : Int
  notgotbases : Bool
  gamemillis : Int
  gamelimit : Int
  lastmillis : Int
  interm : Int
  deriving DecidableEq, Repr

/-- What happens in a game of the mode.  `setstate` is any change of what a client is doing
that the mode is not told of. -/
inductive CollectEvent where
  | setup (gotitems : Bool) (teams : List Int) (gamelimit : Int)
  | parsebases (teams : List Int)
  | connected (cn : Int) (team : String) (state : CState)
  | clientdisconnect (cn : Int)
  | forcespectator (cn : Int)
  | setstate (cn : Int) (state : CState)
  | spawn (cn : Int)
  | switchteam (cn : Int) (team : String)
  | died (cn : Int) (penalty : Bool)
  | deposittokens (cn basenum : Int)
  | taketoken (cn id : Int)
  | update (lastmillis gamemillis : Int)
  | startintermission
  deriving DecidableEq, Repr

/-- `collectteambase(s)`. -/
def collectteambase (team : String) : Int := if team = "good" then 1 else if team = "evil" then 2 else 0

namespace Collect

/-- `TOKENLIMIT`. -/
def TOKENLIMIT : Nat := 5

/-- `UNOWNEDTOKENLIMIT`. -/
def UNOWNEDTOKENLIMIT : Nat := 15

/-- `MAXBASES`. -/
def MAXBASES : Nat := 20

/-- `SCORELIMIT`. -/
def SCORELIMIT : Int := 50

/-- `EXPIRETOKENTIME`. -/
def EXPIRETOKENTIME : Int := 10000

/-- `STEALTOKENTIME`. -/
def STEALTOKENTIME : Int := 5000

variable (s : Collect)

/-- `getinfo(cn)` for a connected client. -/
def getinfo (cn : Int) : Option Carrier := Keyed.lookup Carrier.cn cn s.clients

/-- Write through a `clientinfo *`. -/
def upd (cn : Int) (f : Carrier → Carrier) : Collect :=
  { s with clients := Keyed.modify Carrier.cn cn f s.clients }

/-- `totalscore(team)`. -/
def totalscore (team : Int) : Int :=
  if team = 1 then s.scores.1 else if team = 2 then s.scores.2 else 0

/-- `addscore(team, score)`; it returns `totalscore(team)` of the result. -/
def addscore (team score : Int) : Collect :=
  if team = 1 then { s with scores := (s.scores.1 + score, s.scores.2) }
  else if team = 2 then { s with scores := (s.scores.1, s.scores.2 + score) }
  else s

/-- `findtoken(id)`. -/
def findtoken (id : Int) : Option CollectToken := s.tokens.find? fun t => t.id = id

/-- `droptoken`. -/
def droptoken (team dropper : Int) : Collect :=
  let next := int32 (s.nexttoken + 1)
  let next := if next < 0 then 1 else next
  { s with nexttoken := next,
           tokens := s.tokens ++ [{ id := next, team, droptime := s.lastmillis, dropper }] }

/-- `tokens.removeunordered(i)`: the last token takes the place of the one removed. -/
def removeunordered (l : List CollectToken) (i : Nat) : List CollectToken :=
  match l.getLast? with
  | none => []
  | some last => (l.set i last).dropLast

/-- `loopvrev(tokens)`: a token is changed, or removed, and something is counted. -/
def sweep {κ : Type} (body : κ → CollectToken → κ × Option CollectToken) : Nat → κ → List CollectToken → List CollectToken
  | 0, _, l => l
  | i + 1, k, l =>
    match l[i]? with
    | none => sweep body i k l
    | some t =>
      match body k t with
      | (k, none) => sweep body i k (removeunordered l i)
      | (k, some t) => sweep body i k (l.set i t)

/-- One of the two counters is advanced, and the token removed where it passes the limit. -/
def overlimit (limit : Nat) (team : Int) (k : Nat × Nat) (t : CollectToken) : (Nat × Nat) × Option CollectToken :=
  if t.team = team then ((k.1 + 1, k.2), if limit < k.1 + 1 then none else some t)
  else ((k.1, k.2 + 1), if limit < k.2 + 1 then none else some t)

/-- `loopi(numdrops) droptoken(...)`: the first token is the one of the player. -/
def dropall (team dropper : Int) : Nat → Collect → Collect
  | 0, s => s
  | n + 1, s => (dropall team dropper n s).droptoken (if n = 0 then team else -team) dropper

/-- The tokens that stay where a client drops its own and `carried` others. -/
def keeptokens (ci : Carrier) (carried : Nat) : List CollectToken :=
  sweep (fun k t =>
    if t.dropper = ci.cn then overlimit TOKENLIMIT (collectteambase ci.team) k t else (k, some t))
    s.tokens.length (1, carried) s.tokens

/-- `droptokens(ci, penalty)`. -/
def droptokens (ci : Carrier) (penalty : Bool) : Collect :=
  if s.notgotbases then s
  else
    let carried := if penalty then 0 else ci.tokens
    let s := { s with tokens := s.keeptokens ci carried }
    (dropall (collectteambase ci.team) ci.cn (1 + carried) s).upd ci.cn fun c =>
      { c with tokens := 0 }

/-- The dropper of a token whose dropper has left. -/
def INT_MIN : Int := -2147483648

/-- `leavegame(ci, disconnecting)`. -/
def leavegame (ci : Carrier) (disconnecting : Bool) : Collect :=
  let s := s.upd ci.cn fun c => { c with tokens := 0 }
  if !disconnecting then s
  else
    let team := collectteambase ci.team
    let tokens := sweep (fun k t =>
      if t.dropper = ci.cn then overlimit UNOWNEDTOKENLIMIT team k { t with dropper := INT_MIN }
      else if INT_MIN < t.dropper then (k, some t)
      else overlimit UNOWNEDTOKENLIMIT team k t)
      s.tokens.length (0, 0) s.tokens
    { s with tokens }

/-- `startintermission()`. -/
def startintermission : Collect :=
  { s with gamelimit := min s.gamelimit s.gamemillis,
           interm := if s.interm = 0 then s.gamemillis + 10000 else s.interm }

/-- `deposittokens(ci, basenum)`. -/
def deposittokens (ci : Carrier) (basenum : Int) : Collect :=
  if s.notgotbases ∨ basenum < 0 ∨ ci.state ≠ .alive ∨ ci.team = "" then s
  else
    match s.bases[basenum.toNat]? with
    | none => s
    | some b =>
      if b.team ≠ 1 ∧ b.team ≠ 2 then s
      else
        let team := collectteambase ci.team
        let steal := s.bases.set basenum.toNat { b with laststeal := s.gamemillis }
        if b.team = team then s
        else if 0 < ci.tokens then
          let s := { s with bases := steal }.addscore team ci.tokens
          let score := s.totalscore team
          let s := s.upd ci.cn fun c => { c with flags := c.flags + ci.tokens, tokens := 0 }
          if SCORELIMIT ≤ score then s.startintermission else s
        else if s.gamemillis < b.laststeal + STEALTOKENTIME then s
        else if s.totalscore b.team ≤ 0 then s
        else if (s.tokens.filter fun t => t.dropper = -1 - basenum).length < TOKENLIMIT then
          ({ s with bases := steal }.addscore b.team (-1)).droptoken team (-1 - basenum)
        else s

/-- Is the pick-up of a token by a client of this team credited? -/
def takes (ci : Carrier) (t : CollectToken) : Bool :=
  let team := collectteambase ci.team
  t.team ≠ team && (0 < t.team || -t.team = team) && ci.tokens < TOKENLIMIT

/-- `taketoken(ci, id)`. -/
def taketoken (ci : Carrier) (id : Int) : Collect :=
  if s.notgotbases ∨ ci.state ≠ .alive ∨ ci.team = "" then s
  else
    match s.findtoken id with
    | none => s
    | some t => if takes ci t then s.upd ci.cn fun c => { c with tokens := c.tokens + 1 } else s

/-- `update()` at the times of a frame. -/
def update (lastmillis gamemillis : Int) : Collect :=
  let s := { s with lastmillis, gamemillis }
  if s.gamelimit ≤ s.gamemillis ∨ s.notgotbases then s
  else
    let tokens := sweep (fun (_ : Unit) t =>
      ((), if EXPIRETOKENTIME ≤ s.lastmillis - t.droptime then none else some t))
      s.tokens.length () s.tokens
    { s with tokens }

/-- `setup()`, after the clients were reset for a new map: the bases are known at once if the
map is. -/
def setup (gotitems : Bool) (teams : List Int) (gamelimit : Int) : Collect :=
  { s with
    clients := s.clients.map fun c =>
      { c with tokens := 0, flags := 0, state := if c.state = .spectator then .spectator else .dead },
    bases := if gotitems then
        ((teams.filter fun t => t = 1 || t = 2).take MAXBASES).map fun team => { team }
      else [],
    scores := (0, 0), tokens := [], nexttoken := 0, notgotbases := !gotitems,
    gamemillis := 0, gamelimit, interm := 0 }

/-- `parsebases(p, commit)` of a list of bases that is taken over. -/
def parsebases (teams : List Int) : Collect :=
  if s.notgotbases then
    { s with notgotbases := false, bases := (teams.take MAXBASES).map fun team => { team } }
  else s

/-- Run something on a client that is connected. -/
def withinfo (cn : Int) (f : Carrier → Collect) : Collect :=
  match s.getinfo cn with
  | none => s
  | some ci => f ci

/-- One event. -/
def step (s : Collect) : CollectEvent → Collect
  | .setup gotitems teams gamelimit => s.setup gotitems teams gamelimit
  | .parsebases teams => s.parsebases teams
  | .connected cn team state =>
    if s.getinfo cn = none then { s with clients := s.clients ++ [{ cn, team, state }] } else s
  | .clientdisconnect cn => s.withinfo cn fun ci =>
    let s := s.leavegame ci true
    { s with clients := Keyed.remove Carrier.cn cn s.clients }
  | .forcespectator cn => s.withinfo cn fun ci =>
    (s.leavegame ci false).upd cn fun c => { c with state := .spectator }
  | .setstate cn state => s.upd cn fun c => { c with state }
  | .spawn cn => s.upd cn fun c => { c with state := .alive, tokens := 0 }
  | .switchteam cn team => s.upd cn fun c => { c with team }
  | .died cn penalty => s.withinfo cn fun ci =>
    (s.droptokens ci penalty).upd cn fun c => { c with state := .dead }
  | .deposittokens cn basenum => s.withinfo cn fun ci => s.deposittokens ci basenum
  | .taketoken cn id => s.withinfo cn fun ci => s.taketoken ci id
  | .update lastmillis gamemillis => s.update lastmillis gamemillis
  | .startintermission => s.startintermission

/-- The tokens deposited, carried and lying on the map. -/
def total : Int :=
  s.scores.1 + s.scores.2 + (s.clients.map fun c => (c.tokens : Int)).sum + s.tokens.length

end Collect

/-! ## The books of a match -/

/-- A game with what is not kept by the server: how many tokens were created, how many pick-ups
were credited, and how many of them for each token on the map.  A token that is carried and
dropped again is not a new one, nor is one that is stolen. -/
structure CollectWorld where
  game : Collect
  created : Nat
  picked : Nat
  credits : Int → Nat

namespace CollectWorld

variable (w : CollectWorld)

/-- The message is one whose pick-up is credited. -/
def Credited (cn id : Int) : Prop :=
  w.game.notgotbases = false ∧ ∃ ci t, w.game.getinfo cn = some ci ∧ w.game.findtoken id = some t ∧
    ci.state = .alive ∧ ci.team ≠ "" ∧ Collect.takes ci t = true

instance (cn id : Int) : Decidable (w.Credited cn id) :=
  decidable_of_iff (w.game.notgotbases = false ∧ ∃ ci ∈ w.game.getinfo cn,
    ∃ t ∈ w.game.findtoken id, ci.state = .alive ∧ ci.team ≠ "" ∧ Collect.takes ci t = true) <| by
    simp [Credited]

/-- One event. -/
def step (w : CollectWorld) (e : CollectEvent) : Except Fault CollectWorld :=
  .ok <| match e with
  | .setup .. => { game := w.game.step e, created := 0, picked := 0, credits := fun _ => 0 }
  | .died cn _ =>
    if w.game.notgotbases = false ∧ (w.game.getinfo cn).isSome then
      { w with game := w.game.step e, created := w.created + 1 }
    else { w with game := w.game.step e }
  | .taketoken cn id =>
    if w.Credited cn id then
      { w with game := w.game.step e, picked := w.picked + 1,
               credits := fun j => if j = id then w.credits j + 1 else w.credits j }
    else { w with game := w.game.step e }
  | _ => { w with game := w.game.step e }

/-- No client is connected and no map loaded. -/
def initial : CollectWorld where
  game := { clients := [], bases := [], scores := (0, 0), tokens := [], nexttoken := 0,
            notgotbases := true, gamemillis := 0, gamelimit := 0, lastmillis := 0, interm := 0 }
  created := 0
  picked := 0
  credits := fun _ => 0

/-- No pick-up is credited. -/
def Clean (w : CollectWorld) : CollectEvent → Prop
  | .taketoken cn id => ¬w.Credited cn id
  | _ => True

instance (e : CollectEvent) : Decidable (w.Clean e) :=
  match e with
  | .taketoken cn id => inferInstanceAs (Decidable (¬w.Credited cn id))
  | .setup .. | .parsebases _ | .connected .. | .clientdisconnect _ | .forcespectator _
  | .setstate .. | .spawn _ | .switchteam .. | .died .. | .deposittokens .. | .update ..
  | .startintermission => inferInstanceAs (Decidable True)

/-- **The books of a match**: every client has a slot of its own, and there are no more tokens
than were created and picked up. -/
structure Law (w : CollectWorld) : Prop where
  nodup : (w.game.clients.map Carrier.cn).Nodup
  le : w.game.total ≤ w.created + w.picked

end CollectWorld

namespace Collect

variable {s : Collect}

/-! ## Lists of tokens -/

theorem length_removeunordered {l : List CollectToken} {i : Nat} (hi : i < l.length) :
    (removeunordered l i).length = l.length - 1 := by
  unfold removeunordered
  cases hl : l.getLast? with
  | none =>
    rw [List.getLast?_eq_none_iff] at hl
    simp [hl] at hi
  | some last => simp

theorem length_sweep {κ : Type} (body : κ → CollectToken → κ × Option CollectToken) (n : Nat) (k : κ)
    (l : List CollectToken) : (sweep body n k l).length ≤ l.length := by
  induction n generalizing k l with
  | zero => exact le_refl _
  | succ i ih =>
    unfold sweep
    split
    · exact ih k l
    · next t ht =>
      have hi : i < l.length := (List.getElem?_eq_some_iff.mp ht).1
      split
      · refine (ih _ _).trans ?_
        rw [length_removeunordered hi]
        exact Nat.sub_le _ _
      · refine (ih _ _).trans ?_
        rw [List.length_set]

/-! ## What an operation does to the tokens -/

/-- The tokens a client carries. -/
def carried (s : Collect) : Int := (s.clients.map fun c => (c.tokens : Int)).sum

theorem total_eq : s.total = s.scores.1 + s.scores.2 + s.carried + s.tokens.length := rfl

theorem carried_upd (hnd : (s.clients.map Carrier.cn).Nodup) {cn : Int} {c : Carrier}
    (hc : s.getinfo cn = some c) (f : Carrier → Carrier) :
    (s.upd cn f).carried = s.carried - c.tokens + (f c).tokens :=
  Keyed.sum_modify (fun c : Carrier => (c.tokens : Int)) hnd hc

theorem upd_of_none {cn : Int} (hc : s.getinfo cn = none) (f : Carrier → Carrier) :
    s.upd cn f = s := by
  rw [upd, Keyed.modify_of_not_mem (Keyed.lookup_eq_none.mp hc)]

theorem nodup_upd (hnd : (s.clients.map Carrier.cn).Nodup) (cn : Int) {f : Carrier → Carrier}
    (hf : ∀ c, (f c).cn = c.cn) : ((s.upd cn f).clients.map Carrier.cn).Nodup := by
  rw [upd, Keyed.map_modify hf]
  exact hnd

/-- A change of a client that gives it no tokens. -/
theorem total_upd_le (hnd : (s.clients.map Carrier.cn).Nodup) (cn : Int) {f : Carrier → Carrier}
    (hf : ∀ c, (f c).tokens ≤ c.tokens) : (s.upd cn f).total ≤ s.total := by
  cases hc : s.getinfo cn with
  | none => rw [upd_of_none hc]
  | some c =>
    have hcar := carried_upd hnd hc f
    have hle : ((f c).tokens : Int) ≤ c.tokens := Int.ofNat_le.mpr (hf c)
    have : (s.upd cn f).total =
        s.scores.1 + s.scores.2 + (s.upd cn f).carried + s.tokens.length := rfl
    rw [this, hcar, total_eq]
    omega

theorem total_remove_le (hnd : (s.clients.map Carrier.cn).Nodup) (cn : Int) :
    { s with clients := Keyed.remove Carrier.cn cn s.clients }.total ≤ s.total := by
  cases hc : s.getinfo cn with
  | none => rw [Keyed.remove_of_not_mem (Keyed.lookup_eq_none.mp hc)]
  | some c =>
    have hsum := Keyed.sum_remove (fun c : Carrier => (c.tokens : Int)) hnd hc
    simp only [total, hsum]
    omega

theorem total_addscore (team score : Int) :
    (s.addscore team score).total = s.total + if team = 1 ∨ team = 2 then score else 0 := by
  unfold addscore
  by_cases h1 : team = 1
  · simp only [h1, if_true, total]
    simp
    omega
  · by_cases h2 : team = 2
    · simp only [h2, total]
      simp
      omega
    · simp [h1, h2]

@[simp] theorem clients_addscore (team score : Int) : (s.addscore team score).clients = s.clients := by
  unfold addscore
  split_ifs <;> rfl

@[simp] theorem clients_droptoken (team dropper : Int) :
    (s.droptoken team dropper).clients = s.clients := rfl

theorem total_droptoken (team dropper : Int) : (s.droptoken team dropper).total = s.total + 1 := by
  simp only [droptoken, total, List.length_append, List.length_singleton]
  omega

theorem clients_dropall (team dropper : Int) (n : Nat) :
    (dropall team dropper n s).clients = s.clients := by
  induction n with
  | zero => rfl
  | succ n ih => rw [dropall, clients_droptoken, ih]

theorem total_dropall (team dropper : Int) (n : Nat) :
    (dropall team dropper n s).total = s.total + n := by
  induction n with
  | zero => simp [dropall]
  | succ n ih =>
    rw [dropall, total_droptoken, ih]
    omega

/-- Fewer tokens on the map. -/
theorem total_tokens_le {tokens : List CollectToken} (h : tokens.length ≤ s.tokens.length) :
    { s with tokens }.total ≤ s.total := by
  simp only [total]
  omega

/-- What a client carries is gone. -/
theorem total_upd_zero (hnd : (s.clients.map Carrier.cn).Nodup) {ci : Carrier}
    (hci : s.getinfo ci.cn = some ci) {f : Carrier → Carrier} (hf : ∀ c, (f c).tokens = 0) :
    (s.upd ci.cn f).total = s.total - ci.tokens := by
  have hcar := carried_upd hnd hci f
  rw [hf ci] at hcar
  have : (s.upd ci.cn f).total =
      s.scores.1 + s.scores.2 + (s.upd ci.cn f).carried + s.tokens.length := rfl
  rw [this, hcar, total_eq]
  omega

/-- Tokens are dropped by a client and it carries none. -/
theorem total_drop (hnd : (s.clients.map Carrier.cn).Nodup) {ci : Carrier}
    (hci : s.getinfo ci.cn = some ci) (team : Int) (n : Nat) :
    ((dropall team ci.cn n s).upd ci.cn fun c => { c with tokens := 0 }).total =
      s.total + n - ci.tokens := by
  have hclients := clients_dropall (s := s) team ci.cn n
  have hget : (dropall team ci.cn n s).getinfo ci.cn = some ci := by
    rw [getinfo, hclients]
    exact hci
  rw [total_upd_zero (by rw [hclients]; exact hnd) hget fun _ => rfl, total_dropall]

/-- **A death** creates the token of the player who died; the others were carried by him. -/
theorem total_droptokens_le (hnd : (s.clients.map Carrier.cn).Nodup) {ci : Carrier}
    (hci : s.getinfo ci.cn = some ci) (penalty : Bool) :
    (s.droptokens ci penalty).total ≤ s.total + if s.notgotbases then 0 else 1 := by
  unfold droptokens
  split
  · simp
  · simp only
    generalize hk : (if penalty = true then 0 else ci.tokens) = carried
    have hle : carried ≤ ci.tokens := by
      rw [← hk]
      split
      · exact Nat.zero_le _
      · exact le_refl _
    have hkeep : { s with tokens := s.keeptokens ci carried }.total ≤ s.total :=
      total_tokens_le (length_sweep _ _ _ _)
    have hdrop := total_drop (s := { s with tokens := s.keeptokens ci carried }) hnd hci
      (collectteambase ci.team) (1 + carried)
    rw [hdrop]
    push_cast
    omega

theorem total_leavegame_le (hnd : (s.clients.map Carrier.cn).Nodup) (ci : Carrier)
    (disconnecting : Bool) : (s.leavegame ci disconnecting).total ≤ s.total := by
  have hupd := total_upd_le hnd ci.cn (f := fun c => { c with tokens := 0 }) fun c => Nat.zero_le _
  unfold leavegame
  split
  · exact hupd
  · exact (total_tokens_le (length_sweep _ _ _ _)).trans hupd

theorem total_startintermission : s.startintermission.total = s.total := rfl

/-- **A deposit** moves what is carried to the score, a theft moves a token of the score to the
map. -/
theorem total_deposittokens_le (hnd : (s.clients.map Carrier.cn).Nodup) {ci : Carrier}
    (hci : s.getinfo ci.cn = some ci) (basenum : Int) :
    (s.deposittokens ci basenum).total ≤ s.total := by
  have hscore : ∀ bases, (({ s with bases }.addscore (collectteambase ci.team) ci.tokens).upd ci.cn
      fun c => { c with flags := c.flags + ci.tokens, tokens := 0 }).total ≤ s.total := by
    intro bases
    have hget : ({ s with bases }.addscore (collectteambase ci.team) ci.tokens).getinfo ci.cn =
        some ci := by
      rw [getinfo, clients_addscore]
      exact hci
    rw [total_upd_zero (by rw [clients_addscore]; exact hnd) hget fun _ => rfl, total_addscore]
    have : { s with bases }.total = s.total := rfl
    rw [this]
    split_ifs <;> omega
  unfold deposittokens
  split
  · exact le_refl _
  · split
    · exact le_refl _
    · next b hb =>
      simp only
      split_ifs with hteam hown htokens hlimit hsoon hpoor hfew
      · exact le_refl _
      · exact le_refl _
      · exact hscore _
      · exact hscore _
      · exact le_refl _
      · exact le_refl _
      · have hb' : b.team = 1 ∨ b.team = 2 := by omega
        rw [total_droptoken, total_addscore, if_pos hb']
        simp [total]
      · exact le_refl _

theorem total_update_le (lastmillis gamemillis : Int) :
    (s.update lastmillis gamemillis).total ≤ s.total := by
  unfold update
  simp only
  split
  · exact le_refl _
  · exact total_tokens_le (s := { s with lastmillis, gamemillis }) (length_sweep _ _ _ _)

/-! ## The clients an operation leaves -/

theorem nodup_deposittokens (hnd : (s.clients.map Carrier.cn).Nodup) (ci : Carrier)
    (basenum : Int) : ((s.deposittokens ci basenum).clients.map Carrier.cn).Nodup := by
  unfold deposittokens
  split
  · exact hnd
  · split
    · exact hnd
    · simp only
      split_ifs
      · exact hnd
      · exact hnd
      · exact nodup_upd (by rw [clients_addscore]; exact hnd) ci.cn fun _ => rfl
      · exact nodup_upd (by rw [clients_addscore]; exact hnd) ci.cn fun _ => rfl
      · exact hnd
      · exact hnd
      · rw [clients_droptoken, clients_addscore]
        exact hnd
      · exact hnd

theorem nodup_droptokens (hnd : (s.clients.map Carrier.cn).Nodup) (ci : Carrier) (penalty : Bool) :
    ((s.droptokens ci penalty).clients.map Carrier.cn).Nodup := by
  unfold droptokens
  split
  · exact hnd
  · exact nodup_upd (by rw [clients_dropall]; exact hnd) ci.cn fun _ => rfl

theorem nodup_leavegame (hnd : (s.clients.map Carrier.cn).Nodup) (ci : Carrier)
    (disconnecting : Bool) :
    ((s.leavegame ci disconnecting).clients.map Carrier.cn).Nodup := by
  have := nodup_upd hnd ci.cn (f := fun c => { c with tokens := 0 }) fun _ => rfl
  unfold leavegame
  split
  · exact this
  · exact this

theorem getinfo_cn {cn : Int} {ci : Carrier} (h : s.getinfo cn = some ci) :
    s.getinfo ci.cn = some ci := by
  rw [(Keyed.lookup_mem h).2]
  exact h

end Collect

namespace CollectWorld

open Collect

variable {w : CollectWorld}

/-! ## Pick-ups -/

/-- A pick-up that is not credited changes nothing. -/
theorem taketoken_refused {cn id : Int} (h : ¬w.Credited cn id) :
    w.game.step (.taketoken cn id) = w.game := by
  simp only [Collect.step, withinfo]
  cases hg : w.game.getinfo cn with
  | none => rfl
  | some ci =>
    simp only [taketoken]
    split
    · rfl
    · next hok =>
      cases ht : w.game.findtoken id with
      | none => rfl
      | some t =>
        simp only
        split
        · next htakes =>
          simp only [not_or] at hok
          exact absurd ⟨by simpa using hok.1, ci, t, hg, ht, by simpa using hok.2.1, hok.2.2, htakes⟩ h
        · rfl

/-- **A pick-up that is credited** gives the client a token and leaves the one on the map. -/
theorem taketoken_credited (hnd : (w.game.clients.map Carrier.cn).Nodup) {cn id : Int}
    (h : w.Credited cn id) :
    (w.game.step (.taketoken cn id)).total = w.game.total + 1 ∧
      ((w.game.step (.taketoken cn id)).clients.map Carrier.cn).Nodup ∧
      (w.game.step (.taketoken cn id)).tokens = w.game.tokens := by
  obtain ⟨hgot, ci, t, hg, ht, halive, hteam, htakes⟩ := h
  have hstep : w.game.step (.taketoken cn id) =
      w.game.upd ci.cn fun c => { c with tokens := c.tokens + 1 } := by
    simp [Collect.step, withinfo, hg, taketoken, hgot, halive, hteam, ht, htakes]
  have hcar := carried_upd hnd (getinfo_cn hg) fun c => { c with tokens := c.tokens + 1 }
  rw [hstep]
  refine ⟨?_, nodup_upd hnd ci.cn fun _ => rfl, rfl⟩
  have htot : (w.game.upd ci.cn fun c => { c with tokens := c.tokens + 1 }).total =
      w.game.scores.1 + w.game.scores.2 +
        (w.game.upd ci.cn fun c => { c with tokens := c.tokens + 1 }).carried +
        w.game.tokens.length := rfl
  rw [htot, hcar, total_eq]
  push_cast
  omega

/-! ## Runs -/

/-- An event at which no token is created and none picked up. -/
theorem Law.keep (h : w.Law) {game : Collect} (hnd : (game.clients.map Carrier.cn).Nodup)
    (hle : game.total ≤ w.game.total) : Law { w with game } :=
  ⟨hnd, hle.trans h.le⟩

/-- **One event** of any kind keeps the books. -/
theorem Law.step (h : w.Law) {e : CollectEvent} {v : CollectWorld} (hv : w.step e = .ok v) :
    v.Law := by
  obtain rfl := Except.ok.inj hv
  cases e with
  | setup gotitems teams gamelimit =>
    refine ⟨?_, ?_⟩
    · simp only [Collect.step, setup, List.map_map]
      exact h.nodup
    · simp [Collect.step, setup, total, Function.comp_def]
  | parsebases teams =>
    simp only [Collect.step, parsebases]
    split
    · exact h.keep h.nodup (le_refl _)
    · exact h
  | connected cn team state =>
    simp only [Collect.step]
    split
    · next hfree =>
      refine h.keep (Keyed.nodup_add h.nodup hfree) ?_
      simp [total]
    · exact h
  | clientdisconnect cn =>
    simp only [Collect.step, withinfo]
    split
    · exact h
    · next ci hg =>
      have hnd := nodup_leavegame h.nodup ci true
      exact h.keep (Keyed.nodup_remove hnd)
        ((total_remove_le hnd cn).trans (total_leavegame_le h.nodup ci true))
  | forcespectator cn =>
    simp only [Collect.step, withinfo]
    split
    · exact h
    · next ci hg =>
      have hnd := nodup_leavegame h.nodup ci false
      refine h.keep (nodup_upd hnd cn fun _ => rfl) (le_trans ?_ (total_leavegame_le h.nodup ci false))
      exact total_upd_le hnd cn (f := fun c => { c with state := .spectator }) fun c => le_refl c.tokens
  | setstate cn state =>
    exact h.keep (nodup_upd h.nodup cn fun _ => rfl) (total_upd_le h.nodup cn fun c => le_refl c.tokens)
  | spawn cn =>
    exact h.keep (nodup_upd h.nodup cn fun _ => rfl) (total_upd_le h.nodup cn fun c => Nat.zero_le _)
  | switchteam cn team =>
    exact h.keep (nodup_upd h.nodup cn fun _ => rfl) (total_upd_le h.nodup cn fun c => le_refl c.tokens)
  | died cn penalty =>
    cases hg : w.game.getinfo cn with
    | none => simpa [Collect.step, withinfo, hg] using h
    | some ci =>
      have hdrop := total_droptokens_le h.nodup (getinfo_cn hg) penalty
      have hnd := nodup_droptokens h.nodup ci penalty
      have hle := total_upd_le hnd cn (f := fun c => { c with state := .dead }) fun c => le_refl c.tokens
      have hlaw := h.le
      simp only [Collect.step, withinfo, hg, Option.isSome_some, and_true]
      cases hgot : w.game.notgotbases with
      | true =>
        refine h.keep (nodup_upd hnd cn fun _ => rfl) (hle.trans ?_)
        simpa [hgot] using hdrop
      | false =>
        refine ⟨nodup_upd hnd cn fun _ => rfl, ?_⟩
        simp only [hgot] at hdrop
        simp at hdrop ⊢
        omega
  | deposittokens cn basenum =>
    simp only [Collect.step, withinfo]
    split
    · exact h
    · next ci hg =>
      exact h.keep (nodup_deposittokens h.nodup ci basenum)
        (total_deposittokens_le h.nodup (getinfo_cn hg) basenum)
  | taketoken cn id =>
    by_cases hcred : w.Credited cn id
    · obtain ⟨htot, hnd, -⟩ := taketoken_credited h.nodup hcred
      have hle := h.le
      simp only [hcred, if_true]
      refine ⟨hnd, ?_⟩
      rw [htot]
      push_cast
      omega
    · simp only [hcred, if_false]
      rw [taketoken_refused hcred]
      exact h
  | update lastmillis gamemillis =>
    refine h.keep ?_ (total_update_le lastmillis gamemillis)
    simp only [Collect.step, update]
    split <;> exact h.nodup
  | startintermission => exact h.keep h.nodup (le_refl _)

theorem law_initial : initial.Law := by
  refine ⟨List.nodup_nil, ?_⟩
  simp [initial, total]

/-- **Every run**: the tokens deposited, carried and lying on the map are at most those created
and those picked up. -/
theorem total_le {ok : CollectWorld → CollectEvent → Prop} {es : List CollectEvent}
    (hrun : Run.Steps CollectWorld.step ok initial es w) : w.Law :=
  hrun.invariant Law (fun _ _ _ h _ hv => h.step hv) law_initial

/-- Nothing was picked up. -/
theorem credits_of_clean {es : List CollectEvent}
    (hrun : Run.Steps CollectWorld.step Clean initial es w) :
    w.picked = 0 ∧ ∀ id, w.credits id = 0 := by
  refine hrun.invariant (fun w => w.picked = 0 ∧ ∀ id, w.credits id = 0) ?_ ⟨rfl, fun _ => rfl⟩
  intro w e v hw hc hv
  obtain rfl := Except.ok.inj hv
  cases e with
  | setup gotitems teams gamelimit => exact ⟨rfl, fun _ => rfl⟩
  | taketoken cn id =>
    have hc : ¬w.Credited cn id := hc
    simpa [hc] using hw
  | died cn penalty =>
    simp only
    split <;> exact hw
  | _ => exact hw

/-- **Tokens are conserved** as long as no pick-up is credited: no token is credited twice, and
those deposited, carried and lying on the map are at most those created.  A message changes
nothing exactly if its pick-up is not credited; one that is makes a token out of nothing, and
leaves the token it names on the map. -/
theorem tokens_conserved {es : List CollectEvent}
    (hrun : Run.Steps CollectWorld.step Clean initial es w) :
    w.game.total ≤ w.created ∧ (∀ id, w.credits id ≤ 1) ∧
      ∀ cn id v, w.step (.taketoken cn id) = .ok v →
        (v.game = w.game ↔ w.Clean (.taketoken cn id)) ∧
        (¬w.Clean (.taketoken cn id) → v.game.total = w.game.total + 1 ∧ v.created = w.created ∧
          v.game.findtoken id = w.game.findtoken id) := by
  have hlaw := total_le hrun
  obtain ⟨hpicked, hcredits⟩ := credits_of_clean hrun
  refine ⟨?_, fun id => by rw [hcredits id]; exact Nat.zero_le 1, ?_⟩
  · have := hlaw.le
    rw [hpicked] at this
    simpa using this
  · intro cn id v hv
    obtain rfl := Except.ok.inj hv
    by_cases hcred : w.Credited cn id
    · obtain ⟨htot, -, htokens⟩ := taketoken_credited hlaw.nodup hcred
      simp only [if_pos hcred]
      refine ⟨⟨fun heq => ?_, fun hclean => absurd hcred hclean⟩, fun _ => ⟨htot, trivial, ?_⟩⟩
      · rw [heq] at htot
        omega
      · unfold findtoken
        rw [htokens]
    · simp only [hcred, if_false]
      exact ⟨⟨fun _ => hcred, fun _ => taketoken_refused hcred⟩, fun h => absurd hcred h⟩

/-- Two players meet; the one who dies leaves his token, which nobody takes. -/
theorem tokens_conserved_death : ∃ w : CollectWorld, w.created = 1 ∧ w.game.total ≤ 1 ∧
    w.game.tokens.length = 1 := by
  obtain ⟨w, hrun, hc, hl⟩ := Run.Steps.of_execIf CollectWorld.step Clean initial
    [.setup true [1, 2] 600000, .connected 0 "good" .dead, .connected 1 "evil" .dead,
      .spawn 0, .spawn 1, .died 0 false, .taketoken 1 9]
    (p := fun w => w.created = 1 ∧ w.game.tokens.length = 1) (by decide)
  have hle := (tokens_conserved hrun).1
  rw [hc] at hle
  exact ⟨w, hc, hle, hl⟩

/-- One token is picked up twice by the same message. -/
theorem token_taken_twice : ∃ w : CollectWorld, Run.Reachable CollectWorld.step initial w ∧
    w.created = 1 ∧ w.credits 1 = 2 ∧ w.game.total = 3 := by
  obtain ⟨w, hrun, hw⟩ := Run.Reachable.of_any CollectWorld.step initial
    [.setup true [1, 2] 600000, .connected 0 "good" .dead, .connected 1 "evil" .dead,
      .spawn 0, .spawn 1, .died 0 false, .taketoken 1 1, .taketoken 1 1]
    (p := fun w => w.created = 1 ∧ w.credits 1 = 2 ∧ w.game.total = 3) (by decide)
  exact ⟨w, hrun, of_decide_eq_true hw⟩

end CollectWorld
end QServ
