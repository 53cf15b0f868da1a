import Mathlib.Data.List.Basic
import QServ.Lib.Keyed
import QServ.Lib.Run
import QServ.Server.State

/-!
# Scores kept for players who leave

`findscore`, `savescore` and `restorescore` with the list `scores`, and the parts of
`clientdisconnect`, `connected` and the rest of `fpsgame/server.cpp` that change what they read.

* `World.ledger`: who left last under a name and an address, and with what score.
* `saved_current_iff`: leaving saves the score a player has exactly if he has nothing of what
  the disconnect handler zeroes first.
* `restorescore_returns`: as long as everybody leaves so, and no two players use one name and
  address, a player who comes back before the match ends has the score he left with.
-/

namespace QServ

/-- What `savedscore::save` copies from the state of a player and `restore` copies back.
`effectiveness` holds the bits of a `float`. -/
structure Score where
  frags : Int := 0
  flags : Int := 0
  deaths : Int := 0
  teamkills : Int := 0
  shotdamage : Int := 0
  damage : Int := 0
  timeplayed : Int := 0
  effectiveness : UInt32 := 0
  deriving DecidableEq, Repr

/-- `savedscore`. -/
structure SavedScore where
  ip : Nat
  name : String
  score : Score
  deriving DecidableEq, Repr

/-- A connected client.  `who` is the person at the other end, whom the server does not see;
the address of a bot and of a local client is 0. -/
structure Player where
  cn : Int
  who : Nat
  ip : Nat
  name : String
  isLocal : Bool
  spectator : Bool
  score : Score
  lasttimeplayed : Int
  statsSaved : Bool := false
  lastUpdateTimeSp : Int := 0
  lastUpdateTimeLb : Int := 0
  deriving DecidableEq, Repr

/-- The players and the saved scores of a match. -/
structure Match where
  clients : List Player
  scores : List SavedScore
  lastmillis : Int
  deriving DecidableEq, Repr

/-- What happens in a match.  `play` is any change of the counters that are part of the game,
`account` the update of the time played where teams are chosen. -/
inductive MatchEvent where
  | connected (cn : Int) (who ip : Nat) (name : String) (isLocal spectator : Bool)
  | addai (cn : Int) (name : String)
  | deleteai (cn : Int)
  | clientdisconnect (cn : Int)
  | switchname (cn : Int) (name : String)
  | play (cn : Int) (frags flags deaths teamkills shotdamage damage : Int) (effectiveness : UInt32)
  | account (cn : Int)
  | spectate (cn : Int)
  | unspectate (cn : Int)
  | tick (lastmillis : Int)
  | changemap
  deriving DecidableEq, Repr

namespace Match

variable (s : Match)

/-- `getinfo(cn)` for a connected client. -/
def getinfo (cn : Int) : Option Player := Keyed.lookup Player.cn cn s.clients

/-- Write through a `clientinfo *`. -/
def upd (cn : Int) (f : Player → Player) : Match :=
  { s with clients := Keyed.modify Player.cn cn f s.clients }

/-- `ci->state.timeplayed += lastmillis - ci->state.lasttimeplayed`. -/
def addtime (c : Player) : Player :=
  { c with score := { c.score with timeplayed := c.score.timeplayed + (s.lastmillis - c.lasttimeplayed) } }

/-- The time played brought up to date. -/
def settle (c : Player) : Player := { s.addtime c with lasttimeplayed := s.lastmillis }

/-- The first loop of `findscore(ci, false)`: another client of that name and address. -/
def findtwin (ci : Player) : Option Player :=
  s.clients.find? fun oi => oi.cn ≠ ci.cn && (oi.ip = ci.ip && oi.name = ci.name)

/-- The second loop of `findscore`: the saved score of that name and address. -/
def saved (ip : Nat) (name : String) : Option Score :=
  (s.scores.find? fun sc => sc.ip = ip && sc.name = name).map SavedScore.score

/-- `findscore(ci, true)` and what is written through the pointer it returns: the first entry
of that name and address, or a new one at the end. -/
def insertScore (ip : Nat) (name : String) (score : Score) : List SavedScore → List SavedScore
  | [] => [{ ip, name, score }]
  | sc :: scs =>
    if sc.ip = ip && sc.name = name then { sc with score } :: scs
    else sc :: insertScore ip name score scs

/-- `savescore(ci)`. -/
def savescore (ci : Player) : Match :=
  if ci.ip = 0 && !ci.isLocal then s
  else { s with scores := insertScore ci.ip ci.name ci.score s.scores }

/-- `restorescore(ci)`: the score of a twin is brought up to date and taken over. -/
def restorescore (ci : Player) : Match :=
  if ci.ip = 0 && !ci.isLocal then s
  else
    match s.findtwin ci with
    | some oi =>
      let s := s.upd oi.cn s.settle
      s.upd ci.cn fun c => { c with score := (s.getinfo oi.cn).elim c.score Player.score }
    | none =>
      match s.saved ci.ip ci.name with
      | some score => s.upd ci.cn fun c => { c with score }
      | none => s

/-- `connected(ci)`. -/
def connected (cn : Int) (who ip : Nat) (name : String) (isLocal spectator : Bool) : Match :=
  let ci : Player :=
    { cn, who, ip, name, isLocal, spectator, score := {}, lasttimeplayed := s.lastmillis }
  { s with clients := s.clients ++ [ci] }.restorescore ci

/-- `clientdisconnect(cn)` of a connected client: some counters are zeroed before they are
saved. -/
def clientdisconnect (cn : Int) : Match :=
  match s.getinfo cn with
  | none => s
  | some ci =>
    let ci := { ci with score := { ci.score with frags := 0, deaths := 0, flags := 0, timeplayed := 0 } }
    let s := s.savescore (s.addtime ci)
    { s with clients := Keyed.remove Player.cn cn s.clients }

/-- One event.  The slot of a client that connects is one that is free. -/
def step (s : Match) : MatchEvent → Match
  | .connected cn who ip name isLocal spectator =>
    if s.getinfo cn = none then s.connected cn who ip name isLocal spectator else s
  | .addai cn name =>
    if MAXCLIENTS ≤ cn ∧ s.getinfo cn = none then
      { s with clients := s.clients ++
        [{ cn, who := 0, ip := 0, name, isLocal := false, spectator := false, score := {},
           lasttimeplayed := s.lastmillis }] }
    else s
  | .deleteai cn =>
    if MAXCLIENTS ≤ cn then { s with clients := Keyed.remove Player.cn cn s.clients } else s
  | .clientdisconnect cn => s.clientdisconnect cn
  | .switchname cn name => s.upd cn fun c => { c with name }
  | .play cn frags flags deaths teamkills shotdamage damage effectiveness =>
    s.upd cn fun c => { c with score := { c.score with
      frags, flags, deaths, teamkills, shotdamage, damage, effectiveness } }
  | .account cn => s.upd cn s.settle
  | .spectate cn =>
    s.upd cn fun c => if c.spectator then c else { s.addtime c with spectator := true }
  | .unspectate cn =>
    s.upd cn fun c =>
      if c.spectator then { c with spectator := false, lasttimeplayed := s.lastmillis } else c
  | .tick lastmillis => { s with lastmillis }
  | .changemap =>
    { s with
      scores := [], clients := s.clients.map fun c =>
        { c with score := {}, statsSaved := false, lasttimeplayed := s.lastmillis } }

/-- The score a player has: the time since it was last brought up to date counts for one who
is not watching. -/
def current (c : Player) : Score := if c.spectator then c.score else (s.addtime c).score

end Match

/-! ## Who left with what -/

/-- A match, and for every address and name the player who left under it last in this match
with the score he had. -/
structure World where
  game : Match
  ledger : Nat → String → Option (Nat × Score)

namespace World

/-- The ledger once a player has left. -/
def record (ledger : Nat → String → Option (Nat × Score)) (c : Player) (score : Score) :
    Nat → String → Option (Nat × Score) :=
  fun ip name => if ip = c.ip ∧ name = c.name then some (c.who, score) else ledger ip name

/-- One event, with what it means for the ledger. -/
def step (w : World) (e : MatchEvent) : Except Fault World :=
  .ok { game := w.game.step e
        ledger :=
          match e with
          | .changemap => fun _ _ => none
          | .clientdisconnect cn =>
            match w.game.getinfo cn with
            | none => w.ledger
            | some c => record w.ledger c (w.game.current c)
          | _ => w.ledger }

/-- The server starts up with nobody connected. -/
def initial : World where
  game := { clients := [], scores := [], lastmillis := 0 }
  ledger := fun _ _ => none

variable (w : World)

/-- What a player is owed who comes in under an address and a name: the score he left with
under them, if he did. -/
def owed (who ip : Nat) (name : String) : Score :=
  match w.ledger ip name with
  | none => {}
  | some (owner, score) => if owner = who then score else {}

/-- The player has nothing that is zeroed as he leaves. -/
def Unscored (c : Player) : Prop :=
  c.score.frags = 0 ∧ c.score.flags = 0 ∧ c.score.deaths = 0 ∧
    c.score.timeplayed = if c.spectator then w.game.lastmillis - c.lasttimeplayed else 0

/-- Nobody else has left under the name and the address. -/
def Own (who ip : Nat) (name : String) : Prop :=
  ∀ owner ∈ (w.ledger ip name).map Prod.fst, owner = who

/-- The condition: who leaves has an address and nothing that is zeroed, who comes in finds
nobody of his name and address on the server, and neither uses what another player left
under. -/
def Clean (w : World) : MatchEvent → Prop
  | .connected _ who ip name isLocal _ =>
    (ip ≠ 0 ∨ isLocal = true) ∧ w.Own who ip name ∧
      ∀ c ∈ w.game.clients, ¬(c.ip = ip ∧ c.name = name)
  | .clientdisconnect cn => ∀ c ∈ w.game.getinfo cn,
    (c.ip ≠ 0 ∨ c.isLocal = true) ∧ w.Own c.who c.ip c.name ∧ w.Unscored c
  | _ => True

/-- The event is not the end of the match, nor does a player of that name and address leave. -/
def Away (ip : Nat) (name : String) (w : World) : MatchEvent → Prop
  | .changemap => False
  | .clientdisconnect cn => ∀ c ∈ w.game.getinfo cn, ¬(c.ip = ip ∧ c.name = name)
  | _ => True

end World

namespace Match

variable {s : Match}

/-! ## The list of saved scores -/

@[simp] theorem scores_upd (cn : Int) (f : Player → Player) : (s.upd cn f).scores = s.scores := rfl

theorem saved_congr {t : Match} (h : t.scores = s.scores) : t.saved = s.saved := by
  unfold saved
  rw [h]

theorem saved_insertScore (ip : Nat) (name : String) (score : Score) (ip' : Nat) (name' : String) :
    { s with scores := insertScore ip name score s.scores }.saved ip' name' =
      if ip' = ip ∧ name' = name then some score else s.saved ip' name' := by
  unfold saved
  generalize s.scores = scs
  induction scs with
  | nil =>
    by_cases h : ip' = ip ∧ name' = name
    · simp [insertScore, h.1, h.2]
    · rw [if_neg h]
      have : ¬(ip = ip' ∧ name = name') := fun h' => h ⟨h'.1.symm, h'.2.symm⟩
      simp [insertScore, this]
  | cons sc scs ih =>
    simp only at ih ⊢
    unfold insertScore
    by_cases hsc : sc.ip = ip ∧ sc.name = name
    · by_cases h : ip' = ip ∧ name' = name
      · simp [hsc.1, hsc.2, h.1, h.2]
      · have : ¬(ip = ip' ∧ name = name') := fun h' => h ⟨h'.1.symm, h'.2.symm⟩
        simp [hsc.1, hsc.2, h, this]
    · rw [if_neg (by simpa using hsc)]
      by_cases hsc' : sc.ip = ip' ∧ sc.name = name'
      · have : ¬(ip' = ip ∧ name' = name) := fun h' => hsc ⟨hsc'.1.trans h'.1, hsc'.2.trans h'.2⟩
        simp [hsc', this]
      · simp only [List.find?_cons]
        rw [show (decide (sc.ip = ip') && decide (sc.name = name')) = false by simpa using hsc']
        exact ih

theorem scores_restorescore (ci : Player) : (s.restorescore ci).scores = s.scores := by
  unfold restorescore
  split
  · rfl
  · split
    · rfl
    · split <;> rfl

theorem mem_insertScore {ip : Nat} {name : String} {score : Score} {scs : List SavedScore}
    {sc : SavedScore} (h : sc ∈ insertScore ip name score scs) : sc.score = score ∨ sc ∈ scs := by
  induction scs with
  | nil =>
    rw [List.mem_singleton.mp h]
    exact Or.inl rfl
  | cons x scs ih =>
    unfold insertScore at h
    split at h
    · rcases List.mem_cons.mp h with rfl | h
      · exact Or.inl rfl
      · exact Or.inr (List.mem_cons_of_mem x h)
    · rcases List.mem_cons.mp h with rfl | h
      · exact Or.inr List.mem_cons_self
      · exact (ih h).imp_right (List.mem_cons_of_mem x)

theorem clients_clientdisconnect (cn : Int) :
    (s.clientdisconnect cn).clients = Keyed.remove Player.cn cn s.clients := by
  unfold clientdisconnect
  cases hc : s.getinfo cn with
  | none => exact (Keyed.remove_of_not_mem (Keyed.lookup_eq_none.mp hc)).symm
  | some c =>
    simp only [savescore]
    split <;> rfl

/-- No counters that are zeroed are saved as a player leaves. -/
theorem scores_clientdisconnect {cn : Int} {sc : SavedScore}
    (h : sc ∈ (s.clientdisconnect cn).scores) :
    (sc.score.frags = 0 ∧ sc.score.deaths = 0 ∧ sc.score.flags = 0) ∨ sc ∈ s.scores := by
  unfold clientdisconnect at h
  cases hc : s.getinfo cn with
  | none =>
    rw [hc] at h
    exact Or.inr h
  | some c =>
    simp only [hc, savescore] at h
    split at h
    · exact Or.inr h
    · refine (mem_insertScore h).imp_left fun hsc => ?_
      rw [hsc]
      exact ⟨rfl, rfl, rfl⟩

/-! ## Coming in and leaving -/

theorem getinfo_upd (cn : Int) {f : Player → Player} (hf : ∀ c, (f c).cn = c.cn) :
    (s.upd cn f).getinfo cn = (s.getinfo cn).map f := by
  rw [getinfo, upd, Keyed.lookup_modify hf]
  cases h : Keyed.lookup Player.cn cn s.clients with
  | none => simp [getinfo, h]
  | some c => simp [getinfo, h, (Keyed.lookup_mem h).2]

theorem getinfo_upd_other {cn j : Int} (hj : j ≠ cn) {f : Player → Player}
    (hf : ∀ c, (f c).cn = c.cn) : (s.upd cn f).getinfo j = s.getinfo j := by
  rw [getinfo, upd, Keyed.lookup_modify hf]
  cases h : Keyed.lookup Player.cn j s.clients with
  | none => simp [getinfo, h]
  | some c =>
    have : c.cn ≠ cn := (Keyed.lookup_mem h).2.trans_ne hj
    simp [getinfo, h, this]

/-- A player without a twin is given the score saved under his name and address. -/
theorem getinfo_restorescore {ci : Player} (hci : s.getinfo ci.cn = some ci)
    (htwin : s.findtwin ci = none) (haddr : ci.ip ≠ 0 ∨ ci.isLocal = true) :
    (s.restorescore ci).getinfo ci.cn =
      some { ci with score := (s.saved ci.ip ci.name).getD ci.score } := by
  have hip : ¬(ci.ip = 0 && !ci.isLocal) = true := by
    rcases haddr with h | h <;> simp [h]
  rw [restorescore, if_neg hip, htwin]
  cases hsaved : s.saved ci.ip ci.name with
  | none => exact hci
  | some score =>
    refine (getinfo_upd (f := fun c => { c with score }) ci.cn fun _ => rfl).trans ?_
    rw [hci]
    rfl

/-- A player comes in where nobody of his name and address is. -/
theorem getinfo_connected {cn : Int} (hfree : s.getinfo cn = none) {ip : Nat} {name : String}
    (hno : ∀ c ∈ s.clients, ¬(c.ip = ip ∧ c.name = name)) {isLocal : Bool}
    (haddr : ip ≠ 0 ∨ isLocal = true) (who : Nat) (spectator : Bool) :
    (s.connected cn who ip name isLocal spectator).getinfo cn =
      some { cn, who, ip, name, isLocal, spectator, score := (s.saved ip name).getD {},
             lasttimeplayed := s.lastmillis } := by
  have htwin : ∀ ci : Player, ci.ip = ip → ci.name = name →
      { s with clients := s.clients ++ [ci] }.findtwin ci = none := by
    intro ci hip hname
    refine List.find?_eq_none.mpr fun oi hoi => ?_
    rcases List.mem_append.mp hoi with hoi | hoi
    · have := hno oi hoi
      simp only [hip, hname]
      simpa using fun _ => not_and.mp this
    · simp [List.mem_singleton.mp hoi]
  exact getinfo_restorescore (Keyed.lookup_add hfree) (htwin _ rfl rfl) haddr

/-- What is saved as a player leaves. -/
theorem saved_clientdisconnect {cn : Int} {c : Player} (hc : s.getinfo cn = some c)
    (haddr : c.ip ≠ 0 ∨ c.isLocal = true) (ip : Nat) (name : String) :
    (s.clientdisconnect cn).saved ip name =
      if ip = c.ip ∧ name = c.name then
        some { c.score with frags := 0, deaths := 0, flags := 0,
                            timeplayed := s.lastmillis - c.lasttimeplayed }
      else s.saved ip name := by
  have hip : ¬(c.ip = 0 && !c.isLocal) = true := by
    rcases haddr with h | h <;> simp [h]
  simp only [clientdisconnect, hc, savescore, addtime, hip, Int.zero_add]
  exact saved_insertScore _ _ _ ip name

end Match

namespace World

open Match

variable {w : World}

/-- Leaving saves the score the player has exactly if he has nothing that is zeroed. -/
theorem saved_current_iff {cn : Int} {c : Player} (hc : w.game.getinfo cn = some c)
    (haddr : c.ip ≠ 0 ∨ c.isLocal = true) :
    (w.game.clientdisconnect cn).saved c.ip c.name = some (w.game.current c) ↔ w.Unscored c := by
  rw [saved_clientdisconnect hc haddr, if_pos ⟨rfl, rfl⟩, Option.some.injEq]
  unfold current Unscored addtime
  obtain ⟨cn', who, ip, name, isLocal, spectator, score, last⟩ := c
  cases score
  cases spectator <;> simp [eq_comm]

/-! ## Runs -/

/-- The saved scores are those of the ledger. -/
def Kept (w : World) : Prop :=
  ∀ ip name, w.game.saved ip name = (w.ledger ip name).map Prod.snd

theorem Kept.of_eq {v : World} (h : w.Kept) (hs : v.game.scores = w.game.scores)
    (hl : v.ledger = w.ledger) : v.Kept := by
  intro ip name
  rw [saved_congr hs, hl]
  exact h ip name

/-- **One event** keeps the saved scores those of the ledger. -/
theorem Kept.step (h : w.Kept) {e : MatchEvent} (hc : w.Clean e) {v : World}
    (hv : w.step e = .ok v) : v.Kept := by
  obtain rfl := Except.ok.inj hv
  cases e with
  | connected cn who ip name isLocal spectator =>
    refine h.of_eq ?_ rfl
    simp only [Match.step]
    split
    · exact scores_restorescore _
    · rfl
  | clientdisconnect cn =>
    cases hg : w.game.getinfo cn with
    | none =>
      refine h.of_eq ?_ (by simp only [hg])
      simp only [Match.step, Match.clientdisconnect, hg]
    | some c =>
      obtain ⟨haddr, -, hun⟩ := hc c hg
      have hcur := (saved_current_iff hg haddr).mpr hun
      intro ip name
      simp only [Match.step, hg, record]
      rw [saved_clientdisconnect hg haddr] at hcur ⊢
      split
      · rw [if_pos ⟨rfl, rfl⟩] at hcur
        exact hcur
      · exact h ip name
  | changemap => exact fun ip name => rfl
  | addai cn name =>
    refine h.of_eq ?_ rfl
    simp only [Match.step]
    split <;> rfl
  | deleteai cn =>
    refine h.of_eq ?_ rfl
    simp only [Match.step]
    split <;> rfl
  | switchname cn name => exact h.of_eq rfl rfl
  | play cn frags flags deaths teamkills shotdamage damage effectiveness => exact h.of_eq rfl rfl
  | account cn => exact h.of_eq rfl rfl
  | spectate cn => exact h.of_eq rfl rfl
  | unspectate cn => exact h.of_eq rfl rfl
  | tick lastmillis => exact h.of_eq rfl rfl

theorem Kept.of_steps {es : List MatchEvent} {v : World} (hrun : Run.Steps World.step Clean w es v)
    (h : w.Kept) : v.Kept :=
  hrun.invariant Kept (fun _ _ _ hk hc hs => hk.step hc hs) h

/-- **Coming in**: a player has what he is owed. -/
theorem Kept.connected (h : w.Kept) {cn : Int} {who ip : Nat} {name : String}
    {isLocal spectator : Bool} (hc : w.Clean (.connected cn who ip name isLocal spectator))
    (hfree : w.game.getinfo cn = none) {v : World}
    (hv : w.step (.connected cn who ip name isLocal spectator) = .ok v) :
    ∃ c, v.game.getinfo cn = some c ∧ c.who = who ∧ c.score = w.owed who ip name := by
  obtain rfl := Except.ok.inj hv
  obtain ⟨haddr, hown, hno⟩ := hc
  have howed : (w.game.saved ip name).getD {} = w.owed who ip name := by
    rw [h ip name, owed]
    cases hl : w.ledger ip name with
    | none => rfl
    | some l =>
      obtain ⟨owner, score⟩ := l
      have : owner = who := hown owner (by simp [hl])
      simp [this]
  have hstep : w.game.step (.connected cn who ip name isLocal spectator) =
      w.game.connected cn who ip name isLocal spectator := if_pos hfree
  have hget := getinfo_connected hfree hno haddr who spectator
  rw [← hstep] at hget
  exact ⟨_, hget, rfl, howed⟩

/-- What the ledger says of a player who is away stays. -/
theorem ledger_of_away {ip : Nat} {name : String} {es : List MatchEvent} {v : World}
    (hrun : Run.Steps step (Away ip name) w es v) : v.ledger ip name = w.ledger ip name := by
  refine hrun.invariant (fun u => u.ledger ip name = w.ledger ip name) ?_ rfl
  intro u e u' hu haway hstep
  obtain rfl := Except.ok.inj hstep
  rw [← hu]
  cases e with
  | changemap => cases haway
  | clientdisconnect cn =>
    cases hg : u.game.getinfo cn with
    | none => simp only [hg]
    | some c =>
      have hne := haway c hg
      simp only [hg, record]
      exact if_neg fun heq => hne ⟨heq.1.symm, heq.2.symm⟩
  | _ => rfl

/-- **The round trip**: a player leaves, others come and go, and he comes back before the match
ends. -/
theorem Kept.round_trip (h : w.Kept) {cn : Int} {c : Player} (hc : w.game.getinfo cn = some c)
    (hclean : w.Clean (.clientdisconnect cn)) {x v u : World} {es : List MatchEvent}
    (hleave : w.step (.clientdisconnect cn) = .ok x)
    (hrun : Run.Steps World.step (fun w e => w.Clean e ∧ Away c.ip c.name w e) x es v)
    {cn' : Int} {spectator : Bool} (hfree : v.game.getinfo cn' = none)
    (hclean' : v.Clean (.connected cn' c.who c.ip c.name c.isLocal spectator))
    (hback : v.step (.connected cn' c.who c.ip c.name c.isLocal spectator) = .ok u) :
    ∃ d, u.game.getinfo cn' = some d ∧ d.who = c.who ∧ d.score = w.game.current c := by
  have hx : x.ledger c.ip c.name = some (c.who, w.game.current c) := by
    obtain rfl := Except.ok.inj hleave
    simp [hc, record]
  have hv : v.ledger c.ip c.name = some (c.who, w.game.current c) := by
    rw [ledger_of_away (hrun.mono fun _ _ h => h.2), hx]
  have hkept : v.Kept := (h.step hclean hleave).of_steps (hrun.mono fun _ _ h => h.1)
  obtain ⟨d, hd, hwho, hscore⟩ := hkept.connected hclean' hfree hback
  refine ⟨d, hd, hwho, ?_⟩
  rw [hscore, owed, hv]
  simp

theorem kept_initial : initial.Kept := fun _ _ => rfl

/-- **Scores are kept**: as long as nobody leaves with something that is zeroed, and no two
players use one name and address, the saved scores are those the players left with, and who
comes in has what he left with himself under that name and address, or nothing.  Leaving saves
what a player has exactly if he has nothing that is zeroed. -/
theorem restorescore_returns {es : List MatchEvent}
    (hrun : Run.Steps World.step Clean initial es w) :
    (∀ ip name, w.game.saved ip name = (w.ledger ip name).map Prod.snd) ∧
    (∀ cn who ip name isLocal spectator v, w.game.getinfo cn = none →
      w.Clean (.connected cn who ip name isLocal spectator) →
      w.step (.connected cn who ip name isLocal spectator) = .ok v →
      ∃ c, v.game.getinfo cn = some c ∧ c.who = who ∧ c.score = w.owed who ip name) ∧
    ∀ cn c, w.game.getinfo cn = some c → (c.ip ≠ 0 ∨ c.isLocal = true) →
      ((w.game.clientdisconnect cn).saved c.ip c.name = some (w.game.current c) ↔ w.Unscored c) ∧
      (w.Clean (.clientdisconnect cn) → ∀ x es' v cn' spectator u,
        w.step (.clientdisconnect cn) = .ok x →
        Run.Steps World.step (fun w e => w.Clean e ∧ Away c.ip c.name w e) x es' v →
        v.game.getinfo cn' = none →
        v.Clean (.connected cn' c.who c.ip c.name c.isLocal spectator) →
        v.step (.connected cn' c.who c.ip c.name c.isLocal spectator) = .ok u →
        ∃ d, u.game.getinfo cn' = some d ∧ d.who = c.who ∧ d.score = w.game.current c) := by
  have hkept := kept_initial.of_steps hrun
  refine ⟨hkept, ?_, ?_⟩
  · intro cn who ip name isLocal spectator v hfree hclean hv
    exact hkept.connected hclean hfree hv
  · intro cn c hc haddr
    refine ⟨saved_current_iff hc haddr, ?_⟩
    intro hclean x es' v cn' spectator u hleave hrun' hfree hclean' hback
    exact hkept.round_trip hc hclean hleave hrun' hfree hclean' hback

instance (c : Player) : Decidable (w.Unscored c) := inferInstanceAs (Decidable (_ ∧ _))

instance (who ip : Nat) (name : String) : Decidable (w.Own who ip name) :=
  inferInstanceAs (Decidable (∀ owner ∈ (w.ledger ip name).map Prod.fst, owner = who))

instance (e : MatchEvent) : Decidable (w.Clean e) :=
  match e with
  | .connected .. => inferInstanceAs (Decidable (_ ∧ _))
  | .clientdisconnect cn => inferInstanceAs (Decidable (∀ c ∈ w.game.getinfo cn, _))
  | .addai .. | .deleteai _ | .switchname .. | .play .. | .account _ | .spectate _
  | .unspectate _ | .tick _ | .changemap => inferInstanceAs (Decidable True)

/-- A player who has only done damage leaves, another comes and goes, and the first comes
back. -/
theorem restorescore_returns_damage : ∃ w : World,
    w.game.saved 7 "ann" = some { damage := 40, timeplayed := 900 } ∧
      w.ledger 7 "ann" = some (1, { damage := 40, timeplayed := 900 }) ∧
      (w.game.getinfo 3).map Player.score = some { damage := 40, timeplayed := 900 } := by
  obtain ⟨w, hrun, hw⟩ := Run.Steps.of_execIf World.step Clean initial
    [.tick 100, .connected 0 1 7 "ann" false false, .play 0 0 0 0 0 0 40 0, .tick 1000,
      .clientdisconnect 0, .connected 0 2 9 "bob" false false, .clientdisconnect 0,
      .connected 3 1 7 "ann" false false]
    (p := fun w => w.ledger 7 "ann" = some (1, { damage := 40, timeplayed := 900 }) ∧
      (w.game.getinfo 3).map Player.score = some { damage := 40, timeplayed := 900 }) (by decide)
  refine ⟨w, ?_, hw⟩
  rw [(restorescore_returns hrun).1, hw.1]
  rfl

/-- A player leaves with five frags and is given none as he comes back. -/
theorem frags_lost : ∃ w : World, Run.Reachable World.step initial w ∧
    w.ledger 7 "ann" = some (1, { frags := 5, timeplayed := 900 }) ∧
    (w.game.getinfo 0).map Player.who = some 1 ∧
    (w.game.getinfo 0).map Player.score = some { timeplayed := 900 } := by
  obtain ⟨w, hrun, hw⟩ := Run.Reachable.of_any World.step initial
    [.tick 100, .connected 0 1 7 "ann" false false, .play 0 5 0 0 0 0 0 0, .tick 1000,
      .clientdisconnect 0, .connected 0 1 7 "ann" false false]
    (p := fun w => w.ledger 7 "ann" = some (1, { frags := 5, timeplayed := 900 }) ∧
      (w.game.getinfo 0).map Player.who = some 1 ∧
      (w.game.getinfo 0).map Player.score = some { timeplayed := 900 }) (by decide)
  exact ⟨w, hrun, of_decide_eq_true hw⟩

end World
end QServ
