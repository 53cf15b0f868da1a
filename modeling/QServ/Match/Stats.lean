import Mathlib.Algebra.Group.Prod
import Mathlib.Algebra.Group.Int.Defs
import Mathlib.Data.Rat.Defs
import QServ.Match.Scores

/-!
# Lifetime statistics

The table `PLAYERINFO`, `savestats` with the places that call it, and the flag `stats_saved`
that keeps a match from being added twice, over the players of `QServ.Match.Scores`.

* `Stats.scored`: what the players of a name have scored since the server was started.
* `Balanced`: what is stored and what is still to be stored add up to what was scored.
* `stats_balanced`: in every run in which nobody scores once his match is stored, and nobody's
  counters are dropped before they are, the books balance.
-/

namespace QServ

/-- Frags, deaths and flags. -/
abbrev Totals := Int × Int × Int

/-- A row of `PLAYERINFO`. -/
structure Row where
  totals : Totals
  kd : ℚ
  deriving DecidableEq

/-- The server with its table.  `scored` is not kept by the server: it is what was scored
under each name. -/
structure Stats where
  game : Match
  db : String → Option Row
  totalmillis : Int
  scored : String → Totals

/-- What happens to the statistics.  `kickqueue` is the end of a client found out by the check
of flag runs. -/
inductive StatsEvent where
  | game (e : MatchEvent)
  | stats (cn : Int)
  | leaderboard (cn : Int)
  | saveallstats
  | kickqueue (cn : Int)
  | millis (totalmillis : Int)
  deriving DecidableEq, Repr

/-- Colour codes and control characters taken out. -/
def stripCodes : List Char → List Char
  | [] => []
  | c :: cs =>
    if c = '\x0c' then
      match cs with
      | [] => []
      | _ :: cs => stripCodes cs
    else if c.toNat < 32 then stripCodes cs
    else c :: stripCodes cs

/-- `make_name_key_utf8(name, key, 64)`. -/
def nameKey (name : String) : String :=
  let blank := fun c : Char => c = ' ' || c = '\t'
  let key := (stripCodes name.toList).take 63
  let key := ((key.reverse.dropWhile blank).reverse).dropWhile blank
  if key = [] then "unnamed" else String.ofList key

namespace Player

variable (c : Player)

/-- The counters that are stored. -/
def counters : Totals := (c.score.frags, c.score.deaths, c.score.flags)

/-- What the player adds to a name once his match is stored. -/
def pending (key : String) : Totals :=
  if c.cn < MAXCLIENTS ∧ c.statsSaved = false ∧ nameKey c.name = key then c.counters else 0

/-- `ci->stats_saved = true`. -/
def markSaved : Player := { c with statsSaved := true }

/-- `ci->state.frags = ci->state.deaths = ci->state.flags = 0`. -/
def dropCounters : Player := { c with score := { c.score with frags := 0, deaths := 0, flags := 0 } }

/-- The player has scored something that is not stored yet. -/
def Unsaved : Prop := c.cn < MAXCLIENTS ∧ c.statsSaved = false ∧ c.counters ≠ 0

/-- No counter of a player who is to be stored is negative. -/
def Countable : Prop :=
  c.spectator = false → c.statsSaved = false → 0 ≤ c.score.frags ∧ 0 ≤ c.score.deaths ∧ 0 ≤ c.score.flags

end Player

namespace Stats

variable (s : Stats)

/-! ## The table -/

/-- `INSERT INTO PLAYERINFO ... ON CONFLICT(NAME) DO UPDATE ...`: a row of that name is added
to, unless its `KD` comes out as `NULL`, which the table does not allow. -/
def upsert (db : String → Option Row) (key : String) (t : Totals) : Option (String → Option Row) :=
  match db key with
  | none =>
    some (Function.update db key (some { totals := t, kd := (t.1 : ℚ) / (max 1 t.2.1 : Int) }))
  | some row =>
    let sum := row.totals + t
    if sum.2.1 = 0 then none
    else some (Function.update db key (some { totals := sum, kd := (sum.1 : ℚ) / (sum.2.1 : ℚ) }))

/-- `savestats(ci)`. -/
def savestats (cn : Int) : Stats :=
  match s.game.getinfo cn with
  | none => s
  | some ci =>
    if ci.cn < 0 ∨ MAXCLIENTS ≤ ci.cn ∨ ci.name = "" then s
    else if ci.spectator then s
    else if ci.statsSaved then s
    else
      let t : Totals := (max 0 ci.score.frags, max 0 ci.score.deaths, max 0 ci.score.flags)
      if t = 0 then s
      else
        match upsert s.db (nameKey ci.name) t with
        | none => s
        | some db => { s with db, game := s.game.upd cn Player.markSaved }

/-- `saveallstats`. -/
def saveallstats : Stats := (s.game.clients.map Player.cn).foldl savestats s

/-- The part of `cmd_sendplayerstats` before the query. -/
def sendplayerstats (cn : Int) : Stats :=
  match s.game.getinfo cn with
  | none => s
  | some ci =>
    if 30000 < s.totalmillis - ci.lastUpdateTimeSp then
      let s := s.savestats cn
      { s with game := s.game.upd cn fun c => { c with lastUpdateTimeSp := s.totalmillis } }
    else s

/-- The part of `cmd_showLeaderboard` before the query. -/
def showLeaderboard (cn : Int) : Stats :=
  match s.game.getinfo cn with
  | none => s
  | some ci =>
    if 30000 < s.totalmillis - ci.lastUpdateTimeLb then
      let s := s.savestats cn
      { s with game := s.game.upd cn fun c => { c with lastUpdateTimeLb := s.totalmillis } }
    else s

/-- `clientdisconnect(cn)`: the match is stored, then the counters are zeroed. -/
def clientdisconnect (cn : Int) : Stats :=
  let s := s.savestats cn
  { s with game := s.game.clientdisconnect cn }

/-- The loop over `kick_queue`: the counters are zeroed before the client is thrown out. -/
def kickqueue (cn : Int) : Stats :=
  { s with game := s.game.upd cn Player.dropCounters }.clientdisconnect cn

/-- What a player scores goes to his name. -/
def score (cn : Int) (frags flags deaths : Int) : String → Totals :=
  match s.game.getinfo cn with
  | none => s.scored
  | some c =>
    if c.cn < MAXCLIENTS then
      Function.update s.scored (nameKey c.name)
        (s.scored (nameKey c.name) + ((frags, deaths, flags) - c.counters))
    else s.scored

/-- One event. -/
def step (s : Stats) : StatsEvent → Except Fault Stats
  | .game (.clientdisconnect cn) => .ok (s.clientdisconnect cn)
  | .game (.play cn frags flags deaths teamkills shotdamage damage effectiveness) =>
    .ok { s with
      game := s.game.step (.play cn frags flags deaths teamkills shotdamage damage effectiveness)
      scored := s.score cn frags flags deaths }
  | .game e => .ok { s with game := s.game.step e }
  | .stats cn => .ok (s.sendplayerstats cn)
  | .leaderboard cn => .ok (s.showLeaderboard cn)
  | .saveallstats => .ok s.saveallstats
  | .kickqueue cn => .ok (s.kickqueue cn)
  | .millis totalmillis => .ok { s with totalmillis }

/-- The server starts up with an empty table. -/
def initial : Stats where
  game := { clients := [], scores := [], lastmillis := 0 }
  db := fun _ => none
  totalmillis := 0
  scored := fun _ => 0

/-! ## The books -/

/-- The stored totals of a name. -/
def stored (key : String) : Totals := (s.db key).elim 0 Row.totals

/-- What is still to be stored for a name. -/
def outstanding (key : String) : Totals := (s.game.clients.map fun c => c.pending key).sum

/-- The statement for this player goes through. -/
def Storable (c : Player) : Prop :=
  0 ≤ c.cn ∧ c.name ≠ "" ∧ c.spectator = false ∧
    ∀ row ∈ s.db (nameKey c.name), row.totals.2.1 + c.score.deaths ≠ 0

/-- The condition: nobody scores once his match is stored; nobody's counters are dropped, taken
to another name or given to another player while they are not stored; none that is stored is
negative. -/
def Clean (s : Stats) : StatsEvent → Prop
  | .game (.play cn frags flags deaths _ _ _ _) => ∀ c ∈ s.game.getinfo cn,
    c.cn < MAXCLIENTS → c.statsSaved = true → (frags, deaths, flags) = c.counters
  | .game (.clientdisconnect cn) => ∀ c ∈ s.game.getinfo cn,
    c.Countable ∧ (c.Unsaved → s.Storable c)
  | .game (.connected _ _ ip name _ _) =>
    ∀ c ∈ s.game.clients, c.ip = ip ∧ c.name = name → c.counters = 0
  | .game (.switchname cn name) => ∀ c ∈ s.game.getinfo cn,
    c.Unsaved → nameKey name = nameKey c.name
  | .game .changemap => ∀ c ∈ s.game.clients, ¬c.Unsaved
  | .game _ => True
  | .stats cn => ∀ c ∈ s.game.getinfo cn, 30000 < s.totalmillis - c.lastUpdateTimeSp → c.Countable
  | .leaderboard cn => ∀ c ∈ s.game.getinfo cn, 30000 < s.totalmillis - c.lastUpdateTimeLb → c.Countable
  | .saveallstats => ∀ c ∈ s.game.clients, c.Countable
  | .kickqueue cn => ∀ c ∈ s.game.getinfo cn, ¬c.Unsaved
  | .millis _ => True

/-- **The books balance**: every client has a slot of its own, no saved score holds counters,
and for every name what is stored and what is to be stored make up what was scored. -/
structure Balanced (s : Stats) : Prop where
  nodup : (s.game.clients.map Player.cn).Nodup
  zeroed : ∀ sc ∈ s.game.scores, sc.score.frags = 0 ∧ sc.score.deaths = 0 ∧ sc.score.flags = 0
  law : ∀ key, s.stored key + s.outstanding key = s.scored key

variable {s : Stats}

/-! ## Changing one player -/

theorem pending_of_saved {c : Player} (h : c.statsSaved = true) (key : String) :
    c.pending key = 0 := by
  simp [Player.pending, h]

theorem pending_of_settled {c : Player} (h : ¬c.Unsaved) (key : String) : c.pending key = 0 := by
  unfold Player.pending
  split
  · next hp =>
    by_contra hne
    exact h ⟨hp.1, hp.2.1, hne⟩
  · rfl

theorem nodup_upd (hnd : (s.game.clients.map Player.cn).Nodup) (cn : Int) {f : Player → Player}
    (hf : ∀ c, (f c).cn = c.cn) : ((s.game.upd cn f).clients.map Player.cn).Nodup := by
  rw [Match.upd, Keyed.map_modify hf]
  exact hnd

/-- A change of one player changes what is outstanding by what he adds to it. -/
theorem outstanding_upd (hnd : (s.game.clients.map Player.cn).Nodup) {cn : Int} {c : Player}
    (hc : s.game.getinfo cn = some c) (f : Player → Player) (key : String) :
    { s with game := s.game.upd cn f }.outstanding key =
      s.outstanding key - c.pending key + (f c).pending key :=
  Keyed.sum_modify (fun c : Player => c.pending key) hnd hc

theorem outstanding_remove (hnd : (s.game.clients.map Player.cn).Nodup) {cn : Int} {c : Player}
    (hc : s.game.getinfo cn = some c) (key : String) :
    { s with game := { s.game with clients := Keyed.remove Player.cn cn s.game.clients } }.outstanding
      key = s.outstanding key - c.pending key :=
  Keyed.sum_remove (fun c : Player => c.pending key) hnd hc

/-- The books are about the clients, the saved scores, the table and what was scored. -/
theorem Balanced.of_eq {t : Stats} (h : s.Balanced) (hc : t.game.clients = s.game.clients)
    (hs : t.game.scores = s.game.scores) (hdb : t.db = s.db) (hsc : t.scored = s.scored) :
    t.Balanced := by
  refine ⟨by rw [hc]; exact h.nodup, by rw [hs]; exact h.zeroed, fun key => ?_⟩
  unfold stored outstanding
  rw [hdb, hc, hsc]
  exact h.law key

/-- A change of one player that leaves what he adds. -/
theorem Balanced.upd (h : s.Balanced) (cn : Int) {f : Player → Player} (hf : ∀ c, (f c).cn = c.cn)
    (hp : ∀ c key, s.game.getinfo cn = some c → (f c).pending key = c.pending key) :
    Balanced { s with game := s.game.upd cn f } := by
  refine ⟨nodup_upd h.nodup cn hf, h.zeroed, fun key => ?_⟩
  · cases hc : s.game.getinfo cn with
    | none =>
      have hsame : Keyed.modify Player.cn cn f s.game.clients = s.game.clients :=
        Keyed.modify_of_not_mem (Keyed.lookup_eq_none.mp hc)
      rw [← h.law key]
      simp only [stored, outstanding, Match.upd, hsame]
    | some c =>
      rw [outstanding_upd h.nodup hc, hp c key hc, sub_add_cancel]
      exact h.law key

/-! ## The table -/

theorem stored_upsert {key : String} {t : Totals} {db : String → Option Row}
    (h : upsert s.db key t = some db) (key' : String) :
    { s with db }.stored key' = s.stored key' + if key' = key then t else 0 := by
  unfold upsert at h
  cases hrow : s.db key with
  | none =>
    rw [hrow] at h
    obtain rfl := Option.some.inj h
    by_cases hk : key' = key
    · simp [stored, hk, hrow]
    · simp [stored, hk]
  | some row =>
    simp only [hrow] at h
    split at h
    · cases h
    · obtain rfl := Option.some.inj h
      by_cases hk : key' = key
      · simp [stored, hk, hrow]
      · simp [stored, hk]

theorem upsert_isSome {db : String → Option Row} {key : String} {t : Totals}
    (h : ∀ row ∈ db key, row.totals.2.1 + t.2.1 ≠ 0) : (upsert db key t).isSome := by
  unfold upsert
  cases hrow : db key with
  | none => rfl
  | some row =>
    simpa using h row hrow

/-! ## Storing a match -/

/-- What `savestats` does to a player: his counters go to the table and he is marked, or
nothing, if there is nothing to store or the statement does not go through. -/
theorem savestats_cases {cn : Int} {c : Player} (hc : s.game.getinfo cn = some c)
    (hcount : c.Countable) :
    (s.savestats cn = s ∧ ¬(c.Unsaved ∧ s.Storable c)) ∨
    (c.Unsaved ∧ ∃ db, upsert s.db (nameKey c.name) c.counters = some db ∧
      s.savestats cn = { s with db, game := s.game.upd cn Player.markSaved }) := by
  by_cases hbad : c.cn < 0 ∨ MAXCLIENTS ≤ c.cn ∨ c.name = ""
  · refine Or.inl ⟨by simp only [savestats, hc, hbad, if_true], ?_⟩
    rintro ⟨hun, hst⟩
    rcases hbad with h | h | h
    · exact absurd hst.1 (not_le.mpr h)
    · exact absurd hun.1 (not_lt.mpr h)
    · exact hst.2.1 h
  by_cases hspec : c.spectator = true
  · refine Or.inl ⟨by simp only [savestats, hc, hbad, hspec, if_true, if_false], ?_⟩
    rintro ⟨-, hst⟩
    exact absurd hst.2.2.1 (by simp [hspec])
  by_cases hsaved : c.statsSaved = true
  · refine Or.inl ⟨by simp [savestats, hc, hbad, hspec, hsaved], ?_⟩
    rintro ⟨hun, -⟩
    exact absurd hun.2.1 (by simp [hsaved])
  have hnonneg := hcount (by simpa using hspec) (by simpa using hsaved)
  have ht : (max 0 c.score.frags, max 0 c.score.deaths, max 0 c.score.flags) = c.counters := by
    rw [max_eq_right hnonneg.1, max_eq_right hnonneg.2.1, max_eq_right hnonneg.2.2]
    rfl
  have heq : s.savestats cn = if c.counters = 0 then s else
      match upsert s.db (nameKey c.name) c.counters with
      | none => s
      | some db => { s with db, game := s.game.upd cn Player.markSaved } := by
    simp only [savestats, hc, hbad, hspec, hsaved, ht, if_false]
    simp
  rw [heq]
  split
  · next hzero => exact Or.inl ⟨rfl, fun h => h.1.2.2 hzero⟩
  · next hzero =>
    cases hup : upsert s.db (nameKey c.name) c.counters with
    | none =>
      refine Or.inl ⟨rfl, fun h => ?_⟩
      have := upsert_isSome (t := c.counters) h.2.2.2.2
      rw [hup] at this
      cases this
    | some db =>
      simp only [not_or, not_le] at hbad
      exact Or.inr ⟨⟨hbad.2.1, by simpa using hsaved, hzero⟩, db, rfl, rfl⟩

/-- **Storing a match** moves what is outstanding into the table. -/
theorem Balanced.savestats (h : s.Balanced) {cn : Int}
    (hcount : ∀ c ∈ s.game.getinfo cn, c.Countable) : (s.savestats cn).Balanced := by
  cases hc : s.game.getinfo cn with
  | none =>
    have : s.savestats cn = s := by simp only [Stats.savestats, hc]
    rwa [this]
  | some c =>
    rcases savestats_cases hc (hcount c hc) with ⟨hsame, -⟩ | ⟨hun, db, hup, hsame⟩
    · rwa [hsame]
    · rw [hsame]
      refine ⟨nodup_upd h.nodup cn fun _ => rfl, h.zeroed, fun key => ?_⟩
      have hout := outstanding_upd h.nodup hc Player.markSaved key
      have hst := stored_upsert hup key
      have hpend : c.pending key = if key = nameKey c.name then c.counters else 0 := by
        simp [Player.pending, hun.1, hun.2.1, eq_comm]
      rw [pending_of_saved (c := c.markSaved) rfl, hpend] at hout
      simp only [stored, outstanding] at hst hout ⊢
      rw [hst, hout, ← h.law key, stored, outstanding]
      abel

/-- After his match was stored, if that was possible, a player has nothing unsaved. -/
theorem getinfo_savestats {cn : Int} {c : Player} (hc : s.game.getinfo cn = some c)
    (hcount : c.Countable) : ∃ d, (s.savestats cn).game.getinfo cn = some d ∧
      ((c.Unsaved → s.Storable c) → ¬d.Unsaved) := by
  rcases savestats_cases hc hcount with ⟨hsame, hnot⟩ | ⟨-, db, -, hsame⟩
  · rw [hsame]
    exact ⟨c, hc, fun hst hun => hnot ⟨hun, hst hun⟩⟩
  · have hmark : (s.game.upd cn Player.markSaved).getinfo cn = some c.markSaved :=
      (Match.getinfo_upd (f := Player.markSaved) cn fun _ => rfl).trans (congrArg _ hc)
    rw [hsame]
    exact ⟨_, hmark, fun _ hun => absurd hun.2.1 (by simp [Player.markSaved])⟩

/-- Storing a match marks a player at most. -/
theorem mem_savestats {cn : Int} {d : Player} (hd : d ∈ (s.savestats cn).game.clients) :
    ∃ c ∈ s.game.clients, d = c ∨ d = c.markSaved := by
  have hmark : ∀ d ∈ Keyed.modify Player.cn cn Player.markSaved s.game.clients,
      ∃ c ∈ s.game.clients, d = c ∨ d = c.markSaved := by
    intro d hd
    obtain ⟨c, hc, rfl⟩ := List.mem_map.mp hd
    refine ⟨c, hc, ?_⟩
    split
    · exact Or.inr rfl
    · exact Or.inl rfl
  unfold savestats at hd
  split at hd
  · exact ⟨d, hd, Or.inl rfl⟩
  · simp only at hd
    split_ifs at hd
    · exact ⟨d, hd, Or.inl rfl⟩
    · exact ⟨d, hd, Or.inl rfl⟩
    · exact ⟨d, hd, Or.inl rfl⟩
    · exact ⟨d, hd, Or.inl rfl⟩
    · split at hd
      · exact ⟨d, hd, Or.inl rfl⟩
      · exact hmark d hd

/-- **Storing all** matches, one player after the other. -/
theorem Balanced.saveallstats (h : s.Balanced) (hcount : ∀ c ∈ s.game.clients, c.Countable) :
    s.saveallstats.Balanced := by
  unfold Stats.saveallstats
  generalize s.game.clients.map Player.cn = cns
  induction cns generalizing s with
  | nil => exact h
  | cons cn cns ih =>
    refine ih (h.savestats fun c hc => hcount c (Keyed.lookup_mem hc).1) fun d hd => ?_
    obtain ⟨c, hc, rfl | rfl⟩ := mem_savestats hd
    · exact hcount d hc
    · exact fun _ hsaved => absurd hsaved (by simp [Player.markSaved])

/-! ## Leaving -/

/-- **Leaving**: what a player has scored is stored before his counters are dropped. -/
theorem Balanced.clientdisconnect (h : s.Balanced) {cn : Int}
    (hc : ∀ c ∈ s.game.getinfo cn, c.Countable ∧ (c.Unsaved → s.Storable c)) :
    (s.clientdisconnect cn).Balanced := by
  have hb := h.savestats fun c hg => (hc c hg).1
  have hclients := Match.clients_clientdisconnect (s := (s.savestats cn).game) cn
  refine ⟨?_, ?_, fun key => ?_⟩
  · unfold Stats.clientdisconnect
    rw [hclients]
    exact Keyed.nodup_remove hb.nodup
  · intro sc hsc
    rcases Match.scores_clientdisconnect hsc with hzero | hold
    · exact hzero
    · exact hb.zeroed sc hold
  · have hout : (s.clientdisconnect cn).outstanding key = (s.savestats cn).outstanding key := by
      unfold Stats.clientdisconnect outstanding
      rw [hclients]
      cases hg : s.game.getinfo cn with
      | none =>
        have hsame : s.savestats cn = s := by simp only [Stats.savestats, hg]
        rw [hsame, Keyed.remove_of_not_mem (Keyed.lookup_eq_none.mp hg)]
      | some c =>
        obtain ⟨d, hd, hun⟩ := getinfo_savestats hg (hc c hg).1
        have hpend := pending_of_settled (hun (hc c hg).2) key
        rw [Keyed.sum_remove (fun c : Player => c.pending key) hb.nodup hd, hpend, sub_zero]
    rw [hout]
    exact hb.law key

theorem Balanced.kickqueue (h : s.Balanced) {cn : Int}
    (hc : ∀ c ∈ s.game.getinfo cn, ¬c.Unsaved) : (s.kickqueue cn).Balanced := by
  have hzero : ∀ c : Player, ¬c.dropCounters.Unsaved := fun c hun => hun.2.2 rfl
  have hdrop := h.upd cn (f := Player.dropCounters) (fun _ => rfl) fun c key hg => by
    rw [pending_of_settled (hzero c), pending_of_settled (hc c hg)]
  refine hdrop.clientdisconnect fun d hd => ?_
  have hget := Match.getinfo_upd (s := s.game) (f := Player.dropCounters) cn fun _ => rfl
  rw [hget] at hd
  obtain ⟨c, -, rfl⟩ := Option.map_eq_some_iff.mp hd
  exact ⟨fun _ _ => ⟨le_refl _, le_refl _, le_refl _⟩, fun hun => absurd hun (hzero c)⟩

/-! ## Coming in -/

theorem pending_of_counters {c : Player} (h : c.counters = 0) (key : String) : c.pending key = 0 :=
  pending_of_settled (fun hun => hun.2.2 h) key

/-- A score given to a player leaves the books alone if neither it nor the one it replaces has
counters. -/
theorem Balanced.setscore (h : s.Balanced) {cn : Int} (score : Player → Score)
    (hc : ∀ c, s.game.getinfo cn = some c → c.counters = 0 ∧
      (score c).frags = 0 ∧ (score c).deaths = 0 ∧ (score c).flags = 0) :
    Balanced { s with game := s.game.upd cn fun c => { c with score := score c } } := by
  refine h.upd cn (f := fun c => { c with score := score c }) (fun _ => rfl) fun c key hg => ?_
  obtain ⟨hzero, hf, hd, hl⟩ := hc c hg
  have hnew : Player.counters { c with score := score c } = 0 := by
    unfold Player.counters
    rw [hf, hd, hl]
    rfl
  rw [pending_of_counters hzero, pending_of_counters hnew]

theorem counters_eq_zero {c : Player} (h : c.counters = 0) :
    c.score.frags = 0 ∧ c.score.deaths = 0 ∧ c.score.flags = 0 := by
  simpa [Player.counters, Prod.ext_iff] using h

/-- The score of a twin, brought up to date, or a saved one is given to a player. -/
theorem Balanced.restorescore (h : s.Balanced) {ci : Player} (hci : s.game.getinfo ci.cn = some ci)
    (hzero : ci.counters = 0)
    (hc : ∀ c ∈ s.game.clients, c.ip = ci.ip ∧ c.name = ci.name → c.counters = 0) :
    Balanced { s with game := s.game.restorescore ci } := by
  unfold Match.restorescore
  split
  · exact h
  · split
    · next oi hoi =>
      have hmem : oi ∈ s.game.clients := List.mem_of_find?_eq_some hoi
      have htest := List.find?_some hoi
      simp only [Bool.and_eq_true, decide_eq_true_eq] at htest
      obtain ⟨hne, hkey⟩ := htest
      have hoizero : oi.counters = 0 := hc oi hmem hkey
      have htime := h.upd oi.cn (f := s.game.settle) (fun _ => rfl) fun _ _ _ => rfl
      have hother := Match.getinfo_upd_other (s := s.game) (Ne.symm hne) (f := s.game.settle)
        fun _ => rfl
      have htwin : (s.game.upd oi.cn s.game.settle).getinfo oi.cn = some (s.game.settle oi) :=
        (Match.getinfo_upd (f := s.game.settle) oi.cn fun _ => rfl).trans
          (congrArg _ (Keyed.lookup_of_mem h.nodup hmem))
      refine htime.setscore _ fun c hg => ?_
      have hg : (s.game.upd oi.cn s.game.settle).getinfo ci.cn = some c := hg
      rw [hother, hci] at hg
      obtain rfl := Option.some.inj hg
      refine ⟨hzero, ?_⟩
      rw [htwin]
      exact counters_eq_zero hoizero
    · next hnone =>
      split
      · next score hscore =>
        refine h.setscore (fun _ => score) fun c hg => ?_
        rw [hci] at hg
        obtain rfl := Option.some.inj hg
        refine ⟨hzero, ?_⟩
        obtain ⟨sc, hsc, rfl⟩ := Option.map_eq_some_iff.mp hscore
        exact h.zeroed sc (List.mem_of_find?_eq_some hsc)
      · exact h

/-- **Coming in**: a player brings no counters with him. -/
theorem Balanced.connected (h : s.Balanced) {cn : Int} (hfree : s.game.getinfo cn = none)
    (who : Nat) {ip : Nat} {name : String} (isLocal spectator : Bool)
    (hc : ∀ c ∈ s.game.clients, c.ip = ip ∧ c.name = name → c.counters = 0) :
    Balanced { s with game := s.game.connected cn who ip name isLocal spectator } := by
  unfold Match.connected
  generalize hci : ({ cn, who, ip, name, isLocal, spectator, score := {},
                      lasttimeplayed := s.game.lastmillis } : Player) = ci
  have hzero : ci.counters = 0 := by
    rw [← hci]
    rfl
  have hcn : ci.cn = cn := by rw [← hci]
  have hkey : ci.ip = ip ∧ ci.name = name := by simp [← hci]
  rw [← hcn] at hfree
  have hadd : Balanced { s with game := { s.game with clients := s.game.clients ++ [ci] } } := by
    refine ⟨Keyed.nodup_add h.nodup hfree, h.zeroed, fun key => ?_⟩
    have hsum := Keyed.sum_add (l := s.game.clients) (a := ci) fun c : Player => c.pending key
    rw [pending_of_counters hzero, add_zero] at hsum
    rw [← h.law key]
    simp only [stored, outstanding, hsum]
  refine hadd.restorescore (Keyed.lookup_add hfree) hzero fun c hmem hsame => ?_
  rcases List.mem_append.mp hmem with hmem | hmem
  · rw [hkey.1, hkey.2] at hsame
    exact hc c hmem hsame
  · rw [List.mem_singleton.mp hmem]
    exact hzero

/-! ## Scoring -/

theorem pending_of_unsaved {c : Player} (hhuman : c.cn < MAXCLIENTS) (hsaved : c.statsSaved = false)
    (key : String) : c.pending key = if key = nameKey c.name then c.counters else 0 := by
  simp [Player.pending, hhuman, hsaved, eq_comm]

theorem pending_of_bot {c : Player} (hbot : ¬c.cn < MAXCLIENTS) (key : String) :
    c.pending key = 0 := by
  simp [Player.pending, hbot]

/-- What a player adds changes by what he scores, unless his match is stored. -/
theorem pending_scored {c d : Player} (hcn : d.cn = c.cn) (hname : d.name = c.name)
    (hst : d.statsSaved = c.statsSaved)
    (hsame : c.cn < MAXCLIENTS → c.statsSaved = true → d.counters = c.counters) (key : String) :
    d.pending key = c.pending key +
      if c.cn < MAXCLIENTS ∧ key = nameKey c.name then d.counters - c.counters else 0 := by
  by_cases hhuman : c.cn < MAXCLIENTS
  · cases hsaved : c.statsSaved with
    | true =>
      rw [pending_of_saved hsaved, pending_of_saved (hst.trans hsaved), hsame hhuman hsaved]
      simp
    | false =>
      rw [pending_of_unsaved hhuman hsaved,
        pending_of_unsaved (c := d) (hcn ▸ hhuman) (hst.trans hsaved), hname]
      split <;> simp [*]
  · rw [pending_of_bot hhuman, pending_of_bot (c := d) (hcn ▸ hhuman)]
    simp [hhuman]

theorem score_eq {cn frags flags deaths : Int} {c : Player} (hg : s.game.getinfo cn = some c)
    (key : String) : s.score cn frags flags deaths key = s.scored key +
      if c.cn < MAXCLIENTS ∧ key = nameKey c.name then (frags, deaths, flags) - c.counters
      else 0 := by
  simp only [score, hg]
  by_cases hhuman : c.cn < MAXCLIENTS
  · by_cases hk : key = nameKey c.name
    · simp [hhuman, hk]
    · simp [hhuman, hk]
  · simp [hhuman]

/-- **Scoring** adds the same to what is outstanding and to what was scored. -/
theorem Balanced.play (h : s.Balanced) {cn frags flags deaths teamkills shotdamage damage : Int}
    {effectiveness : UInt32}
    (hc : ∀ c ∈ s.game.getinfo cn, c.cn < MAXCLIENTS → c.statsSaved = true →
      (frags, deaths, flags) = c.counters) :
    Balanced { s with
      game := s.game.step (.play cn frags flags deaths teamkills shotdamage damage effectiveness)
      scored := s.score cn frags flags deaths } := by
  refine ⟨nodup_upd h.nodup cn fun _ => rfl, h.zeroed, fun key => ?_⟩
  have hlaw := h.law key
  cases hg : s.game.getinfo cn with
  | none =>
    simp only [stored, outstanding, score, hg, Match.step, Match.upd] at hlaw ⊢
    rw [Keyed.modify_of_not_mem (Keyed.lookup_eq_none.mp hg)]
    exact hlaw
  | some c =>
    have hout := outstanding_upd h.nodup hg (fun c => { c with score := { c.score with
      frags, flags, deaths, teamkills, shotdamage, damage, effectiveness } }) key
    have hpend := pending_scored (c := c) (d := { c with score := { c.score with
      frags, flags, deaths, teamkills, shotdamage, damage, effectiveness } }) rfl rfl rfl (hc c hg) key
    have hsc : s.score cn frags flags deaths key = _ := score_eq hg key
    rw [hpend] at hout
    simp only [stored, outstanding, Match.step, Player.counters] at hout hlaw hsc ⊢
    rw [hout, hsc, ← hlaw]
    abel

theorem Balanced.addai (h : s.Balanced) {cn : Int} (hbot : MAXCLIENTS ≤ cn)
    (hfree : s.game.getinfo cn = none) (name : String) :
    Balanced { s with game := { s.game with clients := s.game.clients ++
      [{ cn, who := 0, ip := 0, name, isLocal := false, spectator := false, score := {},
         lasttimeplayed := s.game.lastmillis }] } } := by
  refine ⟨Keyed.nodup_add h.nodup hfree, h.zeroed, fun key => ?_⟩
  rw [← h.law key]
  simp only [stored, outstanding, Keyed.sum_add]
  rw [pending_of_bot (not_lt.mpr hbot), add_zero]

theorem Balanced.deleteai (h : s.Balanced) {cn : Int} (hbot : MAXCLIENTS ≤ cn) :
    Balanced { s with game := { s.game with clients := Keyed.remove Player.cn cn s.game.clients } } := by
  refine ⟨Keyed.nodup_remove h.nodup, h.zeroed, fun key => ?_⟩
  rw [← h.law key]
  cases hg : s.game.getinfo cn with
  | none =>
    simp only [stored, outstanding]
    rw [Keyed.remove_of_not_mem (Keyed.lookup_eq_none.mp hg)]
  | some c =>
    have hc : ¬c.cn < MAXCLIENTS := by
      rw [(Keyed.lookup_mem hg).2]
      exact not_lt.mpr hbot
    have hout := outstanding_remove h.nodup hg key
    rw [pending_of_bot hc, sub_zero] at hout
    simp only [stored, outstanding] at hout ⊢
    rw [hout]

/-- A new name for a player with nothing unsaved, or one that is stored under the same key. -/
theorem pending_switchname {c : Player} {name : String}
    (h : c.Unsaved → nameKey name = nameKey c.name) (key : String) :
    Player.pending { c with name } key = c.pending key := by
  by_cases hun : c.Unsaved
  · simp only [Player.pending, h hun]
    rfl
  · have hun' : ¬Player.Unsaved { c with name } := hun
    rw [pending_of_settled hun, pending_of_settled hun']

/-- A map change drops the counters of everybody. -/
theorem Balanced.changemap (h : s.Balanced) (hc : ∀ c ∈ s.game.clients, ¬c.Unsaved) :
    Balanced { s with game := s.game.step .changemap } := by
  refine ⟨?_, fun sc hsc => (List.not_mem_nil hsc).elim, fun key => ?_⟩
  · simp only [Match.step, List.map_map]
    exact h.nodup
  · have hzero : ∀ c ∈ s.game.clients, c.pending key = 0 := fun c hmem =>
      pending_of_settled (hc c hmem) key
    have hlaw := h.law key
    simp only [stored, outstanding, Match.step, List.map_map] at hlaw ⊢
    rw [List.map_congr_left hzero] at hlaw
    refine Eq.trans ?_ hlaw
    congr 2
    exact List.map_congr_left fun c _ => pending_of_counters rfl key

/-- A query stores the match and notes the time. -/
theorem Balanced.query (h : s.Balanced) {cn : Int} {c : Player} (hg : s.game.getinfo cn = some c)
    (hcount : c.Countable) {f : Player → Player} (hf : ∀ c, (f c).cn = c.cn)
    (hp : ∀ c key, (f c).pending key = c.pending key) :
    Balanced { s.savestats cn with game := (s.savestats cn).game.upd cn f } := by
  have hb := h.savestats fun d hd => by
    rw [hg] at hd
    rwa [← Option.some.inj hd]
  exact hb.upd cn hf fun c key _ => hp c key

/-! ## Runs -/

/-- **One event** that meets the condition keeps the books balanced. -/
theorem Balanced.step (h : s.Balanced) {e : StatsEvent} (hc : s.Clean e) {t : Stats}
    (ht : s.step e = .ok t) : t.Balanced := by
  cases e with
  | game e =>
    cases e with
    | connected cn who ip name isLocal spectator =>
      obtain rfl := Except.ok.inj ht
      simp only [Match.step]
      split
      · next hfree => exact h.connected hfree who isLocal spectator hc
      · exact h
    | clientdisconnect cn =>
      obtain rfl := Except.ok.inj ht
      exact h.clientdisconnect hc
    | play cn frags flags deaths teamkills shotdamage damage effectiveness =>
      obtain rfl := Except.ok.inj ht
      exact h.play hc
    | addai cn name =>
      obtain rfl := Except.ok.inj ht
      simp only [Match.step]
      split
      · next hfree => exact h.addai hfree.1 hfree.2 name
      · exact h
    | deleteai cn =>
      obtain rfl := Except.ok.inj ht
      simp only [Match.step]
      split
      · next hbot => exact h.deleteai hbot
      · exact h
    | switchname cn name =>
      obtain rfl := Except.ok.inj ht
      exact h.upd cn (f := fun c => { c with name }) (fun _ => rfl) fun c key hg =>
        pending_switchname (hc c hg) key
    | account cn =>
      obtain rfl := Except.ok.inj ht
      exact h.upd cn (fun _ => rfl) fun _ _ _ => rfl
    | spectate cn =>
      obtain rfl := Except.ok.inj ht
      refine h.upd cn (fun c => ?_) fun c key _ => ?_
      · split <;> rfl
      · split <;> rfl
    | unspectate cn =>
      obtain rfl := Except.ok.inj ht
      refine h.upd cn (fun c => ?_) fun c key _ => ?_
      · split <;> rfl
      · split <;> rfl
    | tick lastmillis =>
      obtain rfl := Except.ok.inj ht
      exact h.of_eq rfl rfl rfl rfl
    | changemap =>
      obtain rfl := Except.ok.inj ht
      exact h.changemap hc
  | stats cn =>
    obtain rfl := Except.ok.inj ht
    unfold sendplayerstats
    split
    · exact h
    · next c hg =>
      split
      · next htime => exact h.query hg (hc c hg htime) (fun _ => rfl) fun _ _ => rfl
      · exact h
  | leaderboard cn =>
    obtain rfl := Except.ok.inj ht
    unfold showLeaderboard
    split
    · exact h
    · next c hg =>
      split
      · next htime => exact h.query hg (hc c hg htime) (fun _ => rfl) fun _ _ => rfl
      · exact h
  | saveallstats =>
    obtain rfl := Except.ok.inj ht
    exact h.saveallstats hc
  | kickqueue cn =>
    obtain rfl := Except.ok.inj ht
    exact h.kickqueue hc
  | millis totalmillis =>
    obtain rfl := Except.ok.inj ht
    exact h.of_eq rfl rfl rfl rfl

instance (c : Player) : Decidable c.Unsaved := inferInstanceAs (Decidable (_ ∧ _))

instance (c : Player) : Decidable c.Countable := inferInstanceAs (Decidable (_ → _))

instance (c : Player) : Decidable (s.Storable c) := inferInstanceAs (Decidable (_ ∧ _))

instance (e : StatsEvent) : Decidable (s.Clean e) :=
  match e with
  | .game (.play cn _ _ _ _ _ _ _) => inferInstanceAs (Decidable (∀ c ∈ s.game.getinfo cn, _))
  | .game (.clientdisconnect cn) => inferInstanceAs (Decidable (∀ c ∈ s.game.getinfo cn, _))
  | .game (.connected ..) => inferInstanceAs (Decidable (∀ c ∈ s.game.clients, _))
  | .game (.switchname cn _) => inferInstanceAs (Decidable (∀ c ∈ s.game.getinfo cn, _))
  | .game .changemap => inferInstanceAs (Decidable (∀ c ∈ s.game.clients, _))
  | .game (.addai ..) | .game (.deleteai _) | .game (.account _) | .game (.spectate _)
  | .game (.unspectate _) | .game (.tick _) => inferInstanceAs (Decidable True)
  | .stats cn => inferInstanceAs (Decidable (∀ c ∈ s.game.getinfo cn, _))
  | .leaderboard cn => inferInstanceAs (Decidable (∀ c ∈ s.game.getinfo cn, _))
  | .saveallstats => inferInstanceAs (Decidable (∀ c ∈ s.game.clients, _))
  | .kickqueue cn => inferInstanceAs (Decidable (∀ c ∈ s.game.getinfo cn, _))
  | .millis _ => inferInstanceAs (Decidable True)

end Stats
end QServ
