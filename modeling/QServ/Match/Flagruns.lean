import QServ.Match.Flags
import QServ.Match.Frame

/-!
# Flag runs

How the present carry of each flag began, next to the marks by which `scoreflag` decides whether
a run is recorded.

* `Marked`: the marks of a client who carries a flag are those of this carry.
* `flagrun_credit`: in every run of a ctf game in which no client takes a flag while he bears the
  marks of an earlier carry, a run is recorded exactly for a scorer who took the flag from its
  base, with the time since then.
-/

namespace QServ

/-- How a carry began: the flag was taken from its base, with the time if the game ran at its
normal speed ever since, from the ground, or from the hands of another client. -/
inductive Origin where
  | base (since : Option Int)
  | ground
  | pass
  deriving DecidableEq, Repr

/-- The game runs at another speed. -/
def Origin.void : Origin → Origin
  | .base _ => .base none
  | o => o

/-- The game, and how the present carry of each flag began. -/
structure FlagRuns (P : Type) where
  game : Ctf P
  origin : Nat → Origin

namespace FlagRuns

open Ctf

variable {P : Type} (near : P → P → Bool) (w : FlagRuns P)

/-- The game is set to another speed. -/
def slows : CtfEvent P → Bool
  | .changegamespeed val => max 10 (min val 1000) ≠ 100
  | _ => false

/-- How the carries go on: one begins when a client owns a flag who did not own it before. -/
def carries (slow : Bool) (s' : Ctf P) (i : Nat) : Origin :=
  match w.game.flags[i]?, s'.flags[i]? with
  | some f, some f' =>
    if 0 ≤ f'.owner ∧ f'.owner ≠ f.owner then
      match f.place with
      | .home => .base (if w.game.gamespeed = 100 then some w.game.gamemillis else none)
      | .dropped => .ground
      | .owned _ => .pass
    else if slow then (w.origin i).void
    else w.origin i
  | _, _ => w.origin i

/-- One event. -/
def step (e : CtfEvent P) : Except Fault (FlagRuns P) :=
  let s' := w.game.next near e
  .ok { game := s', origin := w.carries (slows e) s' }

/-- No map is loaded. -/
def initial : FlagRuns P where
  game := Ctf.initial
  origin _ := .ground

/-- The time of a take as it is noted, which is not 0. -/
def clock (t : Int) : Int := if t ≠ 0 then t else 1

theorem clock_ne_zero (t : Int) : clock t ≠ 0 := by
  unfold clock
  split <;> omega

/-- The marks of a client are those of a carry. -/
structure Agrees (o : Origin) (c : Runner P) : Prop where
  passed : c.hasPassedFlag = true ↔ o = .pass
  since : ∀ t, o = .base (some t) → c.lasttakeflag = clock t
  never : o = .base none ∨ o = .ground → c.lasttakeflag = 0

/-- **The invariant**: in a game of ctf, the marks of a client who carries a flag are those of
this carry. -/
def Marked (w : FlagRuns P) : Prop :=
  w.game.hold = false → w.game.protect = false → ∀ (i : Nat) (f : Flag P) (c : Runner P),
    w.game.flags[i]? = some f → 0 ≤ f.owner → c ∈ w.game.clients → c.cn = f.owner →
      Agrees (w.origin i) c

/-- The marks are those of the present carries in this state, too. -/
def Leads (s' : Ctf P) : Prop := Marked { game := s', origin := w.carries false s' }

variable {near w} {s s' s'' : Ctf P}

/-! ## What the operations do to the marks -/

/-- The marks of the clients who still own a flag are the same. -/
def Bears (s s' : Ctf P) : Prop :=
  ∀ c' ∈ s'.clients, s'.Free c'.cn ∨
    ∃ c ∈ s.clients, c.cn = c'.cn ∧ c.hasPassedFlag = c'.hasPassedFlag ∧
      c.lasttakeflag = c'.lasttakeflag

theorem bears_of_clients (h : s'.clients = s.clients) : Bears s s' :=
  fun c' hc' => Or.inr ⟨c', h ▸ hc', rfl, rfl, rfl⟩

theorem carries_of_owner {i : Nat} {f f' : Flag P} (hf : w.game.flags[i]? = some f)
    (hf' : s'.flags[i]? = some f') (howner : f'.owner = f.owner) :
    w.carries false s' i = w.origin i := by
  unfold carries
  rw [hf, hf']
  simp only
  rw [if_neg fun h => h.2 howner]
  rfl

/-- **An operation that gives no flag to anybody** and does not touch the marks of the carriers. -/
theorem Marked.bears (hm : w.Marked) (hhold : s'.hold = w.game.hold)
    (hprotect : s'.protect = w.game.protect) (hflags : Pointwise Flag.Loses w.game s')
    (hbears : Bears w.game s') : w.Leads s' := by
  intro hh hp i f' c' hf' ho hc' hcn
  obtain ⟨f, hf, hloses⟩ := hflags.exists hf'
  have howner := (hloses.owner ho).1
  rcases hbears c' hc' with hfree | ⟨c, hc, heq, hpassed, hlast⟩
  · exact absurd hcn.symm (hfree f' (List.mem_of_getElem? hf'))
  · have hagree := hm (hhold ▸ hh) (hprotect ▸ hp) i f c hf (howner ▸ ho) hc
      (heq.trans (hcn.trans howner))
    simp only [carries_of_owner hf hf' howner]
    exact ⟨hpassed ▸ hagree.passed, hlast ▸ hagree.since, hlast ▸ hagree.never⟩

/-- Nobody owns a flag. -/
theorem marked_of_free {origin : Nat → Origin} (h : ∀ f ∈ s'.flags, f.owner < 0) :
    Marked { game := s', origin } := by
  intro _ _ i f c hf ho
  exact absurd ho (not_le.mpr (h f (List.mem_of_getElem? hf)))

/-- Only one client is written to. -/
def Touches (cn : Int) (s s' : Ctf P) : Prop := ∀ c' ∈ s'.clients, c'.cn = cn ∨ c' ∈ s.clients

theorem Touches.refl (cn : Int) (s : Ctf P) : Touches cn s s := fun _ hc => Or.inr hc

theorem Touches.trans {cn : Int} (h : Touches cn s s') (h' : Touches cn s' s'') :
    Touches cn s s'' :=
  fun c hc => (h' c hc).elim Or.inl (h c)

theorem touches_of_clients {cn : Int} (h : s'.clients = s.clients) : Touches cn s s' :=
  fun _ hc => Or.inr (h ▸ hc)

theorem touches_upd (cn : Int) {f : Runner P → Runner P} (hf : ∀ c, (f c).cn = c.cn) :
    Touches cn s (s.upd cn f) := by
  intro c' hc'
  obtain ⟨c, hc, rfl⟩ := List.mem_map.mp hc'
  split
  · next heq => exact Or.inl ((hf c).trans heq)
  · exact Or.inr hc

theorem Touches.bears {cn : Int} (h : Touches cn s s') (hfree : s'.Free cn) : Bears s s' := by
  intro c' hc'
  rcases h c' hc' with heq | hc
  · exact Or.inl (heq ▸ hfree)
  · exact Or.inr ⟨c', hc, rfl, rfl, rfl⟩

theorem frame_touches (cn : Int) : Frame cn (@Touches P cn) where
  refl := Touches.refl cn
  trans := Touches.trans
  flags _ _ _ _ := touches_of_clients rfl
  sendf _ _ _ := touches_of_clients rfl
  unmark _ := touches_upd (f := Runner.unmark) cn fun _ => rfl
  settake _ t := touches_upd (f := Runner.settake t) cn fun _ => rfl

theorem touches_flagrun (ci : Runner P) : Touches ci.cn s (s.flagrun ci) := by
  unfold flagrun
  refine Touches.trans ?_ (touches_upd (f := Runner.setpassed false) ci.cn fun _ => rfl)
  split
  · refine Touches.trans ?_ (touches_upd (f := Runner.settake 0) ci.cn fun _ => rfl)
    unfold doflagrun
    simp only
    split <;> exact touches_of_clients rfl
  · exact Touches.refl _ s

theorem clients_addscore (team score : Int) : (s.addscore team score).clients = s.clients := by
  unfold addscore
  split
  · rfl
  · split <;> rfl

theorem clients_scoreflags (goal : Nat) (relay : Option Nat) (draw : Nat) :
    (s.scoreflags goal relay draw).clients = s.clients := by
  unfold scoreflags
  generalize (if s.protect = true then s.lastmillis else 0) = invistime
  cases relay <;> simp only <;> split <;> rfl

theorem touches_scoreflag (ci : Runner P) (goal : Nat) (relay : Option Nat) (draw : Nat) :
    Touches ci.cn s (s.scoreflag ci goal relay draw) := by
  have hrun : ∀ team m, Touches ci.cn s
      (((((s.scoreflags goal relay draw).upd ci.cn Runner.addflag).addscore team 1).sendf m).flagrun
        ci) := fun team m =>
    ((frame_touches ci.cn).scoreflags goal relay draw).trans <|
      (touches_upd (f := Runner.addflag) ci.cn fun _ => rfl).trans <|
      (touches_of_clients (clients_addscore team 1)).trans (touches_flagrun ci)
  unfold scoreflag
  simp only
  split
  · exact (hrun _ _).trans (touches_of_clients rfl)
  · exact hrun _ _

/-- The flags that are scored in a game of ctf. -/
theorem scoreflags_ctf (hhold : s.hold = false) (hprotect : s.protect = false) (goal j draw : Nat) :
    s.scoreflags goal (some j) draw =
      ((s.updflag j fun f => f.returnflag 0).updflag j Flag.bump).updflag goal Flag.bump := by
  simp [scoreflags, updflag, hhold, hprotect]

/-- The carrier who scores owns no flag any more. -/
theorem Owned.free_scoreflag (h : s.Owned) (hhold : s.hold = false) (hprotect : s.protect = false)
    {ci : Runner P} (hpos : 0 ≤ ci.cn) {j : Nat} {f : Flag P} (hf : s.flags[j]? = some f)
    (hown : f.owner = ci.cn) (goal draw : Nat) :
    (s.scoreflag ci goal (some j) draw).Free ci.cn := by
  have hfree : (s.scoreflags goal (some j) draw).Free ci.cn := by
    rw [scoreflags_ctf hhold hprotect]
    refine (free_returned hpos (h.alone_of hpos hf hown)).keeps hpos ?_
    exact (keeps_updflag fun f _ => f.goes_bump).trans (keeps_updflag fun f _ => f.goes_bump)
  exact hfree.keeps hpos (keeps_scored ci goal (some j) draw)

/-! ## What the operations do to the records -/

/-- Who scored which flag. -/
def scorings (s : Ctf P) : List (Int × Int) := s.sent.filterMap FlagMsg.scored

/-- **Nothing is scored**, and no run recorded. -/
structure Quiet (s s' : Ctf P) : Prop where
  runs : s'.runs = s.runs
  sent : scorings s' = scorings s

theorem Quiet.refl (s : Ctf P) : Quiet s s := ⟨rfl, rfl⟩

theorem Quiet.trans (h : Quiet s s') (h' : Quiet s' s'') : Quiet s s'' :=
  ⟨h'.runs.trans h.runs, h'.sent.trans h.sent⟩

theorem quiet_of_eq (hruns : s'.runs = s.runs) (hsent : s'.sent = s.sent) : Quiet s s' :=
  ⟨hruns, congrArg (List.filterMap FlagMsg.scored) hsent⟩

theorem Quiet.after (h : Quiet s' s'') (hruns : s'.runs = s.runs) (hsent : s'.sent = s.sent) :
    Quiet s s'' :=
  (quiet_of_eq hruns hsent).trans h

theorem Quiet.sendf {m : FlagMsg} (h : Quiet s s') (hm : m.scored = none) :
    Quiet s (s'.sendf m) := by
  refine ⟨h.runs, ?_⟩
  rw [← h.sent]
  simp [scorings, Ctf.sendf, hm]

theorem frame_quiet (cn : Int) : Frame cn (@Quiet P) where
  refl := Quiet.refl
  trans := Quiet.trans
  flags _ _ _ _ := quiet_of_eq rfl rfl
  sendf s _ hm := (Quiet.refl s).sendf hm
  unmark _ := quiet_of_eq rfl rfl
  settake _ _ := quiet_of_eq rfl rfl

theorem quiet_addscore (team score : Int) : Quiet s (s.addscore team score) := by
  unfold addscore
  split
  · exact quiet_of_eq rfl rfl
  · split <;> exact quiet_of_eq rfl rfl

theorem quiet_resetflag (draw i : Nat) (f : Flag P) : Quiet s (s.resetflag draw i f) := by
  unfold resetflag
  split
  · refine ((frame_quiet f.owner).scoreflags i none draw).trans (Quiet.sendf ?_ rfl)
    split
    · exact Quiet.refl _
    · exact quiet_addscore _ _
  · exact Quiet.refl s

/-! ## A game of ctf -/

/-- The clients are the same, too. -/
structure Still (s s' : Ctf P) : Prop extends Quiet s s' where
  clients : s'.clients = s.clients
  hold : s'.hold = s.hold

theorem Still.trans (h : Still s s') (h' : Still s' s'') : Still s s'' :=
  ⟨h.toQuiet.trans h'.toQuiet, h'.clients.trans h.clients, h'.hold.trans h.hold⟩

theorem still_resetflag (draw i : Nat) (f : Flag P) : Still s (s.resetflag draw i f) := by
  refine ⟨quiet_resetflag draw i f, ?_, (keeps_resetflag draw i f).hold⟩
  unfold resetflag
  split
  · show Ctf.clients (if _ then _ else _) = _
    split
    · exact clients_scoreflags i none draw
    · rw [clients_addscore]
      exact clients_scoreflags i none draw
  · rfl

theorem still_showflag (i : Nat) : Still s (s.showflag i) := by
  refine ⟨(frame_quiet 0).showflag i, ?_, (keeps_showflag i).hold⟩
  unfold showflag
  split
  · rfl
  · split <;> rfl

theorem holdflag_ctf (hhold : s.hold = false) (draw i : Nat) : s.holdflag draw i = s := by
  unfold holdflag
  split
  · rfl
  · exact if_neg fun h => by simp [hhold] at h

/-- **A frame** of a game of ctf scores nothing. -/
theorem still_update (hhold : s.hold = false) (rnd : Nat → Nat) : Still s (s.update rnd) := by
  have hfold : ∀ (l : List Nat) (s : Ctf P), s.hold = false → Still s (l.foldl (update1 rnd) s) := by
    intro l
    induction l with
    | nil => exact fun s _ => ⟨Quiet.refl s, rfl, rfl⟩
    | cons i l ih =>
      intro s hhold
      have hone : Still s (update1 rnd s i) := by
        unfold update1
        split
        · exact ⟨Quiet.refl s, rfl, rfl⟩
        · next f hf =>
          have hshow := (still_resetflag (s := s) (rnd i) i f).trans (still_showflag i)
          rw [holdflag_ctf (hshow.hold.trans hhold)]
          exact hshow
      exact hone.trans (ih _ (hone.hold.trans hhold))
  unfold update
  split
  · exact ⟨Quiet.refl s, rfl, rfl⟩
  · exact hfold _ s hhold

/-- **A take request** in a game of ctf: it is refused, returns the flag, picks it up, or scores
another there. -/
theorem takeflag_ctf (hhold : s.hold = false) (hprotect : s.protect = false) (ci : Runner P)
    (i : Nat) (version : Int) :
    s.takeflag ci i version = s ∨ ∃ f, s.flags[i]? = some f ∧ s.Takes ci f version ∧
      ((f.droptime ≠ 0 ∧ s.takeflag ci i version =
          (s.updflag i fun f => (f.returnflag 0).bump).sendf (.return ci.cn i (f.version + 1))) ∨
        (s.Owns ci f ∧ s.carried ci.cn = none ∧ s.takeflag ci i version = s.pickup ci i f) ∨
        ∃ j, s.carried ci.cn = some j ∧
          s.takeflag ci i version = s.scoreflag ci i (some j) 0) := by
  unfold takeflag
  split
  · exact Or.inl rfl
  · next f hf =>
    split
    · exact Or.inl rfl
    · next htakes =>
      have htakes := not_not.mp htakes
      split
      · next howns =>
        split
        · exact Or.inl rfl
        · next hfree =>
          have hnone := Option.not_isSome_iff_eq_none.mp hfree
          exact Or.inr ⟨f, hf, htakes, Or.inr (Or.inl ⟨howns, hnone, rfl⟩)⟩
      · rw [hprotect]
        simp only [Bool.false_eq_true, if_false]
        split
        · next hdrop => exact Or.inr ⟨f, hf, htakes, Or.inl ⟨hdrop, rfl⟩⟩
        · split
          · exact Or.inl rfl
          · next j hj => exact Or.inr ⟨f, hf, htakes, Or.inr (Or.inr ⟨j, hj, rfl⟩)⟩

/-- The record `scoreflag` makes of a client. -/
def recorded (gamemillis : Int) (c : Runner P) : List (Int × Int) :=
  if c.hasPassedFlag = false ∧ c.lasttakeflag ≠ 0 ∧ gamemillis - c.lasttakeflag ≤ 90 * 1000 then
    [(c.cn, gamemillis - c.lasttakeflag)]
  else []

theorem flagrun_ctf (hhold : s.hold = false) (hprotect : s.protect = false) (ci : Runner P) :
    (s.flagrun ci).sent = s.sent ∧
      (s.flagrun ci).runs = s.runs ++ recorded s.gamemillis ci := by
  unfold flagrun recorded doflagrun
  rw [hhold, hprotect]
  cases ci.hasPassedFlag with
  | true => exact ⟨rfl, (List.append_nil _).symm⟩
  | false =>
    simp only [Bool.false_eq_true, not_false_eq_true, and_self, if_true, true_and]
    split
    · exact ⟨rfl, rfl⟩
    · exact ⟨rfl, (List.append_nil _).symm⟩

theorem gamemillis_addscore (team score : Int) :
    (s.addscore team score).gamemillis = s.gamemillis := by
  unfold addscore
  split
  · rfl
  · split <;> rfl

theorem gamemillis_scoreflags (goal : Nat) (relay : Option Nat) (draw : Nat) :
    (s.scoreflags goal relay draw).gamemillis = s.gamemillis := by
  unfold scoreflags
  generalize (if s.protect = true then s.lastmillis else 0) = invistime
  cases relay <;> simp only <;> split <;> rfl

/-- The scorer, the flag, and the record. -/
theorem scoreflag_ctf (hhold : s.hold = false) (hprotect : s.protect = false) (ci : Runner P)
    (goal j draw : Nat) : scorings (s.scoreflag ci goal (some j) draw) =
        scorings s ++ [(ci.cn, (j : Int))] ∧
      (s.scoreflag ci goal (some j) draw).runs = s.runs ++ recorded s.gamemillis ci := by
  have hrun : ∀ m, m.scored = some (ci.cn, (j : Int)) →
      scorings (((((s.scoreflags goal (some j) draw).upd ci.cn Runner.addflag).addscore
          (ctfteamflag ci.team) 1).sendf m).flagrun ci) = scorings s ++ [(ci.cn, (j : Int))] ∧
        (((((s.scoreflags goal (some j) draw).upd ci.cn Runner.addflag).addscore
          (ctfteamflag ci.team) 1).sendf m).flagrun ci).runs =
            s.runs ++ recorded s.gamemillis ci := by
    intro m hm
    generalize hadded : ((s.scoreflags goal (some j) draw).upd ci.cn Runner.addflag).addscore
      (ctfteamflag ci.team) 1 = added
    have hquiet : Quiet s added := by
      rw [← hadded]
      refine Quiet.trans ?_ (quiet_addscore _ _)
      exact ((frame_quiet ci.cn).scoreflags goal (some j) draw).trans (quiet_of_eq rfl rfl)
    have hclock : added.gamemillis = s.gamemillis := by
      rw [← hadded, gamemillis_addscore]
      exact gamemillis_scoreflags goal (some j) draw
    have hmode : added.hold = false ∧ added.protect = false := by
      rw [← hadded, (keeps_addscore _ _).hold, (keeps_addscore _ _).protect]
      simp [Ctf.upd, scoreflags, updflag, hhold, hprotect]
    obtain ⟨hsent, hruns⟩ := flagrun_ctf (s := added.sendf _) hmode.1 hmode.2 ci
    refine ⟨?_, ?_⟩
    · rw [scorings, hsent, ← hquiet.sent]
      simp [scorings, Ctf.sendf, hm]
    · rw [hruns, ← hquiet.runs, ← hclock]
      rfl
  unfold scoreflag
  simp only
  split
  · exact hrun _ rfl
  · exact hrun _ rfl

/-! ## Every run -/

/-- A take request that picks the flag up. -/
def Picks (s : Ctf P) (c : Runner P) (f : Flag P) (version : Int) : Prop :=
  s.Takes c f version ∧ s.Owns c f ∧ s.carried c.cn = none

instance (s : Ctf P) (c : Runner P) (f : Flag P) (version : Int) :
    Decidable (Picks s c f version) :=
  inferInstanceAs (Decidable (_ ∧ _))

/-- The marks of an earlier carry are gone when a client picks up a flag. -/
def Fresh (w : FlagRuns P) : CtfEvent P → Prop
  | .takeflag cn i version => w.game.hold = false ∧ w.game.protect = false →
    ∀ c ∈ w.game.getinfo cn, ∀ f ∈ w.game.flags[i.toNat]?, Picks w.game c f version →
      c.hasPassedFlag = false ∧ (f.droptime ≠ 0 → c.lasttakeflag = 0)
  | _ => True

/-- No client picks up a flag in a game of ctf while he bears the marks of an earlier carry, none
is passed to a client who carries one, and no carrier stops being alive without a word to the
mode. -/
def Clean (w : FlagRuns P) (e : CtfEvent P) : Prop := w.game.Clean e ∧ w.Fresh e

instance decidableFresh (w : FlagRuns P) : ∀ e : CtfEvent P, Decidable (w.Fresh e)
  | .takeflag cn i version => inferInstanceAs (Decidable
      (_ ∧ _ → ∀ c ∈ w.game.getinfo cn, ∀ f ∈ w.game.flags[i.toNat]?, Picks w.game c f version → _))
  | .setup .. | .parseflags .. | .connected .. | .clientdisconnect .. | .forcespectator ..
  | .setstate .. | .moved .. | .spawned .. | .died .. | .setteam .. | .trydropflag ..
  | .passflag .. | .update .. | .changegamespeed .. | .setlimit .. | .startintermission =>
    isTrue trivial

instance (w : FlagRuns P) (e : CtfEvent P) : Decidable (w.Clean e) :=
  inferInstanceAs (Decidable (_ ∧ _))

theorem Bears.upd (h : Bears s s') {f : Runner P → Runner P} (cn : Int) (hf : ∀ c, (f c).cn = c.cn ∧
    (f c).hasPassedFlag = c.hasPassedFlag ∧ (f c).lasttakeflag = c.lasttakeflag) :
    Bears s (s'.upd cn f) := by
  intro c' hc'
  obtain ⟨c, hc, rfl⟩ := List.mem_map.mp hc'
  split
  · obtain ⟨hcn, hpassed, hlast⟩ := hf c
    rw [hcn, hpassed, hlast]
    exact h c hc
  · exact h c hc

theorem Marked.keeps (hm : w.Marked) (hk : Keeps w.game s') (hb : Bears w.game s') :
    w.Leads s' :=
  hm.bears hk.hold hk.protect hk.loses hb

/-- **A client who carries no flag is given one**: the marks he has then are those of the carry. -/
theorem Marked.gains (hm : w.Marked) {t : Int} (hfree : w.game.Free t)
    (hhold : s'.hold = w.game.hold) (hprotect : s'.protect = w.game.protect)
    (htouches : Touches t w.game s')
    (hflags : ∀ (k : Nat) (f' : Flag P), s'.flags[k]? = some f' → 0 ≤ f'.owner →
      f'.owner = t ∨ ∃ f, w.game.flags[k]? = some f ∧ f'.owner = f.owner)
    (hnew : w.game.hold = false → w.game.protect = false → ∀ (k : Nat) (f' : Flag P)
      (c' : Runner P), s'.flags[k]? = some f' → f'.owner = t → c' ∈ s'.clients → c'.cn = t →
        Agrees (w.carries false s' k) c') :
    w.Leads s' := by
  intro hh hp k f' c' hf' ho hc' hcn
  rcases hflags k f' hf' ho with hown | ⟨f, hf, hown⟩
  · exact hnew (hhold ▸ hh) (hprotect ▸ hp) k f' c' hf' hown hc' (hcn.trans hown)
  · have hne : c'.cn ≠ t := by
      rw [hcn, hown]
      exact hfree f (List.mem_of_getElem? hf)
    have hc := (htouches c' hc').resolve_left hne
    simp only [carries_of_owner hf hf' hown]
    exact hm (hhold ▸ hh) (hprotect ▸ hp) k f c' hf (hown ▸ ho) hc (hcn.trans hown)

/-- The client who picked a flag up. -/
theorem mem_pickup (h : s.Owned) {ci : Runner P} {cn : Int} (hg : s.getinfo cn = some ci)
    (hhold : s.hold = false) (hprotect : s.protect = false) {i : Nat} {f : Flag P} {c' : Runner P}
    (hc' : c' ∈ (s.pickup ci i f).clients) (hcn : c'.cn = ci.cn) :
    c' = if f.droptime = 0 then Runner.settake s.taketime ci else ci := by
  have hsame : ∀ c ∈ s.clients, c.cn = ci.cn → c = ci := fun c hc heq =>
    List.inj_on_of_nodup_map h.nodup hc (getinfo_mem hg) heq
  unfold pickup at hc'
  generalize (if s.hold = true then ctfteamflag ci.team else -1) = ownteam at hc'
  simp only at hc'
  split
  · next hdrop =>
    rw [if_pos (by exact ⟨hdrop, by simp [Ctf.sendf, updflag, hhold, hprotect]⟩)] at hc'
    obtain ⟨c, hc, rfl⟩ := List.mem_map.mp hc'
    split
    · next heq =>
      rw [hsame c hc heq]
      rfl
    · next hne =>
      rw [if_neg hne] at hcn
      exact absurd hcn hne
  · next hdrop =>
    rw [if_neg fun hd => hdrop hd.1] at hc'
    exact hsame c' hc' hcn

/-- **A flag is picked up** from its base or from the ground. -/
theorem Marked.pickup (hm : w.Marked) (h : w.game.Owned) {ci : Runner P} {cn : Int}
    (hg : w.game.getinfo cn = some ci) {i : Nat} {f : Flag P} {version : Int}
    (hf : w.game.flags[i]? = some f) (hpicks : Picks w.game ci f version)
    (hfresh : w.game.hold = false ∧ w.game.protect = false →
      ci.hasPassedFlag = false ∧ (f.droptime ≠ 0 → ci.lasttakeflag = 0)) :
    w.Leads (w.game.pickup ci i f) := by
  obtain ⟨htakes, -, hnone⟩ := hpicks
  have hfree := carried_eq_none.mp hnone
  have hpos := h.nonneg ci (getinfo_mem hg)
  have howner : f.owner < 0 := htakes.2.2.2.2.1
  obtain ⟨-, -, hhold', hprotect', -⟩ := pickup_flags (s := w.game) ci i f
  refine hm.gains hfree hhold' hprotect' ((frame_touches ci.cn).pickup i f) (fun k f' hf' _ => ?_) ?_
  · rw [getElem?_pickup, Option.map_eq_some_iff] at hf'
    obtain ⟨a, ha, rfl⟩ := hf'
    split
    · exact Or.inl rfl
    · exact Or.inr ⟨a, ha, rfl⟩
  · intro hhold hprotect k f' c' hf' hown hc' hcn
    obtain ⟨hpassed, hground⟩ := hfresh ⟨hhold, hprotect⟩
    have hik : i = k := by
      by_contra hne
      rw [getElem?_pickup, Option.map_eq_some_iff] at hf'
      obtain ⟨a, ha, rfl⟩ := hf'
      rw [if_neg hne] at hown
      exact hfree a (List.mem_of_getElem? ha) hown
    subst hik
    have hc' := mem_pickup h hg hhold hprotect hc' hcn
    unfold carries
    rw [hf, hf']
    simp only
    rw [if_pos ⟨hown ▸ hpos, by omega⟩, Flag.place, if_neg (not_le.mpr howner)]
    by_cases hdrop : f.droptime = 0
    · -- the flag was at its base
      rw [if_pos hdrop] at hc'
      subst hc'
      rw [if_neg (not_not.mpr hdrop)]
      refine ⟨by simp [Runner.settake, hpassed], fun t ht => ?_, fun hvoid => ?_⟩
      · obtain ⟨hspeed, rfl⟩ : w.game.gamespeed = 100 ∧ w.game.gamemillis = t := by
          simpa using ht
        show w.game.taketime = clock w.game.gamemillis
        rw [taketime, if_pos hspeed]
        rfl
      · have hspeed : w.game.gamespeed ≠ 100 := by simpa using hvoid
        exact if_neg hspeed
    · rw [if_neg hdrop] at hc'
      subst hc'
      rw [if_pos hdrop]
      exact ⟨by simp [hpassed], fun t ht => by simp at ht, fun _ => hground hdrop⟩

theorem touches_passed (hhold : s.hold = false) (rnd : Nat → Nat) (i : Nat) (cn : Int)
    (t : Runner P) (f : Flag P) : Touches t.cn s (s.passed rnd i cn t f) := by
  have hpick : Touches t.cn s ((s.released i cn).pickup t i ((f.returnflag 0).forget cn)) :=
    Touches.trans (touches_of_clients rfl) ((frame_touches t.cn).pickup i _)
  have hhold' := (pickup_flags (s := s.released i cn) t i ((f.returnflag 0).forget cn)).2.2.1
  refine hpick.trans (Touches.trans (touches_of_clients (still_update ?_ rnd).clients) ?_)
  · exact hhold'.trans hhold
  · exact touches_upd (f := Runner.setpassed true) t.cn fun _ => rfl

/-- Where the flags are after a pass. -/
theorem passed_owner (rnd : Nat → Nat) {i : Nat} {cn : Int} {t : Runner P} {f : Flag P} {k : Nat}
    {f' : Flag P} (hf' : (s.passed rnd i cn t f).flags[k]? = some f') (ho : 0 ≤ f'.owner) :
    ∃ a, s.flags[k]? = some a ∧ if i = k then f'.owner = t.cn else f'.owner = a.owner := by
  have hk : Keeps ((s.released i cn).pickup t i ((f.returnflag 0).forget cn))
      (s.passed rnd i cn t f) := (keeps_update rnd).trans (keeps_setpassed t.cn true)
  obtain ⟨g, hg, hgo⟩ := hk.flags.exists hf'
  obtain ⟨howner, -⟩ := hgo.owner ho
  rw [getElem?_pickup, Option.map_eq_some_iff] at hg
  obtain ⟨b, hb, rfl⟩ := hg
  obtain ⟨a, ha, hloses⟩ := (loses_released i cn).exists hb
  refine ⟨a, ha, ?_⟩
  by_cases hik : i = k
  · rw [if_pos hik] at howner ⊢
    exact howner
  · rw [if_neg hik] at howner ⊢
    exact howner.trans (hloses.owner (howner ▸ ho)).1

/-- **A flag is passed**: the client who has it now bears the marker. -/
theorem Marked.passed (hm : w.Marked) {actor target : Runner P} (hne : actor.cn ≠ target.cn)
    (h : w.game.Owned) {i : Nat} {f : Flag P} (hf : w.game.flags[i]? = some f)
    (hown : f.owner = actor.cn) (hpos : 0 ≤ actor.cn) (hfree : w.game.Free target.cn)
    {t : Runner P} (ht : w.game.getinfo target.cn = some t) (rnd : Nat → Nat) :
    w.game.hold = false → w.Leads (w.game.passed rnd i actor.cn t f) := by
  intro hhold
  have htpos := h.nonneg t (getinfo_mem ht)
  have htcn := getinfo_cn ht
  obtain ⟨-, -, hhold', hprotect', -⟩ := pickup_flags (s := w.game.released i actor.cn) t i
    ((f.returnflag 0).forget actor.cn)
  have hk : Keeps ((w.game.released i actor.cn).pickup t i ((f.returnflag 0).forget actor.cn))
      (w.game.passed rnd i actor.cn t f) := (keeps_update rnd).trans (keeps_setpassed t.cn true)
  refine hm.gains (t := t.cn) (htcn ▸ hfree) (hk.hold.trans hhold') (hk.protect.trans hprotect')
    (touches_passed hhold rnd i actor.cn t f) (fun k f' hf' ho => ?_) ?_
  · obtain ⟨a, ha, howner⟩ := passed_owner rnd hf' ho
    split at howner
    · exact Or.inl howner
    · exact Or.inr ⟨a, ha, howner⟩
  · intro _ _ k f' c' hf' hown' hc' hcn
    obtain ⟨a, ha, howner⟩ := passed_owner rnd hf' (hown' ▸ htpos)
    have hik : i = k := by
      by_contra hne'
      rw [if_neg hne', hown'] at howner
      exact hfree a (List.mem_of_getElem? ha) (htcn ▸ howner.symm)
    subst hik
    obtain rfl := Option.some.inj (hf.symm.trans ha)
    have hpassed : c'.hasPassedFlag = true := by
      obtain ⟨c, -, rfl⟩ := List.mem_map.mp hc'
      split
      · rfl
      · next hother =>
        rw [if_neg hother] at hcn
        exact absurd hcn hother
    have horigin : w.carries false (w.game.passed rnd i actor.cn t f) i = .pass := by
      unfold carries
      rw [hf, hf']
      simp only
      rw [if_pos ⟨hown' ▸ htpos, by omega⟩, Flag.place, if_pos (by omega)]
    rw [horigin]
    exact ⟨iff_of_true hpassed rfl, fun t ht => by simp at ht, fun hvoid => by simp at hvoid⟩

/-- Another mode is played. -/
theorem marked_of_mode {origin : Nat → Origin} (h : ¬(s'.hold = false ∧ s'.protect = false)) :
    Marked { game := s', origin } :=
  fun hh hp => absurd ⟨hh, hp⟩ h

/-- What a take request does to the marks. -/
theorem Marked.takeflag (hm : w.Marked) (h : w.game.Owned) {ci : Runner P} {cn : Int}
    (hg : w.game.getinfo cn = some ci) (i : Nat) (version : Int)
    (hfresh : w.game.hold = false ∧ w.game.protect = false → ∀ f ∈ w.game.flags[i]?,
      Picks w.game ci f version → ci.hasPassedFlag = false ∧ (f.droptime ≠ 0 → ci.lasttakeflag = 0)) :
    w.Leads (w.game.takeflag ci i version) := by
  have hpos := h.nonneg ci (getinfo_mem hg)
  rcases takeflag_cases (s := w.game) hpos i version with hk | ⟨f, hf, htakes, howns, hnone, heq⟩
  · by_cases hctf : w.game.hold = false ∧ w.game.protect = false
    · refine hm.keeps hk ?_
      rcases takeflag_ctf hctf.1 hctf.2 ci i version with
        heq | ⟨f, hf, -, ⟨-, heq⟩ | ⟨-, hnone, heq⟩ | ⟨j, hj, heq⟩⟩
      · exact bears_of_clients (congrArg Ctf.clients heq)
      · rw [heq]
        exact bears_of_clients rfl
      · rw [heq] at hk ⊢
        exact ((frame_touches ci.cn).pickup i f).bears ((carried_eq_none.mp hnone).keeps hpos hk)
      · obtain ⟨g, hg', hown⟩ := carried_spec hj
        rw [heq]
        refine (touches_scoreflag ci i (some j) 0).bears ?_
        exact Owned.free_scoreflag h hctf.1 hctf.2 hpos hg' hown i 0
    · refine marked_of_mode fun hctf' => hctf ?_
      rw [hk.hold, hk.protect] at hctf'
      exact hctf'
  · rw [heq]
    exact hm.pickup h hg hf ⟨htakes, howns, hnone⟩ fun hctf => hfresh hctf f hf ⟨htakes, howns, hnone⟩

/-- What a pass does to the marks. -/
theorem Marked.passflag (hm : w.Marked) (h : w.game.Owned) {actor target : Runner P}
    (hp : w.game.Partners actor target) (hfree : w.game.Free actor.cn ∨ w.game.Free target.cn)
    (rnd : Nat → Nat) : w.Leads (w.game.dopassflagsequence near rnd actor target) := by
  rcases @Owned.dopassflagsequence_cases P near _ h _ _ hp hfree rnd with
    heq | ⟨i, f, t, hf, hown, hfree, ht, hteam, halive, heq⟩
  · rw [heq]
    exact hm.keeps (Keeps.refl _) (bears_of_clients rfl)
  · rw [heq]
    obtain ⟨state, hactor⟩ := hp.actor
    by_cases hhold : w.game.hold = false
    · exact hm.passed hp.ne h hf hown (h.nonneg_roster hactor) hfree ht rnd hhold
    · refine marked_of_mode fun hctf => hhold ?_
      have hpick := (pickup_flags (s := w.game.released i actor.cn) t i
        ((f.returnflag 0).forget actor.cn)).2.2.1
      have hk : Keeps ((w.game.released i actor.cn).pickup t i ((f.returnflag 0).forget actor.cn))
          (w.game.passed rnd i actor.cn t f) := (keeps_update rnd).trans (keeps_setpassed t.cn true)
      exact hpick.symm.trans (hk.hold.symm.trans hctf.1)

theorem void_eq_pass {o : Origin} : o.void = .pass ↔ o = .pass := by
  cases o <;> simp [Origin.void]

theorem void_ne_since (o : Origin) (t : Int) : o.void ≠ .base (some t) := by
  cases o <;> simp [Origin.void]

/-- The speed of the game is changed: a run that has begun counts no more. -/
theorem Marked.changegamespeed (hm : w.Marked) (val : Int) : Marked
    { game := w.game.changegamespeed val,
      origin := w.carries (slows (.changegamespeed val : CtfEvent P)) (w.game.changegamespeed val) } := by
  by_cases hslow : max 10 (min val 1000) ≠ 100
  · have heq : w.game.changegamespeed val = { w.game with
        clients := w.game.clients.map (Runner.settake 0), gamespeed := max 10 (min val 1000) } := by
      unfold Ctf.changegamespeed
      simp only
      rw [if_pos hslow]
    rw [heq]
    intro hh hp i f c' hf ho hc' hcn
    obtain ⟨c, hc, rfl⟩ := List.mem_map.mp hc'
    have hf : w.game.flags[i]? = some f := hf
    have hagree := hm hh hp i f c hf ho hc hcn
    have horigin : w.carries (slows (.changegamespeed val : CtfEvent P)) { w.game with
        clients := w.game.clients.map (Runner.settake 0),
        gamespeed := max 10 (min val 1000) } i = (w.origin i).void := by
      simp [carries, hf, slows, hslow]
    simp only [horigin]
    refine ⟨hagree.passed.trans void_eq_pass.symm, fun t ht => ?_, fun _ => rfl⟩
    exact absurd ht (void_ne_since _ t)
  · have heq : w.game.changegamespeed val = { w.game with gamespeed := max 10 (min val 1000) } := by
      unfold Ctf.changegamespeed
      simp only
      rw [if_neg hslow]
    have hslows : slows (.changegamespeed val : CtfEvent P) = false := decide_eq_false hslow
    rw [heq, hslows]
    exact hm.keeps (Keeps.of_flags rfl rfl rfl rfl rfl) (bears_of_clients rfl)

theorem Marked.withinfo (hm : w.Marked) {cn : Int} {f : Runner P → Ctf P}
    (hf : ∀ ci, w.game.getinfo cn = some ci → w.Leads (f ci)) :
    w.Leads (w.game.withinfo cn f) := by
  unfold Ctf.withinfo
  cases hg : w.game.getinfo cn with
  | none => exact hm.keeps (Keeps.refl _) (bears_of_clients rfl)
  | some ci => exact hf ci hg

/-- A client drops what he carries, and something else of him is changed. -/
theorem Marked.then_upd (hm : w.Marked) (hk : Keeps w.game s') (hb : Bears w.game s') (cn : Int)
    {f : Runner P → Runner P} (hf : ∀ c, (f c).cn = c.cn ∧
      (f c).hasPassedFlag = c.hasPassedFlag ∧ (f c).lasttakeflag = c.lasttakeflag) :
    w.Leads (s'.upd cn f) :=
  hm.bears hk.hold hk.protect hk.loses (hb.upd cn hf)

/-- **One event** that is clean. -/
theorem Marked.next (hm : w.Marked) (h : w.game.Owned) {e : CtfEvent P} (hc : w.Clean e) :
    Marked { game := w.game.next near e, origin := w.carries (slows e) (w.game.next near e) } := by
  have hid : Bears w.game w.game := bears_of_clients rfl
  have hsame : w.Leads w.game := hm.keeps (Keeps.refl _) hid
  have hleave : ∀ ci ∈ w.game.clients, (w.game.leavegame near ci).Free ci.cn :=
    fun ci hci => h.free_leavegame (h.nonneg ci hci)
  have hdrop : ∀ ci ∈ w.game.clients, (w.game.dropflag near ci ci.cn).Free ci.cn :=
    fun ci hci => free_dropflag (h.nonneg ci hci) h.got ci.cn
  cases e with
  | setup gotitems hold protect tkpenalty spots gamelimit gamespeed rnd =>
    refine marked_of_free ?_
    exact free_setup gotitems hold protect tkpenalty spots gamelimit gamespeed rnd
  | parseflags spots rnd =>
    show w.Leads (w.game.parseflags spots rnd)
    unfold Ctf.parseflags
    split
    · next hgot => exact marked_of_free (free_setupflags (h.got hgot) spots rnd)
    · exact hsame
  | connected cn team state o flags =>
    show w.Leads (w.game.connected cn team state o flags)
    unfold Ctf.connected
    split
    · next hnew =>
      refine hm.bears rfl rfl (Keeps.refl w.game).loses fun c' hc' => ?_
      rcases List.mem_append.mp hc' with hc' | hc'
      · exact hid c' hc'
      · refine Or.inl fun f hf heq => ?_
        rw [List.mem_singleton.mp hc'] at heq
        -- who owns a flag is connected
        obtain ⟨i, hi⟩ := List.getElem?_of_mem hf
        obtain ⟨-, -, v, hv, hcarry⟩ := h.carried i f hi (heq ▸ hnew.2.1)
        obtain ⟨c, hcm, rfl⟩ := List.mem_map.mp hv
        exact Keyed.lookup_eq_none.mp hnew.1 c hcm (hcarry.1.trans heq)
    · exact hsame
  | clientdisconnect cn =>
    refine hm.withinfo fun ci hg => ?_
    have hk : Keeps w.game (w.game.leavegame near ci) := keeps_leavegame ci
    have hb : Bears w.game (w.game.leavegame near ci) :=
      (frame_touches ci.cn).leavegame.bears (hleave ci (getinfo_mem hg))
    exact hm.bears hk.hold hk.protect hk.loses fun c hc => hb c (List.mem_of_mem_filter hc)
  | forcespectator cn =>
    refine hm.withinfo fun ci hg => ?_
    have hb := (frame_touches ci.cn).leavegame.bears (hleave ci (getinfo_mem hg))
    exact hm.then_upd (keeps_leavegame ci) hb cn fun _ => ⟨rfl, rfl, rfl⟩
  | setstate cn state => exact hm.then_upd (Keeps.refl _) hid cn fun _ => ⟨rfl, rfl, rfl⟩
  | moved cn o => exact hm.then_upd (Keeps.refl _) hid cn fun _ => ⟨rfl, rfl, rfl⟩
  | spawned cn =>
    refine hm.withinfo fun ci hg => ?_
    split
    · exact hm.then_upd (Keeps.refl _) hid cn fun _ => ⟨rfl, rfl, rfl⟩
    · exact hsame
  | died cn actor =>
    refine hm.withinfo fun ci hg => ?_
    split
    · have hfree : (w.game.died near ci (actor.bind w.game.getinfo)).Free ci.cn :=
        h.free_died (h.nonneg ci (getinfo_mem hg)) _
      exact hm.then_upd (keeps_died ci _) (((frame_touches ci.cn).died _).bears hfree) cn
        fun _ => ⟨rfl, rfl, rfl⟩
    · exact hsame
  | setteam cn team =>
    refine hm.withinfo fun ci hg => ?_
    split
    · have hb := ((frame_touches ci.cn).dropflag ci.cn).bears (hdrop ci (getinfo_mem hg))
      exact hm.then_upd (keeps_dropflag ci _) hb cn fun _ => ⟨rfl, rfl, rfl⟩
    · exact hm.then_upd (Keeps.refl _) hid cn fun _ => ⟨rfl, rfl, rfl⟩
  | takeflag cn i version =>
    refine hm.withinfo fun ci hg => ?_
    split
    · exact hm.takeflag h hg i.toNat version fun hctf => hc.2 hctf ci hg
    · exact hsame
  | trydropflag cn =>
    refine hm.withinfo fun ci hg => ?_
    exact hm.keeps (keeps_dropflag ci _) (((frame_touches ci.cn).dropflag _).bears (hdrop ci (getinfo_mem hg)))
  | passflag actor target rnd =>
    refine hm.withinfo fun a ha => hm.withinfo fun t ht => ?_
    unfold Ctf.passflag
    split
    · next hpass =>
      have hfree := hc.1 a ha t ht hpass
      rw [carried_eq_none, carried_eq_none] at hfree
      exact hm.passflag h (partners_of_getinfo ha ht hpass) hfree rnd
    · exact hsame
  | update lastmillis gamemillis rnd =>
    have hk : Keeps w.game { w.game with lastmillis, gamemillis } :=
      Keeps.of_flags rfl rfl rfl rfl rfl
    have hkeeps := hk.trans (keeps_update rnd)
    by_cases hhold : w.game.hold = false
    · have hstill := still_update (s := { w.game with lastmillis, gamemillis }) hhold rnd
      exact hm.keeps hkeeps (bears_of_clients hstill.clients)
    · exact marked_of_mode fun hctf => hhold (hkeeps.hold.symm.trans hctf.1)
  | changegamespeed val => exact hm.changegamespeed val
  | setlimit gamelimit => exact hm.keeps (Keeps.of_flags rfl rfl rfl rfl rfl) hid
  | startintermission => exact hm.keeps keeps_startintermission hid

/-! ## What is recorded -/

/-- What is told of a run: a flag that was taken from its base at most 90 seconds ago. -/
def credit (gamemillis : Int) : Origin → Option Int
  | .base (some t) => if gamemillis - clock t ≤ 90 * 1000 then some (gamemillis - clock t) else none
  | _ => none

/-- **The record** tells how the carry began. -/
theorem Agrees.recorded {o : Origin} {c : Runner P} (h : Agrees o c) (gamemillis : Int) :
    recorded gamemillis c = ((credit gamemillis o).map fun t => (c.cn, t)).toList := by
  unfold FlagRuns.recorded credit
  cases o with
  | base since =>
    have hpassed : c.hasPassedFlag = false := by simpa using h.passed
    cases since with
    | some t =>
      have hne := clock_ne_zero t
      simp only [hpassed, h.since t rfl, hne, ne_eq, not_false_eq_true, true_and]
      split <;> rfl
    | none => simp [h.never (Or.inl rfl)]
  | ground => simp [h.never (Or.inr rfl)]
  | pass => simp [h.passed.mpr rfl]

/-- What one event tells: nothing, or that the carrier of a flag scored it, and his run. -/
def Tells (w : FlagRuns P) (s' : Ctf P) : Prop :=
  Quiet w.game s' ∨ ∃ (j : Nat) (f : Flag P), w.game.flags[j]? = some f ∧ 0 ≤ f.owner ∧
    scorings s' = scorings w.game ++ [(f.owner, (j : Int))] ∧
    s'.runs = w.game.runs ++
      ((credit w.game.gamemillis (w.origin j)).map fun t => (f.owner, t)).toList

theorem Marked.tells_takeflag (hm : w.Marked) (h : w.game.Owned) (hhold : w.game.hold = false)
    (hprotect : w.game.protect = false) {ci : Runner P} {cn : Int}
    (hg : w.game.getinfo cn = some ci) (i : Nat) (version : Int) :
    w.Tells (w.game.takeflag ci i version) := by
  rcases takeflag_ctf hhold hprotect ci i version with
    heq | ⟨f, -, -, ⟨-, heq⟩ | ⟨-, -, heq⟩ | ⟨j, hj, heq⟩⟩
  · rw [heq]
    exact Or.inl (Quiet.refl _)
  · rw [heq]
    exact Or.inl (Quiet.sendf (quiet_of_eq rfl rfl) rfl)
  · rw [heq]
    exact Or.inl ((frame_quiet ci.cn).pickup i f)
  · obtain ⟨g, hg', hown⟩ := carried_spec hj
    have hpos := h.nonneg ci (getinfo_mem hg)
    have hagree := hm hhold hprotect j g ci hg' (hown ▸ hpos) (getinfo_mem hg) hown.symm
    obtain ⟨hscored, hruns⟩ := scoreflag_ctf hhold hprotect ci i j 0
    rw [heq]
    refine Or.inr ⟨j, g, hg', hown ▸ hpos, hown ▸ hscored, ?_⟩
    rw [hruns, hagree.recorded, hown]

theorem tells_withinfo {cn : Int} {f : Runner P → Ctf P}
    (hf : ∀ ci, w.game.getinfo cn = some ci → w.Tells (f ci)) :
    w.Tells (w.game.withinfo cn f) := by
  unfold Ctf.withinfo
  cases hg : w.game.getinfo cn with
  | none => exact Or.inl (Quiet.refl _)
  | some ci => exact hf ci hg

/-- **One event** of a game of ctf tells of a run only when a flag is scored. -/
theorem Marked.tells (hm : w.Marked) (h : w.game.Owned) {e : CtfEvent P} (hc : w.Clean e)
    (hhold : w.game.hold = false) (hprotect : w.game.protect = false) :
    w.Tells (w.game.next near e) := by
  have hsame : w.Tells w.game := Or.inl (Quiet.refl _)
  cases e with
  | setup gotitems hold protect tkpenalty spots gamelimit gamespeed rnd =>
    refine Or.inl ?_
    show Quiet w.game (w.game.setup gotitems hold protect tkpenalty spots gamelimit gamespeed rnd)
    unfold Ctf.setup
    simp only
    split
    · exact ((frame_quiet 0).setupflags spots rnd).after rfl rfl
    · exact quiet_of_eq rfl rfl
  | parseflags spots rnd => exact Or.inl ((frame_quiet 0).parseflags spots rnd)
  | connected cn team state o flags =>
    refine Or.inl ?_
    show Quiet w.game (w.game.connected cn team state o flags)
    unfold Ctf.connected
    split <;> exact quiet_of_eq rfl rfl
  | clientdisconnect cn =>
    exact tells_withinfo fun ci _ => Or.inl ((frame_quiet ci.cn).leavegame.trans (quiet_of_eq rfl rfl))
  | forcespectator cn =>
    exact tells_withinfo fun ci _ => Or.inl ((frame_quiet ci.cn).leavegame.trans (quiet_of_eq rfl rfl))
  | setstate cn state => exact Or.inl (quiet_of_eq rfl rfl)
  | moved cn o => exact Or.inl (quiet_of_eq rfl rfl)
  | spawned cn =>
    refine tells_withinfo fun ci _ => Or.inl ?_
    split <;> exact quiet_of_eq rfl rfl
  | died cn actor =>
    refine tells_withinfo fun ci _ => Or.inl ?_
    split
    · exact ((frame_quiet ci.cn).died _).trans (quiet_of_eq rfl rfl)
    · exact Quiet.refl _
  | setteam cn team =>
    refine tells_withinfo fun ci _ => Or.inl ?_
    split
    · exact ((frame_quiet ci.cn).dropflag _).trans (quiet_of_eq rfl rfl)
    · exact quiet_of_eq rfl rfl
  | takeflag cn i version =>
    refine tells_withinfo fun ci hg => ?_
    split
    · exact hm.tells_takeflag h hhold hprotect hg i.toNat version
    · exact hsame
  | trydropflag cn => exact tells_withinfo fun ci _ => Or.inl ((frame_quiet ci.cn).dropflag _)
  | passflag actor target rnd =>
    refine tells_withinfo fun a ha => tells_withinfo fun t ht => Or.inl ?_
    unfold Ctf.passflag
    split
    · next hpass =>
      have hfree := hc.1 a ha t ht hpass
      rw [carried_eq_none, carried_eq_none] at hfree
      rcases @Owned.dopassflagsequence_cases P near _ h _ _ (partners_of_getinfo ha ht hpass)
        hfree rnd with heq | ⟨i, f, t, -, -, -, -, -, -, heq⟩
      · rw [heq]
        exact Quiet.refl _
      · rw [heq]
        have hpick : Quiet w.game
            ((w.game.released i a.cn).pickup t i ((f.returnflag 0).forget a.cn)) :=
          ((frame_quiet t.cn).pickup i _).after rfl rfl
        have hmode := (pickup_flags (s := w.game.released i a.cn) t i
          ((f.returnflag 0).forget a.cn)).2.2.1
        refine hpick.trans (Quiet.trans (still_update ?_ rnd).toQuiet (quiet_of_eq rfl rfl))
        exact hmode.trans hhold
    · exact Quiet.refl _
  | update lastmillis gamemillis rnd =>
    have hstill := still_update (s := { w.game with lastmillis, gamemillis }) hhold rnd
    exact Or.inl (hstill.toQuiet.after rfl rfl)
  | changegamespeed val =>
    refine Or.inl ?_
    show Quiet w.game (w.game.changegamespeed val)
    unfold Ctf.changegamespeed
    simp only
    split <;> exact quiet_of_eq rfl rfl
  | setlimit gamelimit => exact Or.inl (quiet_of_eq rfl rfl)
  | startintermission => exact Or.inl (quiet_of_eq rfl rfl)

/-! ## Refused takes -/

theorem version_eq {i : Nat} {f : Flag P} (hf : s.flags[i]? = some f) : s.version i = f.version := by
  rw [version, hf]
  rfl

/-- **Every run** whose events are clean. -/
theorem Marked.of_steps {es : List (CtfEvent P)}
    (hrun : Run.Steps (FlagRuns.step near) Clean initial es w) : w.game.Owned ∧ w.Marked := by
  refine hrun.invariant (fun w => w.game.Owned ∧ w.Marked) (fun w e w' h hc hs => ?_)
    ⟨owned_initial, marked_of_free fun _ hf => absurd hf List.not_mem_nil⟩
  obtain rfl := Except.ok.inj hs
  exact ⟨h.1.next hc.1, h.2.next h.1 hc⟩

/-- Two players of team good, the second of whom takes the flag of team evil at one second. -/
def takes : List (CtfEvent Unit) :=
  [.setup true false false true [((), 1), ((), 2)] 600000 100 id, .connected 0 "good" .dead () 0,
    .connected 1 "good" .dead () 0, .spawned 0, .spawned 1, .update 1000 1000 id,
    .takeflag 1 1 0]

end FlagRuns
end QServ
