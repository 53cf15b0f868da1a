import QServ.Match.Arena
import QServ.Match.Frame

/-!
# Intermission

After the end of a match the scores are final, as far as the guards go.

* `Clock.Late`: a match whose intermission has started is past its time limit.
* `Ctf.Even`, `Capture.Even`, `Collect.Even`: an operation that counts nothing.
* `scores_final`: once a match is over, in every run in which no client scores by a message, and
  no player is killed by one, the scores of the mode, of the teams and of the clients stay the
  same until the next map is loaded.
-/

namespace QServ

namespace Clock

variable {c : Clock}

/-- The intermission does not start before the time limit. -/
structure Late (c : Clock) : Prop where
  interm : c.interm ≠ 0 → c.gamelimit ≤ c.gamemillis

theorem Late.over_iff (h : c.Late) : c.Over ↔ c.gamelimit ≤ c.gamemillis :=
  ⟨fun hover => hover.elim h.interm id, Or.inr⟩

theorem Late.checkintermission (h : c.Late) (force tied : Bool) :
    (c.checkintermission force tied).Late := by
  unfold Clock.checkintermission
  split
  · next hlimit =>
    split
    · exact ⟨fun hne => absurd hlimit.2 hne⟩
    · exact ⟨fun _ => hlimit.1⟩
  · exact h

theorem late_startintermission (c : Clock) : c.startintermission.Late := by
  refine Late.checkintermission ⟨fun _ => ?_⟩ true false
  exact min_le_right _ _

theorem Late.endintermission (h : c.Late) : c.endintermission.Late := by
  unfold Clock.endintermission
  split
  · next hend => exact ⟨fun _ => h.interm (by omega)⟩
  · exact h

/-- Without overtime a match that is over stays so. -/
theorem Over.checkintermission (h : c.Over) {force tied : Bool}
    (htied : c.interm = 0 → (!force && tied) = false) : (c.checkintermission force tied).Over := by
  unfold Clock.checkintermission
  split
  · next hlimit =>
    rw [if_neg (by simp [htied hlimit.2])]
    exact Or.inr hlimit.1
  · exact h

theorem over_startintermission (c : Clock) : c.startintermission.Over :=
  Over.checkintermission (Or.inr (min_le_right _ _)) fun _ => rfl

theorem Over.endintermission (h : c.Over) : c.endintermission.Over := by
  unfold Clock.endintermission
  split
  · exact Or.inl (show (-1 : Int) ≠ 0 by decide)
  · exact h

end Clock

/-! ## Operations that count nothing -/

namespace Mode

variable {P : Type} {m m' m'' : Mode P}

/-- **Nothing is counted**, and the clock stands. -/
structure Even (m m' : Mode P) : Prop where
  scores : m'.scores = m.scores
  tally : m'.tally = m.tally
  clock : m'.clock = m.clock

theorem Even.refl (m : Mode P) : Even m m := ⟨rfl, rfl, rfl⟩

theorem Even.trans (h : Even m m') (h' : Even m' m'') : Even m m'' :=
  ⟨h'.scores.trans h.scores, h'.tally.trans h.tally, h'.clock.trans h.clock⟩

theorem Even.late (h : Even m m') (hlate : m.clock.Late) : m'.clock.Late := h.clock ▸ hlate

end Mode

/-! ## Flags -/

namespace Ctf

variable {P : Type} {near : P → P → Bool} {s s' s'' : Ctf P}

/-- Nothing is counted in a game of the mode. -/
abbrev Even (s s' : Ctf P) : Prop := Mode.Even (.ctf s) (.ctf s')

/-- The clock of the match. -/
abbrev clock (s : Ctf P) : Clock := (Mode.ctf s).clock

theorem even_upd {f : Runner P → Runner P} (hf : ∀ c, ((f c).cn, (f c).flags) = (c.cn, c.flags))
    (cn : Int) : Even s (s.upd cn f) := by
  refine ⟨rfl, ?_, rfl⟩
  simp only [Mode.tally, upd, Keyed.modify, List.map_map]
  refine List.map_congr_left fun c _ => ?_
  simp only [Function.comp]
  split
  · exact hf c
  · rfl

theorem frame_even (cn : Int) : Frame cn (@Even P) where
  refl s := Mode.Even.refl (.ctf s)
  trans := Mode.Even.trans
  flags _ _ _ _ := ⟨rfl, rfl, rfl⟩
  sendf _ _ _ := ⟨rfl, rfl, rfl⟩
  unmark _ := even_upd (f := Runner.unmark) (fun _ => rfl) cn
  settake _ t := even_upd (f := Runner.settake t) (fun _ => rfl) cn

/-- A take request scores. -/
def Scores (s : Ctf P) (cn i version : Int) : Prop :=
  ∃ ci ∈ s.getinfo cn, 0 ≤ i ∧ ∃ f ∈ s.flags[i.toNat]?, s.Takes ci f version ∧ ¬s.Owns ci f ∧
    if s.protect then f.invistime = 0 else f.droptime = 0 ∧ (s.carried ci.cn).isSome

instance (s : Ctf P) (cn i version : Int) : Decidable (s.Scores cn i version) :=
  inferInstanceAs (Decidable (∃ ci ∈ s.getinfo cn, _ ∧ ∃ f ∈ s.flags[i.toNat]?, _))

/-- **A take request** that scores nothing. -/
theorem even_takeflag {ci : Runner P} {cn i version : Int} (hg : s.getinfo cn = some ci)
    (hi : 0 ≤ i) (hno : ¬s.Scores cn i version) : Even s (s.takeflag ci i.toNat version) := by
  unfold takeflag
  split
  · exact Mode.Even.refl _
  · next f hf =>
    have hno : s.Takes ci f version → ¬s.Owns ci f →
        ¬if s.protect then f.invistime = 0 else f.droptime = 0 ∧ (s.carried ci.cn).isSome :=
      fun htakes howns hscores => hno ⟨ci, hg, hi, f, hf, htakes, howns, hscores⟩
    split
    · exact Mode.Even.refl _
    · next htakes =>
      have hno := hno (not_not.mp htakes)
      split
      · split
        · exact Mode.Even.refl _
        · exact (frame_even ci.cn).pickup _ f
      · next howns =>
        have hno := hno howns
        split
        · next hprotect =>
          rw [if_pos hprotect] at hno
          rw [if_neg hno]
          exact Mode.Even.refl _
        · next hprotect =>
          rw [if_neg hprotect] at hno
          split
          · exact (frame_even ci.cn).updsend _ _ rfl
          · next hdrop =>
            split
            · exact Mode.Even.refl _
            · next j hj => exact absurd ⟨not_not.mp hdrop, by simp [hj]⟩ hno

theorem even_withinfo {cn : Int} {f : Runner P → Ctf P}
    (hf : ∀ ci, s.getinfo cn = some ci → Even s (f ci)) : Even s (s.withinfo cn f) := by
  unfold Ctf.withinfo
  cases hg : s.getinfo cn with
  | none => exact Mode.Even.refl _
  | some ci => exact hf ci hg

/-- **A message** that does not score counts nothing. -/
theorem even_next {e : CtfEvent P} (hm : e.message = true)
    (hno : ∀ cn i version, e = .takeflag cn i version → ¬s.Scores cn i version) :
    Even s (s.next near e) := by
  cases e with
  | parseflags spots rnd => exact (frame_even 0).parseflags spots rnd
  | forcespectator cn =>
    refine even_withinfo fun ci _ => Mode.Even.trans ?_
      (even_upd (f := fun c => { c with state := .spectator }) (fun _ => rfl) cn)
    exact (frame_even ci.cn).leavegame
  | setstate cn state => exact even_upd (f := fun c => { c with state }) (fun _ => rfl) cn
  | moved cn o => exact even_upd (f := fun c => { c with o }) (fun _ => rfl) cn
  | spawned cn =>
    refine even_withinfo fun ci _ => ?_
    split
    · exact even_upd (f := fun c => { c with state := .alive }) (fun _ => rfl) cn
    · exact Mode.Even.refl _
  | setteam cn team =>
    refine even_withinfo fun ci _ => Mode.Even.trans ?_
      (even_upd (f := fun c => { c with team }) (fun _ => rfl) cn)
    split
    · exact (frame_even ci.cn).dropflag _
    · exact Mode.Even.refl _
  | takeflag cn i version =>
    refine even_withinfo fun ci hg => ?_
    split
    · next hi => exact even_takeflag hg hi (hno cn i version rfl)
    · exact Mode.Even.refl _
  | trydropflag cn => exact even_withinfo fun ci _ => (frame_even ci.cn).dropflag _
  | changegamespeed val =>
    show Even s (s.changegamespeed val)
    unfold Ctf.changegamespeed
    simp only
    split
    · exact ⟨rfl, by simp [Mode.tally, Runner.settake], rfl⟩
    · exact ⟨rfl, rfl, rfl⟩
  | _ => simp [CtfEvent.message] at hm

/-! ### The clock -/

theorem clock_startintermission : s.startintermission.clock = s.clock.startintermission := by
  simp only [Mode.clock, Ctf.startintermission, Clock.startintermission, Clock.checkintermission]
  by_cases h : s.interm = 0 <;> simp [h]

theorem clock_addscore (team score : Int) : (s.addscore team score).clock = s.clock := by
  unfold addscore
  split
  · rfl
  · split <;> rfl

theorem clock_flagrun (ci : Runner P) : (s.flagrun ci).clock = s.clock := by
  unfold flagrun doflagrun
  simp only
  split
  · split <;> rfl
  · rfl

theorem late_foldl {α : Type} {body : Ctf P → α → Ctf P}
    (hbody : ∀ s a, s.clock.Late → (body s a).clock.Late) (l : List α) :
    ∀ s : Ctf P, s.clock.Late → (l.foldl body s).clock.Late := by
  induction l with
  | nil => exact fun _ h => h
  | cons a l ih => exact fun s h => ih _ (hbody s a h)

theorem late_withinfo (h : s.clock.Late) {cn : Int} {f : Runner P → Ctf P}
    (hf : ∀ ci, s.getinfo cn = some ci → (f ci).clock.Late) : (s.withinfo cn f).clock.Late := by
  unfold Ctf.withinfo
  cases hg : s.getinfo cn with
  | none => exact h
  | some ci => exact hf ci hg

/-- Scoring may start the intermission. -/
theorem late_scoreflag (h : s.clock.Late) (ci : Runner P) (goal : Nat) (relay : Option Nat)
    (draw : Nat) : (s.scoreflag ci goal relay draw).clock.Late := by
  have hsame : ∀ m, (((((s.scoreflags goal relay draw).upd ci.cn Runner.addflag).addscore
      (ctfteamflag ci.team) 1).sendf m).flagrun ci).clock = s.clock := by
    intro m
    rw [clock_flagrun]
    show Ctf.clock (Ctf.addscore _ _ _) = _
    rw [clock_addscore]
    exact ((frame_even ci.cn).scoreflags goal relay draw).clock
  unfold scoreflag
  simp only
  split
  · rw [clock_startintermission]
    exact Clock.late_startintermission _
  · rw [hsame]
    exact h

theorem late_takeflag (h : s.clock.Late) (ci : Runner P) (i : Nat) (version : Int) :
    (s.takeflag ci i version).clock.Late := by
  unfold takeflag
  split
  · exact h
  · next f hf =>
    split
    · exact h
    · split
      · split
        · exact h
        · exact Mode.Even.late ((frame_even ci.cn).pickup i f) h
      · split
        · split
          · exact late_scoreflag h ci i none 0
          · exact h
        · split
          · exact h
          · split
            · exact h
            · exact late_scoreflag h ci i _ 0

/-- **A message** may start the intermission. -/
theorem late_next (h : s.clock.Late) {e : CtfEvent P} (hm : e.message = true) :
    (s.next near e).clock.Late := by
  by_cases htake : ∃ cn i version, e = .takeflag cn i version
  · obtain ⟨cn, i, version, rfl⟩ := htake
    refine late_withinfo h fun ci _ => ?_
    split
    · exact late_takeflag h ci _ version
    · exact h
  · refine Mode.Even.late (even_next hm fun cn i version heq => ?_) h
    exact absurd ⟨cn, i, version, heq⟩ htake

theorem late_update1 (rnd : Nat → Nat) (s : Ctf P) (i : Nat) (h : s.clock.Late) :
    (update1 rnd s i).clock.Late := by
  have hreset : ∀ f, (Mode.ctf (s.resetflag (rnd i) i f)).clock = (Mode.ctf s).clock := by
    intro f
    unfold resetflag
    split
    · have hhome := ((frame_even 0).scoreflags (s := s) i none (rnd i)).clock
      show Ctf.clock (if _ then _ else _) = _
      split
      · exact hhome
      · exact (clock_addscore _ _).trans hhome
    · rfl
  unfold update1
  split
  · exact h
  · next f hf =>
    have hshow : ((s.resetflag (rnd i) i f).showflag i).clock.Late :=
      Mode.Even.late ((frame_even 0).showflag i) (hreset f ▸ h)
    unfold holdflag
    split
    · exact hshow
    · split
      · split
        · exact late_scoreflag hshow _ i none (rnd i)
        · exact hshow
      · exact hshow

/-- **A frame** may start the intermission. -/
theorem late_update (h : s.clock.Late) (rnd : Nat → Nat) : (s.update rnd).clock.Late := by
  unfold update
  split
  · exact h
  · exact late_foldl (late_update1 rnd) _ s h

/-- A frame after the time limit. -/
theorem update_over (h : s.gamelimit ≤ s.gamemillis) (rnd : Nat → Nat) : s.update rnd = s :=
  if_pos (Or.inl h)

theorem late_pass1 (rnd : Nat → Nat) (actor target : Runner P) (s : Ctf P) (i : Nat)
    (h : s.clock.Late) : (pass1 near rnd actor target s i).clock.Late := by
  unfold pass1
  split
  · exact h
  · split
    · exact h
    · simp only
      generalize hdropped : ((s.updflag i fun f => f.returnflag 0).dropflag near actor
        actor.cn).forget actor.cn = dropped
      have hlate : dropped.clock.Late := by
        have hfree : Even s dropped := by
          rw [← hdropped]
          refine Mode.Even.trans ?_ ((frame_even actor.cn).leavegame)
          exact (frame_even actor.cn).updflag i _
        exact hfree.late h
      show Clock.Late (clock (update _ rnd))
      refine late_update ?_ rnd
      split
      · exact hlate
      · exact late_takeflag hlate _ i _

theorem late_passflag (h : s.clock.Late) (actor target : Int) (rnd : Nat → Nat) :
    (s.next near (.passflag actor target rnd)).clock.Late := by
  refine late_withinfo h fun a _ => late_withinfo h fun t _ => ?_
  unfold Ctf.passflag
  split
  · exact late_foldl (late_pass1 rnd a t) _ s h
  · exact h

theorem withinfo_same {cn : Int} {f : Runner P → Ctf P}
    (hf : ∀ ci, s.getinfo cn = some ci → f ci = s) : s.withinfo cn f = s := by
  unfold Ctf.withinfo
  cases hg : s.getinfo cn with
  | none => rfl
  | some ci => exact hf ci hg

/-- A pass of who carries nothing. -/
theorem passflag_of_free {actor : Int} (hfree : s.Free actor) (target : Int) (rnd : Nat → Nat) :
    s.next near (.passflag actor target rnd) = s := by
  refine withinfo_same fun a ha => withinfo_same fun t _ => ?_
  unfold Ctf.passflag
  split
  · exact foldl_pass1_of_free (getinfo_cn ha ▸ hfree) rnd t _
  · rfl

theorem even_died (cn : Int) (actor : Option Int) : Even s (s.next near (.died cn actor)) := by
  refine even_withinfo fun ci _ => ?_
  split
  · refine Mode.Even.trans ?_ (even_upd (f := fun c => { c with state := .dead }) (fun _ => rfl) cn)
    exact (frame_even ci.cn).died _
  · exact Mode.Even.refl _

end Ctf

/-! ## Bases -/

namespace Capture

variable {P : Type} {inside : Nat → P → Bool} {s s' : Capture P}

/-- Nothing is counted in a game of the mode. -/
abbrev Even (s s' : Capture P) : Prop := Mode.Even (.capture s) (.capture s')

theorem even_upd {f : Capturer P → Capturer P} (hf : ∀ c, (f c).cn = c.cn) (cn : Int) :
    Even s (s.upd cn f) := by
  refine ⟨rfl, ?_, rfl⟩
  simp only [Mode.tally, upd, Keyed.modify, List.map_map]
  refine List.map_congr_left fun c _ => ?_
  simp only [Function.comp]
  split
  · rw [hf]
  · rfl

theorem even_movebases (team : String) (out into : Nat → Bool) :
    Even s (s.movebases inside team out into) := by
  unfold movebases
  split <;> exact ⟨rfl, rfl, rfl⟩

theorem even_entergame (ci : Capturer P) : Even s (s.entergame inside ci) := by
  unfold entergame
  split
  · exact Mode.Even.refl _
  · exact even_movebases _ _ _

theorem even_leavegame (ci : Capturer P) : Even s (s.leavegame inside ci) := by
  unfold leavegame
  split
  · exact Mode.Even.refl _
  · exact even_movebases _ _ _

theorem even_enterall : Even s (s.enterall inside) := by
  have hfold : ∀ (l : List (Capturer P)) (s : Capture P),
      Even s (l.foldl (fun s ci => s.entergame inside ci) s) := by
    intro l
    induction l with
    | nil => exact fun s => Mode.Even.refl _
    | cons c l ih => exact fun s => (even_entergame c).trans (ih _)
  exact hfold s.clients s

theorem even_withinfo {cn : Int} {f : Capturer P → Capture P}
    (hf : ∀ ci, s.getinfo cn = some ci → Even s (f ci)) : Even s (s.withinfo cn f) := by
  unfold Capture.withinfo
  cases hg : s.getinfo cn with
  | none => exact Mode.Even.refl _
  | some ci => exact hf ci hg

/-- **A message** counts nothing. -/
theorem even_next {e : CaptureEvent P} (hm : e.message = true) : Even s (s.next inside e) := by
  cases e with
  | parsebases ammotypes =>
    show Even s (s.parsebases inside ammotypes)
    unfold Capture.parsebases
    split
    · refine Mode.Even.trans ?_ even_enterall
      exact ⟨rfl, rfl, rfl⟩
    · exact Mode.Even.refl _
  | forcespectator cn =>
    refine even_withinfo fun ci _ => Mode.Even.trans ?_
      (even_upd (f := fun c => { c with state := .spectator }) (fun _ => rfl) cn)
    exact even_leavegame ci
  | setstate cn state => exact even_upd (f := fun c => { c with state }) (fun _ => rfl) cn
  | moved cn o gameclip =>
    refine even_withinfo fun ci _ => Mode.Even.trans ?_
      (even_upd (f := fun c => { c with o, gameclip }) (fun _ => rfl) cn)
    unfold Capture.moved
    split
    · split
      · exact Mode.Even.refl _
      · exact even_movebases _ _ _
    · exact Mode.Even.refl _
  | sendspawn cn =>
    refine even_withinfo fun ci _ => ?_
    split
    · exact even_upd (f := fun c => { c with lastspawn := s.gamemillis }) (fun _ => rfl) cn
    · exact Mode.Even.refl _
  | reassign cn o => exact even_upd (f := Capturer.reassign s.gamemillis o) (fun _ => rfl) cn
  | spawned cn =>
    refine even_withinfo fun ci _ => ?_
    split
    · refine Mode.Even.trans ?_
        (even_upd (f := fun c => { c with state := .alive, lastspawn := -1 }) (fun _ => rfl) cn)
      unfold Capture.spawned
      split
      · exact Mode.Even.refl _
      · exact even_movebases _ _ _
    · exact Mode.Even.refl _
  | setteam cn team =>
    refine even_withinfo fun ci _ => Mode.Even.trans ?_
      (even_upd (f := fun c => { c with team }) (fun _ => rfl) cn)
    unfold Capture.changeteam
    split
    · split
      · exact Mode.Even.refl _
      · exact (even_movebases _ _ _).trans (even_movebases _ _ _)
    · exact Mode.Even.refl _
  | _ => simp [CaptureEvent.message] at hm

theorem even_died (cn : Int) : Even s (s.next inside (.died cn)) := by
  refine even_withinfo fun ci _ => ?_
  split
  · refine Mode.Even.trans ?_ (even_upd (f := fun c => { c with state := .dead }) (fun _ => rfl) cn)
    unfold Capture.died
    split
    · exact Mode.Even.refl _
    · exact even_movebases _ _ _
  · exact Mode.Even.refl _

/-- One team may end the match by owning all bases. -/
theorem late_endcheck (h : (Mode.capture s).clock.Late) : (Mode.capture s.endcheck).clock.Late := by
  unfold endcheck
  split
  · exact h
  · refine ⟨fun _ => ?_⟩
    exact min_le_right s.gamelimit s.gamemillis

end Capture

/-! ## Skulls -/

namespace Collect

variable {P : Type} {s s' : Collect}

/-- Nothing is counted in a game of the mode. -/
abbrev Even (P : Type) (s s' : Collect) : Prop := Mode.Even (.collect s : Mode P) (.collect s')

theorem even_upd {f : Carrier → Carrier} (hf : ∀ c, ((f c).cn, (f c).flags) = (c.cn, c.flags))
    (cn : Int) : Even P s (s.upd cn f) := by
  refine ⟨rfl, ?_, rfl⟩
  simp only [Mode.tally, upd, Keyed.modify, List.map_map]
  refine List.map_congr_left fun c _ => ?_
  simp only [Function.comp]
  split
  · exact hf c
  · rfl

theorem even_dropall (team dropper : Int) (n : Nat) : Even P s (dropall team dropper n s) := by
  induction n with
  | zero => exact Mode.Even.refl _
  | succ n ih =>
    refine Mode.Even.trans ih ?_
    exact ⟨rfl, rfl, rfl⟩

theorem even_droptokens (ci : Carrier) (penalty : Bool) : Even P s (s.droptokens ci penalty) := by
  unfold droptokens
  split
  · exact Mode.Even.refl _
  · refine Mode.Even.trans (Mode.Even.trans ?_ (even_dropall _ _ _))
      (even_upd (f := fun c => { c with tokens := 0 }) (fun _ => rfl) ci.cn)
    exact ⟨rfl, rfl, rfl⟩

theorem even_leavegame (ci : Carrier) (disconnecting : Bool) :
    Even P s (s.leavegame ci disconnecting) := by
  have hupd : Even P s (s.upd ci.cn fun c => { c with tokens := 0 }) :=
    even_upd (f := fun c => { c with tokens := 0 }) (fun _ => rfl) ci.cn
  unfold leavegame
  simp only
  split
  · exact hupd
  · exact ⟨hupd.scores, hupd.tally, hupd.clock⟩

/-- A deposit scores, or steals from the base. -/
def Scores (s : Collect) (cn basenum : Int) : Prop :=
  ∃ ci ∈ s.getinfo cn, ¬(s.notgotbases ∨ basenum < 0 ∨ ci.state ≠ .alive ∨ ci.team = "") ∧
    ∃ b ∈ s.bases[basenum.toNat]?, (b.team = 1 ∨ b.team = 2) ∧ b.team ≠ collectteambase ci.team ∧
      (0 < ci.tokens ∨ b.laststeal + STEALTOKENTIME ≤ s.gamemillis ∧ 0 < s.totalscore b.team ∧
        (s.tokens.filter fun t => t.dropper = -1 - basenum).length < TOKENLIMIT)

instance (s : Collect) (cn basenum : Int) : Decidable (s.Scores cn basenum) :=
  inferInstanceAs (Decidable (∃ ci ∈ s.getinfo cn, _ ∧ ∃ b ∈ s.bases[basenum.toNat]?, _))

/-- **A deposit** that scores nothing. -/
theorem deposittokens_same {ci : Carrier} {cn basenum : Int} (hg : s.getinfo cn = some ci)
    (hno : ¬s.Scores cn basenum) : s.deposittokens ci basenum = s := by
  unfold deposittokens
  split
  · rfl
  · next hokay =>
    split
    · rfl
    · next b hb =>
      split
      · rfl
      · next hteam =>
        have hteam : b.team = 1 ∨ b.team = 2 := by omega
        simp only
        split
        · rfl
        · next hown =>
          have hno : ¬(0 < ci.tokens ∨ b.laststeal + STEALTOKENTIME ≤ s.gamemillis ∧
              0 < s.totalscore b.team ∧
                (s.tokens.filter fun t => t.dropper = -1 - basenum).length < TOKENLIMIT) :=
            fun hscores => hno ⟨ci, hg, hokay, b, hb, hteam, hown, hscores⟩
          rw [if_neg fun h => hno (Or.inl h)]
          split
          · rfl
          · split
            · rfl
            · next htime hscore =>
              rw [if_neg fun h => hno (Or.inr ⟨by omega, by omega, h⟩)]

theorem even_withinfo {cn : Int} {f : Carrier → Collect}
    (hf : ∀ ci, s.getinfo cn = some ci → Even P s (f ci)) : Even P s (s.withinfo cn f) := by
  unfold Collect.withinfo
  cases hg : s.getinfo cn with
  | none => exact Mode.Even.refl _
  | some ci => exact hf ci hg

/-- **A message** that does not score counts nothing. -/
theorem even_next {e : CollectEvent} (hm : e.message = true)
    (hno : ∀ cn basenum, e = .deposittokens cn basenum → ¬s.Scores cn basenum) :
    Even P s (s.step e) := by
  cases e with
  | parsebases teams =>
    show Even P s (s.parsebases teams)
    unfold Collect.parsebases
    split <;> exact ⟨rfl, rfl, rfl⟩
  | forcespectator cn =>
    refine even_withinfo fun ci _ => Mode.Even.trans ?_
      (even_upd (f := fun c => { c with state := .spectator }) (fun _ => rfl) cn)
    exact even_leavegame ci false
  | setstate cn state => exact even_upd (f := fun c => { c with state }) (fun _ => rfl) cn
  | spawn cn => exact even_upd (f := fun c => { c with state := .alive, tokens := 0 }) (fun _ => rfl) cn
  | switchteam cn team => exact even_upd (f := fun c => { c with team }) (fun _ => rfl) cn
  | deposittokens cn basenum =>
    refine even_withinfo fun ci hg => ?_
    rw [deposittokens_same hg (hno cn basenum rfl)]
    exact Mode.Even.refl _
  | taketoken cn id =>
    refine even_withinfo fun ci _ => ?_
    unfold Collect.taketoken
    split
    · exact Mode.Even.refl _
    · split
      · exact Mode.Even.refl _
      · split
        · exact even_upd (f := fun c => { c with tokens := c.tokens + 1 }) (fun _ => rfl) ci.cn
        · exact Mode.Even.refl _
  | _ => simp [CollectEvent.message] at hm

theorem even_died (cn : Int) (penalty : Bool) : Even P s (s.step (.died cn penalty)) := by
  refine even_withinfo fun ci _ => Mode.Even.trans (even_droptokens ci penalty) ?_
  exact even_upd (f := fun c => { c with state := .dead }) (fun _ => rfl) cn

/-- A frame expires skulls. -/
theorem even_update : Even P s (s.update s.lastmillis s.gamemillis) := by
  unfold Collect.update
  simp only
  split <;> exact ⟨rfl, rfl, rfl⟩

theorem clock_addscore (team score : Int) :
    (Mode.collect (s.addscore team score) : Mode P).clock = (Mode.collect s : Mode P).clock := by
  unfold addscore
  split_ifs <;> rfl

/-- A deposit may start the intermission. -/
theorem late_deposittokens (h : (Mode.collect s : Mode P).clock.Late) (ci : Carrier)
    (basenum : Int) : (Mode.collect (s.deposittokens ci basenum) : Mode P).clock.Late := by
  unfold deposittokens
  split
  · exact h
  · split
    · exact h
    · split
      · exact h
      · simp only
        split
        · exact h
        · have hadd : ∀ bases team score,
              (Mode.collect ({ s with bases }.addscore team score) : Mode P).clock.Late := by
            intro bases team score
            rw [clock_addscore]
            exact h
          split
          · split
            · exact ⟨fun _ => min_le_right _ _⟩
            · exact hadd _ _ _
          · split
            · exact h
            · split
              · exact h
              · split
                · exact hadd _ _ _
                · exact h

/-- **A message** may start the intermission. -/
theorem late_next (h : (Mode.collect s : Mode P).clock.Late) {e : CollectEvent}
    (hm : e.message = true) : (Mode.collect (s.step e) : Mode P).clock.Late := by
  by_cases hdeposit : ∃ cn basenum, e = .deposittokens cn basenum
  · obtain ⟨cn, basenum, rfl⟩ := hdeposit
    show (Mode.collect (s.withinfo cn _) : Mode P).clock.Late
    unfold Collect.withinfo
    cases s.getinfo cn with
    | none => exact h
    | some ci => exact late_deposittokens h ci basenum
  · refine Mode.Even.late (even_next hm fun cn basenum heq => ?_) h
    exact absurd ⟨cn, basenum, heq⟩ hdeposit

end Collect

/-! ## The modes -/

namespace Capture

variable {P : Type} {s : Capture P}

/-- A base scores in the frame. -/
def Scores (s : Capture P) (t : Int) : Prop :=
  1 ≤ t ∧ ∃ b ∈ s.bases, b.Valid ∧ b.enemy = "" ∧ b.owner ≠ "" ∧
    (b.capturetime + t).tdiv SCORESECS ≠ b.capturetime.tdiv SCORESECS

instance (t : Int) : Decidable (s.Scores t) := inferInstanceAs (Decidable (_ ∧ _))

/-- **The loop over the bases** when none of them scores. -/
theorem even_updatebases {t : Int} (hno : ¬s.Scores t) : Even s (s.updatebases t) := by
  unfold updatebases
  split
  · exact Mode.Even.refl _
  · next ht =>
    refine ⟨?_, rfl, rfl⟩
    show s.bases.foldl (updatescores t) s.scores = s.scores
    have hstay : ∀ b ∈ s.bases, ∀ scores, updatescores t scores b = scores := by
      intro b hb scores
      unfold updatescores
      split
      · next hheld =>
        simp only
        rw [if_neg]
        intro hscore
        refine hno ⟨by omega, b, hb, hheld.1, hheld.2.1, hheld.2.2, ?_⟩
        have heq : b.capturetime + t - t = b.capturetime := by omega
        rw [heq] at hscore
        omega
      · rfl
    generalize s.bases = l at hstay ⊢
    induction l with
    | nil => rfl
    | cons b l ih =>
      rw [List.foldl_cons, hstay b List.mem_cons_self]
      exact ih fun c hc => hstay c (List.mem_cons_of_mem b hc)

theorem late_updatebases (h : (Mode.capture s).clock.Late) (t : Int) :
    (Mode.capture (s.updatebases t)).clock.Late := by
  unfold updatebases
  split <;> exact h

end Capture

namespace Mode

variable {P : Type} {near : P → P → Bool} {inside : Nat → P → Bool} {m m' : Mode P}

@[simp] theorem clock_setclock (m : Mode P) (c : Clock) : (m.setclock c).clock = c := by
  cases m <;> rfl

@[simp] theorem scores_setclock (m : Mode P) (c : Clock) : (m.setclock c).scores = m.scores := by
  cases m <;> rfl

@[simp] theorem tally_setclock (m : Mode P) (c : Clock) : (m.setclock c).tally = m.tally := by
  cases m <;> rfl

theorem even_setmillis (lastmillis : Int) : Even m (m.setmillis lastmillis) := by
  cases m <;> exact ⟨rfl, rfl, rfl⟩

theorem even_died (cn : Int) (actor : Option Int) : Even m (m.died near inside cn actor) := by
  cases m with
  | ctf g => exact Ctf.even_died cn actor
  | capture g => exact Capture.even_died cn
  | collect g => exact Collect.even_died cn _

/-- A client is connected: he is in the tally. -/
theorem lookup_tally (m : Mode P) (cn : Int) :
    Keyed.lookup Prod.fst cn m.tally = none ↔ m.getinfo cn = none := by
  cases m with
  | ctf g =>
    show Keyed.lookup Prod.fst cn (g.clients.map fun c => (c.cn, c.flags)) = none ↔ _
    rw [Keyed.lookup_map (g := fun c : Runner P => (c.cn, c.flags)) fun _ => rfl]
    simp [getinfo, Ctf.getinfo]
  | capture g =>
    show Keyed.lookup Prod.fst cn (g.clients.map fun c => (c.cn, (0 : Int))) = none ↔ _
    rw [Keyed.lookup_map (g := fun c : Capturer P => (c.cn, (0 : Int))) fun _ => rfl]
    simp [getinfo, Capture.getinfo]
  | collect g =>
    show Keyed.lookup Prod.fst cn (g.clients.map fun c => (c.cn, c.flags)) = none ↔ _
    rw [Keyed.lookup_map (g := fun c : Carrier => (c.cn, c.flags)) fun _ => rfl]
    simp [getinfo, Collect.getinfo]

/-- A client who connects comes behind the others. -/
theorem tally_connected (cn : Int) (team : String) (state : CState) (o : P) (flags : Int) :
    (m.connected near inside cn team state o flags).scores = m.scores ∧
      (m.connected near inside cn team state o flags).clock = m.clock ∧
      ∃ l, (m.connected near inside cn team state o flags).tally = m.tally ++ l := by
  cases m with
  | ctf g =>
    show (Mode.ctf (g.connected cn team state o flags)).scores = _ ∧
      (Mode.ctf (g.connected cn team state o flags)).clock = _ ∧
      ∃ l, (Mode.ctf (g.connected cn team state o flags)).tally = _
    unfold Ctf.connected
    split
    · exact ⟨rfl, rfl, _, List.map_append⟩
    · exact ⟨rfl, rfl, [], (List.append_nil _).symm⟩
  | capture g =>
    show (Mode.capture (g.connected cn team state o)).scores = _ ∧
      (Mode.capture (g.connected cn team state o)).clock = _ ∧
      ∃ l, (Mode.capture (g.connected cn team state o)).tally = _
    unfold Capture.connected
    split
    · exact ⟨rfl, rfl, _, List.map_append⟩
    · exact ⟨rfl, rfl, [], (List.append_nil _).symm⟩
  | collect g =>
    by_cases hnew : g.getinfo cn = none <;>
      simp [connected, Collect.step, hnew, scores, clock, tally]

/-- What is left of the tally. -/
def Leaves (m : Mode P) (cn : Int) (m' : Mode P) : Prop :=
  m'.scores = m.scores ∧ m'.clock = m.clock ∧
    (m'.tally = m.tally ∨ m'.tally = Keyed.remove Prod.fst cn m.tally)

/-- A client who leaves is taken out. -/
theorem leaves_clientdisconnect (m : Mode P) (cn : Int) :
    m.Leaves cn (m.clientdisconnect near inside cn) := by
  cases m with
  | ctf g =>
    show Leaves _ cn (.ctf (g.withinfo cn _))
    unfold Ctf.withinfo
    split
    · exact ⟨rfl, rfl, Or.inl rfl⟩
    · next ci _ =>
      have heven : Ctf.Even g (g.leavegame near ci) := (Ctf.frame_even ci.cn).leavegame
      refine ⟨heven.scores, heven.clock, Or.inr ?_⟩
      rw [← heven.tally]
      exact (@Keyed.remove_map _ _ _ Runner.cn cn (g.leavegame near ci).clients _ Prod.fst
        (fun c => (c.cn, c.flags)) fun _ => rfl).symm
  | capture g =>
    show Leaves _ cn (.capture (g.withinfo cn _))
    unfold Capture.withinfo
    split
    · exact ⟨rfl, rfl, Or.inl rfl⟩
    · next ci _ =>
      have heven : Capture.Even g (g.leavegame inside ci) := Capture.even_leavegame ci
      refine ⟨heven.scores, heven.clock, Or.inr ?_⟩
      rw [← heven.tally]
      exact (@Keyed.remove_map _ _ _ Capturer.cn cn (g.leavegame inside ci).clients _ Prod.fst
        (fun c => (c.cn, (0 : Int))) fun _ => rfl).symm
  | collect g =>
    show Leaves _ cn (.collect (g.withinfo cn _))
    unfold Collect.withinfo
    split
    · exact ⟨rfl, rfl, Or.inl rfl⟩
    · next ci _ =>
      have heven : Collect.Even P g (g.leavegame ci true) := Collect.even_leavegame ci true
      refine ⟨heven.scores, heven.clock, Or.inr ?_⟩
      rw [← heven.tally]
      exact (@Keyed.remove_map _ _ _ Carrier.cn cn (g.leavegame ci true).clients _ Prod.fst
        (fun c => (c.cn, c.flags)) fun _ => rfl).symm

end Mode

/-! ## The match -/

namespace Mode

variable {P : Type}

/-- A take request scores. -/
def TakeScores (cn i version : Int) : Mode P → Prop
  | ctf g => g.Scores cn i version
  | _ => False

/-- A deposit scores. -/
def DepositScores (cn basenum : Int) : Mode P → Prop
  | collect g => g.Scores cn basenum
  | _ => False

/-- A base scores in the frame. -/
def BaseScores (curtime : Int) : Mode P → Prop
  | capture g => g.Scores (g.gamemillis.tdiv 1000 - (g.gamemillis - curtime).tdiv 1000)
  | _ => False

/-- The client carries a flag. -/
def Carries (cn : Int) : Mode P → Prop
  | ctf g => (g.carried cn).isSome
  | _ => False

/-- The client is alive. -/
def Alive (cn : Int) (m : Mode P) : Prop := ∃ c ∈ m.getinfo cn, c.2 = .alive

instance (cn i version : Int) : ∀ m : Mode P, Decidable (m.TakeScores cn i version)
  | ctf g => inferInstanceAs (Decidable (g.Scores cn i version))
  | capture _ | collect _ => isFalse id

instance (cn basenum : Int) : ∀ m : Mode P, Decidable (m.DepositScores cn basenum)
  | collect g => inferInstanceAs (Decidable (g.Scores cn basenum))
  | ctf _ | capture _ => isFalse id

instance (curtime : Int) : ∀ m : Mode P, Decidable (m.BaseScores curtime)
  | capture g => inferInstanceAs (Decidable (g.Scores _))
  | ctf _ | collect _ => isFalse id

instance (cn : Int) : ∀ m : Mode P, Decidable (m.Carries cn)
  | ctf g => inferInstanceAs (Decidable ((g.carried cn).isSome = true))
  | capture _ | collect _ => isFalse id

instance (cn : Int) (m : Mode P) : Decidable (m.Alive cn) :=
  inferInstanceAs (Decidable (∃ c ∈ m.getinfo cn, _))

end Mode

namespace Arena

variable {P : Type} {near : P → P → Bool} {inside : Nat → P → Bool} {a b c : Arena P}

/-- The frags, deaths and flags of a connected client. -/
def board (a : Arena P) (cn : Int) : Option (Int × Int × Int) :=
  (Keyed.lookup Prod.fst cn a.mode.tally).map fun p => (a.frags cn, a.deaths cn, p.2)

/-- What an unguarded event would do after the end of the match: a take request or a deposit that
scores, the death of a player by a message or by an event that is left over in the frame, a base
that scores in the frame in which the match ended, overtime. -/
def Counts (a : Arena P) : ArenaEvent P → Prop
  | .ctf (.takeflag cn i version) => a.mode.TakeScores cn i version
  | .collect (.deposittokens cn basenum) => a.mode.DepositScores cn basenum
  | .kill via actor target =>
    a.Processes via ∧ (a.mode.getinfo actor).isSome ∧ a.mode.Alive target
  | .suicide via cn => a.Processes via ∧ a.mode.Alive cn
  | .passflag via actor _ _ => a.Processes via ∧ a.mode.Carries actor
  | .updatebases curtime => a.phase = .bases ∧ a.mode.BaseScores curtime
  | .endframe curtime tied =>
    0 < a.clock.gamemillis - curtime ∧ a.clock.interm = 0 ∧ tied = true
  | _ => False

/-- Once the match is over no event counts anything. -/
def Clean (a : Arena P) (e : ArenaEvent P) : Prop := a.clock.Over → ¬a.Counts e

instance decidableCounts (a : Arena P) : ∀ e : ArenaEvent P, Decidable (a.Counts e)
  | .ctf (.takeflag cn i version) =>
    inferInstanceAs (Decidable (a.mode.TakeScores cn i version))
  | .collect (.deposittokens cn basenum) =>
    inferInstanceAs (Decidable (a.mode.DepositScores cn basenum))
  | .kill via _ _ => inferInstanceAs (Decidable (a.Processes via ∧ _ ∧ _))
  | .suicide via _ => inferInstanceAs (Decidable (a.Processes via ∧ _))
  | .passflag via _ _ _ => inferInstanceAs (Decidable (a.Processes via ∧ _))
  | .updatebases _ => inferInstanceAs (Decidable (_ ∧ _))
  | .endframe _ _ => inferInstanceAs (Decidable (_ ∧ _ ∧ _))
  | .ctf (.setup ..) | .ctf (.parseflags ..) | .ctf (.connected ..) | .ctf (.clientdisconnect ..)
  | .ctf (.forcespectator ..) | .ctf (.setstate ..) | .ctf (.moved ..) | .ctf (.spawned ..)
  | .ctf (.died ..) | .ctf (.setteam ..) | .ctf (.trydropflag ..) | .ctf (.passflag ..)
  | .ctf (.update ..) | .ctf (.changegamespeed ..) | .ctf (.setlimit ..)
  | .ctf (.startintermission ..) | .capture _ | .collect (.setup ..) | .collect (.parsebases ..)
  | .collect (.connected ..) | .collect (.clientdisconnect ..) | .collect (.forcespectator ..)
  | .collect (.setstate ..) | .collect (.spawn ..) | .collect (.switchteam ..)
  | .collect (.died ..) | .collect (.taketoken ..) | .collect (.update ..)
  | .collect (.startintermission ..) | .connected .. | .clientdisconnect .. | .addteaminfo ..
  | .frame .. | .update .. | .endgame | .startintermission => isFalse id

instance (a : Arena P) (e : ArenaEvent P) : Decidable (a.Clean e) :=
  inferInstanceAs (Decidable (_ → _))

/-- **The scores are final** but for the clients who have gone. -/
structure Final (gone : Int → Prop) (a b : Arena P) : Prop where
  scores : b.mode.scores = a.mode.scores
  teams : ∀ team, b.teamfrags team = a.teamfrags team
  board : ∀ cn r, ¬gone cn → a.board cn = some r → b.board cn = some r

/-- The match goes on as it should: the intermission does not start before the time limit, and no
team is listed twice. -/
structure Sane (a : Arena P) : Prop where
  late : a.clock.Late
  teams : (a.teaminfos.map Prod.fst).Nodup

theorem Final.refl (gone : Int → Prop) (a : Arena P) : Final gone a a :=
  ⟨rfl, fun _ => rfl, fun _ _ _ h => h⟩

theorem Final.trans {gone gone' : Int → Prop} (h : Final gone a b) (h' : Final gone' b c) :
    Final (fun cn => gone cn ∨ gone' cn) a c := by
  refine ⟨h'.scores.trans h.scores, fun team => (h'.teams team).trans (h.teams team), ?_⟩
  intro cn r hstays hr
  obtain ⟨hstays, hstays'⟩ := not_or.mp hstays
  exact h'.board cn r hstays' (h.board cn r hstays hr)

/-- What only the mode is changed by. -/
theorem Final.of_mode {gone : Int → Prop} {m : Mode P} {phase : Phase}
    (hscores : m.scores = a.mode.scores) (htally : m.tally = a.mode.tally) :
    Final gone a { a with mode := m, phase } := by
  refine ⟨hscores, fun _ => rfl, fun cn r _ hr => ?_⟩
  simpa [Arena.board, htally] using hr

theorem Final.of_even {gone : Int → Prop} {m : Mode P} {phase : Phase} (h : Mode.Even a.mode m) :
    Final gone a { a with mode := m, phase } :=
  Final.of_mode h.scores h.tally

/-! ### One event -/

theorem Final.gone {gone gone' : Int → Prop} (h : Final gone a b) (hle : ∀ cn, gone cn → gone' cn) :
    Final gone' a b :=
  ⟨h.scores, h.teams, fun cn r hstays hr => h.board cn r (fun hg => hstays (hle cn hg)) hr⟩

/-- The clients whom an event takes out. -/
def goneBy (e : ArenaEvent P) (cn : Int) : Prop := e = .clientdisconnect cn

/-- A team that is listed has no frags yet, one that is not listed any more had none. -/
theorem Final.addteaminfo (hs : a.Sane) (team : String) (gone : Int → Prop) :
    Final gone a (a.addteaminfo team) := by
  have hset : ∀ teaminfos, (∀ t, (({ a with teaminfos } : Arena P).teamfrags t) = a.teamfrags t) →
      Final gone a { a with teaminfos } := fun _ h => ⟨rfl, h, fun _ _ _ hr => hr⟩
  have hadd : ∀ l : List (String × Int), ∀ t,
      ((Keyed.lookup Prod.fst t (l ++ [(team, 0)])).map Prod.snd).getD 0 =
        ((Keyed.lookup Prod.fst t l).map Prod.snd).getD 0 := by
    intro l t
    cases hl : Keyed.lookup Prod.fst t l with
    | some p => rw [Keyed.lookup_append_left hl]
    | none =>
      by_cases ht : team = t
      · subst ht
        have hnew := @Keyed.lookup_add _ _ _ Prod.fst l (team, (0 : Int)) hl
        rw [hnew]
        rfl
      · have hnone : Keyed.lookup Prod.fst t (l ++ [(team, (0 : Int))]) = none := by
          refine Keyed.lookup_eq_none.mpr fun p hp => ?_
          rcases List.mem_append.mp hp with hp | hp
          · exact Keyed.lookup_eq_none.mp hl p hp
          · rw [List.mem_singleton.mp hp]
            exact ht
        rw [hnone]
  unfold Arena.addteaminfo
  split
  · exact Final.refl gone a
  · split
    · exact hset _ fun t => hadd a.teaminfos t
    · simp only
      split
      · refine hset _ fun t => (hadd _ t).trans ?_
        rw [Keyed.lookup_filter hs.teams]
        unfold teamfrags
        cases hl : Keyed.lookup Prod.fst t a.teaminfos with
        | none => rfl
        | some p =>
          by_cases hzero : p.2 = 0
          · rw [Option.filter_some]
            split <;> simp [hzero]
          · simp [Option.filter_some, hzero]
      · exact Final.refl gone a

/-- A client who connects. -/
theorem Final.connected {cn : Int} (hnew : a.mode.getinfo cn = none) (team : String) (state : CState) (o : P)
    (frags deaths flags : Int) (gone : Int → Prop) :
    Final gone a { a with
      mode := a.mode.connected near inside cn team state o flags
      frags := Function.update a.frags cn frags, deaths := Function.update a.deaths cn deaths } := by
  obtain ⟨hscores, -, l, htally⟩ := @Mode.tally_connected P near inside a.mode cn team state o flags
  refine ⟨hscores, fun _ => rfl, fun k r _ hr => ?_⟩
  obtain ⟨p, hp, rfl⟩ := Option.map_eq_some_iff.mp hr
  have hne : k ≠ cn := by
    rintro rfl
    rw [(Mode.lookup_tally a.mode k).mpr hnew] at hp
    cases hp
  unfold Arena.board
  simp only [htally, Keyed.lookup_append_left hp, Option.map_some, Function.update_of_ne hne]

/-- A client who leaves. -/
theorem Final.clientdisconnect (cn : Int) :
    Final (fun k => k = cn) a { a with
      mode := a.mode.clientdisconnect near inside cn
      frags := Function.update a.frags cn 0, deaths := Function.update a.deaths cn 0 } := by
  obtain ⟨hscores, -, htally⟩ := @Mode.leaves_clientdisconnect P near inside a.mode cn
  refine ⟨hscores, fun _ => rfl, fun k r hne hr => ?_⟩
  obtain ⟨p, hp, rfl⟩ := Option.map_eq_some_iff.mp hr
  have hp' : Keyed.lookup Prod.fst k (a.mode.clientdisconnect near inside cn).tally = some p := by
    rcases htally with htally | htally
    · rw [htally]
      exact hp
    · rw [htally, Keyed.lookup_remove hne]
      exact hp
  unfold Arena.board
  simp only [hp', Option.map_some, Function.update_of_ne hne]

theorem kill_same {actor target : Int} (hno : ¬((a.mode.getinfo actor).isSome ∧ a.mode.Alive target)) :
    a.kill near inside actor target = a := by
  unfold Arena.kill
  split
  · next hactor htarget => exact absurd ⟨by simp [hactor], _, htarget, rfl⟩ hno
  · rfl

theorem suicide_same {cn : Int} (hno : ¬a.mode.Alive cn) : a.suicide near inside cn = a := by
  unfold Arena.suicide
  split
  · next halive => exact absurd ⟨_, halive, rfl⟩ hno
  · rfl

/-- A message of the mode that scores nothing. -/
theorem even_message {e : ArenaEvent P} (hc : ¬a.Counts e) :
    (∀ e', e = .ctf e' → ∀ g, a.mode = .ctf g → e'.message = true →
      Ctf.Even g (g.next near e')) ∧
    (∀ e', e = .collect e' → ∀ g, a.mode = .collect g → e'.message = true →
      Collect.Even P g (g.step e')) := by
  refine ⟨?_, ?_⟩
  · rintro e' rfl g hg hm
    refine Ctf.even_next hm ?_
    rintro cn i version rfl hscores
    exact hc (show a.mode.TakeScores cn i version from hg ▸ hscores)
  · rintro e' rfl g hg hm
    refine Collect.even_next hm ?_
    rintro cn basenum rfl hscores
    exact hc (show a.mode.DepositScores cn basenum from hg ▸ hscores)

/-- **One event** after the end of the match. -/
theorem final_next (hs : a.Sane) (hover : a.clock.Over) {e : ArenaEvent P} (hc : ¬a.Counts e) :
    Final (goneBy e) a (a.next near inside e) ∧ (a.next near inside e).clock.Over := by
  have hlimit : a.clock.gamelimit ≤ a.clock.gamemillis := hs.late.over_iff.mp hover
  have hsame : Final (goneBy e) a a ∧ a.clock.Over := ⟨Final.refl _ a, hover⟩
  have heven : ∀ {m : Mode P} (phase : Phase), Mode.Even a.mode m →
      Final (goneBy e) a { a with mode := m, phase } ∧
        Clock.Over (clock { a with mode := m, phase }) := by
    intro m phase h
    refine ⟨Final.of_even h, ?_⟩
    show m.clock.Over
    rw [h.clock]
    exact hover
  have hclock : ∀ (c : Clock) (m : Mode P) (phase : Phase), Mode.Even a.mode m → c.Over →
      Final (goneBy e) a { a with mode := m.setclock c, phase } ∧
        Clock.Over (clock { a with mode := m.setclock c, phase }) := by
    intro c m phase h hc
    refine ⟨Final.of_mode ?_ ?_, ?_⟩
    · rw [Mode.scores_setclock, h.scores]
    · rw [Mode.tally_setclock, h.tally]
    · show (m.setclock c).clock.Over
      rw [Mode.clock_setclock]
      exact hc
  have hid := Mode.Even.refl a.mode
  obtain ⟨hctf, hcollect⟩ := @even_message _ near _ _ hc
  cases e with
  | ctf e =>
    simp only [next]
    split
    · next g hg =>
      split
      · next hm => exact heven a.phase (hg ▸ hctf e rfl g hg hm)
      · exact hsame
    · exact hsame
  | capture e =>
    simp only [next]
    split
    · next g hg =>
      split
      · next hm => exact heven a.phase (hg ▸ Capture.even_next hm)
      · exact hsame
    · exact hsame
  | collect e =>
    simp only [next]
    split
    · next g hg =>
      split
      · next hm => exact heven a.phase (hg ▸ hcollect e rfl g hg hm)
      · exact hsame
    · exact hsame
  | connected cn team state o frags deaths flags =>
    simp only [next]
    split
    · next hnew =>
      refine ⟨Final.connected hnew team state o frags deaths flags _, ?_⟩
      obtain ⟨-, hclock, -⟩ := @Mode.tally_connected P near inside a.mode cn team state o flags
      show Clock.Over (Mode.clock _)
      rw [hclock]
      exact hover
    · exact hsame
  | clientdisconnect cn =>
    refine ⟨(Final.clientdisconnect cn).gone fun k hk => hk ▸ rfl, ?_⟩
    obtain ⟨-, hclock, -⟩ := @Mode.leaves_clientdisconnect P near inside a.mode cn
    show (a.mode.clientdisconnect near inside cn).clock.Over
    rw [hclock]
    exact hover
  | addteaminfo team =>
    refine ⟨Final.addteaminfo hs team _, ?_⟩
    have hmode : (a.addteaminfo team).mode = a.mode := by
      unfold Arena.addteaminfo
      split
      · rfl
      · split
        · rfl
        · simp only
          split <;> rfl
    show (a.addteaminfo team).mode.clock.Over
    rw [hmode]
    exact hover
  | kill via actor target =>
    simp only [next]
    split
    · next hvia =>
      rw [kill_same fun h => hc ⟨hvia, h⟩]
      exact hsame
    · exact hsame
  | suicide via cn =>
    simp only [next]
    split
    · next hvia =>
      rw [suicide_same fun h => hc ⟨hvia, h⟩]
      exact hsame
    · exact hsame
  | passflag via actor target rnd =>
    simp only [next]
    split
    · next hvia =>
      have hfree : a.mode.passflag near actor target rnd = a.mode := by
        cases hg : a.mode with
        | ctf g =>
          have hnone : ¬(g.carried actor).isSome := fun h =>
            hc ⟨hvia, show a.mode.Carries actor from hg ▸ h⟩
          have hfree := Ctf.carried_eq_none.mp (Option.not_isSome_iff_eq_none.mp hnone)
          show Mode.ctf (g.next near _) = _
          rw [Ctf.passflag_of_free hfree]
        | capture g => rfl
        | collect g => rfl
      rw [hfree]
      exact hsame
    · exact hsame
  | frame lastmillis curtime =>
    refine hclock _ _ _ (Mode.even_setmillis lastmillis) (hover.imp_right fun _ => ?_)
    show a.clock.gamelimit ≤ a.clock.gamemillis + curtime
    omega
  | update rnd =>
    simp only [next]
    split
    · unfold Arena.update
      split
      · next g hg =>
        have hover' : g.gamelimit ≤ g.gamemillis := by
          rw [clock, hg] at hlimit
          exact hlimit
        rw [Ctf.update_over hover', ← hg]
        exact hsame
      · next g hg =>
        have hover' : g.gamelimit ≤ g.gamemillis := by
          rw [clock, hg] at hlimit
          exact hlimit
        rw [if_pos hover']
        exact hsame
      · next g hg => exact heven a.phase (hg ▸ Collect.even_update)
    · exact hsame
  | updatebases curtime =>
    simp only [next]
    split
    · next hphase =>
      unfold Arena.updatebases
      split
      · next g hg =>
        refine heven _ (hg ▸ Capture.even_updatebases fun hscores => ?_)
        exact hc ⟨hphase, show a.mode.BaseScores curtime from hg ▸ hscores⟩
      · exact hsame
    · exact hsame
  | endframe curtime tied =>
    refine hclock _ _ _ hid (Clock.Over.endintermission ?_)
    split
    · next htime =>
      refine Clock.Over.checkintermission hover fun hnone => ?_
      cases tied with
      | false => rfl
      | true => exact absurd ⟨htime, hnone, rfl⟩ hc
    · exact hover
  | endgame => exact hclock _ _ a.phase hid (Or.inr (le_refl _))
  | startintermission => exact hclock _ _ a.phase hid (Clock.over_startintermission _)

/-! ### Every run -/

theorem Sane.of_mode (hs : a.Sane) {m : Mode P} {frags deaths : Int → Int} {phase : Phase}
    (h : m.clock.Late) : Sane { a with mode := m, frags, deaths, phase } :=
  ⟨h, hs.teams⟩

theorem Sane.addteaminfo (hs : a.Sane) (team : String) : (a.addteaminfo team).Sane := by
  have hadd : ∀ l : List (String × Int), (l.map Prod.fst).Nodup →
      Keyed.lookup Prod.fst team l = none → ((l ++ [(team, (0 : Int))]).map Prod.fst).Nodup :=
    fun l hnd hnew => @Keyed.nodup_add _ _ _ Prod.fst l (team, (0 : Int)) hnd hnew
  unfold Arena.addteaminfo
  split
  · exact hs
  · next hnew =>
    have hnew := Option.not_isSome_iff_eq_none.mp hnew
    split
    · exact ⟨hs.late, hadd _ hs.teams hnew⟩
    · simp only
      split
      · refine ⟨hs.late, hadd _ (hs.teams.sublist (List.filter_sublist.map _)) ?_⟩
        rw [Keyed.lookup_filter hs.teams, hnew]
        rfl
      · exact hs

/-- A death moves no clock. -/
theorem Sane.death (hs : a.Sane) {b : Arena P} (hmode : Mode.Even a.mode b.mode)
    (hteams : b.teaminfos.map Prod.fst = a.teaminfos.map Prod.fst) : b.Sane :=
  ⟨hmode.late hs.late, hteams ▸ hs.teams⟩

theorem Sane.next (hs : a.Sane) (e : ArenaEvent P) : (a.next near inside e).Sane := by
  have hlate : a.mode.clock.Late := hs.late
  have hteams : ∀ team v, (a.addteamfrags team v).teaminfos.map Prod.fst =
      a.teaminfos.map Prod.fst := fun team v =>
    Keyed.map_modify (f := fun t : String × Int => (t.1, t.2 + v)) fun _ => rfl
  cases e with
  | ctf e =>
    simp only [Arena.next]
    split
    · next g hg =>
      split
      · next hm =>
        have hg : (Mode.ctf g).clock.Late := hg ▸ hlate
        exact hs.of_mode (Ctf.late_next hg hm)
      · exact hs
    · exact hs
  | capture e =>
    simp only [Arena.next]
    split
    · next g hg =>
      split
      · next hm => exact hs.of_mode ((Capture.even_next hm).late (hg ▸ hlate))
      · exact hs
    · exact hs
  | collect e =>
    simp only [Arena.next]
    split
    · next g hg =>
      split
      · next hm => exact hs.of_mode (Collect.late_next (hg ▸ hlate) hm)
      · exact hs
    · exact hs
  | connected cn team state o frags deaths flags =>
    simp only [Arena.next]
    split
    · obtain ⟨-, hclock, -⟩ := @Mode.tally_connected P near inside a.mode cn team state o flags
      exact hs.of_mode (hclock ▸ hlate)
    · exact hs
  | clientdisconnect cn =>
    obtain ⟨-, hclock, -⟩ := @Mode.leaves_clientdisconnect P near inside a.mode cn
    exact hs.of_mode (hclock ▸ hlate)
  | addteaminfo team => exact hs.addteaminfo team
  | kill via actor target =>
    simp only [Arena.next]
    split
    · unfold Arena.kill
      split
      · exact hs.death (Mode.even_died target (some actor)) (hteams _ _)
      · exact hs
    · exact hs
  | suicide via cn =>
    simp only [Arena.next]
    split
    · unfold Arena.suicide
      split
      · exact hs.death (Mode.even_died cn none) (hteams _ _)
      · exact hs
    · exact hs
  | passflag via actor target rnd =>
    simp only [Arena.next]
    split
    · refine hs.of_mode ?_
      generalize a.mode = m at hlate ⊢
      cases m with
      | ctf g => exact Ctf.late_passflag hlate actor target rnd
      | capture g => exact hlate
      | collect g => exact hlate
    · exact hs
  | frame lastmillis curtime =>
    refine hs.of_mode ?_
    rw [Mode.clock_setclock]
    refine ⟨fun hne => ?_⟩
    have hlimit := hs.late.interm hne
    show a.clock.gamelimit ≤ a.clock.gamemillis + curtime
    omega
  | update rnd =>
    simp only [Arena.next]
    split
    · unfold Arena.update
      split
      · next g hg =>
        have hg : (Mode.ctf g).clock.Late := hg ▸ hlate
        exact hs.of_mode (Ctf.late_update hg rnd)
      · next g hg =>
        split
        · exact hs
        · exact hs.of_mode (Capture.late_endcheck (hg ▸ hlate))
      · next g hg => exact hs.of_mode (Collect.even_update.late (hg ▸ hlate))
    · exact hs
  | updatebases curtime =>
    simp only [Arena.next]
    split
    · unfold Arena.updatebases
      split
      · next g hg => exact hs.of_mode (Capture.late_updatebases (hg ▸ hlate) _)
      · exact hs
    · exact hs
  | endframe curtime tied =>
    refine hs.of_mode ?_
    rw [Mode.clock_setclock]
    refine Clock.Late.endintermission ?_
    split
    · exact hs.late.checkintermission false tied
    · exact hs.late
  | endgame =>
    refine hs.of_mode ?_
    rw [Mode.clock_setclock]
    exact ⟨fun _ => le_refl _⟩
  | startintermission =>
    refine hs.of_mode ?_
    rw [Mode.clock_setclock]
    exact Clock.late_startintermission _

/-- A match that begins: `changemap` has set the clock and forgotten the teams. -/
def Begins (a : Arena P) : Prop := a.clock.interm = 0 ∧ a.teaminfos = []

theorem Begins.sane (h : a.Begins) : a.Sane := by
  refine ⟨⟨fun hne => absurd h.1 hne⟩, ?_⟩
  rw [h.2]
  exact List.nodup_nil

/-- **The scores are final**: in every match in which, once it is over, no client scores by a
message, no player is killed by one or by an event left over in the frame, no base scores in the
frame in which the match ended, and no overtime is played, the scores of the mode and of the teams,
and the frags, deaths and flags of every client who stays, do not change any more. -/
theorem scores_final {es es' : List (ArenaEvent P)} (hbegin : a.Begins)
    (hrun : Run.Steps (Arena.step near inside) Clean a es b) (hover : b.clock.Over)
    (hrun' : Run.Steps (Arena.step near inside) Clean b es' c) :
    c.clock.Over ∧ c.mode.scores = b.mode.scores ∧ (∀ team, c.teamfrags team = b.teamfrags team) ∧
      ∀ cn r, .clientdisconnect cn ∉ es' → b.board cn = some r → c.board cn = some r := by
  have hs : b.Sane := by
    refine hrun.invariant Sane (fun s e t h _ hst => ?_) hbegin.sane
    obtain rfl := Except.ok.inj hst
    exact h.next e
  have hfinal := hrun'.history
    (fun es t => t.Sane ∧ t.clock.Over ∧ Final (fun cn => .clientdisconnect cn ∈ es) b t)
    (fun es s e t h hc hst => by
      obtain rfl := Except.ok.inj hst
      obtain ⟨hs, hover, hf⟩ := h
      obtain ⟨hstep, hover'⟩ := final_next hs hover (hc hover)
      refine ⟨hs.next e, hover', (hf.trans hstep).gone fun cn hcn => ?_⟩
      rcases hcn with hcn | hcn
      · exact List.mem_append_left _ hcn
      · exact List.mem_append_right es (List.mem_singleton.mpr hcn.symm))
    [] ⟨hs, hover, Final.refl _ b⟩
  obtain ⟨-, hover', hf⟩ := hfinal
  exact ⟨hover', hf.scores, hf.teams, fun cn r hstays => hf.board cn r (by simpa using hstays)⟩

/-- A match of ctf with a player of team good who has taken the flag of team evil, at its end. -/
def ended : List (ArenaEvent Unit) :=
  [.addteaminfo "good", .connected 0 "good" .dead () 0 0 0, .ctf (.spawned 0),
    .frame 1000 1000, .endframe 1000 false, .ctf (.takeflag 0 1 0), .frame 600000 599000,
    .endframe 599000 false]

/-- The match before anybody is connected. -/
def opening : Arena Unit where
  mode := .ctf (Ctf.initial.next (fun _ _ => false)
    (.setup true false false true [((), 1), ((), 2)] 600000 100 id))
  frags _ := 0
  deaths _ := 0
  teaminfos := []

/-- He drops his flag, and takes it again, without a change of the scores. -/
theorem scores_final_dropped : ∃ b c : Arena Unit, b.clock.Over ∧ c.clock.Over ∧
    c.mode.scores = b.mode.scores ∧ c.board 0 = some (0, 0, 0) := by
  obtain ⟨b, hrun, hover, hboard, hc⟩ := Run.Steps.of_execIf
    (Arena.step (fun _ _ => false) fun _ _ => false) Clean opening ended
    (p := fun b => b.clock.Over ∧ b.board 0 = some (0, 0, 0) ∧
      (Run.execIf (Arena.step (fun _ _ => false) fun _ _ => false) Clean b
        [.ctf (.trydropflag 0), .ctf (.takeflag 0 1 2)]).isSome) (by decide)
  obtain ⟨c, hc⟩ := Option.isSome_iff_exists.mp hc
  obtain ⟨hover', hscores, -, hstays⟩ :=
    scores_final ⟨rfl, rfl⟩ hrun hover (Run.Steps.of_execIf_eq hc)
  exact ⟨b, c, hover, hover', hscores, hstays 0 _ (by simp) hboard⟩

/-- After the end of the match he scores, and a change of his team costs him a frag. -/
theorem scored_after_end : ∃ b : Arena Unit,
    Run.Reachable (Arena.step (fun _ _ => false) fun _ _ => false) opening b ∧ b.clock.Over ∧
      b.mode.scores = [("good", 0), ("evil", 0)] ∧ b.board 0 = some (0, 0, 0) ∧
      (∃ c, b.step (fun _ _ => false) (fun _ _ => false) (.ctf (.takeflag 0 0 0)) = .ok c ∧
        c.mode.scores = [("good", 1), ("evil", 0)] ∧ c.board 0 = some (0, 0, 1)) ∧
      ∃ c, b.step (fun _ _ => false) (fun _ _ => false) (.suicide .message 0) = .ok c ∧
        c.board 0 = some (-1, 1, 0) ∧ c.teamfrags "good" = -1 := by
  obtain ⟨b, hrun, hb⟩ := Run.Reachable.of_any
    (Arena.step (fun _ _ => false) fun _ _ => false) opening ended
    (p := fun b => b.clock.Over ∧ b.mode.scores = [("good", 0), ("evil", 0)] ∧
      b.board 0 = some (0, 0, 0) ∧
      ((b.next (fun _ _ => false) (fun _ _ => false) (.ctf (.takeflag 0 0 0))).mode.scores =
        [("good", 1), ("evil", 0)] ∧
      (b.next (fun _ _ => false) (fun _ _ => false) (.ctf (.takeflag 0 0 0))).board 0 =
        some (0, 0, 1)) ∧
      (b.next (fun _ _ => false) (fun _ _ => false) (.suicide .message 0)).board 0 =
        some (-1, 1, 0) ∧
      (b.next (fun _ _ => false) (fun _ _ => false) (.suicide .message 0)).teamfrags "good" = -1)
    (by decide)
  obtain ⟨hover, hscores, hboard, htake, hsuicide⟩ := of_decide_eq_true hb
  exact ⟨b, hrun, hover, hscores, hboard, ⟨_, rfl, htake⟩, _, rfl, hsuicide⟩

end Arena
end QServ
