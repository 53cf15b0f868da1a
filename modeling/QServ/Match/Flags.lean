import QServ.Match.Ctf

/-!
# Flags

Who owns the flags, and their versions.

* `Flag.Goes`: what an operation may do to a flag without giving it to somebody.
* `takeflag_cases`: what a take request does.
* `flags_owned`: in every run in which nobody passes a flag to a client who carries one, and no
  carrier stops being alive without a word to the mode, every flag that is owned is owned by a
  client who is alive, who owns no other, and every change of its place raises its version.
-/

namespace QServ
namespace Ctf

/-! ## Where a flag is -/

/-- Where a flag is. -/
inductive Place where
  | home
  | dropped
  | owned (cn : Int)
  deriving DecidableEq, Repr

end Ctf

namespace Flag

open Ctf (Place)

variable {P : Type} {f f' f'' : Flag P}

/-- Where the flag is, as `update` and `initclient` read it: the time of the drop counts while
nobody owns it. -/
def place (f : Flag P) : Place :=
  if 0 ≤ f.owner then .owned f.owner else if f.droptime ≠ 0 then .dropped else .home

/-- A change of the flag's place raises its version. -/
structure Ticks (f f' : Flag P) : Prop where
  version : f.version ≤ f'.version
  place : f'.place ≠ f.place → f.version < f'.version

theorem Ticks.refl (f : Flag P) : f.Ticks f := ⟨le_refl _, fun h => absurd rfl h⟩

theorem Ticks.trans (h : f.Ticks f') (h' : f'.Ticks f'') : f.Ticks f'' := by
  refine ⟨h.version.trans h'.version, fun hne => ?_⟩
  by_cases heq : f'.place = f.place
  · exact lt_of_le_of_lt h.version (h'.place (heq ▸ hne))
  · exact lt_of_lt_of_le (h.place heq) h'.version

/-- A flag that is given to nobody. -/
structure Loses (f f' : Flag P) : Prop where
  owner : 0 ≤ f'.owner → f'.owner = f.owner ∧ f'.team = f.team
  dropper : 0 ≤ f'.owner → f.dropper = -1 → f'.dropper = -1
  spawnindex : 0 ≤ f.spawnindex → 0 ≤ f'.spawnindex

/-- **What happens to a flag that is given to nobody.** -/
structure Goes (f f' : Flag P) : Prop extends Ticks f f', Loses f f'

theorem Goes.refl (f : Flag P) : f.Goes f :=
  ⟨Ticks.refl f, fun _ => ⟨rfl, rfl⟩, fun _ h => h, id⟩

theorem Loses.trans (h : f.Loses f') (h' : f'.Loses f'') : f.Loses f'' := by
  have hown : 0 ≤ f''.owner → 0 ≤ f'.owner := fun ho => (h'.owner ho).1 ▸ ho
  refine ⟨fun ho => ?_, fun ho hd => ?_, fun hi => ?_⟩
  · obtain ⟨howner, hteam⟩ := h'.owner ho
    obtain ⟨howner', hteam'⟩ := h.owner (hown ho)
    exact ⟨howner.trans howner', hteam.trans hteam'⟩
  · exact h'.dropper ho (h.dropper (hown ho) hd)
  · exact h'.spawnindex (h.spawnindex hi)

theorem Goes.trans (h : f.Goes f') (h' : f'.Goes f'') : f.Goes f'' :=
  ⟨h.toTicks.trans h'.toTicks, h.toLoses.trans h'.toLoses⟩

theorem Loses.of_freed (howner : f'.owner < 0)
    (hspawn : 0 ≤ f.spawnindex → 0 ≤ f'.spawnindex) : f.Loses f' :=
  ⟨fun ho => absurd ho (not_le.mpr howner), fun ho => absurd ho (not_le.mpr howner), hspawn⟩

/-- Nobody owns the flag any more, and its version is higher. -/
theorem Goes.of_freed (howner : f'.owner < 0) (hversion : f.version < f'.version)
    (hspawn : 0 ≤ f.spawnindex → 0 ≤ f'.spawnindex) : f.Goes f' :=
  ⟨⟨hversion.le, fun _ => hversion⟩, Loses.of_freed howner hspawn⟩

/-- The flag stays where it is. -/
theorem Goes.of_stays (howner : f'.owner = f.owner) (hdrop : f'.droptime = f.droptime)
    (hteam : f'.team = f.team) (hdropper : f'.dropper = f.dropper ∨ f'.dropper = -1)
    (hversion : f.version ≤ f'.version) (hspawn : 0 ≤ f.spawnindex → 0 ≤ f'.spawnindex) :
    f.Goes f' := by
  have hplace : f'.place = f.place := by
    unfold place
    rw [howner, hdrop]
  refine ⟨⟨hversion, fun hne => absurd hplace hne⟩, fun _ => ⟨howner, hteam⟩, fun _ hd => ?_,
    hspawn⟩
  exact hdropper.elim (fun h => h.trans hd) id

theorem goes_forget (f : Flag P) (cn : Int) : f.Goes (f.forget cn) := by
  unfold forget
  split
  · exact Goes.of_stays rfl rfl rfl (Or.inr rfl) (le_refl _) id
  · exact Goes.refl f

theorem goes_deadflag (f : Flag P) (lastmillis : Int) : f.Goes (f.deadflag lastmillis) := by
  unfold deadflag
  split
  · exact Goes.refl f
  · exact Goes.of_stays rfl rfl rfl (Or.inl rfl) (le_refl _) id

theorem goes_bump (f : Flag P) : f.Goes f.bump := by
  refine Goes.of_stays rfl rfl rfl (Or.inl rfl) ?_ id
  show f.version ≤ f.version + 1
  omega

theorem goes_spawn (f : Flag P) (n draw : Nat) : f.Goes (f.spawn n draw) := by
  unfold spawn
  split
  · exact Goes.refl f
  · exact Goes.of_stays rfl rfl rfl (Or.inl rfl) (le_refl _) fun _ => Int.natCast_nonneg _

@[simp] theorem owner_spawn (f : Flag P) (n draw : Nat) : (f.spawn n draw).owner = f.owner := by
  unfold spawn
  split <;> rfl

@[simp] theorem version_spawn (f : Flag P) (n draw : Nat) :
    (f.spawn n draw).version = f.version := by
  unfold spawn
  split <;> rfl

theorem goes_respawned (f : Flag P) (invistime : Int) (n draw : Nat) :
    f.Goes ((f.returnflag invistime).spawn n draw).bump := by
  refine Goes.of_freed ?_ ?_ ((f.returnflag invistime).goes_spawn n draw).spawnindex
  · show ((f.returnflag invistime).spawn n draw).owner < 0
    rw [owner_spawn]
    exact Int.negSucc_lt_zero 0
  · show f.version < ((f.returnflag invistime).spawn n draw).version + 1
    rw [version_spawn]
    show f.version < f.version + 1
    omega

theorem goes_returned (f : Flag P) (invistime : Int) : f.Goes (f.returnflag invistime).bump := by
  refine Goes.of_freed (Int.negSucc_lt_zero 0) ?_ id
  show f.version < f.version + 1
  omega

theorem goes_dropped (f : Flag P) (droptime dropper : Int) :
    f.Goes (f.dropflag droptime dropper).bump := by
  refine Goes.of_freed (Int.negSucc_lt_zero 0) ?_ id
  show f.version < f.version + 1
  omega

end Flag

namespace Ctf

variable {P : Type} {near : P → P → Bool} {s s' s'' : Ctf P}

/-! ## What the operations keep -/

/-- Who the clients are and what they are doing. -/
def roster (s : Ctf P) : List (Int × String × CState) :=
  s.clients.map fun c => (c.cn, c.team, c.state)

/-- Every flag goes on from one state to another. -/
def Pointwise (R : Flag P → Flag P → Prop) (s s' : Ctf P) : Prop :=
  s'.flags.length = s.flags.length ∧
    ∀ (i : Nat) (f f' : Flag P), s.flags[i]? = some f → s'.flags[i]? = some f' → R f f'

theorem Pointwise.trans {R : Flag P → Flag P → Prop} (hR : ∀ f f' f'', R f f' → R f' f'' → R f f'')
    (h : Pointwise R s s') (h' : Pointwise R s' s'') : Pointwise R s s'' := by
  refine ⟨h'.1.trans h.1, fun i f f'' hf hf'' => ?_⟩
  have hlt : i < s'.flags.length := by
    rw [h.1]
    exact (List.getElem?_eq_some_iff.mp hf).1
  have hf' := List.getElem?_eq_getElem hlt
  exact hR f _ f'' (h.2 i f _ hf hf') (h'.2 i _ f'' hf' hf'')

/-- **What an operation keeps** that gives no flag to anybody. -/
structure Keeps (s s' : Ctf P) : Prop where
  roster : s'.roster = s.roster
  hold : s'.hold = s.hold
  protect : s'.protect = s.protect
  got : s'.notgotflags = s.notgotflags
  flags : Pointwise Flag.Goes s s'

theorem Keeps.of_flags (hroster : s'.roster = s.roster) (hflags : s'.flags = s.flags)
    (hhold : s'.hold = s.hold) (hprotect : s'.protect = s.protect)
    (hgot : s'.notgotflags = s.notgotflags) : Keeps s s' := by
  refine ⟨hroster, hhold, hprotect, hgot, congrArg _ hflags, fun i f f' hf hf' => ?_⟩
  rw [hflags, hf] at hf'
  obtain rfl := Option.some.inj hf'
  exact Flag.Goes.refl f

theorem Keeps.refl (s : Ctf P) : Keeps s s := Keeps.of_flags rfl rfl rfl rfl rfl

theorem Keeps.trans (h : Keeps s s') (h' : Keeps s' s'') : Keeps s s'' :=
  ⟨h'.roster.trans h.roster, h'.hold.trans h.hold, h'.protect.trans h.protect, h'.got.trans h.got,
    h.flags.trans (fun _ _ _ => Flag.Goes.trans) h'.flags⟩

theorem Keeps.foldl {α : Type} {body : Ctf P → α → Ctf P} (h : ∀ s a, Keeps s (body s a))
    (l : List α) : ∀ s, Keeps s (l.foldl body s) := by
  induction l with
  | nil => exact Keeps.refl
  | cons a l ih => exact fun s => (h s a).trans (ih _)

theorem getElem?_updflag (i k : Nat) (g : Flag P → Flag P) :
    (s.updflag k g).flags[i]? = (s.flags[i]?).map fun f => if k = i then g f else f := by
  rw [updflag, List.getElem?_modify]
  rfl

theorem length_updflag (k : Nat) (g : Flag P → Flag P) :
    (s.updflag k g).flags.length = s.flags.length :=
  List.length_modify ..

theorem keeps_updflag {k : Nat} {g : Flag P → Flag P}
    (hg : ∀ f, s.flags[k]? = some f → f.Goes (g f)) : Keeps s (s.updflag k g) := by
  refine ⟨rfl, rfl, rfl, rfl, length_updflag k g, fun i f f' hf hf' => ?_⟩
  rw [getElem?_updflag, hf, Option.map_some] at hf'
  obtain rfl := Option.some.inj hf'
  split
  · next heq => exact hg f (heq ▸ hf)
  · exact Flag.Goes.refl f

theorem keeps_map {g : Flag P → Flag P} (hg : ∀ f : Flag P, f.Goes (g f)) :
    Keeps s { s with flags := s.flags.map g } := by
  refine ⟨rfl, rfl, rfl, rfl, List.length_map .., fun i f f' hf hf' => ?_⟩
  rw [List.getElem?_map, hf, Option.map_some] at hf'
  obtain rfl := Option.some.inj hf'
  exact hg f

theorem roster_upd {f : Runner P → Runner P}
    (hf : ∀ c, ((f c).cn, (f c).team, (f c).state) = (c.cn, c.team, c.state)) (cn : Int) :
    (s.upd cn f).roster = s.roster := by
  unfold roster upd Keyed.modify
  rw [List.map_map]
  refine List.map_congr_left fun c _ => ?_
  simp only [Function.comp]
  split
  · exact hf c
  · rfl

theorem keeps_upd {f : Runner P → Runner P}
    (hf : ∀ c, ((f c).cn, (f c).team, (f c).state) = (c.cn, c.team, c.state)) (cn : Int) :
    Keeps s (s.upd cn f) :=
  Keeps.of_flags (roster_upd hf cn) rfl rfl rfl rfl

theorem keeps_sendf (m : FlagMsg) : Keeps s (s.sendf m) := Keeps.of_flags rfl rfl rfl rfl rfl

theorem keeps_addscore (team score : Int) : Keeps s (s.addscore team score) := by
  unfold addscore
  split
  · exact Keeps.of_flags rfl rfl rfl rfl rfl
  · split <;> exact Keeps.of_flags rfl rfl rfl rfl rfl

theorem keeps_startintermission : Keeps s s.startintermission :=
  Keeps.of_flags rfl rfl rfl rfl rfl

theorem keeps_drop1 (ci : Runner P) (dropper : Int) (s : Ctf P) (i : Nat) :
    Keeps s (drop1 near ci dropper s i) := by
  unfold drop1
  split
  · exact Keeps.refl s
  · split
    · exact Keeps.refl s
    · split
      · exact (keeps_updflag fun f _ => f.goes_returned 0).trans (keeps_sendf _)
      · refine Keeps.trans ?_ (keeps_updflag fun f _ => f.goes_dropped _ dropper)
        exact (keeps_sendf _).trans (keeps_upd (f := Runner.unmark) (fun _ => rfl) ci.cn)

theorem keeps_drops (ci : Runner P) (dropper : Int) (l : List Nat) :
    ∀ s : Ctf P, Keeps s (l.foldl (drop1 near ci dropper) s) :=
  Keeps.foldl (keeps_drop1 ci dropper) l

theorem keeps_dropflag (ci : Runner P) (dropper : Int) : Keeps s (s.dropflag near ci dropper) := by
  unfold dropflag
  split
  · exact Keeps.refl s
  · exact keeps_drops ci dropper _ s

theorem keeps_forget (cn : Int) : Keeps s (s.forget cn) := keeps_map fun f => f.goes_forget cn

theorem keeps_leavegame (ci : Runner P) : Keeps s (s.leavegame near ci) :=
  (keeps_dropflag ci ci.cn).trans (keeps_forget ci.cn)

theorem keeps_deadflags (cn : Int) : Keeps s (s.deadflags cn) := by
  unfold deadflags
  split
  · refine keeps_map fun f => ?_
    split
    · exact f.goes_deadflag s.lastmillis
    · exact Flag.Goes.refl f
  · exact Keeps.refl s

theorem keeps_died (ci : Runner P) (actor : Option (Runner P)) :
    Keeps s (s.died near ci actor) := by
  unfold died
  split
  · exact Keeps.refl s
  · exact (keeps_deadflags ci.cn).trans ((keeps_dropflag ci _).trans (keeps_forget ci.cn))

theorem keeps_settake (cn t : Int) : Keeps s (s.upd cn (Runner.settake t)) :=
  keeps_upd (f := Runner.settake t) (fun _ => rfl) cn

theorem keeps_setpassed (cn : Int) (b : Bool) : Keeps s (s.upd cn (Runner.setpassed b)) :=
  keeps_upd (f := Runner.setpassed b) (fun _ => rfl) cn

theorem keeps_flagrun (ci : Runner P) : Keeps s (s.flagrun ci) := by
  unfold flagrun
  refine Keeps.trans ?_ (keeps_setpassed ci.cn false)
  split
  · refine Keeps.trans ?_ (keeps_settake ci.cn 0)
    unfold doflagrun
    simp only
    split
    · exact Keeps.of_flags rfl rfl rfl rfl rfl
    · exact Keeps.refl s
  · exact Keeps.refl s

theorem keeps_spawnflag (i draw : Nat) : Keeps s (s.spawnflag i draw) :=
  keeps_updflag fun f _ => f.goes_spawn _ draw

/-- Two changes of one flag are one. -/
theorem updflag_updflag (k : Nat) (g h : Flag P → Flag P) :
    (s.updflag k g).updflag k h = s.updflag k fun f => h (g f) := by
  unfold updflag
  simp only
  rw [List.modify_modify_eq]
  rfl

/-- Changes of two flags in either order. -/
theorem updflag_comm {j k : Nat} (hne : j ≠ k) (g h : Flag P → Flag P) :
    (s.updflag j g).updflag k h = (s.updflag k h).updflag j g := by
  unfold updflag
  simp only
  rw [List.modify_modify_ne _ _ _ hne]

/-- **The flag that is scored** goes home, and the goal stays where it is; the versions of both are
raised. -/
theorem keeps_scoreflags {goal : Nat} {relay : Option Nat} (draw : Nat)
    (hrelay : relay ≠ some goal) : Keeps s (s.scoreflags goal relay draw) := by
  unfold scoreflags
  generalize (if s.protect = true then s.lastmillis else 0) = invistime
  cases relay with
  | none =>
    simp only [Option.getD_none]
    split
    · simp only [spawnflag, updflag_updflag]
      exact keeps_updflag fun f _ => f.goes_respawned _ _ draw
    · simp only [updflag_updflag]
      exact keeps_updflag fun f _ => f.goes_returned _
  | some j =>
    have hne : goal ≠ j := fun heq => hrelay (congrArg some heq.symm)
    simp only [Option.getD_some]
    refine Keeps.trans ?_ (keeps_updflag fun f _ => f.goes_bump)
    split
    · rw [spawnflag, updflag_comm hne, updflag_updflag]
      exact (keeps_updflag fun f _ => f.goes_returned _).trans (keeps_spawnflag goal draw)
    · rw [updflag_updflag]
      exact keeps_updflag fun f _ => f.goes_returned _

/-- What scoring does besides moving the flags. -/
theorem keeps_scored (ci : Runner P) (goal : Nat) (relay : Option Nat) (draw : Nat) :
    Keeps (s.scoreflags goal relay draw) (s.scoreflag ci goal relay draw) := by
  have hrun : ∀ team m, Keeps (s.scoreflags goal relay draw)
      (((((s.scoreflags goal relay draw).upd ci.cn Runner.addflag).addscore team 1).sendf m).flagrun
        ci) := fun team m =>
    (keeps_upd (f := Runner.addflag) (fun _ => rfl) ci.cn).trans <|
      (keeps_addscore team 1).trans <| (keeps_sendf m).trans (keeps_flagrun ci)
  unfold scoreflag
  simp only
  split
  · exact (hrun _ _).trans keeps_startintermission
  · exact hrun _ _

theorem keeps_scoreflag (ci : Runner P) {goal : Nat} {relay : Option Nat} (draw : Nat)
    (hrelay : relay ≠ some goal) : Keeps s (s.scoreflag ci goal relay draw) :=
  (keeps_scoreflags draw hrelay).trans (keeps_scored ci goal relay draw)

theorem keeps_resetflag (draw i : Nat) (f : Flag P) : Keeps s (s.resetflag draw i f) := by
  unfold resetflag
  split
  · refine (keeps_scoreflags draw (Option.some_ne_none i).symm).trans
      (Keeps.trans ?_ (keeps_sendf _))
    split
    · exact Keeps.refl _
    · exact keeps_addscore _ _
  · exact Keeps.refl s

theorem keeps_showflag (i : Nat) : Keeps s (s.showflag i) := by
  unfold showflag
  split
  · exact Keeps.refl s
  · split
    · refine Keeps.trans (keeps_updflag fun f _ => ?_) (keeps_sendf _)
      exact Flag.Goes.of_stays rfl rfl rfl (Or.inl rfl) (le_refl _) id
    · exact Keeps.refl s

theorem keeps_holdflag (draw i : Nat) : Keeps s (s.holdflag draw i) := by
  unfold holdflag
  split
  · exact Keeps.refl s
  · split
    · split
      · exact keeps_scoreflag _ draw (Option.some_ne_none i).symm
      · refine Keeps.trans ((keeps_spawnflag i draw).trans ?_) (keeps_sendf _)
        exact keeps_updflag fun f _ => f.goes_bump
    · exact Keeps.refl s

/-- **A frame** gives no flag to anybody. -/
theorem keeps_update (rnd : Nat → Nat) : Keeps s (s.update rnd) := by
  unfold update
  split
  · exact Keeps.refl s
  · refine Keeps.foldl (fun s i => ?_) _ s
    unfold update1
    split
    · exact Keeps.refl s
    · exact (keeps_resetflag _ i _).trans ((keeps_showflag i).trans (keeps_holdflag _ i))

theorem carried_spec {cn : Int} {j : Nat} (h : s.carried cn = some j) :
    ∃ f, s.flags[j]? = some f ∧ f.owner = cn := by
  obtain ⟨hlt, hown, -⟩ := List.findIdx?_eq_some_iff_getElem.mp h
  exact ⟨s.flags[j], List.getElem?_eq_getElem hlt, by simpa using hown⟩

theorem carried_none {cn : Int} (h : s.carried cn = none) {j : Nat} {f : Flag P}
    (hf : s.flags[j]? = some f) : f.owner ≠ cn := by
  have hall := List.findIdx?_eq_none_iff.mp h f (List.mem_of_getElem? hf)
  simpa using hall

/-- **A take request** picks the flag up, or gives it to nobody. -/
theorem takeflag_cases {ci : Runner P} (hcn : 0 ≤ ci.cn) (i : Nat) (version : Int) :
    Keeps s (s.takeflag ci i version) ∨ ∃ f, s.flags[i]? = some f ∧ s.Takes ci f version ∧
      s.Owns ci f ∧ s.carried ci.cn = none ∧ s.takeflag ci i version = s.pickup ci i f := by
  unfold takeflag
  split
  · exact Or.inl (Keeps.refl s)
  · next f hf =>
    split
    · exact Or.inl (Keeps.refl s)
    · next htakes =>
      split
      · next howns =>
        split
        · exact Or.inl (Keeps.refl s)
        · next hfree =>
          exact Or.inr ⟨f, hf, not_not.mp htakes, howns,
            Option.not_isSome_iff_eq_none.mp hfree, rfl⟩
      · refine Or.inl ?_
        split
        · split
          · exact keeps_scoreflag ci 0 (Option.some_ne_none i).symm
          · exact Keeps.refl s
        · split
          · exact (keeps_updflag fun f _ => f.goes_returned 0).trans (keeps_sendf _)
          · split
            · exact Keeps.refl s
            · next j hj =>
              refine keeps_scoreflag ci 0 fun heq => ?_
              obtain rfl := Option.some.inj heq
              obtain ⟨g, hg, hown⟩ := carried_spec hj
              obtain rfl := Option.some.inj (hf.symm.trans hg)
              have hfree := (not_not.mp htakes).2.2.2.2.1
              omega

/-! ## The invariant -/

/-- A client who may carry this flag: he is alive, and his team picks it up. -/
def Carries (hold protect : Bool) (w : Int × String × CState) (f : Flag P) : Prop :=
  w.1 = f.owner ∧ w.2.1 ≠ "" ∧ w.2.2 = .alive ∧
    (hold = true ∨ (protect = true ↔ f.team = ctfteamflag w.2.1))

/-- **Every flag that is owned** is owned by a client who is alive and owns no other; it has no
dropper, and can be taken. -/
structure Owned (s : Ctf P) : Prop where
  nodup : (s.clients.map Runner.cn).Nodup
  nonneg : ∀ c ∈ s.clients, 0 ≤ c.cn
  got : s.notgotflags = true → s.flags = []
  carried : ∀ (i : Nat) (f : Flag P), s.flags[i]? = some f → 0 ≤ f.owner →
    f.dropper = -1 ∧ (if s.hold then 0 ≤ f.spawnindex else f.team = 1 ∨ f.team = 2) ∧
      ∃ w ∈ s.roster, Carries s.hold s.protect w f
  alone : ∀ (i j : Nat) (f g : Flag P), s.flags[i]? = some f → s.flags[j]? = some g →
    0 ≤ f.owner → f.owner = g.owner → i = j

theorem map_cn_roster : s.roster.map Prod.fst = s.clients.map Runner.cn := by
  rw [roster, List.map_map]
  rfl

theorem Pointwise.exists {R : Flag P → Flag P → Prop} (h : Pointwise R s s') {i : Nat}
    {f' : Flag P} (hf' : s'.flags[i]? = some f') : ∃ f, s.flags[i]? = some f ∧ R f f' := by
  have hlt : i < s.flags.length := by
    rw [← h.1]
    exact (List.getElem?_eq_some_iff.mp hf').1
  have hf := List.getElem?_eq_getElem hlt
  exact ⟨_, hf, h.2 i _ f' hf hf'⟩

/-- Who is in the roster, his number. -/
theorem mem_cns_of_roster (hroster : s'.roster = s.roster) :
    s'.clients.map Runner.cn = s.clients.map Runner.cn := by
  rw [← map_cn_roster, ← map_cn_roster, hroster]

theorem nonneg_of_cns (hcns : s'.clients.map Runner.cn = s.clients.map Runner.cn)
    (h : ∀ c ∈ s.clients, 0 ≤ c.cn) : ∀ c ∈ s'.clients, 0 ≤ c.cn := by
  intro c hc
  have hmem : c.cn ∈ s.clients.map Runner.cn := hcns ▸ List.mem_map_of_mem hc
  obtain ⟨d, hd, heq⟩ := List.mem_map.mp hmem
  exact heq ▸ h d hd

/-- **An operation that gives no flag to anybody** keeps the invariant. -/
theorem Owned.loses (h : s.Owned) (hroster : s'.roster = s.roster) (hhold : s'.hold = s.hold)
    (hprotect : s'.protect = s.protect) (hgot : s'.notgotflags = s.notgotflags)
    (hflags : Pointwise Flag.Loses s s') : s'.Owned := by
  have hcns := mem_cns_of_roster hroster
  refine ⟨hcns ▸ h.nodup, nonneg_of_cns hcns h.nonneg, fun hnot => ?_, fun i f' hf' ho => ?_,
    fun i j f' g' hf' hg' ho heq => ?_⟩
  · have hlen := hflags.1
    rw [h.got (hgot ▸ hnot)] at hlen
    exact List.length_eq_zero_iff.mp hlen
  · obtain ⟨f, hf, hgo⟩ := hflags.exists hf'
    obtain ⟨howner, hteam⟩ := hgo.owner ho
    obtain ⟨hdropper, husable, w, hw, hcarry⟩ := h.carried i f hf (howner ▸ ho)
    refine ⟨hgo.dropper ho hdropper, ?_, w, hroster ▸ hw, ?_⟩
    · rw [hhold, hteam]
      split
      · next hhold =>
        rw [if_pos hhold] at husable
        exact hgo.spawnindex husable
      · next hhold =>
        rw [if_neg hhold] at husable
        exact husable
    · unfold Carries at hcarry ⊢
      rw [hhold, hprotect, howner, hteam]
      exact hcarry
  · obtain ⟨f, hf, hgo⟩ := hflags.exists hf'
    obtain ⟨g, hg, hgo'⟩ := hflags.exists hg'
    have howner := (hgo.owner ho).1
    have howner' := (hgo'.owner (heq ▸ ho)).1
    exact h.alone i j f g hf hg (howner ▸ ho) (by rw [← howner, ← howner', heq])

theorem Owned.keeps (h : s.Owned) (hk : Keeps s s') : s'.Owned :=
  h.loses hk.roster hk.hold hk.protect hk.got
    ⟨hk.flags.1, fun i f f' hf hf' => (hk.flags.2 i f f' hf hf').toLoses⟩

theorem getinfo_cn {cn : Int} {ci : Runner P} (hg : s.getinfo cn = some ci) : ci.cn = cn :=
  (Keyed.lookup_mem hg).2

theorem getinfo_mem {cn : Int} {ci : Runner P} (hg : s.getinfo cn = some ci) : ci ∈ s.clients :=
  (Keyed.lookup_mem hg).1

/-- The flag after it was picked up. -/
theorem owned_place {f : Flag P} (owner owntime ownteam : Int) (ho : 0 ≤ owner) :
    ((f.ownflag owner owntime ownteam).bump).place = .owned owner :=
  if_pos ho

/-- The flags and the clients after a flag was picked up. -/
theorem pickup_flags (ci : Runner P) (i : Nat) (f : Flag P) :
    (s.pickup ci i f).flags = s.flags.modify i (fun f =>
      (f.ownflag ci.cn s.lastmillis (if s.hold then ctfteamflag ci.team else -1)).bump) ∧
    (s.pickup ci i f).roster = s.roster ∧ (s.pickup ci i f).hold = s.hold ∧
      (s.pickup ci i f).protect = s.protect ∧ (s.pickup ci i f).notgotflags = s.notgotflags := by
  unfold pickup
  generalize (if s.hold = true then ctfteamflag ci.team else -1) = ownteam
  simp only
  split
  · exact ⟨rfl, roster_upd (f := Runner.settake _) (fun _ => rfl) ci.cn, rfl, rfl, rfl⟩
  · exact ⟨rfl, rfl, rfl, rfl, rfl⟩

theorem getElem?_pickup (ci : Runner P) (i k : Nat) (f : Flag P) :
    (s.pickup ci i f).flags[k]? = (s.flags[k]?).map fun f => if i = k then
      (f.ownflag ci.cn s.lastmillis (if s.hold then ctfteamflag ci.team else -1)).bump else f := by
  rw [(pickup_flags ci i f).1, List.getElem?_modify]
  rfl

/-- **A flag is picked up** by a client who carries none. -/
theorem Owned.pickup (h : s.Owned) {ci : Runner P} {cn : Int} (hci : s.getinfo cn = some ci)
    {i : Nat} {f : Flag P} {version : Int} (hf : s.flags[i]? = some f)
    (htakes : s.Takes ci f version) (howns : s.Owns ci f) (hfree : s.carried ci.cn = none) :
    (s.pickup ci i f).Owned := by
  obtain ⟨-, hroster, hhold, hprotect, hgot⟩ := pickup_flags (s := s) ci i f
  obtain ⟨hgotten, halive, hteam, husable, -, -, -⟩ := htakes
  have hcns := mem_cns_of_roster hroster
  have hpos := h.nonneg ci (getinfo_mem hci)
  refine ⟨hcns ▸ h.nodup, nonneg_of_cns hcns h.nonneg, fun hnot => ?_, fun k g hg ho => ?_,
    fun j k g g' hg hg' ho heq => ?_⟩
  · rw [hgot, hgotten] at hnot
    cases hnot
  · rw [getElem?_pickup, Option.map_eq_some_iff] at hg
    obtain ⟨a, ha, rfl⟩ := hg
    rw [hhold, hprotect, hroster]
    by_cases hik : i = k
    · subst hik
      obtain rfl := Option.some.inj (hf.symm.trans ha)
      simp only [if_true] at ho ⊢
      refine ⟨rfl, ?_, (ci.cn, ci.team, ci.state), List.mem_map_of_mem (getinfo_mem hci), ?_⟩
      · split
        · next hholds =>
          rw [if_pos hholds] at husable
          exact husable
        · next hholds =>
          rw [if_neg hholds] at husable
          simpa [Flag.bump, Flag.ownflag, hholds] using husable
      · refine ⟨rfl, hteam, halive, ?_⟩
        rcases howns with hholds | hfits
        · exact Or.inl hholds
        · by_cases hholds : s.hold = true
          · exact Or.inl hholds
          · refine Or.inr ?_
            simpa [Flag.bump, Flag.ownflag, hholds] using hfits
    · simp only [if_neg hik] at ho ⊢
      exact h.carried k a ha ho
  · rw [getElem?_pickup, Option.map_eq_some_iff] at hg hg'
    obtain ⟨a, ha, rfl⟩ := hg
    obtain ⟨a', ha', rfl⟩ := hg'
    by_cases hij : i = j
    · by_cases hik : i = k
      · exact hij.symm.trans hik
      · rw [if_pos hij, if_neg hik] at heq
        exact absurd heq.symm (carried_none hfree ha')
    · rw [if_neg hij] at ho heq
      by_cases hik : i = k
      · rw [if_pos hik] at heq
        exact absurd heq (carried_none hfree ha)
      · rw [if_neg hik] at heq
        exact h.alone j k a a' ha ha' ho heq

theorem ticks_pickup {ci : Runner P} {i : Nat} {f : Flag P} :
    Pointwise Flag.Ticks s (s.pickup ci i f) := by
  refine ⟨?_, fun k a a' ha ha' => ?_⟩
  · rw [(pickup_flags ci i f).1, List.length_modify]
  · rw [getElem?_pickup, ha, Option.map_some] at ha'
    obtain rfl := Option.some.inj ha'
    split
    · have hlt : a.version < a.version + 1 := by omega
      exact ⟨hlt.le, fun _ => hlt⟩
    · exact Flag.Ticks.refl a

theorem Keeps.ticks (h : Keeps s s') : Pointwise Flag.Ticks s s' :=
  ⟨h.flags.1, fun i f f' hf hf' => (h.flags.2 i f f' hf hf').toTicks⟩

/-- **A take request** keeps the invariant, and raises the version of a flag it moves. -/
theorem Owned.takeflag (h : s.Owned) {ci : Runner P} {cn : Int} (hci : s.getinfo cn = some ci)
    (i : Nat) (version : Int) :
    (s.takeflag ci i version).Owned ∧ Pointwise Flag.Ticks s (s.takeflag ci i version) := by
  have hpos := h.nonneg ci (getinfo_mem hci)
  rcases takeflag_cases (s := s) hpos i version with hk | ⟨f, hf, htakes, howns, hfree, heq⟩
  · exact ⟨h.keeps hk, hk.ticks⟩
  · rw [heq]
    exact ⟨h.pickup hci hf htakes howns hfree, ticks_pickup⟩

/-! ## Clients who go -/

/-- Nobody of this number owns a flag. -/
def Free (s : Ctf P) (cn : Int) : Prop := ∀ f ∈ s.flags, f.owner ≠ cn

theorem Free.loses {cn : Int} (hpos : 0 ≤ cn) (h : s.Free cn)
    (hflags : Pointwise Flag.Loses s s') : s'.Free cn := by
  intro f' hf' heq
  obtain ⟨i, hi⟩ := List.getElem?_of_mem hf'
  obtain ⟨f, hf, hgo⟩ := hflags.exists hi
  have howner := (hgo.owner (heq ▸ hpos)).1
  exact h f (List.mem_of_getElem? hf) (howner ▸ heq)

theorem Keeps.loses (hk : Keeps s s') : Pointwise Flag.Loses s s' :=
  ⟨hk.flags.1, fun i f f' hf hf' => (hk.flags.2 i f f' hf hf').toLoses⟩

theorem Free.keeps {cn : Int} (hpos : 0 ≤ cn) (h : s.Free cn) (hk : Keeps s s') : s'.Free cn :=
  h.loses hpos hk.loses

theorem carried_eq_none {cn : Int} : s.carried cn = none ↔ s.Free cn := by
  unfold carried Free
  simp [List.findIdx?_eq_none_iff]

theorem drop1_free {ci : Runner P} (hpos : 0 ≤ ci.cn) (dropper : Int) {i : Nat} {f : Flag P}
    (hf : (drop1 near ci dropper s i).flags[i]? = some f) : f.owner ≠ ci.cn := by
  unfold drop1 at hf
  split at hf
  · next hnone =>
    rw [hnone] at hf
    cases hf
  · next g hg =>
    split at hf
    · next hother =>
      obtain rfl := Option.some.inj (hg.symm.trans hf)
      exact hother
    · split at hf
      · simp only [sendf, getElem?_updflag, hg, Option.map_some, if_true] at hf
        obtain rfl := Option.some.inj hf
        show (-1 : Int) ≠ ci.cn
        omega
      · simp only [getElem?_updflag] at hf
        rw [show (((s.sendf _).upd ci.cn Runner.unmark).flags)[i]? = some g from hg] at hf
        obtain rfl := Option.some.inj hf
        simp only [if_true]
        show (-1 : Int) ≠ ci.cn
        omega

/-- **A client who drops his flags** owns none afterwards. -/
theorem free_dropflag {ci : Runner P} (hpos : 0 ≤ ci.cn)
    (hgot : s.notgotflags = true → s.flags = []) (dropper : Int) :
    (s.dropflag near ci dropper).Free ci.cn := by
  have hfold : ∀ (l : List Nat) (s : Ctf P) (i : Nat) (f : Flag P), i ∈ l →
      (l.foldl (drop1 near ci dropper) s).flags[i]? = some f → f.owner ≠ ci.cn := by
    intro l
    induction l with
    | nil => exact fun _ _ _ hi => absurd hi List.not_mem_nil
    | cons a l ih =>
      intro s i f hi hf heq
      rw [List.foldl_cons] at hf
      rcases List.mem_cons.mp hi with rfl | hi
      · obtain ⟨g, hg, hgo⟩ := (keeps_drops ci dropper l _).flags.exists hf
        have howner := (hgo.owner (heq ▸ hpos)).1
        exact drop1_free hpos dropper hg (howner ▸ heq)
      · exact ih _ i f hi hf heq
  unfold dropflag
  split
  · next hnot =>
    intro f hf
    rw [hgot hnot] at hf
    cases hf
  · intro f hf
    obtain ⟨i, hi⟩ := List.getElem?_of_mem hf
    obtain ⟨g, hg, -⟩ := (keeps_drops ci dropper _ s).flags.exists hi
    have hlt : i < s.flags.length := (List.getElem?_eq_some_iff.mp hg).1
    exact hfold _ s i f (List.mem_range.mpr hlt) hi

theorem Owned.free_leavegame (h : s.Owned) {ci : Runner P} (hpos : 0 ≤ ci.cn) :
    (s.leavegame near ci).Free ci.cn :=
  (free_dropflag hpos h.got _).keeps hpos (keeps_forget ci.cn)

theorem Owned.free_died (h : s.Owned) {ci : Runner P} (hpos : 0 ≤ ci.cn)
    (actor : Option (Runner P)) : (s.died near ci actor).Free ci.cn := by
  unfold died
  split
  · next hnot =>
    intro f hf
    rw [h.got hnot] at hf
    cases hf
  · have hgot := (h.keeps (keeps_deadflags ci.cn)).got
    exact (free_dropflag hpos hgot _).keeps hpos (keeps_forget ci.cn)

/-- A client who is not alive owns no flag. -/
theorem Owned.free_of_away (h : s.Owned) {cn : Int} {ci : Runner P} (hg : s.getinfo cn = some ci)
    (haway : ci.state ≠ .alive) : s.Free cn := by
  intro f hf heq
  obtain ⟨i, hi⟩ := List.getElem?_of_mem hf
  have hpos := h.nonneg ci (getinfo_mem hg)
  rw [getinfo_cn hg] at hpos
  obtain ⟨-, -, w, hw, hcarry⟩ := h.carried i f hi (heq ▸ hpos)
  obtain ⟨c, hc, rfl⟩ := List.mem_map.mp hw
  have hsame : c = ci := List.inj_on_of_nodup_map h.nodup hc (getinfo_mem hg)
    (hcarry.1.trans (heq.trans (getinfo_cn hg).symm))
  rw [hsame] at hcarry
  exact haway hcarry.2.2.1

/-- The invariant, once the owners of flags are the same. -/
theorem Owned.of_roster (h : s.Owned) (hflags : s'.flags = s.flags) (hhold : s'.hold = s.hold)
    (hprotect : s'.protect = s.protect) (hgot : s'.notgotflags = s.notgotflags)
    (hnodup : (s'.clients.map Runner.cn).Nodup) (hnonneg : ∀ c ∈ s'.clients, 0 ≤ c.cn)
    (hroster : ∀ w ∈ s.roster, (∃ f ∈ s.flags, f.owner = w.1) → w ∈ s'.roster) : s'.Owned := by
  refine ⟨hnodup, hnonneg, ?_, fun i f hf ho => ?_, ?_⟩
  · rw [hflags, hgot]
    exact h.got
  · rw [hflags] at hf
    obtain ⟨hdropper, husable, w, hw, hcarry⟩ := h.carried i f hf ho
    rw [hhold, hprotect]
    exact ⟨hdropper, husable, w, hroster w hw ⟨f, List.mem_of_getElem? hf, hcarry.1.symm⟩, hcarry⟩
  · rw [hflags]
    exact h.alone

theorem cns_upd {cn : Int} {f : Runner P → Runner P} (hf : ∀ c, (f c).cn = c.cn) :
    (s.upd cn f).clients.map Runner.cn = s.clients.map Runner.cn :=
  Keyed.map_modify hf

/-- **A change of a client who owns no flag.** -/
theorem Owned.upd_free (h : s.Owned) {cn : Int} (hfree : s.Free cn) {f : Runner P → Runner P}
    (hf : ∀ c, (f c).cn = c.cn) : (s.upd cn f).Owned := by
  have hcns : (s.upd cn f).clients.map Runner.cn = s.clients.map Runner.cn := cns_upd hf
  refine h.of_roster rfl rfl rfl rfl (hcns ▸ h.nodup) (nonneg_of_cns hcns h.nonneg) ?_
  rintro w hw ⟨g, hg, hown⟩
  obtain ⟨c, hc, rfl⟩ := List.mem_map.mp hw
  have hne : c.cn ≠ cn := fun heq => hfree g hg (hown.trans heq)
  refine List.mem_map.mpr ⟨c, ?_, rfl⟩
  exact List.mem_map.mpr ⟨c, hc, if_neg hne⟩

theorem Owned.remove (h : s.Owned) {cn : Int} (hfree : s.Free cn) :
    Owned { s with clients := Keyed.remove Runner.cn cn s.clients } := by
  refine h.of_roster rfl rfl rfl rfl (Keyed.nodup_remove h.nodup) (fun c hc => ?_) ?_
  · exact h.nonneg c (List.mem_of_mem_filter hc)
  · rintro w hw ⟨g, hg, hown⟩
    obtain ⟨c, hc, rfl⟩ := List.mem_map.mp hw
    have hne : c.cn ≠ cn := fun heq => hfree g hg (hown.trans heq)
    exact List.mem_map.mpr ⟨c, List.mem_filter.mpr ⟨hc, by simpa using hne⟩, rfl⟩

theorem Owned.connected (h : s.Owned) (cn : Int) (team : String) (state : CState) (o : P)
    (flags : Int) : (s.connected cn team state o flags).Owned := by
  unfold Ctf.connected
  split
  · next hc =>
    refine h.of_roster rfl rfl rfl rfl (Keyed.nodup_add h.nodup hc.1) (fun c hmem => ?_) ?_
    · rcases List.mem_append.mp hmem with hmem | hmem
      · exact h.nonneg c hmem
      · rw [List.mem_singleton.mp hmem]
        exact hc.2.1
    · rintro w hw -
      exact (List.map_append ▸ List.mem_append_left _ hw :)
  · exact h

/-! ## Maps and frames -/

theorem owned_of_free (hnodup : (s.clients.map Runner.cn).Nodup)
    (hnonneg : ∀ c ∈ s.clients, 0 ≤ c.cn) (hgot : s.notgotflags = true → s.flags = [])
    (hfree : ∀ f ∈ s.flags, f.owner < 0) : s.Owned := by
  refine ⟨hnodup, hnonneg, hgot, fun i f hf ho => ?_, fun i j f g hf hg ho => ?_⟩
  · exact absurd ho (not_le.mpr (hfree f (List.mem_of_getElem? hf)))
  · exact absurd ho (not_le.mpr (hfree f (List.mem_of_getElem? hf)))

theorem free_setupholdspawns (draw : Nat) (hnone : s.flags = []) :
    ∀ f ∈ (s.setupholdspawns draw).flags, f.owner < 0 := by
  unfold setupholdspawns
  split
  · intro f hf
    rw [hnone] at hf
    cases hf
  · intro f hf
    obtain ⟨i, hi⟩ := List.getElem?_of_mem hf
    simp only [sendf, spawnflag, getElem?_updflag, Option.map_map] at hi
    obtain ⟨g, hg, rfl⟩ := Option.map_eq_some_iff.mp hi
    have hg' : g.owner = -1 := by
      have hmem := List.mem_of_getElem? hg
      rw [List.mem_singleton.mp hmem]
    simp only [Function.comp]
    split
    · show (g.spawn _ draw).owner < 0
      rw [Flag.owner_spawn, hg']
      decide
    · rw [hg']
      decide

theorem free_setupflags (hnone : s.flags = []) (spots : List (P × Int)) (rnd : Nat → Nat) :
    ∀ f ∈ (s.setupflags spots rnd).flags, f.owner < 0 := by
  unfold setupflags
  split
  · exact free_setupholdspawns (rnd 0) hnone
  · intro f hf
    obtain ⟨spot, -, rfl⟩ := List.mem_map.mp hf
    exact Int.negSucc_lt_zero 0

theorem free_setup (gotitems hold protect tkpenalty : Bool) (spots : List (P × Int))
    (gamelimit gamespeed : Int) (rnd : Nat → Nat) :
    ∀ f ∈ (s.setup gotitems hold protect tkpenalty spots gamelimit gamespeed rnd).flags,
      f.owner < 0 := by
  unfold Ctf.setup
  simp only
  split
  · exact free_setupflags rfl spots rnd
  · exact fun f hf => absurd hf List.not_mem_nil

theorem clients_setupflags (spots : List (P × Int)) (rnd : Nat → Nat) :
    (s.setupflags spots rnd).clients = s.clients ∧
      (s.setupflags spots rnd).notgotflags = false := by
  unfold setupflags setupholdspawns
  split
  · split <;> exact ⟨rfl, rfl⟩
  · exact ⟨rfl, rfl⟩

theorem owned_setupflags (hnodup : (s.clients.map Runner.cn).Nodup)
    (hnonneg : ∀ c ∈ s.clients, 0 ≤ c.cn) (hnone : s.flags = []) (spots : List (P × Int))
    (rnd : Nat → Nat) : (s.setupflags spots rnd).Owned := by
  obtain ⟨hclients, hgot⟩ := clients_setupflags (s := s) spots rnd
  refine owned_of_free (hclients.symm ▸ hnodup) (hclients.symm ▸ hnonneg) (fun h => ?_)
    (free_setupflags hnone spots rnd)
  rw [hgot] at h
  cases h

theorem Owned.setup (h : s.Owned) (gotitems hold protect tkpenalty : Bool)
    (spots : List (P × Int)) (gamelimit gamespeed : Int) (rnd : Nat → Nat) :
    (s.setup gotitems hold protect tkpenalty spots gamelimit gamespeed rnd).Owned := by
  have hcns : (s.clients.map Runner.mapchange).map Runner.cn = s.clients.map Runner.cn := by
    rw [List.map_map]
    rfl
  have hnonneg : ∀ c ∈ s.clients.map Runner.mapchange, 0 ≤ c.cn := by
    intro c hc
    obtain ⟨d, hd, rfl⟩ := List.mem_map.mp hc
    exact h.nonneg d hd
  unfold Ctf.setup
  simp only
  split
  · exact owned_setupflags (hcns ▸ h.nodup) hnonneg rfl spots rnd
  · exact owned_of_free (hcns ▸ h.nodup) hnonneg (fun _ => rfl) fun f hf => by cases hf

/-! ## Passing -/

theorem dropflag_of_free {ci : Runner P} (hfree : s.Free ci.cn) (dropper : Int) :
    s.dropflag near ci dropper = s := by
  have hstay : ∀ i, drop1 near ci dropper s i = s := by
    intro i
    unfold drop1
    split
    · rfl
    · next f hf => rw [if_pos (hfree f (List.mem_of_getElem? hf))]
  have hfold : ∀ l : List Nat, l.foldl (drop1 near ci dropper) s = s := by
    intro l
    induction l with
    | nil => rfl
    | cons i l ih => rw [List.foldl_cons, hstay, ih]
  unfold dropflag
  split
  · rfl
  · exact hfold _

theorem getinfo_of_roster (hnd : (s.clients.map Runner.cn).Nodup) {w : Int × String × CState}
    (hw : w ∈ s.roster) : ∃ c, s.getinfo w.1 = some c ∧ c.cn = w.1 ∧ c.team = w.2.1 ∧
      c.state = w.2.2 := by
  obtain ⟨c, hc, rfl⟩ := List.mem_map.mp hw
  exact ⟨c, Keyed.lookup_of_mem hnd hc, rfl, rfl, rfl⟩

theorem roster_inj (hnd : (s.clients.map Runner.cn).Nodup) {v w : Int × String × CState}
    (hv : v ∈ s.roster) (hw : w ∈ s.roster) (heq : v.1 = w.1) : v = w := by
  have hnd' : (s.roster.map Prod.fst).Nodup := map_cn_roster ▸ hnd
  exact List.inj_on_of_nodup_map hnd' hv hw heq

/-- The flag that is passed on goes home first. -/
def released (s : Ctf P) (i : Nat) (cn : Int) : Ctf P :=
  (s.updflag i fun f => f.returnflag 0).forget cn

theorem getElem?_released (i k : Nat) (cn : Int) : (s.released i cn).flags[k]? =
    (s.flags[k]?).map fun f => (if i = k then f.returnflag 0 else f).forget cn := by
  show ((s.updflag i fun f => f.returnflag 0).flags.map _)[k]? = _
  rw [List.getElem?_map, getElem?_updflag, Option.map_map]
  rfl

theorem loses_released (i : Nat) (cn : Int) : Pointwise Flag.Loses s (s.released i cn) := by
  refine ⟨?_, fun k f f' hf hf' => ?_⟩
  · show ((s.updflag i fun f => f.returnflag 0).flags.map _).length = _
    rw [List.length_map, length_updflag]
  · rw [getElem?_released, hf, Option.map_some] at hf'
    obtain rfl := Option.some.inj hf'
    refine Flag.Loses.trans ?_ (Flag.goes_forget _ cn).toLoses
    split
    · exact Flag.Loses.of_freed (Int.negSucc_lt_zero 0) id
    · exact (Flag.Goes.refl f).toLoses

/-- Two clients of a team, one of whom may be given what the other carries. -/
structure Partners (s : Ctf P) (actor target : Runner P) : Prop where
  ne : actor.cn ≠ target.cn
  team : actor.team = target.team
  actor : ∃ state, (actor.cn, actor.team, state) ∈ s.roster
  target : (target.cn, target.team, CState.alive) ∈ s.roster

theorem Owned.nonneg_roster (h : s.Owned) {w : Int × String × CState} (hw : w ∈ s.roster) :
    0 ≤ w.1 := by
  obtain ⟨c, hc, rfl⟩ := List.mem_map.mp hw
  exact h.nonneg c hc

/-- **The target takes the flag**: nothing is in the way of a partner who carries none. -/
theorem takeflag_released (h : s.Owned) {actor target : Runner P} (hp : s.Partners actor target)
    {i : Nat} {f : Flag P} (hf : s.flags[i]? = some f) (hown : f.owner = actor.cn)
    (hfree : s.Free target.cn) {t : Runner P} (ht : s.getinfo target.cn = some t)
    (hteam : t.team = target.team) (halive : t.state = .alive) :
    (s.released i actor.cn).takeflag t i ((s.released i actor.cn).version i) =
      (s.released i actor.cn).pickup t i ((f.returnflag 0).forget actor.cn) ∧
    (s.released i actor.cn).Takes t ((f.returnflag 0).forget actor.cn)
      ((s.released i actor.cn).version i) ∧
    (s.released i actor.cn).Owns t ((f.returnflag 0).forget actor.cn) ∧
      (s.released i actor.cn).carried t.cn = none := by
  obtain ⟨state, hactor⟩ := hp.actor
  have hpos : 0 ≤ actor.cn := h.nonneg_roster hactor
  have htpos := h.nonneg t (getinfo_mem ht)
  obtain ⟨-, husable, w, hw, hcarry⟩ := h.carried i f hf (hown ▸ hpos)
  have hwa : w = (actor.cn, actor.team, state) :=
    roster_inj h.nodup hw hactor (hcarry.1.trans hown)
  subst hwa
  have hf3 : (s.released i actor.cn).flags[i]? = some ((f.returnflag 0).forget actor.cn) := by
    rw [getElem?_released, hf, Option.map_some, if_pos rfl]
  have hnone : (f.returnflag 0).forget actor.cn = f.returnflag 0 := by
    refine if_neg fun heq => ?_
    have heq : (-1 : Int) = actor.cn := heq
    omega
  have hgot : s.notgotflags = false := by
    cases hg : s.notgotflags with
    | false => rfl
    | true =>
      rw [h.got hg] at hf
      cases hf
  have htakes : (s.released i actor.cn).Takes t ((f.returnflag 0).forget actor.cn)
      ((s.released i actor.cn).version i) := by
    refine ⟨hgot, halive, ?_, ?_, ?_, ?_, ?_⟩
    · rw [hteam, ← hp.team]
      exact hcarry.2.1
    · rw [hnone]
      exact husable
    · rw [hnone]
      exact Int.negSucc_lt_zero 0
    · rw [version, hf3]
      rfl
    · rw [hnone]
      exact fun hd => hd.1 rfl
  have howns : (s.released i actor.cn).Owns t ((f.returnflag 0).forget actor.cn) := by
    rw [hnone]
    refine hcarry.2.2.2.imp_right fun hfits => ?_
    rw [hteam, ← hp.team]
    exact hfits
  have hcarried : (s.released i actor.cn).carried t.cn = none := by
    rw [carried_eq_none, getinfo_cn ht]
    exact hfree.loses (getinfo_cn ht ▸ htpos) (loses_released i actor.cn)
  refine ⟨?_, htakes, howns, hcarried⟩
  unfold takeflag
  rw [hf3]
  simp only
  rw [if_neg (not_not.mpr htakes), if_pos howns, hcarried]
  rfl

/-- Nothing is left for `dropflag(actor)`. -/
theorem free_returned {cn : Int} (hpos : 0 ≤ cn) {i : Nat}
    (halone : ∀ (k : Nat) (g : Flag P), s.flags[k]? = some g → g.owner = cn → i = k) :
    (s.updflag i fun f => f.returnflag 0).Free cn := by
  intro g hg heq
  obtain ⟨k, hk⟩ := List.getElem?_of_mem hg
  rw [getElem?_updflag, Option.map_eq_some_iff] at hk
  obtain ⟨a, ha, rfl⟩ := hk
  by_cases hik : i = k
  · rw [if_pos hik] at heq
    have heq : (-1 : Int) = cn := heq
    omega
  · rw [if_neg hik] at heq
    exact hik (halone k a ha heq)

/-- Who owns a flag owns no other. -/
theorem Owned.alone_of (h : s.Owned) {cn : Int} (hpos : 0 ≤ cn) {i : Nat} {f : Flag P}
    (hf : s.flags[i]? = some f) (hown : f.owner = cn) (k : Nat) (g : Flag P)
    (hg : s.flags[k]? = some g) (heq : g.owner = cn) : i = k :=
  h.alone i k f g hf hg (hown ▸ hpos) (hown.trans heq.symm)

/-- The flag that is passed on has a higher version, the others are where they were. -/
theorem ticks_passed (i : Nat) (cn : Int) (t : Runner P) (f : Flag P) :
    Pointwise Flag.Ticks s ((s.released i cn).pickup t i f) := by
  refine ⟨?_, fun k a a' ha ha' => ?_⟩
  · rw [(pickup_flags _ _ _).1, List.length_modify, (loses_released i cn).1]
  · rw [getElem?_pickup, getElem?_released, ha, Option.map_some, Option.map_some] at ha'
    obtain rfl := Option.some.inj ha'
    by_cases hik : i = k
    · rw [if_pos hik, if_pos hik]
      have hversion : ((a.returnflag 0).forget cn).version = a.version := by
        unfold Flag.forget
        split <;> rfl
      have hlt : a.version < ((a.returnflag 0).forget cn).version + 1 := by omega
      exact ⟨hlt.le, fun _ => hlt⟩
    · rw [if_neg hik, if_neg hik]
      exact (a.goes_forget cn).toTicks

/-- Who picks up one flag gives nobody else one. -/
theorem Free.pickup {cn : Int} (h : s.Free cn) {t : Runner P} (hne : t.cn ≠ cn) (i : Nat)
    (f : Flag P) : (s.pickup t i f).Free cn := by
  intro g hg heq
  obtain ⟨k, hk⟩ := List.getElem?_of_mem hg
  rw [getElem?_pickup, Option.map_eq_some_iff] at hk
  obtain ⟨a, ha, rfl⟩ := hk
  by_cases hik : i = k
  · rw [if_pos hik] at heq
    exact hne heq
  · rw [if_neg hik] at heq
    exact h a (List.mem_of_getElem? ha) heq

/-- The flag `i` of a client is in the hands of another. -/
def passed (s : Ctf P) (rnd : Nat → Nat) (i : Nat) (cn : Int) (t : Runner P) (f : Flag P) : Ctf P :=
  (((s.released i cn).pickup t i ((f.returnflag 0).forget cn)).update rnd).upd t.cn
    (Runner.setpassed true)

theorem pass1_of_free {actor : Runner P} (hfree : s.Free actor.cn) (rnd : Nat → Nat)
    (target : Runner P) (i : Nat) : pass1 near rnd actor target s i = s := by
  unfold pass1
  split
  · rfl
  · next f hf => rw [if_pos (hfree f (List.mem_of_getElem? hf))]

theorem foldl_pass1_of_free {actor : Runner P} (hfree : s.Free actor.cn) (rnd : Nat → Nat)
    (target : Runner P) (l : List Nat) : l.foldl (pass1 near rnd actor target) s = s := by
  induction l with
  | nil => rfl
  | cons i l ih => rw [List.foldl_cons, pass1_of_free hfree, ih]

/-- The actor carries no flag before this one, and none after it is passed. -/
theorem dopassflagsequence_eq {actor target : Runner P} {rnd : Nat → Nat} {i : Nat} {f : Flag P}
    (hf : s.flags[i]? = some f)
    (halone : ∀ (k : Nat) (g : Flag P), s.flags[k]? = some g → g.owner = actor.cn → i = k)
    (hgone : (pass1 near rnd actor target s i).Free actor.cn) :
    s.dopassflagsequence near rnd actor target = pass1 near rnd actor target s i := by
  have hi : i ∈ List.range s.flags.length :=
    List.mem_range.mpr (List.getElem?_eq_some_iff.mp hf).1
  obtain ⟨l₁, l₂, heq, hl₁⟩ := List.eq_append_cons_of_mem hi
  have hbefore : ∀ l : List Nat, i ∉ l → l.foldl (pass1 near rnd actor target) s = s := by
    intro l
    induction l with
    | nil => exact fun _ => rfl
    | cons k l ih =>
      intro hk
      have hstay : pass1 near rnd actor target s k = s := by
        unfold pass1
        split
        · rfl
        · next g hg =>
          refine if_pos fun hg' => hk ?_
          rw [halone k g hg hg']
          exact List.mem_cons_self
      rw [List.foldl_cons, hstay, ih fun hl => hk (List.mem_cons_of_mem k hl)]
  unfold dopassflagsequence
  rw [heq, List.foldl_append, hbefore l₁ hl₁, List.foldl_cons]
  exact foldl_pass1_of_free hgone rnd target l₂

/-- **The flag of the actor is passed on.** -/
theorem Owned.pass1_eq (h : s.Owned) {actor target : Runner P} (hp : s.Partners actor target)
    {i : Nat} {f : Flag P} (hf : s.flags[i]? = some f) (hown : f.owner = actor.cn)
    (hfree : s.Free target.cn) {t : Runner P} (ht : s.getinfo target.cn = some t)
    (hteam : t.team = target.team) (halive : t.state = .alive) (rnd : Nat → Nat) :
    pass1 near rnd actor target s i = s.passed rnd i actor.cn t f := by
  obtain ⟨state, hactor⟩ := hp.actor
  have hpos := h.nonneg_roster hactor
  have hgone := free_returned hpos (h.alone_of hpos hf hown)
  have ht' : (s.released i actor.cn).getinfo target.cn = some t := ht
  obtain ⟨heq, -, -, -⟩ := takeflag_released h hp hf hown hfree ht hteam halive
  unfold pass1
  rw [hf]
  simp only
  rw [if_neg (not_not.mpr hown), dropflag_of_free hgone, ← released, ht']
  simp only
  rw [heq, ← getinfo_cn ht]
  rfl

/-- What a pass leaves behind. -/
theorem Owned.passed (h : s.Owned) {actor target : Runner P} (hp : s.Partners actor target)
    {i : Nat} {f : Flag P} (hf : s.flags[i]? = some f) (hown : f.owner = actor.cn)
    (hfree : s.Free target.cn) {t : Runner P} (ht : s.getinfo target.cn = some t)
    (hteam : t.team = target.team) (halive : t.state = .alive) (rnd : Nat → Nat) :
    (s.passed rnd i actor.cn t f).Owned ∧
      Pointwise Flag.Ticks s (s.passed rnd i actor.cn t f) ∧
      (s.passed rnd i actor.cn t f).Free actor.cn := by
  obtain ⟨state, hactor⟩ := hp.actor
  have hpos : 0 ≤ actor.cn := h.nonneg_roster hactor
  have ht' : (s.released i actor.cn).getinfo target.cn = some t := ht
  have h3 : (s.released i actor.cn).Owned := h.loses rfl rfl rfl rfl (loses_released i actor.cn)
  obtain ⟨-, htakes, howns, hcarried⟩ := takeflag_released h hp hf hown hfree ht hteam halive
  have hf3 : (s.released i actor.cn).flags[i]? = some ((f.returnflag 0).forget actor.cn) := by
    rw [getElem?_released, hf, Option.map_some, if_pos rfl]
  have hgone : ((s.released i actor.cn).pickup t i ((f.returnflag 0).forget actor.cn)).Free
      actor.cn :=
    ((free_returned hpos (h.alone_of hpos hf hown)).keeps hpos (keeps_forget actor.cn)).pickup
      ((getinfo_cn ht).symm ▸ Ne.symm hp.ne) i _
  have hk : Keeps ((s.released i actor.cn).pickup t i ((f.returnflag 0).forget actor.cn))
      (s.passed rnd i actor.cn t f) :=
    (keeps_update rnd).trans (keeps_setpassed t.cn true)
  refine ⟨(h3.pickup ht' hf3 htakes howns hcarried).keeps hk, ?_, hgone.keeps hpos hk⟩
  exact (ticks_passed i actor.cn t _).trans (fun _ _ _ => Flag.Ticks.trans) hk.ticks

/-- **`dopassflagsequence`** passes the one flag the actor carries, if he carries one. -/
theorem Owned.dopassflagsequence_cases (h : s.Owned) {actor target : Runner P}
    (hp : s.Partners actor target) (hfree : s.Free actor.cn ∨ s.Free target.cn)
    (rnd : Nat → Nat) : s.dopassflagsequence near rnd actor target = s ∨
      ∃ i f t, s.flags[i]? = some f ∧ f.owner = actor.cn ∧ s.Free target.cn ∧
        s.getinfo target.cn = some t ∧ t.team = target.team ∧ t.state = .alive ∧
        s.dopassflagsequence near rnd actor target = s.passed rnd i actor.cn t f := by
  by_cases hnone : s.Free actor.cn
  · exact Or.inl (foldl_pass1_of_free hnone rnd target _)
  · refine Or.inr ?_
    have hfree := hfree.resolve_left hnone
    obtain ⟨f, hmem, hown⟩ : ∃ f ∈ s.flags, f.owner = actor.cn := by
      simpa [Free] using hnone
    obtain ⟨i, hf⟩ := List.getElem?_of_mem hmem
    obtain ⟨t, ht, -, hteam, halive⟩ := getinfo_of_roster h.nodup hp.target
    refine ⟨i, f, t, hf, hown, hfree, ht, hteam, halive, ?_⟩
    obtain ⟨state, hactor⟩ := hp.actor
    have hpos : 0 ≤ actor.cn := h.nonneg_roster hactor
    have hpass : pass1 near rnd actor target s i = s.passed rnd i actor.cn t f :=
      h.pass1_eq hp hf hown hfree ht hteam halive rnd
    have hgone := (h.passed hp hf hown hfree ht hteam halive rnd).2.2
    rw [← hpass] at hgone ⊢
    exact dopassflagsequence_eq hf (h.alone_of hpos hf hown) hgone

/-- **Every flag is passed on** that the actor carries. -/
theorem Owned.dopassflagsequence (h : s.Owned) {actor target : Runner P}
    (hp : s.Partners actor target) (hfree : s.Free actor.cn ∨ s.Free target.cn)
    (rnd : Nat → Nat) : (s.dopassflagsequence near rnd actor target).Owned ∧
      Pointwise Flag.Ticks s (s.dopassflagsequence near rnd actor target) := by
  rcases h.dopassflagsequence_cases hp hfree rnd with
    heq | ⟨i, f, t, hf, hown, hfree, ht, hteam, halive, heq⟩
  · rw [heq]
    exact ⟨h, (Keeps.refl s).ticks⟩
  · rw [heq]
    obtain ⟨howned, hticks, -⟩ := h.passed hp hf hown hfree ht hteam halive rnd
    exact ⟨howned, hticks⟩

/-! ## Every run -/

/-- No carrier stops being alive without a word to the mode, and no flag is passed to a client who
carries one. -/
def Clean (s : Ctf P) : CtfEvent P → Prop
  | .setstate cn state => ∀ ci ∈ s.getinfo cn, state = .alive ∨ s.carried ci.cn = none
  | .passflag actor target _ => ∀ a ∈ s.getinfo actor, ∀ t ∈ s.getinfo target,
    a.cn ≠ t.cn ∧ a.team = t.team ∧ t.state = .alive →
      s.carried a.cn = none ∨ s.carried t.cn = none
  | _ => True

instance decidableClean (s : Ctf P) : ∀ e : CtfEvent P, Decidable (s.Clean e)
  | .setstate cn state =>
    inferInstanceAs (Decidable (∀ ci ∈ s.getinfo cn, state = .alive ∨ s.carried ci.cn = none))
  | .passflag actor target _ => inferInstanceAs (Decidable
      (∀ a ∈ s.getinfo actor, ∀ t ∈ s.getinfo target, _ → _))
  | .setup .. | .parseflags .. | .connected .. | .clientdisconnect .. | .forcespectator ..
  | .moved .. | .spawned .. | .died .. | .setteam .. | .takeflag .. | .trydropflag .. | .update ..
  | .changegamespeed .. | .setlimit .. | .startintermission => isTrue trivial

/-- The events of a game that is going on. -/
def InGame : CtfEvent P → Prop
  | .setup .. => False
  | _ => True

/-- The versions of the flags go on. -/
def Ticked (s s' : Ctf P) : Prop :=
  ∀ (i : Nat) (f f' : Flag P), s.flags[i]? = some f → s'.flags[i]? = some f' → f.Ticks f'

theorem Pointwise.ticked (h : Pointwise Flag.Ticks s s') : Ticked s s' := h.2

theorem ticked_of_eq (h : s'.flags = s.flags) : Ticked s s' := by
  intro i f f' hf hf'
  rw [h, hf] at hf'
  obtain rfl := Option.some.inj hf'
  exact Flag.Ticks.refl f

theorem Owned.withinfo (h : s.Owned) {cn : Int} {f : Runner P → Ctf P}
    (hf : ∀ ci, s.getinfo cn = some ci → (f ci).Owned ∧ Ticked s (f ci)) :
    (s.withinfo cn f).Owned ∧ Ticked s (s.withinfo cn f) := by
  unfold Ctf.withinfo
  cases hg : s.getinfo cn with
  | none => exact ⟨h, ticked_of_eq rfl⟩
  | some ci => exact hf ci hg

theorem Owned.of_keeps (h : s.Owned) (hk : Keeps s s') : s'.Owned ∧ Ticked s s' :=
  ⟨h.keeps hk, hk.ticks.ticked⟩

theorem partners_of_getinfo {actor target : Int} {a t : Runner P}
    (ha : s.getinfo actor = some a) (ht : s.getinfo target = some t)
    (hpass : a.cn ≠ t.cn ∧ a.team = t.team ∧ t.state = .alive) : s.Partners a t := by
  refine ⟨hpass.1, hpass.2.1, ⟨a.state, List.mem_map_of_mem (getinfo_mem ha)⟩, ?_⟩
  rw [← hpass.2.2]
  exact List.mem_map_of_mem (getinfo_mem ht)

theorem Owned.upd_who (h : s.Owned) {f : Runner P → Runner P} (cn : Int)
    (hf : ∀ c, ((f c).cn, (f c).team, (f c).state) = (c.cn, c.team, c.state)) :
    (s.upd cn f).Owned ∧ Ticked s (s.upd cn f) :=
  h.of_keeps (keeps_upd hf cn)

/-- A client who owns no flag any more does something else. -/
theorem Owned.then_upd (h : s.Owned) (hk : Keeps s s') {cn : Int} (hfree : s'.Free cn)
    {f : Runner P → Runner P} (hf : ∀ c, (f c).cn = c.cn) :
    (s'.upd cn f).Owned ∧ Ticked s (s'.upd cn f) :=
  ⟨(h.keeps hk).upd_free hfree hf, hk.ticks.ticked⟩

theorem upd_none {cn : Int} (hg : s.getinfo cn = none) (f : Runner P → Runner P) :
    s.upd cn f = s := by
  unfold Ctf.upd
  rw [Keyed.modify_of_not_mem (Keyed.lookup_eq_none.mp hg)]

/-- A client who is told to stop being alive, or carries nothing. -/
theorem Owned.setstate (h : s.Owned) {cn : Int} {state : CState}
    (hc : ∀ ci ∈ s.getinfo cn, state = .alive ∨ s.carried ci.cn = none) :
    (s.upd cn fun c => { c with state }).Owned ∧ Ticked s (s.upd cn fun c => { c with state }) := by
  cases hg : s.getinfo cn with
  | none =>
    rw [upd_none hg]
    exact ⟨h, ticked_of_eq rfl⟩
  | some ci =>
    rcases hc ci hg with halive | hfree
    · by_cases hsame : ci.state = .alive
      · -- he was alive before
        have hroster : (s.upd cn fun c => { c with state }).roster = s.roster := by
          unfold roster Ctf.upd Keyed.modify
          rw [List.map_map]
          refine List.map_congr_left fun c hc => ?_
          simp only [Function.comp]
          split
          · next heq =>
            have hci : c = ci := List.inj_on_of_nodup_map h.nodup hc (getinfo_mem hg)
              (heq.trans (getinfo_cn hg).symm)
            rw [halive, hci, hsame]
          · rfl
        exact h.of_keeps (Keeps.of_flags hroster rfl rfl rfl rfl)
      · exact h.then_upd (Keeps.refl s) (h.free_of_away hg hsame) fun _ => rfl
    · rw [getinfo_cn hg] at hfree
      exact h.then_upd (Keeps.refl s) (carried_eq_none.mp hfree) fun _ => rfl

/-- **Every event of a game** that is clean keeps the invariant, and raises the versions of the
flags it moves. -/
theorem Owned.ingame (h : s.Owned) {e : CtfEvent P} (hc : s.Clean e) (hgame : InGame e) :
    (s.next near e).Owned ∧ Ticked s (s.next near e) := by
  cases e with
  | setup gotitems hold protect tkpenalty spots gamelimit gamespeed rnd => exact hgame.elim
  | parseflags spots rnd =>
    show (s.parseflags spots rnd).Owned ∧ Ticked s (s.parseflags spots rnd)
    unfold Ctf.parseflags
    split
    · next hgot =>
      have hnone := h.got hgot
      refine ⟨owned_setupflags h.nodup h.nonneg hnone spots rnd, fun i f f' hf => ?_⟩
      rw [hnone] at hf
      cases hf
    · exact ⟨h, ticked_of_eq rfl⟩
  | connected cn team state o flags =>
    refine ⟨h.connected cn team state o flags, ticked_of_eq ?_⟩
    show (s.connected cn team state o flags).flags = s.flags
    unfold Ctf.connected
    split <;> rfl
  | clientdisconnect cn =>
    refine h.withinfo fun ci hg => ?_
    have hfree : (s.leavegame near ci).Free ci.cn := h.free_leavegame (h.nonneg ci (getinfo_mem hg))
    rw [getinfo_cn hg] at hfree
    exact ⟨(h.keeps (keeps_leavegame ci)).remove hfree, (keeps_leavegame ci).ticks.ticked⟩
  | forcespectator cn =>
    refine h.withinfo fun ci hg => ?_
    have hfree : (s.leavegame near ci).Free ci.cn := h.free_leavegame (h.nonneg ci (getinfo_mem hg))
    rw [getinfo_cn hg] at hfree
    exact h.then_upd (keeps_leavegame ci) hfree fun _ => rfl
  | setstate cn state => exact h.setstate hc
  | moved cn o => exact h.upd_who (f := fun c => { c with o }) cn fun _ => rfl
  | spawned cn =>
    refine h.withinfo fun ci hg => ?_
    split
    · next hdead =>
      have hfree := h.free_of_away hg (by simp [hdead])
      exact h.then_upd (Keeps.refl s) hfree fun _ => rfl
    · exact ⟨h, ticked_of_eq rfl⟩
  | died cn actor =>
    refine h.withinfo fun ci hg => ?_
    split
    · have hfree : (s.died near ci (actor.bind s.getinfo)).Free ci.cn :=
        h.free_died (h.nonneg ci (getinfo_mem hg)) _
      rw [getinfo_cn hg] at hfree
      exact h.then_upd (keeps_died ci _) hfree fun _ => rfl
    · exact ⟨h, ticked_of_eq rfl⟩
  | setteam cn team =>
    refine h.withinfo fun ci hg => ?_
    split
    · have hfree : (s.dropflag near ci ci.cn).Free ci.cn :=
        free_dropflag (h.nonneg ci (getinfo_mem hg)) h.got ci.cn
      exact h.then_upd (keeps_dropflag ci _) (getinfo_cn hg ▸ hfree) fun _ => rfl
    · next haway => exact h.then_upd (Keeps.refl s) (h.free_of_away hg haway) fun _ => rfl
  | takeflag cn i version =>
    refine h.withinfo fun ci hg => ?_
    split
    · obtain ⟨hown, hticks⟩ := h.takeflag hg i.toNat version
      exact ⟨hown, hticks.ticked⟩
    · exact ⟨h, ticked_of_eq rfl⟩
  | trydropflag cn => exact h.withinfo fun ci _ => h.of_keeps (keeps_dropflag ci _)
  | passflag actor target rnd =>
    refine h.withinfo fun a ha => h.withinfo fun t ht => ?_
    unfold Ctf.passflag
    split
    · next hpass =>
      have hfree := hc a ha t ht hpass
      rw [carried_eq_none, carried_eq_none] at hfree
      obtain ⟨hown, hticks⟩ := h.dopassflagsequence (partners_of_getinfo ha ht hpass) hfree rnd
      exact ⟨hown, hticks.ticked⟩
    · exact ⟨h, ticked_of_eq rfl⟩
  | update lastmillis gamemillis rnd =>
    have hk : Keeps s { s with lastmillis, gamemillis } := Keeps.of_flags rfl rfl rfl rfl rfl
    exact h.of_keeps (hk.trans (keeps_update rnd))
  | changegamespeed val =>
    refine h.of_keeps (Keeps.of_flags ?_ ?_ ?_ ?_ ?_)
    · show roster (s.changegamespeed val) = _
      unfold Ctf.changegamespeed roster
      simp only
      split
      · rw [List.map_map]
        rfl
      · rfl
    all_goals
      show _ = _
      unfold Ctf.next Ctf.changegamespeed
      simp only
      split <;> rfl
  | setlimit gamelimit => exact h.of_keeps (Keeps.of_flags rfl rfl rfl rfl rfl)
  | startintermission => exact h.of_keeps keeps_startintermission

theorem Owned.next (h : s.Owned) {e : CtfEvent P} (hc : s.Clean e) : (s.next near e).Owned := by
  by_cases hgame : InGame e
  · exact (h.ingame hc hgame).1
  · cases e with
    | setup gotitems hold protect tkpenalty spots gamelimit gamespeed rnd =>
      exact h.setup _ _ _ _ _ _ _ _
    | _ => exact absurd trivial hgame

theorem owned_initial : (initial : Ctf P).Owned :=
  owned_of_free List.nodup_nil (fun _ hc => absurd hc List.not_mem_nil) (fun _ => rfl)
    fun _ hf => absurd hf List.not_mem_nil

/-- **Every run** whose events are clean keeps the invariant. -/
theorem Owned.of_steps {es : List (CtfEvent P)}
    (hrun : Run.Steps (Ctf.step near) Clean initial es s) : s.Owned := by
  refine hrun.invariant Owned (fun s e s' h hc hs => ?_) owned_initial
  obtain rfl := Except.ok.inj hs
  exact h.next hc

theorem takeflag_of_version {ci : Runner P} {i : Nat} {f : Flag P} {version : Int}
    (hf : s.flags[i]? = some f) (hne : f.version ≠ version) : s.takeflag ci i version = s := by
  unfold takeflag
  rw [hf]
  exact if_pos fun htakes => hne htakes.2.2.2.2.2.1

/-- **Flags and their owners**: in every run in which no carrier stops being alive without a word
to the mode, and no flag is passed to a client who carries one, a flag that is owned is owned by a
client who is alive, who owns no other, and it is dropped by nobody; and what happens next raises
the version of every flag whose place it changes, so that a take request with another version is
ignored. -/
theorem flags_owned {es : List (CtfEvent P)}
    (hrun : Run.Steps (Ctf.step near) Clean initial es s) :
    (∀ (i : Nat) (f : Flag P), s.flags[i]? = some f → 0 ≤ f.owner →
      (∃ c ∈ s.clients, c.cn = f.owner ∧ c.state = .alive) ∧ f.dropper = -1 ∧
        f.place = .owned f.owner ∧
        ∀ (j : Nat) (g : Flag P), s.flags[j]? = some g → g.owner = f.owner → i = j) ∧
    (∀ e t, s.Clean e → InGame e → s.step near e = .ok t →
      ∀ (i : Nat) (f f' : Flag P), s.flags[i]? = some f → t.flags[i]? = some f' →
        f.version ≤ f'.version ∧ (f'.place ≠ f.place → f.version < f'.version)) ∧
    ∀ (ci : Runner P) (i : Nat) (f : Flag P) (version : Int), s.flags[i]? = some f →
      f.version ≠ version → s.takeflag ci i version = s := by
  have h := Owned.of_steps hrun
  refine ⟨fun i f hf ho => ?_, fun e t hc hgame ht i f f' hf hf' => ?_,
    fun ci i f version hf hne => takeflag_of_version hf hne⟩
  · obtain ⟨hdropper, -, w, hw, hcarry⟩ := h.carried i f hf ho
    obtain ⟨c, hc, rfl⟩ := List.mem_map.mp hw
    refine ⟨⟨c, hc, hcarry.1, hcarry.2.2.1⟩, hdropper, if_pos ho, fun j g hg heq => ?_⟩
    exact h.alone i j f g hf hg ho heq.symm
  · obtain rfl := Except.ok.inj ht
    have hticks := (h.ingame hc hgame).2 i f f' hf hf'
    exact ⟨hticks.version, hticks.place⟩

/-- A player takes the flag and passes it to one of his team. -/
theorem flags_owned_passed : ∃ s : Ctf Unit, ∃ f : Flag Unit, s.flags[0]? = some f ∧ f.owner = 1 ∧
    ∃ c ∈ s.clients, c.cn = 1 ∧ c.state = .alive := by
  obtain ⟨s, hrun, f, hf, hown⟩ := Run.Steps.of_execIf (Ctf.step fun _ _ => false) Clean initial
    [.setup true false false true [((), 2)] 600000 100 id, .connected 0 "good" .dead () 0,
      .connected 1 "good" .dead () 0, .spawned 0, .spawned 1, .takeflag 0 0 0, .passflag 0 1 id]
    (p := fun s => ∃ f ∈ s.flags[0]?, f.owner = 1) (by decide)
  obtain ⟨c, hc, hcn, halive⟩ := ((flags_owned hrun).1 0 f hf (by omega)).1
  exact ⟨s, f, hf, hown, c, hc, hcn.trans hown, halive⟩

/-- The state after these events of two flags of team evil and two players of team good, of whom
each has taken one. -/
def twocarriers : List (CtfEvent Unit) :=
  [.setup true false false true [((), 2), ((), 2)] 600000 100 id, .connected 0 "good" .dead () 0,
    .connected 1 "good" .dead () 0, .spawned 0, .spawned 1, .takeflag 0 0 0, .takeflag 1 1 0]

/-- A flag passed to a player who carries one is at home with its old version; and one who is taken
out of the game by `unspectate` keeps the flag he carries. -/
theorem pass_refused : (∃ s t : Ctf Unit, ∃ f f' : Flag Unit,
      Run.Reachable (Ctf.step fun _ _ => false) initial s ∧
      s.step (fun _ _ => false) (.passflag 0 1 id) = .ok t ∧ s.flags[0]? = some f ∧
      t.flags[0]? = some f' ∧ f.place = .owned 0 ∧ f'.place = .home ∧ f'.version = f.version ∧
      t.sent = s.sent) ∧
    ∃ s : Ctf Unit, Run.Reachable (Ctf.step fun _ _ => false) initial s ∧
      ∃ f ∈ s.flags[0]?, f.owner = 0 ∧ ∃ c ∈ s.clients, c.cn = 0 ∧ c.state = .dead := by
  constructor
  · obtain ⟨s, hrun, hs⟩ := Run.Reachable.of_any (Ctf.step fun _ _ => false) initial twocarriers
      (p := fun s => ∃ f ∈ s.flags[0]?,
        ∃ f' ∈ (s.next (fun _ _ => false) (.passflag 0 1 id)).flags[0]?,
          f.place = .owned 0 ∧ f'.place = .home ∧ f'.version = f.version ∧
            (s.next (fun _ _ => false) (.passflag 0 1 id)).sent = s.sent) (by decide)
    obtain ⟨f, hf, f', hf', hrest⟩ := of_decide_eq_true hs
    exact ⟨s, _, f, f', hrun, rfl, hf, hf', hrest⟩
  · obtain ⟨s, hrun, hs⟩ := Run.Reachable.of_any (Ctf.step fun _ _ => false) initial
      (twocarriers ++ [.setstate 0 .dead])
      (p := fun s => ∃ f ∈ s.flags[0]?, f.owner = 0 ∧ ∃ c ∈ s.clients, c.cn = 0 ∧ c.state = .dead)
      (by decide)
    exact ⟨s, hrun, of_decide_eq_true hs⟩

end Ctf
end QServ
