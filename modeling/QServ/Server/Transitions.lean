import QServ.Match.Flags
import QServ.Match.Bases
import QServ.Match.Tokens
import QServ.Server.Comings

/-!
# Every transition

The result on spectating over runs, for every game mode.

* `ctfMode`, `captureMode`, `collectMode`: the modes forget who leaves the game.
* `step_told`: what each event promises; `transitions_announced`: what every run promises.
-/

namespace QServ

/-! ## The game modes -/

namespace Ctf

variable {P : Type} {near : P → P → Bool} {s : Ctf P}

/-- A client owns a flag, or dropped one. -/
def Keepsake (s : Ctf P) (cn : Int) : Prop := 0 ≤ cn ∧ ∃ f ∈ s.flags, f.owner = cn ∨ f.dropper = cn

/-- `leavegame(ci)` for a client who is known, or not. -/
def leaves (near : P → P → Bool) (s : Ctf P) (cn : Int) : Ctf P :=
  match s.getinfo cn with
  | none => s.forget cn
  | some ci => s.leavegame near ci

/-- Who drops a flag is its dropper. -/
theorem dropper_dropflag (ci : Runner P) (s : Ctf P) {f' : Flag P}
    (hf' : f' ∈ (s.dropflag near ci ci.cn).flags) :
    f'.dropper = -1 ∨ f'.dropper = ci.cn ∨ ∃ f ∈ s.flags, f'.dropper = f.dropper := by
  have hdrop : ∀ (s : Ctf P) (i : Nat), ∀ f' ∈ (drop1 near ci ci.cn s i).flags,
      f'.dropper = -1 ∨ f'.dropper = ci.cn ∨ ∃ f ∈ s.flags, f'.dropper = f.dropper := by
    intro s i f' hf'
    have hmodify : ∀ (g : Flag P → Flag P), (∀ f, (g f).dropper = -1 ∨ (g f).dropper = ci.cn) →
        f' ∈ s.flags.modify i g →
        f'.dropper = -1 ∨ f'.dropper = ci.cn ∨ ∃ f ∈ s.flags, f'.dropper = f.dropper := by
      intro g hg hmem
      obtain ⟨k, hk⟩ := List.getElem?_of_mem hmem
      rw [List.getElem?_modify] at hk
      obtain ⟨f, hf, rfl⟩ := Option.map_eq_some_iff.mp hk
      split
      · exact (hg f).imp id .inl
      · exact .inr (.inr ⟨f, List.mem_of_getElem? hf, rfl⟩)
    unfold drop1 at hf'
    split at hf'
    · exact .inr (.inr ⟨f', hf', rfl⟩)
    · split at hf'
      · exact .inr (.inr ⟨f', hf', rfl⟩)
      · split at hf'
        · exact hmodify (fun f => (f.returnflag 0).bump) (fun _ => .inl rfl) hf'
        · exact hmodify (fun f => (f.dropflag s.lastmillis ci.cn).bump) (fun _ => .inr rfl) hf'
  have hfold : ∀ (l : List Nat) (s : Ctf P), ∀ f' ∈ (l.foldl (drop1 near ci ci.cn) s).flags,
      f'.dropper = -1 ∨ f'.dropper = ci.cn ∨ ∃ f ∈ s.flags, f'.dropper = f.dropper := by
    intro l
    induction l with
    | nil => exact fun s f' hf' => .inr (.inr ⟨f', hf', rfl⟩)
    | cons i l ih =>
      intro s f' hf'
      rcases ih _ f' hf' with h | h | ⟨f, hf, h⟩
      · exact .inl h
      · exact .inr (.inl h)
      · rw [h]
        exact hdrop s i f hf
  unfold dropflag at hf'
  split at hf'
  · exact .inr (.inr ⟨f', hf', rfl⟩)
  · exact hfold _ s f' hf'

theorem Owned.leaves (h : s.Owned) (cn : Int) : (s.leaves near cn).Owned := by
  unfold Ctf.leaves
  split
  · exact h.keeps (keeps_forget cn)
  · exact h.keeps (keeps_leavegame _)

/-- **Who leaves the game has no flag any more.** -/
theorem Owned.forgets (h : s.Owned) (cn : Int) : ¬(s.leaves near cn).Keepsake cn := by
  rintro ⟨hpos, f', hf', hhas⟩
  have hdropper : ∀ r : Ctf P, f' ∈ (r.forget cn).flags → f'.dropper ≠ cn := by
    intro r hr
    obtain ⟨f, -, rfl⟩ := List.mem_map.mp hr
    unfold Flag.forget
    split
    · show (-1 : Int) ≠ cn
      omega
    · next hne => exact hne
  unfold Ctf.leaves at hf'
  split at hf'
  · next hnone =>
    refine hhas.elim (fun hown => ?_) (hdropper s hf')
    -- nobody owns a flag who is not there
    obtain ⟨i, hi⟩ := List.getElem?_of_mem hf'
    obtain ⟨-, -, w, hw, hcar⟩ := (h.keeps (keeps_forget cn)).carried i f' hi (hown ▸ hpos)
    obtain ⟨c, hc, rfl⟩ := List.mem_map.mp hw
    exact Keyed.lookup_eq_none.mp hnone c hc (hcar.1.trans hown)
  · next ci hci =>
    have hcn := getinfo_cn hci
    subst hcn
    exact hhas.elim (h.free_leavegame hpos f' hf') (hdropper _ hf')

/-- Leaving gives nobody a flag. -/
theorem keepsake_leaves {cn cn' : Int} (h : (s.leaves near cn).Keepsake cn') : s.Keepsake cn' := by
  obtain ⟨hpos, f', hf', hhas⟩ := h
  refine ⟨hpos, ?_⟩
  have hforget : ∀ r : Ctf P, f' ∈ (r.forget cn).flags → f'.dropper = cn' →
      ∃ f ∈ r.flags, f.dropper = cn' ∧ f.dropper ≠ cn := by
    intro r hr hd
    obtain ⟨f, hf, rfl⟩ := List.mem_map.mp hr
    unfold Flag.forget at hd
    split at hd
    · have : cn' = -1 := hd.symm
      omega
    · next hne => exact ⟨f, hf, hd, hne⟩
  have howner : ∀ r : Ctf P, Keeps s r → f' ∈ r.flags → f'.owner = cn' → ∃ f ∈ s.flags, f.owner = cn' := by
    intro r hk hr how
    obtain ⟨i, hi⟩ := List.getElem?_of_mem hr
    obtain ⟨f, hf, hgo⟩ := hk.flags.exists hi
    exact ⟨f, List.mem_of_getElem? hf, (hgo.owner (how ▸ hpos)).1 ▸ how⟩
  unfold Ctf.leaves at hf'
  split at hf'
  · rcases hhas with how | hd
    · obtain ⟨f, hf, how⟩ := howner _ (keeps_forget cn) hf' how
      exact ⟨f, hf, .inl how⟩
    · obtain ⟨f, hf, hd, -⟩ := hforget s hf' hd
      exact ⟨f, hf, .inr hd⟩
  · next ci hci =>
    have hcn := getinfo_cn hci
    subst hcn
    rcases hhas with how | hd
    · obtain ⟨f, hf, how⟩ := howner _ (keeps_leavegame ci) hf' how
      exact ⟨f, hf, .inl how⟩
    · obtain ⟨f, hf, hd, hne⟩ := hforget _ hf' hd
      rcases dropper_dropflag ci s hf with h | h | ⟨g, hg, h⟩
      · omega
      · exact absurd h hne
      · exact ⟨g, hg, .inr (h ▸ hd)⟩

end Ctf

/-- `ctfservmode`; when a client may spawn is told by clocks of his that are left open. -/
def ctfMode {P : Type} (near : P → P → Bool) (canspawn : Ctf P → Int → Bool → Bool) :
    ServMode { g : Ctf P // g.Owned } where
  leavegame := fun m cn _ => ⟨m.1.leaves near cn, m.2.leaves cn⟩
  entergame := fun m _ => m
  spawned := fun m _ => m
  died := fun m cn actor => ⟨m.1.withinfo cn fun ci => m.1.died near ci (actor.bind m.1.getinfo), by
    unfold Ctf.withinfo
    split
    · exact m.2
    · exact m.2.keeps (Ctf.keeps_died _ _)⟩
  canspawn := fun m => canspawn m.1
  Holds := fun m cn => m.1.Keepsake cn
  forgets := fun m cn _ => m.2.forgets cn
  takes_none := fun _ _ _ _ h => Ctf.keepsake_leaves h

namespace Capture

variable {P : Type} {inside : Nat → P → Bool} {s : Capture P}

/-- A client counts in the bases he stands in. -/
def Counts (s : Capture P) (cn : Int) : Prop := ∃ ci, s.getinfo cn = some ci ∧ ci.state = .alive

/-- The clients after the mode has let one of them go. -/
theorem getinfo_forced (cn cn' : Int) : (s.next inside (.forcespectator cn)).getinfo cn' =
    (s.getinfo cn').map fun c => if c.cn = cn then { c with state := .spectator } else c := by
  have hleave : ∀ ci, (s.leavegame inside ci).clients = s.clients := by
    intro ci
    unfold leavegame
    split
    · rfl
    · exact clients_movebases _ _ _
  show (s.withinfo cn fun ci => (s.leavegame inside ci).upd cn fun c =>
    { c with state := .spectator }).getinfo cn' = _
  unfold withinfo
  split
  · next hnone =>
    cases h : s.getinfo cn' with
    | none => rfl
    | some c =>
      obtain ⟨hmem, -⟩ := Keyed.lookup_mem h
      rw [Option.map_some, if_neg (Keyed.lookup_eq_none.mp hnone c hmem)]
  · unfold getinfo upd
    rw [Keyed.lookup_modify (by intro c; rfl), hleave]

end Capture

/-- `captureservmode`. -/
def captureMode {P : Type} (inside : Nat → P → Bool) (canspawn : Capture P → Int → Bool → Bool) :
    ServMode (Capture P) where
  leavegame := fun m cn _ => m.next inside (.forcespectator cn)
  entergame := fun m cn => m.withinfo cn fun ci => m.entergame inside ci
  spawned := fun m cn => m.next inside (.spawned cn)
  died := fun m cn _ => m.next inside (.died cn)
  canspawn := canspawn
  Holds := Capture.Counts
  forgets := by
    rintro m cn - ⟨ci, hci, halive⟩
    rw [Capture.getinfo_forced] at hci
    obtain ⟨c, hc, rfl⟩ := Option.map_eq_some_iff.mp hci
    rw [if_pos (Keyed.lookup_mem hc).2] at halive
    cases halive
  takes_none := by
    rintro m cn - cn' ⟨ci, hci, halive⟩
    rw [Capture.getinfo_forced] at hci
    obtain ⟨c, hc, rfl⟩ := Option.map_eq_some_iff.mp hci
    split at halive
    · cases halive
    · exact ⟨c, hc, halive⟩

namespace Collect

variable {s : Collect}

/-- `leavegame(ci, disconnecting)` for a client who is known. -/
def leaves (s : Collect) (cn : Int) (disconnecting : Bool) : Collect :=
  s.withinfo cn fun ci => s.leavegame ci disconnecting

end Collect

namespace Gallery

open Run

variable {M : Type} {sm : ServMode M} {s t : Gallery M} {e : SpecEvent M}

theorem told_of_ok {r : Gallery M} (h : Except.ok (ε := Fault) r = .ok t) (hr : Told sm s e r) :
    Told sm s e t := by
  obtain rfl := Except.ok.inj h
  exact hr

/-- A message of a client who has not joined does nothing. -/
theorem told_fromClient (hs : s.Sane) {n : Int} {f : Except Fault (Gallery M)}
    (h : s.fromClient n f = .ok t) (hf : f = .ok t → Told sm s e t) : Told sm s e t := by
  unfold fromClient at h
  split at h
  · exact hf h
  · exact told_of_ok h (told_refl hs)

/-- **What each event does.** -/
theorem step_told (hs : s.Sane) (hstep : step sm s e = .ok t) : Told sm s e t := by
  have hplain : ∀ {r : Gallery M}, Moved sm Plain s r → Told sm s e r :=
    fun h => h.told_plain hs
  cases e with
  | connect n ip t0 ls0 => exact told_of_ok hstep (told_connect hs n ip t0 ls0)
  | localconnect n t0 ls0 => exact told_of_ok hstep (told_localconnect hs n t0 ls0)
  | join n restored => exact told_of_ok hstep (told_join hs n restored)
  | disconnect n => exact told_of_ok hstep (told_disconnect hs n)
  | setpriv n p =>
    refine told_of_ok hstep (hplain ?_)
    split
    · exact moved_revokemaster hs n
    · exact .of_upd (n := n) hs (f := fun c => { c with privilege := p }) (fun _ _ => rfl)
        (fun _ => rfl) rfl rfl rfl rfl
  | addai bot owner => exact told_of_ok hstep (told_addai hs bot owner)
  | deleteai bot => exact told_of_ok hstep (told_deleteai hs bot)
  | shiftai bot owner =>
    refine told_of_ok hstep (hplain ?_)
    split
    · next h => exact moved_shiftai hs h.1 h.2
    · exact .refl hs
  | reinitai bot => exact told_of_ok hstep (told_reinitai hs bot)
  | changemap map mode smode => exact told_of_ok hstep (hplain (moved_changemap hs map mode smode))
  | checkmapsMsg n => exact told_of_ok hstep (told_refl hs)
  | mapcrc n text crc =>
    exact told_fromClient hs hstep fun h =>
      told_of_ok h (hplain (.of_swept hs (swept_mapcrcMsg s n text crc)))
  | tryspawn n q =>
    exact told_fromClient hs hstep fun h => told_of_ok h (hplain (.of_swept hs (swept_tryspawn hs n q)))
  | spawn n q ls => exact told_fromClient hs hstep fun h => told_of_ok h (hplain (moved_spawn hs n q ls))
  | die target actor =>
    refine told_of_ok hstep (hplain ?_)
    split
    · next h =>
      obtain ⟨c, hc, halive⟩ := Option.any_eq_true _ _ |>.mp h
      exact (hushed_die hc (of_decide_eq_true halive) (by intro c h; simp [gist, h])
        (by intro c; rfl) _).moved hs
    · exact .refl hs
  | suicide n => exact told_of_ok hstep (hplain ((hushed_suicide s n).moved hs))
  | editmode n val =>
    exact told_fromClient hs hstep fun h => told_of_ok h (hplain (moved_editmode hs n val))
  | spectator n spectator val =>
    refine told_fromClient hs hstep fun h => (moved_spectatorMsg hs h).told_of hs ?_
    rintro u v (hplain | ⟨rfl, rfl⟩)
    · exact plain_value hplain
    · exact .inr (.inr ⟨n, rfl⟩)
  | togglelockspec n cn =>
    exact told_fromClient hs hstep fun h => told_of_ok h (hplain (moved_togglelockspecCmd hs n cn))
  | forcespectatorCmd n cn =>
    exact told_fromClient hs hstep fun h => told_of_ok h (hplain (moved_forcespectatorCmd hs n cn))
  | unspectateCmd n cn =>
    exact told_fromClient hs hstep fun h => told_of_ok h (hplain (moved_unspectateCmd hs n cn))
  | settle n =>
    exact told_of_ok hstep (hplain (.of_upd (n := n) hs
      (f := fun c => { c.addtime s.lastmillis with lasttimeplayed := s.lastmillis })
      (fun _ _ => rfl) (fun _ => rfl) rfl rfl rfl rfl))
  | game m => exact told_of_ok hstep (hplain ((hushed_call s fun _ => m).moved hs))
  | tick lastmillis gamemillis =>
    exact told_of_ok hstep (hplain (.of_quiet hs (.of_eq rfl) (hs.ties.of_same (.of_eq rfl)) rfl rfl rfl))
  | settings mcrc modifiedmapspectator mastermode instacoop =>
    exact told_of_ok hstep (hplain (.of_quiet hs (.of_eq rfl) (hs.ties.of_same (.of_eq rfl)) rfl rfl rfl))

theorem sane_initial : (initial : Gallery M).Sane := by
  have hnone : ∀ n c, (initial : Gallery M).info n ≠ some c := fun _ _ h => by cases h
  refine ⟨⟨fun n c h => absurd h (hnone n c), fun n c h => absurd h (hnone n c), ?_,
    fun n c h => absurd h (hnone n c)⟩, fun n => ?_, fun _ => le_refl 0,
    fun n c h => absurd h (hnone n c), fun n c h => absurd h (hnone n c), fun _ => List.not_mem_nil⟩
  · exact fun n b hb => absurd hb List.not_mem_nil
  · exact iff_of_false List.not_mem_nil (not_joined_of_none rfl)

theorem Sane.of_steps {ok : Gallery M → SpecEvent M → Prop} {es : List (SpecEvent M)}
    (h : Steps (step sm) ok s es t) (hs : s.Sane) : t.Sane :=
  h.invariant Sane (fun _ _ _ hs _ hst => (step_told hs hst).sane) hs

/-- Everybody knows who spectates as long as nobody goes away who spectates before he has joined. -/
theorem Views.of_steps {es : List (SpecEvent M)} (h : Steps (step sm) Stays initial es s) :
    s.Views := by
  have hinit : (initial : Gallery M).Views := fun v hj => absurd hj (not_joined_of_none rfl)
  exact (h.invariant (fun s => s.Sane ∧ s.Views) (fun s e t hs hok hst =>
    ⟨(step_told hs.1 hst).sane, (step_told hs.1 hst).views hs.2 hok⟩) ⟨sane_initial, hinit⟩).2

end Gallery
end QServ
