import QServ.Server.Spectating

/-!
# Every event

What each event of the server does for those who spectate, and the result over runs.

* `moved_spectatorMsg`, `moved_togglelockspecCmd`, ...: the messages and commands.
* `Sane.connect`, `Sane.join`, ...: those who come and go.
* `transitions_announced`: what every run promises.
-/

namespace QServ
namespace Gallery

open Bulletin

variable {M : Type} {sm : ServMode M} {s t r : Gallery M} {n u : Int} {c : Attendee}

/-! ## Messages and commands -/

theorem Moved.mono {ok ok' : Int → Int → Prop} (h : Moved sm ok s t)
    (hle : ∀ u val, ok u val → ok' u val) : Moved sm ok' s t := by
  obtain ⟨new, hlog, hpost⟩ := h.told
  exact ⟨h.sane, h.connected, h.since, ⟨new, hlog, fun u => (hpost u).mono
    fun m b ⟨val, hm, hb, hok⟩ => ⟨val, hm, hb, hle u val hok⟩⟩, h.entered⟩

/-- A write that `gist` does not see. -/
theorem swept_upd {f : Attendee → Attendee} (hf : ∀ c, gist (f c) = gist c)
    (hties : ∀ c, Gallery.ties (f c) = Gallery.ties c) : Swept sm s (s.upd n f) :=
  .of_gist (.upd hf s n) (.upd hties s n) rfl

theorem swept_mapcrcMsg (s : Gallery M) (n : Int) (text : String) (crc : Int) :
    Swept sm s (s.mapcrcMsg sm n text crc) := by
  unfold mapcrcMsg
  split
  · refine swept_upd (fun c => ?_) fun c => ?_
    · split
      · rfl
      · split <;> rfl
    · split
      · rfl
      · split <;> rfl
  · exact (swept_upd (by intro c; rfl) (by intro c; rfl)).trans (swept_checkmaps _)

theorem swept_sendspawn (s : Gallery M) (n : Int) : Swept sm s (s.sendspawn n) :=
  swept_upd (by intro c; rfl) (by intro c; rfl)

theorem swept_respawnAs (s : Gallery M) (n q : Int) : Swept sm s (s.respawnAs sm n q) := by
  have hcheck : Swept sm s ((s.upd n fun c => { c with mapcrc := -1 }).checkmaps sm) :=
    (swept_upd (by intro c; rfl) (by intro c; rfl)).trans (swept_checkmaps _)
  unfold respawnAs
  split
  · split
    · exact .refl s
    · split
      · simp only
        split
        · exact hcheck
        · repeat' split
          all_goals first | exact hcheck | exact hcheck.trans (swept_sendspawn _ q)
      · exact swept_sendspawn s q
  · exact .refl s

/-- Nobody who is locked plays, so that the branch for him does nothing. -/
theorem swept_tryspawn (hs : s.Sane) (n q : Int) : Swept sm s (s.tryspawn sm n q) := by
  unfold tryspawn
  split
  · exact .refl s
  · next c hc =>
    split
    · next hlock =>
      rw [if_neg (not_not_intro (hs.locked n c hc hlock))]
      exact .refl s
    · split
      · exact swept_respawnAs s n q
      · exact .refl s

theorem swept_leavegame (s : Gallery M) (n : Int) :
    Swept sm s (s.call fun m => sm.leavegame m n false) := by
  refine ⟨fun _ => .inl rfl, rfl, fun h _ => h.of_same (.of_eq rfl),
    ⟨[], (List.append_nil _).symm, fun u => (if_pos rfl).symm⟩, fun u hu m hm => ?_,
    fun u hu => absurd rfl hu, ?_⟩
  · obtain ⟨m', hm', rfl⟩ := Option.map_eq_some_iff.mp hm
    exact fun hholds => hu m' hm' (sm.takes_none m' n false u hholds)
  · intro _ _ u c hc hu _ _ hnil
    exact hnil (of_decide_eq_true ((spectating_eq hc).symm.trans hu))

/-- Taking up editing makes nobody a spectator but the one who is forced for it. -/
theorem moved_editmode (hs : s.Sane) (n val : Int) : Moved sm Plain s (s.editmode sm n val) := by
  have hleave : Swept sm s _ := swept_leavegame s n
  unfold editmode
  split
  · exact .refl hs
  · next c hc =>
    split
    · exact .refl hs
    · split
      · split
        · exact .refl hs
        · next hplay =>
          have hne : c.state ≠ .spectator := fun h => hplay (by simp [h])
          simp only
          split
          · exact .of_swept hs (hleave.trans (swept_force hc hne))
          · have hedit : Swept sm (s.call fun m => sm.leavegame m n false)
                ((s.call fun m => sm.leavegame m n false).upd n fun c =>
                  { c with editstate := c.state, state := .editing }) := by
              refine .of_gist (fun m => ?_) (.upd (by intro c; rfl) _ n) rfl
              rw [info_upd]
              split
              · next hm =>
                subst hm
                rw [info_call, hc]
                simp [gist, hne, hs.upright m c hc]
              · rfl
            split
            · exact .of_swept hs (hleave.trans hedit)
            · refine .of_swept hs ((hleave.trans hedit).trans
                (swept_force (c := { c with editstate := c.state, state := .editing }) ?_ ?_))
              · rw [info_upd, if_pos rfl, info_call, hc]
                rfl
              · exact fun h => by cases h
      · split
        · exact .refl hs
        · next hedit =>
          have hed : c.state = .editing := not_not.mp hedit
          refine .of_upd (n := n) (f := fun c => { c with state := c.editstate }) hs
            (fun c' hc' => ?_) (fun _ => rfl) rfl rfl rfl rfl
          rw [hc] at hc'
          obtain rfl := Option.some.inj hc'
          simp [poise, hed, hs.upright n c hc]

/-- Somebody starts spectating. -/
theorem moved_enter (hs : s.Sane) {sp : Attendee} {val : Int} {ok : Int → Int → Prop}
    (hc : s.info n = some sp) (hst : sp.state ≠ .spectator) (hval : val ≠ 0) (hok : ok n val) :
    Moved sm ok s ((s.enter sm sp n).announce n val) := by
  -- a client who is alive dies first
  obtain ⟨s', hs'⟩ : ∃ s', s' = if sp.state = .alive then s.suicide sm n else s := ⟨_, rfl⟩
  have hhush : Hushed s s' := by
    rw [hs']
    split
    · exact hushed_suicide s n
    · exact ⟨.refl _ s, .refl _ s, rfl, rfl, rfl, rfl⟩
  obtain ⟨c, hc', heq⟩ := hhush.gist.forth hc
  have hloc : c.isLocal = sp.isLocal := show (gist c).isLocal = (gist sp).isLocal by rw [heq]
  have hpriv : c.privilege = sp.privilege :=
    show (gist c).privilege = (gist sp).privilege by rw [heq]
  have hlock : c.isSpecLocked = false := by
    have hkeep : c.isSpecLocked = sp.isSpecLocked :=
      show (gist c).isSpecLocked = (gist sp).isSpecLocked by rw [heq]
    rw [hkeep, ← Bool.not_eq_true]
    exact fun h => hst (hs.locked n sp hc h)
  -- he is not locked, so that his new status goes out
  have henter : s.enter sm sp n = if !sp.isLocal && decide (sp.privilege = .none) then
      (seat sm s' n).removeai n else seat sm s' n := by
    rw [hs']
    rfl
  have hforced : Forced sm n val c s' ((s.enter sm sp n).send (.spectator n val (-1))) := by
    rw [henter]
    refine forced_seat hc' fun h1 h2 => ?_
    rw [← hloc, ← hpriv, h1, h2]
    rfl
  obtain ⟨d, hd, hcore⟩ := Option.map_eq_some_iff.mp hforced.self
  have hfree : d.isSpecLocked = false := by
    have hkeep : d.isSpecLocked = c.isSpecLocked := show (core d).isSpecLocked = _ by rw [hcore]; rfl
    rw [hkeep, hlock]
  have hsend : (s.enter sm sp n).announce n val =
      (s.enter sm sp n).send (.spectator n val (-1)) := by
    unfold announce
    rw [info_send] at hd
    rw [hd, Option.any_some, hfree]
    rfl
  rw [hsend]
  have hmoved : Moved sm ok s s' := hhush.moved hs
  exact (Moved.of_forced hmoved.sane hc' hforced hval hok).after hhush

/-- Somebody who is not locked stops spectating, unless `checkmaps` forces him back. -/
theorem moved_leave (hs : s.Sane) {sp : Attendee} (hc : s.info n = some sp)
    (hst : sp.state = .spectator) (hlock : sp.isSpecLocked = false) :
    Moved sm Plain s ((s.leave sm sp n).announce n 0) := by
  obtain ⟨s', hs'⟩ : ∃ s', s' = s.upd n fun c =>
    { c.respawn with state := .dead, lasttimeplayed := s.lastmillis } := ⟨_, rfl⟩
  have hself : s'.info n =
      some { sp.respawn with state := .dead, lasttimeplayed := s.lastmillis } := by
    rw [hs', info_upd, if_pos rfl, hc]
    rfl
  have hother : ∀ m, m ≠ n → s'.info m = s.info m := by
    intro m hm
    rw [hs', info_upd, if_neg hm]
  have hties : Same Gallery.ties s s' := by
    rw [hs']
    exact .upd (by intro c; rfl) s n
  have hconn : Same Attendee.connected s s' := hties.coarser Prod.fst fun _ => rfl
  have hspec : s'.spectating n = false := by
    rw [spectating_eq hself]
    rfl
  have hspecs : ∀ u, u ≠ n → s'.spectating u = s.spectating u := by
    intro u hu
    refine spectating_of_map ?_
    rw [hother u hu]
  have hrest : s' = { s with info := s'.info } := by
    rw [hs']
    rfl
  have hsane : s'.Sane := by
    refine ⟨hs.ties.of_same hties, hs.listed.of_same (by rw [hrest]) hconn, ?_, fun m d hd hl => ?_,
      fun m d hd => ?_, ?_⟩
    · rw [hrest]
      exact hs.since
    · by_cases hm : m = n
      · subst hm
        rw [hself] at hd
        obtain rfl := Option.some.inj hd
        exact absurd (hlock.symm.trans hl) (by decide)
      · rw [hother m hm] at hd
        exact hs.locked m d hd hl
    · by_cases hm : m = n
      · subst hm
        rw [hself] at hd
        obtain rfl := Option.some.inj hd
        exact hs.upright m sp hc
      · rw [hother m hm] at hd
        exact hs.upright m d hd
    · rw [hrest]
      exact hs.wellformed
  have hswept : Swept sm s' (s.leave sm sp n) := by
    unfold leave
    simp only [← hs']
    split
    · exact swept_checkmaps s'
    · exact .refl s'
  have hmoved := Moved.of_swept hsane hswept
  generalize s.leave sm sp n = t at hswept hmoved
  obtain ⟨new, hlog, hnew⟩ := hswept.told
  obtain ⟨new', hlog', hpost⟩ := hmoved.told
  obtain rfl : new' = new := List.append_cancel_left (hlog'.symm.trans hlog)
  have hlogs : s'.log = s.log := by rw [hrest]
  have hspost : ∀ u, u ≠ n → Posted (about u) (Says Plain u) (s.spectating u) (t.spectating u) new' := by
    intro u hu
    rw [← hspecs u hu]
    exact hpost u
  have hentered : ∀ u c, s.info u = some c → c.state ≠ .spectator → t.spectating u = true →
      Entered sm s c u t := by
    intro u c hcu hne hu
    have hun : u ≠ n := by
      rintro rfl
      rw [hc] at hcu
      exact hne (Option.some.inj hcu ▸ hst)
    have hmillis : s'.lastmillis = s.lastmillis := by rw [hrest]
    obtain ⟨h1, h2, h3⟩ := hmoved.entered u c (by rw [hother u hun, hcu]) hne hu
    exact ⟨h1, by rwa [hmillis] at h2, h3⟩
  obtain ⟨d, hd, hrecord⟩ := hswept.forth hself
  have hn := hnew n
  rw [hspec] at hn
  cases hback : t.spectating n with
  | true =>
    -- forced back: he is locked, and only his return is told
    have hlocked : d.isSpecLocked = true := by
      rcases hrecord with heq | ⟨-, heq⟩
      · rw [spectating_eq hd] at hback
        exact absurd ((state_of_gist heq).mp (of_decide_eq_true hback)) (by simp)
      · exact show (gist d).isSpecLocked = true by rw [heq]; rfl
    rw [hback, if_neg (by decide)] at hn
    have hquiet : t.announce n 0 = t := by
      unfold announce
      rw [hd, Option.any_some, if_pos hlocked]
    rw [hquiet]
    refine ⟨hmoved.sane, hconn.trans hmoved.connected, hmoved.since.trans (by rw [hrest]),
      ⟨new', by rw [hlog, hlogs], fun u => ?_⟩, hentered⟩
    by_cases hu : u = n
    · subst hu
      exact .inr ⟨_, hn, 1, rfl, by rw [hback]; rfl, .inr rfl⟩
    · exact hspost u hu
  | false =>
    have hfree : d.isSpecLocked = false := by
      rcases hrecord with heq | ⟨-, heq⟩
      · exact (show (gist d).isSpecLocked = sp.isSpecLocked by rw [heq]; rfl).trans hlock
      · rw [spectating_eq hd] at hback
        exact absurd ((state_of_gist heq).mpr rfl) (of_decide_eq_false hback)
    rw [hback, if_pos rfl] at hn
    have hsend : t.announce n 0 = t.send (.spectator n 0 (-1)) := by
      unfold announce
      rw [hd, Option.any_some, hfree]
      rfl
    rw [hsend]
    have hpost' : ∀ u, Posted (about u) (Says Plain u) (s.spectating u) (t.spectating u)
        (new' ++ [.spectator n 0 (-1)]) := by
      intro u
      by_cases hu : u = n
      · subst hu
        refine .inr ⟨_, ?_, 0, rfl, by rw [hback]; rfl, .inl rfl⟩
        rw [List.filter_append, hn]
        simp [about]
      · exact (hspost u hu).append (by simp [about, Ne.symm hu])
    have hlog'' : (t.send (.spectator n 0 (-1))).log = s.log ++ (new' ++ [.spectator n 0 (-1)]) := by
      show t.log ++ _ = _
      rw [hlog, hlogs, List.append_assoc]
    refine ⟨⟨hmoved.sane.ties.of_same (.of_eq rfl), hmoved.sane.listed.of_same rfl (.of_eq rfl),
      fun m => (hmoved.sane.since m).trans (by simp [send]), hmoved.sane.locked, hmoved.sane.upright,
      fun cn hmem => ?_⟩, hconn.trans hmoved.connected, hmoved.since.trans (by rw [hrest]),
      ⟨_, hlog'', hpost'⟩, fun u c hcu hne hu => ?_⟩
    · rw [hlog'', List.mem_append] at hmem
      exact hmem.elim (hs.wellformed cn) (not_mem_of_posted hpost' cn)
    · obtain ⟨h1, h2, h3⟩ := hentered u c hcu hne hu
      exact ⟨h1, h2, h3⟩

/-- The values a request of `spectator` may bring. -/
def Asked (spectator val : Int) (u v : Int) : Prop := Plain u v ∨ (u = spectator ∧ v = val)

theorem moved_spectatorMsg (hs : s.Sane) {spectator val : Int}
    (hstep : s.spectatorMsg sm n spectator val = .ok t) : Moved sm (Asked spectator val) s t := by
  unfold spectatorMsg at hstep
  cases hc : s.info n with
  | none =>
    rw [hc] at hstep
    obtain rfl := Except.ok.inj hstep
    exact .refl hs
  | some c =>
    rw [hc] at hstep
    simp only at hstep
    split at hstep
    · obtain rfl := Except.ok.inj hstep
      exact .refl hs
    · cases hsp : s.getclientinfo spectator with
      | none => rw [hsp] at hstep; cases hstep
      | some sp =>
        rw [hsp] at hstep
        have hinfo : s.info spectator = some sp := by
          unfold getclientinfo at hsp
          split at hsp
          · exact hsp
          · cases hsp
        simp only at hstep
        split at hstep
        · next hlock =>
          -- who is locked spectates already
          rw [if_neg (not_not_intro (hs.locked spectator sp hinfo hlock.1))] at hstep
          obtain rfl := Except.ok.inj hstep
          exact .refl hs
        · next hlock =>
          split at hstep
          · obtain rfl := Except.ok.inj hstep
            exact .refl hs
          · next hchange =>
            split at hstep
            · next hval =>
              obtain rfl := Except.ok.inj hstep
              exact moved_enter hs hinfo (fun h => hchange ⟨fun _ => hval, fun _ => h⟩) hval
                (.inr ⟨rfl, rfl⟩)
            · next hval =>
              obtain rfl := Except.ok.inj hstep
              have hzero : val = 0 := not_not.mp hval
              subst hzero
              have hst : sp.state = .spectator := by
                by_contra h
                exact hchange ⟨fun h' => absurd h' h, fun h' => absurd rfl h'⟩
              refine (moved_leave hs hinfo hst ?_).mono fun _ _ => .inl
              rw [← Bool.not_eq_true]
              exact fun h => hlock ⟨h, rfl⟩

/-- Unspectating and unlocking in one write. -/
theorem moved_unlock (hs : s.Sane) (hinfo : t.info = ((s.unspectate n).lock n false).info)
    (hclients : t.clients = s.clients) (hlog : t.log = s.log ++ [.spectator n 0 (-1)])
    (hsince : t.since = s.since) : Moved sm Plain s t := by
  refine .of_unspectate (n := n) (f := fun c => { c.respawn with
    state := .dead, lasttimeplayed := s.lastmillis, isSpecLocked := false }) hs (fun _ _ => rfl)
    (hinfo.trans (funext fun m => ?_)) hclients hlog hsince
  unfold Gallery.lock unspectate
  rw [info_upd, info_upd, info_send, info_upd]
  split
  · rw [Option.map_map]
    rfl
  · rfl

/-- A command on another client does something, or nothing at all. -/
theorem moved_onTarget {ok : Int → Int → Prop} {cn : Int} {f : Attendee → Gallery M} (hs : s.Sane)
    (hf : ∀ c, s.info cn = some c → Moved sm ok s (f c)) : Moved sm ok s (s.onTarget n cn f) := by
  unfold onTarget
  split
  · next c c' _ hc' =>
    split
    · refine hf c' ?_
      unfold getclientinfo at hc'
      split at hc'
      · exact hc'
      · cases hc'
    · exact .refl hs
  · exact .refl hs

theorem moved_forcespectatorCmd (hs : s.Sane) (n cn : Int) :
    Moved sm Plain s (s.forcespectatorCmd sm n cn) :=
  moved_onTarget hs fun _ hc => .of_forced hs hc (forced_forcespectator hc) one_ne_zero (.inr rfl)

theorem moved_togglelockspecCmd (hs : s.Sane) (n cn : Int) :
    Moved sm Plain s (s.togglelockspecCmd sm n cn) := by
  refine moved_onTarget hs fun c hc => ?_
  simp only
  split
  · have hforced : Forced sm cn 1 c s _ := forced_forcespectator hc
    obtain ⟨d, hd, hcore⟩ := Option.map_eq_some_iff.mp hforced.self
    have hmoved : Moved sm Plain s _ := .of_forced hs hc hforced one_ne_zero (.inr rfl)
    have hspec : (s.forcespectator sm cn).spectating cn = true := by
      rw [spectating_eq hd]
      exact decide_eq_true (show (core d).state = _ by rw [hcore]; rfl)
    exact hmoved.lock (fun _ : true = true => hspec) rfl rfl rfl rfl rfl
  · exact moved_unlock (n := cn) hs rfl rfl rfl rfl

theorem moved_unspectateCmd (hs : s.Sane) (n cn : Int) :
    Moved sm Plain s (s.unspectateCmd n cn) := by
  refine moved_onTarget hs fun c hc => ?_
  simp only
  split
  · exact moved_unlock (n := cn) hs rfl rfl rfl rfl
  · next hlock =>
    refine .of_unspectate (n := cn) (f := fun c => { c.respawn with
      state := .dead, lasttimeplayed := s.lastmillis }) hs (fun c' hc' => ?_) rfl rfl rfl rfl
    rw [hc] at hc'
    obtain rfl := Option.some.inj hc'
    have hfree : c.isSpecLocked = false := by simpa using hlock
    simp [Attendee.respawn, hfree]

/-! ## What goes on among those who play -/

variable {ok : Int → Int → Prop} {owner : Option Int} {bot : Int}

/-- Bots are handed over. -/
theorem moved_handover (hs : s.Sane) (h : Handover s t) (hties : t.Ties) : Moved sm ok s t :=
  .of_quiet hs (h.same.coarser poise fun _ => rfl) hties h.clients h.log h.since

theorem moved_shiftai (hs : s.Sane) (hle : MAXCLIENTS ≤ bot) (ho : s.Owner owner) :
    Moved sm ok s (s.shiftai bot owner) :=
  moved_handover hs (handover_shiftai s bot owner) (hs.ties.shiftai hle ho)

theorem moved_revokemaster (hs : s.Sane) (n : Int) : Moved sm ok s (s.revokemaster n) := by
  have hpriv : Same poise s (s.upd n fun c => { c with privilege := .none }) :=
    .upd (by intro c; rfl) s n
  have hties := hs.ties.of_same (Same.upd (f := fun c => { c with privilege := .none })
    (by intro c; rfl) s n)
  have hupd : Moved sm ok s (s.upd n fun c => { c with privilege := .none }) :=
    .of_quiet hs hpriv hties rfl rfl rfl
  unfold revokemaster
  simp only
  split
  · exact hupd
  · split
    · have hhand := handover_removeai (s.upd n fun c => { c with privilege := .none }) n
      exact .of_quiet hs (hpriv.trans (hhand.same.coarser poise fun _ => rfl))
        (hties.removeai hupd.sane.listed.enrolled n) hhand.clients hhand.log hhand.since
    · exact hupd

theorem moved_spawn (hs : s.Sane) (n q ls : Int) : Moved sm ok s (s.spawn sm n q ls) := by
  unfold spawn
  split
  · exact .refl hs
  · next b hb =>
    split
    · next h =>
      refine .of_upd (n := q) hs (f := fun b => { b with lastspawn := -1, state := .alive })
        (fun c hc => ?_) (fun _ => rfl) rfl rfl rfl rfl
      rw [hb] at hc
      obtain rfl := Option.some.inj hc
      rcases h.2.1 with hst | hst | hst <;> simp [poise, hst]
    · exact .refl hs

/-- A change of the map leaves those who spectate where they are. -/
theorem moved_changemap (hs : s.Sane) (map : String) (mode : Int) (smode : Option M) :
    Moved sm ok s (s.changemap map mode smode) := by
  -- the loop needs that no editor was a spectator before
  have hloop : ∀ (l : List Int) (r : Gallery M), r.Upright → ∃ info,
      l.foldl (fun s n => s.upd n fun c =>
        let c := { c.mapchange with lasttimeplayed := s.lastmillis }
        if mMp mode ∧ c.state ≠ .spectator then c.spawnstate s.gamemillis else c) r =
          { r with info } ∧ Same poise r { r with info } ∧ Same Gallery.ties r { r with info } := by
    intro l
    induction l with
    | nil => exact fun r _ => ⟨r.info, rfl, .refl _ r, .refl _ r⟩
    | cons n l ih =>
      intro r hr
      have hsame : Same poise r (r.upd n fun c =>
          let c := { c.mapchange with lasttimeplayed := r.lastmillis }
          if mMp mode ∧ c.state ≠ .spectator then c.spawnstate r.gamemillis else c) := by
        refine .upd_of fun c hc => ?_
        have hedit := hr n c hc
        by_cases hst : c.state = .spectator <;> by_cases hmp : mMp mode = true <;>
          simp [poise, Attendee.mapchange, Attendee.respawn, Attendee.spawnstate, hst, hedit, hmp]
      have hties : Same Gallery.ties r (r.upd n fun c =>
          let c := { c.mapchange with lasttimeplayed := r.lastmillis }
          if mMp mode ∧ c.state ≠ .spectator then c.spawnstate r.gamemillis else c) := by
        refine .upd (fun c => ?_) r n
        simp only
        split <;> rfl
      obtain ⟨info, heq, hsame', hties'⟩ :=
        ih _ (hr.of_same (hsame.coarser (fun x => x.2.2) fun _ => rfl))
      exact ⟨info, heq, hsame.trans hsame', hties.trans hties'⟩
  obtain ⟨info, heq, hsame, hties⟩ :=
    hloop s.clients { s with smode, gamemode := mode, gamemillis := 0, smapname := map } hs.upright
  unfold changemap
  simp only [heq]
  exact .of_quiet hs hsame (hs.ties.of_same hties) rfl rfl rfl

end Gallery
end QServ
