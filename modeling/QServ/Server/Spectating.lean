import QServ.Server.Forcing

/-!
# Who spectates

What is promised of the paths into and out of spectating, over every run of the server.

* `Sane`: the invariant of the server, with `Locked`: who is locked spectates.
* `Views`: everybody knows who spectates.
* `Entered`, `Announced`: what a step does for a client whose status it changes.
* `Moved`: all of it for a step after which the same clients are connected, with one theorem for
  each path; `step_spec`: for every event.
-/

namespace QServ
namespace Gallery

open Bulletin

variable {M : Type} {sm : ServMode M} {s t r : Gallery M} {n u : Int} {c : Attendee}

/-! ## What is promised -/

/-- **Who is locked spectates**, so he is not alive. -/
def Locked (s : Gallery M) : Prop :=
  ∀ n c, s.info n = some c → c.isSpecLocked = true → c.state = .spectator

/-- Who leaves the edit mode does not come to spectate by it. -/
def Upright (s : Gallery M) : Prop := ∀ n c, s.info n = some c → c.editstate ≠ .spectator

/-- What holds of the server after every step. -/
structure Sane (s : Gallery M) : Prop where
  ties : s.Ties
  listed : s.Listed
  since : ∀ n, s.since n ≤ s.log.length
  locked : s.Locked
  upright : s.Upright
  wellformed : ∀ cn, .spectator2 cn ∉ s.log

/-- A client that spectates before he has connected: he is announced to those who are there, and is
announced again when he connects. -/
def Lurks (s : Gallery M) (n : Int) : Prop :=
  ∃ c, s.info n = some c ∧ c.connected = false ∧ c.state = .spectator

/-- **Everybody knows who spectates.** -/
def Views (s : Gallery M) : Prop :=
  ∀ v, s.Joined v → v < MAXCLIENTS → ∀ u, ¬s.Lurks u → s.view v u = s.spectating u

/-- Nobody goes away who spectates and has not connected. -/
def Stays (s : Gallery M) (e : SpecEvent M) : Prop := ∀ n, e = .disconnect n → ¬s.Lurks n

/-- What is done for a client who becomes a spectator: the game mode forgets him, the time he has
played is counted up to now, and his bots are released unless he may keep them. -/
structure Entered (sm : ServMode M) (s : Gallery M) (c : Attendee) (u : Int) (t : Gallery M) :
    Prop where
  forgets : ∀ m ∈ t.smode, ¬sm.Holds m u
  credited : ∃ d, t.info u = some d ∧
    d.timeplayed = c.timeplayed + (s.lastmillis - c.lasttimeplayed)
  released : c.isLocal = false → c.privilege = .none →
    t.botsOf u = [] ∧ ∀ b d, t.info b = some d → MAXCLIENTS ≤ b → d.ownernum ≠ u

/-- An `N_SPECTATOR` about `u`. -/
def specs (u : Int) : Notice → Bool
  | .spectator cn _ _ => cn = u
  | .spectator2 cn => cn = u
  | _ => false

/-- The values an `N_SPECTATOR` about `u` may have: that of a request, or else 0 or 1. -/
def Value (e : SpecEvent M) (u val : Int) : Prop :=
  val = 0 ∨ val = 1 ∨ ∃ n, e = .spectator n u val

/-- **The change of a client's status is told to everybody** in one `N_SPECTATOR`: to all clients, or
to the others when the client connects and his welcome tells him. -/
def Announced (s : Gallery M) (e : SpecEvent M) (t : Gallery M) : Prop :=
  ∃ new, t.log = s.log ++ new ∧ ∀ u, (t.info u).isSome → s.spectating u ≠ t.spectating u →
    ∃ val, t.spectating u = decide (val ≠ 0) ∧ Value e u val ∧
      (new.filter (specs u) = [.spectator u val (-1)] ∨
        ∃ restored others, e = .join u restored ∧ new.filter (specs u) = [.spectator u val u] ∧
          .welcome u true others ∈ new)

/-! ## Steps that leave everybody where he is -/

/-- The notice tells everybody of `u`, with a value that is allowed. -/
def Says (ok : Int → Int → Prop) (u : Int) (m : Notice) (b : Bool) : Prop :=
  ∃ val, m = .spectator u val (-1) ∧ b = decide (val ≠ 0) ∧ ok u val

/-- What a step does after which the same clients are connected: it keeps the server sane, tells of
each change of status in one notice, and does what is to be done for those who enter. -/
structure Moved (sm : ServMode M) (ok : Int → Int → Prop) (s t : Gallery M) : Prop where
  sane : t.Sane
  connected : Same Attendee.connected s t
  since : t.since = s.since
  told : ∃ new, t.log = s.log ++ new ∧
    ∀ u, Posted (about u) (Says ok u) (s.spectating u) (t.spectating u) new
  entered : ∀ u c, s.info u = some c → c.state ≠ .spectator → t.spectating u = true →
    Entered sm s c u t

theorem specs_le_about {u : Int} {m : Notice} (h : about u m = false) : specs u m = false := by
  cases m with
  | welcome => rfl
  | cdis => rfl
  | resume => rfl
  | _ => exact h

theorem filter_specs (u : Int) (new : List Notice) :
    new.filter (specs u) = (new.filter (about u)).filter (specs u) := by
  rw [List.filter_filter]
  refine List.filter_congr fun m _ => ?_
  cases hm : about u m with
  | true => simp
  | false => rw [specs_le_about hm]; rfl

/-- A new notice that is posted is not cut short. -/
theorem not_mem_of_posted {ok : Int → Int → Prop} {new : List Notice} {b b' : Int → Bool}
    (h : ∀ u, Posted (about u) (Says ok u) (b u) (b' u) new) (cn : Int) :
    .spectator2 cn ∉ new := by
  intro hmem
  have hin : Notice.spectator2 cn ∈ new.filter (about cn) :=
    List.mem_filter.mpr ⟨hmem, by simp [about]⟩
  rcases h cn with ⟨hnone, -⟩ | ⟨m, hone, val, rfl, -⟩
  · rw [hnone] at hin
    cases hin
  · rw [hone, List.mem_singleton] at hin
    cases hin

theorem Moved.announced {ok : Int → Int → Prop} {e : SpecEvent M} (h : Moved sm ok s t)
    (hok : ∀ u val, ok u val → Value e u val) : Announced s e t := by
  obtain ⟨new, hlog, hpost⟩ := h.told
  refine ⟨new, hlog, fun u _ hne => ?_⟩
  rcases hpost u with ⟨-, hsame⟩ | ⟨m, hone, val, rfl, hval, hu⟩
  · exact absurd hsame.symm hne
  · refine ⟨val, hval, hok u val hu, .inl ?_⟩
    rw [filter_specs, hone]
    simp [specs]

theorem lurks_iff : s.Lurks n ↔ ¬s.Joined n ∧ s.spectating n = true := by
  rw [joined_iff, spectating_iff]
  constructor
  · rintro ⟨c, hc, hconn, hst⟩
    refine ⟨?_, c, hc, hst⟩
    rintro ⟨d, hd, hdconn⟩
    rw [hc] at hd
    obtain rfl := Option.some.inj hd
    rw [hconn] at hdconn
    cases hdconn
  · rintro ⟨hnot, c, hc, hst⟩
    refine ⟨c, hc, ?_, hst⟩
    rw [← Bool.not_eq_true]
    exact fun hconn => hnot ⟨c, hc, hconn⟩

/-- A reader who was there before the step knows a status again that is posted. -/
theorem view_of_posted {ok : Int → Int → Prop} {new : List Notice} {v : Int} {b b' : Bool}
    (hsane : s.Sane) (hlog : t.log = s.log ++ new) (hsince : t.since v = s.since v)
    (hpost : Posted (about u) (Says ok u) b b' new) (hview : s.view v u = b) (hv : 0 ≤ v) :
    t.view v u = b' := by
  unfold view at *
  rw [hlog, hsince, heard_append (hsane.since v), hview]
  refine hpost.heard (fun b m => hear_skip b m) ?_
  rintro b _ b' ⟨val, rfl, rfl, -⟩
  simp [hear, show v ≠ -1 by omega]

theorem Moved.views {ok : Int → Int → Prop} (h : Moved sm ok s t) (hs : s.Sane) (hv : s.Views) :
    t.Views := by
  obtain ⟨new, hlog, hpost⟩ := h.told
  intro v hj hlt u hu
  have hj := h.connected.joined.mp hj
  obtain ⟨c, hc, -⟩ := joined_iff.mp hj
  have hpos := hs.ties.nonneg v c hc
  rcases hpost u with ⟨hnone, hsame⟩ | hone
  · have hquiet : Posted (about u) (Says ok u) (s.spectating u) (t.spectating u) new :=
      .inl ⟨hnone, hsame⟩
    refine view_of_posted hs hlog (congrFun h.since v) hquiet ?_ hpos
    refine hv v hj hlt u fun hl => hu ?_
    rw [lurks_iff] at hl ⊢
    rw [h.connected.joined, hsame]
    exact hl
  · have hany : Posted (about u) (Says ok u) (s.view v u) (t.spectating u) new := .inr hone
    exact view_of_posted hs hlog (congrFun h.since v) hany rfl hpos

/-! ## Each path -/

/-- The values of all notices but those that answer a request. -/
def Plain (_ val : Int) : Prop := val = 0 ∨ val = 1

theorem Locked.of_same (h : s.Locked)
    (hsame : Same (fun c => (c.isSpecLocked, decide (c.state = .spectator))) s t) : t.Locked := by
  intro n d hd hlock
  obtain ⟨c, hc, heq⟩ := hsame.back hd
  obtain ⟨h1, h2⟩ := Prod.mk.inj heq
  exact of_decide_eq_true (h2.trans (decide_eq_true (h n c hc (h1 ▸ hlock))))

theorem Upright.of_same (h : s.Upright)
    (hsame : Same (fun c => decide (c.editstate = .spectator)) s t) : t.Upright := by
  intro n d hd hst
  obtain ⟨c, hc, heq⟩ := hsame.back hd
  exact h n c hc (of_decide_eq_true (heq.symm.trans (decide_eq_true hst)))

/-- What a quiet step leaves alone of a record. -/
def poise (c : Attendee) : Bool × (Bool × Bool) × Bool :=
  (c.connected, (c.isSpecLocked, decide (c.state = .spectator)), decide (c.editstate = .spectator))

theorem Same.spectates (h : Same poise s t) (u : Int) : t.spectating u = s.spectating u := by
  have hst := h.coarser (q := fun c => decide (c.state = .spectator)) (fun x => x.2.1.2) fun _ => rfl
  rw [Bool.eq_iff_iff, spectating_iff, spectating_iff]
  constructor
  · rintro ⟨d, hd, hspec⟩
    obtain ⟨c, hc, heq⟩ := hst.back hd
    exact ⟨c, hc, by simpa [hspec] using heq.symm⟩
  · rintro ⟨c, hc, hspec⟩
    obtain ⟨d, hd, heq⟩ := hst.forth hc
    exact ⟨d, hd, by simpa [hspec] using heq⟩

theorem Moved.of_quiet {ok : Int → Int → Prop} (hs : s.Sane) (hsame : Same poise s t)
    (hties : t.Ties) (hclients : t.clients = s.clients) (hlog : t.log = s.log)
    (hsince : t.since = s.since) : Moved sm ok s t := by
  have hconn : Same Attendee.connected s t := hsame.coarser Prod.fst fun _ => rfl
  refine ⟨⟨hties, hs.listed.of_same hclients hconn, ?_, ?_, ?_, ?_⟩, hconn, hsince,
    ⟨[], by rw [hlog, List.append_nil], fun u => ?_⟩, ?_⟩
  · rw [hlog, hsince]
    exact hs.since
  · exact hs.locked.of_same (hsame.coarser (fun x => x.2.1) fun _ => rfl)
  · exact hs.upright.of_same (hsame.coarser (fun x => x.2.2) fun _ => rfl)
  · rw [hlog]
    exact hs.wellformed
  · rw [hsame.spectates]
    exact .quiet
  · intro u c hc hne hu
    rw [hsame.spectates, spectating_eq hc] at hu
    exact absurd (of_decide_eq_true hu) hne

theorem Moved.refl {ok : Int → Int → Prop} (hs : s.Sane) : Moved sm ok s s :=
  .of_quiet hs (.refl _ s) hs.ties rfl rfl rfl

/-- A quiet write to one record. -/
theorem Moved.of_upd {ok : Int → Int → Prop} (hs : s.Sane) {f : Attendee → Attendee}
    (hf : ∀ c, s.info n = some c → poise (f c) = poise c) (hties : ∀ c, Gallery.ties (f c) = Gallery.ties c)
    (hinfo : t.info = (s.upd n f).info) (hclients : t.clients = s.clients) (hlog : t.log = s.log)
    (hsince : t.since = s.since) : Moved sm ok s t := by
  refine .of_quiet hs (fun m => ?_) (hs.ties.of_same fun m => ?_) hclients hlog hsince
  · rw [hinfo]
    exact Same.upd_of hf m
  · rw [hinfo]
    exact Same.upd hties s n m

/-- Nobody's status changes, nor anything that counts when it does. -/
structure Hushed (s t : Gallery M) : Prop where
  gist : Same Gallery.gist s t
  ties : Same Gallery.ties s t
  clients : t.clients = s.clients
  log : t.log = s.log
  since : t.since = s.since
  lastmillis : t.lastmillis = s.lastmillis

theorem poise_gist (c : Attendee) : poise c = poise (gist c) := by
  by_cases hst : c.state = .spectator <;> by_cases hed : c.editstate = .spectator <;>
    simp [poise, gist, hst, hed]

theorem Hushed.moved {ok : Int → Int → Prop} (h : Hushed s t) (hs : s.Sane) : Moved sm ok s t :=
  .of_quiet hs (h.gist.coarser poise poise_gist) (hs.ties.of_same h.ties) h.clients h.log h.since

theorem hushed_call (s : Gallery M) (f : M → M) : Hushed s (s.call f) :=
  ⟨.refl _ s, .refl _ s, rfl, rfl, rfl, rfl⟩

/-- Who is alive dies, and nobody else notices. -/
theorem hushed_die {f : Attendee → Attendee} (hc : s.info n = some c) (halive : c.state = .alive)
    (hgist : ∀ c, c.state = .alive → Gallery.gist (f c) = Gallery.gist c)
    (hties : ∀ c, Gallery.ties (f c) = Gallery.ties c) (g : M → M) :
    Hushed s ((s.call g).upd n f) := by
  refine ⟨.upd_of fun d hd => ?_, .upd hties (s.call g) n, rfl, rfl, rfl, rfl⟩
  rw [info_call, hc] at hd
  obtain rfl := Option.some.inj hd
  exact hgist c halive

theorem hushed_suicide (s : Gallery M) (n : Int) : Hushed s (s.suicide sm n) := by
  unfold suicide
  split
  · exact ⟨.refl _ s, .refl _ s, rfl, rfl, rfl, rfl⟩
  · next c hc =>
    split
    · next halive =>
      exact hushed_die hc halive (by intro c h; simp [gist, Attendee.respawn, h])
        (by intro c; rfl) _
    · exact ⟨.refl _ s, .refl _ s, rfl, rfl, rfl, rfl⟩

/-- Forcing and locking. -/
theorem Moved.of_swept (hs : s.Sane) (h : Swept sm s t) : Moved sm Plain s t := by
  obtain ⟨new, hlog, hnew⟩ := h.told
  have hpost : ∀ u, Posted (about u) (Says Plain u) (s.spectating u) (t.spectating u) new := by
    intro u
    have hu := hnew u
    split at hu
    · next heq => exact .inl ⟨hu, heq.symm⟩
    · next hne =>
      refine .inr ⟨_, hu, 1, rfl, ?_, .inr rfl⟩
      cases hsu : s.spectating u <;> cases htu : t.spectating u <;> simp_all [h.spectating]
  have hties := h.ties hs.ties hs.listed
  refine ⟨⟨hties, h.listed hs.listed, fun n => ?_, fun n d hd hlock => ?_, fun n d hd hedit => ?_,
    fun cn hmem => ?_⟩, h.connected, by rw [h.rest], ⟨new, hlog, hpost⟩, fun u c hc hne hu => ⟨h.forgets u ?_, ?_, ?_⟩⟩
  · rw [hlog, show t.since = s.since by rw [h.rest]]
    exact (hs.since n).trans (by simp)
  · obtain ⟨c, hc, heq | ⟨-, heq⟩⟩ := h.back hd
    · have hlk : d.isSpecLocked = c.isSpecLocked :=
        show (gist d).isSpecLocked = (gist c).isSpecLocked by rw [heq]
      exact (state_of_gist heq).mpr (hs.locked n c hc (hlk ▸ hlock))
    · exact (state_of_gist heq).mpr rfl
  · obtain ⟨c, hc, heq | ⟨-, heq⟩⟩ := h.back hd <;>
      exact hs.upright n c hc ((editstate_of_gist heq).mp hedit)
  · rw [hlog, List.mem_append] at hmem
    exact hmem.elim (hs.wellformed cn) (not_mem_of_posted hpost cn)
  · rw [spectating_eq hc, hu]
    simpa using hne
  · obtain ⟨d, hd, heq | ⟨-, heq⟩⟩ := h.forth hc
    · exact absurd ((state_of_gist heq).mp (by
        obtain ⟨d', hd', hst⟩ := spectating_iff.mp hu
        rw [hd] at hd'
        exact Option.some.inj hd' ▸ hst)) hne
    · exact ⟨d, hd, show (gist d).timeplayed = _ by rw [heq]; rfl⟩
  · intro hloc hpriv
    have hnil := h.released hs.ties hs.listed u c hc hu hloc hpriv fun hst => absurd hst hne
    exact ⟨hnil, fun b d hd hle => hties.unowned hnil (hs.ties.nonneg u c hc) hd hle⟩

theorem Forced.connected {val : Int} (h : Forced sm n val c s t) (hc : s.info n = some c) :
    Same Attendee.connected s t := by
  have hcore : (Attendee.connected ∘ core) = Attendee.connected := rfl
  intro m
  by_cases hm : m = n
  · subst hm
    have hconn := congrArg (Option.map Attendee.connected) h.self
    rw [Option.map_map, hcore] at hconn
    rw [hconn, hc]
    rfl
  · have hconn := congrArg (Option.map Attendee.connected) (h.other m hm)
    rwa [Option.map_map, Option.map_map, hcore] at hconn

/-- One client who is seated. -/
theorem Moved.of_forced {ok : Int → Int → Prop} {val : Int} (hs : s.Sane) (hc : s.info n = some c)
    (h : Forced sm n val c s t) (hval : val ≠ 0) (hok : ok n val) : Moved sm ok s t := by
  have hlog : t.log = s.log ++ [.spectator n val (-1)] := by rw [h.rest]
  have hsince : t.since = s.since := by rw [h.rest]
  have hties := h.ties hs.ties hs.listed
  have hconn := h.connected hc
  obtain ⟨d, hd, hcore⟩ := Option.map_eq_some_iff.mp h.self
  have hstate : d.state = .spectator := show (core d).state = _ by rw [hcore]; rfl
  have hother : ∀ u, u ≠ n → t.spectating u = s.spectating u := by
    intro u hu
    refine spectating_of_map ?_
    have hst := congrArg (Option.map Attendee.state) (h.other u hu)
    rwa [Option.map_map, Option.map_map] at hst
  have hpost : ∀ u, Posted (about u) (Says ok u) (s.spectating u) (t.spectating u)
      [.spectator n val (-1)] := by
    intro u
    by_cases hu : u = n
    · subst hu
      refine .inr ⟨_, by simp [about], val, rfl, ?_, hok⟩
      rw [spectating_eq hd, hstate]
      simp [hval]
    · rw [hother u hu]
      exact .of_filter (by simp [about, Ne.symm hu])
  refine ⟨⟨hties, hs.listed.of_same (by rw [h.rest]) hconn, fun m => ?_, fun m e he hlock => ?_,
    fun m e he hedit => ?_, fun cn hmem => ?_⟩, hconn, hsince, ⟨_, hlog, hpost⟩,
    fun u c' hc' hne hu => ?_⟩
  · rw [hlog, hsince]
    exact (hs.since m).trans (by simp)
  · by_cases hm : m = n
    · subst hm
      rw [hd] at he
      exact Option.some.inj he ▸ hstate
    · have hsame := h.other m hm
      rw [he] at hsame
      obtain ⟨c', hc', heq⟩ := Option.map_eq_some_iff.mp hsame.symm
      have hlk : c'.isSpecLocked = e.isSpecLocked :=
        show (core c').isSpecLocked = (core e).isSpecLocked by rw [heq]
      have hst : c'.state = e.state := show (core c').state = (core e).state by rw [heq]
      exact hst ▸ hs.locked m c' hc' (hlk.trans hlock)
  · by_cases hm : m = n
    · subst hm
      rw [hd] at he
      obtain rfl := Option.some.inj he
      have hst : d.editstate = c.editstate := show (core d).editstate = _ by rw [hcore]; rfl
      exact hs.upright m c hc (hst ▸ hedit)
    · have hsame := h.other m hm
      rw [he] at hsame
      obtain ⟨c', hc', heq⟩ := Option.map_eq_some_iff.mp hsame.symm
      have hst : c'.editstate = e.editstate :=
        show (core c').editstate = (core e).editstate by rw [heq]
      exact hs.upright m c' hc' (hst.trans hedit)
  · rw [hlog, List.mem_append] at hmem
    exact hmem.elim (hs.wellformed cn) (not_mem_of_posted hpost cn)
  · obtain rfl : u = n := by
      by_contra hun
      rw [hother u hun, spectating_eq hc'] at hu
      exact hne (of_decide_eq_true hu)
    rw [hc] at hc'
    obtain rfl := Option.some.inj hc'
    refine ⟨fun m hm => ?_, ⟨d, hd, show (core d).timeplayed = _ by rw [hcore]; rfl⟩,
      fun hloc hpriv => ?_⟩
    · rw [h.rest] at hm
      obtain ⟨m', -, rfl⟩ := Option.map_eq_some_iff.mp hm
      exact sm.forgets m' u false
    · have hnil := h.released hs.ties hs.listed hloc hpriv
      exact ⟨hnil, fun b e he hle => hties.unowned hnil (hs.ties.nonneg u c hc) he hle⟩

/-- What went before, where it tells nobody anything. -/
theorem Moved.after {ok : Int → Int → Prop} (h : Moved sm ok t r) (hhush : Hushed s t) :
    Moved sm ok s r := by
  obtain ⟨hsame, -, -, hlog, hsince, hmillis⟩ := hhush
  have hconn : Same Attendee.connected s t := hsame.coarser Attendee.connected fun _ => rfl
  obtain ⟨new, hnew, hpost⟩ := h.told
  refine ⟨h.sane, hconn.trans h.connected, h.since.trans hsince, ⟨new, by rw [hnew, hlog], fun u => ?_⟩,
    fun u c hc hne hu => ?_⟩
  · rw [← hsame.spectating u]
    exact hpost u
  · obtain ⟨d, hd, heq⟩ := hsame.forth hc
    obtain ⟨hforget, ⟨e, he, htime⟩, hfree⟩ :=
      h.entered u d hd (fun hst => hne ((state_of_gist heq).mp hst)) hu
    have htp : d.timeplayed = c.timeplayed := show (gist d).timeplayed = (gist c).timeplayed by rw [heq]
    have hlt : d.lasttimeplayed = c.lasttimeplayed :=
      show (gist d).lasttimeplayed = (gist c).lasttimeplayed by rw [heq]
    have hloc : d.isLocal = c.isLocal := show (gist d).isLocal = (gist c).isLocal by rw [heq]
    have hpriv : d.privilege = c.privilege := show (gist d).privilege = (gist c).privilege by rw [heq]
    refine ⟨hforget, ⟨e, he, by rw [htime, htp, hlt, hmillis]⟩, fun h1 h2 => ?_⟩
    exact hfree (hloc.trans h1) (hpriv.trans h2)

/-- The lock of a client is set, or taken off. -/
theorem Moved.lock {ok : Int → Int → Prop} {locked : Bool} (h : Moved sm ok s t)
    (hspec : locked = true → t.spectating n = true) (hinfo : r.info = (t.lock n locked).info)
    (hclients : r.clients = t.clients) (hlog : r.log = t.log) (hsince : r.since = t.since)
    (hmode : r.smode = t.smode) : Moved sm ok s r := by
  have hsame : ∀ {β : Type} {p : Attendee → β}, (∀ c : Attendee, p { c with isSpecLocked := locked } = p c) →
      Same p t r := by
    intro β p hp m
    rw [hinfo]
    exact Same.upd hp t n m
  have hconn : Same Attendee.connected t r := hsame fun _ => rfl
  have hties : Same Gallery.ties t r := hsame fun _ => rfl
  have hst : ∀ u, r.spectating u = t.spectating u := fun u =>
    spectating_of_map (hsame (p := Attendee.state) (fun _ => rfl) u)
  obtain ⟨new, hnew, hpost⟩ := h.told
  refine ⟨⟨h.sane.ties.of_same hties, h.sane.listed.of_same hclients hconn, ?_, fun m d hd hlock => ?_,
    h.sane.upright.of_same (hsame fun _ => rfl), ?_⟩, h.connected.trans hconn, hsince.trans h.since, ⟨new, hlog.trans hnew, fun u => ?_⟩,
    fun u c hc hne hu => ?_⟩
  · rw [hlog, hsince]
    exact h.sane.since
  · rw [hinfo] at hd
    unfold Gallery.lock at hd
    rw [info_upd] at hd
    split at hd
    · next hm =>
      subst hm
      obtain ⟨c, hc, rfl⟩ := Option.map_eq_some_iff.mp hd
      obtain ⟨c', hc', hst'⟩ := spectating_iff.mp (hspec hlock)
      rw [hc] at hc'
      obtain rfl := Option.some.inj hc'
      exact hst'
    · exact h.sane.locked m d hd hlock
  · rw [hlog]
    exact h.sane.wellformed
  · rw [hst]
    exact hpost u
  · rw [hst] at hu
    obtain ⟨hforget, ⟨d, hd, htime⟩, hfree⟩ := h.entered u c hc hne hu
    obtain ⟨e, he, heq⟩ := (hsame (p := Attendee.timeplayed) fun _ => rfl).forth hd
    refine ⟨by rwa [hmode], ⟨e, he, heq.trans htime⟩, fun h1 h2 => ?_⟩
    obtain ⟨hnil, hfree⟩ := hfree h1 h2
    have hnil' : r.botsOf u = [] := by rw [hties.botsOf, hnil]
    refine ⟨hnil', fun b d hd hle => ?_⟩
    obtain ⟨d', hd', heq⟩ := hties.back hd
    have hown : d.ownernum = d'.ownernum := congrArg (fun x => x.2.2.1) heq
    rw [hown]
    exact hfree b d' hd' hle

/-- A client who stops spectating and is not locked any more. -/
theorem Moved.of_unspectate (hs : s.Sane) {f : Attendee → Attendee}
    (hf : ∀ c, s.info n = some c → f c = { c.respawn with
      state := .dead, lasttimeplayed := s.lastmillis, isSpecLocked := false })
    (hinfo : t.info = (s.upd n f).info) (hclients : t.clients = s.clients)
    (hlog : t.log = s.log ++ [.spectator n 0 (-1)]) (hsince : t.since = s.since) :
    Moved sm Plain s t := by
  have hself : ∀ d, t.info n = some d → ∃ c, s.info n = some c ∧ d = { c.respawn with
      state := .dead, lasttimeplayed := s.lastmillis, isSpecLocked := false } := by
    intro d hd
    rw [hinfo, info_upd, if_pos rfl] at hd
    obtain ⟨c, hc, rfl⟩ := Option.map_eq_some_iff.mp hd
    exact ⟨c, hc, hf c hc⟩
  have hother : ∀ m, m ≠ n → t.info m = s.info m := by
    intro m hm
    rw [hinfo, info_upd, if_neg hm]
  have hsame : ∀ {β : Type} {p : Attendee → β}, (∀ c : Attendee, p { c.respawn with
      state := .dead, lasttimeplayed := s.lastmillis, isSpecLocked := false } = p c) → Same p s t := by
    intro β p hp m
    by_cases hm : m = n
    · subst hm
      rw [hinfo, info_upd, if_pos rfl]
      cases hc : s.info m with
      | none => rfl
      | some c => simpa [hf c hc] using hp c
    · rw [hother m hm]
  have hconn : Same Attendee.connected s t := hsame fun _ => rfl
  have hspec : t.spectating n = false := by
    rw [← Bool.not_eq_true, spectating_iff]
    rintro ⟨d, hd, hst⟩
    obtain ⟨c, -, rfl⟩ := hself d hd
    cases hst
  have hspecs : ∀ u, u ≠ n → t.spectating u = s.spectating u := by
    intro u hu
    refine spectating_of_map ?_
    rw [hother u hu]
  have hpost : ∀ u, Posted (about u) (Says Plain u) (s.spectating u) (t.spectating u)
      [.spectator n 0 (-1)] := by
    intro u
    by_cases hu : u = n
    · subst hu
      exact .inr ⟨_, by simp [about], 0, rfl, by rw [hspec]; rfl, .inl rfl⟩
    · rw [hspecs u hu]
      exact .of_filter (by simp [about, Ne.symm hu])
  refine ⟨⟨hs.ties.of_same (hsame fun _ => rfl), hs.listed.of_same hclients hconn, fun m => ?_,
    fun m d hd hlock => ?_, hs.upright.of_same (hsame fun _ => rfl), fun cn hmem => ?_⟩, hconn,
    hsince, ⟨_, hlog, hpost⟩, fun u c hc hne hu => ?_⟩
  · rw [hlog, hsince]
    exact (hs.since m).trans (by simp)
  · by_cases hm : m = n
    · subst hm
      obtain ⟨c, -, rfl⟩ := hself d hd
      cases hlock
    · rw [hother m hm] at hd
      exact hs.locked m d hd hlock
  · rw [hlog, List.mem_append] at hmem
    exact hmem.elim (hs.wellformed cn) (not_mem_of_posted hpost cn)
  · by_cases hun : u = n
    · rw [hun, hspec] at hu
      cases hu
    · rw [hspecs u hun, spectating_eq hc] at hu
      exact absurd (of_decide_eq_true hu) hne

end Gallery
end QServ
