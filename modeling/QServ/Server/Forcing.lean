import QServ.Server.Handover

/-!
# Forced into spectating

What `forcespectator` and `checkmaps` do, said once.

* `about`: the notices that concern a client.
* `Forced`, `forced_forcespectator`: the whole effect of `forcespectator`.
* `Swept`: what any number of forced and locked clients amounts to, with `Swept.trans`;
  `swept_checkmaps`.
-/

namespace QServ

/-- The record of a client who becomes a spectator. -/
def Attendee.seated (c : Attendee) (lastmillis : Int) : Attendee :=
  { c with state := .spectator }.addtime lastmillis

/-- The notices that may change what is believed about `u`. -/
def about (u : Int) : Notice → Bool
  | .spectator cn _ _ => cn = u
  | .spectator2 cn => cn = u
  | .cdis cn => cn = u
  | .resume cn _ => cn = u
  | .welcome .. => true

theorem hear_skip {v u : Int} (b : Bool) (m : Notice) (h : about u m = false) :
    hear v u b m = b := by
  cases m with
  | welcome cn sp l => cases h
  | _ =>
    unfold about at h
    simp [hear, of_decide_eq_false h]

namespace Gallery

variable {M : Type} {sm : ServMode M} {s t r : Gallery M} {n u : Int} {c : Attendee}

theorem spectating_def (s : Gallery M) (u : Int) :
    s.spectating u = decide ((s.info u).map Attendee.state = some .spectator) := by
  unfold spectating
  cases s.info u <;> simp

theorem spectating_of_map (h : (t.info u).map Attendee.state = (s.info u).map Attendee.state) :
    t.spectating u = s.spectating u := by
  rw [spectating_def, spectating_def, h]

theorem spectating_eq (hc : s.info n = some c) : s.spectating n = decide (c.state = .spectator) := by
  rw [spectating, hc]
  rfl

theorem spectating_iff : s.spectating n = true ↔ ∃ c, s.info n = some c ∧ c.state = .spectator := by
  unfold spectating
  cases s.info n <;> simp

/-! ## One client -/

/-- **What `forcespectator` does**: the client sits among the spectators with his playing time
brought up to date, the game mode has let him go, one notice says so, and of the others nothing
changes but who owns which bot. -/
structure Forced (sm : ServMode M) (n val : Int) (c : Attendee) (s t : Gallery M) : Prop where
  self : (t.info n).map core = some (core (c.seated s.lastmillis))
  other : ∀ m, m ≠ n → (t.info m).map core = (s.info m).map core
  rest : t = { s with
    info := t.info
    smode := s.smode.map fun m => sm.leavegame m n false
    log := s.log ++ [.spectator n val (-1)] }
  ties : s.Ties → s.Listed → t.Ties
  released : s.Ties → s.Listed → c.isLocal = false → c.privilege = .none → t.botsOf n = []
  nobots : s.Ties → s.Listed → ∀ m, m ≠ n → ¬s.Eligible m → s.botsOf m = [] → t.botsOf m = []

/-- The state in which `forcespectator` comes to the bots. -/
def seat (sm : ServMode M) (s : Gallery M) (n : Int) : Gallery M :=
  (s.call fun m => sm.leavegame m n false).upd n fun c => c.seated s.lastmillis

theorem info_seat (hc : s.info n = some c) :
    (seat sm s n).info n = some (c.seated s.lastmillis) := by
  unfold seat
  rw [info_upd, if_pos rfl, info_call, hc]
  rfl

theorem info_seat_ne {m : Int} (hne : m ≠ n) : (seat sm s n).info m = s.info m := by
  unfold seat
  rw [info_upd, if_neg hne, info_call]

theorem same_seat : Same ties s (seat sm s n) :=
  (Same.of_eq (info_call s _)).trans (.upd (by intro c; rfl) _ n)

theorem forcespectator_eq (hc : s.info n = some c) :
    s.forcespectator sm n =
      (if !c.isLocal && (decide (c.privilege = .none) || c.warned) then (seat sm s n).removeai n
        else seat sm s n).send (.spectator n 1 (-1)) := by
  unfold forcespectator
  rw [hc]
  rfl

/-- The bots of a seated client are given away, or not. -/
theorem forced_of_handover {val : Int} (hc : s.info n = some c) (hh : Handover (seat sm s n) t)
    (hties : s.Ties → s.Listed → t.Ties)
    (hreleased : s.Ties → s.Listed → c.isLocal = false → c.privilege = .none → t.botsOf n = [])
    (hnobots : s.Ties → s.Listed → ∀ m, m ≠ n → ¬s.Eligible m → s.botsOf m = [] →
      t.botsOf m = []) : Forced sm n val c s (t.send (.spectator n val (-1))) := by
  refine ⟨?_, fun m hne => ?_, ?_, fun h hl => (hties h hl).of_same (.of_eq rfl), hreleased, hnobots⟩
  · rw [info_send, hh.same n, info_seat hc]
    rfl
  · rw [info_send, hh.same m, info_seat_ne hne]
  · conv_lhs => rw [hh.rest]
    rfl

theorem listed_seat (hl : s.Listed) : (seat sm s n).Listed :=
  hl.of_same rfl (same_seat.coarser Prod.fst fun _ => rfl)

/-- The bots are given away on a condition that every client without a privilege meets. -/
theorem forced_seat {val : Int} {give : Bool} (hc : s.info n = some c)
    (hgive : c.isLocal = false → c.privilege = .none → give = true) :
    Forced sm n val c s
      ((if give then (seat sm s n).removeai n else seat sm s n).send (.spectator n val (-1))) := by
  have hties : s.Ties → (seat sm s n).Ties := fun h => h.of_same same_seat
  have hbots : ∀ m, (seat sm s n).botsOf m = s.botsOf m := same_seat.botsOf
  by_cases hg : give = true
  · rw [if_pos hg]
    refine forced_of_handover hc (handover_removeai _ n)
      (fun h hl => (hties h).removeai (listed_seat hl).enrolled n)
      (fun h hl _ _ => (hties h).released (listed_seat hl).enrolled n)
      fun h hl m hne hm hnil =>
        (hties h).botsOf_removeai (listed_seat hl).enrolled n ?_ (by rw [hbots, hnil])
    rintro ⟨d, hd, hvalid⟩
    rw [info_seat_ne hne] at hd
    exact hm ⟨d, hd, hvalid⟩
  · rw [if_neg hg]
    exact forced_of_handover hc (.refl _) (fun h _ => hties h)
      (fun _ _ hloc hpriv => absurd (hgive hloc hpriv) hg) fun _ _ m _ _ hnil => by rw [hbots, hnil]

theorem forced_forcespectator (hc : s.info n = some c) :
    Forced sm n 1 c s (s.forcespectator sm n) := by
  rw [forcespectator_eq hc]
  exact forced_seat hc fun hloc hpriv => by simp [hloc, hpriv]

/-! ## Any number of clients -/

/-- What of a record tells whether, since when and why its client spectates. -/
def gist (c : Attendee) : Attendee :=
  { c with
    ownernum := 0, bots := [], lifesequence := 0, lastspawn := 0
    state := if c.state = .spectator then .spectator else .dead
    editstate := if c.editstate = .spectator then .spectator else .dead
    warned := false, clientmap := "", mapcrc := 0 }

theorem state_of_gist {c d : Attendee} (h : gist d = gist c) :
    d.state = .spectator ↔ c.state = .spectator := by
  have hst : (gist d).state = (gist c).state := by rw [h]
  unfold gist at hst
  by_cases hc : c.state = .spectator <;> by_cases hd : d.state = .spectator <;>
    simp_all

theorem editstate_of_gist {c d : Attendee} (h : gist d = gist c) :
    d.editstate = .spectator ↔ c.editstate = .spectator := by
  have hst : (gist d).editstate = (gist c).editstate := by rw [h]
  unfold gist at hst
  by_cases hc : c.editstate = .spectator <;> by_cases hd : d.editstate = .spectator <;>
    simp_all

theorem Same.spectating (h : Same gist s t) (u : Int) : t.spectating u = s.spectating u := by
  rw [Bool.eq_iff_iff, spectating_iff, spectating_iff]
  constructor
  · rintro ⟨d, hd, hst⟩
    obtain ⟨c, hc, heq⟩ := h.back hd
    exact ⟨c, hc, (state_of_gist heq).mp hst⟩
  · rintro ⟨c, hc, hst⟩
    obtain ⟨d, hd, heq⟩ := h.forth hc
    exact ⟨d, hd, (state_of_gist heq).mpr hst⟩

/-- **What forcing and locking comes to**, of any number of clients: a record stays as it is, or its
client becomes a spectator and is locked, and one notice says so; the game mode lets him go, and
his bots are released if he has no privilege. -/
structure Swept (sm : ServMode M) (s t : Gallery M) : Prop where
  record : ∀ n, (t.info n).map gist = (s.info n).map gist ∨
    ∃ c, s.info n = some c ∧ c.state ≠ .spectator ∧
      (t.info n).map gist = some (gist { c.seated s.lastmillis with isSpecLocked := true })
  rest : t = { s with info := t.info, smode := t.smode, log := t.log }
  ties : s.Ties → s.Listed → t.Ties
  told : ∃ new, t.log = s.log ++ new ∧ ∀ u, new.filter (about u) =
    if s.spectating u = t.spectating u then [] else [.spectator u 1 (-1)]
  keeps : ∀ u, (∀ m ∈ s.smode, ¬sm.Holds m u) → ∀ m ∈ t.smode, ¬sm.Holds m u
  forgets : ∀ u, s.spectating u ≠ t.spectating u → ∀ m ∈ t.smode, ¬sm.Holds m u
  released : s.Ties → s.Listed → ∀ u c, s.info u = some c → t.spectating u = true →
    c.isLocal = false → c.privilege = .none → (c.state = .spectator → s.botsOf u = []) →
    t.botsOf u = []

namespace Swept

theorem connected (h : Swept sm s t) : Same Attendee.connected s t := by
  intro n
  rcases h.record n with hsame | ⟨c, hc, -, hseat⟩
  · have hconn := congrArg (Option.map Attendee.connected) hsame
    rw [Option.map_map, Option.map_map] at hconn
    exact hconn
  · have hconn := congrArg (Option.map Attendee.connected) hseat
    rw [Option.map_map] at hconn
    rw [hc]
    exact hconn

theorem listed (h : Swept sm s t) (hl : s.Listed) : t.Listed :=
  hl.of_same (by rw [h.rest]) h.connected

/-- The record of a client afterwards. -/
theorem forth (h : Swept sm s t) (hc : s.info n = some c) : ∃ d, t.info n = some d ∧
    (gist d = gist c ∨ c.state ≠ .spectator ∧
      gist d = gist { c.seated s.lastmillis with isSpecLocked := true }) := by
  rcases h.record n with hsame | ⟨c', hc', hne, hseat⟩
  · rw [hc] at hsame
    obtain ⟨d, hd, heq⟩ := Option.map_eq_some_iff.mp hsame
    exact ⟨d, hd, .inl heq⟩
  · rw [hc] at hc'
    obtain rfl := Option.some.inj hc'
    obtain ⟨d, hd, heq⟩ := Option.map_eq_some_iff.mp hseat
    exact ⟨d, hd, .inr ⟨hne, heq⟩⟩

/-- The record of a client before. -/
theorem back (h : Swept sm s t) {d : Attendee} (hd : t.info n = some d) :
    ∃ c, s.info n = some c ∧ (gist d = gist c ∨ c.state ≠ .spectator ∧
      gist d = gist { c.seated s.lastmillis with isSpecLocked := true }) := by
  rcases h.record n with hsame | ⟨c, hc, hne, hseat⟩
  · rw [hd] at hsame
    obtain ⟨c, hc, heq⟩ := Option.map_eq_some_iff.mp hsame.symm
    exact ⟨c, hc, .inl heq.symm⟩
  · rw [hd] at hseat
    exact ⟨c, hc, .inr ⟨hne, Option.some.inj hseat⟩⟩

/-- Nobody stops spectating. -/
theorem spectating (h : Swept sm s t) (hu : s.spectating u = true) : t.spectating u = true := by
  obtain ⟨c, hc, hst⟩ := spectating_iff.mp hu
  obtain ⟨d, hd, heq | ⟨hne, -⟩⟩ := h.forth hc
  · exact spectating_iff.mpr ⟨d, hd, (state_of_gist heq).mpr hst⟩
  · exact absurd hst hne

theorem refl (s : Gallery M) : Swept sm s s := by
  refine ⟨fun _ => .inl rfl, rfl, fun h _ => h, ⟨[], by rw [List.append_nil], fun u => ?_⟩,
    fun _ h => h, fun _ h => absurd rfl h, ?_⟩
  · rw [if_pos rfl]
    rfl
  · intro _ _ u c hc hu _ _ hnil
    rw [spectating_eq hc] at hu
    exact hnil (of_decide_eq_true hu)

theorem trans (h : Swept sm s t) (h' : Swept sm t r) : Swept sm s r := by
  have hmillis : t.lastmillis = s.lastmillis := by rw [h.rest]
  refine ⟨fun n => ?_, ?_, fun hs hl => h'.ties (h.ties hs hl) (h.listed hl), ?_,
    fun u hu => h'.keeps u (h.keeps u hu), fun u hu => ?_, ?_⟩
  · rcases h'.record n with hsame' | ⟨d, hd, hne, hseat⟩
    · rcases h.record n with hsame | ⟨c, hc, hne, hseat⟩
      · exact .inl (hsame'.trans hsame)
      · exact .inr ⟨c, hc, hne, hsame'.trans hseat⟩
    · obtain ⟨c, hc, heq | ⟨-, heq⟩⟩ := h.back hd
      · refine .inr ⟨c, hc, fun h => hne ((state_of_gist heq).mpr h), hseat.trans ?_⟩
        rw [hmillis]
        have hgist : ∀ x : Attendee, gist { x.seated s.lastmillis with isSpecLocked := true } =
            gist { (gist x).seated s.lastmillis with isSpecLocked := true } := by
          intro x
          by_cases hx : x.editstate = .spectator <;>
            simp [gist, Attendee.seated, Attendee.addtime, hx]
        rw [hgist d, hgist c, heq]
      · exact absurd ((state_of_gist heq).mpr rfl) hne
  · rw [h'.rest, h.rest]
  · obtain ⟨new, hlog, hnew⟩ := h.told
    obtain ⟨new', hlog', hnew'⟩ := h'.told
    refine ⟨new ++ new', by rw [hlog', hlog, List.append_assoc], fun u => ?_⟩
    rw [List.filter_append, hnew, hnew']
    have hup := h.spectating (u := u)
    have hup' := h'.spectating (u := u)
    cases hs : s.spectating u <;> cases ht : t.spectating u <;> cases hr : r.spectating u <;>
      simp_all
  · by_cases ht : s.spectating u = t.spectating u
    · exact h'.forgets u (ht ▸ hu)
    · exact h'.keeps u (h.forgets u ht)
  · intro hs hl u c hc hu hloc hpriv hnil
    obtain ⟨d, hd, heq⟩ := h.forth hc
    have hkeep : d.isLocal = c.isLocal ∧ d.privilege = c.privilege := by
      rcases heq with heq | ⟨-, heq⟩ <;>
        exact ⟨(congrArg Attendee.isLocal heq :), (congrArg Attendee.privilege heq :)⟩
    refine h'.released (h.ties hs hl) (h.listed hl) u d hd hu (hkeep.1.trans hloc)
      (hkeep.2.trans hpriv) fun hst => ?_
    exact h.released hs hl u c hc (spectating_iff.mpr ⟨d, hd, hst⟩) hloc hpriv hnil

theorem foldl {α : Type} {body : Gallery M → α → Gallery M} (h : ∀ s a, Swept sm s (body s a))
    (l : List α) (s : Gallery M) : Swept sm s (l.foldl body s) := by
  induction l generalizing s with
  | nil => exact .refl s
  | cons a l ih => exact (h s a).trans (ih _)

/-- Nobody becomes a spectator. -/
theorem of_gist (hsame : Same gist s t) (hties : Same Gallery.ties s t)
    (hrest : t = { s with info := t.info }) : Swept sm s t := by
  have hspec : ∀ u, t.spectating u = s.spectating u := hsame.spectating
  have hmode : t.smode = s.smode := by rw [hrest]
  refine ⟨fun n => .inl (hsame n), ?_, fun hs _ => hs.of_same hties,
    ⟨[], by rw [hrest, List.append_nil], fun u => ?_⟩, fun u hu => by rwa [hmode],
    fun u hu => absurd (hspec u).symm hu, ?_⟩
  · conv_lhs => rw [hrest]
    rw [hmode, show t.log = s.log by rw [hrest]]
  · rw [if_pos (hspec u).symm]
    rfl
  · intro _ _ u c hc hu _ _ hnil
    rw [hspec, spectating_eq hc] at hu
    rw [hties.botsOf]
    exact hnil (of_decide_eq_true hu)

end Swept

/-- One client is forced and locked. -/
theorem swept_force (hc : s.info n = some c) (hne : c.state ≠ .spectator) :
    Swept sm s ((s.forcespectator sm n).lock n true) := by
  have h : Forced sm n 1 c s _ := forced_forcespectator hc
  obtain ⟨d, hd, hcore⟩ := Option.map_eq_some_iff.mp h.self
  have hinfo : ((s.forcespectator sm n).lock n true).info n =
      some { d with isSpecLocked := true } := by
    unfold lock
    rw [info_upd, if_pos rfl, hd]
    rfl
  have hother : ∀ m, m ≠ n → ((s.forcespectator sm n).lock n true).info m =
      (s.forcespectator sm n).info m := by
    intro m hm
    unfold lock
    rw [info_upd, if_neg hm]
  have hspec : ∀ u, u ≠ n →
      ((s.forcespectator sm n).lock n true).spectating u = s.spectating u := by
    intro u hu
    refine spectating_of_map ?_
    rw [hother u hu]
    have := congrArg (Option.map Attendee.state) (h.other u hu)
    rw [Option.map_map, Option.map_map] at this
    exact this
  have hself : ((s.forcespectator sm n).lock n true).spectating n = true := by
    rw [spectating_eq hinfo]
    exact decide_eq_true (congrArg Attendee.state hcore)
  have hnot : s.spectating n = false := by
    rw [spectating_eq hc]
    exact decide_eq_false hne
  have hbots : Same Gallery.ties (s.forcespectator sm n) ((s.forcespectator sm n).lock n true) :=
    .upd (by intro c; rfl) _ n
  have hmode : (s.forcespectator sm n).smode = s.smode.map fun m => sm.leavegame m n false := by
    rw [h.rest]
  have hlog : (s.forcespectator sm n).log = s.log ++ [.spectator n 1 (-1)] := by rw [h.rest]
  refine ⟨fun m => ?_, ?_, fun hs hl => (h.ties hs hl).of_same hbots, ⟨[.spectator n 1 (-1)], ?_,
    fun u => ?_⟩, fun u hu m hm => ?_, fun u hu m hm => ?_, ?_⟩
  · by_cases hm : m = n
    · subst hm
      refine .inr ⟨c, hc, hne, ?_⟩
      rw [hinfo]
      have hgist : ∀ x : Attendee, gist { x with isSpecLocked := true } =
          gist { core x with isSpecLocked := true } := fun _ => rfl
      show some (gist { d with isSpecLocked := true }) = _
      rw [hgist, hcore, ← hgist]
    · left
      rw [hother m hm]
      have := congrArg (Option.map gist) (h.other m hm)
      rw [Option.map_map, Option.map_map] at this
      exact this
  · rw [show ((s.forcespectator sm n).lock n true).smode = _ from hmode,
      show ((s.forcespectator sm n).lock n true).log = _ from hlog]
    conv_lhs => rw [h.rest]
    rfl
  · exact hlog
  · by_cases hu : u = n
    · subst hu
      rw [hnot, hself, if_neg (by decide)]
      simp [about]
    · rw [hspec u hu, if_pos rfl]
      simp [about, Ne.symm hu]
  · change m ∈ (s.forcespectator sm n).smode at hm
    rw [hmode] at hm
    obtain ⟨m', hm', rfl⟩ := Option.map_eq_some_iff.mp hm
    exact fun hholds => hu m' hm' (sm.takes_none m' n false u hholds)
  · obtain rfl : u = n := by
      by_contra hne
      exact hu (hspec u hne).symm
    change m ∈ (s.forcespectator sm u).smode at hm
    rw [hmode] at hm
    obtain ⟨m', -, rfl⟩ := Option.map_eq_some_iff.mp hm
    exact sm.forgets m' u false
  · intro hs hl u c' hc' hu hloc hpriv hnil
    rw [hbots.botsOf]
    by_cases hun : u = n
    · subst hun
      rw [hc] at hc'
      obtain rfl := Option.some.inj hc'
      exact h.released hs hl hloc hpriv
    · rw [hspec u hun, spectating_eq hc'] at hu
      have hst : c'.state = .spectator := of_decide_eq_true hu
      refine h.nobots hs hl u hun ?_ (hnil hst)
      rintro ⟨e, he, hvalid⟩
      rw [hc'] at he
      obtain rfl := Option.some.inj he
      simp [Attendee.validaiclient, hst, hloc, hpriv] at hvalid

theorem swept_specmodified (s : Gallery M) (n : Int) : Swept sm s (s.specmodified sm n) := by
  unfold specmodified
  split
  · exact .refl s
  · next c hc =>
    split
    · next h => exact swept_force hc h.2.2
    · exact .refl s

theorem swept_warn (s : Gallery M) : Swept sm s s.warn := by
  unfold warn
  refine Swept.foldl (fun t n => .of_gist (.upd (fun c => ?_) t n) (.upd (fun c => ?_) t n) rfl) _ s
  · split <;> rfl
  · split <;> rfl

/-- **`checkmaps` forces and locks.** -/
theorem swept_checkmaps (s : Gallery M) : Swept sm s (s.checkmaps sm) := by
  unfold checkmaps
  split
  · exact .refl s
  · simp only
    split
    · exact (swept_warn s).trans (.foldl swept_specmodified _ _)
    · exact swept_warn s

end Gallery
end QServ
