import QServ.Server.Announced

/-!
# Coming and going

What it does to those who spectate that somebody connects, joins, leaves, or that a bot does.

* `Visit`: a step that concerns one client, `Visit.views`: what the others know of the others.
* `Ties.newinfo`, `Ties.free`: a record is made, or freed.
* `Told`: what every step promises; `told_connect`, `told_join`, `told_disconnect`, ...
-/

namespace QServ
namespace Gallery

open Bulletin

variable {M : Type} {sm : ServMode M} {s t r : Gallery M} {n u bot : Int} {c : Attendee}
  {owner : Option Int} {e : SpecEvent M}

/-- **What a step promises.** -/
structure Told (sm : ServMode M) (s : Gallery M) (e : SpecEvent M) (t : Gallery M) : Prop where
  sane : t.Sane
  announced : Announced s e t
  entered : ∀ u c, s.info u = some c → c.connected = true → c.state ≠ .spectator →
    t.spectating u = true → Entered sm s c u t
  views : s.Views → Stays s e → t.Views

theorem Moved.told_of {ok : Int → Int → Prop} (h : Moved sm ok s t) (hs : s.Sane)
    (hok : ∀ u val, ok u val → Value e u val) : Told sm s e t :=
  ⟨h.sane, h.announced hok, fun u c hc _ hne hu => h.entered u c hc hne hu, fun hv _ => h.views hs hv⟩

theorem plain_value {u val : Int} (h : Plain u val) : Value e u val :=
  h.imp id .inl

/-! ## A visit -/

/-- A step that concerns the client `n` and tells nobody of the others. -/
structure Visit (n : Int) (new : List Notice) (s t : Gallery M) : Prop where
  log : t.log = s.log ++ new
  since : ∀ v, v ≠ n → t.since v = s.since v
  spectating : ∀ u, u ≠ n → t.spectating u = s.spectating u
  joined : ∀ u, u ≠ n → (t.Joined u ↔ s.Joined u)
  skip : ∀ m ∈ new, ∀ v u b, v ≠ n → u ≠ n → hear v u b m = b

theorem foldl_hear {new : List Notice} {v u : Int} (h : ∀ m ∈ new, ∀ b, hear v u b m = b) (b : Bool) :
    new.foldl (hear v u) b = b := by
  induction new generalizing b with
  | nil => rfl
  | cons m new ih =>
    rw [List.foldl_cons, h m List.mem_cons_self]
    exact ih (fun m hm => h m (List.mem_cons_of_mem _ hm)) b

/-- What the others know. -/
theorem Visit.view {new : List Notice} (h : Visit n new s t) (hs : s.Sane) {v : Int} (hv : v ≠ n)
    (u : Int) : t.view v u = new.foldl (hear v u) (s.view v u) := by
  unfold Gallery.view
  rw [h.log, h.since v hv, heard_append (hs.since v)]

theorem Visit.views {new : List Notice} (h : Visit n new s t) (hs : s.Sane) (hv : s.Views)
    (hself : ¬t.Lurks n → ∀ v, s.Joined v → v < MAXCLIENTS → v ≠ n →
      new.foldl (hear v n) (s.view v n) = t.spectating n)
    (hown : t.Joined n → n < MAXCLIENTS → ∀ u, ¬t.Lurks u → t.view n u = t.spectating u) :
    t.Views := by
  intro v hj hlt u hu
  by_cases hvn : v = n
  · subst hvn
    exact hown hj hlt u hu
  · have hj := (h.joined v hvn).mp hj
    rw [h.view hs hvn]
    by_cases hun : u = n
    · subst hun
      exact hself hu v hj hlt hvn
    · rw [foldl_hear fun m hm b => h.skip m hm v u b hvn hun, h.spectating u hun]
      refine hv v hj hlt u fun hl => hu ?_
      rw [lurks_iff] at hl ⊢
      rwa [h.joined u hun, h.spectating u hun]

theorem Visit.announced {new : List Notice} (h : Visit n new s t)
    (hself : (t.info n).isSome → s.spectating n ≠ t.spectating n →
      ∃ val, t.spectating n = decide (val ≠ 0) ∧ Value e n val ∧
        (new.filter (specs n) = [.spectator n val (-1)] ∨
          ∃ restored others, e = .join n restored ∧ new.filter (specs n) = [.spectator n val n] ∧
            .welcome n true others ∈ new)) : Announced s e t := by
  refine ⟨new, h.log, fun u hu hne => ?_⟩
  by_cases hun : u = n
  · subst hun
    exact hself hu hne
  · exact absurd (h.spectating u hun).symm hne

/-- Whom a visit makes a spectator is the visitor. -/
theorem Visit.entered {new : List Notice} (h : Visit n new s t)
    (hself : ∀ c, s.info n = some c → c.connected = true → c.state ≠ .spectator →
      t.spectating n = false) {u : Int} (hc : s.info u = some c) (hconn : c.connected = true)
    (hne : c.state ≠ .spectator) (hu : t.spectating u = true) : Entered sm s c u t := by
  by_cases hun : u = n
  · subst hun
    rw [hself c hc hconn hne] at hu
    cases hu
  · rw [h.spectating u hun, spectating_eq hc] at hu
    exact absurd (of_decide_eq_true hu) hne

theorem not_joined_of_none (h : s.info n = none) : ¬s.Joined n := by
  rw [joined_iff]
  rintro ⟨c, hc, -⟩
  rw [h] at hc
  cases hc

theorem spectating_of_none (h : s.info n = none) : s.spectating n = false := by
  rw [spectating, h]
  rfl

theorem joined_congr (h : t.info n = s.info n) : t.Joined n ↔ s.Joined n := by
  rw [joined_iff, joined_iff, h]

theorem joined_eq (hc : s.info n = some c) : s.Joined n ↔ c.connected = true := by
  rw [joined_iff, hc]
  simp

/-! ## Records that are made and freed -/

theorem info_newinfo (s : Gallery M) (n m : Int) (c : Attendee) :
    (s.newinfo n c).info m = if m = n then some c else s.info m :=
  rfl

theorem info_free (s : Gallery M) (n m : Int) :
    (s.free n).info m = if m = n then none else s.info m :=
  rfl

/-- A new record owns no bots and has no owner. -/
theorem Ties.newinfo (h : s.Ties) (hnone : s.info n = none) (hpos : 0 ≤ n) (hbots : c.bots = [])
    (hai : c.aitype = .human ↔ n < MAXCLIENTS) (hown : MAXCLIENTS ≤ n → c.ownernum < 0)
    (hinfo : t.info = (s.newinfo n c).info) : t.Ties := by
  have hself : t.info n = some c := by rw [hinfo, info_newinfo, if_pos rfl]
  have hother : ∀ m, m ≠ n → t.info m = s.info m := fun m hm => by rw [hinfo, info_newinfo, if_neg hm]
  have hsome : ∀ m d, s.info m = some d → m ≠ n := by
    rintro m d hd rfl
    rw [hnone] at hd
    cases hd
  have hkeep : ∀ m, m ≠ n → t.botsOf m = s.botsOf m := fun m hm => by
    rw [botsOf, hother m hm, ← botsOf]
  refine ⟨fun m d hd => ?_, fun m d hd => ?_, fun m b hb => ?_, fun b d hd hle hge => ?_⟩
  · by_cases hm : m = n
    · exact hm ▸ hpos
    · exact h.nonneg m d (hother m hm ▸ hd)
  · by_cases hm : m = n
    · subst hm
      rw [hself] at hd
      exact Option.some.inj hd ▸ hai
    · exact h.human m d (hother m hm ▸ hd)
  · by_cases hm : m = n
    · subst hm
      rw [botsOf_eq hself, hbots] at hb
      exact absurd hb List.not_mem_nil
    · rw [hkeep m hm] at hb
      obtain ⟨hle, d, hd, how⟩ := h.owned m b hb
      exact ⟨hle, d, (hother b (hsome b d hd)).trans hd, how⟩
  · by_cases hb : b = n
    · subst hb
      rw [hself] at hd
      obtain rfl := Option.some.inj hd
      exact absurd hge (not_le.mpr (hown hle))
    · obtain ⟨hmem, ho⟩ := h.tied b d (hother b hb ▸ hd) hle hge
      obtain ⟨o, hinf, hconn⟩ := owner_some.mp ho
      have hne := hsome _ o hinf
      exact ⟨by rwa [hkeep _ hne], owner_some.mpr ⟨o, (hother _ hne).trans hinf, hconn⟩⟩

/-- The record of somebody is freed who owns no bot and is owned by nobody. -/
theorem Ties.free (h : s.Ties) (hnil : s.botsOf n = []) (hown : ∀ m, n ∉ s.botsOf m)
    (hinfo : t.info = (s.free n).info) : t.Ties := by
  have hself : t.info n = none := by rw [hinfo, info_free, if_pos rfl]
  have hother : ∀ m, m ≠ n → t.info m = s.info m := fun m hm => by
    rw [hinfo, info_free, if_neg hm]
  have hsome : ∀ {m d}, t.info m = some d → s.info m = some d := by
    intro m d hd
    by_cases hm : m = n
    · subst hm
      rw [hself] at hd
      cases hd
    · exact hother m hm ▸ hd
  have hkeep : ∀ m, m ≠ n → t.botsOf m = s.botsOf m := fun m hm => by
    rw [botsOf, hother m hm, ← botsOf]
  refine ⟨fun m d hd => h.nonneg m d (hsome hd), fun m d hd => h.human m d (hsome hd),
    fun m b hb => ?_, fun b d hd hle hge => ?_⟩
  · by_cases hm : m = n
    · subst hm
      rw [botsOf, hself] at hb
      exact absurd hb List.not_mem_nil
    · rw [hkeep m hm] at hb
      obtain ⟨hle, d, hd, how⟩ := h.owned m b hb
      have hbn : b ≠ n := fun h' => hown m (h' ▸ hb)
      exact ⟨hle, d, (hother b hbn).trans hd, how⟩
  · obtain ⟨hmem, ho⟩ := h.tied b d (hsome hd) hle hge
    obtain ⟨o, hinf, hconn⟩ := owner_some.mp ho
    have hne : d.ownernum ≠ n := by
      intro heq
      rw [heq, hnil] at hmem
      exact absurd hmem List.not_mem_nil
    exact ⟨by rwa [hkeep _ hne], owner_some.mpr ⟨o, (hother _ hne).trans hinf, hconn⟩⟩

/-- Bots own no bots, nor does who has not connected. -/
theorem Ties.botsOf_nil (h : s.Ties) (hnot : ¬s.Owner (some n)) : s.botsOf n = [] := by
  by_contra hne
  obtain ⟨b, hb⟩ := List.exists_mem_of_ne_nil _ hne
  obtain ⟨hle, d, hd, rfl⟩ := h.owned n b hb
  have hpos : 0 ≤ d.ownernum := by
    by_contra hneg
    unfold botsOf at hb
    cases hc : s.info d.ownernum with
    | none => rw [hc] at hb; cases hb
    | some c => exact hneg (h.nonneg _ c hc)
  exact hnot (h.tied b d hd hle hpos).2

theorem Ties.not_owned (h : s.Ties) (hlt : n < MAXCLIENTS) (m : Int) : n ∉ s.botsOf m :=
  fun hmem => absurd (h.owned m n hmem).1 (not_le.mpr hlt)

/-! ## Somebody connects -/

/-- A client gets his record; he may be put among the spectators at once. -/
theorem told_newinfo (hs : s.Sane) (hnone : s.info n = none) (hpos : 0 ≤ n) (hlt : n < MAXCLIENTS)
    (hconn : c.connected = false) (hbots : c.bots = []) (hhum : c.aitype = .human)
    (hedit : c.editstate = .dead) (hlock : c.isSpecLocked = true → c.state = .spectator)
    (hinfo : t.info = (s.newinfo n c).info) (hclients : t.clients = s.clients)
    (hsince : t.since = s.since)
    (hlog : t.log = s.log ++ if c.state = .spectator then [.spectator n 1 (-1)] else []) :
    Told sm s e t := by
  have hself : t.info n = some c := by rw [hinfo, info_newinfo, if_pos rfl]
  have hother : ∀ m, m ≠ n → t.info m = s.info m := fun m hm => by rw [hinfo, info_newinfo, if_neg hm]
  have hspec : t.spectating n = decide (c.state = .spectator) := spectating_eq hself
  have hvisit : Visit n (if c.state = .spectator then [.spectator n 1 (-1)] else []) s t := by
    refine ⟨hlog, fun _ _ => by rw [hsince], fun u hu => ?_, fun u hu => joined_congr (hother u hu),
      fun m hm v u b _ hu => ?_⟩
    · exact spectating_of_map (by rw [hother u hu])
    · split at hm
      · obtain rfl := List.mem_singleton.mp hm
        simp [hear, Ne.symm hu]
      · cases hm
  refine ⟨⟨hs.ties.newinfo hnone hpos hbots (by simp [hhum, hlt]) (fun h => absurd hlt (not_lt.mpr h)) hinfo,
    fun m => ?_, fun m => ?_, fun m d hd => ?_, fun m d hd => ?_, fun cn hmem => ?_⟩,
    hvisit.announced fun _ hne => ?_, fun u d hd hj hne hu => hvisit.entered (fun c hc => ?_) hd hj hne hu,
    fun hv _ => hvisit.views hs hv (fun hl v hj hlt' hvn => ?_) fun hj => ?_⟩
  · rw [hclients, hs.listed m]
    by_cases hm : m = n
    · subst hm
      rw [joined_eq hself, hconn]
      simp [not_joined_of_none hnone]
    · exact (joined_congr (hother m hm)).symm
  · rw [hsince, hlog]
    exact (hs.since m).trans (by simp)
  · by_cases hm : m = n
    · subst hm
      rw [hself] at hd
      exact Option.some.inj hd ▸ hlock
    · exact hs.locked m d (hother m hm ▸ hd)
  · by_cases hm : m = n
    · subst hm
      rw [hself] at hd
      obtain rfl := Option.some.inj hd
      rw [hedit]
      decide
    · exact hs.upright m d (hother m hm ▸ hd)
  · rw [hlog, List.mem_append] at hmem
    refine hmem.elim (hs.wellformed cn) fun hmem => ?_
    split at hmem
    · cases List.mem_singleton.mp hmem
    · cases hmem
  · rw [spectating_of_none hnone, hspec] at hne
    have hst : c.state = .spectator := by
      by_contra hst
      exact hne (decide_eq_false hst).symm
    refine ⟨1, by rw [hspec, hst]; rfl, .inr (.inl rfl), .inl ?_⟩
    rw [if_pos hst]
    simp [specs]
  · rw [hnone] at hc
    cases hc
  · -- nobody has heard of him yet
    have hst : c.state ≠ .spectator := fun hst => hl ⟨c, hself, hconn, hst⟩
    rw [if_neg hst, hspec, decide_eq_false hst, List.foldl_nil]
    rw [hv v hj hlt' n, spectating_of_none hnone]
    rw [lurks_iff, spectating_of_none hnone]
    simp
  · rw [joined_eq hself, hconn] at hj
    cases hj

theorem Moved.told_plain (h : Moved sm Plain s t) (hs : s.Sane) : Told sm s e t :=
  h.told_of hs fun _ _ => plain_value

theorem told_refl (hs : s.Sane) : Told sm s e s := Moved.told_plain (.refl hs) hs

/-- What `sendservinfo` makes of a new record. -/
theorem told_sendservinfo (hs : s.Sane) (hnone : s.info n = none) (hpos : 0 ≤ n)
    (hlt : n < MAXCLIENTS) (hconn : c.connected = false) (hbots : c.bots = [])
    (hhum : c.aitype = .human) (hedit : c.editstate = .dead) (hst : c.state = .dead) :
    Told sm s e ((s.newinfo n c).sendservinfo sm n) := by
  have hself : (s.newinfo n c).info n = some c := by rw [info_newinfo, if_pos rfl]
  unfold sendservinfo
  rw [hself, Option.any_some]
  split
  · next hlock =>
    have hnobots : (seat sm (s.newinfo n c) n).removeai n = seat sm (s.newinfo n c) n := by
      unfold removeai
      rw [info_seat hself]
      simp [Attendee.seated, Attendee.addtime, hbots]
    rw [forcespectator_eq hself, hnobots, ite_self]
    refine told_newinfo (c := c.seated s.lastmillis) hs hnone hpos hlt hconn hbots hhum hedit
      (fun _ => rfl) (funext fun m => ?_) rfl rfl rfl
    rw [info_send]
    by_cases hm : m = n
    · subst hm
      rw [info_seat hself, info_newinfo, if_pos rfl]
      rfl
    · rw [info_seat_ne hm, info_newinfo, info_newinfo, if_neg hm, if_neg hm]
  · next hlock =>
    refine told_newinfo hs hnone hpos hlt hconn hbots hhum hedit (fun h => absurd h hlock) rfl rfl rfl ?_
    rw [hst, if_neg (by decide), List.append_nil]
    rfl

theorem told_connect (hs : s.Sane) (n : Int) (ip : String) (t0 ls0 : Int) :
    Told sm s e (s.clientconnect sm n ip t0 ls0) := by
  unfold clientconnect
  split
  · next h => exact told_sendservinfo hs h.1.2.2 h.1.1 h.1.2.1 rfl rfl rfl rfl rfl
  · exact told_refl hs

theorem told_localconnect (hs : s.Sane) (n t0 ls0 : Int) :
    Told sm s e (s.localconnect sm n t0 ls0) := by
  unfold localconnect
  split
  · next h => exact told_sendservinfo hs h.2.2 h.1 h.2.1 rfl rfl rfl rfl rfl
  · exact told_refl hs

/-! ## Somebody goes -/

/-- A record is freed: of a client or a bot who was listed, and then all are told, or of a client
who had not joined. -/
theorem told_free {new : List Notice} (hs : s.Sane) (hsome : (s.info n).isSome)
    (hsame : Same core s r) (hties : r.Ties) (hnil : r.botsOf n = [])
    (hown : ∀ m, n ∉ r.botsOf m) (hinfo : t.info = (r.free n).info)
    (hclients : ∀ m, m ∈ t.clients ↔ m ∈ s.clients ∧ m ≠ n) (hsince : t.since = s.since)
    (hlog : t.log = s.log ++ new) (hnew : new = [.cdis n] ∨ new = [] ∧ ¬s.Joined n)
    (hstay : Stays s e → new = [] → ¬s.Lurks n) : Told sm s e t := by
  have hself : t.info n = none := by rw [hinfo, info_free, if_pos rfl]
  have hother : ∀ m, m ≠ n → (t.info m).map core = (s.info m).map core := fun m hm => by
    rw [hinfo, info_free, if_neg hm, hsame m]
  have hback : ∀ {m d}, t.info m = some d → ∃ c, s.info m = some c ∧ core d = core c := by
    intro m d hd
    have hm : m ≠ n := by
      rintro rfl
      rw [hself] at hd
      cases hd
    have heq := hother m hm
    rw [hd] at heq
    obtain ⟨c, hc, hcore⟩ := Option.map_eq_some_iff.mp heq.symm
    exact ⟨c, hc, hcore.symm⟩
  have hspec : t.spectating n = false := spectating_of_none hself
  have hconn : (Attendee.connected ∘ core) = Attendee.connected := rfl
  have hvisit : Visit n new s t := by
    refine ⟨hlog, fun _ _ => by rw [hsince], fun u hu => ?_, fun u hu => ?_, fun m hm v u b _ hu => ?_⟩
    · refine spectating_of_map ?_
      have hst := congrArg (Option.map Attendee.state) (hother u hu)
      rwa [Option.map_map, Option.map_map] at hst
    · have heq := congrArg (Option.map Attendee.connected) (hother u hu)
      rw [Option.map_map, Option.map_map, hconn] at heq
      rw [joined_iff, joined_iff]
      cases ht : t.info u <;> cases hsu : s.info u <;> rw [ht, hsu] at heq <;> simp_all
    · rcases hnew with rfl | ⟨rfl, -⟩
      · obtain rfl := List.mem_singleton.mp hm
        simp [hear, Ne.symm hu]
      · cases hm
  refine ⟨⟨hties.free hnil hown hinfo, fun m => ?_, fun m => ?_, fun m d hd hlock => ?_,
    fun m d hd hedit => ?_, fun cn hmem => ?_⟩,
    hvisit.announced fun h _ => ?_, fun u d hd hj hne hu => hvisit.entered (fun _ _ _ _ => hspec) hd hj hne hu,
    fun hv he => hvisit.views hs hv (fun _ v hj hlt hvn => ?_) fun hj => ?_⟩
  · rw [hclients m, hs.listed m]
    by_cases hm : m = n
    · subst hm
      simp [not_joined_of_none hself]
    · rw [hvisit.joined m hm]
      simp [hm]
  · rw [hsince, hlog]
    exact (hs.since m).trans (by simp)
  · obtain ⟨c, hc, heq⟩ := hback hd
    have hlk : c.isSpecLocked = d.isSpecLocked :=
      show (core c).isSpecLocked = (core d).isSpecLocked by rw [heq]
    have hst : c.state = d.state := show (core c).state = (core d).state by rw [heq]
    exact hst ▸ hs.locked m c hc (hlk.trans hlock)
  · obtain ⟨c, hc, heq⟩ := hback hd
    have hst : c.editstate = d.editstate := show (core c).editstate = (core d).editstate by rw [heq]
    exact hs.upright m c hc (hst.trans hedit)
  · rw [hlog, List.mem_append] at hmem
    refine hmem.elim (hs.wellformed cn) fun hmem => ?_
    rcases hnew with rfl | ⟨rfl, -⟩
    · cases List.mem_singleton.mp hmem
    · cases hmem
  · rw [hself] at h
    cases h
  · rw [hspec]
    rcases hnew with rfl | ⟨rfl, hnot⟩
    · simp [hear]
    · have hlurk := hstay he rfl
      rw [List.foldl_nil, hv v hj hlt n hlurk, ← Bool.not_eq_true]
      exact fun h => hlurk (lurks_iff.mpr ⟨hnot, h⟩)
  · exact absurd hj (not_joined_of_none hself)

theorem told_disconnect (hs : s.Sane) (n : Int) :
    Told sm s (.disconnect n) (s.clientdisconnect sm n) := by
  unfold clientdisconnect
  split
  · exact told_refl hs
  · next c hc =>
    obtain ⟨hlt, hinfo⟩ : n < MAXCLIENTS ∧ s.info n = some c := by
      unfold getclientinfo at hc
      split at hc
      · next h => exact ⟨h.2, hc⟩
      · cases hc
    have hsome : (s.info n).isSome := by rw [hinfo]; rfl
    split
    · next hconn =>
      have hties : (((s.call fun m => sm.leavegame m n true).send (.cdis n)).unlist n).Ties :=
        hs.ties.of_same (.of_eq rfl)
      have henr : (((s.call fun m => sm.leavegame m n true).send (.cdis n)).unlist n).Enrolled := by
        intro m hm
        exact (joined_congr (s := s) rfl).mpr ((hs.listed m).mp (List.mem_filter.mp hm).1)
      have hhand := handover_removeai
        (((s.call fun m => sm.leavegame m n true).send (.cdis n)).unlist n) n
      refine told_free hs hsome ((Same.of_eq rfl).trans hhand.same) (hties.removeai henr n)
        (hties.released henr n) (hties.removeai henr n |>.not_owned hlt) rfl (fun m => ?_)
        hhand.since hhand.log (.inl rfl) fun _ h => by cases h
      rw [show ((((s.call fun m => sm.leavegame m n true).send (.cdis n)).unlist n).removeai n
        |>.free n).clients = _ from hhand.clients]
      show m ∈ s.clients.filter (· ≠ n) ↔ _
      simp
    · next hconn =>
      have hnot : ¬s.Joined n := by rwa [joined_eq hinfo]
      refine told_free hs hsome (.refl _ s) hs.ties (hs.ties.botsOf_nil fun ho => ?_)
        (hs.ties.not_owned hlt) rfl (fun m => ?_) rfl (List.append_nil _).symm (.inr ⟨rfl, hnot⟩)
        fun h _ => h n rfl
      · obtain ⟨d, hd, hj, -⟩ := owner_some.mp ho
        exact hnot (joined_iff.mpr ⟨d, hd, hj⟩)
      · refine ⟨fun hm => ⟨hm, ?_⟩, fun hm => hm.1⟩
        rintro rfl
        exact hnot ((hs.listed m).mp hm)

theorem Ties.not_owner (h : s.Ties) (hle : MAXCLIENTS ≤ bot) : ¬s.Owner (some bot) := by
  intro ho
  obtain ⟨c, hc, -, hhum⟩ := owner_some.mp ho
  exact absurd (h.slot hc hhum).2 (not_lt.mpr hle)

theorem told_deleteai (hs : s.Sane) (bot : Int) : Told sm s e (s.deleteai sm bot) := by
  unfold deleteai
  split
  · exact told_refl hs
  · next hle =>
    rw [not_lt] at hle
    split
    · exact told_refl hs
    · next b hb =>
      have hties : ((s.call fun m => sm.leavegame m bot true).send (.cdis bot)).Ties :=
        hs.ties.of_same (.of_eq rfl)
      have hshift := hties.shiftai hle owner_none
      -- what the bot itself says of its owner is freed with it
      refine told_free (r := ((s.call fun m => sm.leavegame m bot true).send (.cdis bot)).shiftai
          bot none) hs (by rw [hb]; rfl) ((Same.of_eq rfl).trans (handover_shiftai _ bot none).same)
        hshift (hshift.botsOf_nil (hshift.not_owner hle)) (fun m hm => ?_) (funext fun m => ?_)
        (fun m => ?_) ?_ ?_ (.inl rfl) fun _ h => by cases h
      · rcases (hties.mem_botsOf_shiftai hb (by simp)).mp hm with h | ⟨-, h, -⟩
        · exact h.2 rfl
        · cases h
      · rw [info_free, info_free]
        split
        · rfl
        · next hm =>
          unfold shiftai
          rw [info_send, info_call, hb]
          simp only
          rw [info_upd, if_neg hm]
          rfl
      · have hd := handover_disown ((s.call fun m => sm.leavegame m bot true).send (.cdis bot))
          b.ownernum bot
        show m ∈ (Gallery.clients _).filter (· ≠ bot) ↔ _
        rw [hd.clients]
        show m ∈ s.clients.filter (· ≠ bot) ↔ _
        simp
      · exact (handover_disown _ b.ownernum bot).since
      · exact (handover_disown _ b.ownernum bot).log

/-! ## Bots -/

/-- A bot that is taken up again is shifted to its owner. -/
theorem addai_eq {b : Attendee} (hb : s.info bot = some b) (hneg : b.ownernum < 0)
    (hle : MAXCLIENTS ≤ bot) (ho : s.Owner owner) (hties : s.Ties) :
    s.addai bot owner = s.shiftai bot owner := by
  have hdis : s.disown b.ownernum bot = s := by
    unfold disown
    rw [if_neg fun h => absurd h.1 (not_le.mpr hneg)]
  unfold addai shiftai
  rw [if_neg (not_or.mpr ⟨not_lt.mpr hle, not_not_intro ho⟩), hb]
  simp only [if_pos hneg, hdis]
  cases owner with
  | none => rfl
  | some o =>
    have hne : bot ≠ o := by
      rintro rfl
      exact hties.not_owner hle ho
    simp only [if_neg hne]
    rfl

/-- The record of a new bot. -/
def newbot (lastmillis owner : Int) : Attendee where
  ip := ""
  connected := true
  aitype := .bot
  ownernum := owner
  lasttimeplayed := lastmillis
  lifesequence := 0

/-- The server with a new bot that has no owner yet. -/
def welcomebot (s : Gallery M) (bot : Int) : Gallery M :=
  { s.newinfo bot (newbot s.lastmillis (-1)) with clients := s.clients ++ [bot] }

theorem info_welcomebot (s : Gallery M) (bot m : Int) : (s.welcomebot bot).info m =
    if m = bot then some (newbot s.lastmillis (-1)) else s.info m :=
  rfl

/-- A new bot is one without an owner that is then shifted. -/
theorem addai_new (hb : s.info bot = none) (hle : MAXCLIENTS ≤ bot) (ho : s.Owner owner) :
    s.addai bot owner = (s.welcomebot bot).shiftai bot owner := by
  have hself : ∀ x : Int, (s.welcomebot bot).upd bot (fun b => { b with ownernum := x }) =
      { s.newinfo bot (newbot s.lastmillis x) with clients := s.clients ++ [bot] } := by
    intro x
    unfold upd welcomebot newinfo
    simp only [Gallery.mk.injEq, and_true]
    funext m
    split <;> rfl
  have hdis : (s.welcomebot bot).disown (newbot s.lastmillis (-1)).ownernum bot =
      s.welcomebot bot := by
    unfold disown
    exact if_neg fun h => absurd h.1 (by simp [newbot])
  unfold addai shiftai
  rw [if_neg (not_or.mpr ⟨not_lt.mpr hle, not_not_intro ho⟩), hb, info_welcomebot, if_pos rfl]
  simp only [hdis]
  cases owner with
  | none => exact (hself _).symm
  | some o =>
    have hne : bot ≠ o := by
      rintro rfl
      obtain ⟨c, hc, -⟩ := owner_some.mp ho
      rw [hb] at hc
      cases hc
    simp only [if_neg hne, hself]
    rfl

theorem Sane.welcomebot (hs : s.Sane) (hb : s.info bot = none) (hle : MAXCLIENTS ≤ bot) :
    (s.welcomebot bot).Sane := by
  have hself : (s.welcomebot bot).info bot = some (newbot s.lastmillis (-1)) := if_pos rfl
  have hother : ∀ m, m ≠ bot → (s.welcomebot bot).info m = s.info m := fun m hm => if_neg hm
  refine ⟨hs.ties.newinfo hb (le_trans (by decide) hle) rfl (by simp [newbot, hle])
    (fun _ => by simp [newbot]) rfl, fun m => ?_, hs.since, fun m d hd hlock => ?_,
    fun m d hd => ?_, hs.wellformed⟩
  · show m ∈ s.clients ++ [bot] ↔ _
    rw [List.mem_append, hs.listed m, List.mem_singleton]
    by_cases hm : m = bot
    · subst hm
      simp [joined_eq hself, newbot]
    · simp [joined_congr (hother m hm), hm]
  · by_cases hm : m = bot
    · subst hm
      rw [hself] at hd
      obtain rfl := Option.some.inj hd
      cases hlock
    · exact hs.locked m d (hother m hm ▸ hd) hlock
  · by_cases hm : m = bot
    · subst hm
      rw [hself] at hd
      obtain rfl := Option.some.inj hd
      simp [newbot]
    · exact hs.upright m d (hother m hm ▸ hd)

theorem told_welcomebot (hs : s.Sane) (hb : s.info bot = none) (hle : MAXCLIENTS ≤ bot)
    (ho : s.Owner owner) : Told sm s e ((s.welcomebot bot).shiftai bot owner) := by
  have hself : (s.welcomebot bot).info bot = some (newbot s.lastmillis (-1)) := if_pos rfl
  have hother : ∀ m, m ≠ bot → (s.welcomebot bot).info m = s.info m := fun m hm => if_neg hm
  have hor : (s.welcomebot bot).Owner owner := by
    cases owner with
    | none => exact owner_none
    | some o =>
      obtain ⟨c, hc, hconn⟩ := owner_some.mp ho
      refine owner_some.mpr ⟨c, (hother o ?_).trans hc, hconn⟩
      rintro rfl
      rw [hb] at hc
      cases hc
  have hhand := handover_shiftai (s.welcomebot bot) bot owner
  have hspec : ∀ u, ((s.welcomebot bot).shiftai bot owner).spectating u =
      (s.welcomebot bot).spectating u := (hhand.same.coarser poise fun _ => rfl).spectates
  have hnot : ((s.welcomebot bot).shiftai bot owner).spectating bot = false := by
    rw [hspec, spectating_eq hself]
    rfl
  have hvisit : Visit bot [] s ((s.welcomebot bot).shiftai bot owner) := by
    refine ⟨hhand.log.trans (List.append_nil _).symm, fun _ _ => by rw [hhand.since]; rfl,
      fun u hu => ?_, fun u hu => ?_, fun m hm => absurd hm List.not_mem_nil⟩
    · rw [hspec]
      exact spectating_of_map (by rw [hother u hu])
    · rw [(hhand.same.coarser Attendee.connected fun _ => rfl).joined, joined_congr (hother u hu)]
  have hmoved : Moved sm Plain (s.welcomebot bot) _ := moved_shiftai (hs.welcomebot hb hle) hle hor
  refine ⟨hmoved.sane,
    hvisit.announced fun _ hne => ?_,
    fun u d hd hj hne hu => hvisit.entered (fun _ _ _ _ => hnot) hd hj hne hu,
    fun hv _ => hvisit.views hs hv (fun _ v hj hlt _ => ?_) fun _ hlt => ?_⟩
  · rw [hnot, spectating_of_none hb] at hne
    exact absurd rfl hne
  · rw [List.foldl_nil, hnot, hv v hj hlt bot, spectating_of_none hb]
    rw [lurks_iff, spectating_of_none hb]
    simp
  · exact absurd hlt (not_lt.mpr hle)

theorem told_addai (hs : s.Sane) (bot : Int) (owner : Option Int) :
    Told sm s e (s.addai bot owner) := by
  by_cases h : bot < MAXCLIENTS ∨ ¬s.Owner owner
  · unfold addai
    rw [if_pos h]
    exact told_refl hs
  · obtain ⟨hle, ho⟩ := not_or.mp h
    rw [not_lt] at hle
    rw [not_not] at ho
    cases hb : s.info bot with
    | some b =>
      by_cases hneg : b.ownernum < 0
      · rw [addai_eq hb hneg hle ho hs.ties]
        exact (moved_shiftai hs hle ho).told_plain hs
      · unfold addai
        rw [if_neg h, hb]
        simp only [if_neg hneg]
        exact told_refl hs
    | none =>
      rw [addai_new hb hle ho]
      exact told_welcomebot hs hb hle ho

theorem Sane.send (h : s.Sane) {m : Notice} (hm : ∀ cn, m ≠ .spectator2 cn) : (s.send m).Sane := by
  refine ⟨h.ties.of_same (.of_eq rfl), h.listed.of_same rfl (.of_eq rfl),
    fun n => (h.since n).trans (by simp [Gallery.send]), h.locked, h.upright, fun cn hmem => ?_⟩
  rcases List.mem_append.mp hmem with hmem | hmem
  · exact h.wellformed cn hmem
  · exact hm cn (List.mem_singleton.mp hmem).symm

/-- A bot's status is repeated. -/
theorem told_reinitai (hs : s.Sane) (bot : Int) : Told sm s e (s.reinitai bot) := by
  unfold reinitai
  split
  · exact told_refl hs
  · next b hb =>
    split
    · exact told_refl hs
    · next h =>
      have hle : MAXCLIENTS ≤ bot := not_lt.mp (not_or.mp h).1
      have hsame : Same poise s (s.upd bot Attendee.respawn) := .upd (by intro c; rfl) s bot
      have hties : Same Gallery.ties s (s.upd bot Attendee.respawn) := .upd (by intro c; rfl) s bot
      simp only
      split
      · exact Moved.told_plain (.of_quiet hs (hsame.trans (.upd (by intro c; rfl) _ bot))
          (hs.ties.of_same (hties.trans (.upd (by intro c; rfl) _ bot))) rfl rfl rfl) hs
      · have hmoved : Moved sm Plain s (s.upd bot Attendee.respawn) :=
          .of_quiet hs hsame (hs.ties.of_same hties) rfl rfl rfl
        have hspec : ∀ u, ((s.upd bot Attendee.respawn).send (.resume bot b.state)).spectating u =
            s.spectating u := hsame.spectates
        have hvisit : Visit bot [.resume bot b.state] s
            ((s.upd bot Attendee.respawn).send (.resume bot b.state)) := by
          refine ⟨rfl, fun _ _ => rfl, fun u _ => hspec u, fun u _ => ?_, fun m hm v u b _ hu => ?_⟩
          · exact (hsame.coarser (q := Attendee.connected) Prod.fst fun _ => rfl).joined
          · obtain rfl := List.mem_singleton.mp hm
            simp [hear, Ne.symm hu]
        refine ⟨hmoved.sane.send (fun _ h => by cases h), hvisit.announced fun _ hne => ?_,
          fun u d hd hj hne hu => hvisit.entered (fun c hc _ hst => ?_) hd hj hne hu,
          fun hv _ => hvisit.views hs hv (fun _ v _ _ _ => ?_) fun _ hlt => ?_⟩
        · exact absurd (hspec bot).symm hne
        · rw [hspec, spectating_eq hc, decide_eq_false hst]
        · rw [hspec, spectating_eq hb]
          simp [hear]
        · exact absurd hlt (not_lt.mpr hle)

/-! ## Somebody joins -/

/-- What the welcome says of another client. -/
theorem find_others (s : Gallery M) (n u : Int) :
    ((s.others n).find? fun o => o.1 = u) =
      if u ∈ s.clients ∧ u ≠ n then (s.info u).map fun c => (u, c.state) else none := by
  have hlist : ∀ l : List Int, ((l.filterMap fun m => (s.info m).map fun c => (m, c.state)).find?
      fun o => o.1 = u) = if u ∈ l then (s.info u).map fun c => (u, c.state) else none := by
    intro l
    induction l with
    | nil => simp
    | cons m l ih =>
      cases hm : s.info m with
      | none =>
        rw [List.filterMap_cons_none (by rw [hm]; rfl), ih]
        by_cases hmu : u = m
        · subst hmu
          simp [hm]
        · simp [hmu]
      | some c =>
        rw [List.filterMap_cons_some (by rw [hm]; rfl), List.find?_cons]
        by_cases hmu : m = u
        · subst hmu
          simp [hm]
        · simp [hmu, Ne.symm hmu, ih]
  rw [others, hlist]
  simp

theorem others_congr (hclients : t.clients.filter (· ≠ n) = s.clients.filter (· ≠ n))
    (hinfo : ∀ m, m ≠ n → t.info m = s.info m) : t.others n = s.others n := by
  unfold others
  rw [hclients]
  refine List.filterMap_congr fun m hm => ?_
  rw [hinfo m (by simpa using (List.mem_filter.mp hm).2)]

/-- What is told when somebody joins. -/
def welcomes (n : Int) (state : CState) (others : List (Int × CState)) (resume : List Notice) :
    List Notice :=
  (if state = .spectator then [.spectator n 1 n] else []) ++
    .welcome n (decide (state = .spectator)) others :: resume

/-- **What joining does**: the record `d` the client has then, and what is told. -/
structure Joins (n : Int) (c d : Attendee) (resume : List Notice) (s t : Gallery M) : Prop where
  info : t.info = (s.newinfo n d).info
  connected : d.connected = true
  kept : (d.aitype, d.ownernum, d.bots) = (c.aitype, c.ownernum, c.bots)
  locked : d.isSpecLocked = c.isSpecLocked
  editstate : d.editstate = c.editstate
  state : d.state = .spectator ↔
    c.state = .spectator ∨ MasterMode.mmLocked.code ≤ s.mastermode.code
  clients : t.clients = s.clients ++ [n]
  since : t.since = fun m => if m = n then s.log.length else s.since m
  log : t.log = s.log ++ welcomes n d.state (s.others n) resume

/-- The record of a client who has joined. -/
def enlisted (s : Gallery M) (c : Attendee) : Attendee :=
  { c with
    connected := true
    state := if MasterMode.mmLocked.code ≤ s.mastermode.code then .spectator else c.state
    lasttimeplayed := s.lastmillis }

theorem info_enlist (hc : s.info n = some c) (m : Int) :
    (s.enlist n).info m = (s.newinfo n (s.enlisted c)).info m := by
  show (s.upd n _).info m = _
  rw [info_upd, info_newinfo]
  split
  · next hm =>
    subst hm
    rw [hc]
    rfl
  · rfl

theorem joins_sendwelcome (sm : ServMode M) (hc : s.info n = some c) :
    ∃ d, Joins n c d [] s ((s.enlist n).sendwelcome sm n) := by
  have hself : (s.enlist n).info n = some (s.enlisted c) :=
    (info_enlist hc n).trans (if_pos rfl)
  have hother : ∀ m, m ≠ n → (s.enlist n).info m = s.info m :=
    fun m hm => (info_enlist hc m).trans (if_neg hm)
  have hclients : (s.clients ++ [n]).filter (· ≠ n) = s.clients.filter (· ≠ n) := by simp
  have hstate : (s.enlisted c).state = .spectator ↔
      c.state = .spectator ∨ MasterMode.mmLocked.code ≤ s.mastermode.code := by
    unfold enlisted
    by_cases hlock : MasterMode.mmLocked.code ≤ s.mastermode.code <;> simp [hlock]
  unfold sendwelcome
  rw [hself]
  simp only
  split
  · next hst =>
    refine ⟨s.enlisted c, funext (info_enlist hc), rfl, rfl, rfl, rfl, hstate, rfl, rfl, ?_⟩
    rw [welcomes, if_pos hst, decide_eq_true hst]
    have hothers : ((s.enlist n).send (.spectator n 1 n)).others n = s.others n :=
      others_congr hclients hother
    rw [← hothers]
    exact List.append_assoc s.log _ _
  · next hst =>
    have hjoins : ∀ (r : Gallery M) (d : Attendee), r = { s.enlist n with info := r.info } →
        r.info = (s.newinfo n d).info → d.connected = true →
        (d.aitype, d.ownernum, d.bots) = (c.aitype, c.ownernum, c.bots) →
        d.isSpecLocked = c.isSpecLocked → d.editstate = c.editstate → d.state ≠ .spectator →
        Joins n c d [] s (r.send (.welcome n false (r.others n))) := by
      intro r d hrest hinfo hconn hkept hlock hedit hne
      refine ⟨hinfo, hconn, hkept, hlock, hedit, ?_, ?_, ?_, ?_⟩
      · exact iff_of_false hne fun h => hst (hstate.mpr h)
      · rw [hrest]
        rfl
      · rw [hrest]
        rfl
      · have hothers : r.others n = s.others n := by
          refine others_congr ?_ fun m hm => ?_
          · rw [hrest]
            exact hclients
          · rw [hinfo, info_newinfo, if_neg hm]
        rw [welcomes, if_neg hne, decide_eq_false hne, List.nil_append, ← hothers]
        show r.log ++ _ = _
        rw [show r.log = s.log by rw [hrest]; rfl]
    split
    · -- whether he may spawn decides between two states of which neither spectates
      split
      · refine ⟨(s.enlisted c).spawnstate (s.enlist n).gamemillis, hjoins _ _ rfl
          (funext fun m => ?_) rfl rfl rfl rfl hst⟩
        rw [info_upd, info_newinfo]
        split
        · next hm => rw [hm, hself]; rfl
        · next hm => exact hother m hm
      · refine ⟨{ s.enlisted c with state := .dead }, hjoins _ _ rfl (funext fun m => ?_) rfl rfl rfl
          rfl (by simp)⟩
        rw [info_upd, info_newinfo]
        split
        · next hm => rw [hm, hself]; rfl
        · next hm => exact hother m hm
    · exact ⟨_, hjoins _ _ rfl (funext (info_enlist hc)) rfl rfl rfl rfl hst⟩

/-- **Joining.** -/
theorem joins_join (sm : ServMode M) (hc : s.info n = some c) (hnot : c.connected = false)
    (restored : Option Int) : ∃ d resume, (resume = [] ∨ resume = [.resume n d.state]) ∧
      Joins n c d resume s (s.join sm n restored) := by
  obtain ⟨d, h⟩ := joins_sendwelcome sm hc
  have hself : ((s.enlist n).sendwelcome sm n).info n = some d := by
    rw [h.info, info_newinfo, if_pos rfl]
  unfold join
  rw [hc]
  simp only [hnot, Bool.false_eq_true, if_false]
  generalize (s.enlist n).sendwelcome sm n = r at h hself
  cases restored with
  | none => exact ⟨d, [], .inl rfl, h⟩
  | some timeplayed =>
    refine ⟨{ d with timeplayed }, [.resume n d.state], .inr rfl, funext fun m => ?_, h.connected,
      h.kept, h.locked, h.editstate, h.state, ?_, ?_, ?_⟩
    all_goals unfold restorescore; rw [hself]
    · rw [info_send, info_upd, h.info, info_newinfo, info_newinfo]
      split <;> rfl
    · exact h.clients
    · exact h.since
    · show r.log ++ _ = _
      rw [h.log]
      simp [welcomes]

theorem mem_welcomes {d : Attendee} {resume : List Notice} {m : Notice}
    {others : List (Int × CState)}
    (hres : resume = [] ∨ resume = [.resume n d.state])
    (hm : m ∈ welcomes n d.state others resume) :
    m = .spectator n 1 n ∨ m = .welcome n (decide (d.state = .spectator)) others ∨
      m = .resume n d.state := by
  rw [welcomes, List.mem_append, List.mem_cons] at hm
  rcases hm with hm | rfl | hm
  · split at hm
    · exact .inl (List.mem_singleton.mp hm)
    · cases hm
  · exact .inr (.inl rfl)
  · rcases hres with rfl | rfl
    · cases hm
    · exact .inr (.inr (List.mem_singleton.mp hm))

section Joining

variable {d : Attendee} {resume : List Notice} (h : Joins n c d resume s t)
include h

theorem Joins.self : t.info n = some d := by rw [h.info, info_newinfo, if_pos rfl]

theorem Joins.other {m : Int} (hm : m ≠ n) : t.info m = s.info m := by
  rw [h.info, info_newinfo, if_neg hm]

theorem Joins.visit (hres : resume = [] ∨ resume = [.resume n d.state]) :
    Visit n (welcomes n d.state (s.others n) resume) s t := by
  refine ⟨h.log, fun v hv => ?_, fun u hu => spectating_of_map (by rw [h.other hu]),
    fun u hu => joined_congr (h.other hu), fun m hm v u b hv hu => ?_⟩
  · rw [h.since]
    exact if_neg hv
  · rcases mem_welcomes hres hm with rfl | rfl | rfl
    · simp [hear, Ne.symm hu]
    · simp [hear, Ne.symm hv]
    · simp [hear, Ne.symm hu]

theorem Joins.sane (hs : s.Sane) (hc : s.info n = some c) (hnot : c.connected = false)
    (hres : resume = [] ∨ resume = [.resume n d.state]) : t.Sane := by
  refine ⟨hs.ties.of_owners (fun m => ?_) fun o ho => ?_, fun m => ?_, fun m => ?_,
    fun m x hx hlock => ?_, fun m x hx => ?_, fun cn hmem => ?_⟩
  · by_cases hm : m = n
    · subst hm
      rw [h.self, hc]
      exact congrArg some h.kept
    · rw [h.other hm]
  · obtain ⟨x, hx, hj, hhum⟩ := owner_some.mp ho
    by_cases hm : o = n
    · subst hm
      rw [hc] at hx
      obtain rfl := Option.some.inj hx
      rw [hnot] at hj
      cases hj
    · exact owner_some.mpr ⟨x, (h.other hm).trans hx, hj, hhum⟩
  · rw [h.clients, List.mem_append, hs.listed m, List.mem_singleton]
    by_cases hm : m = n
    · subst hm
      simp [joined_eq h.self, h.connected]
    · simp [joined_congr (h.other hm), hm]
  · rw [h.since, h.log]
    simp only
    split
    · simp
    · exact (hs.since m).trans (by simp)
  · by_cases hm : m = n
    · subst hm
      rw [h.self] at hx
      obtain rfl := Option.some.inj hx
      exact h.state.mpr (.inl (hs.locked m c hc (h.locked ▸ hlock)))
    · exact hs.locked m x (h.other hm ▸ hx) hlock
  · by_cases hm : m = n
    · subst hm
      rw [h.self] at hx
      obtain rfl := Option.some.inj hx
      rw [h.editstate]
      exact hs.upright m c hc
    · exact hs.upright m x (h.other hm ▸ hx)
  · rw [h.log, List.mem_append] at hmem
    refine hmem.elim (hs.wellformed cn) fun hmem => ?_
    rcases mem_welcomes hres hmem with hm | hm | hm <;> cases hm

/-- What the newcomer is told of everybody. -/
theorem Joins.view (hs : s.Sane) (hres : resume = [] ∨ resume = [.resume n d.state])
    (hu : ¬t.Lurks u) : t.view n u = t.spectating u := by
  have hsince : t.since n = s.log.length := by
    rw [h.since]
    exact if_pos rfl
  unfold Gallery.view
  rw [h.log, hsince, heard_join, welcomes]
  by_cases hun : u = n
  · subst hun
    rw [spectating_eq h.self]
    rcases hres with rfl | rfl <;> by_cases hst : d.state = .spectator <;> simp [hst, hear]
  · have hskip : ∀ b, hear n u b (.spectator n 1 n) = b := fun b => by simp [hear]
    have hresume : ∀ b, resume.foldl (hear n u) b = b := by
      rcases hres with rfl | rfl
      · exact fun b => rfl
      · exact fun b => by simp [hear, Ne.symm hun]
    have hfirst : ∀ b, (if d.state = .spectator then [.spectator n 1 n] else []).foldl
        (hear n u) b = b := by
      intro b
      split
      · exact hskip b
      · rfl
    rw [List.foldl_append, hfirst, List.foldl_cons, hresume]
    simp only [hear, ne_eq, not_true_eq_false, if_false, if_neg hun, find_others]
    have hspec : t.spectating u = s.spectating u := spectating_of_map (by rw [h.other hun])
    rw [hspec]
    by_cases hmem : u ∈ s.clients
    · rw [if_pos ⟨hmem, hun⟩]
      unfold spectating
      cases s.info u <;> rfl
    · -- who is not listed has not joined, and so does not spectate
      rw [if_neg fun h' => hmem h'.1]
      have hnot : ¬s.Joined u := fun hj => hmem ((hs.listed u).mpr hj)
      refine (Bool.eq_false_iff.mpr fun hst => hu (lurks_iff.mpr ⟨?_, ?_⟩)).symm
      · rwa [joined_congr (h.other hun)]
      · rwa [hspec]

end Joining

theorem told_join (hs : s.Sane) (n : Int) (restored : Option Int) :
    Told sm s (.join n restored) (s.join sm n restored) := by
  cases hc : s.info n with
  | none =>
    unfold join
    rw [hc]
    exact told_refl hs
  | some c =>
    cases hconn : c.connected with
    | true =>
      unfold join
      rw [hc]
      simp only [hconn, if_true]
      exact told_refl hs
    | false =>
      obtain ⟨d, resume, hres, h⟩ := joins_join sm hc hconn restored
      generalize s.join sm n restored = t at h
      have hvisit := h.visit hres
      have hnot : ¬s.Joined n := by
        rw [joined_eq hc, hconn]
        decide
      refine ⟨h.sane hs hc hconn hres, hvisit.announced fun _ hne => ?_,
        fun u x hx hj hne hu => hvisit.entered (fun c' hc' hj' _ => ?_) hx hj hne hu,
        fun hv _ => hvisit.views hs hv (fun hl v hj hlt hvn => ?_) fun _ _ u hu => h.view hs hres hu⟩
      · rw [spectating_eq hc, spectating_eq h.self] at hne
        have hst : d.state = .spectator := by
          by_contra hst
          have hcst : c.state ≠ .spectator := fun h' => hst (h.state.mpr (.inl h'))
          exact hne (by rw [decide_eq_false hst, decide_eq_false hcst])
        refine ⟨1, by rw [spectating_eq h.self, hst]; rfl, .inr (.inl rfl),
          .inr ⟨restored, s.others n, rfl, ?_, ?_⟩⟩
        · rcases hres with rfl | rfl <;> simp [welcomes, hst, specs]
        · simp [welcomes, hst]
      · exact absurd (joined_iff.mpr ⟨c', hc', hj'⟩) hnot
      · rw [spectating_eq h.self]
        by_cases hst : d.state = .spectator
        · rcases hres with rfl | rfl <;> simp [welcomes, hst, hear, hvn, Ne.symm hvn]
        · have hcst : c.state ≠ .spectator := fun h' => hst (h.state.mpr (.inl h'))
          have hview : s.view v n = false := by
            rw [hv v hj hlt n, spectating_eq hc, decide_eq_false hcst]
            rw [lurks_iff, spectating_eq hc, decide_eq_false hcst]
            simp
          rw [hview, decide_eq_false hst]
          rcases hres with rfl | rfl <;> simp [welcomes, hst, hear, Ne.symm hvn]

end Gallery
end QServ
