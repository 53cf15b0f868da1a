import Mathlib.Data.List.Basic
import QServ.Server.Spectators

/-!
# Handing over bots

Who owns which bot, told twice by the server: in the `bots` of the owner and in the `ownernum` of
the bot.

* `Same`: a projection of the records is left alone; `Handover`: only the ownership of bots changes.
* `Ties`: the two accounts agree, `Ties.shiftai`, `Ties.removeai`.
* `Ties.released`: after `removeai` a client has no bots, and nobody who may not own any gets one.
-/

namespace QServ
namespace Gallery

variable {M : Type} {β γ : Type} {s t r : Gallery M} {n bot : Int} {c : Attendee}
  {owner : Option Int}

/-! ## What stays -/

/-- Every record looks the same through `p`. -/
def Same (p : Attendee → β) (s t : Gallery M) : Prop := ∀ n, (t.info n).map p = (s.info n).map p

theorem Same.refl (p : Attendee → β) (s : Gallery M) : Same p s s := fun _ => rfl

theorem Same.of_eq {p : Attendee → β} (h : t.info = s.info) : Same p s t := by
  intro n
  rw [h]

theorem Same.trans {p : Attendee → β} (h : Same p s t) (h' : Same p t r) : Same p s r :=
  fun n => (h' n).trans (h n)

/-- What is seen through `p` is seen through anything coarser. -/
theorem Same.coarser {p : Attendee → β} {q : Attendee → γ} (h : Same p s t) (f : β → γ)
    (hq : ∀ c, q c = f (p c)) : Same q s t := by
  intro n
  have hn := congrArg (Option.map f) (h n)
  rw [Option.map_map, Option.map_map] at hn
  rw [funext hq]
  exact hn

theorem Same.upd_of {p : Attendee → β} {f : Attendee → Attendee}
    (hf : ∀ c, s.info n = some c → p (f c) = p c) : Same p s (s.upd n f) := by
  intro m
  show ((if m = n then (s.info m).map f else s.info m).map p) = _
  split
  · next hm =>
    subst hm
    cases hc : s.info m with
    | none => rfl
    | some c => simpa using hf c hc
  · rfl

theorem Same.upd {p : Attendee → β} {f : Attendee → Attendee} (hf : ∀ c, p (f c) = p c)
    (s : Gallery M) (n : Int) : Same p s (s.upd n f) :=
  .upd_of fun c _ => hf c

theorem Same.foldl {α : Type} {p : Attendee → β} {body : Gallery M → α → Gallery M}
    (h : ∀ s a, Same p s (body s a)) (l : List α) (s : Gallery M) : Same p s (l.foldl body s) := by
  induction l generalizing s with
  | nil => exact .refl p s
  | cons a l ih => exact (h s a).trans (ih _)

/-- The record there was before. -/
theorem Same.back {p : Attendee → β} (h : Same p s t) {d : Attendee} (hd : t.info n = some d) :
    ∃ c, s.info n = some c ∧ p d = p c := by
  have hn := h n
  rw [hd] at hn
  cases hc : s.info n with
  | none => rw [hc] at hn; cases hn
  | some c =>
    rw [hc] at hn
    exact ⟨c, rfl, Option.some.inj hn⟩

/-- The record there is afterwards. -/
theorem Same.forth {p : Attendee → β} (h : Same p s t) (hc : s.info n = some c) :
    ∃ d, t.info n = some d ∧ p d = p c :=
  Same.back (s := t) (t := s) (fun m => (h m).symm) hc |>.imp fun _ h => ⟨h.1, h.2.symm⟩

theorem info_upd (s : Gallery M) (n m : Int) (f : Attendee → Attendee) :
    (s.upd n f).info m = if m = n then (s.info m).map f else s.info m :=
  rfl

@[simp] theorem info_send (s : Gallery M) (m : Notice) : (s.send m).info = s.info := rfl

@[simp] theorem info_call (s : Gallery M) (f : M → M) : (s.call f).info = s.info := rfl

/-- A record but for the bots it owns and the owner it has. -/
def core (c : Attendee) : Attendee := { c with ownernum := 0, bots := [] }

/-- Nothing changes but who owns which bot. -/
structure Handover (s t : Gallery M) : Prop where
  same : Same core s t
  rest : t = { s with info := t.info }

theorem Handover.refl (s : Gallery M) : Handover s s := ⟨.refl _ s, rfl⟩

theorem Handover.trans (h : Handover s t) (h' : Handover t r) : Handover s r := by
  refine ⟨h.same.trans h'.same, ?_⟩
  rw [h'.rest, h.rest]

theorem Handover.upd {f : Attendee → Attendee} (hf : ∀ c, core (f c) = core c) (s : Gallery M)
    (n : Int) : Handover s (s.upd n f) :=
  ⟨.upd hf s n, rfl⟩

theorem Handover.clients (h : Handover s t) : t.clients = s.clients := by rw [h.rest]

theorem Handover.log (h : Handover s t) : t.log = s.log := by rw [h.rest]

theorem Handover.smode (h : Handover s t) : t.smode = s.smode := by rw [h.rest]

theorem Handover.since (h : Handover s t) : t.since = s.since := by rw [h.rest]

theorem Handover.lastmillis (h : Handover s t) : t.lastmillis = s.lastmillis := by rw [h.rest]

theorem handover_disown (s : Gallery M) (owner bot : Int) : Handover s (s.disown owner bot) := by
  unfold disown
  split
  · exact .upd (by intro c; rfl) s owner
  · exact .refl s

theorem handover_shiftai (s : Gallery M) (bot : Int) (owner : Option Int) :
    Handover s (s.shiftai bot owner) := by
  unfold shiftai
  split
  · exact .refl s
  · next b _ =>
    have hd := handover_disown s b.ownernum bot
    cases owner with
    | none => exact hd.trans (.upd (by intro c; rfl) _ bot)
    | some o =>
      simp only
      split
      · exact hd
      · exact (hd.trans (.upd (by intro c; rfl) _ bot)).trans (.upd (by intro c; rfl) _ o)

theorem handover_removeai (s : Gallery M) (n : Int) : Handover s (s.removeai n) := by
  unfold removeai
  split
  · exact .refl s
  · next c _ =>
    have hfold : ∀ (l : List Int) (s : Gallery M),
        Handover s (l.foldl (fun s bot => s.shiftai bot (s.findaiclient n)) s) := by
      intro l
      induction l with
      | nil => exact fun s => .refl s
      | cons b l ih => exact fun s => (handover_shiftai s b _).trans (ih _)
    exact hfold _ s

/-! ## The two accounts -/

/-- The bots a client owns. -/
def botsOf (s : Gallery M) (n : Int) : List Int := ((s.info n).map Attendee.bots).getD []

theorem botsOf_eq (hc : s.info n = some c) : s.botsOf n = c.bots := by
  rw [botsOf, hc]
  rfl

/-- **Who owns which bot**: humans are below `MAXCLIENTS` and bots above, a client's `bots` are the
bots that name him as their owner, and an owner is a human who has connected. -/
structure Ties (s : Gallery M) : Prop where
  nonneg : ∀ n c, s.info n = some c → 0 ≤ n
  human : ∀ n c, s.info n = some c → (c.aitype = .human ↔ n < MAXCLIENTS)
  owned : ∀ n b, b ∈ s.botsOf n → MAXCLIENTS ≤ b ∧ ∃ d, s.info b = some d ∧ d.ownernum = n
  tied : ∀ b d, s.info b = some d → MAXCLIENTS ≤ b → 0 ≤ d.ownernum →
    b ∈ s.botsOf d.ownernum ∧ s.Owner (some d.ownernum)

/-- What the ties depend on. -/
def ties (c : Attendee) : Bool × AiType × Int × List Int :=
  (c.connected, c.aitype, c.ownernum, c.bots)

theorem Same.botsOf (h : Same ties s t) (n : Int) : t.botsOf n = s.botsOf n := by
  have hbots := h.coarser (q := Attendee.bots) (fun x => x.2.2.2) (fun _ => rfl) n
  rw [Gallery.botsOf, hbots, Gallery.botsOf]

theorem owner_some :
    s.Owner (some n) ↔ ∃ c, s.info n = some c ∧ c.connected = true ∧ c.aitype = .human := by
  simp [Owner]

theorem owner_none : s.Owner none := by simp [Owner]

/-- Who may own a bot is told by what the record is like without its bots. -/
theorem Same.toOwner (h : Same (fun c => (c.connected, c.aitype)) s t) (ho : s.Owner owner) :
    t.Owner owner := by
  cases owner with
  | none => exact owner_none
  | some o =>
    obtain ⟨c, hc, hconn, hhum⟩ := owner_some.mp ho
    obtain ⟨d, hd, heq⟩ := h.forth hc
    obtain ⟨h1, h2⟩ := Prod.mk.inj heq
    exact owner_some.mpr ⟨d, hd, h1.trans hconn, h2.trans hhum⟩

/-- The ties hold as long as those who may own bots may still do so. -/
theorem Ties.of_owners (h : s.Ties) (hsame : Same (fun c => (c.aitype, c.ownernum, c.bots)) s t)
    (howners : ∀ o, s.Owner (some o) → t.Owner (some o)) : t.Ties := by
  have hbots : ∀ n, t.botsOf n = s.botsOf n := by
    intro n
    have hn := hsame.coarser (q := Attendee.bots) (fun x => x.2.2) (fun _ => rfl) n
    rw [Gallery.botsOf, hn, Gallery.botsOf]
  refine ⟨?_, ?_, ?_, ?_⟩
  · intro n d hd
    obtain ⟨c, hc, -⟩ := hsame.back hd
    exact h.nonneg n c hc
  · intro n d hd
    obtain ⟨c, hc, heq⟩ := hsame.back hd
    have hai : d.aitype = c.aitype := congrArg Prod.fst heq
    rw [hai]
    exact h.human n c hc
  · intro n b hb
    rw [hbots] at hb
    obtain ⟨hle, d, hd, hown⟩ := h.owned n b hb
    obtain ⟨d', hd', heq⟩ := hsame.forth hd
    exact ⟨hle, d', hd', (congrArg (fun x => x.2.1) heq).trans hown⟩
  · intro b d' hd' hle hpos
    obtain ⟨d, hd, heq⟩ := hsame.back hd'
    have hown : d'.ownernum = d.ownernum := congrArg (fun x => x.2.1) heq
    rw [hown] at hpos ⊢
    obtain ⟨hmem, ho⟩ := h.tied b d hd hle hpos
    exact ⟨by rwa [hbots], howners _ ho⟩

theorem Ties.of_same (h : s.Ties) (hsame : Same ties s t) : t.Ties :=
  h.of_owners (hsame.coarser (fun x => x.2) fun _ => rfl) fun _ =>
    (hsame.coarser (fun x => (x.1, x.2.1)) fun _ => rfl).toOwner

/-- A human in the engine's table, where there is a record. -/
theorem Ties.slot (h : s.Ties) (hc : s.info n = some c) (hhum : c.aitype = .human) :
    0 ≤ n ∧ n < MAXCLIENTS :=
  ⟨h.nonneg n c hc, (h.human n c hc).mp hhum⟩

/-- A bot has at most one owner. -/
theorem Ties.owner_eq (h : s.Ties) {b : Attendee} (hb : s.info bot = some b)
    (hmem : bot ∈ s.botsOf n) : b.ownernum = n := by
  obtain ⟨-, d, hd, hown⟩ := h.owned n bot hmem
  rw [hb] at hd
  obtain rfl := Option.some.inj hd
  exact hown

/-! ## Shifting a bot -/

theorem info_disown (hc : s.info n = some c) (owner : Int) :
    (s.disown owner bot).info n = some { c with
      bots := if n = owner ∧ 0 ≤ owner ∧ owner < MAXCLIENTS then c.bots.filter (· ≠ bot)
        else c.bots } := by
  unfold disown
  split
  · next h =>
    rw [info_upd]
    by_cases hn : n = owner
    · rw [if_pos hn, hc, if_pos ⟨hn, h⟩]
      rfl
    · rw [if_neg hn, hc, if_neg fun h' => hn h'.1]
  · next h => rw [hc, if_neg fun h' => h h'.2]

/-- What a shift makes of a record. -/
theorem info_shiftai {b : Attendee} (hb : s.info bot = some b) (hne : owner ≠ some bot)
    (hc : s.info n = some c) :
    (s.shiftai bot owner).info n = some { c with
      ownernum := if n = bot then owner.getD (-1) else c.ownernum
      bots := (if n = b.ownernum ∧ 0 ≤ b.ownernum ∧ b.ownernum < MAXCLIENTS then
          c.bots.filter (· ≠ bot) else c.bots) ++ if owner = some n then [bot] else [] } := by
  have hdis : (s.disown b.ownernum bot).info n = _ := info_disown hc b.ownernum
  unfold shiftai
  rw [hb]
  cases owner with
  | none =>
    simp only
    rw [info_upd, hdis]
    by_cases hn : n = bot <;> simp [hn]
  | some o =>
    have hbo : bot ≠ o := fun h => hne (congrArg some h.symm)
    simp only [if_neg hbo]
    rw [info_upd, info_upd, hdis]
    by_cases hno : n = o
    · subst hno
      by_cases hn : n = bot
      · exact absurd hn.symm hbo
      · simp [hn]
    · have hso : ¬o = n := fun h => hno h.symm
      by_cases hn : n = bot
      · subst hn
        simp [hno, hso]
      · simp [hn, hno, hso]

theorem info_shiftai_none (hb : s.info bot = none) : s.shiftai bot owner = s := by
  unfold shiftai
  rw [hb]

/-- **What a shift does to the bots of a client.** -/
theorem Ties.mem_botsOf_shiftai (h : s.Ties) {b : Attendee} (hb : s.info bot = some b)
    (hne : owner ≠ some bot) {x : Int} :
    x ∈ (s.shiftai bot owner).botsOf n ↔
      (x ∈ s.botsOf n ∧ x ≠ bot) ∨ (x = bot ∧ owner = some n ∧ (s.info n).isSome) := by
  have hsame := (handover_shiftai s bot owner).same n
  cases hc : s.info n with
  | none =>
    have hnone : (s.shiftai bot owner).info n = none := by
      rw [hc] at hsame
      exact Option.map_eq_none_iff.mp hsame
    simp [botsOf, hc, hnone]
  | some c =>
    rw [botsOf_eq (info_shiftai hb hne hc), botsOf_eq hc, List.mem_append]
    refine or_congr ?_ ?_
    · split
      · simp [List.mem_filter]
      · next hn =>
        refine ⟨fun hx => ⟨hx, ?_⟩, fun hx => hx.1⟩
        rintro rfl
        have hmem : x ∈ s.botsOf n := by rwa [botsOf_eq hc]
        have hown := h.owner_eq hb hmem
        have hle := (h.owned n x hmem).1
        obtain ⟨-, howner⟩ := h.tied x b hb hle (hown ▸ h.nonneg n c hc)
        obtain ⟨c', hc', -, hhum⟩ := owner_some.mp howner
        exact hn ⟨hown.symm, h.slot hc' hhum⟩
    · split
      · next ho => simp [ho]
      · next ho => simp [ho]

theorem Ties.shiftai (h : s.Ties) (hle : MAXCLIENTS ≤ bot) (ho : s.Owner owner) :
    (s.shiftai bot owner).Ties := by
  cases hb : s.info bot with
  | none => rwa [info_shiftai_none hb]
  | some b =>
    have hne : owner ≠ some bot := by
      rintro rfl
      obtain ⟨c, hc, -, hhum⟩ := owner_some.mp ho
      exact absurd (h.slot hc hhum).2 (not_lt.mpr hle)
    have hsame := (handover_shiftai s bot owner).same
    have hkeep := hsame.coarser (q := fun c => (c.connected, c.aitype))
      (fun c => (c.connected, c.aitype)) (fun _ => rfl)
    refine ⟨?_, ?_, ?_, ?_⟩
    · intro n d hd
      obtain ⟨c, hc, -⟩ := hsame.back hd
      exact h.nonneg n c hc
    · intro n d hd
      obtain ⟨c, hc, heq⟩ := hkeep.back hd
      have hai : d.aitype = c.aitype := (Prod.mk.inj heq).2
      rw [hai]
      exact h.human n c hc
    · intro n x hx
      rcases (h.mem_botsOf_shiftai hb hne).mp hx with ⟨hx, hxb⟩ | ⟨rfl, rfl, -⟩
      · obtain ⟨hxle, d, hd, hown⟩ := h.owned n x hx
        refine ⟨hxle, _, info_shiftai hb hne hd, ?_⟩
        show (if x = bot then _ else d.ownernum) = n
        rw [if_neg hxb, hown]
      · refine ⟨hle, _, info_shiftai hb hne hb, ?_⟩
        show (if x = x then _ else b.ownernum) = n
        rw [if_pos rfl]
        rfl
    · intro x d' hd' hxle hpos
      obtain ⟨d, hd, -⟩ := hsame.back hd'
      have heq := info_shiftai hb hne hd
      rw [hd'] at heq
      have hown : d'.ownernum = if x = bot then owner.getD (-1) else d.ownernum :=
        congrArg Attendee.ownernum (Option.some.inj heq)
      rw [hown] at hpos ⊢
      by_cases hxb : x = bot
      · rw [if_pos hxb] at hpos ⊢
        cases owner with
        | none => exact absurd hpos (by decide)
        | some o =>
          obtain ⟨c, hc, -⟩ := owner_some.mp ho
          refine ⟨(h.mem_botsOf_shiftai hb hne).mpr (.inr ⟨hxb, rfl, ?_⟩), hkeep.toOwner ho⟩
          show (s.info o).isSome = true
          rw [hc]
          rfl
      · rw [if_neg hxb] at hpos ⊢
        obtain ⟨hmem, howner⟩ := h.tied x d hd hxle hpos
        exact ⟨(h.mem_botsOf_shiftai hb hne).mpr (.inl ⟨hmem, hxb⟩), hkeep.toOwner howner⟩

/-! ## Releasing all bots -/

/-- May a client be given bots? -/
def Eligible (s : Gallery M) (n : Int) : Prop := ∃ c, s.info n = some c ∧ c.validaiclient = true

theorem leastbots_cases (s : Gallery M) (exclude : Int) (least : Option (Int × Nat)) (n : Int) :
    s.leastbots exclude least n = least ∨
      ∃ k, s.leastbots exclude least n = some (n, k) ∧ n ≠ exclude ∧ s.Eligible n := by
  unfold leastbots
  split
  · exact .inl rfl
  · next c hc =>
    split
    · exact .inl rfl
    · next hskip =>
      rw [not_or, Bool.not_eq_false] at hskip
      split
      · exact .inr ⟨_, rfl, hskip.2, c, hc, hskip.1⟩
      · exact .inl rfl

/-- The client `findaiclient` picks is another one that may own bots. -/
theorem findaiclient_spec {exclude o : Int} (h : s.findaiclient exclude = some o) :
    o ∈ s.clients ∧ o ≠ exclude ∧ s.Eligible o := by
  have hfold : ∀ (l : List Int) (least : Option (Int × Nat)), (∀ m ∈ l, m ∈ s.clients) →
      (∀ x ∈ least, x.1 ∈ s.clients ∧ x.1 ≠ exclude ∧ s.Eligible x.1) →
      ∀ x ∈ l.foldl (s.leastbots exclude) least,
        x.1 ∈ s.clients ∧ x.1 ≠ exclude ∧ s.Eligible x.1 := by
    intro l
    induction l with
    | nil => exact fun least _ h => h
    | cons m l ih =>
      intro least hmem hl
      refine ih _ (fun m hm => hmem m (List.mem_cons_of_mem _ hm)) ?_
      rcases leastbots_cases s exclude least m with heq | ⟨k, heq, hne, hvalid⟩
      · rwa [heq]
      · rw [heq]
        intro x hx
        obtain rfl := Option.some.inj hx
        exact ⟨hmem m List.mem_cons_self, hne, hvalid⟩
  obtain ⟨x, hx, rfl⟩ := Option.map_eq_some_iff.mp h
  exact hfold s.clients none (fun _ h => h) (fun _ h => by cases h) x hx

/-- Who is listed has connected, and only he. -/
def Listed (s : Gallery M) : Prop := ∀ n, n ∈ s.clients ↔ s.Joined n

theorem joined_iff : s.Joined n ↔ ∃ c, s.info n = some c ∧ c.connected = true := by
  simp [Joined]

theorem Same.joined (h : Same Attendee.connected s t) : t.Joined n ↔ s.Joined n := by
  rw [joined_iff, joined_iff]
  constructor
  · rintro ⟨d, hd, hconn⟩
    obtain ⟨c, hc, heq⟩ := h.back hd
    exact ⟨c, hc, heq ▸ hconn⟩
  · rintro ⟨c, hc, hconn⟩
    obtain ⟨d, hd, heq⟩ := h.forth hc
    exact ⟨d, hd, heq.trans hconn⟩

theorem Listed.of_same (h : s.Listed) (hclients : t.clients = s.clients)
    (hsame : Same Attendee.connected s t) : t.Listed := by
  intro n
  rw [hclients, h n, hsame.joined]

theorem Handover.listed (h : Handover s t) (hl : s.Listed) : t.Listed :=
  hl.of_same h.clients (h.same.coarser Attendee.connected fun _ => rfl)

/-- Who is listed has connected. -/
def Enrolled (s : Gallery M) : Prop := ∀ n ∈ s.clients, s.Joined n

theorem Listed.enrolled (h : s.Listed) : s.Enrolled := fun n => (h n).mp

theorem Handover.enrolled (h : Handover s t) (hl : s.Enrolled) : t.Enrolled := by
  intro n hn
  rw [h.clients] at hn
  exact (h.same.coarser Attendee.connected fun _ => rfl).joined.mpr (hl n hn)

theorem Enrolled.toOwner (h : s.Enrolled) {exclude : Int} : s.Owner (s.findaiclient exclude) := by
  cases hf : s.findaiclient exclude with
  | none => exact owner_none
  | some o =>
    obtain ⟨hmem, -, c, hc, hvalid⟩ := findaiclient_spec hf
    obtain ⟨c', hc', hconn⟩ := joined_iff.mp (h o hmem)
    rw [hc] at hc'
    obtain rfl := Option.some.inj hc'
    refine owner_some.mpr ⟨c, hc, hconn, ?_⟩
    unfold Attendee.validaiclient at hvalid
    simp only [Bool.and_eq_true, decide_eq_true_eq] at hvalid
    exact hvalid.1

theorem Handover.eligible (h : Handover s t) : t.Eligible n ↔ s.Eligible n := by
  have hsame := h.same.coarser (q := Attendee.validaiclient) Attendee.validaiclient fun _ => rfl
  constructor
  · rintro ⟨d, hd, hvalid⟩
    obtain ⟨c, hc, heq⟩ := hsame.back hd
    exact ⟨c, hc, heq ▸ hvalid⟩
  · rintro ⟨c, hc, hvalid⟩
    obtain ⟨d, hd, heq⟩ := hsame.forth hc
    exact ⟨d, hd, heq.trans hvalid⟩

/-- The loop of `removeai`: the ties hold, and a client who is left out or not eligible keeps only
bots that were not shifted. -/
theorem Ties.shiftall (h : s.Ties) (hl : s.Enrolled) (l : List Int)
    (hbots : ∀ b ∈ l, MAXCLIENTS ≤ b) :
    (l.foldl (fun s bot => s.shiftai bot (s.findaiclient n)) s).Ties ∧
      ∀ m, m = n ∨ ¬s.Eligible m → ∀ x,
        x ∈ (l.foldl (fun s bot => s.shiftai bot (s.findaiclient n)) s).botsOf m →
        x ∈ s.botsOf m ∧ x ∉ l := by
  induction l generalizing s with
  | nil => exact ⟨h, fun m _ x hx => ⟨hx, List.not_mem_nil⟩⟩
  | cons bot l ih =>
    have hle := hbots bot List.mem_cons_self
    have ho : s.Owner (s.findaiclient n) := hl.toOwner
    have hhand := handover_shiftai s bot (s.findaiclient n)
    obtain ⟨hties, hkeep⟩ := ih (h.shiftai hle ho) (hhand.enrolled hl)
      fun b hb => hbots b (List.mem_cons_of_mem _ hb)
    refine ⟨hties, fun m hm x hx => ?_⟩
    obtain ⟨hmem, hxl⟩ := hkeep m (hm.imp id fun h' he => h' (hhand.eligible.mp he)) x hx
    cases hb : s.info bot with
    | none =>
      rw [info_shiftai_none hb] at hmem
      refine ⟨hmem, ?_⟩
      rw [List.mem_cons, not_or]
      refine ⟨?_, hxl⟩
      rintro rfl
      obtain ⟨-, d, hd, -⟩ := h.owned m x hmem
      rw [hb] at hd
      cases hd
    | some b =>
      have hne : s.findaiclient n ≠ some bot := by
        intro heq
        rw [heq] at ho
        obtain ⟨c, hc, -, hhum⟩ := owner_some.mp ho
        exact absurd (h.slot hc hhum).2 (not_lt.mpr hle)
      rcases (h.mem_botsOf_shiftai hb hne).mp hmem with ⟨hmem, hxb⟩ | ⟨-, hfind, -⟩
      · exact ⟨hmem, by rw [List.mem_cons, not_or]; exact ⟨hxb, hxl⟩⟩
      · obtain ⟨-, hother, hvalid⟩ := findaiclient_spec hfind
        rcases hm with rfl | hm
        · exact absurd rfl hother
        · exact absurd hvalid hm

theorem Ties.removeai (h : s.Ties) (hl : s.Enrolled) (n : Int) : (s.removeai n).Ties := by
  unfold Gallery.removeai
  split
  · exact h
  · next c hc =>
    refine (h.shiftall hl _ fun b hb => ?_).1
    rw [List.mem_reverse, ← botsOf_eq hc] at hb
    exact (h.owned n b hb).1

/-- **`removeai` releases all bots** of a client. -/
theorem Ties.released (h : s.Ties) (hl : s.Enrolled) (n : Int) : (s.removeai n).botsOf n = [] := by
  unfold Gallery.removeai
  split
  · next hc => rw [botsOf, hc]; rfl
  · next c hc =>
    refine List.eq_nil_iff_forall_not_mem.mpr fun x hx => ?_
    have hbots : ∀ b ∈ c.bots.reverse, MAXCLIENTS ≤ b := by
      intro b hb
      rw [List.mem_reverse, ← botsOf_eq hc] at hb
      exact (h.owned n b hb).1
    obtain ⟨hmem, hnot⟩ := (h.shiftall hl _ hbots).2 n (.inl rfl) x hx
    rw [List.mem_reverse, ← botsOf_eq hc] at hnot
    exact hnot hmem

/-- Nobody who may not own bots gets one. -/
theorem Ties.botsOf_removeai (h : s.Ties) (hl : s.Enrolled) (n : Int) {m : Int}
    (hm : ¬s.Eligible m) (hnil : s.botsOf m = []) : (s.removeai n).botsOf m = [] := by
  unfold Gallery.removeai
  split
  · exact hnil
  · next c hc =>
    refine List.eq_nil_iff_forall_not_mem.mpr fun x hx => ?_
    have hbots : ∀ b ∈ c.bots.reverse, MAXCLIENTS ≤ b := by
      intro b hb
      rw [List.mem_reverse, ← botsOf_eq hc] at hb
      exact (h.owned n b hb).1
    have hmem := ((h.shiftall hl _ hbots).2 m (.inr hm) x hx).1
    rw [hnil] at hmem
    exact List.not_mem_nil hmem

/-- No bot names a client without bots as its owner. -/
theorem Ties.unowned (h : s.Ties) (hnil : s.botsOf n = []) (hpos : 0 ≤ n) {b : Int}
    {d : Attendee} (hd : s.info b = some d) (hle : MAXCLIENTS ≤ b) : d.ownernum ≠ n := by
  rintro rfl
  have hmem := (h.tied b d hd hle hpos).1
  rw [hnil] at hmem
  exact List.not_mem_nil hmem

end Gallery
end QServ
