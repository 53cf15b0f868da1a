import QServ.Server.Invariants

/-!
# Bots and map changes make moves

Functions of the server as sequences of moves that grant nothing.

* `addai_moves`, `reqadd_moves`, `addBotHelper_moves`, `reqdel_moves`: bots come and go.
* `changemap_moves`: a new map, as long as a network client stays to see it.
* `connected_moves`: a client finishes connecting.
-/

namespace QServ
namespace Server

variable {P : Server → Int → Prop} {s t : Server}

/-! ## Bots -/

theorem who_adopt (s : Server) (owner : Option ClientInfo) (bot : Int) :
    (s.adopt owner bot).who = s.who := by
  unfold adopt
  split
  · rfl
  · exact who_upd s _ fun _ => rfl

theorem kept_adopt (s : Server) (owner : Option ClientInfo) (bot : Int) :
    Kept s (s.adopt owner bot) := by
  unfold adopt
  split
  · exact .refl s
  · exact .upd s _ fun _ => Or.inr rfl

theorem lock_adopt (s : Server) (owner : Option ClientInfo) (bot : Int) :
    (s.adopt owner bot).lock = s.lock := by
  unfold adopt
  split <;> rfl

/-- What `addai` leaves: the same people, or one more bot that was not there. -/
theorem addai_cases (s : Server) (name : String) (limit : Int) :
    ((s.addai name limit).1.who = s.who ∨ ∃ i : Nat, s.info (MAXCLIENTS + i) = none ∧
      (s.addai name limit).1.who = s.who.addbot i) ∧
    Kept s (s.addai name limit).1 ∧ (s.addai name limit).1.lock = s.lock := by
  unfold addai
  simp only
  generalize ite (0 ≤ limit) _ _ = maxai
  split
  · exact ⟨Or.inl rfl, .refl s, rfl⟩
  · obtain ⟨bot, hbot⟩ : ∃ bot, MAXCLIENTS + (s.botslot : Int) = bot := ⟨_, rfl⟩
    have hw := who_adopt s (s.findaiclient (-1)) bot
    have hk := kept_adopt s (s.findaiclient (-1)) bot
    have hl := lock_adopt s (s.findaiclient (-1)) bot
    rw [hbot]
    cases hb : s.info bot with
    | some b =>
      refine ⟨Or.inl ?_, hk.trans (.upd _ _ fun _ => Or.inr rfl), hl⟩
      simp only
      rw [who_upd _ _ (by intro c; rfl), hw]
    | none =>
      simp only
      generalize s.adopt (s.findaiclient (-1)) bot = s1 at hw hk hl ⊢
      refine ⟨Or.inr ⟨s.botslot, hbot ▸ hb, ?_⟩, hk.trans ⟨?_, rfl, fun _ _ hm => Or.inl hm⟩, hl⟩
      · unfold Who.addbot
        unfold who at hw ⊢
        rw [Who.mk.injEq] at hw ⊢
        obtain ⟨h1, h2, h3⟩ := hw
        refine ⟨by rw [h1, hbot], by rw [h2], ?_⟩
        rw [hbot]
        funext n
        by_cases hn : n = bot
        · simp only [if_pos hn]
          rw [hn]
          rfl
        · simp only [if_neg hn]
          exact congrFun h3 n
      · intro m c hc
        simp only at hc
        split at hc
        · obtain rfl := Option.some.inj hc
          exact Or.inl ⟨rfl, rfl⟩
        · exact Or.inr ⟨c, hc, rfl⟩

theorem addai_moves (s : Server) (name : String) (limit : Int) :
    Moves P [] s (s.addai name limit).1 := by
  obtain ⟨hw | ⟨i, hfree, hw⟩, hk, hl⟩ := addai_cases s name limit
  · exact .calm ⟨hw, hl, hk⟩
  · exact .single (.addbot i hfree hw hk hl)

/-- What a message tells does not change anything else. -/
theorem calm_sendf (s : Server) (cn : Int) (chan : Nat) (fs : List Field) :
    Calm s (s.sendf cn chan fs) :=
  .of_core (core_sendf s cn chan fs)

theorem reqadd_cases (s : Server) (n : Int) (name : String) :
    (s.reqadd n name).core = s.core ∨ ∃ limit, (s.reqadd n name).core = (s.addai name limit).1.core := by
  unfold reqadd
  cases s.info n with
  | none => exact Or.inl rfl
  | some c =>
    simp only
    split
    · exact Or.inl rfl
    · right
      generalize (if (!c.isLocal && decide (c.privilege < .admin)) = true then (s.cfg.botlimit : Int)
        else -1) = limit
      refine ⟨limit, ?_⟩
      obtain ⟨s', b, h⟩ : ∃ s' b, s.addai name limit = (s', b) := ⟨_, _, rfl⟩
      rw [h]
      cases b with
      | true => rfl
      | false => exact core_sendf _ _ _ _

theorem reqadd_moves (s : Server) (n : Int) (name : String) : Moves P [] s (s.reqadd n name) := by
  rcases reqadd_cases s n name with h | ⟨limit, h⟩
  · exact .calm (.of_core h)
  · exact (addai_moves s name limit).trans_nil (.calm (.of_core h))

theorem deletelastai_moves (s : Server) : Moves P [] s s.deletelastai.1 := by
  unfold deletelastai
  split
  · exact .single (.delbot (by omega))
  · exact .refl s

theorem reqdel_moves (s : Server) (n : Int) : Moves P [] s (s.reqdel n) := by
  unfold reqdel
  cases s.info n with
  | none => exact .refl s
  | some c =>
    simp only
    split
    · exact .refl s
    · have h := deletelastai_moves (P := P) s
      obtain ⟨s', b, he⟩ : ∃ s' b, s.deletelastai = (s', b) := ⟨_, _, rfl⟩
      rw [he] at h ⊢
      cases b with
      | true => exact h
      | false => exact h.trans_nil (.calm (calm_sendf _ _ _ _))

/-- The identity of `n` with another privilege. -/
theorem who_setpriv (s : Server) (n : Int) (p : Priv) :
    (s.setpriv n p).who = { s.who with ident := fun m =>
      if m = n then (s.who.ident m).map fun i => { i with privilege := p } else s.who.ident m } :=
  who_upd_ident s n fun _ => rfl

/-- Raising a privilege and restoring it again changes nobody. -/
theorem who_setpriv_restore {n : Int} {c : ClientInfo} (hc : s.info n = some c) (p : Priv)
    (hw : t.who = (s.setpriv n p).who) : (t.setpriv n c.privilege).who = s.who := by
  rw [who_setpriv, hw, who_setpriv]
  have hident : s.who.ident n = some c.ident := congrArg (Option.map ClientInfo.ident) hc
  have hid : (fun m => if m = n then (if m = n then (s.who.ident m).map fun i : Ident =>
      { i with privilege := p } else s.who.ident m).map fun i => { i with privilege := c.privilege }
      else if m = n then (s.who.ident m).map fun i => { i with privilege := p } else s.who.ident m) =
      s.who.ident := by
    funext m
    by_cases hm : m = n
    · rw [if_pos hm, if_pos hm, hm, hident]
      rfl
    · rw [if_neg hm, if_neg hm]
  simp only
  rw [hid]

/-- A bot that joins while a privilege is raised joins the same people. -/
theorem who_addbot_restore {n : Int} {c : ClientInfo} (hc : s.info n = some c) (p : Priv)
    {i : Nat} (hfree : s.info (MAXCLIENTS + i) = none)
    (hw : t.who = (s.setpriv n p).who.addbot i) :
    (t.setpriv n c.privilege).who = s.who.addbot i := by
  have hne : n ≠ MAXCLIENTS + (i : Int) := by
    rintro rfl
    rw [hfree] at hc
    cases hc
  have hident : s.who.ident n = some c.ident := congrArg (Option.map ClientInfo.ident) hc
  rw [who_setpriv, hw, who_setpriv]
  unfold Who.addbot
  rw [Who.mk.injEq]
  refine ⟨rfl, rfl, ?_⟩
  funext m
  by_cases hm : m = n
  · simp only [hm, if_true, if_neg hne]
    rw [hident]
    rfl
  · simp only [if_neg hm]

theorem addBotHelper_moves (s : Server) (n : Int) (name : String) :
    Moves P [] s (s.addBotHelper n name) := by
  unfold addBotHelper
  cases hc : s.info n with
  | none => exact .refl s
  | some c =>
    change Moves P [] s (((s.setpriv n .master).reqadd n name).setpriv n c.privilege)
    have hraise : Kept s (s.setpriv n .master) := kept_setpriv s n .master
    rcases reqadd_cases (s.setpriv n .master) n name with h | ⟨limit, h⟩
    · have hcalm : Calm (s.setpriv n .master) ((s.setpriv n .master).reqadd n name) := .of_core h
      exact .calm ⟨who_setpriv_restore hc .master hcalm.who, hcalm.lock,
        hraise.trans (hcalm.kept.trans (kept_setpriv _ n _))⟩
    · obtain ⟨hw, hk, hl⟩ := addai_cases (s.setpriv n .master) name limit
      have hcalm := Calm.of_core h
      have hkept := hraise.trans (hk.trans (hcalm.kept.trans (kept_setpriv _ n c.privilege)))
      have hlock := hcalm.lock.trans hl
      rcases hw with hw | ⟨i, hfree, hw⟩
      · exact .calm ⟨who_setpriv_restore hc .master (hcalm.who.trans hw), hlock, hkept⟩
      · have hfree' : s.info (MAXCLIENTS + i) = none := by
          unfold setpriv at hfree
          rw [info_upd] at hfree
          split at hfree
          · exact Option.map_eq_none_iff.mp hfree
          · exact hfree
        exact .single (.addbot i hfree' (who_addbot_restore hc .master hfree' (hcalm.who.trans hw))
          hkept hlock)

/-! ## Map changes -/

theorem unlocked_unpaused (hs : s.Unlocked) (hl : t.lock = (s.mastermode, s.allowedips, false)) :
    t.Unlocked := by
  unfold Unlocked lock at hs
  rw [Prod.mk.injEq, Prod.mk.injEq] at hs
  unfold Unlocked
  rw [hl, hs.1, hs.2.1]

theorem unlocked_pausegame (hs : s.Unlocked) (n : Int) : (s.pausegame false n).Unlocked :=
  unlocked_unpaused hs (lock_pausegame s false n)

theorem who_startmap (h : s.Live) (map : String) (mode : Int) :
    (s.startmap map mode).who = (s.without s.botnums).who := by
  have hr : ((s.pausegame false).changegamespeed
      (s.pausegame false).cfg.defaultgamespeed).roster = s.roster := by
    rw [roster_changegamespeed, roster_pausegame]
  have hbots : ((s.pausegame false).changegamespeed
      (s.pausegame false).cfg.defaultgamespeed).botnums = s.botnums := by
    unfold botnums
    rw [of_roster nbots (fun _ => rfl) hr]
  calc (s.startmap map mode).who = (((s.pausegame false).changegamespeed
          (s.pausegame false).cfg.defaultgamespeed).clearai).who := rfl
    _ = (s.without s.botnums).who := by
      refine who_of_roster ?_
      rw [roster_clearai (h.of_roster hr), hbots, without_roster hr]

theorem startmap_moves (h : s.Live) (map : String) (mode : Int) :
    Moves P [] s (s.startmap map mode) := by
  refine .single (.newmap (who_startmap h map mode) ?_ ?_)
  · have hset : Kept _ (s.startmap map mode) :=
      .of_info (s := (((s.pausegame false).changegamespeed
        (s.pausegame false).cfg.defaultgamespeed).clearai)) (fun _ _ hc => hc) rfl rfl
    exact (kept_pausegame s false (-1)).trans ((kept_changegamespeed _ _ _).trans
      ((kept_clearai _).trans hset))
  · intro hs
    refine unlocked_of_lock (s := s.pausegame false) ?_ (unlocked_pausegame hs (-1))
    calc (s.startmap map mode).lock = (((s.pausegame false).changegamespeed
            (s.pausegame false).cfg.defaultgamespeed).clearai).lock := rfl
      _ = (s.pausegame false).lock := by rw [lock_clearai, lock_changegamespeed]

theorem calm_foldl {β : Type} (f : Server → β → Server) (hf : ∀ s x, Calm s (f s x)) (l : List β) :
    ∀ s, Calm s (l.foldl f s) := by
  induction l with
  | nil => exact fun s => .refl s
  | cons x l ih => exact fun s => (hf s x).trans (ih (f s x))

theorem calm_announcemap (s : Server) : Calm s s.announcemap :=
  (calm_sendf s _ _ _).trans (calm_foldl (fun s n => s.upd n ClientInfo.mapchange)
    (fun s n => .upd s n (fun _ => rfl) fun _ => Or.inr rfl) _ _)

/-- Nobody who has gone comes back by a disconnection. -/
theorem info_disconnectClient_none (h : s.WF) {m : Int} (hm : s.info m = none) (n : Int) (r : Disc) :
    (s.disconnectClient n r).info m = none := by
  cases hc : (s.disconnectClient n r).info m with
  | none => rfl
  | some c =>
    obtain ⟨d, hd, -⟩ := ident_disconnectClient h hc
    rw [hm] at hd
    cases hd

/-- Whoever is disconnected is gone. -/
theorem info_disconnectClient_self (h : s.Orderly) {n : Int} (hn : n < MAXCLIENTS) (r : Disc) :
    (s.disconnectClient n r).info n = none := by
  cases hs : s.info n with
  | none => exact info_disconnectClient_none h.toWF hs n r
  | some c =>
    have hget : s.getclientinfo n = some c := by
      unfold getclientinfo
      rw [if_pos ⟨h.nonneg n c hs, hn⟩, hs]
    unfold disconnectClient
    rw [hget]
    simp only [h.nolocal n c hs, Bool.false_eq_true, if_false]
    change ((s.clientdisconnect n).free n).info n = none
    rw [info_free, if_pos rfl]

/-- **A change to a local mode throws everybody out**: no network client keeps its record. -/
theorem info_kicknonlocalclients (h : s.Orderly) (r : Disc) {n : Int} (h0 : 0 ≤ n)
    (hn : n < MAXCLIENTS) : (s.kicknonlocalclients r).info n = none := by
  have hrun : ∀ (l : List Nat) (s : Server), s.Orderly → (n.toNat ∈ l ∨ s.info n = none) →
      (l.foldl (fun s (i : Nat) => s.disconnectClient i r) s).info n = none := by
    intro l
    induction l with
    | nil =>
      intro s _ hs
      rcases hs with hs | hs
      · cases hs
      · exact hs
    | cons i l ih =>
      intro s hs hmem
      rw [List.foldl_cons]
      refine ih _ (hs.disconnectClient _ r) ?_
      rcases hmem with hmem | hnone
      · rcases List.mem_cons.mp hmem with rfl | hmem
        · right
          have hcast : ((n.toNat : Nat) : Int) = n := Int.toNat_of_nonneg h0
          rw [hcast]
          exact info_disconnectClient_self hs hn r
        · exact Or.inl hmem
      · exact Or.inr (info_disconnectClient_none hs.toWF hnone _ r)
  have hmem : n.toNat ∈ List.range MAXCLIENTS.toNat := by
    rw [List.mem_range]
    omega
  unfold kicknonlocalclients
  exact hrun (List.range MAXCLIENTS.toNat) s h (Or.inl hmem)

/-- A map change that leaves a network client in place removes the bots, and that is all. -/
theorem changemap_moves (h : s.Orderly) (map : String) (mode : Int) {n : Int} {c : ClientInfo}
    (h0 : 0 ≤ n) (hn : n < MAXCLIENTS) (hc : (s.changemap map mode).info n = some c) :
    Moves P [] s (s.changemap map mode) ∧
      (s.changemap map mode).who = (s.without s.botnums).who := by
  have hstart := startmap_moves (P := P) h.toWF.toLive map mode
  have hwho := who_startmap h.toWF.toLive map mode
  have hord := hstart.orderly h
  unfold changemap at hc ⊢
  simp only at hc ⊢
  generalize hs1 : s.startmap map mode = s1 at hc hstart hwho hord ⊢
  generalize hs2 : (if mMp mode = true then s1 else s1.kicknonlocalclients .localmode) = s2 at hc ⊢
  have hcalm := calm_announcemap s2
  by_cases hmp : mMp mode = true
  · rw [if_pos hmp] at hs2
    subst hs2
    exact ⟨hstart.trans_nil (.calm hcalm), hcalm.who.trans hwho⟩
  · exfalso
    rw [if_neg hmp] at hs2
    -- the client would have to have outlived `kicknonlocalclients`
    obtain ⟨d, hd, -⟩ := some_of_ident (ident_of_who hcalm.who n) hc
    rw [← hs2, info_kicknonlocalclients hord .localmode h0 hn] at hd
    cases hd

/-! ## Entering the game -/

/-- A rotation is a map change, if there is an entry to rotate to. -/
theorem rotatemap_cases {u : Server} (hrun : s.rotatemap false = .ok u) :
    ∃ map mode, u = s.changemap map mode := by
  unfold rotatemap at hrun
  split at hrun
  · exact ⟨_, _, (Except.ok.inj hrun).symm⟩
  · unfold advance at hrun
    simp only [Bool.false_eq_true, if_false] at hrun
    split at hrun
    · cases hrun
    · exact ⟨_, _, (Except.ok.inj hrun).symm⟩

/-- Only humans have yet to finish connecting. -/
theorem WF.lt_of_connecting (h : s.WF) {n : Int} {c : ClientInfo} (hc : s.info n = some c)
    (hconn : c.connected = false) : n < MAXCLIENTS := by
  by_contra hge
  obtain ⟨d, hd, hdc⟩ := h.live n (h.bot n c hc (by omega)).2
  rw [hc] at hd
  rw [← Option.some.inj hd, hconn] at hdc
  cases hdc

/-- What `connected` comes to when it does not fault: the rotation, if the client lacks a
map, and then `enlist`. -/
theorem connected_cases {n : Int} {c : ClientInfo} (hc : s.info n = some c)
    (hrun : s.connected n = .ok t) :
    ∃ u d, (u = s ∨ s.rotatemap false = .ok u) ∧ u.info n = some d ∧ t = u.enlist n := by
  unfold connected at hrun
  rw [hc] at hrun
  simp only [bind, Except.bind] at hrun
  by_cases hm : s.hasmap c = true
  · rw [if_pos hm, hc] at hrun
    exact ⟨s, c, Or.inl rfl, hc, (Except.ok.inj hrun).symm⟩
  · rw [if_neg hm] at hrun
    cases hrot : s.rotatemap false with
    | error f => rw [hrot] at hrun; cases hrun
    | ok u =>
      rw [hrot] at hrun
      simp only at hrun
      cases hd : u.info n with
      | none => rw [hd] at hrun; cases hrun
      | some d =>
        rw [hd] at hrun
        exact ⟨u, d, Or.inr rfl, hd, (Except.ok.inj hrun).symm⟩

/-- **A client that finishes connecting** makes moves that grant nothing. -/
theorem connected_moves (h : s.Orderly) {n : Int} {c : ClientInfo} (hc : s.info n = some c)
    (hconn : c.connected = false) (hrun : s.connected n = .ok t) : Moves P [] s t := by
  have hn := h.toWF.lt_of_connecting hc hconn
  have h0 := h.nonneg n c hc
  obtain ⟨u, d, hu, hd, rfl⟩ := connected_cases hc hrun
  rcases hu with rfl | hrot
  · exact .single (.join hc hconn hn)
  · -- the client outlives the rotation only if the new mode is not local
    obtain ⟨map, mode, rfl⟩ := rotatemap_cases hrot
    obtain ⟨hmoves, hwho⟩ := changemap_moves (P := P) h map mode h0 hn hd
    obtain ⟨c', hc', hi⟩ := some_of_ident (ident_of_who hwho n) hd
    rw [info_without] at hc'
    split at hc'
    · cases hc'
    · obtain rfl := Option.some.inj (hc.symm.trans hc')
      have hdc : d.connected = false := (congrArg Ident.connected hi).symm.trans hconn
      exact hmoves.trans_nil (.single (.join hd hdc hn))

/-! ## What a kick was asked for stays asked for -/

/-- Every record that is left was there, with the same auth kick pending. -/
def SameVictim (s t : Server) : Prop :=
  ∀ n c', t.info n = some c' → ∃ c, s.info n = some c ∧ c.authkickvictim = c'.authkickvictim

theorem SameVictim.trans {u : Server} (h : SameVictim s t) (h' : SameVictim t u) :
    SameVictim s u := by
  intro n c' hc'
  obtain ⟨c, hc, hv⟩ := h' n c' hc'
  obtain ⟨d, hd, hv'⟩ := h n c hc
  exact ⟨d, hd, hv'.trans hv⟩

theorem SameVictim.of_info (h : ∀ n c, t.info n = some c → s.info n = some c) : SameVictim s t :=
  fun n c hc => ⟨c, h n c hc, rfl⟩

theorem SameVictim.upd (s : Server) (n : Int) {f : ClientInfo → ClientInfo}
    (hf : ∀ c, (f c).authkickvictim = c.authkickvictim) : SameVictim s (s.upd n f) := by
  intro m c' hc'
  rw [info_upd] at hc'
  split at hc'
  · cases hs : s.info m with
    | none => rw [hs] at hc'; cases hc'
    | some c =>
      rw [hs] at hc'
      obtain rfl := Option.some.inj hc'
      exact ⟨c, rfl, (hf c).symm⟩
  · exact ⟨c', hc', rfl⟩

theorem SameVictim.foldl {β : Type} (f : Server → β → Server) (hf : ∀ s x, SameVictim s (f s x))
    (l : List β) : ∀ s, SameVictim s (l.foldl f s) := by
  induction l with
  | nil => exact fun s => .of_info fun _ _ hc => hc
  | cons x l ih => exact fun s => (hf s x).trans (ih (f s x))

theorem sameVictim_deleteai (s : Server) (bot : Int) : SameVictim s (s.deleteai bot) := by
  unfold deleteai
  split
  · split
    · exact .of_info fun _ _ hc => hc
    · next b _ =>
      have hdisown : SameVictim s ((s.sendf (-1) 1 [.int MsgType.nCdis.code, .int bot]).disown
          b.ownernum bot) := by
        unfold disown
        split
        · exact .upd _ _ fun _ => rfl
        · exact .of_info fun _ _ hc => hc
      refine hdisown.trans (.of_info fun m c hc => ?_)
      rw [info_free] at hc
      split at hc
      · cases hc
      · exact hc
  · exact .of_info fun _ _ hc => hc

theorem sameVictim_startmap (s : Server) (map : String) (mode : Int) :
    SameVictim s (s.startmap map mode) := by
  have hpause : SameVictim s (s.pausegame false) := by
    unfold pausegame
    split <;> exact .of_info fun _ _ hc => hc
  have hspeed : SameVictim (s.pausegame false) ((s.pausegame false).changegamespeed
      (s.pausegame false).cfg.defaultgamespeed) := by
    unfold changegamespeed
    simp only
    split <;> exact .of_info fun _ _ hc => hc
  exact hpause.trans (hspeed.trans (SameVictim.foldl deleteai sameVictim_deleteai _ _))

/-- A map change that leaves a network client in place leaves its auth kick pending. -/
theorem sameVictim_changemap (h : s.Orderly) (map : String) (mode : Int) {n : Int}
    {c : ClientInfo} (h0 : 0 ≤ n) (hn : n < MAXCLIENTS)
    (hc : (s.changemap map mode).info n = some c) : SameVictim s (s.changemap map mode) := by
  have hord := (startmap_moves (P := fun _ _ => True) h.toWF.toLive map mode).orderly h
  have hstart := sameVictim_startmap s map mode
  unfold changemap at hc ⊢
  simp only at hc ⊢
  generalize hs1 : s.startmap map mode = s1 at hc hstart hord ⊢
  generalize hs2 : (if mMp mode = true then s1 else s1.kicknonlocalclients .localmode) = s2 at hc ⊢
  have hsend : SameVictim s2 (s2.sendf (-1) 1 [.int MsgType.nMapchange.code, .str s2.smapname,
      .int s2.gamemode, .int 1]) := .of_info fun _ _ hc => hc
  have hend : SameVictim s2 s2.announcemap := hsend.trans
    (SameVictim.foldl (fun s n => s.upd n ClientInfo.mapchange) (fun s n => .upd s n fun _ => rfl)
      _ _)
  by_cases hmp : mMp mode = true
  · rw [if_pos hmp] at hs2
    subst hs2
    exact hstart.trans hend
  · exfalso
    rw [if_neg hmp] at hs2
    obtain ⟨d, hd, -⟩ := hend n c hc
    rw [← hs2, info_kicknonlocalclients hord .localmode h0 hn] at hd
    cases hd

/-- A client that finishes connecting keeps its auth kick pending. -/
theorem victim_connected (h : s.Orderly) {n : Int} {c c' : ClientInfo} (hc : s.info n = some c)
    (hconn : c.connected = false) (hrun : s.connected n = .ok t) (hc' : t.info n = some c') :
    c.authkickvictim = c'.authkickvictim := by
  obtain ⟨u, d, hu, hd, rfl⟩ := connected_cases hc hrun
  have hu' : SameVictim s u := by
    rcases hu with rfl | hrot
    · exact .of_info fun _ _ hc => hc
    · obtain ⟨map, mode, rfl⟩ := rotatemap_cases hrot
      exact sameVictim_changemap h map mode (h.nonneg n c hc) (h.toWF.lt_of_connecting hc hconn) hd
  rcases info_enlist hc' with ⟨hne, -⟩ | ⟨-, e, he, heq⟩
  · exact absurd rfl hne
  · obtain ⟨c0, hc0, hv⟩ := hu' n e he
    obtain rfl := Option.some.inj (hc.symm.trans hc0)
    rw [hv, heq]

end Server
end QServ
