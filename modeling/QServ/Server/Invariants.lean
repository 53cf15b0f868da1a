import QServ.Server.Moves

/-!
# What moves preserve

Three invariants of the session, each proved of one move and then of a sequence.

* `Moves.rise`: no privilege rises but by a `grant`, and then to the level granted.
* `Moves.owned`: the server stays owned, as long as every departure `LeavesOwned` and bots
  are granted nothing.
* `Moves.asked`: every challenge belongs to a pending request of a known user, bots have
  no pending request, and no request for the master server is numbered zero.
-/

namespace QServ
namespace Server

variable {P : Server → Int → Prop} {gs : List (Int × Priv)} {g : Option (Int × Priv)}
  {s t : Server}

/-! ## Privileges rise by grants -/

/-- The privilege of client `n` did not rise, or was granted: it has none now, or the one it
had before, or the one just granted. -/
def Held (s : Server) (gs : List (Int × Priv)) (n : Int) (p : Priv) : Prop :=
  p = .none ∨ (∃ c, s.info n = some c ∧ c.privilege = p) ∨ (n, p) ∈ gs

theorem Held.of_who (hw : t.who = s.who) {n : Int} {c : ClientInfo} (hc : t.info n = some c) :
    s.Held gs n c.privilege := by
  obtain ⟨d, hd, hi⟩ := some_of_ident (ident_of_who hw n) hc
  exact Or.inr (Or.inl ⟨d, hd, congrArg Ident.privilege hi⟩)

theorem Held.of_without {gone : List Int} (hw : t.who = (s.without gone).who) {n : Int}
    {c : ClientInfo} (hc : t.info n = some c) : s.Held gs n c.privilege := by
  obtain ⟨d, hd, hi⟩ := some_of_ident (ident_of_who hw n) hc
  rw [info_without] at hd
  split at hd
  · cases hd
  · exact Or.inr (Or.inl ⟨d, hd, congrArg Ident.privilege hi⟩)

/-- Whoever is left after a departure was there before, with the same identity. -/
theorem ident_disconnectClient (h : s.WF) {n : Int} {r : Disc} {m : Int} {c' : ClientInfo}
    (hc' : (s.disconnectClient n r).info m = some c') :
    ∃ c, s.info m = some c ∧ c.ident = c'.ident := by
  rcases disconnectClient_cases h n r with hs | ⟨_, _, _, _, _, _, _, hw⟩ | ⟨_, _, _, _, hw, _⟩
  · exact ⟨c', hs ▸ hc', rfl⟩
  all_goals
    obtain ⟨c, hc, hi⟩ := some_of_ident (ident_of_who hw m) hc'
    rw [info_without] at hc
    split at hc
    · cases hc
    · exact ⟨c, hc, hi⟩

theorem Held.disconnectClient (h : s.WF) {n : Int} {r : Disc} {m : Int} {c : ClientInfo}
    (hc : (s.disconnectClient n r).info m = some c) : s.Held gs m c.privilege := by
  obtain ⟨d, hd, hi⟩ := ident_disconnectClient h hc
  exact Or.inr (Or.inl ⟨d, hd, congrArg Ident.privilege hi⟩)

theorem Held.setpriv {n : Int} {p : Priv} (hw : t.who = (s.setpriv n p).who) {m : Int}
    {c : ClientInfo} (hc : t.info m = some c) (hp : p = .none ∨ (n, p) ∈ gs) :
    s.Held gs m c.privilege := by
  obtain ⟨d, hd, hi⟩ := some_of_ident (ident_of_who hw m) hc
  rw [← show d.privilege = c.privilege from congrArg Ident.privilege hi]
  unfold Server.setpriv at hd
  rw [info_upd] at hd
  split at hd
  · next hm =>
    cases hs : s.info m with
    | none => rw [hs] at hd; cases hd
    | some c0 =>
      rw [hs] at hd
      obtain rfl := Option.some.inj hd
      rcases hp with hp | hp
      · exact Or.inl hp
      · rw [hm]
        exact Or.inr (Or.inr hp)
  · exact Or.inr (Or.inl ⟨d, hd, rfl⟩)

/-- **A move raises no privilege** but the one it grants. -/
theorem Move.rise (h : Move P g s t) (hs : s.Orderly) {n : Int} {c : ClientInfo}
    (hc : t.info n = some c) : s.Held g.toList n c.privilege := by
  cases h with
  | calm h => exact Held.of_who h.who hc
  | ease hw => exact Held.of_who hw hc
  | lockby _ _ _ hw => exact Held.of_who hw hc
  | grant hw => exact Held.setpriv hw hc (Or.inr (by simp))
  | release hw => exact Held.setpriv hw hc (Or.inl rfl)
  | leave r => exact Held.disconnectClient hs.toWF hc
  | reject r => exact Held.disconnectClient hs.toWF hc
  | kicked r => exact Held.disconnectClient hs.toWF hc
  | arrive m host hostname sid =>
    rcases info_clientconnect hc with hc | ⟨-, -, -, -, he⟩
    · exact Or.inr (Or.inl ⟨c, hc, rfl⟩)
    · exact Or.inl (by rw [he])
  | join _ _ _ =>
    rcases info_enlist hc with ⟨-, hc⟩ | ⟨rfl, d, hd, he⟩
    · exact Or.inr (Or.inl ⟨c, hc, rfl⟩)
    · exact Or.inr (Or.inl ⟨d, hd, by rw [he]⟩)
  | owing d _ =>
    rw [info_upd] at hc
    split at hc
    · cases hn : s.info n with
      | none => rw [hn] at hc; cases hc
      | some c0 =>
        rw [hn] at hc
        obtain rfl := Option.some.inj hc
        exact Or.inr (Or.inl ⟨c0, hn, rfl⟩)
    · exact Or.inr (Or.inl ⟨c, hc, rfl⟩)
  | ask _ hw => exact Held.of_who hw hc
  | addbot i _ hw =>
    have hid := congrFun (congrArg Who.ident hw) n
    rw [show t.who.ident n = some c.ident from congrArg (Option.map ClientInfo.ident) hc] at hid
    unfold Who.addbot at hid
    simp only at hid
    split at hid
    · exact Or.inl (congrArg Ident.privilege (Option.some.inj hid))
    · obtain ⟨d, hd, hi⟩ := some_of_ident (show (some c).map ClientInfo.ident =
        (s.info n).map ClientInfo.ident from hid) rfl
      exact Or.inr (Or.inl ⟨d, hd, congrArg Ident.privilege hi⟩)
  | delbot hb =>
    rcases who_deleteai hs.toWF.toLive _ with hw | hw
    · exact Held.of_who hw hc
    · exact Held.of_without hw hc
  | newmap hw => exact Held.of_without hw hc

/-- **A sequence of moves raises no privilege** but those it grants. -/
theorem Moves.rise (h : Moves P gs s t) (hs : s.Orderly) {n : Int} {c : ClientInfo}
    (hc : t.info n = some c) : s.Held gs n c.privilege := by
  induction h generalizing c with
  | refl => exact Or.inr (Or.inl ⟨c, hc, rfl⟩)
  | tail hrest hm ih =>
    rcases hm.rise (hrest.orderly hs) hc with hp | ⟨d, hd, hp⟩ | hg
    · exact Or.inl hp
    · rcases ih hs hd with hp' | hp' | hg
      · exact Or.inl (hp ▸ hp')
      · exact Or.inr (Or.inl (hp ▸ hp'))
      · exact Or.inr (Or.inr (List.mem_append_left _ (hp ▸ hg)))
    · exact Or.inr (Or.inr (List.mem_append_right _ hg))

/-- Bots hold no privilege as long as none is granted to a bot. -/
theorem Moves.botsUnranked (h : Moves P gs s t) (hs : s.Orderly) (hb : s.BotsUnranked)
    (hgs : ∀ g ∈ gs, g.1 < MAXCLIENTS) : t.BotsUnranked := by
  intro n c hc hn
  rcases h.rise hs hc with hp | ⟨d, hd, hp⟩ | hg
  · exact hp
  · rw [← hp]
    exact hb n d hd hn
  · have := hgs _ hg
    simp only at this
    omega

/-! ## The server stays owned -/

/-- An owner listed before is still listed with the same identity. -/
theorem hasmaster_mono (h : ∀ n ∈ s.clients, ∀ c, s.info n = some c → c.ident.owner →
    n ∈ t.clients ∧ ∃ c', t.info n = some c' ∧ c'.ident.owner) (hs : s.hasmaster) :
    t.hasmaster := by
  obtain ⟨n, hn, c, hc, ho⟩ := (hasmaster_iff s).mp hs
  obtain ⟨hn', c', hc', ho'⟩ := h n hn c hc ho
  exact (hasmaster_iff t).mpr ⟨n, hn', c', hc', ho'⟩

/-- The server stays owned if its owners stay and nothing gets locked that was not. -/
theorem Owned.of_unlocked (hs : s.Owned) (hm : s.hasmaster → t.hasmaster)
    (hl : s.Unlocked → t.Unlocked) : t.Owned := by
  rcases hs with hs | hs
  · exact Or.inl (hm hs)
  · exact Or.inr (hl hs)

theorem unlocked_of_lock (h : t.lock = s.lock) (hs : s.Unlocked) : t.Unlocked := by
  unfold Unlocked
  rw [h]
  exact hs

/-- Bots are no owners, so they may go. -/
theorem Orderly.hasmaster_without_bots (h : s.Orderly) (hb : s.BotsUnranked) {gone : List Int}
    (hg : ∀ b ∈ gone, MAXCLIENTS ≤ b) (hs : s.hasmaster) : (s.without gone).hasmaster := by
  obtain ⟨n, hn, c, hc, ho⟩ := (hasmaster_iff s).mp hs
  refine hasmaster_without.mpr ⟨n, hn, ?_, c, hc, ho⟩
  intro hmem
  rw [owner_iff, h.nolocal n c hc, hb n c hc (hg n hmem)] at ho
  simp at ho

/-- A client that has not finished connecting may always be disconnected. -/
theorem leavesOwned_of_connecting {n : Int} (h : ∀ c, s.info n = some c → c.connected = false) :
    s.LeavesOwned n := by
  intro c hc hconn
  rw [h c hc] at hconn
  cases hconn

/-- So may a client while another is listed that does not rank below it. -/
theorem leavesOwned_of_le {n a : Int} {ca : ClientInfo} (ha : a ∈ s.clients) (hne : a ≠ n)
    (hca : s.info a = some ca) (hle : ∀ c, s.info n = some c → c.privilege ≤ ca.privilege) :
    s.LeavesOwned n := by
  intro c hc _ hp _
  refine Or.inl ⟨a, ha, hne, ca, hca, (owner_iff ca).mpr (Or.inr ?_)⟩
  rw [Priv.ne_none_iff] at hp ⊢
  exact hp.trans (hle c hc)

theorem lock_clientconnect (s : Server) (n : Int) (host : Nat) (hostname : String) (sid : Int) :
    (s.clientconnect n host hostname sid).lock = s.lock := by
  unfold clientconnect
  split <;> rfl

/-- A bot that joins leaves the owners where they are. -/
theorem hasmaster_addbot {i : Nat} (hfree : s.info (MAXCLIENTS + i) = none)
    (hw : t.who = s.who.addbot i) (hs : s.hasmaster) : t.hasmaster := by
  rw [hasmaster_eq, hw]
  rw [hasmaster_eq, List.any_eq_true] at hs
  obtain ⟨n, hn, ho⟩ := hs
  refine List.any_eq_true.mpr ⟨n, List.mem_append_left _ hn, ?_⟩
  have hne : n ≠ MAXCLIENTS + (i : Int) := by
    rintro rfl
    simp [who, hfree] at ho
  unfold Who.addbot
  simp only
  rw [if_neg hne]
  exact ho

theorem hasmaster_enlist {n : Int} {c : ClientInfo} (hc : s.info n = some c)
    (hs : s.hasmaster) : (s.enlist n).hasmaster := by
  refine hasmaster_mono (fun m hm d hd ho => ?_) hs
  refine ⟨?_, ?_⟩
  · rw [clients_enlist]
    exact List.mem_append_left _ hm
  · unfold enlist
    simp only
    rw [info_upd]
    split
    · next he =>
      subst he
      exact ⟨_, congrArg (Option.map _) hd, ho⟩
    · exact ⟨d, hd, ho⟩

/-- **A move keeps the server owned**, if every departure leaves it owned. -/
theorem Move.owned (h : Move LeavesOwned g s t) (hs : s.Orderly) (hb : s.BotsUnranked)
    (ho : s.Owned) : t.Owned := by
  cases h with
  | calm h => exact ho.of_calm h
  | ease hw _ hl =>
    refine ho.of_unlocked (fun hm => ?_) hl
    rwa [hasmaster_of_who hw]
  | lockby hn hc hown hw =>
    left
    rw [hasmaster_of_who hw]
    exact (hasmaster_iff s).mpr ⟨_, hn, _, hc, hown⟩
  | grant _ _ ho' => exact ho'
  | release _ _ ho' => exact ho'
  | leave r hok => exact ho.disconnectClient hs hb r hok
  | reject r hconn => exact ho.disconnectClient hs hb r (leavesOwned_of_connecting hconn)
  | kicked r ha hne hca hle =>
    exact ho.disconnectClient hs hb r (leavesOwned_of_le ha hne hca hle)
  | arrive n host hostname sid =>
    refine ho.of_unlocked (fun hm => ?_)
      (unlocked_of_lock (lock_clientconnect s n host hostname sid))
    refine hasmaster_mono (fun m hmem c hc hown => ⟨?_, c, info_clientconnect_of_some hc, hown⟩) hm
    rwa [clients_clientconnect]
  | join hc _ _ => exact ho.of_unlocked (hasmaster_enlist hc) (unlocked_of_lock rfl)
  | owing d _ =>
    refine ho.of_unlocked (fun hm => ?_) (unlocked_of_lock rfl)
    refine hasmaster_mono (s := s) (fun m hmem c hc hown => ⟨hmem, ?_⟩) hm
    rw [info_upd]
    split
    · exact ⟨_, congrArg (Option.map _) hc, hown⟩
    · exact ⟨c, hc, hown⟩
  | ask _ hw hl =>
    refine ho.of_unlocked (fun hm => ?_) (unlocked_of_lock hl)
    rwa [hasmaster_of_who hw]
  | addbot i hfree hw _ hl =>
    exact ho.of_unlocked (hasmaster_addbot hfree hw) (unlocked_of_lock hl)
  | delbot hbot =>
    refine ho.of_unlocked (fun hm => ?_) (unlocked_of_lock (lock_deleteai s _))
    rcases who_deleteai hs.toWF.toLive _ with hw | hw
    · rwa [hasmaster_of_who hw]
    · rw [hasmaster_of_who hw]
      refine hs.hasmaster_without_bots hb (fun b hmem => ?_) hm
      rwa [List.mem_singleton.mp hmem]
  | newmap hw _ hl =>
    refine ho.of_unlocked (fun hm => ?_) hl
    rw [hasmaster_of_who hw]
    exact hs.hasmaster_without_bots hb (fun b hb => (mem_botnums.mp hb).1) hm

theorem Moves.owned (h : Moves LeavesOwned gs s t) (hs : s.Orderly) (hb : s.BotsUnranked)
    (hgs : ∀ g ∈ gs, g.1 < MAXCLIENTS) (ho : s.Owned) : t.Owned := by
  induction h with
  | refl => exact ho
  | tail hrest hm ih =>
    have hgs' := fun g hg => hgs g (List.mem_append_left _ hg)
    exact hm.owned (hrest.orderly hs) (hrest.botsUnranked hs hb hgs') (ih hs hb hgs' ho)

/-! ## Auth requests -/

/-- What holds of the auth requests of a server whose users were all in `users` at some
time: a challenge is made for a pending request from the key of a user of that name and
domain, bots ask for nothing, and requests to the master server have a number. -/
structure Asked (users : List UserInfo) (s : Server) : Prop where
  known : s.users ⊆ users
  challenge : ∀ n c, s.info n = some c → ChallengeFrom users c
  bot : ∀ n c, s.info n = some c → MAXCLIENTS ≤ n → c.authreq = 0
  numbered : ∀ id user, MasterReq.reqauth id user ∈ s.toMaster → id ≠ 0

theorem ChallengeFrom.of_pending {users : List UserInfo} {c c' : ClientInfo}
    (h : ChallengeFrom users c) (hp : pending c = pending c') : ChallengeFrom users c' := by
  have hr : c.authreq = c'.authreq := congrArg (fun p => p.1) hp
  have hname : c.authname = c'.authname := congrArg (fun p => p.2.1) hp
  have hdesc : c.authdesc = c'.authdesc := congrArg (fun p => p.2.2.1) hp
  have hch : c.authchallenge = c'.authchallenge := congrArg (fun p => p.2.2.2) hp
  unfold ChallengeFrom at h ⊢
  rwa [← hr, ← hname, ← hdesc, ← hch]

theorem ChallengeFrom.mono {users users' : List UserInfo} (hle : users ⊆ users') {c : ClientInfo}
    (h : ChallengeFrom users c) : ChallengeFrom users' c := by
  intro ch hch
  obtain ⟨hr, u, hu, he⟩ := h ch hch
  exact ⟨hr, u, hle hu, he⟩

theorem Asked.of_kept {users : List UserInfo} (h : Asked users s) (hk : Kept s t) :
    Asked users t := by
  refine ⟨hk.users ▸ h.known, ?_, ?_, ?_⟩
  · intro n c' hc'
    rcases hk.auth n c' hc' with ⟨-, hidle⟩ | ⟨c, hc, hp⟩
    · intro ch hch
      rw [hidle] at hch
      cases hch
    · exact (h.challenge n c hc).of_pending hp
  · intro n c' hc' hn
    rcases hk.auth n c' hc' with ⟨hidle, -⟩ | ⟨c, hc, hp⟩
    · exact hidle
    · have hr : c.authreq = c'.authreq := congrArg (fun p => p.1) hp
      rw [← hr]
      exact h.bot n c hc hn
  · intro id user hm
    rcases hk.reqs id user hm with hm | hne
    · exact h.numbered id user hm
    · exact hne

theorem kept_clientconnect (s : Server) (n : Int) (host : Nat) (hostname : String) (sid : Int) :
    Kept s (s.clientconnect n host hostname sid) := by
  refine ⟨?_, ?_, ?_⟩
  · intro m c hc
    rcases info_clientconnect hc with hc | ⟨-, -, -, -, he⟩
    · exact Or.inr ⟨c, hc, rfl⟩
    · exact Or.inl (by rw [he]; exact ⟨rfl, rfl⟩)
  · unfold clientconnect
    split <;> rfl
  · intro id user hm
    unfold clientconnect at hm
    split at hm <;> exact Or.inl hm

theorem kept_enlist (s : Server) (n : Int) : Kept s (s.enlist n) := by
  refine ⟨?_, rfl, fun _ _ hm => Or.inl hm⟩
  intro m c hc
  rcases info_enlist hc with ⟨-, hc⟩ | ⟨rfl, d, hd, he⟩
  · exact Or.inr ⟨c, hc, rfl⟩
  · exact Or.inr ⟨d, hd, by rw [he]; rfl⟩

/-- **A move makes no challenge** but from the key of the user that asks. -/
theorem Move.asked {users : List UserInfo} (h : Move P g s t) (hs : Asked users s) :
    Asked users t := by
  cases h with
  | calm h => exact hs.of_kept h.kept
  | ease _ hk => exact hs.of_kept hk
  | lockby _ _ _ _ hk => exact hs.of_kept hk
  | grant _ hk => exact hs.of_kept hk
  | release _ hk => exact hs.of_kept hk
  | leave r => exact hs.of_kept (kept_disconnectClient s _ r)
  | reject r => exact hs.of_kept (kept_disconnectClient s _ r)
  | kicked r => exact hs.of_kept (kept_disconnectClient s _ r)
  | arrive n host hostname sid => exact hs.of_kept (kept_clientconnect s n host hostname sid)
  | join => exact hs.of_kept (kept_enlist s _)
  | owing => exact hs.of_kept (.upd s _ fun _ => Or.inr rfl)
  | ask hn _ _ hu ha hr =>
    refine ⟨hu ▸ hs.known, ?_, ?_, ?_⟩
    · intro m c' hc'
      rcases ha m c' hc' with ⟨-, hch⟩ | ⟨c, hc, hp⟩
      · exact hch.mono hs.known
      · exact (hs.challenge m c hc).of_pending hp
    · intro m c' hc' hm
      rcases ha m c' hc' with ⟨rfl, -⟩ | ⟨c, hc, hp⟩
      · omega
      · have hr : c.authreq = c'.authreq := congrArg (fun p => p.1) hp
        rw [← hr]
        exact hs.bot m c hc hm
    · intro id user hm
      rcases hr id user hm with hm | hne
      · exact hs.numbered id user hm
      · exact hne
  | addbot i _ _ hk => exact hs.of_kept hk
  | delbot => exact hs.of_kept (kept_deleteai s _)
  | newmap _ hk => exact hs.of_kept hk

theorem Moves.asked {users : List UserInfo} (h : Moves P gs s t) (hs : Asked users s) :
    Asked users t := by
  induction h with
  | refl => exact hs
  | tail _ hm ih => exact hm.asked (ih hs)

end Server
end QServ
