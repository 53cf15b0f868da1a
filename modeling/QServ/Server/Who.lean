import QServ.Server.Core

/-!
# Who is there, and what is locked

Two views of the session state.  `who` keeps the client list and of every record its
number, its kind, how far it has got in connecting and its privilege; `lock` keeps the
settings that only masters may change.  Most of what the server does leaves both alone.
-/

namespace QServ

/-- What `who` keeps of a record. -/
structure Ident where
  clientnum : Int
  connected : Bool
  aitype : AiType
  isLocal : Bool
  privilege : Priv
  connectauth : Disc
  deriving DecidableEq, Repr

/-- What `who` keeps of a record. -/
def ClientInfo.ident (c : ClientInfo) : Ident :=
  { clientnum := c.clientnum, connected := c.connected, aitype := c.aitype,
    isLocal := c.isLocal, privilege := c.privilege, connectauth := c.connectauth }

/-- A client with any privilege, or a local one, keeps the server from being ownerless. -/
def Ident.owner (i : Ident) : Bool := i.isLocal || decide (Priv.master ≤ i.privilege)

/-- The client list, the number of bot slots and the records. -/
structure Who where
  clients : List Int
  nbots : Nat
  ident : Int → Option Ident

namespace Server

variable {s s' s'' : Server}

/-- Who is there. -/
def who (s : Server) : Who :=
  { clients := s.clients, nbots := s.nbots, ident := fun n => (s.info n).map ClientInfo.ident }

/-- What is locked: the master mode, the addresses let in, and the pause flag. -/
def lock (s : Server) : MasterMode × List Nat × Bool := (s.mastermode, s.allowedips, s.gamepaused)

/-- Nothing is locked: the master mode is open, nobody is let in by address and the game
is not paused. -/
def Unlocked (s : Server) : Prop := s.lock = (.mmOpen, [], false)

/-- What a pending auth request consists of. -/
def pending (c : ClientInfo) : Nat × String × String × Option Challenge :=
  (c.authreq, c.authname, c.authdesc, c.authchallenge)

/-- No auth request is pending. -/
def Idle (c : ClientInfo) : Prop := c.authreq = 0 ∧ c.authchallenge = none

/-- A change that makes no auth request, leaves the user table alone and sends no request
numbered zero to the master server. -/
structure Kept (s s' : Server) : Prop where
  auth : ∀ n c', s'.info n = some c' →
    Idle c' ∨ ∃ c, s.info n = some c ∧ pending c = pending c'
  users : s'.users = s.users
  reqs : ∀ id user, MasterReq.reqauth id user ∈ s'.toMaster →
    MasterReq.reqauth id user ∈ s.toMaster ∨ id ≠ 0

theorem Kept.refl (s : Server) : Kept s s :=
  ⟨fun _ c hc => Or.inr ⟨c, hc, rfl⟩, rfl, fun _ _ h => Or.inl h⟩

theorem Idle.of_pending {c c' : ClientInfo} (h : Idle c) (hp : pending c = pending c') :
    Idle c' := by
  have hr : c.authreq = c'.authreq := congrArg (fun p => p.1) hp
  have hch : c.authchallenge = c'.authchallenge := congrArg (fun p => p.2.2.2) hp
  exact ⟨hr ▸ h.1, hch ▸ h.2⟩

theorem Kept.trans (h : Kept s s') (h' : Kept s' s'') : Kept s s'' := by
  refine ⟨?_, h'.users.trans h.users, ?_⟩
  · intro n c' hc'
    rcases h'.auth n c' hc' with hidle | ⟨c, hc, hp⟩
    · exact Or.inl hidle
    · rcases h.auth n c hc with hidle | ⟨d, hd, hp'⟩
      · exact Or.inl (hidle.of_pending hp)
      · exact Or.inr ⟨d, hd, hp'.trans hp⟩
  · intro id user hm
    rcases h'.reqs id user hm with hm | hne
    · exact h.reqs id user hm
    · exact Or.inr hne

/-- Nothing of the kind happens where the records are the same. -/
theorem Kept.of_info (hi : ∀ n c', s'.info n = some c' → s.info n = some c')
    (hu : s'.users = s.users) (ht : s'.toMaster = s.toMaster) : Kept s s' :=
  ⟨fun n c' hc' => Or.inr ⟨c', hi n c' hc', rfl⟩, hu, fun _ _ h => Or.inl (ht ▸ h)⟩

theorem Kept.of_core (h : s'.core = s.core) : Kept s s' := by
  refine ⟨?_, Server.of_core Server.users (fun _ => rfl) h, ?_⟩
  · intro n c' hc'
    have hn := info_of_core h n
    rw [hc'] at hn
    cases hs : s.info n with
    | none => rw [hs] at hn; cases hn
    | some c =>
      rw [hs] at hn
      exact Or.inr ⟨c, rfl, (congrArg pending (Option.some.inj hn)).symm⟩
  · intro id user hm
    rw [Server.of_core Server.toMaster (fun _ => rfl) h] at hm
    exact Or.inl hm

/-- Writing to one record is harmless if it keeps the request or drops the challenge. -/
theorem Kept.upd (s : Server) (n : Int) {f : ClientInfo → ClientInfo}
    (hf : ∀ c, Idle (f c) ∨ pending c = pending (f c)) : Kept s (s.upd n f) := by
  refine ⟨?_, rfl, fun _ _ h => Or.inl h⟩
  intro m c' hc'
  rw [info_upd] at hc'
  split at hc'
  · cases hs : s.info m with
    | none => rw [hs] at hc'; cases hc'
    | some c =>
      rw [hs] at hc'
      obtain rfl := Option.some.inj hc'
      rcases hf c with h | h
      · exact Or.inl h
      · exact Or.inr ⟨c, rfl, h⟩
  · exact Or.inr ⟨c', hc', rfl⟩

/-- A change that leaves alone who is there and what is locked, and makes no auth request. -/
structure Calm (s s' : Server) : Prop where
  who : s'.who = s.who
  lock : s'.lock = s.lock
  kept : Kept s s'

theorem Calm.refl (s : Server) : Calm s s := ⟨rfl, rfl, .refl s⟩

theorem Calm.trans (h : Calm s s') (h' : Calm s' s'') : Calm s s'' :=
  ⟨h'.who.trans h.who, h'.lock.trans h.lock, h.kept.trans h'.kept⟩

theorem who_of_roster (h : s'.roster = s.roster) : s'.who = s.who := by
  have hinfo : (fun n => (s'.info n).map ClientInfo.ident) =
      fun n => (s.info n).map ClientInfo.ident := by
    funext n
    have hn := info_of_roster h n
    cases hs : s.info n with
    | none =>
      rw [hs] at hn
      rw [Option.map_eq_none_iff.mp hn]
    | some c =>
      obtain ⟨c', hc', hb⟩ := some_of_base hn.symm hs
      rw [hc', Option.map_some, Option.map_some,
        ClientInfo.base_congr ClientInfo.ident (fun _ => rfl) hb]
  unfold who
  rw [clients_of_roster h, of_roster nbots (fun _ => rfl) h, hinfo]

theorem Calm.of_core (h : s'.core = s.core) : Calm s s' :=
  ⟨who_of_roster (roster_of_core h), Server.of_core Server.lock (fun _ => rfl) h, .of_core h⟩

theorem who_upd (s : Server) (n : Int) {f : ClientInfo → ClientInfo}
    (hf : ∀ c, (f c).ident = c.ident) : (s.upd n f).who = s.who := by
  unfold who
  rw [map_info_upd s n ClientInfo.ident hf]
  rfl

/-- Writing to the identity of one record. -/
theorem who_upd_ident (s : Server) (n : Int) {f : ClientInfo → ClientInfo} {g : Ident → Ident}
    (hf : ∀ c, (f c).ident = g c.ident) :
    (s.upd n f).who =
      { s.who with ident := fun m => if m = n then (s.who.ident m).map g else s.who.ident m } := by
  have hinfo : (s.upd n f).who.ident =
      fun m => if m = n then (s.who.ident m).map g else s.who.ident m := by
    funext m
    change ((s.upd n f).info m).map _ = if m = n then ((s.info m).map _).map g else (s.info m).map _
    rw [info_upd]
    split
    · cases s.info m <;> simp [hf]
    · rfl
  calc (s.upd n f).who = { s.who with ident := (s.upd n f).who.ident } := rfl
    _ = _ := by rw [hinfo]

/-- Two servers with the same people still have the same after the same change of one. -/
theorem who_upd_congr (h : s'.who = s.who) (n : Int) {f : ClientInfo → ClientInfo}
    (g : Ident → Ident) (hf : ∀ c, (f c).ident = g c.ident) :
    (s'.upd n f).who = (s.upd n f).who := by
  rw [who_upd_ident s' n hf, who_upd_ident s n hf, h]

theorem Calm.upd (s : Server) (n : Int) {f : ClientInfo → ClientInfo}
    (hf : ∀ c, (f c).ident = c.ident)
    (hp : ∀ c, Idle (f c) ∨ pending c = pending (f c)) : Calm s (s.upd n f) :=
  ⟨who_upd s n hf, rfl, .upd s n hp⟩

theorem ident_of_who (h : s'.who = s.who) (n : Int) :
    (s'.info n).map ClientInfo.ident = (s.info n).map ClientInfo.ident :=
  congrFun (congrArg Who.ident h) n

theorem clients_of_who (h : s'.who = s.who) : s'.clients = s.clients := congrArg Who.clients h

theorem who_without (h : s'.who = s.who) (gone : List Int) :
    (s'.without gone).who = (s.without gone).who := by
  have hident : (s'.without gone).who.ident = (s.without gone).who.ident := by
    funext n
    change ((s'.without gone).info n).map _ = ((s.without gone).info n).map _
    rw [info_without, info_without]
    split
    · rfl
    · exact ident_of_who h n
  have hcl : (s'.without gone).who.clients = (s.without gone).who.clients := by
    change (s'.without gone).clients = (s.without gone).clients
    rw [clients_without, clients_without, clients_of_who h]
  have hbots : (s'.without gone).who.nbots = (s.without gone).who.nbots := by
    change s'.who.nbots = s.who.nbots
    rw [h]
  calc (s'.without gone).who
      = ⟨(s'.without gone).who.clients, (s'.without gone).who.nbots,
          (s'.without gone).who.ident⟩ := rfl
    _ = (s.without gone).who := by rw [hident, hcl, hbots]

/-- A record read after the change was there before, with the same identity. -/
theorem some_of_ident {o o' : Option ClientInfo} {c' : ClientInfo}
    (h : o'.map ClientInfo.ident = o.map ClientInfo.ident) (hc : o' = some c') :
    ∃ c, o = some c ∧ c.ident = c'.ident := by
  subst hc
  cases o with
  | none => simp at h
  | some c => exact ⟨c, rfl, (Option.some.inj h).symm⟩

/-- The invariant of the client lists is about who is there. -/
theorem WF.of_who (h : s.WF) (hw : s'.who = s.who) : s'.WF := by
  have hcl : s'.clients = s.clients := clients_of_who hw
  have hbots : s'.nbots = s.nbots := congrArg Who.nbots hw
  have hback : ∀ n c', s'.info n = some c' → ∃ c, s.info n = some c ∧ c.ident = c'.ident :=
    fun n c' => some_of_ident (ident_of_who hw n)
  refine ⟨by rw [hcl]; exact h.nodup, ?_, ?_, ?_, ?_, ?_, ?_⟩
  · intro n hn
    rw [hcl] at hn
    obtain ⟨c, hc, hconn⟩ := h.live n hn
    obtain ⟨c', hc', hi⟩ := some_of_ident (ident_of_who hw n).symm hc
    exact ⟨c', hc', (congrArg Ident.connected hi).trans hconn⟩
  · intro n c' hc'
    obtain ⟨c, hc, hi⟩ := hback n c' hc'
    exact (congrArg Ident.clientnum hi).symm.trans (h.clientnum n c hc)
  · intro n c' hc'
    obtain ⟨c, hc, -⟩ := hback n c' hc'
    exact h.nonneg n c hc
  · intro n c' hc'
    obtain ⟨c, hc, hi⟩ := hback n c' hc'
    have ht : c.aitype = c'.aitype := congrArg Ident.aitype hi
    rw [← ht]
    exact h.human n c hc
  · intro n c' hc' hn
    obtain ⟨c, hc, -⟩ := hback n c' hc'
    rw [hbots, hcl]
    exact h.bot n c hc hn
  · intro n c' hc' hconn
    obtain ⟨c, hc, hi⟩ := hback n c' hc'
    rw [hcl]
    exact h.listed n c hc ((congrArg Ident.connected hi).trans hconn)

/-- What holds of the session in every run: the lists are in order, nobody is local (the
server never makes a local client), and whoever has finished connecting owes no auth
answer. -/
structure Orderly (s : Server) : Prop extends s.WF where
  nolocal : ∀ n c, s.info n = some c → c.isLocal = false
  noauth : ∀ n c, s.info n = some c → c.connected → c.connectauth = .none

theorem Orderly.of_who (h : s.Orderly) (hw : s'.who = s.who) : s'.Orderly := by
  have hback : ∀ n c', s'.info n = some c' → ∃ c, s.info n = some c ∧ c.ident = c'.ident :=
    fun n c' => some_of_ident (ident_of_who hw n)
  refine ⟨h.toWF.of_who hw, ?_, ?_⟩
  · intro n c' hc'
    obtain ⟨c, hc, hi⟩ := hback n c' hc'
    exact (congrArg Ident.isLocal hi).symm.trans (h.nolocal n c hc)
  · intro n c' hc' hconn
    obtain ⟨c, hc, hi⟩ := hback n c' hc'
    exact (congrArg Ident.connectauth hi).symm.trans
      (h.noauth n c hc ((congrArg Ident.connected hi).trans hconn))

theorem Orderly.without (h : s.Orderly) (gone : List Int) : (s.without gone).Orderly := by
  have hback : ∀ n c, (s.without gone).info n = some c → s.info n = some c := by
    intro n c hc
    rw [info_without] at hc
    split at hc
    · cases hc
    · exact hc
  exact ⟨h.toWF.without gone, fun n c hc => h.nolocal n c (hback n c hc),
    fun n c hc => h.noauth n c (hback n c hc)⟩

/-- Bots hold no privilege. -/
def BotsUnranked (s : Server) : Prop :=
  ∀ n c, s.info n = some c → MAXCLIENTS ≤ n → c.privilege = .none

/-! ## Owners -/

theorem hasowner_eq (s : Server) :
    (s.cl.any fun c => c.ident.owner) =
      s.who.clients.any fun n => (s.who.ident n).any Ident.owner := by
  unfold cl who
  simp only
  induction s.clients with
  | nil => rfl
  | cons n l ih =>
    cases hs : s.info n with
    | none => rw [List.filterMap_cons_none hs, ih, List.any_cons, hs]; rfl
    | some c => rw [List.filterMap_cons_some hs, List.any_cons, ih, List.any_cons, hs]; rfl

end Server
end QServ
