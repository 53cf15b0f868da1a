import QServ.Server.Privilege

/-!
# Leaving the server

`clientdisconnect` and `disconnect_client`.  A client that goes gives up its
privilege, hands over its bots and leaves the client list; if it was the last human
the server is emptied and all bots go with it.  `roster_disconnectClient` says the
whole of it about who is left.
-/

namespace QServ
namespace Server

variable (s : Server)

/-- The first loop of `clientdisconnect`: whoever asked for an auth kick of the leaving
client has that request dropped (`cleanauth`). -/
def cleanauths (n : Int) : Server :=
  s.clients.foldl (fun s m =>
    match s.info m with
    | none => s
    | some c =>
      if c.authkickvictim = n then
        s.upd m fun c => { c with authreq := 0, authchallenge := none, authkickvictim := -1,
                                  authkickreason := none }
      else s) s

@[simp] theorem roster_cleanauths (s : Server) (n : Int) :
    (s.cleanauths n).roster = s.roster := by
  unfold cleanauths
  generalize s.clients = l
  induction l generalizing s with
  | nil => rfl
  | cons m l ih =>
    rw [List.foldl_cons, ih]
    split
    · rfl
    · split
      · exact roster_upd _ _ (by intro c; rfl)
      · rfl

/-- `noclients`: the server has emptied. -/
def noclients : Server :=
  let s := if s.cfg.clearbansonempty then s.clearbans else s
  let s := s.clearai
  s.changegamespeed s.cfg.defaultgamespeed

/-- `if(ci->privilege && !ci->isInvAdmin) setmaster(ci, false)`. -/
def leavePriv (ci : ClientInfo) (n : Int) : Server :=
  if ci.privilege ≠ .none && !ci.isInvAdmin then (s.setmaster n false).1 else s

/-- `sendf(-1, 1, "ri2", N_CDIS, n); clients.removeobj(ci); aiman::removeai(ci)`. -/
def leaveList (n : Int) : Server :=
  ((s.sendf (-1) 1 [.int MsgType.nCdis.code, .int n]).unlist n).removeai n

/-- `clientdisconnect(n)`. -/
def clientdisconnect (n : Int) : Server :=
  match s.getinfo n with
  | none => s
  | some ci =>
    let s := s.cleanauths n
    if ci.connected then
      let s := s.leavePriv ci n
      let s := s.leaveList n
      let s := if s.numhumans = 0 then s.noclients else s
      if ci.isLocal then s.checkpausegame else s
    else { s with connects := s.connects.filter (· ≠ n) }

/-- `disconnect_client(n, reason)`: only a network client can be thrown out. -/
def disconnectClient (n : Int) (reason : Disc) : Server :=
  match s.getclientinfo n with
  | none => s
  | some ci =>
    if ci.isLocal then s
    else
      ((s.clientdisconnect n).free n).sendservmsg (match reason.reason with
        | some msg => "client (" ++ ci.hostname ++ ") disconnected because: " ++ msg
        | none => "client (" ++ ci.hostname ++ ") disconnected")

/-! ## Who is left -/

/-- The clients that go when `n` does: `n` alone while another human is listed, `n` and
all bots otherwise. -/
def gone (n : Int) : List Int :=
  if (s.clients.filter (· ≠ n)).any (· < MAXCLIENTS) then [n] else n :: s.botnums

theorem mem_gone (s : Server) (n : Int) : n ∈ s.gone n := by
  unfold gone
  split <;> simp

variable {s}

/-- Whether a human is listed can be told from the numbers. -/
theorem Live.numhumans_eq_zero (h : s.Live) :
    s.numhumans = 0 ↔ s.clients.any (· < MAXCLIENTS) = false := by
  unfold numhumans
  rw [List.length_eq_zero_iff, List.filter_eq_nil_iff, List.any_eq_false]
  constructor
  · intro hno n hn
    obtain ⟨c, hc, hhum⟩ := h n hn
    have := hno c (mem_cl.mpr ⟨n, hn, hc⟩)
    rw [decide_eq_true_eq] at this ⊢
    rwa [← hhum]
  · intro hno c hc
    obtain ⟨n, hn, hc⟩ := mem_cl.mp hc
    obtain ⟨d, hd, hhum⟩ := h n hn
    obtain rfl : c = d := Option.some.inj (hc.symm.trans hd)
    have := hno n hn
    rw [decide_eq_true_eq] at this ⊢
    rwa [hhum]

theorem roster_noclients (h : s.Live) : s.noclients.roster = (s.without s.botnums).roster := by
  unfold noclients
  simp only
  rw [roster_changegamespeed]
  split
  · have hr : s.clearbans.roster = s.roster := rfl
    rw [roster_clearai (h.of_roster hr), without_roster hr]
    rfl
  · exact roster_clearai h

/-- The server empties itself exactly when no human is listed. -/
theorem roster_noclients_of_empty (h : s.Live) :
    (if s.numhumans = 0 then s.noclients else s).roster =
      (s.without (if s.clients.any (· < MAXCLIENTS) then [] else s.botnums)).roster := by
  by_cases hh : s.clients.any (· < MAXCLIENTS) = true
  · have hn : ¬ s.numhumans = 0 := by
      rw [h.numhumans_eq_zero, hh]
      simp
    rw [if_neg hn, if_pos hh]
    unfold without
    simp
  · have hn : s.numhumans = 0 := h.numhumans_eq_zero.mpr (by simpa using hh)
    rw [if_pos hn, if_neg hh]
    exact roster_noclients h

/-- Giving up the privilege on leaving touches no other record. -/
theorem roster_setmaster_without (s : Server) {n : Int} {gone : List Int} (hn : n ∈ gone) :
    ((s.setmaster n false).1.without gone).roster = (s.without gone).roster := by
  rcases setmaster_cases s n false "" none none .master false false with h | ⟨c, -, -, h⟩
  · exact without_roster (roster_of_core h) gone
  · rcases h with ⟨hv, -⟩ | ⟨-, -, h⟩
    · cases hv
    · have hr : ((s.revokemaster n).setmasterDone n false c.privilege.name none none).roster =
          (s.setpriv n .none).roster := by
        rw [roster_setmasterDone, roster_of_core (core_revokemaster s n)]
      rw [h, without_roster hr, setpriv, without_upd s hn]

theorem roster_free (s : Server) {n : Int} (h : n ∉ s.clients) :
    (s.free n).roster = (s.without [n]).roster := by
  have hcl : s.clients.filter (· ∉ [n]) = s.clients := by
    refine List.filter_eq_self.mpr fun m hm => ?_
    have hne : m ≠ n := fun e => h (e ▸ hm)
    simpa using hne
  unfold free without
  rw [hcl]
  simp only [List.mem_singleton]

theorem roster_leavePriv_without (s : Server) (ci : ClientInfo) {n : Int} {gone : List Int}
    (hn : n ∈ gone) : ((s.leavePriv ci n).without gone).roster = (s.without gone).roster := by
  unfold leavePriv
  split
  · exact roster_setmaster_without s hn
  · rfl

theorem clients_leaveList (s : Server) (n : Int) :
    (s.leaveList n).clients = s.clients.filter (· ≠ n) :=
  clients_of_core (core_removeai _ n)

theorem roster_leaveList_without (s : Server) {n : Int} {gone : List Int} (hn : n ∈ gone) :
    ((s.leaveList n).without gone).roster = (s.without gone).roster := by
  unfold leaveList
  rw [without_roster (roster_of_core (core_removeai _ n)), without_unlist _ hn]
  exact without_roster (roster_of_core (core_sendf _ _ _ _)) gone

/-- An unlisted record does not matter for the listed ones. -/
theorem Live.of_without {n : Int} (h : (s.without [n]).Live) (hn : n ∉ s.clients) : s.Live := by
  intro m hm
  have hne : m ≠ n := fun e => hn (e ▸ hm)
  obtain ⟨c, hc, hhum⟩ := h m (List.mem_filter.mpr ⟨hm, by simpa using hne⟩)
  exact ⟨c, by simpa [hne] using hc, hhum⟩

/-- The client has been taken off the list and its bots handed over: now the server may
empty itself and the record is freed. -/
theorem roster_depart {s s1 : Server} {n : Int} (h : s.WF)
    (h1 : ∀ gone, n ∈ gone → (s1.without gone).roster = (s.without gone).roster)
    (hn : n ∉ s1.clients) :
    ((if s1.numhumans = 0 then s1.noclients else s1).free n).roster =
      (s.without (s.gone n)).roster := by
  have hone := h1 [n] (by simp)
  have hlive : s1.Live := ((h.without [n]).toLive.of_roster hone).of_without hn
  have hcl : s1.clients = s.clients.filter (· ≠ n) := by
    have hkeep : s1.clients.filter (· ∉ [n]) = s1.clients := by
      refine List.filter_eq_self.mpr fun m hm => ?_
      have hne : m ≠ n := fun e => hn (e ▸ hm)
      simpa using hne
    have := clients_of_roster hone
    rw [clients_without, clients_without, hkeep] at this
    rw [this]
    simp only [List.mem_singleton]
  have hbots : s1.botnums = s.botnums := by
    have : (s1.without [n]).nbots = (s.without [n]).nbots := of_roster nbots (fun _ => rfl) hone
    unfold botnums
    rw [show s1.nbots = s.nbots from this]
  have hempty := roster_noclients_of_empty hlive
  have hn' : n ∉ (if s1.numhumans = 0 then s1.noclients else s1).clients := by
    rw [clients_of_roster hempty]
    exact fun hmem => hn (List.mem_of_mem_filter hmem)
  rw [roster_free _ hn', without_roster hempty, without_without, h1 _ (by simp), hcl, hbots]
  congr 1
  refine without_congr s fun m => ?_
  unfold gone
  split <;> simp [or_comm]

/-- What `clientdisconnect` does to a listed client before the server may empty itself. -/
theorem roster_left (s : Server) (ci : ClientInfo) {n : Int} {gone : List Int} (hg : n ∈ gone) :
    ((((s.cleanauths n).leavePriv ci n).leaveList n).without gone).roster =
      (s.without gone).roster := by
  rw [roster_leaveList_without _ hg, roster_leavePriv_without _ _ hg]
  exact without_roster (roster_cleanauths s n) gone

/-- **Who is left after `disconnect_client`**: everybody but the leaving client, and but
the bots if no human is left to drive them. -/
theorem roster_disconnectClient (h : s.WF) {n : Int} (reason : Disc) {ci : ClientInfo}
    (hci : s.info n = some ci) (hn : n ∈ s.clients) (hhum : n < MAXCLIENTS)
    (hloc : ci.isLocal = false) :
    (s.disconnectClient n reason).roster = (s.without (s.gone n)).roster := by
  have h0 : 0 ≤ n := h.nonneg n ci hci
  have hget : s.getclientinfo n = some ci := by
    unfold getclientinfo
    rw [if_pos ⟨h0, hhum⟩, hci]
  have hinfo : s.getinfo n = some ci := by
    unfold getinfo
    rw [if_pos hhum, if_pos h0, hci]
  have hconn : ci.connected = true := by
    obtain ⟨c, hc, hconn⟩ := h.live n hn
    rw [hci] at hc
    rw [Option.some.inj hc]
    exact hconn
  unfold disconnectClient clientdisconnect sendservmsg
  rw [hget, hinfo]
  simp only [hloc, hconn, if_true, Bool.false_eq_true, if_false]
  rw [roster_of_core (core_sendf _ _ _ _)]
  refine roster_depart h (fun gone hg => roster_left s ci hg) ?_
  rw [clients_leaveList]
  simp

/-- Leaving keeps the client lists in order. -/
theorem WF.disconnectClient (h : s.WF) {n : Int} (reason : Disc) {ci : ClientInfo}
    (hci : s.info n = some ci) (hn : n ∈ s.clients) (hhum : n < MAXCLIENTS)
    (hloc : ci.isLocal = false) : (s.disconnectClient n reason).WF :=
  (h.without (s.gone n)).of_roster (roster_disconnectClient h reason hci hn hhum hloc)

/-! ## What leaving does not touch -/

/-- The session without its clients and what an absent master changes. -/
def fixtures (s : Server) : Server :=
  { s.core with info := fun _ => none, connects := [], clients := [], mastermode := .mmOpen,
                allowedips := [], gamepaused := false }

theorem fixtures_of_core {s s' : Server} (h : s'.core = s.core) : s'.fixtures = s.fixtures := by
  unfold fixtures
  rw [h]

theorem fixtures_cleanauths (s : Server) (n : Int) : (s.cleanauths n).fixtures = s.fixtures := by
  unfold cleanauths
  generalize s.clients = l
  induction l generalizing s with
  | nil => rfl
  | cons m l ih =>
    rw [List.foldl_cons, ih]
    split
    · rfl
    · split <;> rfl

theorem fixtures_checkpausegame (s : Server) : s.checkpausegame.fixtures = s.fixtures := by
  unfold checkpausegame pausegame
  split
  · rfl
  · split
    · rfl
    · split <;> rfl

theorem fixtures_setmasterDone (s : Server) (n : Int) (val : Bool) (name : String)
    (an ad : Option String) : (s.setmasterDone n val name an ad).fixtures = s.fixtures := by
  unfold setmasterDone
  simp only
  rw [fixtures_checkpausegame]
  change s.resetmastermode.fixtures = s.fixtures
  unfold resetmastermode
  split <;> rfl

theorem fixtures_leavePriv (s : Server) (ci : ClientInfo) (n : Int) :
    (s.leavePriv ci n).fixtures = s.fixtures := by
  unfold leavePriv
  split
  · rcases setmaster_cases s n false "" none none .master false false with h | ⟨c, -, -, h⟩
    · exact fixtures_of_core h
    · rcases h with ⟨hv, -⟩ | ⟨-, -, h⟩
      · cases hv
      · rw [h, fixtures_setmasterDone, fixtures_of_core (core_revokemaster s n)]
        rfl
  · rfl

theorem fixtures_leaveList (s : Server) (n : Int) : (s.leaveList n).fixtures = s.fixtures := by
  unfold leaveList
  rw [fixtures_of_core (core_removeai _ n)]
  rfl

/-- A client that leaves, until the server may empty itself. -/
theorem fixtures_left (s : Server) (ci : ClientInfo) (n : Int) :
    (((s.cleanauths n).leavePriv ci n).leaveList n).fixtures = s.fixtures := by
  rw [fixtures_leaveList, fixtures_leavePriv, fixtures_cleanauths]

theorem fixtures_clearai (s : Server) : s.clearai.fixtures = s.fixtures := by
  unfold clearai
  generalize s.botnums = bots
  induction bots generalizing s with
  | nil => rfl
  | cons bot bots ih =>
    rw [List.foldl_cons, ih]
    unfold deleteai
    split
    · split
      · rfl
      · next b hb =>
        have h := fixtures_of_core
          (core_disown (s.sendf (-1) 1 [.int MsgType.nCdis.code, .int bot]) b.ownernum bot)
        exact h
    · rfl

/-- **What no departure changes**: anything but the clients, the master mode, who may enter,
the pause, the bans and the speed of the game. -/
theorem of_disconnectClient {β : Type} (f : Server → β) (hf : ∀ s, f s.fixtures = f s)
    (hbans : ∀ s, f s.clearbans = f s) (hspeed : ∀ s v, f (s.changegamespeed v) = f s)
    (s : Server) (n : Int) (reason : Disc) : f (s.disconnectClient n reason) = f s := by
  have hof : ∀ {s s' : Server}, s'.fixtures = s.fixtures → f s' = f s := by
    intro s s' h
    rw [← hf s', ← hf s, h]
  have hempty : ∀ s, f (noclients s) = f s := by
    intro s
    unfold noclients
    simp only
    rw [hspeed, hof (fixtures_clearai _)]
    split
    · exact hbans s
    · rfl
  unfold disconnectClient
  split
  · rfl
  · next ci hci =>
    split
    · rfl
    · have hdone : f (((s.clientdisconnect n).free n).sendservmsg (match reason.reason with
          | some msg => "client (" ++ ci.hostname ++ ") disconnected because: " ++ msg
          | none => "client (" ++ ci.hostname ++ ") disconnected")) = f (s.clientdisconnect n) :=
        hof rfl
      rw [hdone]
      unfold clientdisconnect
      split
      · rfl
      · next d hd =>
        split
        · have hstep : ∀ s' : Server,
              f (if d.isLocal = true then s'.checkpausegame else s') = f s' := by
            intro s'
            split
            · exact hof (fixtures_checkpausegame s')
            · rfl
          simp only
          rw [hstep]
          split
          · rw [hempty, hof (fixtures_left s d n)]
          · exact hof (fixtures_left s d n)
        · exact hof (fixtures_cleanauths s n)

end Server
end QServ
