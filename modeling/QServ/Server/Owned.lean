import QServ.Server.Who
import QServ.Server.Messages

/-!
# Who keeps the server locked

The server is `Owned` if somebody is there who holds a privilege, or else nothing is
locked.  The functions of the session are gone through one by one: what they do to `who`,
to `lock` and to pending requests, and that they keep the server owned.  The one that may
not is `clientdisconnect`, which skips the reset for a client marked as an invisible
administrator; `LeavesOwned` is the condition under which that does no harm.
-/

namespace QServ
namespace Server

variable {s s' : Server}

/-- Somebody holds a privilege, or nothing is locked. -/
def Owned (s : Server) : Prop := s.hasmaster ∨ s.Unlocked

theorem hasmaster_eq (s : Server) :
    s.hasmaster = s.who.clients.any fun n => (s.who.ident n).any Ident.owner :=
  hasowner_eq s

theorem hasmaster_of_who (h : s'.who = s.who) : s'.hasmaster = s.hasmaster := by
  rw [hasmaster_eq, hasmaster_eq, h]

theorem hasmaster_iff (s : Server) :
    s.hasmaster ↔ ∃ n ∈ s.clients, ∃ c, s.info n = some c ∧ c.ident.owner := by
  rw [hasmaster_eq, List.any_eq_true]
  constructor
  · rintro ⟨n, hn, ho⟩
    cases hs : s.info n with
    | none => simp [who, hs] at ho
    | some c => exact ⟨n, hn, c, hs, by simpa [who, hs] using ho⟩
  · rintro ⟨n, hn, c, hc, ho⟩
    exact ⟨n, hn, by simpa [who, hc] using ho⟩

theorem owner_iff (c : ClientInfo) : c.ident.owner ↔ c.isLocal ∨ c.privilege ≠ .none := by
  unfold Ident.owner ClientInfo.ident
  rw [Bool.or_eq_true, decide_eq_true_eq, Priv.ne_none_iff]

theorem Owned.of_calm (h : s.Owned) (hc : Calm s s') : s'.Owned := by
  rcases h with h | h
  · left
    rwa [hasmaster_of_who hc.who]
  · right
    unfold Unlocked
    rw [hc.lock]
    exact h

/-- The server stays owned if a client that holds a privilege is listed afterwards. -/
theorem Owned.of_owner {n : Int} {c : ClientInfo} (hn : n ∈ s.clients) (hc : s.info n = some c)
    (ho : c.ident.owner) : s.Owned :=
  Or.inl ((hasmaster_iff s).mpr ⟨n, hn, c, hc, ho⟩)

/-! ## Pausing -/

@[simp] theorem lock_sendf (s : Server) (cn : Int) (chan : Nat) (fs : List Field) :
    (s.sendf cn chan fs).lock = s.lock := rfl

theorem lock_pausegame (s : Server) (val : Bool) (n : Int) :
    (s.pausegame val n).lock = (s.mastermode, s.allowedips, val) := by
  unfold pausegame
  split
  · next h => rw [← h]; rfl
  · rfl

theorem kept_pausegame (s : Server) (val : Bool) (n : Int) : Kept s (s.pausegame val n) := by
  unfold pausegame
  split
  · exact .refl s
  · exact .of_info (fun _ _ h => h) rfl rfl

theorem who_pausegame (s : Server) (val : Bool) (n : Int) : (s.pausegame val n).who = s.who :=
  who_of_roster (roster_pausegame s val n)

theorem lock_checkpausegame (s : Server) :
    s.checkpausegame.lock = s.lock ∨ s.checkpausegame.lock = (s.mastermode, s.allowedips, false) := by
  unfold checkpausegame
  split
  · exact Or.inl rfl
  · split
    · exact Or.inl rfl
    · exact Or.inr (lock_pausegame s false (-1))

theorem kept_checkpausegame (s : Server) : Kept s s.checkpausegame := by
  unfold checkpausegame
  split
  · exact .refl s
  · split
    · exact .refl s
    · exact kept_pausegame s false (-1)

theorem who_checkpausegame (s : Server) : s.checkpausegame.who = s.who :=
  who_of_roster (roster_checkpausegame s)

theorem pausepriv_ne_none (s : Server) : s.pausepriv ≠ .none := by
  unfold pausepriv
  split <;> decide

/-- Once nobody holds a privilege, `checkpausegame` unpauses. -/
theorem gamepaused_checkpausegame (s : Server) (h : ¬ s.hasmaster) :
    s.checkpausegame.gamepaused = false := by
  have hnobody : (s.cl.any fun c => decide (s.pausepriv ≤ c.privilege) || c.isLocal) = false := by
    rw [List.any_eq_false]
    intro c hc hp
    refine h (List.any_eq_true.mpr ⟨c, hc, ?_⟩)
    rw [Bool.or_eq_true, decide_eq_true_eq] at hp ⊢
    rcases hp with hp | hp
    · exact Or.inr (le_trans ((Priv.ne_none_iff _).mp (pausepriv_ne_none s)) hp)
    · exact Or.inl hp
  unfold checkpausegame
  rw [hnobody]
  cases hg : s.gamepaused with
  | false => simpa using hg
  | true =>
    have := congrArg (fun l => l.2.2) (lock_pausegame s false (-1))
    simpa [lock] using this

/-! ## `setmaster` -/

theorem who_resetmastermode (s : Server) : s.resetmastermode.who = s.who :=
  who_of_roster (roster_resetmastermode s)

theorem kept_resetmastermode (s : Server) : Kept s s.resetmastermode := by
  unfold resetmastermode
  split
  · exact .refl s
  · exact .of_info (fun _ _ h => h) rfl rfl

theorem who_setmasterDone (s : Server) (n : Int) (val : Bool) (name : String)
    (an ad : Option String) : (s.setmasterDone n val name an ad).who = s.who :=
  who_of_roster (roster_setmasterDone s n val name an ad)

theorem kept_setmasterDone (s : Server) (n : Int) (val : Bool) (name : String)
    (an ad : Option String) : Kept s (s.setmasterDone n val name an ad) := by
  unfold setmasterDone
  simp only
  refine (kept_resetmastermode s).trans (Kept.trans ?_ (kept_checkpausegame _))
  exact .of_core (core_sendf _ _ _ _)

/-- **`setmaster` leaves the server owned**, whatever it was before: an ownerless server is
reset and unpaused. -/
theorem owned_setmasterDone (s : Server) (n : Int) (val : Bool) (name : String)
    (an ad : Option String) : (s.setmasterDone n val name an ad).Owned := by
  by_cases h : s.hasmaster = true
  · left
    rwa [hasmaster_of_who (who_setmasterDone s n val name an ad)]
  · right
    unfold setmasterDone
    simp only
    have hreset : s.resetmastermode = { s with mastermode := .mmOpen, allowedips := [] } := by
      unfold resetmastermode
      rw [if_neg h]
    rw [hreset]
    generalize hs1 : Server.sendf _ _ _ _ = s1
    have hlock : s1.lock = (.mmOpen, [], s.gamepaused) := by rw [← hs1]; rfl
    have hnone : ¬ s1.hasmaster := by
      rw [← hs1]
      exact h
    have hp := gamepaused_checkpausegame s1 hnone
    unfold lock at hlock
    unfold Unlocked
    rcases lock_checkpausegame s1 with hl | hl
    · rw [hl]
      have hg : s1.gamepaused = false := by
        have := congrArg (fun l => l.2.2) hl
        exact this.symm.trans hp
      unfold lock
      rw [Prod.mk.injEq, Prod.mk.injEq] at hlock
      rw [hlock.1, hlock.2.1, hg]
    · rw [hl]
      rw [Prod.mk.injEq, Prod.mk.injEq] at hlock
      rw [hlock.1, hlock.2.1]

theorem calm_removeai (s : Server) (n : Int) : Calm s (s.removeai n) :=
  .of_core (core_removeai s n)

theorem who_revokemaster (s : Server) (n : Int) :
    (s.revokemaster n).who = (s.setpriv n .none).who :=
  who_of_roster (roster_of_core (core_revokemaster s n))

theorem who_setpriv_congr (h : s'.who = s.who) (n : Int) (p : Priv) :
    (s'.setpriv n p).who = (s.setpriv n p).who :=
  who_upd_congr h n (fun i => { i with privilege := p }) fun _ => rfl

/-- Giving up a privilege, spelt out. -/
theorem setmaster_release {n : Int} {c : ClientInfo} (hc : s.info n = some c)
    (hp : c.privilege ≠ .none) (pass : String) (authpriv : Priv) (force : Bool) :
    (s.setmaster n false pass none none authpriv force false).1 =
      (s.revokemaster n).setmasterDone n false c.privilege.name none none := by
  unfold setmaster
  rw [hc]
  simp [hp]

theorem kept_setpriv (s : Server) (n : Int) (p : Priv) : Kept s (s.setpriv n p) :=
  .upd s n fun _ => Or.inr rfl

theorem kept_revokemaster (s : Server) (n : Int) : Kept s (s.revokemaster n) :=
  (kept_setpriv s n .none).trans (.of_core (core_revokemaster s n))

/-! ## Leaving -/

theorem kept_foldl {β : Type} (f : Server → β → Server) (hf : ∀ s x, Kept s (f s x)) (l : List β) :
    ∀ s, Kept s (l.foldl f s) := by
  induction l with
  | nil => exact fun s => .refl s
  | cons x l ih => exact fun s => (hf s x).trans (ih (f s x))

theorem kept_cleanauths (s : Server) (n : Int) : Kept s (s.cleanauths n) := by
  unfold cleanauths
  refine kept_foldl _ (fun s m => ?_) s.clients s
  split
  · exact .refl s
  · split
    · exact .upd _ _ fun _ => Or.inl ⟨rfl, rfl⟩
    · exact .refl s

theorem lock_cleanauths (s : Server) (n : Int) : (s.cleanauths n).lock = s.lock := by
  unfold cleanauths
  generalize s.clients = l
  induction l generalizing s with
  | nil => rfl
  | cons m l ih =>
    rw [List.foldl_cons, ih]
    split
    · rfl
    · split <;> rfl

theorem kept_free (s : Server) (n : Int) : Kept s (s.free n) := by
  refine .of_info ?_ rfl rfl
  intro m c hc
  rw [info_free] at hc
  split at hc
  · cases hc
  · exact hc

theorem kept_unlist (s : Server) (n : Int) : Kept s (s.unlist n) :=
  .of_info (fun _ _ h => h) rfl rfl

theorem kept_deleteai (s : Server) (bot : Int) : Kept s (s.deleteai bot) := by
  unfold deleteai
  split
  · split
    · exact .refl s
    · next b _ =>
      have hd : Kept s ((s.sendf (-1) 1 [.int MsgType.nCdis.code, .int bot]).disown b.ownernum bot) :=
        .of_core (by rw [core_disown, core_sendf])
      exact hd.trans ((kept_unlist _ bot).trans (kept_free _ bot))
  · exact .refl s

theorem lock_disown (s : Server) (owner bot : Int) : (s.disown owner bot).lock = s.lock := by
  unfold disown
  split <;> rfl

theorem lock_deleteai (s : Server) (bot : Int) : (s.deleteai bot).lock = s.lock := by
  unfold deleteai
  split
  · split
    · rfl
    · next b _ =>
      exact lock_disown (s.sendf (-1) 1 [.int MsgType.nCdis.code, .int bot]) b.ownernum bot
  · rfl

theorem kept_clearai (s : Server) : Kept s s.clearai :=
  kept_foldl _ kept_deleteai s.botnums s

theorem lock_clearai (s : Server) : s.clearai.lock = s.lock := by
  unfold clearai
  generalize s.botnums = l
  induction l generalizing s with
  | nil => rfl
  | cons b l ih => rw [List.foldl_cons, ih, lock_deleteai]

theorem kept_changegamespeed (s : Server) (val n : Int) : Kept s (s.changegamespeed val n) := by
  unfold changegamespeed
  simp only
  split
  · exact .refl s
  · exact .of_info (fun _ _ h => h) rfl rfl

theorem lock_changegamespeed (s : Server) (val n : Int) :
    (s.changegamespeed val n).lock = s.lock := by
  unfold changegamespeed
  simp only
  split <;> rfl

theorem kept_noclients (s : Server) : Kept s s.noclients := by
  unfold noclients
  simp only
  refine Kept.trans ?_ (kept_changegamespeed _ _ _)
  split
  · have hb : Kept s s.clearbans := .of_info (fun _ _ h => h) rfl rfl
    exact hb.trans (kept_clearai _)
  · exact kept_clearai s

theorem lock_noclients (s : Server) : s.noclients.lock = s.lock := by
  unfold noclients
  simp only
  rw [lock_changegamespeed, lock_clearai]
  split <;> rfl

theorem kept_setmaster (s : Server) (n : Int) (val : Bool) (pass : String)
    (an ad : Option String) (authpriv : Priv) (force trial : Bool) :
    Kept s (s.setmaster n val pass an ad authpriv force trial).1 := by
  rcases setmaster_cases s n val pass an ad authpriv force trial with h | ⟨c, -, -, h⟩
  · exact .of_core h
  · rcases h with ⟨-, -, -, h⟩ | ⟨-, -, h⟩
    · rw [h]
      exact (kept_setpriv s n _).trans (kept_setmasterDone _ _ _ _ _ _)
    · rw [h]
      exact (kept_revokemaster s n).trans (kept_setmasterDone _ _ _ _ _ _)

theorem kept_clientdisconnect (s : Server) (n : Int) : Kept s (s.clientdisconnect n) := by
  unfold clientdisconnect
  split
  · exact .refl s
  · next ci _ =>
    refine (kept_cleanauths s n).trans ?_
    simp only
    split
    · have hpriv : Kept (s.cleanauths n) ((s.cleanauths n).leavePriv ci n) := by
        unfold leavePriv
        split
        · exact kept_setmaster _ _ _ _ _ _ _ _ _
        · exact .refl _
      have hlist : Kept ((s.cleanauths n).leavePriv ci n)
          (((s.cleanauths n).leavePriv ci n).leaveList n) := by
        unfold leaveList
        exact (Kept.of_core (core_sendf _ _ _ _)).trans ((kept_unlist _ n).trans
          (.of_core (core_removeai _ n)))
      refine hpriv.trans (hlist.trans ?_)
      have hempty : ∀ s : Server, Kept s (if s.numhumans = 0 then s.noclients else s) := by
        intro s
        split
        · exact kept_noclients s
        · exact .refl s
      split
      · exact (hempty _).trans (kept_checkpausegame _)
      · exact hempty _
    · exact .of_info (fun _ _ h => h) rfl rfl

theorem kept_disconnectClient (s : Server) (n : Int) (reason : Disc) :
    Kept s (s.disconnectClient n reason) := by
  unfold disconnectClient
  split
  · exact .refl s
  · split
    · exact .refl s
    · exact (kept_clientdisconnect s n).trans ((kept_free _ n).trans (.of_core (core_sendf _ _ _ _)))

/-- Another client than `n` holds a privilege. -/
def OtherOwner (s : Server) (n : Int) : Prop :=
  ∃ m ∈ s.clients, m ≠ n ∧ ∃ c, s.info m = some c ∧ c.ident.owner

/-- The condition for the departure of `n` to leave the server owned: unless `n` is an
invisible administrator (`isInvAdmin`) that holds a privilege, or somebody else holds one, or
nothing is locked anyway. -/
def LeavesOwned (s : Server) (n : Int) : Prop :=
  ∀ c, s.info n = some c → c.connected → c.privilege ≠ .none → c.isInvAdmin →
    s.OtherOwner n ∨ s.Unlocked

/-- Owners other than those who go are still there. -/
theorem hasmaster_without {gone : List Int} :
    (s.without gone).hasmaster ↔
      ∃ n ∈ s.clients, n ∉ gone ∧ ∃ c, s.info n = some c ∧ c.ident.owner := by
  rw [hasmaster_iff]
  constructor
  · rintro ⟨n, hn, c, hc, ho⟩
    rw [clients_without] at hn
    obtain ⟨hn, hg⟩ := List.mem_filter.mp hn
    have hg : n ∉ gone := by simpa using hg
    rw [info_without, if_neg hg] at hc
    exact ⟨n, hn, hg, c, hc, ho⟩
  · rintro ⟨n, hn, hg, c, hc, ho⟩
    refine ⟨n, ?_, c, ?_, ho⟩
    · rw [clients_without]
      exact List.mem_filter.mpr ⟨hn, by simpa using hg⟩
    · rw [info_without, if_neg hg]
      exact hc

/-- An owner that is not the leaving client does not go with it: only bots do. -/
theorem Orderly.not_mem_gone (h : s.Orderly) (hb : s.BotsUnranked) {n m : Int} (hne : m ≠ n)
    {c : ClientInfo} (hc : s.info m = some c) (ho : c.ident.owner) : m ∉ s.gone n := by
  have hlt : m < MAXCLIENTS := by
    by_contra hge
    rw [owner_iff, h.nolocal m c hc, hb m c hc (by omega)] at ho
    simp at ho
  intro hg
  unfold gone at hg
  split at hg
  · exact hne (List.mem_singleton.mp hg)
  · rcases List.mem_cons.mp hg with hg | hg
    · exact hne hg
    · have := (mem_botnums.mp hg).1
      omega

theorem hasmaster_without_gone (h : s.Orderly) (hb : s.BotsUnranked) (n : Int) :
    (s.without (s.gone n)).hasmaster ↔ s.OtherOwner n := by
  rw [hasmaster_without]
  constructor
  · rintro ⟨m, hm, hg, c, hc, ho⟩
    exact ⟨m, hm, fun e => hg (e ▸ mem_gone s n), c, hc, ho⟩
  · rintro ⟨m, hm, hne, c, hc, ho⟩
    exact ⟨m, hm, h.not_mem_gone hb hne hc ho, c, hc, ho⟩

theorem lock_leaveList (s : Server) (n : Int) : (s.leaveList n).lock = s.lock := by
  unfold leaveList
  rw [(calm_removeai _ n).lock]
  rfl

theorem lock_noclients_of_empty (s : Server) :
    (if s.numhumans = 0 then s.noclients else s).lock = s.lock := by
  split
  · exact lock_noclients s
  · rfl

/-- What is locked after a client has left: what was locked once its privilege was gone. -/
theorem lock_disconnectClient (s : Server) {n : Int} (reason : Disc) {ci : ClientInfo}
    (hget : s.getclientinfo n = some ci) (hconn : ci.connected) (hloc : ci.isLocal = false) :
    (s.disconnectClient n reason).lock = ((s.cleanauths n).leavePriv ci n).lock := by
  have hinfo : s.getinfo n = some ci := by
    unfold getclientinfo at hget
    split at hget
    · next hr =>
      unfold getinfo
      rw [if_pos hr.2, if_pos hr.1, hget]
    · cases hget
  unfold disconnectClient clientdisconnect
  rw [hget, hinfo]
  simp only [hconn, hloc, if_true, Bool.false_eq_true, if_false]
  calc _ = (if (((s.cleanauths n).leavePriv ci n).leaveList n).numhumans = 0 then
          (((s.cleanauths n).leavePriv ci n).leaveList n).noclients
          else ((s.cleanauths n).leavePriv ci n).leaveList n).lock := rfl
    _ = _ := by rw [lock_noclients_of_empty, lock_leaveList]

/-- **Everything `disconnect_client` can do to who is there**: nothing to an unknown or a
local client, and a client that has not finished connecting goes alone. -/
theorem disconnectClient_cases (h : s.WF) (n : Int) (reason : Disc) :
    s.disconnectClient n reason = s ∨
    (∃ ci, s.getclientinfo n = some ci ∧ s.info n = some ci ∧ ci.connected ∧
      ci.isLocal = false ∧ n < MAXCLIENTS ∧ n ∈ s.clients ∧
      (s.disconnectClient n reason).who = (s.without (s.gone n)).who) ∨
    (∃ ci, s.info n = some ci ∧ ci.connected = false ∧ n ∉ s.clients ∧
      (s.disconnectClient n reason).who = (s.without [n]).who ∧
      (s.disconnectClient n reason).lock = s.lock) := by
  cases hget : s.getclientinfo n with
  | none =>
    left
    unfold Server.disconnectClient
    rw [hget]
  | some ci =>
    have hr : (0 ≤ n ∧ n < MAXCLIENTS) ∧ s.info n = some ci := by
      unfold getclientinfo at hget
      split at hget
      · next hr => exact ⟨hr, hget⟩
      · cases hget
    obtain ⟨⟨h0, hlt⟩, hci⟩ := hr
    by_cases hloc : ci.isLocal = true
    · left
      unfold Server.disconnectClient
      rw [hget]
      simp only
      rw [if_pos hloc]
    · right
      have hloc : ci.isLocal = false := by simpa using hloc
      by_cases hconn : ci.connected = true
      · left
        have hn := h.listed n ci hci hconn
        exact ⟨ci, rfl, hci, hconn, hloc, hlt, hn,
          who_of_roster (roster_disconnectClient h reason hci hn hlt hloc)⟩
      · right
        have hconn : ci.connected = false := by simpa using hconn
        have hn : n ∉ s.clients := by
          intro hn
          obtain ⟨c, hc, hcc⟩ := h.live n hn
          rw [hci] at hc
          rw [← Option.some.inj hc, hconn] at hcc
          cases hcc
        have hinfo : s.getinfo n = some ci := by
          unfold getinfo
          rw [if_pos hlt, if_pos h0, hci]
        refine ⟨ci, hci, hconn, hn, ?_, ?_⟩
        · unfold Server.disconnectClient clientdisconnect sendservmsg
          rw [hget, hinfo]
          simp only [hconn, hloc, Bool.false_eq_true, if_false]
          rw [(Calm.of_core (core_sendf _ _ _ _)).who]
          have hn' : n ∉ (s.cleanauths n).clients := by
            rw [clients_of_roster (roster_cleanauths s n)]
            exact hn
          calc _ = ((s.cleanauths n).free n).who := rfl
            _ = ((s.cleanauths n).without [n]).who := who_of_roster (roster_free _ hn')
            _ = (s.without [n]).who := who_without (who_of_roster (roster_cleanauths s n)) [n]
        · unfold Server.disconnectClient clientdisconnect sendservmsg
          rw [hget, hinfo]
          simp only [hconn, hloc, Bool.false_eq_true, if_false]
          exact lock_cleanauths s n

/-- **Leaving keeps the server owned**, under the condition on invisible administrators. -/
theorem Owned.disconnectClient (h : s.Orderly) (hb : s.BotsUnranked) (ho : s.Owned) {n : Int}
    (reason : Disc) (hleave : s.LeavesOwned n) : (s.disconnectClient n reason).Owned := by
  rcases disconnectClient_cases h.toWF n reason with hsame | hc | hc
  · rw [hsame]
    exact ho
  · obtain ⟨ci, hget, hci, hconn, hloc, hlt, hn, hwho⟩ := hc
    have hmaster : (s.disconnectClient n reason).hasmaster ↔ s.OtherOwner n := by
      rw [hasmaster_of_who hwho]
      exact hasmaster_without_gone h hb n
    have hlock := lock_disconnectClient s reason hget hconn hloc
    by_cases hp : ci.privilege = .none
    · -- the client holds nothing: whoever owned the server still does
      have hstay : (s.disconnectClient n reason).lock = s.lock := by
        rw [hlock]
        unfold leavePriv
        rw [if_neg (by simp [hp])]
        exact lock_cleanauths s n
      rcases ho with ho | ho
      · obtain ⟨m, hm, c, hc, hco⟩ := (hasmaster_iff s).mp ho
        refine Or.inl (hmaster.mpr ⟨m, hm, ?_, c, hc, hco⟩)
        rintro rfl
        obtain rfl := Option.some.inj (hci.symm.trans hc)
        rw [owner_iff, hloc, hp] at hco
        simp at hco
      · right
        unfold Unlocked
        rw [hstay]
        exact ho
    · by_cases hinv : ci.isInvAdmin = true
      · -- no reset is made for an invisible administrator
        rcases hleave ci hci hconn hp hinv with hother | hun
        · exact Or.inl (hmaster.mpr hother)
        · right
          unfold Unlocked
          rw [hlock]
          unfold leavePriv
          rw [if_neg (by simp [hinv]), lock_cleanauths]
          exact hun
      · -- the reset of `setmaster` leaves the server owned without the client
        obtain ⟨d, hd, hb⟩ := some_of_base (info_of_roster (roster_cleanauths s n) n).symm hci
        have hdp : d.privilege ≠ .none := by
          rw [ClientInfo.base_congr ClientInfo.privilege (fun _ => rfl) hb]
          exact hp
        have hleft : (s.cleanauths n).leavePriv ci n =
            ((s.cleanauths n).revokemaster n).setmasterDone n false d.privilege.name none none := by
          unfold leavePriv
          rw [if_pos (by simp [hp, hinv]), setmaster_release hd hdp]
        have hwho' : ((s.cleanauths n).leavePriv ci n).who = (s.setpriv n .none).who := by
          rw [hleft, who_setmasterDone, who_revokemaster]
          exact who_setpriv_congr (who_of_roster (roster_cleanauths s n)) n .none
        rcases owned_setmasterDone ((s.cleanauths n).revokemaster n) n false
          d.privilege.name none none with ho' | ho'
        · rw [← hleft, hasmaster_of_who hwho', hasmaster_iff] at ho'
          obtain ⟨m, hm, c, hc, hco⟩ := ho'
          refine Or.inl (hmaster.mpr ⟨m, hm, ?_⟩)
          unfold setpriv at hc
          rw [info_upd] at hc
          by_cases hmn : m = n
          · rw [if_pos hmn, hmn, hci] at hc
            obtain rfl := Option.some.inj hc
            rw [owner_iff] at hco
            simp [hloc] at hco
          · rw [if_neg hmn] at hc
            exact ⟨hmn, c, hc, hco⟩
        · right
          unfold Unlocked
          rw [hlock, hleft]
          exact ho'
  · obtain ⟨ci, hci, hconn, hn, hwho, hlock⟩ := hc
    rcases ho with ho | ho
    · obtain ⟨m, hm, c, hc, hco⟩ := (hasmaster_iff s).mp ho
      left
      rw [hasmaster_of_who hwho, hasmaster_without]
      refine ⟨m, hm, ?_, c, hc, hco⟩
      intro hmem
      exact hn (List.mem_singleton.mp hmem ▸ hm)
    · right
      unfold Unlocked
      rw [hlock]
      exact ho

/-- **The condition is exact**: where it fails the departure leaves a locked server behind. -/
theorem leavesOwned_of_owned (h : s.Orderly) (hb : s.BotsUnranked) {n : Int} {reason : Disc}
    (ho : (s.disconnectClient n reason).Owned) : s.LeavesOwned n := by
  intro c hc hconn hp hinv
  have hlt : n < MAXCLIENTS := by
    by_contra hge
    exact hp (hb n c hc (by omega))
  have hget : s.getclientinfo n = some c := by
    unfold getclientinfo
    rw [if_pos ⟨h.nonneg n c hc, hlt⟩, hc]
  have hloc := h.nolocal n c hc
  have hwho := who_of_roster
    (roster_disconnectClient h.toWF reason hc (h.listed n c hc hconn) hlt hloc)
  rcases ho with ho | ho
  · left
    rw [hasmaster_of_who hwho] at ho
    exact (hasmaster_without_gone h hb n).mp ho
  · right
    have hlock : (s.disconnectClient n reason).lock = s.lock := by
      rw [lock_disconnectClient s reason hget hconn hloc]
      unfold leavePriv
      rw [if_neg (by simp [hinv]), lock_cleanauths]
    unfold Unlocked at ho ⊢
    rw [← hlock]
    exact ho

end Server
end QServ
