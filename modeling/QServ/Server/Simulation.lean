import QServ.Server.Grants
import QServ.Server.Session

/-!
# A step of the session is a sequence of moves

The session refines the abstract model of moves: whatever event happens, the server makes
moves, and every privilege granted on the way is granted by one of the `Authorised` routes.

* `setmasterMsg_moves`, `command_moves` and their companions: the messages one by one.
* `step_moves`: every event but a change of the settings.
-/

namespace QServ

/-- The number of a reply that grants something is that of a request: no request has number
zero. -/
def Event.Numbered : Event → Prop
  | .succauth id => id ≠ 0
  | _ => True

namespace Server

variable {P : Server → Int → Prop} {s t : Server}

/-- What `sendprivs` answers a client that names itself. -/
def shareSelf : Option String := some "\x0c3Error: You cannot share privileges with yourself."

/-- The routes by which an event may raise client `n` to privilege `p`: the administrator's
password, the rules for claiming master, a command of somebody who holds a privilege, the
password of invisible administrators, an answer verified here, and the word of the master
server on a pending request. -/
inductive Authorised (s : Server) : Event → Int → Priv → Prop where
  | password {n val text c} (hval : val ≠ 0) (hc : s.info n = some c)
      (hset : s.cfg.adminpass ≠ "") (hpass : s.checkpassword c s.cfg.adminpass text) :
      Authorised s (.setmaster n n val text) n .admin
  | claim {n val text c} (hval : val ≠ 0) (hc : s.info n = some c)
      (hrule : s.claimRefusal c none = none) : Authorised s (.setmaster n n val text) n .master
  | handed {n mn val text c} (hval : val ≠ 0) (hc : s.info n = some c)
      (hpriv : c.privilege ≠ .none) : Authorised s (.setmaster n mn val text) mn .master
  | shared {n arg c d} (hc : s.info n = some c) (hpriv : .master ≤ c.privilege)
      (hd : s.target n shareSelf arg.val = .ok d) :
      Authorised s (.command n (.sendprivs arg)) d.clientnum c.privilege
  | invisible {n c} {arg : Token} (hc : s.info n = some c)
      (hpass : s.cfg.invadminpass = arg.val) :
      Authorised s (.command n (.invadmin arg)) n .admin
  | answer {n desc id ans p} (h : s.Answered n id ans desc p) :
      Authorised s (.authans n desc id ans) n p
  | confirmed {id c} (hid : id ≠ 0) (hf : s.findauth id = some c) (hv : c.authkickvictim < 0) :
      Authorised s (.succauth id) c.clientnum .auth

/-- A grant that event `e` may make: by an authorised route, and to a client of the engine's
table. -/
def Rightful (s : Server) (e : Event) (g : Int × Priv) : Prop :=
  s.Authorised e g.1 g.2 ∧ g.1 < MAXCLIENTS

/-- A reply of the master server is heard for a human. -/
def HeardByHuman (s : Server) (e : Event) : Prop :=
  ∀ id c, e = .succauth id → s.findauth id = some c → c.aitype = .human

/-! ## Connecting -/

theorem calm_name (s : Server) (n : Int) (name : String) :
    Calm s (s.upd n fun c => { c with name := connectName name }) :=
  .upd s n (fun _ => rfl) fun _ => Or.inr rfl

theorem connectMsg_moves (h : s.Orderly) {n : Int} {c : ClientInfo} (hc : s.info n = some c)
    (hconn : c.connected = false) {name pwd authdesc authname : String} {banned : Nat → Bool}
    (hrun : s.connectMsg n name pwd authdesc authname banned = .ok t) : Moves P [] s t := by
  have hn := h.toWF.lt_of_connecting hc hconn
  have hcalm := calm_name s n name
  unfold connectMsg at hrun
  simp only at hrun
  obtain ⟨c1, hc1, hconn1⟩ : ∃ c1,
      (s.upd n fun c => { c with name := connectName name }).info n = some c1 ∧
        c1.connected = false := by
    rw [info_upd, if_pos rfl, hc]
    exact ⟨_, rfl, hconn⟩
  generalize (s.upd n fun c => { c with name := connectName name }) = s1 at hrun hcalm hc1
  have hord : s1.Orderly := h.of_who hcalm.who
  refine (Moves.calm hcalm).trans_nil ?_
  have hwait : ∀ d, s1.info n = some d → d.connected = false := by
    intro d hd
    rwa [← Option.some.inj (hc1.symm.trans hd)]
  unfold sender at hrun
  rw [hc1] at hrun
  simp only [bind, Except.bind] at hrun
  split at hrun
  · exact connected_moves hord hc1 hconn1 hrun
  · split at hrun
    · obtain rfl := Except.ok.inj hrun
      exact .single (.reject _ hwait)
    · have hask := tryauth_moves (P := P) hord hn authname authdesc
      have hstay := who_tryauth hord hn authname authdesc
      obtain ⟨u, b, hu⟩ : ∃ u b, s1.tryauth n authname authdesc = (u, b) := ⟨_, _, rfl⟩
      rw [hu] at hrun hask hstay
      have hgone : u.who = s1.who → ∀ d, u.info n = some d → d.connected = false := by
        intro hw d hd
        obtain ⟨e, he, hi⟩ := some_of_ident (ident_of_who hw n) hd
        exact (congrArg Ident.connected hi).symm.trans (hwait e he)
      cases b with
      | true =>
        obtain rfl := Except.ok.inj hrun
        rcases hstay with hw | ⟨-, hf⟩
        · exact hask.trans_nil (.single (.owing _ (hgone hw)))
        · cases hf
      | false =>
        obtain rfl := Except.ok.inj hrun
        refine hask.trans_nil (.single (.reject _ ?_))
        rcases hstay with hw | ⟨hnone, -⟩
        · exact hgone hw
        · intro d hd
          rw [hnone] at hd
          cases hd

theorem who_sendf (s : Server) (cn : Int) (chan : Nat) (fs : List Field) :
    (s.sendf cn chan fs).who = s.who := rfl

/-! ## Messages -/

/-- The sender of a message: its record, and that it is listed. -/
theorem sender_eq {n : Int} {c : ClientInfo} (hc : s.info n = some c) : s.sender n = .ok c := by
  unfold sender
  rw [hc]

/-- A privilege that is handed on without a password is the one named. -/
theorem handed_moves (h : s.Orderly) (m : Int) (val : Bool) (authpriv : Priv) :
    ∃ gs, Moves P gs s (s.setmaster m val "" none none authpriv true).1 ∧
      ∀ g ∈ gs, g = (m, authpriv) ∧ val = true := by
  obtain ⟨gs, hmoves, hgs⟩ := setmaster_moves (P := P) s m val "" none none authpriv true false
  refine ⟨gs, hmoves, fun g hg => ?_⟩
  obtain ⟨hgn, hclaim⟩ := hgs g hg
  obtain ⟨d, hd, hp, -⟩ := hclaim.record
  rw [h.wantpriv_nopass hd] at hp
  exact ⟨Prod.ext hgn hp, hclaim.val⟩

/-- **`N_SETMASTER`** grants administrator for the password, or master. -/
theorem setmasterMsg_moves (h : s.Orderly) {n : Int} (hhum : n < MAXCLIENTS) {c : ClientInfo}
    (hc : s.info n = some c) {mn val : Int} {text : String}
    (hrun : s.setmasterMsg_ n mn val text = .ok t) :
    ∃ gs, Moves P gs s t ∧ ∀ g ∈ gs, s.Rightful (.setmaster n mn val text) g := by
  unfold setmasterMsg_ at hrun
  simp only [sender_eq hc, bind, Except.bind, h.clientnum n c hc] at hrun
  split at hrun
  · split at hrun
    · obtain rfl := Except.ok.inj hrun
      exact ⟨[], .refl s, by simp⟩
    · next hpriv =>
      split at hrun
      · obtain rfl := Except.ok.inj hrun
        exact ⟨[], .refl s, by simp⟩
      · next m hm =>
        split at hrun
        · obtain rfl := Except.ok.inj hrun
          exact ⟨[], .refl s, by simp⟩
        · obtain rfl := Except.ok.inj hrun
          have hmn : mn < MAXCLIENTS ∧ s.info mn = some m := by
            unfold getclientinfo at hm
            split at hm
            · next hr => exact ⟨hr.2, hm⟩
            · cases hm
          obtain ⟨gs, hmoves, hgs⟩ := handed_moves (P := P) h mn (decide (val ≠ 0)) .master
          refine ⟨gs, hmoves, fun g hg => ?_⟩
          obtain ⟨rfl, hval⟩ := hgs g hg
          refine ⟨.handed (by simpa using hval) hc ?_, hmn.1⟩
          simpa [privileged, h.nolocal n c hc] using hpriv
  · next hself =>
    obtain rfl : mn = n := by simpa using hself
    obtain rfl := Except.ok.inj hrun
    obtain ⟨gs, hmoves, hgs⟩ := setmaster_moves (P := P) s mn (decide (val ≠ 0)) text
      none none .master false false
    refine ⟨gs, hmoves, fun g hg => ?_⟩
    obtain ⟨hgn, hclaim⟩ := hgs g hg
    have hval : val ≠ 0 := by simpa using hclaim.val
    obtain ⟨d, hd, hp, hrule⟩ := hclaim.record
    obtain rfl := Option.some.inj (hc.symm.trans hd)
    unfold Rightful
    rw [hgn]
    refine ⟨?_, hhum⟩
    unfold wantpriv at hp
    rw [h.nolocal mn c hc, Bool.false_or] at hp
    split at hp
    · next hpass =>
      rw [Bool.and_eq_true, decide_eq_true_eq] at hpass
      rw [hp]
      exact .password hval hc hpass.1 hpass.2
    · rw [hp]
      exact .claim hval hc (hrule (by rw [hp]) rfl)

/-- A client that holds a privilege and is listed may change what is locked. -/
theorem lockby_moves (h : s.Orderly) {n : Int} {c : ClientInfo} (hc : s.info n = some c)
    (hconn : c.connected) (ho : c.ident.owner) (hw : t.who = s.who) (hk : Kept s t) :
    Moves P [] s t :=
  .single (.lockby (h.listed n c hc hconn) hc ho hw hk)

theorem owner_of_privileged {c : ClientInfo} (hp : privileged c) : c.ident.owner := by
  rw [owner_iff]
  unfold privileged at hp
  rw [Bool.or_eq_true, decide_eq_true_eq] at hp
  exact hp.symm

theorem mastermodeMsg_moves (h : s.Orderly) {n : Int} {c : ClientInfo} (hc : s.info n = some c)
    (hconn : c.connected) {mm : MasterMode} (hrun : s.mastermodeMsg n mm = .ok t) :
    Moves P [] s t := by
  unfold mastermodeMsg at hrun
  simp only [sender_eq hc, bind, Except.bind] at hrun
  split at hrun
  · obtain rfl := Except.ok.inj hrun
    exact .refl s
  · next hp =>
    split at hrun
    · split at hrun
      · obtain rfl := Except.ok.inj hrun
        exact .calm (calm_servmsgTo s n _)
      · obtain rfl := Except.ok.inj hrun
        refine lockby_moves h hc hconn (owner_of_privileged (by simpa using hp)) rfl ?_
        exact .of_info (fun _ _ hc => hc) rfl rfl
    · obtain rfl := Except.ok.inj hrun
      exact .calm (calm_servmsgTo s n _)

theorem clearbansMsg_moves {n : Int} {c : ClientInfo} (hc : s.info n = some c)
    (hrun : s.clearbansMsg n = .ok t) : Moves P [] s t := by
  unfold clearbansMsg at hrun
  simp only [sender_eq hc, bind, Except.bind] at hrun
  obtain rfl := Except.ok.inj hrun
  split
  · exact .calm ⟨rfl, rfl, .of_info (fun _ _ hc => hc) rfl rfl⟩
  · exact .refl s

theorem pausegameMsg_moves (h : s.Orderly) {n : Int} {c : ClientInfo} (hc : s.info n = some c)
    (hconn : c.connected) {val : Int} (hrun : s.pausegameMsg n val = .ok t) :
    Moves P [] s t := by
  unfold pausegameMsg at hrun
  simp only [sender_eq hc, bind, Except.bind] at hrun
  obtain rfl := Except.ok.inj hrun
  split
  · exact .refl s
  · next hp =>
    have ho : c.ident.owner := by
      rw [Bool.and_eq_true, decide_eq_true_eq, h.nolocal n c hc, Bool.not_false, not_and] at hp
      have hle : s.pausepriv ≤ c.privilege := not_lt.mp fun hlt => hp hlt rfl
      rw [owner_iff, Priv.ne_none_iff]
      exact Or.inr (le_trans ((Priv.ne_none_iff _).mp (pausepriv_ne_none s)) hle)
    exact lockby_moves h hc hconn ho (who_pausegame s _ _) (kept_pausegame s _ _)

theorem gamespeedMsg_moves {n : Int} {c : ClientInfo} (hc : s.info n = some c) {val : Int}
    (hrun : s.gamespeedMsg n val = .ok t) : Moves P [] s t := by
  unfold gamespeedMsg at hrun
  simp only [sender_eq hc, bind, Except.bind] at hrun
  generalize ite (s.cfg.restrictgamespeed = true) Priv.admin Priv.master = level at hrun
  obtain rfl := Except.ok.inj hrun
  split
  · exact .refl s
  · exact .calm ⟨who_of_roster (roster_changegamespeed s _ _), lock_changegamespeed s _ _,
      kept_changegamespeed s _ _⟩

theorem switchnameMsg_moves {n : Int} {c : ClientInfo} (hc : s.info n = some c) {name : String}
    (hrun : s.switchnameMsg n name = .ok t) : Moves P [] s t := by
  unfold switchnameMsg at hrun
  simp only [sender_eq hc, bind, Except.bind] at hrun
  obtain rfl := Except.ok.inj hrun
  exact .calm (calm_name s n name)

theorem calm_state (s : Server) (n : Int) (st : CState) :
    Calm s (s.upd n fun c => { c with state := st }) :=
  .upd s n (fun _ => rfl) fun _ => Or.inr rfl

theorem calm_spectate (s : Server) (sp : ClientInfo) (spectator val : Int) :
    Calm s (s.spectate sp spectator val) := by
  have hchange : Calm s (if val ≠ 0 then
      (if !sp.isLocal && decide (sp.privilege = .none) then
        (s.upd spectator fun c => { c with state := .spectator }).removeai spectator
        else s.upd spectator fun c => { c with state := .spectator })
      else s.upd spectator fun c => { c with state := .dead }) := by
    split
    · split
      · exact (calm_state s spectator .spectator).trans (calm_removeai _ spectator)
      · exact calm_state s spectator .spectator
    · exact calm_state s spectator .dead
  unfold spectate
  simp only
  split
  · exact hchange.trans (calm_servmsgTo _ _ _)
  · exact hchange.trans (calm_sendf _ _ _ _)

theorem calm_spectatorMsg {n : Int} {c : ClientInfo} (hc : s.info n = some c)
    {spectator val : Int} {b : Bool} (hrun : s.spectatorMsg n spectator val = .ok (t, b)) :
    Calm s t := by
  unfold spectatorMsg at hrun
  simp only [sender_eq hc, bind, Except.bind] at hrun
  have hstay : ∀ {u : Server} {b' : Bool}, Calm s u → Except.ok (u, b') =
      (Except.ok (t, b) : Except Fault (Server × Bool)) → Calm s t := by
    intro u b' hcalm he
    obtain ⟨rfl, -⟩ := Prod.mk.inj (Except.ok.inj he)
    exact hcalm
  split at hrun
  · exact hstay (.refl s) hrun
  · split at hrun
    · cases hrun
    · next sp _ =>
      split at hrun
      · split at hrun
        · exact hstay ((calm_state s spectator .spectator).trans (calm_sendf _ _ _ _)) hrun
        · exact hstay (.refl s) hrun
      · split at hrun
        · exact hstay (.refl s) hrun
        · split at hrun
          · cases hrun
          · exact hstay (calm_spectate s sp spectator val) hrun

theorem kickMsg_moves (h : s.Orderly) {n : Int} {c : ClientInfo} (hc : s.info n = some c)
    (hconn : c.connected) {victim : Int} {text : String}
    (hrun : s.kickMsg_ n victim text = .ok t) : Moves P [] s t := by
  unfold kickMsg_ at hrun
  cases hk : s.trykick n victim (some (filtertext text)) none none .none false with
  | error f => rw [hk] at hrun; cases hrun
  | ok r =>
    obtain ⟨u, b⟩ := r
    rw [hk] at hrun
    obtain rfl : u = t := Except.ok.inj hrun
    exact (trykick_moves h (h.listed n c hc hconn) hk).1

theorem authkickMsg_moves (h : s.Orderly) {n : Int} {c : ClientInfo} (hc : s.info n = some c)
    (hconn : c.connected) (hhum : n < MAXCLIENTS) {desc name : String} {victim : Int}
    {text : String} (hrun : s.authkickMsg n desc name victim text = .ok t) :
    Moves P [] s t := by
  unfold authkickMsg at hrun
  simp only [sender_eq hc, bind, Except.bind] at hrun
  split at hrun
  · obtain rfl := Except.ok.inj hrun
    exact .refl s
  · next level _ =>
    cases hk : s.trykick n victim (some (filtertext text)) (some name) (some desc) level true with
    | error f => rw [hk] at hrun; cases hrun
    | ok r =>
      obtain ⟨u, b⟩ := r
      obtain rfl := (trykick_moves (P := P) h (h.listed n c hc hconn) hk).2 rfl
      rw [hk] at hrun
      cases b with
      | false =>
        obtain rfl := Except.ok.inj hrun
        exact .refl u
      | true =>
        have hask := tryauth_moves (P := P) h hhum name desc
        obtain ⟨v, b, hv⟩ : ∃ v b, u.tryauth n name desc = (v, b) := ⟨_, _, rfl⟩
        simp only [hv] at hrun hask
        cases b with
        | false =>
          obtain rfl := Except.ok.inj hrun
          exact hask
        | true =>
          obtain rfl := Except.ok.inj hrun
          exact hask.trans_nil (.calm (.upd v n (fun _ => rfl) fun _ => Or.inr rfl))

/-! ## Text commands -/

/-- A target is a connected client of the engine's table. -/
theorem target_spec (h : s.WF) {n : Int} {self : Option String} {arg : String} {d : ClientInfo}
    (hd : s.target n self arg = .ok d) :
    s.info d.clientnum = some d ∧ d.clientnum < MAXCLIENTS ∧ d.connected ∧
      (∀ e, self = some e → d.clientnum ≠ n) := by
  unfold target at hd
  simp only at hd
  generalize s.commandTarget arg = cn at hd
  split at hd
  · cases hd
  · split at hd
    · cases hd
    · split at hd
      · cases hd
      · next hrange =>
        split at hd
        · cases hd
        · next hself =>
          cases hget : s.getclientinfo cn with
          | none => rw [hget] at hd; cases hd
          | some c =>
            rw [hget] at hd
            simp only at hd
            split at hd
            · next hconn =>
              obtain rfl := Except.ok.inj hd
              have hc : s.info cn = some c := by
                unfold getclientinfo at hget
                split at hget
                · exact hget
                · cases hget
              have hcn := h.clientnum cn c hc
              rw [hcn]
              refine ⟨hc, by omega, hconn, ?_⟩
              rintro e rfl rfl
              exact hself e rfl (by simp)
            · cases hd

/-- **`sendprivs`** hands on the privilege of the sender. -/
theorem sendprivsCmd_moves (h : s.Orderly) {n : Int} {c : ClientInfo} (hc : s.info n = some c)
    (hpriv : .master ≤ c.privilege) {arg : Token} (hrun : s.sendprivsCmd n arg.val = .ok t) :
    ∃ gs, Moves P gs s t ∧
      ∀ g ∈ gs, s.Rightful (.command n (.sendprivs arg)) g := by
  unfold sendprivsCmd at hrun
  cases hd : s.target n shareSelf arg.val with
  | error e =>
    unfold shareSelf at hd
    rw [hd] at hrun
    obtain rfl := Except.ok.inj hrun
    exact ⟨[], .calm (calm_servmsgTo s n e), by simp⟩
  | ok d =>
    obtain ⟨-, hhum, -⟩ := target_spec h.toWF hd
    -- the privilege of the sender is handed on after two messages
    have hshare : ∀ msg msg', ∃ gs, Moves P gs s
        (((s.servmsgTo n msg).servmsgTo d.clientnum msg').setmaster d.clientnum true "" none none
          c.privilege true).1 ∧ ∀ g ∈ gs, s.Rightful (.command n (.sendprivs arg)) g := by
      intro msg msg'
      have hcalm := (calm_servmsgTo s n msg).trans (calm_servmsgTo _ d.clientnum msg')
      obtain ⟨gs, hmoves, hgs⟩ := handed_moves (P := P) (h.of_who hcalm.who) d.clientnum true
        c.privilege
      refine ⟨gs, (Moves.calm hcalm).trans_nil hmoves, fun g hg => ?_⟩
      obtain ⟨rfl, -⟩ := hgs g hg
      exact ⟨.shared hc hpriv hd, hhum⟩
    unfold shareSelf at hd
    rw [hd] at hrun
    simp only [sender_eq hc, bind, Except.bind] at hrun
    split at hrun
    · obtain rfl := Except.ok.inj hrun
      exact ⟨[], .calm (calm_servmsgTo s n _), by simp⟩
    · split at hrun
      · next hp =>
        obtain rfl := Except.ok.inj hrun
        rw [← hp]
        exact hshare _ _
      · split at hrun
        · next hp =>
          obtain rfl := Except.ok.inj hrun
          rw [← hp]
          exact hshare _ _
        · obtain rfl := Except.ok.inj hrun
          exact ⟨[], .calm (calm_servmsgTo s n _), by simp⟩

theorem revokeprivCmd_moves (h : s.Orderly) {n : Int} {arg : String}
    (hrun : s.revokeprivCmd n arg = .ok t) : Moves P [] s t := by
  unfold revokeprivCmd at hrun
  split at hrun
  · obtain rfl := Except.ok.inj hrun
    exact .calm (calm_servmsgTo s n _)
  · next d hd =>
    obtain rfl := Except.ok.inj hrun
    have hcalm := calm_servmsgTo s n
      ("Privileges have been revoked from the specified client \x0c3" ++ s.colorname d)
    obtain ⟨gs, hmoves, hgs⟩ := handed_moves (P := P) (h.of_who hcalm.who) d.clientnum
      false .none
    have hnil : gs = [] := by
      cases gs with
      | nil => rfl
      | cons g gs => cases (hgs g List.mem_cons_self).2
    subst hnil
    exact (Moves.calm hcalm).trans_nil hmoves

/-- `ban` is for administrators, who outrank whoever they ban. -/
theorem banCmd_moves (h : s.Orderly) {n : Int} {c : ClientInfo} (hc : s.info n = some c)
    (hconn : c.connected) (hpriv : .admin ≤ c.privilege) {arg minutes : String}
    (hrun : s.banCmd n arg minutes = .ok t) : Moves P [] s t := by
  unfold banCmd at hrun
  split at hrun
  · obtain rfl := Except.ok.inj hrun
    exact .calm (calm_servmsgTo s n _)
  · next d hd =>
    obtain ⟨-, -, -, hself⟩ := target_spec h.toWF hd
    simp only at hrun
    generalize int32 (atoi minutes * 60000) = millis at hrun
    split at hrun
    · obtain rfl := Except.ok.inj hrun
      exact .calm (calm_servmsgTo s n _)
    · obtain rfl := Except.ok.inj hrun
      have hban := addban_moves (P := P) s (s.getclientip d.clientnum) millis
      have hn : n ∈ (s.addban (s.getclientip d.clientnum) millis).clients :=
        h.listed n c hc hconn
      have hc' : (s.addban (s.getclientip d.clientnum) millis).info n = some c := hc
      refine hban.trans_nil (.single (.kicked .kick hn ?_ hc' ?_))
      · exact fun e => hself _ rfl e.symm
      · exact fun e _ => (Priv.le_admin e.privilege).trans hpriv

theorem invadminCmd_moves (h : s.Orderly) {n : Int} (hhum : n < MAXCLIENTS) {c : ClientInfo}
    (hc : s.info n = some c) (hconn : c.connected) {arg : Token}
    (hrun : s.invadminCmd n arg.val = .ok t) :
    ∃ gs, Moves P gs s t ∧
      ∀ g ∈ gs, s.Rightful (.command n (.invadmin arg)) g := by
  unfold invadminCmd at hrun
  simp only [sender_eq hc, bind, Except.bind] at hrun
  split at hrun
  · next hpass =>
    obtain rfl := Except.ok.inj hrun
    obtain ⟨s1, hs1⟩ : ∃ s1, s1 = s.upd n fun c : ClientInfo =>
        { c with privilege := .admin, isInvAdmin := true } := ⟨_, rfl⟩
    have hw : s1.who = (s.setpriv n .admin).who := by
      rw [hs1, who_upd_ident s n (g := fun i => { i with privilege := .admin }) fun _ => rfl,
        who_setpriv]
    have hk : Kept s s1 := by
      rw [hs1]
      exact .upd s n fun _ => Or.inr rfl
    have ho : s1.Owned := by
      refine Owned.of_owner (n := n) (c := { c with privilege := .admin, isInvAdmin := true }) ?_ ?_ ?_
      · rw [hs1]
        exact h.listed n c hc hconn
      · rw [hs1, info_upd, if_pos rfl, hc]
        rfl
      · rw [owner_iff]
        exact Or.inr (by simp)
    rw [← hs1]
    refine ⟨[(n, .admin)], ?_, ?_⟩
    · have := (Moves.single (P := P) (.grant hw hk ho)).trans
        (.calm (calm_servmsgTo s1 n "Invisible \x0c6admin \x0c7activated"))
      rwa [List.append_nil] at this
    · intro g hg
      rw [List.mem_singleton.mp hg]
      exact ⟨.invisible hc hpass, hhum⟩
  · obtain rfl := Except.ok.inj hrun
    exact ⟨[], .calm (calm_servmsgTo s n _), by simp⟩

/-- **A text command** grants what the sender holds, or the rank of an invisible
administrator. -/
theorem command_moves (h : s.Orderly) {n : Int} (hhum : n < MAXCLIENTS) {c : ClientInfo}
    (hc : s.info n = some c) (hconn : c.connected) {cmd : Command}
    (hrun : s.command n cmd = .ok t) :
    ∃ gs, Moves P gs s t ∧ ∀ g ∈ gs, s.Rightful (.command n cmd) g := by
  unfold command at hrun
  simp only [sender_eq hc, bind, Except.bind] at hrun
  split at hrun
  · next hpriv =>
    cases cmd with
    | sendprivs arg => exact sendprivsCmd_moves h hc hpriv hrun
    | revokepriv arg => exact ⟨[], revokeprivCmd_moves h hrun, by simp⟩
    | invadmin arg => exact invadminCmd_moves h hhum hc hconn hrun
    | ban arg minutes => exact ⟨[], banCmd_moves h hc hconn hpriv hrun, by simp⟩
    | allowmaster on =>
      obtain rfl := Except.ok.inj hrun
      exact ⟨[], .calm ⟨rfl, rfl, .of_info (fun _ _ hc => hc) rfl rfl⟩, by simp⟩
  · obtain rfl := Except.ok.inj hrun
    exact ⟨[], .calm (calm_servmsgTo s n _), by simp⟩

/-! ## The step -/

/-- The client that an event disconnects in its own right. -/
def leaving : Event → Option Int
  | .disconnect n _ => some n
  | .drop n => some n
  | _ => none

/-- A peer that is gone leaves as a client that is disconnected does. -/
theorem drop_moves (h : s.Orderly) {n : Int} (hok : P s n) : Moves P [] s (s.drop n) := by
  cases hget : s.getclientinfo n with
  | none =>
    have hstay : s.drop n = s := by
      unfold drop
      rw [hget]
    rw [hstay]
    exact .refl s
  | some c =>
    have hc : s.info n = some c := by
      unfold getclientinfo at hget
      split at hget
      · exact hget
      · cases hget
    have hcore : (s.drop n).core = (s.disconnectClient n .none).core := by
      unfold drop disconnectClient sendservmsg
      rw [hget]
      simp only [h.nolocal n c hc, Bool.false_eq_true, if_false]
      rw [core_sendf]
    exact (Moves.single (.leave .none hok)).trans_nil (.calm (.of_core hcore))

/-- A message of the main loop is handled for a listed network client, or ignored. -/
theorem fromClient_cases {n : Int} {f : Server → Except Fault Server}
    (hrun : s.fromClient n f = .ok t) :
    t = s ∨ ∃ c, s.info n = some c ∧ c.connected ∧ n < MAXCLIENTS ∧ f s = .ok t := by
  unfold fromClient at hrun
  split at hrun
  · next c hc =>
    split at hrun
    · next hr => exact Or.inr ⟨c, hc, hr.1, hr.2, hrun⟩
    · exact Or.inl (Except.ok.inj hrun).symm
  · exact Or.inl (Except.ok.inj hrun).symm

/-- A message that makes moves for every client it is handled for. -/
theorem fromClient_moves {n : Int} {f : Server → Except Fault Server} {e : Event}
    (hf : ∀ c, s.info n = some c → c.connected → n < MAXCLIENTS → f s = .ok t →
      ∃ gs, Moves P gs s t ∧ ∀ g ∈ gs, s.Rightful e g)
    (hrun : s.fromClient n f = .ok t) :
    ∃ gs, Moves P gs s t ∧ ∀ g ∈ gs, s.Rightful e g := by
  rcases fromClient_cases hrun with rfl | ⟨c, hc, hconn, hhum, hrun⟩
  · exact ⟨[], .refl t, by simp⟩
  · exact hf c hc hconn hhum hrun

/-- Moves that grant nothing need no authorisation. -/
theorem quiet {e : Event} (h : Moves P [] s t) :
    ∃ gs, Moves P gs s t ∧ ∀ g ∈ gs, s.Rightful e g :=
  ⟨[], h, by simp⟩

theorem authans_moves (h : s.Orderly) {n : Int} {desc : String} {id : Nat} {ans : String}
    (hrun : s.step (.authans n desc id ans) = .ok t) :
    ∃ gs, Moves P gs s t ∧ ∀ g ∈ gs, s.Rightful (.authans n desc id ans) g := by
  unfold step at hrun
  simp only at hrun
  cases hc : s.info n with
  | none =>
    rw [hc] at hrun
    obtain rfl := Except.ok.inj hrun
    exact quiet (.refl s)
  | some c =>
    rw [hc] at hrun
    simp only at hrun
    split at hrun
    · next hsend =>
      have hhum : n < MAXCLIENTS := by
        rcases hsend with hsend | hsend
        · exact hsend.2
        · by_contra hge
          obtain ⟨d, hd, hdc⟩ := h.live n (h.bot n c hc (by omega)).2
          obtain rfl := Option.some.inj (hc.symm.trans hd)
          exact hsend (h.noauth n c hc hdc)
      unfold authansMsg at hrun
      cases ha : s.answerchallenge n id ans desc with
      | error f => rw [ha] at hrun; cases hrun
      | ok r =>
        obtain ⟨u, b⟩ := r
        rw [ha] at hrun
        obtain rfl : u = t := Except.ok.inj hrun
        obtain ⟨gs, hmoves, hgs⟩ := answerchallenge_moves (P := P) h hc
          (hsend.imp And.left fun he => he) ha
        refine ⟨gs, hmoves, fun g hg => ?_⟩
        obtain ⟨rfl, hans⟩ := hgs g hg
        exact ⟨.answer hans, hhum⟩
    · obtain rfl := Except.ok.inj hrun
      exact quiet (.refl s)

theorem hello_moves (h : s.Orderly) {n : Int} {name pwd authdesc authname : String}
    {banned : Nat → Bool} (hrun : s.step (.hello n name pwd authdesc authname banned) = .ok t) :
    Moves P [] s t := by
  unfold step at hrun
  simp only at hrun
  cases hc : s.info n with
  | none =>
    rw [hc] at hrun
    obtain rfl := Except.ok.inj hrun
    exact .refl s
  | some c =>
    rw [hc] at hrun
    simp only at hrun
    split at hrun
    · next hsend => exact connectMsg_moves h hc hsend.1 hrun
    · obtain rfl := Except.ok.inj hrun
      exact .refl s

theorem countdown_moves (s : Server) (n : Int) :
    Moves P [] s ((s.pausegame true n).pausegame false n) := by
  refine .single (.ease ?_ ?_ fun hs => ?_)
  · rw [who_pausegame, who_pausegame]
  · exact (kept_pausegame s true n).trans (kept_pausegame _ false n)
  · refine unlocked_unpaused hs ?_
    have hpaused := lock_pausegame s true n
    unfold lock at hpaused
    rw [Prod.mk.injEq, Prod.mk.injEq] at hpaused
    rw [lock_pausegame, hpaused.1, hpaused.2.1]

/-- **A step is a sequence of moves**, and every grant on the way is authorised, unless it is
that of a reply to no request.  The condition on `succauth` keeps it from bots. -/
theorem step_moves (h : s.Orderly) {e : Event}
    (hset : ∀ cfg users rot exclude, e ≠ .settings cfg users rot exclude)
    (hok : ∀ n, leaving e = some n → P s n)
    (hrun : s.step e = .ok t) :
    ∃ gs, Moves P gs s t ∧ ∀ g ∈ gs,
      (e.Numbered → s.Authorised e g.1 g.2) ∧ (s.HeardByHuman e → g.1 < MAXCLIENTS) := by
  have hall : (∃ gs, Moves P gs s t ∧ ∀ g ∈ gs, s.Rightful e g) →
      ∃ gs, Moves P gs s t ∧ ∀ g ∈ gs,
      (e.Numbered → s.Authorised e g.1 g.2) ∧ (s.HeardByHuman e → g.1 < MAXCLIENTS) := by
    rintro ⟨gs, hmoves, hgs⟩
    exact ⟨gs, hmoves, fun g hg => ⟨fun _ => (hgs g hg).1, fun _ => (hgs g hg).2⟩⟩
  unfold step at hrun
  cases e with
  | connect n host hostname sid =>
    obtain rfl := Except.ok.inj hrun
    exact hall (quiet (.single (.arrive n host hostname sid)))
  | disconnect n r =>
    obtain rfl := Except.ok.inj hrun
    exact hall (quiet (.single (.leave r (hok n rfl))))
  | drop n =>
    obtain rfl := Except.ok.inj hrun
    exact hall (quiet (drop_moves h (hok n rfl)))
  | hello n name pwd authdesc authname banned => exact hall (quiet (hello_moves h hrun))
  | authans n desc id ans => exact hall (authans_moves h hrun)
  | setmaster n mn val text =>
    exact hall (fromClient_moves (fun c hc _ hhum hf => setmasterMsg_moves h hhum hc hf) hrun)
  | mastermode n mm =>
    exact hall (fromClient_moves (fun c hc hconn _ hf => quiet (mastermodeMsg_moves h hc hconn hf))
      hrun)
  | clearbans n =>
    exact hall (fromClient_moves (fun c hc _ _ hf => quiet (clearbansMsg_moves hc hf)) hrun)
  | kick n victim text =>
    exact hall (fromClient_moves
      (fun c hc hconn _ hf => quiet (kickMsg_moves h hc hconn hf)) hrun)
  | spectator n spectator val =>
    refine hall (fromClient_moves (fun c hc _ _ hf => ?_) hrun)
    cases hs : s.spectatorMsg n spectator val with
    | error f => rw [hs] at hf; cases hf
    | ok r =>
      obtain ⟨u, b⟩ := r
      rw [hs] at hf
      obtain rfl : u = t := Except.ok.inj hf
      exact quiet (.calm (calm_spectatorMsg hc hs))
  | authtry n desc name =>
    refine hall (fromClient_moves (fun c hc _ hhum hf => ?_) hrun)
    unfold authtryMsg at hf
    simp only [sender_eq hc, bind, Except.bind] at hf
    obtain rfl := Except.ok.inj hf
    exact quiet (tryauth_moves h hhum name desc)
  | authkick n desc name victim text =>
    exact hall (fromClient_moves
      (fun c hc hconn hhum hf => quiet (authkickMsg_moves h hc hconn hhum hf)) hrun)
  | pausegame n val =>
    exact hall (fromClient_moves
      (fun c hc hconn _ hf => quiet (pausegameMsg_moves h hc hconn hf)) hrun)
  | gamespeed n val =>
    exact hall (fromClient_moves (fun c hc _ _ hf => quiet (gamespeedMsg_moves hc hf)) hrun)
  | switchname n name =>
    exact hall (fromClient_moves (fun c hc _ _ hf => quiet (switchnameMsg_moves hc hf)) hrun)
  | addbot n name =>
    refine hall (fromClient_moves (fun c _ _ _ hf => ?_) hrun)
    obtain rfl := Except.ok.inj hf
    exact quiet (reqadd_moves s n name)
  | delbot n =>
    refine hall (fromClient_moves (fun c _ _ _ hf => ?_) hrun)
    obtain rfl := Except.ok.inj hf
    exact quiet (reqdel_moves s n)
  | command n cmd =>
    exact hall (fromClient_moves (fun c hc hconn hhum hf => command_moves h hhum hc hconn hf) hrun)
  | autobot n name =>
    obtain rfl := Except.ok.inj hrun
    exact hall (quiet (addBotHelper_moves s n name))
  | deleteai bot =>
    obtain rfl := Except.ok.inj hrun
    refine hall (quiet ?_)
    split
    · next hb => exact .single (.delbot hb)
    · exact .refl s
  | shiftai bot owner =>
    obtain rfl := Except.ok.inj hrun
    exact hall (quiet (.calm (.of_core (core_shiftai s bot owner))))
  | startmap map mode =>
    obtain rfl := Except.ok.inj hrun
    exact hall (quiet (startmap_moves h.toWF.toLive map mode))
  | announcemap =>
    obtain rfl := Except.ok.inj hrun
    exact hall (quiet (.calm (calm_announcemap s)))
  | rotate cur =>
    obtain rfl := Except.ok.inj hrun
    exact hall (quiet (.calm ⟨rfl, rfl, .of_info (fun _ _ hc => hc) rfl rfl⟩))
  | countdown n =>
    obtain rfl := Except.ok.inj hrun
    exact hall (quiet (countdown_moves s n))
  | addban ip expire =>
    obtain rfl := Except.ok.inj hrun
    exact hall (quiet (addban_moves s ip expire))
  | unban ban =>
    obtain rfl := Except.ok.inj hrun
    exact hall (quiet (.calm ⟨rfl, rfl, .of_info (fun _ _ hc => hc) rfl rfl⟩))
  | play n st exceeded =>
    obtain rfl := Except.ok.inj hrun
    exact hall (quiet (.calm (.upd s n (fun _ => rfl) fun _ => Or.inr rfl)))
  | schedule t =>
    obtain rfl := Except.ok.inj hrun
    exact hall (quiet (.calm ⟨rfl, rfl, .of_info (fun _ _ hc => hc) rfl rfl⟩))
  | tick total game =>
    obtain rfl := Except.ok.inj hrun
    exact hall (quiet (.calm ⟨rfl, rfl, .of_info (fun _ _ hc => hc) rfl rfl⟩))
  | settings cfg users rot exclude => exact absurd rfl (hset cfg users rot exclude)
  | masterup up =>
    obtain rfl := Except.ok.inj hrun
    exact hall (quiet (.calm ⟨rfl, rfl, .of_info (fun _ _ hc => hc) rfl rfl⟩))
  | succauth id =>
    obtain ⟨gs, hmoves, hgs⟩ := authsucceeded_moves (P := P) h hrun
    refine ⟨gs, hmoves, fun g hg => ?_⟩
    obtain ⟨hp, c, hf, hcn, hv⟩ := hgs g hg
    rw [hp, ← hcn]
    refine ⟨fun hid => .confirmed hid hf hv, fun hheard => ?_⟩
    exact (h.human _ c (findauth_spec h.toWF hf).1).mp (hheard id c rfl hf)
  | failauth id =>
    obtain rfl := Except.ok.inj hrun
    exact hall (quiet (.calm (calm_authfailed h id)))
  | chalauth id val =>
    obtain rfl := Except.ok.inj hrun
    refine hall (quiet (.calm ?_))
    unfold authchallenged
    split
    · exact .refl s
    · exact calm_sendf s _ _ _
  | masterdisconnected =>
    obtain rfl := Except.ok.inj hrun
    exact hall (quiet (.calm (calm_masterdisconnected h)))

end Server
end QServ
