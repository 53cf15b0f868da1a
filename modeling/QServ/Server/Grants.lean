import QServ.Server.Handlers

/-!
# Kicks, privileges and authentication make moves

The functions of the server that grant privileges, and those that come before them.  Only
`setmaster` grants anything here, and `setmaster_moves` says what that took.

* `trykick_moves`: a kick, with all the departures it causes.
* `setmaster_moves`: what is granted, and why.
* `tryauth_moves`: an auth request.
* `answerchallenge_moves`, `authsucceeded_moves`: what a verified answer grants.
-/

namespace QServ
namespace Server

open ReverseLoop

variable {P : Server → Int → Prop} {s t : Server}

/-! ## Kicks -/

theorem addban_moves (s : Server) (ip : Nat) (expire : Int) :
    Moves P [] s (s.addban ip expire) := by
  have hk : Kept s (s.addban ip expire) := .of_info (fun _ _ hc => hc) rfl rfl
  have hw : (s.addban ip expire).who = s.who := rfl
  refine .single (.ease hw hk fun hs => ?_)
  unfold Unlocked lock at hs ⊢
  rw [Prod.mk.injEq, Prod.mk.injEq] at hs
  unfold addban
  simp only [hs.1, hs.2.1, hs.2.2, List.filter_nil]

/-- One turn of `kickclients` kicks nobody that outranks the actor. -/
theorem kickBody_moves (h : s.Orderly) {cn : Int} (hcn : ∀ ci, s.info cn = some ci → ci.connected)
    {ip : Nat} {n : Int} (hrun : kickBody ip (some cn) n s = .ok t) :
    Moves P [] s t ∧ (t = s ∨ t = s.disconnectClient n .kick) := by
  unfold kickBody at hrun
  cases hc : s.info n with
  | none => rw [hc] at hrun; cases hrun
  | some c =>
    rw [hc] at hrun
    simp only at hrun
    split at hrun
    · obtain rfl := Except.ok.inj hrun
      exact ⟨.refl s, Or.inl rfl⟩
    · cases hci : s.info cn with
      | none => rw [hci] at hrun; cases hrun
      | some ci =>
        rw [hci] at hrun
        simp only at hrun
        split at hrun
        · obtain rfl := Except.ok.inj hrun
          exact ⟨.refl s, Or.inl rfl⟩
        · next hkick =>
          obtain rfl := Except.ok.inj hrun
          split
          · rw [Bool.or_eq_true, decide_eq_true_eq, decide_eq_true_eq, not_or, not_lt,
              h.clientnum n c hc, h.clientnum cn ci hci] at hkick
            rw [h.clientnum n c hc]
            refine ⟨.single (.kicked .kick (h.listed cn ci hci (hcn ci hci)) (Ne.symm hkick.2) hci
              fun d hd => ?_), Or.inr rfl⟩
            obtain rfl := Option.some.inj (hc.symm.trans hd)
            exact hkick.1
          · exact ⟨.refl s, Or.inl rfl⟩

/-- Nor does its loop. -/
theorem kickclients_moves (h : s.Orderly) {cn : Int} (hcn : cn ∈ s.clients) (ip : Nat)
    (hrun : s.kickclients ip (some cn) = .ok t) : Moves P [] s t := by
  -- as long as the actor has a record it is that of a connected client
  refine (revLoop_rel (fun s => s.Orderly ∧ ∀ ci, s.info cn = some ci → ci.connected)
    (fun s t => Moves P [] s t) Moves.refl (fun _ _ _ => Moves.trans_nil) ?_ _ s t
    ⟨h, fun ci hci => ?_⟩ hrun).2
  · rintro u n v ⟨hu, hact⟩ - hbody
    obtain ⟨hmoves, hv⟩ := kickBody_moves (P := P) hu hact hbody
    refine ⟨⟨hmoves.orderly hu, fun ci hci => ?_⟩, hmoves⟩
    rcases hv with rfl | rfl
    · exact hact ci hci
    · obtain ⟨d, hd, hi⟩ := ident_disconnectClient hu.toWF hci
      exact (congrArg Ident.connected hi).symm.trans (hact d hd)
  · obtain ⟨d, hd, hconn⟩ := h.live cn hcn
    rwa [Option.some.inj (hci.symm.trans hd)]

/-- **A kick** makes moves that grant nothing, and a trial makes none. -/
theorem trykick_moves (h : s.Orderly) {cn : Int} (hcn : cn ∈ s.clients)
    {victim : Int} {reason an ad : Option String} {authpriv : Priv} {trial b : Bool}
    (hrun : s.trykick cn victim reason an ad authpriv trial = .ok (t, b)) :
    Moves P [] s t ∧ (trial = true → t = s) := by
  unfold trykick at hrun
  cases hci : s.info cn with
  | none => rw [hci] at hrun; cases hrun
  | some ci =>
    rw [hci] at hrun
    simp only at hrun
    split at hrun
    · cases hv : s.getclientinfo victim with
      | none =>
        rw [hv] at hrun
        obtain ⟨rfl, -⟩ := Prod.mk.inj (Except.ok.inj hrun)
        exact ⟨.refl s, fun _ => rfl⟩
      | some v =>
        rw [hv] at hrun
        simp only at hrun
        split at hrun
        · cases trial with
          | true =>
            obtain ⟨rfl, -⟩ := Prod.mk.inj (Except.ok.inj hrun)
            exact ⟨.refl s, fun _ => rfl⟩
          | false =>
            simp only [Bool.false_eq_true, if_false] at hrun
            refine ⟨?_, fun hf => by cases hf⟩
            -- the announcement and the ban come first
            generalize kickMsg (s.kicker ci an ad authpriv) (s.colorname v) reason = msg at hrun
            generalize (s.sendservmsg msg).getclientip victim = ip at hrun
            have hban := addban_moves (P := P) (s.sendservmsg msg) ip kickban
            cases hkick : ((s.sendservmsg msg).addban ip kickban).kickclients ip (some cn) with
            | error f => rw [hkick] at hrun; cases hrun
            | ok u =>
              rw [hkick] at hrun
              obtain rfl : u = t := congrArg Prod.fst (Except.ok.inj hrun)
              have hord : ((s.sendservmsg msg).addban ip kickban).Orderly := h.of_who rfl
              exact (Moves.calm (calm_sendf s _ _ _)).trans_nil
                (hban.trans_nil (kickclients_moves hord hcn ip hkick))
        · obtain ⟨rfl, -⟩ := Prod.mk.inj (Except.ok.inj hrun)
          exact ⟨.refl s, fun _ => rfl⟩
    · obtain ⟨rfl, -⟩ := Prod.mk.inj (Except.ok.inj hrun)
      exact ⟨.refl s, fun _ => rfl⟩

/-! ## Privileges -/

/-- What a claim by `setmaster` is granted on: the level wanted, above the one held, and no
reason to refuse an unforced claim of master. -/
structure Claimed (s : Server) (n : Int) (val : Bool) (pass : String) (authname : Option String)
    (authpriv : Priv) (force trial : Bool) (p : Priv) : Prop where
  val : val = true
  trial : trial = false
  record : ∃ c, s.info n = some c ∧ p = s.wantpriv c pass authpriv ∧
    (p ≤ .master → force = false → s.claimRefusal c authname = none)

/-- **What `setmaster` grants** is what was `Claimed`. -/
theorem setmaster_moves (s : Server) (n : Int) (val : Bool)
    (pass : String) (an ad : Option String) (authpriv : Priv) (force trial : Bool) :
    ∃ gs, Moves P gs s (s.setmaster n val pass an ad authpriv force trial).1 ∧
      ∀ g ∈ gs, g.1 = n ∧ s.Claimed n val pass an authpriv force trial g.2 := by
  rcases setmaster_cases s n val pass an ad authpriv force trial with h | ⟨c, hc, htrial, h⟩
  · exact ⟨[], .calm (.of_core h), by simp⟩
  · rcases h with ⟨hval, -, hallow, he⟩ | ⟨-, -, he⟩
    · refine ⟨[(n, s.wantpriv c pass authpriv)], ?_, ?_⟩
      · rw [he]
        exact .single (g := some (n, _)) (.grant (who_setmasterDone _ _ _ _ _ _)
          ((kept_setpriv s n _).trans (kept_setmasterDone _ _ _ _ _ _))
          (owned_setmasterDone _ _ _ _ _ _))
      · intro g hg
        rw [List.mem_singleton.mp hg]
        exact ⟨rfl, hval, htrial, c, hc, rfl, hallow⟩
    · refine ⟨[], ?_, by simp⟩
      rw [he]
      exact .single (.release (n := n)
        ((who_setmasterDone _ _ _ _ _ _).trans (who_revokemaster s n))
        ((kept_revokemaster s n).trans (kept_setmasterDone _ _ _ _ _ _))
        (owned_setmasterDone _ _ _ _ _ _))

theorem clients_setmaster (s : Server) (n : Int) (val : Bool) (pass : String)
    (an ad : Option String) (authpriv : Priv) (force trial : Bool) :
    (s.setmaster n val pass an ad authpriv force trial).1.clients = s.clients := by
  rcases setmaster_cases s n val pass an ad authpriv force trial with h | ⟨c, -, -, h⟩
  · exact clients_of_core h
  · rcases h with ⟨-, -, -, h⟩ | ⟨-, -, h⟩
    · rw [h, clients_of_roster (roster_setmasterDone _ _ _ _ _ _)]
      rfl
    · rw [h, clients_of_roster (roster_setmasterDone _ _ _ _ _ _),
        clients_of_core (core_revokemaster s n)]
      rfl

/-- Without a password the level wanted is the one the caller grants. -/
theorem Orderly.wantpriv_nopass (h : s.Orderly) {n : Int} {c : ClientInfo}
    (hc : s.info n = some c) (authpriv : Priv) : s.wantpriv c "" authpriv = authpriv := by
  have hno : s.checkpassword c s.cfg.adminpass "" = false := by
    unfold checkpassword hashpassword
    rw [decide_eq_false_iff_not]
    exact s.cfg.hashstring_ne _
  unfold wantpriv
  rw [h.nolocal n c hc, hno]
  simp

/-! ## Auth requests -/

theorem calm_cleanauth (s : Server) (n : Int) (full : Bool) : Calm s (s.cleanauth n full) :=
  .upd s n (fun _ => rfl) fun _ => Or.inl ⟨rfl, rfl⟩

theorem calm_servmsgTo (s : Server) (n : Int) (msg : String) : Calm s (s.servmsgTo n msg) :=
  calm_sendf s n 1 _

theorem authreqid_ne (s : Server) : s.authreqid ≠ 0 := by
  unfold authreqid
  split
  · omega
  · assumption

theorem who_cleanauth (s : Server) (n : Int) (full : Bool) : (s.cleanauth n full).who = s.who :=
  (calm_cleanauth s n full).who

theorem who_newauthreq (s : Server) (n : Int) (user desc : String) :
    (s.newauthreq n user desc).who = s.who :=
  who_upd _ n fun _ => rfl

theorem requestmaster_eq (s : Server) (req : MasterReq) :
    s.requestmaster req = ({ s with toMaster := s.toMaster ++ [req] }, true) ∨
      s.requestmaster req = (s, false) := by
  unfold requestmaster
  split
  · exact Or.inl rfl
  · exact Or.inr rfl

/-- The records after `newauthreq`: that of `n` has no challenge yet. -/
theorem info_newauthreq {n m : Int} {user desc : String} {c' : ClientInfo}
    (hc' : ((s.cleanauth n).newauthreq n user desc).info m = some c') :
    (m = n ∧ c'.authreq ≠ 0 ∧ c'.authchallenge = none ∧ c'.authdesc = desc ∧
      c'.authname = filtertext user false false 100) ∨ (m ≠ n ∧ s.info m = some c') := by
  unfold newauthreq cleanauth at hc'
  rw [info_upd] at hc'
  split at hc'
  · next hm =>
    change Option.map _ ((s.upd n _).info m) = some c' at hc'
    rw [info_upd, if_pos hm] at hc'
    cases hs : s.info m with
    | none => rw [hs] at hc'; cases hc'
    | some c =>
      rw [hs] at hc'
      obtain rfl := Option.some.inj hc'
      exact Or.inl ⟨hm, authreqid_ne _, rfl, rfl, rfl⟩
  · next hm =>
    change (s.upd n _).info m = some c' at hc'
    rw [info_upd, if_neg hm] at hc'
    exact Or.inr ⟨hm, hc'⟩

/-- The challenge made for a pending request comes from the key of the user it names. -/
theorem sendchallenge_moves (s : Server) {n : Int} (hn : n < MAXCLIENTS) (desc : String) (id : Nat)
    {u : UserInfo} (hu : u ∈ s.users)
    (hreq : ∀ c, s.info n = some c → c.authreq ≠ 0 ∧ u.name = c.authname ∧ u.desc = c.authdesc) :
    Moves P [] s (s.sendchallenge n desc id u) := by
  refine .single (.ask hn ?_ ?_ ?_ ?_ ?_)
  · unfold sendchallenge
    simp only
    rw [(calm_sendf _ _ _ _).who, who_upd _ _ (by intro c; rfl)]
    rfl
  · rfl
  · rfl
  · intro m c' hc'
    change (if m = n then (s.info m).map _ else s.info m) = some c' at hc'
    split at hc'
    · next hm =>
      subst hm
      cases hs : s.info m with
      | none => rw [hs] at hc'; cases hc'
      | some c =>
        rw [hs] at hc'
        obtain rfl := Option.some.inj hc'
        obtain ⟨hr, hname, hdesc⟩ := hreq c hs
        refine Or.inl ⟨rfl, fun ch he => ⟨hr, u, hu, hname, hdesc, ?_⟩⟩
        obtain rfl := Option.some.inj he
        rfl
    · exact Or.inr ⟨c', hc', rfl⟩
  · exact fun _ _ hm => Or.inl hm

/-- A numbered request goes to the master server. -/
theorem requestmaster_moves (s : Server) {id : Nat} (hid : id ≠ 0) (user : String) :
    Calm s { s with toMaster := s.toMaster ++ [.reqauth id user] } := by
  refine ⟨rfl, rfl, fun _ c hc => Or.inr ⟨c, hc, rfl⟩, rfl, ?_⟩
  intro id' user' hm
  rcases List.mem_append.mp hm with hm | hm
  · exact Or.inl hm
  · right
    rw [List.mem_singleton, MasterReq.reqauth.injEq] at hm
    rwa [hm.1]

/-- **An auth request** is made under a number of its own, and its challenge, if the server
makes one, from the key of the user that is named. -/
theorem askauth_moves (s : Server) {n : Int} (hn : n < MAXCLIENTS) (user desc : String) :
    Moves P [] s (s.askauth n user desc) := by
  have hask : Moves P [] s ((s.cleanauth n).newauthreq n user desc) := by
    refine .single (.ask hn ?_ ?_ ?_ ?_ ?_)
    · exact (who_newauthreq _ n user desc).trans (who_cleanauth s n true)
    · rfl
    · rfl
    · intro m c' hc'
      rcases info_newauthreq hc' with ⟨hm, -, hch, -⟩ | ⟨-, hc'⟩
      · left
        refine ⟨hm, fun ch he => ?_⟩
        rw [hch] at he
        cases he
      · exact Or.inr ⟨c', hc', rfl⟩
    · exact fun _ _ hm => Or.inl hm
  unfold askauth
  simp only
  split
  · cases hu : ((s.cleanauth n).newauthreq n user desc).finduser
        (filtertext user false false 100) desc with
    | none => exact hask.trans_nil (.calm (calm_cleanauth _ n true))
    | some u =>
      unfold finduser at hu
      have hfound := List.find?_some hu
      rw [Bool.and_eq_true, decide_eq_true_eq, decide_eq_true_eq] at hfound
      refine hask.trans_nil (sendchallenge_moves _ hn desc _ (List.mem_of_find?_eq_some hu) ?_)
      intro c hc
      rcases info_newauthreq hc with ⟨-, hr, -, hdesc, hname⟩ | ⟨hne, -⟩
      · exact ⟨hr, hfound.1.trans hname.symm, hfound.2.trans hdesc.symm⟩
      · exact absurd rfl hne
  · rcases requestmaster_eq ((s.cleanauth n).newauthreq n user desc)
        (.reqauth s.authreqid (filtertext user false false 100)) with he | he
    · rw [he]
      exact hask.trans_nil (.calm (requestmaster_moves _ (authreqid_ne s) _))
    · rw [he]
      exact hask.trans_nil (.calm ((calm_cleanauth _ n true).trans (calm_servmsgTo _ n nomaster)))

theorem who_askauth (s : Server) (n : Int) (user desc : String) :
    (s.askauth n user desc).who = s.who := by
  have hreq : ((s.cleanauth n).newauthreq n user desc).who = s.who :=
    (who_newauthreq _ n user desc).trans (who_cleanauth s n true)
  unfold askauth
  simp only
  split
  · split
    · unfold sendchallenge
      simp only
      rw [(calm_sendf _ _ _ _).who, who_upd _ _ (by intro c; rfl)]
      exact hreq
    · rw [who_cleanauth, hreq]
  · rcases requestmaster_eq ((s.cleanauth n).newauthreq n user desc)
        (.reqauth s.authreqid (filtertext user false false 100)) with he | he
    · rw [he]
      exact hreq
    · rw [he]
      simp only
      rw [(calm_servmsgTo _ n nomaster).who, who_cleanauth, hreq]

/-- **`tryauth`** grants nothing, and throws out none but a connecting client. -/
theorem tryauth_moves (h : s.Orderly) {n : Int} (hn : n < MAXCLIENTS) (user desc : String) :
    Moves P [] s (s.tryauth n user desc).1 := by
  have hask := askauth_moves (P := P) s hn user desc
  unfold tryauth
  simp only
  cases hc : (s.askauth n user desc).info n with
  | none => exact hask
  | some c =>
    simp only
    split
    · exact hask
    · split
      · next hconn =>
        refine hask.trans_nil (.single (.reject c.connectauth fun d hd => ?_))
        obtain rfl := Option.some.inj (hc.symm.trans hd)
        by_contra hcc
        exact hconn ((hask.orderly h).noauth n c hc (by simpa using hcc))
      · exact hask

/-- After `tryauth` everybody is as connected as before, or the client is gone. -/
theorem who_tryauth (h : s.Orderly) {n : Int} (hn : n < MAXCLIENTS) (user desc : String) :
    (s.tryauth n user desc).1.who = s.who ∨
      ((s.tryauth n user desc).1.info n = none ∧ (s.tryauth n user desc).2 = false) := by
  have hw := who_askauth s n user desc
  unfold tryauth
  simp only
  cases hc : (s.askauth n user desc).info n with
  | none => exact Or.inl hw
  | some c =>
    simp only
    split
    · exact Or.inl hw
    · split
      · exact Or.inr ⟨info_disconnectClient_self (h.of_who hw) hn _, rfl⟩
      · exact Or.inl hw

/-! ## Verified answers -/

/-- What a verified answer is granted: nothing if it was asked for a kick. -/
theorem authgranted_moves (h : s.Orderly) {n : Int} (hn : n ∈ s.clients)
    {c : ClientInfo} (hc : s.info n = some c) (ad : Option String) (authpriv : Priv)
    (hrun : s.authgranted n ad authpriv = .ok t) :
    ∃ gs, Moves P gs s t ∧ ∀ g ∈ gs, g = (n, authpriv) ∧ c.authkickvictim < 0 := by
  unfold authgranted at hrun
  rw [hc] at hrun
  simp only at hrun
  split at hrun
  · refine ⟨[], ?_, by simp⟩
    -- a trial of `setmaster` grants nothing
    obtain ⟨gs, hmoves, hgs⟩ := setmaster_moves (P := P) s n true "" (some c.authname) ad
      authpriv false true
    have hnil : gs = [] := by
      cases gs with
      | nil => rfl
      | cons g gs =>
        have := (hgs g List.mem_cons_self).2.trial
        cases this
    subst hnil
    obtain ⟨u, b, hu⟩ : ∃ u b, s.setmaster n true "" (some c.authname) ad authpriv false true = (u, b) :=
      ⟨_, _, rfl⟩
    rw [hu] at hrun hmoves
    cases b with
    | false =>
      obtain rfl := Except.ok.inj hrun
      exact hmoves
    | true =>
      simp only at hrun
      cases hk : u.trykick n c.authkickvictim c.authkickreason (some c.authname) ad authpriv
          false with
      | error f => rw [hk] at hrun; cases hrun
      | ok r =>
        obtain ⟨v, b⟩ := r
        rw [hk] at hrun
        obtain rfl : v = t := Except.ok.inj hrun
        have hcl : u.clients = s.clients := by
          rw [← clients_setmaster s n true "" (some c.authname) ad authpriv false true, hu]
        exact hmoves.trans_nil (trykick_moves (hmoves.orderly h) (hcl ▸ hn) hk).1
  · next hvictim =>
    obtain ⟨gs, hmoves, hgs⟩ := setmaster_moves (P := P) s n true "" (some c.authname) ad
      authpriv false false
    obtain rfl := Except.ok.inj hrun
    refine ⟨gs, hmoves, fun g hg => ⟨?_, by omega⟩⟩
    obtain ⟨hgn, hclaim⟩ := hgs g hg
    obtain ⟨d, hd, hp, -⟩ := hclaim.record
    rw [h.wantpriv_nopass hd] at hp
    exact Prod.ext hgn hp

/-- A client that is let in has finished connecting, and its auth kick is still pending. -/
theorem letin_moves (h : s.Orderly) {n : Int} {c : ClientInfo} (hc : s.info n = some c)
    {d : ClientInfo} (hd : d.connectauth = c.connectauth)
    (hrec : c.connected ∨ c.connectauth ≠ .none) (hrun : s.letin n d = .ok t) :
    Moves P [] s t ∧ ∃ c', t.info n = some c' ∧ c'.connected ∧
      c'.authkickvictim = c.authkickvictim := by
  unfold letin at hrun
  rw [hd] at hrun
  split at hrun
  · next hca =>
    have hconn : c.connected = false := by
      by_contra hcc
      exact hca (h.noauth n c hc (by simpa using hcc))
    refine ⟨connected_moves h hc hconn hrun, ?_⟩
    obtain ⟨u, e, -, he, rfl⟩ := connected_cases hc hrun
    obtain ⟨c', hc', hcc⟩ := info_enlist_self he
    exact ⟨c', hc', hcc, (victim_connected h hc hconn hrun hc').symm⟩
  · next hca =>
    obtain rfl := Except.ok.inj hrun
    refine ⟨.refl s, c, hc, ?_, rfl⟩
    rcases hrec with hrec | hrec
    · exact hrec
    · exact absurd hrec hca

/-- An answer that solves the challenge made for it, by a user that is known, and not one
asked for a kick: it is good for the privilege of the user. -/
structure Answered (s : Server) (n : Int) (id : Nat) (ans desc : String) (p : Priv) : Prop where
  local_ : desc ≠ ""
  record : ∃ c ch u, s.info n = some c ∧ c.authreq = id ∧ c.authdesc = desc ∧
    c.authkickvictim < 0 ∧ c.authchallenge = some ch ∧ s.cfg.checkchallenge (hexdigits ans) ch ∧
    s.finduser c.authname c.authdesc = some u ∧ u.privilege = p

/-- **What an answer is granted**: the privilege of the user, if it is verified here. -/
theorem answerchallenge_moves (h : s.Orderly) {n : Int} {c : ClientInfo}
    (hc : s.info n = some c) (hrec : c.connected ∨ c.connectauth ≠ .none) {id : Nat}
    {ans desc : String} {b : Bool} (hrun : s.answerchallenge n id ans desc = .ok (t, b)) :
    ∃ gs, Moves P gs s t ∧ ∀ g ∈ gs, g.1 = n ∧ s.Answered n id ans desc g.2 := by
  unfold answerchallenge at hrun
  rw [hc] at hrun
  simp only at hrun
  split at hrun
  · obtain ⟨rfl, -⟩ := Prod.mk.inj (Except.ok.inj hrun)
    exact ⟨[], .calm (calm_cleanauth s n true), by simp⟩
  · next hmatch =>
    have hmatch : c.authreq = id ∧ c.authdesc = desc := by simpa using hmatch
    split at hrun
    · next hdesc =>
      cases hch : s.checkanswer n c (hexdigits ans) with
      | error f => rw [hch] at hrun; cases hrun
      | ok u =>
        -- whatever `checkanswer` did, the request is dropped afterwards
        have hend : ∀ gs, Moves P gs s u → Moves P gs s t := by
          intro gs hmoves
          rw [hch] at hrun
          simp only [Except.bind] at hrun
          cases hu : u.info n with
          | none => rw [hu] at hrun; cases hrun
          | some d =>
            rw [hu] at hrun
            obtain ⟨rfl, -⟩ := Prod.mk.inj (Except.ok.inj hrun)
            have := hmoves.trans (.calm (calm_cleanauth u n true))
            rwa [List.append_nil] at this
        unfold checkanswer at hch
        split at hch
        · obtain rfl := Except.ok.inj hch
          exact ⟨[], hend [] (.refl s), by simp⟩
        · next ch hchal =>
          split at hch
          · next hsolved =>
            cases huser : s.finduser c.authname c.authdesc with
            | none =>
              rw [huser] at hch
              obtain rfl := Except.ok.inj hch
              exact ⟨[], hend [] (.refl s), by simp⟩
            | some w =>
              rw [huser] at hch
              simp only at hch
              cases hlet : s.letin n c with
              | error f => rw [hlet] at hch; cases hch
              | ok v =>
                rw [hlet] at hch
                obtain ⟨hmoves, c', hc', hcc, hvictim⟩ :=
                  letin_moves (P := P) h hc rfl hrec hlet
                have hord := hmoves.orderly h
                obtain ⟨gs, hgrant, hgs⟩ := authgranted_moves (P := P) hord
                  (hord.listed n c' hc' hcc) hc' _ _ hch
                refine ⟨gs, hend gs (hmoves.trans_nil hgrant), fun g hg => ?_⟩
                obtain ⟨rfl, hv⟩ := hgs g hg
                exact ⟨rfl, hdesc, c, ch, w, hc, hmatch.1, hmatch.2, hvictim ▸ hv, hchal,
                  hsolved, huser, rfl⟩
          · obtain rfl := Except.ok.inj hch
            exact ⟨[], hend [] (.refl s), by simp⟩
    · refine ⟨[], ?_, by simp⟩
      rcases requestmaster_eq s (.confauth id (hexdigits ans)) with he | he
      · rw [he] at hrun
        obtain ⟨rfl, -⟩ := Prod.mk.inj (Except.ok.inj hrun)
        refine .calm ⟨rfl, rfl, fun _ c hc => Or.inr ⟨c, hc, rfl⟩, rfl, fun id' user' hm => ?_⟩
        rcases List.mem_append.mp hm with hm | hm
        · exact Or.inl hm
        · cases List.mem_singleton.mp hm
      · rw [he] at hrun
        obtain ⟨rfl, -⟩ := Prod.mk.inj (Except.ok.inj hrun)
        exact .calm ((calm_cleanauth s n true).trans (calm_servmsgTo _ n nomaster))

/-! ## The master server -/

/-- A client that is found by its request is listed under its own number. -/
theorem findauth_spec (h : s.WF) {id : Nat} {c : ClientInfo} (hf : s.findauth id = some c) :
    s.info c.clientnum = some c ∧ c.clientnum ∈ s.clients ∧ c.authreq = id ∧ c.connected := by
  unfold findauth at hf
  obtain ⟨hinfo, hmem⟩ := h.info_of_mem_cl (List.mem_of_find?_eq_some hf)
  have hid : c.authreq = id := by simpa using List.find?_some hf
  obtain ⟨d, hd, hdc⟩ := h.live _ hmem
  rw [hinfo] at hd
  exact ⟨hinfo, hmem, hid, Option.some.inj hd ▸ hdc⟩

/-- **What the master server grants**: auth to whoever is found by the number, unless it asked
for a kick. -/
theorem authsucceeded_moves (h : s.Orderly) {id : Nat} (hrun : s.authsucceeded id = .ok t) :
    ∃ gs, Moves P gs s t ∧ ∀ g ∈ gs, g.2 = .auth ∧
      ∃ c, s.findauth id = some c ∧ c.clientnum = g.1 ∧ c.authkickvictim < 0 := by
  unfold authsucceeded at hrun
  cases hf : s.findauth id with
  | none =>
    rw [hf] at hrun
    obtain rfl := Except.ok.inj hrun
    exact ⟨[], .refl s, by simp⟩
  | some c =>
    rw [hf] at hrun
    simp only at hrun
    obtain ⟨hc, hmem, -, hconn⟩ := findauth_spec h.toWF hf
    -- a listed client is not asked to authenticate
    have hno : c.connectauth = .none := h.noauth _ c hc hconn
    have hclean := calm_cleanauth s c.clientnum (decide (c.connectauth ≠ .none))
    have hord : (s.cleanauth c.clientnum (decide (c.connectauth ≠ .none))).Orderly :=
      h.of_who hclean.who
    obtain ⟨c1, hc1, hconn1, hauth1, hvictim1⟩ : ∃ c1,
        (s.cleanauth c.clientnum (decide (c.connectauth ≠ .none))).info c.clientnum = some c1 ∧
        c1.connected ∧ c.connectauth = c1.connectauth ∧ c1.authkickvictim = c.authkickvictim := by
      unfold cleanauth
      rw [info_upd, if_pos rfl, hc]
      exact ⟨_, rfl, hconn, rfl, by simp [hno]⟩
    generalize s.cleanauth c.clientnum (decide (c.connectauth ≠ .none)) = s1
      at hrun hclean hord hc1
    cases hlet : s1.letin c.clientnum c with
    | error f => rw [hlet] at hrun; cases hrun
    | ok u =>
      rw [hlet] at hrun
      obtain ⟨hmoves, c2, hc2, hconn2, hvictim2⟩ :=
        letin_moves (P := P) hord hc1 hauth1 (Or.inl hconn1) hlet
      have hordu := hmoves.orderly hord
      simp only [Except.bind] at hrun
      rw [hc2] at hrun
      simp only at hrun
      cases hg : u.authgranted c.clientnum none .auth with
      | error f => rw [hg] at hrun; cases hrun
      | ok v =>
        rw [hg] at hrun
        obtain ⟨gs, hgrant, hgs⟩ := authgranted_moves (P := P) hordu
          (hordu.listed _ c2 hc2 hconn2) hc2 none .auth hg
        refine ⟨gs, ?_, fun g hg => ?_⟩
        · have hend : Calm v t := by
            obtain rfl := Except.ok.inj hrun
            split
            · exact .upd v _ (fun _ => rfl) fun _ => Or.inr rfl
            · exact .refl v
          have := ((Moves.calm hclean).trans_nil (hmoves.trans_nil hgrant)).trans (.calm hend)
          rwa [List.append_nil] at this
        · obtain ⟨rfl, hv⟩ := hgs g hg
          exact ⟨rfl, c, rfl, rfl, by rwa [← hvictim1, ← hvictim2]⟩

/-- A listed client whose request fails stays. -/
theorem calm_authfailedOf (h : s.Orderly) {n : Int} {c : ClientInfo} (hc : s.info n = some c)
    (hn : n ∈ s.clients) : Calm s (s.authfailedOf c) := by
  obtain ⟨d, hd, hconn⟩ := h.live n hn
  obtain rfl := Option.some.inj (hc.symm.trans hd)
  unfold authfailedOf
  simp only
  rw [if_neg (by simp [h.noauth n c hc hconn])]
  exact calm_cleanauth s _ true

theorem calm_authfailed (h : s.Orderly) (id : Nat) : Calm s (s.authfailed id) := by
  unfold authfailed
  cases hf : s.findauth id with
  | none => exact .refl s
  | some c =>
    obtain ⟨hc, hmem, -⟩ := findauth_spec h.toWF hf
    exact calm_authfailedOf h hc hmem

/-- A loop over clients whose body lets everybody stay. -/
theorem calm_foldl_clients {f : Server → Int → Server}
    (hf : ∀ u n, u.Orderly → n ∈ u.clients → Calm u (f u n)) (l : List Int) :
    ∀ u : Server, u.Orderly → (∀ n ∈ l, n ∈ u.clients) → Calm u (l.foldl f u) := by
  induction l with
  | nil => exact fun u _ _ => .refl u
  | cons n l ih =>
    intro u hu hl
    have hturn := hf u n hu (hl n List.mem_cons_self)
    refine hturn.trans (ih _ (hu.of_who hturn.who) fun m hm => ?_)
    rw [clients_of_who hturn.who]
    exact hl m (List.mem_cons_of_mem n hm)

/-- When the master server goes all requests fail, and everybody stays. -/
theorem calm_masterdisconnected (h : s.Orderly) : Calm s s.masterdisconnected := by
  refine calm_foldl_clients (fun u n hu hn => ?_) _ s h fun n hn => List.mem_reverse.mp hn
  cases hc : u.info n with
  | none => exact .refl u
  | some c =>
    simp only
    split
    · exact calm_authfailedOf hu hc hn
    · exact .refl u

end Server
end QServ
