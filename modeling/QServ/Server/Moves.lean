import QServ.Server.Owned
import QServ.Server.Session

/-!
# The moves a session is made of

An abstract model of the session: whatever happens to the server, who is there and what is
locked changes by a sequence of a few kinds of `Move`.  An invariant is proved of one move,
by cases, and holds of a sequence; that the functions of the server do nothing but moves is
the subject of a later module.

* `Moves.orderly`: the client lists stay in order.
-/

namespace QServ

/-- What `who` keeps of a new bot. -/
def Ident.ofBot (n : Int) : Ident :=
  { clientnum := n, connected := true, aitype := .bot, isLocal := false, privilege := .none,
    connectauth := .none }

/-- Who is there once a bot has joined in slot `i` of `bots`. -/
def Who.addbot (w : Who) (i : Nat) : Who where
  clients := w.clients ++ [MAXCLIENTS + (i : Int)]
  nbots := max w.nbots (i + 1)
  ident := fun n => if n = MAXCLIENTS + (i : Int) then some (Ident.ofBot n) else w.ident n

namespace Server

/-- A challenge made for a record: there is a pending request, and the challenge is made
from the key of a user with the name and the domain given. -/
def ChallengeFrom (users : List UserInfo) (c : ClientInfo) : Prop :=
  ∀ ch, c.authchallenge = some ch →
    c.authreq ≠ 0 ∧ ∃ u ∈ users, u.name = c.authname ∧ u.desc = c.authdesc ∧ u.pubkey = ch.pubkey

/-- One move.  `P s n` is a side condition on the client `n` leaving in state `s`; the label
is the privilege granted, if one is. -/
inductive Move (P : Server → Int → Prop) : Option (Int × Priv) → Server → Server → Prop where
  /-- Nothing that concerns us here. -/
  | calm {s s'} (h : Calm s s') : Move P none s s'
  /-- What is locked changes, but nothing gets locked that was not: the game is unpaused, or
  an address is let in no longer. -/
  | ease {s s'} (hw : s'.who = s.who) (hk : Kept s s') (hl : s.Unlocked → s'.Unlocked) :
      Move P none s s'
  /-- A client that holds a privilege changes what is locked. -/
  | lockby {s s' n c} (hn : n ∈ s.clients) (hc : s.info n = some c) (ho : c.ident.owner)
      (hw : s'.who = s.who) (hk : Kept s s') : Move P none s s'
  /-- A privilege is granted. -/
  | grant {s s' n p} (hw : s'.who = (s.setpriv n p).who) (hk : Kept s s') (ho : s'.Owned) :
      Move P (some (n, p)) s s'
  /-- A privilege is given up. -/
  | release {s s' n} (hw : s'.who = (s.setpriv n .none).who) (hk : Kept s s') (ho : s'.Owned) :
      Move P none s s'
  /-- A client is disconnected, or goes of its own accord. -/
  | leave {s n} (r : Disc) (hok : P s n) : Move P none s (s.disconnectClient n r)
  /-- A client that has not finished connecting is disconnected. -/
  | reject {s n} (r : Disc) (h : ∀ c, s.info n = some c → c.connected = false) :
      Move P none s (s.disconnectClient n r)
  /-- A client is kicked by another that does not rank below it. -/
  | kicked {s n a ca} (r : Disc) (ha : a ∈ s.clients) (hne : a ≠ n) (hca : s.info a = some ca)
      (hle : ∀ c, s.info n = some c → c.privilege ≤ ca.privilege) :
      Move P none s (s.disconnectClient n r)
  /-- A peer connects. -/
  | arrive {s} (n : Int) (host : Nat) (hostname : String) (sid : Int) :
      Move P none s (s.clientconnect n host hostname sid)
  /-- A client finishes connecting. -/
  | join {s n c} (hc : s.info n = some c) (hconn : c.connected = false) (hn : n < MAXCLIENTS) :
      Move P none s (s.enlist n)
  /-- A connecting client is asked to authenticate before it is let in. -/
  | owing {s n} (d : Disc) (h : ∀ c, s.info n = some c → c.connected = false) :
      Move P none s (s.upd n fun c => { c with connectauth := d })
  /-- An auth request is made. -/
  | ask {s s' n} (hn : n < MAXCLIENTS) (hw : s'.who = s.who) (hl : s'.lock = s.lock)
      (hu : s'.users = s.users)
      (ha : ∀ m c', s'.info m = some c' → (m = n ∧ ChallengeFrom s.users c') ∨
        ∃ c, s.info m = some c ∧ pending c = pending c')
      (hr : ∀ id user, MasterReq.reqauth id user ∈ s'.toMaster →
        MasterReq.reqauth id user ∈ s.toMaster ∨ id ≠ 0) : Move P none s s'
  /-- A bot joins. -/
  | addbot {s s'} (i : Nat) (hfree : s.info (MAXCLIENTS + i) = none)
      (hw : s'.who = s.who.addbot i) (hk : Kept s s') (hl : s'.lock = s.lock) : Move P none s s'
  /-- A bot is deleted. -/
  | delbot {s bot} (hb : MAXCLIENTS ≤ bot) : Move P none s (s.deleteai bot)
  /-- A new map: all bots go and the game is unpaused. -/
  | newmap {s s'} (hw : s'.who = (s.without s.botnums).who) (hk : Kept s s')
      (hl : s.Unlocked → s'.Unlocked) : Move P none s s'

/-- A sequence of moves, with the privileges granted on the way. -/
inductive Moves (P : Server → Int → Prop) : List (Int × Priv) → Server → Server → Prop where
  | refl (s : Server) : Moves P [] s s
  | tail {s t u gs g} (h : Moves P gs s t) (hm : Move P g t u) : Moves P (gs ++ g.toList) s u

variable {P ok' : Server → Int → Prop} {gs gs' : List (Int × Priv)} {g : Option (Int × Priv)}
  {s t u : Server}

theorem Moves.single (h : Move P g s t) : Moves P g.toList s t := .tail (.refl s) h

theorem Moves.calm (h : Calm s t) : Moves P [] s t := .single (.calm h)

theorem Moves.trans (h : Moves P gs s t) (h' : Moves P gs' t u) : Moves P (gs ++ gs') s u := by
  induction h' with
  | refl => rwa [List.append_nil]
  | tail _ hm ih =>
    rw [← List.append_assoc]
    exact .tail (ih h) hm

theorem Moves.trans_nil (h : Moves P [] s t) (h' : Moves P gs t u) : Moves P gs s u :=
  h.trans h'

/-! ## The lists stay in order -/

/-- Writing to a record keeps the lists in order if it leaves the identity of the client and
how far it has got in connecting alone. -/
theorem Orderly.upd (h : s.Orderly) (n : Int) {f : ClientInfo → ClientInfo}
    (hf : ∀ c, s.info n = some c → (f c).clientnum = c.clientnum ∧
      (f c).connected = c.connected ∧ (f c).aitype = c.aitype ∧ (f c).isLocal = c.isLocal ∧
      (c.connected → (f c).connectauth = c.connectauth)) : (s.upd n f).Orderly := by
  have hback : ∀ m c', (s.upd n f).info m = some c' → ∃ c, s.info m = some c ∧
      c'.clientnum = c.clientnum ∧ c'.connected = c.connected ∧ c'.aitype = c.aitype ∧
      c'.isLocal = c.isLocal ∧ (c.connected → c'.connectauth = c.connectauth) := by
    intro m c' hc'
    rw [info_upd] at hc'
    split at hc'
    · next hm =>
      subst hm
      cases hs : s.info m with
      | none => rw [hs] at hc'; cases hc'
      | some c =>
        rw [hs] at hc'
        obtain rfl := Option.some.inj hc'
        exact ⟨c, rfl, hf c hs⟩
    · exact ⟨c', hc', rfl, rfl, rfl, rfl, fun _ => rfl⟩
  refine ⟨⟨h.nodup, ?_, ?_, ?_, ?_, ?_, ?_⟩, ?_, ?_⟩
  · intro m hm
    obtain ⟨c, hc, hconn⟩ := h.live m hm
    rw [info_upd]
    split
    · next hmn =>
      subst hmn
      exact ⟨f c, by rw [hc]; rfl, (hf c hc).2.1.trans hconn⟩
    · exact ⟨c, hc, hconn⟩
  all_goals intro m c' hc'
  all_goals obtain ⟨c, hc, hnum, hconn, htype, hloc, hauth⟩ := hback m c' hc'
  · rw [hnum]
    exact h.clientnum m c hc
  · exact h.nonneg m c hc
  · rw [htype]
    exact h.human m c hc
  · exact h.bot m c hc
  · rw [hconn]
    exact h.listed m c hc
  · rw [hloc]
    exact h.nolocal m c hc
  · rw [hconn]
    intro hcc
    rw [hauth hcc]
    exact h.noauth m c hc hcc

theorem Orderly.setpriv (h : s.Orderly) (n : Int) (p : Priv) : (s.setpriv n p).Orderly :=
  h.upd n fun _ _ => ⟨rfl, rfl, rfl, rfl, fun _ => rfl⟩

/-- Only a connecting client is made to owe an answer. -/
theorem Orderly.owing (h : s.Orderly) {n : Int} (d : Disc)
    (hconn : ∀ c, s.info n = some c → c.connected = false) :
    (s.upd n fun c => { c with connectauth := d }).Orderly := by
  refine h.upd n fun c hc => ⟨rfl, rfl, rfl, rfl, fun hcc => ?_⟩
  rw [hconn c hc] at hcc
  cases hcc

theorem Orderly.disconnectClient (h : s.Orderly) (n : Int) (r : Disc) :
    (s.disconnectClient n r).Orderly := by
  rcases disconnectClient_cases h.toWF n r with hs | ⟨ci, -, -, -, -, -, -, hw⟩ |
    ⟨ci, -, -, -, hw, -⟩
  · rw [hs]
    exact h
  · exact (h.without _).of_who hw
  · exact (h.without _).of_who hw

/-- A new record in a free slot. -/
theorem info_clientconnect {n : Int} {host : Nat} {hostname : String} {sid : Int} {m : Int}
    {c : ClientInfo} (hc : (s.clientconnect n host hostname sid).info m = some c) :
    s.info m = some c ∨ (m = n ∧ 0 ≤ n ∧ n < MAXCLIENTS ∧ s.info n = none ∧
      c = { clientnum := n, ownernum := n, host, hostname, sessionid := sid }) := by
  unfold clientconnect at hc
  split at hc
  · next hfree =>
    simp only at hc
    split at hc
    · next hm => exact Or.inr ⟨hm, hfree.1, hfree.2.1, hfree.2.2, (Option.some.inj hc).symm⟩
    · exact Or.inl hc
  · exact Or.inl hc

theorem clients_clientconnect (s : Server) (n : Int) (host : Nat) (hostname : String) (sid : Int) :
    (s.clientconnect n host hostname sid).clients = s.clients := by
  unfold clientconnect
  split <;> rfl

theorem info_clientconnect_of_some {n : Int} {host : Nat} {hostname : String} {sid : Int} {m : Int}
    {c : ClientInfo} (hc : s.info m = some c) :
    (s.clientconnect n host hostname sid).info m = some c := by
  unfold clientconnect
  split
  · next hfree =>
    simp only
    rw [if_neg]
    · exact hc
    · rintro rfl
      rw [hfree.2.2] at hc
      cases hc
  · exact hc

theorem Orderly.clientconnect (h : s.Orderly) (n : Int) (host : Nat) (hostname : String)
    (sid : Int) : (s.clientconnect n host hostname sid).Orderly := by
  have hcl := clients_clientconnect s n host hostname sid
  have hbots : (s.clientconnect n host hostname sid).nbots = s.nbots := by
    unfold Server.clientconnect
    split <;> rfl
  refine ⟨⟨hcl ▸ h.nodup, ?_, ?_, ?_, ?_, ?_, ?_⟩, ?_, ?_⟩
  · intro m hm
    rw [hcl] at hm
    obtain ⟨c, hc, hconn⟩ := h.live m hm
    exact ⟨c, info_clientconnect_of_some hc, hconn⟩
  all_goals intro m c hc
  all_goals rcases info_clientconnect hc with hc | ⟨rfl, h0, hlt, -, rfl⟩
  · exact h.clientnum m c hc
  · rfl
  · exact h.nonneg m c hc
  · exact h0
  · exact h.human m c hc
  · exact ⟨fun _ => hlt, fun _ => rfl⟩
  · rw [hcl, hbots]
    exact h.bot m c hc
  · intro hm
    omega
  · rw [hcl]
    exact h.listed m c hc
  · intro hconn
    cases hconn
  · exact h.nolocal m c hc
  · rfl
  · exact h.noauth m c hc
  · intro _
    rfl

/-- A record after its client has finished connecting. -/
theorem info_enlist {n m : Int} {c' : ClientInfo} (hc' : (s.enlist n).info m = some c') :
    (m ≠ n ∧ s.info m = some c') ∨ (m = n ∧ ∃ c, s.info n = some c ∧
      c' = { c with connectauth := .none, connected := true, state := c'.state }) := by
  unfold enlist at hc'
  simp only at hc'
  rw [info_upd] at hc'
  split at hc'
  · next hm =>
    right
    subst hm
    cases hs : s.info m with
    | none => rw [show ({ s with connects := _, clients := _ } : Server).info m = none from hs] at hc'
              cases hc'
    | some c =>
      rw [show ({ s with connects := _, clients := _ } : Server).info m = some c from hs] at hc'
      obtain rfl := Option.some.inj hc'
      exact ⟨rfl, c, rfl, rfl⟩
  · next hm => exact Or.inl ⟨hm, hc'⟩

/-- Whoever is enlisted has finished connecting. -/
theorem info_enlist_self {n : Int} {c : ClientInfo} (hc : s.info n = some c) :
    ∃ c', (s.enlist n).info n = some c' ∧ c'.connected := by
  unfold enlist
  simp only
  rw [info_upd, if_pos rfl]
  exact ⟨_, congrArg (Option.map _) hc, rfl⟩

theorem clients_enlist (s : Server) (n : Int) : (s.enlist n).clients = s.clients ++ [n] := rfl

theorem Orderly.enlist (h : s.Orderly) {n : Int} {c : ClientInfo} (hc : s.info n = some c)
    (hconn : c.connected = false) (hn : n < MAXCLIENTS) : (s.enlist n).Orderly := by
  have hout : n ∉ s.clients := by
    intro hm
    obtain ⟨d, hd, hdc⟩ := h.live n hm
    rw [hc] at hd
    rw [← Option.some.inj hd, hconn] at hdc
    cases hdc
  have hnew := info_enlist_self hc
  have hold : ∀ m, m ≠ n → (s.enlist n).info m = s.info m := by
    intro m hm
    unfold Server.enlist
    simp only
    rw [info_upd, if_neg hm]
  refine ⟨⟨?_, ?_, ?_, ?_, ?_, ?_, ?_⟩, ?_, ?_⟩
  · rw [clients_enlist]
    exact h.nodup.append (List.nodup_singleton n) (by simpa using hout)
  · intro m hm
    by_cases hmn : m = n
    · rw [hmn]
      exact hnew
    · rw [clients_enlist] at hm
      rw [hold m hmn]
      rcases List.mem_append.mp hm with hm | hm
      · exact h.live m hm
      · exact absurd (List.mem_singleton.mp hm) hmn
  all_goals intro m c' hc'
  all_goals rcases info_enlist hc' with ⟨hmn, hc'⟩ | ⟨rfl, d, hd, he⟩
  · exact h.clientnum m c' hc'
  · rw [he]
    exact h.clientnum m d hd
  · exact h.nonneg m c' hc'
  · exact h.nonneg m d hd
  · exact h.human m c' hc'
  · rw [he]
    exact h.human m d hd
  · intro hm
    rw [clients_enlist]
    obtain ⟨hr, hl⟩ := h.bot m c' hc' hm
    exact ⟨hr, List.mem_append_left _ hl⟩
  · intro hm
    omega
  · intro hconn'
    rw [clients_enlist]
    exact List.mem_append_left _ (h.listed m c' hc' hconn')
  · intro _
    rw [clients_enlist]
    simp
  · exact h.nolocal m c' hc'
  · rw [he]
    exact h.nolocal m d hd
  · exact h.noauth m c' hc'
  · intro _
    rw [he]

/-- A bot in a free slot. -/
theorem Orderly.addbot {s' : Server} (h : s.Orderly) {i : Nat}
    (hfree : s.info (MAXCLIENTS + i) = none) (hw : s'.who = s.who.addbot i) : s'.Orderly := by
  have hcl : s'.clients = s.clients ++ [MAXCLIENTS + (i : Int)] := congrArg Who.clients hw
  have hbots : s'.nbots = max s.nbots (i + 1) := congrArg Who.nbots hw
  have hid : ∀ n, (s'.info n).map ClientInfo.ident =
      if n = MAXCLIENTS + (i : Int) then some (Ident.ofBot n) else (s.info n).map ClientInfo.ident :=
    fun n => congrFun (congrArg Who.ident hw) n
  have hout : MAXCLIENTS + (i : Int) ∉ s.clients := by
    intro hm
    obtain ⟨c, hc, -⟩ := h.live _ hm
    rw [hfree] at hc
    cases hc
  -- a record is an old one, or that of the new bot
  have hback : ∀ n c', s'.info n = some c' → (n ≠ MAXCLIENTS + (i : Int) ∧
      ∃ c, s.info n = some c ∧ c.ident = c'.ident) ∨ (n = MAXCLIENTS + (i : Int) ∧
      c'.ident = Ident.ofBot n) := by
    intro n c' hc'
    have hn := hid n
    rw [hc'] at hn
    split at hn
    · next he => exact Or.inr ⟨he, Option.some.inj hn⟩
    · next hne =>
      obtain ⟨c, hc, hi⟩ := some_of_ident (show (some c').map ClientInfo.ident =
        (s.info n).map ClientInfo.ident from hn) rfl
      exact Or.inl ⟨hne, c, hc, hi⟩
  refine ⟨⟨?_, ?_, ?_, ?_, ?_, ?_, ?_⟩, ?_, ?_⟩
  · rw [hcl]
    exact h.nodup.append (List.nodup_singleton _) (by simpa using hout)
  · intro n hn
    have hidn := hid n
    by_cases he : n = MAXCLIENTS + (i : Int)
    · rw [if_pos he] at hidn
      cases hs : s'.info n with
      | none => rw [hs] at hidn; cases hidn
      | some c' =>
        rw [hs] at hidn
        exact ⟨c', rfl, congrArg Ident.connected (Option.some.inj hidn)⟩
    · rw [if_neg he] at hidn
      rw [hcl] at hn
      rcases List.mem_append.mp hn with hn | hn
      · obtain ⟨c, hc, hcc⟩ := h.live n hn
        obtain ⟨c', hc', hi⟩ := some_of_ident (show (s.info n).map ClientInfo.ident =
          (s'.info n).map ClientInfo.ident from hidn.symm) hc
        exact ⟨c', hc', (congrArg Ident.connected hi).trans hcc⟩
      · exact absurd (List.mem_singleton.mp hn) he
  all_goals intro n c' hc'
  all_goals rcases hback n c' hc' with ⟨hne, c, hc, hi⟩ | ⟨rfl, hi⟩
  · exact (congrArg Ident.clientnum hi).symm.trans (h.clientnum n c hc)
  · exact congrArg Ident.clientnum hi
  · exact h.nonneg n c hc
  · unfold MAXCLIENTS
    omega
  · have ht : c.aitype = c'.aitype := congrArg Ident.aitype hi
    rw [← ht]
    exact h.human n c hc
  · have ht : c'.aitype = .bot := congrArg Ident.aitype hi
    rw [ht]
    exact ⟨fun hb => (by cases hb), fun hlt => (by omega)⟩
  · intro hn
    obtain ⟨hr, hl⟩ := h.bot n c hc hn
    rw [hbots, hcl]
    exact ⟨by omega, List.mem_append_left _ hl⟩
  · intro _
    rw [hbots, hcl]
    exact ⟨by omega, by simp⟩
  · intro hcc
    rw [hcl]
    exact List.mem_append_left _ (h.listed n c hc ((congrArg Ident.connected hi).trans hcc))
  · intro _
    rw [hcl]
    simp
  · exact (congrArg Ident.isLocal hi).symm.trans (h.nolocal n c hc)
  · exact congrArg Ident.isLocal hi
  · exact fun hcc => (congrArg Ident.connectauth hi).symm.trans
      (h.noauth n c hc ((congrArg Ident.connected hi).trans hcc))
  · exact fun _ => congrArg Ident.connectauth hi

theorem who_deleteai (h : s.Live) (bot : Int) :
    (s.deleteai bot).who = s.who ∨ (s.deleteai bot).who = (s.without [bot]).who := by
  by_cases hb : bot - MAXCLIENTS < s.nbots
  · exact Or.inr (who_of_roster (roster_deleteai h hb))
  · left
    unfold deleteai
    rw [if_neg hb]

/-- **Moves keep the client lists in order.** -/
theorem Move.orderly (h : Move P g s t) (hs : s.Orderly) : t.Orderly := by
  cases h with
  | calm h => exact hs.of_who h.who
  | ease hw => exact hs.of_who hw
  | lockby _ _ _ hw => exact hs.of_who hw
  | grant hw => exact (hs.setpriv _ _).of_who hw
  | release hw => exact (hs.setpriv _ _).of_who hw
  | leave r => exact hs.disconnectClient _ r
  | reject r => exact hs.disconnectClient _ r
  | kicked r => exact hs.disconnectClient _ r
  | arrive n host hostname sid => exact hs.clientconnect n host hostname sid
  | join hc hconn hn => exact hs.enlist hc hconn hn
  | owing d h => exact hs.owing d h
  | ask _ hw => exact hs.of_who hw
  | addbot i hfree hw => exact hs.addbot hfree hw
  | delbot =>
    rcases who_deleteai hs.toWF.toLive _ with hw | hw
    · exact hs.of_who hw
    · exact (hs.without _).of_who hw
  | newmap hw => exact (hs.without _).of_who hw

theorem Moves.orderly (h : Moves P gs s t) (hs : s.Orderly) : t.Orderly := by
  induction h with
  | refl => exact hs
  | tail _ hm ih => exact hm.orderly (ih hs)

end Server
end QServ
