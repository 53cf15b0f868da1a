import QServ.Lib.ReverseLoop
import QServ.Server.Disconnect

/-!
# Throwing clients out

`addban`, `kickclients`, `trykick` and the sweep of `serverupdate` over clients whose
position updates have been missing for too long.  Both loops walk the client list from
its end while `disconnect_client` takes entries out of it; they are instances of
`ReverseLoop.revLoop`, the humans being the anchors that keep the list from being
emptied.
-/

namespace QServ
namespace Server

open ReverseLoop

variable (s : Server)

/-! ## Bans -/

/-- Insert before the first ban that ends later. -/
def insertBan (b : Ban) : List Ban → List Ban
  | [] => [b]
  | x :: xs => if b.expire < x.expire then b :: x :: xs else x :: insertBan b xs

/-- `addban(ip, expire)`. -/
def addban (ip : Nat) (expire : Int) : Server :=
  { s with
    allowedips := s.allowedips.filter (· ≠ ip),
    bannedips :=
      insertBan { time := s.totalmillis, expire := int32 (s.totalmillis + expire), ip }
        s.bannedips }

theorem mem_insertBan {b x : Ban} (l : List Ban) : x ∈ insertBan b l ↔ x = b ∨ x ∈ l := by
  induction l with
  | nil => simp [insertBan]
  | cons y l ih =>
    unfold insertBan
    split
    · simp
    · rw [List.mem_cons, ih, List.mem_cons]
      tauto

/-- May `actor` throw `c` out?  The test `kickclients` makes of every entry, the address
apart. -/
def kickable (actor : Option ClientInfo) (c : ClientInfo) : Bool :=
  decide (c.aitype = .human) && !decide (Priv.admin ≤ c.privilege) && !c.isLocal &&
    match actor with
    | none => true
    | some a => !(decide (a.privilege < c.privilege) || decide (c.clientnum = a.clientnum))

/-- One turn of `kickclients(ip, actor)`. -/
def kickBody (ip : Nat) (actor : Option Int) (n : Int) (s : Server) : Except Fault Server :=
  match s.info n with
  | none => .error .useAfterFree
  | some c =>
    if c.aitype ≠ .human || Priv.admin ≤ c.privilege || c.isLocal then .ok s
    else
      match actor with
      | none =>
        .ok (if s.getclientip c.clientnum = ip then s.disconnectClient c.clientnum .kick else s)
      | some a =>
        match s.info a with
        | none => .error .useAfterFree
        | some ai =>
          if ai.privilege < c.privilege || c.clientnum = ai.clientnum then .ok s
          else .ok (if s.getclientip c.clientnum = ip then s.disconnectClient c.clientnum .kick
            else s)

/-- `kickclients(ip, actor)`. -/
def kickclients (ip : Nat) (actor : Option Int) : Except Fault Server :=
  revLoop clients .outOfRange (kickBody ip actor) s.clients.length s

/-- The clients `kickclients(ip, actor)` is meant to disconnect. -/
def kicked (ip : Nat) (actor : Option Int) (n : Int) : Bool :=
  match s.info n with
  | none => false
  | some c => kickable (actor.bind s.info) c && decide (s.getclientip n = ip)

/-! ## The sweep over clients that stopped reporting their position -/

/-- `PUSHMILLIS`. -/
def PUSHMILLIS : Int := 3000

/-- `calcpushrange()`. -/
def calcpushrange (c : ClientInfo) : Int := PUSHMILLIS + c.roundTrip

/-- `checkexceeded()`. -/
def checkexceeded (c : ClientInfo) : Bool :=
  decide (c.state = .alive) && decide (c.exceeded ≠ 0) &&
    decide (c.exceeded + calcpushrange c < s.gamemillis)

/-- `scheduleexceeded()`. -/
def scheduleexceeded (c : ClientInfo) : Server :=
  if c.state ≠ .alive || c.exceeded = 0 then s
  else
    let t := c.exceeded + calcpushrange c
    if s.nextexceeded = 0 || t < s.nextexceeded then { s with nextexceeded := t } else s

/-- One turn of the sweep. -/
def exceededBody (n : Int) (s : Server) : Except Fault Server :=
  match s.info n with
  | none => .error .useAfterFree
  | some c =>
    if c.aitype ≠ .human then .ok s
    else if s.checkexceeded c then .ok (s.disconnectClient c.clientnum .msgerr)
    else .ok (s.scheduleexceeded c)

/-- The sweep itself, `loopvrev(clients)` and what it does. -/
def sweepexceeded : Except Fault Server :=
  revLoop clients .outOfRange exceededBody s.clients.length s

/-- The sweep of `serverupdate`, when it is due. -/
def updateexceeded : Except Fault Server :=
  if s.nextexceeded ≠ 0 ∧ s.nextexceeded < s.gamemillis ∧
      (!mTimed s.gamemode ∨ s.gamemillis < s.gamelimit) then
    ({ s with nextexceeded := 0 }).sweepexceeded
  else .ok s

/-- The clients the sweep is meant to disconnect. -/
def overdue (n : Int) : Bool :=
  match s.info n with
  | none => false
  | some c => decide (c.aitype = .human) && s.checkexceeded c && !c.isLocal

/-! ## Both loops are shrinking loops -/

/-- The anchors of the client list: the humans. -/
def isHuman (n : Int) : Bool := decide (n < MAXCLIENTS)

/-- There is a human, every human is to be thrown out, and a bot heads the list. -/
def BotAhead (hit : Int → Bool) : Prop := Stranded isHuman hit s.clients

variable {s} {s0 : Server}

/-- On the client list `disconnect_client` is a shrinking step. -/
theorem clients_disconnectClient (h : s.WF) {n : Int} (reason : Disc) {ci : ClientInfo}
    (hci : s.info n = some ci) (hn : n ∈ s.clients) (hhum : n < MAXCLIENTS)
    (hloc : ci.isLocal = false) :
    (s.disconnectClient n reason).clients = shrink isHuman s.clients n := by
  rw [clients_of_roster (roster_disconnectClient h reason hci hn hhum hloc), clients_without]
  have herase : s.clients.erase n = s.clients.filter (· ≠ n) := by
    rw [h.nodup.erase_eq_filter]
    refine List.filter_congr fun m _ => ?_
    simp only [bne, ne_eq, decide_not, Bool.beq_eq_decide_eq]
  unfold shrink gone
  rw [herase]
  by_cases hany : (s.clients.filter (· ≠ n)).any isHuman = true
  · have hany' : (s.clients.filter (· ≠ n)).any (· < MAXCLIENTS) = true := hany
    rw [if_pos hany, if_pos hany']
    simp only [List.mem_singleton]
  · have hany' : ¬ (s.clients.filter (· ≠ n)).any (· < MAXCLIENTS) = true := hany
    rw [if_neg hany, if_neg hany', List.filter_eq_nil_iff]
    intro m hm
    -- whoever else is listed is a bot, and all bots go
    have hbot : m ≠ n → MAXCLIENTS ≤ m := by
      intro hne
      by_contra hlt
      refine hany' (List.any_eq_true.mpr ⟨m, List.mem_filter.mpr ⟨hm, by simpa using hne⟩, ?_⟩)
      rw [decide_eq_true_eq]
      omega
    obtain ⟨c, hc, -⟩ := h.live m hm
    have hmem : m ∈ n :: s.botnums := by
      by_cases hne : m = n
      · rw [hne]
        exact List.mem_cons_self
      · refine List.mem_cons_of_mem _ (mem_botnums.mpr ⟨hbot hne, ?_⟩)
        exact (h.bot m c hc (hbot hne)).1
    rw [decide_eq_true_eq, not_not]
    exact hmem

/-- What stays true while one of the loops runs on `s0`: the lists are in order, whoever
went has been freed and everybody else is as before, the clock stands still, and the
actor is still there. -/
structure Sweeping (s0 : Server) (actor : Option Int) (s : Server) : Prop where
  wf : s.WF
  sub : s.clients ⊆ s0.clients
  kept : ∀ n, n ∈ s.clients ∨ n ∉ s0.clients →
    (s.info n).map ClientInfo.base = (s0.info n).map ClientInfo.base
  freed : ∀ n ∈ s0.clients, n ∉ s.clients → s.info n = none
  gamemillis : s.gamemillis = s0.gamemillis
  actor : ∀ a ∈ actor, a ∈ s.clients

theorem Sweeping.refl (h : s0.WF) {actor : Option Int} (ha : ∀ a ∈ actor, a ∈ s0.clients) :
    Sweeping s0 actor s0 :=
  ⟨h, fun _ hn => hn, fun _ _ => rfl, fun _ hn hn' => absurd hn hn', rfl, ha⟩

theorem Sweeping.of_roster {actor : Option Int} {s' : Server} (h : Sweeping s0 actor s)
    (hr : s'.roster = s.roster) : Sweeping s0 actor s' := by
  have hcl := clients_of_roster hr
  refine ⟨h.wf.of_roster hr, ?_, ?_, ?_, ?_, ?_⟩
  · rw [hcl]
    exact h.sub
  · intro n hn
    rw [hcl] at hn
    rw [info_of_roster hr n, h.kept n hn]
  · intro n hn hn'
    rw [hcl] at hn'
    have := info_of_roster hr n
    rw [h.freed n hn hn'] at this
    exact Option.map_eq_none_iff.mp this
  · rw [← h.gamemillis]
    exact Server.of_roster Server.gamemillis (fun _ => rfl) hr
  · intro a ha
    rw [hcl]
    exact h.actor a ha

/-- A human other than the actor may be disconnected without disturbing the loop. -/
theorem Sweeping.disconnectClient {actor : Option Int} (h : Sweeping s0 actor s) {n : Int}
    (reason : Disc) {ci : ClientInfo} (hci : s.info n = some ci) (hn : n ∈ s.clients)
    (hhum : n < MAXCLIENTS) (hloc : ci.isLocal = false)
    (hactor : ∀ a ∈ actor, a ≠ n ∧ a < MAXCLIENTS) :
    Sweeping s0 actor (s.disconnectClient n reason) := by
  have hr := roster_disconnectClient h.wf reason hci hn hhum hloc
  have hcl : (s.disconnectClient n reason).clients = s.clients.filter (· ∉ s.gone n) := by
    rw [clients_of_roster hr, clients_without]
  have hinfo : ∀ m, ((s.disconnectClient n reason).info m).map ClientInfo.base =
      (if m ∈ s.gone n then none else s.info m).map ClientInfo.base := by
    intro m
    rw [info_of_roster hr m, info_without]
  refine ⟨h.wf.disconnectClient reason hci hn hhum hloc, ?_, ?_, ?_, ?_, ?_⟩
  · rw [hcl]
    exact fun m hm => h.sub (List.mem_of_mem_filter hm)
  · intro m hm
    rw [hinfo m]
    rcases hm with hm | hm
    · rw [hcl] at hm
      obtain ⟨hm, hg⟩ := List.mem_filter.mp hm
      have hg : m ∉ s.gone n := by simpa using hg
      rw [if_neg hg, h.kept m (Or.inl hm)]
    · rw [← h.kept m (Or.inr hm)]
      split
      · next hg =>
        -- a number of `bots` that is not listed has no record to lose
        cases hs : s.info m with
        | none => rfl
        | some c =>
          have hlisted : m ∈ s.clients := by
            unfold gone at hg
            split at hg
            · rw [List.mem_singleton.mp hg]
              exact hn
            · rcases List.mem_cons.mp hg with hg | hg
              · rw [hg]
                exact hn
              · exact (h.wf.bot m c hs (mem_botnums.mp hg).1).2
          exact absurd (h.sub hlisted) hm
      · rfl
  · intro m hm hm'
    rw [hcl] at hm'
    have := hinfo m
    by_cases hg : m ∈ s.gone n
    · rw [if_pos hg] at this
      exact Option.map_eq_none_iff.mp this
    · have hm' : m ∉ s.clients := fun h => hm' (List.mem_filter.mpr ⟨h, by simpa using hg⟩)
      rw [if_neg hg, h.freed m hm hm'] at this
      exact Option.map_eq_none_iff.mp this
  · calc (s.disconnectClient n reason).gamemillis = (s.without (s.gone n)).gamemillis :=
          Server.of_roster Server.gamemillis (fun _ => rfl) hr
      _ = s0.gamemillis := h.gamemillis
  · intro a ha
    obtain ⟨hne, hlt⟩ := hactor a ha
    rw [clients_disconnectClient h.wf reason hci hn hhum hloc]
    have hmem : a ∈ s.clients.erase n := (List.mem_erase_of_ne hne).mpr (h.actor a ha)
    have hany : (s.clients.erase n).any isHuman = true :=
      List.any_eq_true.mpr ⟨a, hmem, by simpa [isHuman] using hlt⟩
    unfold shrink
    rw [if_pos hany]
    exact hmem

theorem getclientip_of_base {n : Int}
    (h : (s.info n).map ClientInfo.base = (s0.info n).map ClientInfo.base) :
    s.getclientip n = s0.getclientip n := by
  unfold getclientip getclientinfo
  by_cases hr : 0 ≤ n ∧ n < MAXCLIENTS
  · rw [if_pos hr, if_pos hr]
    cases hs : s.info n with
    | none =>
      rw [hs] at h
      rw [Option.map_eq_none_iff.mp h.symm]
    | some c =>
      obtain ⟨d, hd, hb⟩ := some_of_base h hs
      rw [hd]
      simp only
      rw [ClientInfo.base_congr ClientInfo.isLocal (fun _ => rfl) hb,
        ClientInfo.base_congr ClientInfo.host (fun _ => rfl) hb]
  · rw [if_neg hr, if_neg hr]

theorem kickable_base {a a' c c' : ClientInfo} (ha : a.base = a'.base) (hc : c.base = c'.base) :
    kickable (some a) c = kickable (some a') c' := by
  have h1 := ClientInfo.base_congr ClientInfo.aitype (fun _ => rfl) hc
  have h2 := ClientInfo.base_congr ClientInfo.privilege (fun _ => rfl) hc
  have h3 := ClientInfo.base_congr ClientInfo.isLocal (fun _ => rfl) hc
  have h4 := ClientInfo.base_congr ClientInfo.clientnum (fun _ => rfl) hc
  have h5 := ClientInfo.base_congr ClientInfo.privilege (fun _ => rfl) ha
  have h6 := ClientInfo.base_congr ClientInfo.clientnum (fun _ => rfl) ha
  simp only [kickable, h1, h2, h3, h4, h5, h6]

theorem kickable_none_base {c c' : ClientInfo} (hc : c.base = c'.base) :
    kickable none c = kickable none c' := by
  have h1 := ClientInfo.base_congr ClientInfo.aitype (fun _ => rfl) hc
  have h2 := ClientInfo.base_congr ClientInfo.privilege (fun _ => rfl) hc
  have h3 := ClientInfo.base_congr ClientInfo.isLocal (fun _ => rfl) hc
  simp only [kickable, h1, h2, h3]

/-- Whom `kickclients` is after does not change while it runs. -/
theorem Sweeping.kicked {actor : Option Int} (h : Sweeping s0 actor s) (ip : Nat) {n : Int}
    (hn : n ∈ s.clients) : s.kicked ip actor n = s0.kicked ip actor n := by
  unfold Server.kicked
  obtain ⟨c, hc, -⟩ := h.wf.live n hn
  obtain ⟨c0, hc0, hb⟩ := some_of_base (h.kept n (Or.inl hn)) hc
  rw [hc, hc0, getclientip_of_base (h.kept n (Or.inl hn))]
  simp only
  cases actor with
  | none =>
    simp only [Option.bind_none]
    rw [kickable_none_base hb.symm]
  | some a =>
    obtain ⟨ai, hai, -⟩ := h.wf.live a (h.actor a rfl)
    obtain ⟨ai0, hai0, hab⟩ := some_of_base (h.kept a (Or.inl (h.actor a rfl))) hai
    simp only [Option.bind_some, hai, hai0]
    rw [kickable_base hab.symm hb.symm]

/-- One turn of `kickclients` in terms of whom it is after. -/
theorem kickBody_eq {actor : Option Int} (h : Sweeping s0 actor s) (ip : Nat) {n : Int}
    (hn : n ∈ s.clients) :
    kickBody ip actor n s =
      .ok (if s0.kicked ip actor n then s.disconnectClient n .kick else s) := by
  rw [← h.kicked ip hn]
  obtain ⟨c, hc, -, hcn, -⟩ := h.wf.get hn
  unfold kickBody Server.kicked kickable
  rw [hc]
  simp only [hcn]
  by_cases hfix : (decide (c.aitype ≠ .human) || decide (Priv.admin ≤ c.privilege) || c.isLocal) = true
  · rw [if_pos hfix]
    have : (decide (c.aitype = .human) && !decide (Priv.admin ≤ c.privilege) && !c.isLocal) =
        false := by
      revert hfix
      cases c.isLocal
      · simp only [Bool.or_false, Bool.or_eq_true, decide_eq_true_eq, Bool.not_false, Bool.and_true]
        grind
      · simp
    rw [this]
    simp
  · rw [if_neg hfix]
    have : (decide (c.aitype = .human) && !decide (Priv.admin ≤ c.privilege) && !c.isLocal) =
        true := by
      revert hfix
      cases c.isLocal
      · simp only [Bool.or_false, Bool.or_eq_true, decide_eq_true_eq, Bool.not_false, Bool.and_true]
        grind
      · simp
    rw [this]
    cases actor with
    | none => simp
    | some a =>
      obtain ⟨ai, hai, -⟩ := h.wf.live a (h.actor a rfl)
      simp only [Option.bind_some, hai]
      by_cases hcmp : (decide (ai.privilege < c.privilege) || decide (n = ai.clientnum)) = true
      · rw [if_pos hcmp]
        simp [hcmp]
      · rw [if_neg hcmp]
        simp [hcmp]

/-- Whoever `kickclients` is after is a network client and not the actor. -/
theorem kicked_spec {ip : Nat} {actor : Option Int} {n : Int} (h : s.WF)
    (hk : s.kicked ip actor n) :
    ∃ c, s.info n = some c ∧ n < MAXCLIENTS ∧ c.isLocal = false ∧ c.privilege < .admin ∧
      s.getclientip n = ip ∧
      ∀ a ∈ actor, ∀ ai, s.info a = some ai → c.privilege ≤ ai.privilege ∧ a ≠ n := by
  unfold Server.kicked at hk
  cases hc : s.info n with
  | none => rw [hc] at hk; simp at hk
  | some c =>
    rw [hc] at hk
    simp only [Bool.and_eq_true, decide_eq_true_eq, kickable, Bool.not_eq_true',
      decide_eq_false_iff_not, not_le] at hk
    obtain ⟨⟨⟨⟨hhum, hpriv⟩, hloc⟩, hact⟩, hip⟩ := hk
    refine ⟨c, rfl, (h.human n c hc).mp hhum, hloc, hpriv, hip, ?_⟩
    intro a ha ai hai
    obtain rfl : actor = some a := ha
    simp only [Option.bind_some, hai, Bool.not_eq_true', Bool.or_eq_false_iff,
      decide_eq_false_iff_not, not_lt] at hact
    refine ⟨hact.1, ?_⟩
    rintro rfl
    rw [hai] at hc
    obtain rfl := Option.some.inj hc
    exact hact.2 rfl

/-- `kickclients` is a shrinking loop. -/
theorem kick_shrinks (h0 : s0.WF) (ip : Nat) {actor : Option Int}
    (ha : ∀ a ∈ actor, a ∈ s0.clients ∧ a < MAXCLIENTS) :
    Shrinks clients (kickBody ip actor) (Sweeping s0 actor) isHuman (s0.kicked ip actor) := by
  constructor
  · intro n hk
    obtain ⟨c, -, hlt, -⟩ := kicked_spec h0 hk
    simpa [isHuman] using hlt
  · intro s n h hn
    refine ⟨_, kickBody_eq h ip hn, ?_⟩
    by_cases hk : s0.kicked ip actor n
    · rw [if_pos hk, if_pos hk]
      obtain ⟨c, hc, hlt, hloc, -⟩ := kicked_spec h.wf ((h.kicked ip hn).trans hk)
      refine ⟨h.disconnectClient .kick hc hn hlt hloc ?_,
        clients_disconnectClient h.wf .kick hc hn hlt hloc⟩
      intro a haa
      obtain ⟨c0, -, -, -, -, -, hact⟩ := kicked_spec h0 hk
      obtain ⟨ai, hai, -⟩ := h0.live a (ha a haa).1
      exact ⟨(hact a haa ai hai).2, (ha a haa).2⟩
    · rw [if_neg hk, if_neg hk]
      exact ⟨h, rfl⟩

theorem checkexceeded_base {c c' : ClientInfo} (ht : s.gamemillis = s0.gamemillis)
    (hc : c.base = c'.base) : s.checkexceeded c = s0.checkexceeded c' := by
  have h1 := ClientInfo.base_congr ClientInfo.state (fun _ => rfl) hc
  have h2 := ClientInfo.base_congr ClientInfo.exceeded (fun _ => rfl) hc
  have h3 := ClientInfo.base_congr ClientInfo.roundTrip (fun _ => rfl) hc
  unfold checkexceeded calcpushrange
  rw [h1, h2, h3, ht]

@[simp] theorem roster_scheduleexceeded (s : Server) (c : ClientInfo) :
    (s.scheduleexceeded c).roster = s.roster := by
  unfold scheduleexceeded
  split
  · rfl
  · simp only
    split <;> rfl

/-- Who is overdue does not change while the sweep runs. -/
theorem Sweeping.overdue {actor : Option Int} (h : Sweeping s0 actor s) {n : Int}
    (hn : n ∈ s.clients) : s.overdue n = s0.overdue n := by
  obtain ⟨c, hc, -⟩ := h.wf.live n hn
  obtain ⟨c0, hc0, hb⟩ := some_of_base (h.kept n (Or.inl hn)) hc
  unfold Server.overdue
  rw [hc, hc0]
  simp only
  rw [checkexceeded_base h.gamemillis hb.symm,
    ClientInfo.base_congr ClientInfo.aitype (fun _ => rfl) hb,
    ClientInfo.base_congr ClientInfo.isLocal (fun _ => rfl) hb]

theorem overdue_spec (h : s.WF) {n : Int} (hk : s.overdue n) :
    ∃ c, s.info n = some c ∧ c.aitype = .human ∧ s.checkexceeded c ∧ c.isLocal = false ∧
      n < MAXCLIENTS := by
  unfold Server.overdue at hk
  cases hc : s.info n with
  | none => rw [hc] at hk; simp at hk
  | some c =>
    rw [hc] at hk
    simp only [Bool.and_eq_true, decide_eq_true_eq, Bool.not_eq_true'] at hk
    exact ⟨c, rfl, hk.1.1, hk.1.2, hk.2, (h.human n c hc).mp hk.1.1⟩

/-- The sweep is a shrinking loop. -/
theorem exceeded_shrinks (h0 : s0.WF) :
    Shrinks clients exceededBody (Sweeping s0 none) isHuman s0.overdue := by
  constructor
  · intro n hk
    obtain ⟨c, -, -, -, -, hlt⟩ := overdue_spec h0 hk
    simpa [isHuman] using hlt
  · intro s n h hn
    obtain ⟨c, hc, -, hcn, -⟩ := h.wf.get hn
    by_cases hk : s0.overdue n
    · obtain ⟨c', hc', hhum, hex, hloc, hlt⟩ := overdue_spec h.wf ((h.overdue hn).trans hk)
      obtain rfl : c = c' := Option.some.inj (hc.symm.trans hc')
      refine ⟨s.disconnectClient n .msgerr, ?_,
        h.disconnectClient .msgerr hc hn hlt hloc (by simp), ?_⟩
      · unfold exceededBody
        rw [hc]
        simp only [hhum, ne_eq, not_true, if_false, hex, if_true, hcn]
      · rw [if_pos hk, clients_disconnectClient h.wf .msgerr hc hn hlt hloc]
    · have hk' : ¬ s.overdue n := fun hko => hk ((h.overdue hn).symm.trans hko)
      unfold Server.overdue at hk'
      rw [hc] at hk'
      rw [if_neg hk]
      unfold exceededBody
      rw [hc]
      simp only [hcn]
      by_cases hhum : c.aitype = .human
      · rw [if_neg (by simp [hhum])]
        by_cases hex : s.checkexceeded c
        · -- only a local client stays although it is overdue
          have hloc : c.isLocal = true := by
            by_contra hl
            exact hk' (by simp [hhum, hex, hl])
          have hstay : s.disconnectClient n .msgerr = s := by
            unfold Server.disconnectClient
            split
            · rfl
            · next ci hci =>
              have hci' : s.info n = some ci := by
                unfold getclientinfo at hci
                split at hci
                · exact hci
                · cases hci
              obtain rfl : c = ci := Option.some.inj (hc.symm.trans hci')
              rw [if_pos hloc]
          rw [if_pos hex, hstay]
          exact ⟨s, rfl, h, rfl⟩
        · rw [if_neg hex]
          exact ⟨_, rfl, h.of_roster (roster_scheduleexceeded s c),
            clients_of_roster (roster_scheduleexceeded s c)⟩
      · rw [if_pos hhum]
        exact ⟨s, rfl, h, rfl⟩

/-- **`kickclients`, run to its end**: everybody it is after is gone, freed, and nobody
else but the bots of a server that has emptied. -/
theorem kickclients_run (h : s.WF) (ip : Nat) {actor : Option Int}
    (ha : ∀ a ∈ actor, a ∈ s.clients ∧ a < MAXCLIENTS)
    (hb : ¬ s.BotAhead (s.kicked ip actor)) :
    ∃ s', s.kickclients ip actor = .ok s' ∧ Sweeping s actor s' ∧
      s'.clients = survivors isHuman (s.kicked ip actor) s.clients :=
  revLoop_run _ (kick_shrinks h ip ha) (Sweeping.refl h fun a haa => (ha a haa).1) h.nodup hb

/-- The sweep, run to its end. -/
theorem sweepexceeded_run (h : s.WF) (hb : ¬ s.BotAhead s.overdue) :
    ∃ s', s.sweepexceeded = .ok s' ∧ Sweeping s none s' ∧
      s'.clients = survivors isHuman s.overdue s.clients :=
  revLoop_run _ (exceeded_shrinks h) (Sweeping.refl h (by simp)) h.nodup hb

/-- A loop over the client list went through, and everybody it was after is gone. -/
def VisitsAll (r : Except Fault Server) (s : Server) (hit : Int → Bool) : Prop :=
  ∃ s', r = .ok s' ∧ ∀ n ∈ s.clients, hit n → n ∉ s'.clients ∧ s'.info n = none

theorem visitsAll_iff {body : Int → Server → Except Fault Server} {actor : Option Int}
    {hit : Int → Bool} (h : s.WF) (ha : ∀ a ∈ actor, a ∈ s.clients)
    (hsh : Shrinks clients body (Sweeping s actor) isHuman hit) :
    VisitsAll (revLoop clients .outOfRange body s.clients.length s) s hit ↔ ¬ s.BotAhead hit := by
  have hI := Sweeping.refl h ha
  constructor
  · rintro ⟨s', hrun, -⟩
    exact (revLoop_ok_iff _ hsh hI h.nodup).mp ⟨s', hrun⟩
  · intro hb
    obtain ⟨s', hrun, hsw, hcl⟩ := revLoop_run Fault.outOfRange hsh hI h.nodup hb
    refine ⟨s', hrun, fun n hn hk => ?_⟩
    have hout : n ∉ s'.clients := by
      rw [hcl]
      exact not_mem_survivors hk
    exact ⟨hout, hsw.freed n hn hout⟩

end Server
end QServ
