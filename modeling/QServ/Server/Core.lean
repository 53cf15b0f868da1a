import QServ.Server.State

/-!
# What the bookkeeping of bots and auth requests leaves alone

Handing bots from one owner to another and sending packets change nothing else about the
session.  `core` forgets exactly these parts, so that "the session is unchanged" is one
equation.  `roster` forgets pending auth requests and the settings of the server as well:
what is left is who is there, and `WF` is the invariant of that.
-/

namespace QServ

/-- A client record without its bots and its owner. -/
def ClientInfo.solo (c : ClientInfo) : ClientInfo :=
  { c with ownernum := 0, bots := [], aireinit := 0 }

/-- A client record without its bots, its owner and its pending auth request. -/
def ClientInfo.base (c : ClientInfo) : ClientInfo :=
  { c.solo with authreq := 0, authname := "", authdesc := "", authchallenge := none,
                authkickvictim := -1, authkickreason := none }

/-- Two records with the same base agree on everything the base keeps. -/
theorem ClientInfo.base_congr {c d : ClientInfo} {β : Type} (f : ClientInfo → β)
    (hf : ∀ c, f c.base = f c) (h : c.base = d.base) : f c = f d := by
  rw [← hf c, ← hf d, h]

namespace Server

variable {s s' : Server}

/-- Changing one record without touching what `g` keeps of it. -/
theorem map_info_upd {β : Type} (s : Server) (cn : Int) {f : ClientInfo → ClientInfo}
    (g : ClientInfo → β) (hf : ∀ c, g (f c) = g c) :
    (fun n => ((s.upd cn f).info n).map g) = fun n => (s.info n).map g := by
  funext n
  rw [info_upd]
  split
  · cases s.info n <;> simp [hf]
  · rfl

/-- The session without bot ownership and what has been sent. -/
def core (s : Server) : Server :=
  { s with info := fun n => (s.info n).map ClientInfo.solo, sent := [], nextauthreq := 0,
           seed := 0 }

theorem core_upd (s : Server) (cn : Int) {f : ClientInfo → ClientInfo}
    (hf : ∀ c, (f c).solo = c.solo) : (s.upd cn f).core = s.core := by
  unfold core
  rw [map_info_upd s cn ClientInfo.solo hf]
  rfl

@[simp] theorem core_sendf (s : Server) (cn : Int) (chan : Nat) (fs : List Field) :
    (s.sendf cn chan fs).core = s.core := rfl

/-- Any field that is not forgotten may be read off the core. -/
theorem of_core {β : Type} (f : Server → β) (hf : ∀ s, f s.core = f s)
    (h : s'.core = s.core) : f s' = f s := by
  rw [← hf s', ← hf s, h]

theorem clients_of_core (h : s'.core = s.core) : s'.clients = s.clients :=
  of_core clients (fun _ => rfl) h

theorem info_of_core (h : s'.core = s.core) (n : Int) :
    (s'.info n).map ClientInfo.solo = (s.info n).map ClientInfo.solo :=
  congrFun (congrArg info h) n

/-- A record read after the change was there before, with the same base. -/
theorem some_of_base {o o' : Option ClientInfo} {c' : ClientInfo}
    (h : o'.map ClientInfo.base = o.map ClientInfo.base) (hc : o' = some c') :
    ∃ c, o = some c ∧ c.base = c'.base := by
  subst hc
  cases o with
  | none => simp at h
  | some c => exact ⟨c, rfl, (Option.some.inj h).symm⟩

/-- A property of the base of the listed records holds of `cl` before and after alike. -/
theorem any_cl_of_base {p : ClientInfo → Bool} (hp : ∀ c, p c.base = p c)
    (hcl : s'.clients = s.clients)
    (h : ∀ n ∈ s.clients, (s'.info n).map ClientInfo.base = (s.info n).map ClientInfo.base) :
    s'.cl.any p = s.cl.any p := by
  unfold cl
  rw [hcl]
  generalize s.clients = l at h
  induction l with
  | nil => rfl
  | cons n l ih =>
    have ih := ih fun m hm => h m (List.mem_cons_of_mem _ hm)
    have hn := h n List.mem_cons_self
    cases hs : s.info n with
    | none =>
      have hs' : s'.info n = none := by
        rw [hs] at hn
        exact Option.map_eq_none_iff.mp hn
      rw [List.filterMap_cons_none hs, List.filterMap_cons_none hs', ih]
    | some c =>
      obtain ⟨c', hs', hb⟩ := some_of_base hn.symm hs
      rw [List.filterMap_cons_some hs, List.filterMap_cons_some hs', List.any_cons, List.any_cons,
        ih, ClientInfo.base_congr p hp hb]

/-! ## The client lists -/

/-- The core without pending auth requests and the settings masters and the emptying
server change: what is left is who is connected and with what privilege. -/
def roster (s : Server) : Server :=
  { s.core with info := fun n => (s.info n).map ClientInfo.base, mastermode := .mmOpen,
                allowedips := [], bannedips := [], gamepaused := false, gamespeed := 0,
                nextexceeded := 0 }

theorem roster_of_core (h : s'.core = s.core) : s'.roster = s.roster := by
  have hinfo : ∀ s : Server, (fun n => (s.info n).map ClientInfo.base) =
      fun n => (s.core.info n).map ClientInfo.base := by
    intro s
    funext n
    change _ = ((s.info n).map ClientInfo.solo).map ClientInfo.base
    rw [Option.map_map]
    rfl
  unfold roster
  rw [hinfo s', hinfo s, h]

theorem roster_upd (s : Server) (cn : Int) {f : ClientInfo → ClientInfo}
    (hf : ∀ c, (f c).base = c.base) : (s.upd cn f).roster = s.roster := by
  unfold roster
  rw [map_info_upd s cn ClientInfo.base hf]
  rfl

/-- Any field the roster keeps may be read off it. -/
theorem of_roster {β : Type} (f : Server → β) (hf : ∀ s, f s.roster = f s)
    (h : s'.roster = s.roster) : f s' = f s := by
  rw [← hf s', ← hf s, h]

theorem clients_of_roster (h : s'.roster = s.roster) : s'.clients = s.clients :=
  of_roster clients (fun _ => rfl) h

theorem info_of_roster (h : s'.roster = s.roster) (n : Int) :
    (s'.info n).map ClientInfo.base = (s.info n).map ClientInfo.base :=
  congrFun (congrArg info h) n

theorem any_cl_of_roster {p : ClientInfo → Bool} (hp : ∀ c, p c.base = p c)
    (h : s'.roster = s.roster) : s'.cl.any p = s.cl.any p :=
  any_cl_of_base hp (clients_of_roster h) fun n _ => info_of_roster h n

/-- The server after the clients in `gone` have left it. -/
def without (s : Server) (gone : List Int) : Server :=
  { s with clients := s.clients.filter (· ∉ gone),
           info := fun n => if n ∈ gone then none else s.info n }

@[simp] theorem clients_without (s : Server) (gone : List Int) :
    (s.without gone).clients = s.clients.filter (· ∉ gone) := rfl

@[simp] theorem info_without (s : Server) (gone : List Int) (n : Int) :
    (s.without gone).info n = if n ∈ gone then none else s.info n := rfl

theorem without_roster (h : s'.roster = s.roster) (gone : List Int) :
    (s'.without gone).roster = (s.without gone).roster := by
  have hinfo : (s'.without gone).roster.info = (s.without gone).roster.info := by
    funext n
    change ((s'.without gone).info n).map _ = ((s.without gone).info n).map _
    unfold without
    by_cases hn : n ∈ gone
    · simp [hn]
    · simp only [hn, if_false]
      exact info_of_roster h n
  have h' := congrArg (fun t : Server => { t with
    info := (s.without gone).roster.info, clients := t.clients.filter (· ∉ gone) }) h
  calc (s'.without gone).roster
      = { s'.roster with info := (s'.without gone).roster.info,
                         clients := s'.roster.clients.filter (· ∉ gone) } := rfl
    _ = { s'.roster with info := (s.without gone).roster.info,
                         clients := s'.roster.clients.filter (· ∉ gone) } := by rw [hinfo]
    _ = (s.without gone).roster := h'

theorem without_upd (s : Server) {n : Int} {gone : List Int} (hn : n ∈ gone)
    (f : ClientInfo → ClientInfo) : (s.upd n f).without gone = s.without gone := by
  have hinfo : ((s.upd n f).without gone).info = (s.without gone).info := by
    funext m
    change (if m ∈ gone then none else (s.upd n f).info m) = if m ∈ gone then none else s.info m
    by_cases hm : m ∈ gone
    · simp [hm]
    · have hne : m ≠ n := fun h => hm (h ▸ hn)
      simp [hm, hne]
  calc (s.upd n f).without gone
      = { s.without gone with info := ((s.upd n f).without gone).info } := rfl
    _ = s.without gone := by rw [hinfo]

theorem without_without (s : Server) (l m : List Int) :
    (s.without l).without m = s.without (l ++ m) := by
  have hinfo : ((s.without l).without m).info = (s.without (l ++ m)).info := by
    funext n
    change (if n ∈ m then none else if n ∈ l then none else s.info n) =
      if n ∈ l ++ m then none else s.info n
    by_cases hl : n ∈ l <;> by_cases hm : n ∈ m <;> simp [hl, hm]
  have hcl : ((s.without l).without m).clients = (s.without (l ++ m)).clients := by
    change (s.clients.filter _).filter _ = s.clients.filter _
    rw [List.filter_filter]
    refine List.filter_congr fun n _ => ?_
    by_cases hl : n ∈ l <;> by_cases hm : n ∈ m <;> simp [hl, hm]
  calc (s.without l).without m
      = { s with clients := ((s.without l).without m).clients,
                 info := ((s.without l).without m).info } := rfl
    _ = s.without (l ++ m) := by rw [hinfo, hcl]; rfl

/-- Taking a client off the list first makes no difference once it goes. -/
theorem without_unlist (s : Server) {n : Int} {gone : List Int} (hn : n ∈ gone) :
    (s.unlist n).without gone = s.without gone := by
  have hcl : (s.clients.filter (· ≠ n)).filter (· ∉ gone) = s.clients.filter (· ∉ gone) := by
    rw [List.filter_filter]
    refine List.filter_congr fun m _ => ?_
    by_cases hm : m ∈ gone
    · simp [hm]
    · have hne : m ≠ n := fun e => hm (e ▸ hn)
      simp [hm, hne]
  unfold without unlist
  simp only [hcl]

/-- Two lists with the same members are left out alike. -/
theorem without_congr (s : Server) {l m : List Int} (h : ∀ n, n ∈ l ↔ n ∈ m) :
    s.without l = s.without m := by
  unfold without
  simp only [h]

/-- Every listed client has a record, of the kind its number tells. -/
def Live (s : Server) : Prop :=
  ∀ n ∈ s.clients, ∃ c, s.info n = some c ∧ (c.aitype = .human ↔ n < MAXCLIENTS)

theorem Live.of_roster (h : s.Live) (hc : s'.roster = s.roster) : s'.Live := by
  intro n hn
  rw [clients_of_roster hc] at hn
  obtain ⟨c, hc1, hhum⟩ := h n hn
  obtain ⟨c', hc', hb⟩ := some_of_base (info_of_roster hc n).symm hc1
  refine ⟨c', hc', ?_⟩
  rw [ClientInfo.base_congr ClientInfo.aitype (fun _ => rfl) hb]
  exact hhum

theorem Live.without (h : s.Live) (gone : List Int) : (s.without gone).Live := by
  intro n hn
  obtain ⟨hn, hg⟩ := List.mem_filter.mp hn
  obtain ⟨c, hc, hhum⟩ := h n hn
  have hg : n ∉ gone := by simpa using hg
  exact ⟨c, by simpa [Server.without, hg] using hc, hhum⟩

/-- The lists `clients` and `connects` hold live records under their own numbers, humans
in the slots of the engine, bots above them and always listed. -/
structure WF (s : Server) : Prop where
  nodup : s.clients.Nodup
  live : ∀ n ∈ s.clients, ∃ c, s.info n = some c ∧ c.connected
  clientnum : ∀ n c, s.info n = some c → c.clientnum = n
  nonneg : ∀ n c, s.info n = some c → 0 ≤ n
  human : ∀ n c, s.info n = some c → (c.aitype = .human ↔ n < MAXCLIENTS)
  bot : ∀ n c, s.info n = some c → MAXCLIENTS ≤ n → n - MAXCLIENTS < s.nbots ∧ n ∈ s.clients
  listed : ∀ n c, s.info n = some c → c.connected → n ∈ s.clients

/-- The invariant is about the roster. -/
theorem WF.of_roster (h : s.WF) (hc : s'.roster = s.roster) : s'.WF := by
  have hcl : s'.clients = s.clients := clients_of_roster hc
  have hbots : s'.nbots = s.nbots := Server.of_roster nbots (fun _ => rfl) hc
  have hback : ∀ n c', s'.info n = some c' → ∃ c, s.info n = some c ∧ c.base = c'.base :=
    fun n c' => some_of_base (info_of_roster hc n)
  refine ⟨by rw [hcl]; exact h.nodup, ?_, ?_, ?_, ?_, ?_, ?_⟩
  · intro n hn
    rw [hcl] at hn
    obtain ⟨c, hc1, hconn⟩ := h.live n hn
    obtain ⟨c', hc', hb⟩ := some_of_base (info_of_roster hc n).symm hc1
    exact ⟨c', hc', (ClientInfo.base_congr ClientInfo.connected (fun _ => rfl) hb).trans hconn⟩
  · intro n c' hc'
    obtain ⟨c, hc1, hb⟩ := hback n c' hc'
    rw [← h.clientnum n c hc1]
    exact (ClientInfo.base_congr ClientInfo.clientnum (fun _ => rfl) hb).symm
  · intro n c' hc'
    obtain ⟨c, hc1, -⟩ := hback n c' hc'
    exact h.nonneg n c hc1
  · intro n c' hc'
    obtain ⟨c, hc1, hb⟩ := hback n c' hc'
    rw [← h.human n c hc1, ClientInfo.base_congr ClientInfo.aitype (fun _ => rfl) hb]
  · intro n c' hc' hn
    obtain ⟨c, hc1, -⟩ := hback n c' hc'
    rw [hbots, hcl]
    exact h.bot n c hc1 hn
  · intro n c' hc' hconn
    obtain ⟨c, hc1, hb⟩ := hback n c' hc'
    rw [hcl]
    refine h.listed n c hc1 ?_
    rw [ClientInfo.base_congr ClientInfo.connected (fun _ => rfl) hb]
    exact hconn

/-- The invariant survives any set of departures. -/
theorem WF.without (h : s.WF) (gone : List Int) : (s.without gone).WF := by
  have hback : ∀ n c, (s.without gone).info n = some c → s.info n = some c ∧ n ∉ gone := by
    intro n c hc
    unfold Server.without at hc
    by_cases hn : n ∈ gone
    · simp [hn] at hc
    · exact ⟨by simpa [hn] using hc, hn⟩
  have hmem : ∀ n, n ∈ s.clients → n ∉ gone → n ∈ (s.without gone).clients := by
    intro n hn hg
    exact List.mem_filter.mpr ⟨hn, by simpa using hg⟩
  refine ⟨h.nodup.filter _, ?_, ?_, ?_, ?_, ?_, ?_⟩
  · intro n hn
    obtain ⟨hn, hg⟩ := List.mem_filter.mp hn
    obtain ⟨c, hc, hconn⟩ := h.live n hn
    refine ⟨c, ?_, hconn⟩
    have hg : n ∉ gone := by simpa using hg
    simpa [Server.without, hg] using hc
  · intro n c hc
    exact h.clientnum n c (hback n c hc).1
  · intro n c hc
    exact h.nonneg n c (hback n c hc).1
  · intro n c hc
    exact h.human n c (hback n c hc).1
  · intro n c hc hn
    obtain ⟨hc, hg⟩ := hback n c hc
    obtain ⟨hr, hm⟩ := h.bot n c hc hn
    exact ⟨hr, hmem n hm hg⟩
  · intro n c hc hconn
    obtain ⟨hc, hg⟩ := hback n c hc
    exact hmem n (h.listed n c hc hconn) hg

theorem WF.toLive (h : s.WF) : s.Live := by
  intro n hn
  obtain ⟨c, hc, -⟩ := h.live n hn
  exact ⟨c, hc, h.human n c hc⟩

/-- A listed record, with what the invariant says of it. -/
theorem WF.get (h : s.WF) {n : Int} (hn : n ∈ s.clients) :
    ∃ c, s.info n = some c ∧ c.connected ∧ c.clientnum = n ∧ 0 ≤ n := by
  obtain ⟨c, hc, hconn⟩ := h.live n hn
  exact ⟨c, hc, hconn, h.clientnum n c hc, h.nonneg n c hc⟩

theorem WF.info_of_mem_cl (h : s.WF) {c : ClientInfo} (hc : c ∈ s.cl) :
    s.info c.clientnum = some c ∧ c.clientnum ∈ s.clients := by
  obtain ⟨n, hn, hinfo⟩ := mem_cl.mp hc
  rw [h.clientnum n c hinfo]
  exact ⟨hinfo, hn⟩

end Server
end QServ
