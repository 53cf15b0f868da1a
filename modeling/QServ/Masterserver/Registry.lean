import Mathlib.Data.List.Chain
import QServ.Lib.Catalogue
import QServ.Masterserver.Invariants

/-!
# The servers that are registered

* `scheme`: the servers as a register whose published copy is the newest list of servers.
* `Since`: something happened to a server, which has been registered from then on.
* `registry_sound`: servers are listed when they have answered, and the newest list is right unless
  it is to be made anew.
-/

namespace QServ

namespace Masterserver

open Relation (ReflTransGen)

/-! ## The register -/

/-- What is sent of a server, and its address. -/
structure Name where
  host : Nat
  ip : List UInt8
  port : Int
deriving DecidableEq

/-- The name of a server. -/
def Gameserver.name (g : Gameserver) : Name := ⟨g.host, g.ip, g.port⟩

/-- The line for a server. -/
def Name.line (n : Name) : List UInt8 :=
  word "addserver " ++ n.ip ++ 32 :: decimal n.port ++ [newline]

/-- A list of these servers, with the message of the day before it. -/
def Serverlist (names : List Name) (text : List UInt8) : Prop :=
  ∃ motd, text = (if cstr motd ≠ [] then word "echo " ++ cstr motd ++ [newline] else []) ++
    names.flatMap Name.line ++ [0]

/-- The servers as a register with a published copy. -/
def scheme : Catalogue.Scheme Gameserver Name (Nat × Int) Nat (List UInt8) where
  name := Gameserver.name
  key n := (n.host, n.port)
  group := Name.host
  shown g := g.lastpong ≠ 0
  tells := Serverlist
  limit := SERVER_LIMIT
  dups := SERVER_DUP_LIMIT

namespace State

/-- The newest list of servers. -/
def newest (s : State) : Option (List UInt8) := (s.last .servers).map Pool.Cell.body

/-- The register of the servers. -/
def registry (s : State) : Catalogue.Register Gameserver (List UInt8) :=
  ⟨s.gameservers, s.updateserverlist, s.newest⟩

/-- What may happen to the register. -/
def Moves (s t : State) : Prop := ReflTransGen (Catalogue.Step scheme) s.registry t.registry

variable {s t u : State}

/-! ## What leaves it as it is -/

/-- The register is the same, and so are the bans and the clock. -/
structure Same (s t : State) : Prop where
  gameservers : t.gameservers = s.gameservers
  dirty : t.updateserverlist = s.updateserverlist
  newest : t.newest = s.newest

theorem Same.refl (s : State) : Same s s := ⟨rfl, rfl, rfl⟩

theorem Same.trans (h : Same s t) (h' : Same t u) : Same s u :=
  ⟨h'.gameservers.trans h.gameservers, h'.dirty.trans h.dirty, h'.newest.trans h.newest⟩

theorem Same.of_eq (h : t.lists = s.lists) (hg : t.gameservers = s.gameservers)
    (hd : t.updateserverlist = s.updateserverlist) : Same s t := by
  refine ⟨hg, hd, ?_⟩
  unfold State.newest State.last
  rw [h]

theorem Same.moves (h : Same s t) : Moves s t := by
  have heq : t.registry = s.registry := by
    unfold registry
    rw [h.gameservers, h.dirty, h.newest]
  rw [Moves, heq]

theorem same_update (s : State) (conn : Nat) (f : Client → Client) : Same s (s.update conn f) :=
  .of_eq rfl rfl rfl

theorem same_outputf (s : State) (conn : Nat) (msg : List UInt8) : Same s (s.outputf conn msg) :=
  .of_eq rfl rfl rfl

/-- The lists of one kind change, and the newest keeps its text. -/
theorem Same.of_lists {o : Owner} {l : List (Pool.Cell (List UInt8))}
    (hl : l.getLast?.map Pool.Cell.body = (s.lists o).getLast?.map Pool.Cell.body)
    (ht : t.lists = Function.update s.lists o l) (hg : t.gameservers = s.gameservers)
    (hd : t.updateserverlist = s.updateserverlist) : Same s t := by
  refine ⟨hg, hd, ?_⟩
  unfold State.newest State.last
  rw [ht]
  cases o with
  | servers => rw [Function.update_self, hl]
  | bans => rw [Function.update_of_ne (by decide)]

theorem same_give (s : State) (conn : Nat) (o : Owner) (id : Nat) : Same s (s.give conn o id) :=
  .of_lists Pool.newest_recount rfl rfl rfl

theorem same_purge {message : Owner × Nat} (h : s.purge message = .ok t) : Same s t := by
  unfold purge at h
  split at h
  · cases h
    exact .of_lists Pool.newest_release rfl rfl rfl
  · cases h

theorem same_purgemessage {c : Client} (h : s.purgemessage c = .ok t) : Same s t := by
  unfold purgemessage at h
  split at h
  · cases h
    exact .refl s
  · exact same_purge h

theorem Same.map {x : Except Fault State} {f : State → State} (hx : ∀ u, x = .ok u → Same s u)
    (hf : ∀ u, Same u (f u)) (h : x.map f = .ok t) : Same s t := by
  cases x with
  | error e => cases h
  | ok u =>
    cases h
    exact (hx u rfl).trans (hf u)

theorem Same.bind {x : Except Fault State} {f : State → Except Fault State}
    (hx : ∀ u, x = .ok u → Same s u) (hf : ∀ u v, f u = .ok v → Same u v) (h : x.bind f = .ok t) :
    Same s t := by
  cases x with
  | error e => cases h
  | ok u => exact (hx u rfl).trans (hf u t h)

theorem same_purgeclient {conn : Nat} (h : s.purgeclient conn = .ok t) : Same s t := by
  unfold purgeclient at h
  split at h
  · cases h
    exact .refl s
  · refine Same.map ?_ ?_ h
    · exact fun u hu => same_purgemessage hu
    · exact fun u => .of_eq rfl rfl rfl

theorem same_accept {host : Nat} (h : s.accept host = .ok t) : Same s t := by
  unfold accept at h
  split at h
  · cases h
    exact .refl s
  · refine Same.map ?_ ?_ h
    · intro u hu
      split at hu
      · split at hu
        · exact same_purgeclient hu
        · cases hu
          exact .refl s
      · cases hu
        exact .refl s
    · exact fun u => .of_eq rfl rfl rfl

theorem same_limits {conn : Nat} (h : s.limits conn = .ok t) : Same s t := by
  unfold limits at h
  split at h
  · cases h
    exact .refl s
  · next c _ =>
    generalize (if c.registeredserver then KEEPALIVE_TIME else CLIENT_TIME) = limit at h
    split at h
    · exact same_purgeclient h
    · cases h
      exact .refl s

theorem same_finish {c : Client} {text : List UInt8} (h : s.finish c text = .ok t) : Same s t := by
  unfold finish at h
  split at h
  · cases h
    exact same_update _ _ _
  · split at h
    · cases h
      exact .refl s
    · exact .map (fun u hu => same_purge hu) (fun u => same_update _ _ _) h

theorem same_complete {c : Client} {text : List UInt8} (h : s.complete c text = .ok t) :
    Same s t := by
  refine .bind (fun u hu => same_finish hu) (fun u v hv => ?_) h
  split at hv
  · cases hv
    exact .refl u
  · split at hv
    · exact same_purgeclient hv
    · cases hv
      exact .refl u

theorem same_send {conn : Nat} {result : Option Nat} {beyond : List UInt8}
    (h : s.send conn result beyond = .ok t) : Same s t := by
  unfold send at h
  split at h
  · cases h
    exact .refl s
  · split at h
    · next c _ _ =>
      cases hcur : s.current c with
      | error e =>
        rw [hcur] at h
        cases h
      | ok text =>
        rw [hcur] at h
        cases result with
        | none => exact same_purgeclient h
        | some res =>
          dsimp only [Except.bind] at h
          split at h
          · exact (same_update s conn _).trans (same_complete h)
          · cases h
            exact same_update _ _ _
    · cases h
      exact .refl s

theorem same_gengbanlist (s : State) : Same s s.gengbanlist := by
  unfold gengbanlist
  dsimp only
  split
  · exact .refl s
  · refine ⟨rfl, rfl, ?_⟩
    unfold newest last
    dsimp only
    rw [Function.update_of_ne (by decide)]

theorem same_banclients (h : s.banclients = .ok t) : Same s t := by
  unfold banclients at h
  generalize s.clients.reverse.filter (fun c => checkBanlist s.bans c.host) = l at h
  induction l generalizing s t with
  | nil =>
    cases h
    exact .refl s
  | cons c l ih =>
    rw [List.foldlM_cons] at h
    exact .bind (fun u hu => same_purgeclient hu) (fun u v hv => ih hv) h

theorem same_confirm (s : State) (c : Client) : Same s (s.confirm c) := by
  unfold confirm
  dsimp only
  split
  · exact .trans (same_give s c.conn .bans _) (.of_eq rfl rfl rfl)
  · exact .of_eq rfl rfl rfl

theorem same_servermessage (s : State) (g : Gameserver) (msg : List UInt8) :
    Same s (s.servermessage g msg) := by
  unfold servermessage
  split
  · exact .refl s
  · exact same_outputf _ _ _

/-! ## What changes it -/

/-- A server is pinged. -/
def Pings (servtime : UInt32) (g : Gameserver) : Prop :=
  ¬(g.lastping ≠ 0 ∧ g.lastpong ≠ 0 ∧ !timeGreater g.lastping g.lastpong) ∧
    (g.lastping = 0 ∨ PING_TIME < timeDifference servtime g.lastping) ∧ g.numpings < PING_RETRY

/-- A server of which something may have become known; it has kept its name and its address. -/
structure Comes (asked told : Gameserver → Prop) (g g' : Gameserver) : Prop where
  name : g'.name = g.name
  addrport : g'.addrport = g.addrport
  lastping : g'.lastping = g.lastping ∨ g'.lastping = 0 ∨ asked g
  lastpong : g'.lastpong = g.lastpong ∨ told g ∧ g'.lastpong ≠ 0

/-- A server of which nothing is known, and that was not there. -/
structure New (s : State) (g : Gameserver) : Prop where
  ip : g.ip = hostip g.host
  addrport : g.addrport = g.port + 1
  lastping : g.lastping = 0
  lastpong : g.lastpong = 0
  free : ∀ k ∈ s.gameservers, ¬(k.host = g.host ∧ k.port = g.port)

/-- The servers are those there were, or new. -/
def From (asked told : Gameserver → Prop) (s t : State) : Prop :=
  ∀ g' ∈ t.gameservers, (∃ g ∈ s.gameservers, Comes asked told g g') ∨ New s g'

variable {asked told : Gameserver → Prop}

theorem Comes.refl (g : Gameserver) : Comes asked told g g := ⟨rfl, rfl, .inl rfl, .inl rfl⟩

theorem Comes.of_quiet {g g' : Gameserver} (h : Comes (fun _ => False) (fun _ => False) g g') :
    Comes asked told g g' :=
  ⟨h.name, h.addrport, h.lastping.imp_right (Or.imp_right False.elim),
    h.lastpong.imp_right fun h => h.1.elim⟩

theorem Same.from (h : Same s t) : From asked told s t := fun g' hg' =>
  .inl ⟨g', h.gameservers ▸ hg', .refl g'⟩

/-- Nothing becomes known, and all servers stay. -/
structure Quiet (s t : State) : Prop where
  from' : From (fun _ => False) (fun _ => False) s t
  stays : ∀ g ∈ s.gameservers, ∃ g' ∈ t.gameservers, g'.name = g.name

theorem Same.quiet (h : Same s t) : Quiet s t :=
  ⟨h.from, fun g hg => ⟨g, h.gameservers.symm ▸ hg, rfl⟩⟩

theorem Quiet.mono (h : Quiet s t) : From asked told s t := by
  intro g' hg'
  obtain ⟨g, hg, hcomes⟩ | hnew := h.from' g' hg'
  · exact .inl ⟨g, hg, hcomes.of_quiet⟩
  · exact .inr hnew

theorem Quiet.trans (h : Quiet s t) (h' : Quiet t u) : Quiet s u := by
  refine ⟨fun g'' hg'' => ?_, fun g hg => ?_⟩
  · obtain ⟨g', hg', hcomes'⟩ | hnew := h'.from' g'' hg''
    · obtain ⟨hhost, hip, hport⟩ := Name.mk.inj hcomes'.name
      have hpong' : g''.lastpong = g'.lastpong := hcomes'.lastpong.resolve_right fun h => h.1
      obtain ⟨g, hg, hcomes⟩ | hnew := h.from' g' hg'
      · have hpong : g'.lastpong = g.lastpong := hcomes.lastpong.resolve_right fun h => h.1
        refine .inl ⟨g, hg, hcomes'.name.trans hcomes.name, hcomes'.addrport.trans hcomes.addrport,
          ?_, .inl (hpong'.trans hpong)⟩
        obtain h | h | h := hcomes'.lastping
        · rw [h]
          exact hcomes.lastping
        · exact .inr (.inl h)
        · exact h.elim
      · refine .inr ⟨?_, ?_, ?_, hpong'.trans hnew.lastpong, ?_⟩
        · rw [hip, hhost, hnew.ip]
        · rw [hcomes'.addrport, hport, hnew.addrport]
        · obtain h | h | h := hcomes'.lastping
          · exact h.trans hnew.lastping
          · exact h
          · exact h.elim
        · rw [hhost, hport]
          exact hnew.free
    · refine .inr ⟨hnew.ip, hnew.addrport, hnew.lastping, hnew.lastpong, fun k hk hkey => ?_⟩
      obtain ⟨k', hk', hname⟩ := h.stays k hk
      obtain ⟨hhost, -, hport⟩ := Name.mk.inj hname
      exact hnew.free k' hk' ⟨hhost.trans hkey.1, hport.trans hkey.2⟩
  · obtain ⟨g', hg', hname⟩ := h.stays g hg
    obtain ⟨g'', hg'', hname'⟩ := h'.stays g' hg'
    exact ⟨g'', hg'', hname'.trans hname⟩

/-- One server changes. -/
theorem Moves.change {l₁ l₂ : List Gameserver} {g g' : Gameserver}
    (hs : s.gameservers = l₁ ++ g :: l₂) (ht : t.gameservers = l₁ ++ g' :: l₂)
    (hname : g'.name = g.name) (hshown : g.lastpong ≠ 0 → g'.lastpong ≠ 0)
    (hdirty : t.updateserverlist =
      (s.updateserverlist || !(scheme.shown g == scheme.shown g')))
    (hnewest : t.newest = s.newest) : Moves s t := by
  have hstep := Catalogue.Step.change (S := scheme) (c := s.registry) hs hname fun h => by
    simpa [scheme] using hshown (by simpa [scheme] using h)
  have ht' : t.registry = { s.registry with
      entries := l₁ ++ g' :: l₂
      dirty := s.updateserverlist || !(scheme.shown g == scheme.shown g') } := by
    unfold registry
    rw [ht, hdirty, hnewest]
  rw [Moves, ht']
  exact .single hstep

theorem Moves.trans (h : Moves s t) (h' : Moves t u) : Moves s u := ReflTransGen.trans h h'

theorem repin_spec (host : Nat) (port : Int) (gs : List Gameserver) :
    (∃ l₁ g l₂, gs = l₁ ++ g :: l₂ ∧ repin host port gs =
      some (l₁ ++ { g with lastping := 0, numpings := 0 } :: l₂)) ∨
      repin host port gs = none ∧ ∀ g ∈ gs, ¬(g.host = host ∧ g.port = port) := by
  induction gs with
  | nil => exact .inr ⟨rfl, nofun⟩
  | cons g gs ih =>
    unfold repin
    split
    · exact .inl ⟨[], g, gs, rfl, rfl⟩
    · next hg =>
      obtain ⟨l₁, k, l₂, rfl, hrepin⟩ | ⟨hnone, hall⟩ := ih
      · exact .inl ⟨g :: l₁, k, l₂, rfl, by rw [hrepin]; rfl⟩
      · refine .inr ⟨by rw [hnone]; rfl, fun k hk => ?_⟩
        obtain rfl | hk := List.mem_cons.mp hk
        · exact hg
        · exact hall k hk

/-- **A registration.** -/
theorem addgameserver_spec (s : State) (c : Client) :
    Moves s (s.addgameserver c) ∧ Quiet s (s.addgameserver c) := by
  unfold addgameserver
  split
  · exact ⟨(Same.refl s).moves, (Same.refl s).quiet⟩
  · next hroom =>
    obtain ⟨l₁, g, l₂, hgs, hrepin⟩ | ⟨hnone, hfree⟩ :=
      repin_spec c.host c.servport s.gameservers
    · rw [hrepin]
      dsimp only
      refine ⟨.change hgs rfl rfl id ?_ rfl, fun k hk => .inl ?_, fun k hk => ?_⟩
      · simp [scheme]
      · rw [hgs]
        obtain hk | hk := List.mem_append.mp hk
        · exact ⟨k, List.mem_append_left _ hk, .refl k⟩
        · obtain rfl | hk := List.mem_cons.mp hk
          · exact ⟨g, List.mem_append_right _ (.head _), rfl, rfl, .inr (.inl rfl), .inl rfl⟩
          · exact ⟨k, List.mem_append_right _ (.tail _ hk), .refl k⟩
      · rw [hgs] at hk
        obtain hk | hk := List.mem_append.mp hk
        · exact ⟨k, List.mem_append_left _ hk, rfl⟩
        · obtain rfl | hk := List.mem_cons.mp hk
          · exact ⟨_, List.mem_append_right _ (.head _), rfl⟩
          · exact ⟨k, List.mem_append_right _ (.tail _ hk), rfl⟩
    · rw [hnone]
      dsimp only
      split
      · exact ⟨(same_outputf _ _ _).moves, (same_outputf _ _ _).quiet⟩
      · next hfew =>
        refine ⟨.single (.add (S := scheme) (c := s.registry) ?_ ?_ ?_ rfl), fun k hk => ?_,
          fun k hk => ⟨k, List.mem_append_left _ hk, rfl⟩⟩
        · intro g hg heq
          exact hfree g hg ⟨(Prod.mk.inj heq).1, (Prod.mk.inj heq).2⟩
        · exact Nat.lt_of_not_le hroom
        · exact Nat.lt_of_not_le hfew
        · obtain hk | hk := List.mem_append.mp hk
          · exact .inl ⟨k, hk, .refl k⟩
          · obtain rfl := List.mem_singleton.mp hk
            exact .inr ⟨rfl, rfl, rfl, rfl, hfree⟩

/-- **A list is asked for.** -/
theorem genserverlist_spec (s : State) : Moves s s.genserverlist ∧ Quiet s s.genserverlist := by
  have hgs : s.genserverlist.gameservers = s.gameservers := by
    unfold genserverlist
    split <;> rfl
  refine ⟨?_, fun g hg => .inl ⟨g, hgs ▸ hg, .refl g⟩, fun g hg => ⟨g, hgs.symm ▸ hg, rfl⟩⟩
  unfold genserverlist
  split
  · have hlist : Serverlist (scheme.names s.gameservers) s.serverlist := by
      refine ⟨s.mastermotd, ?_⟩
      unfold serverlist Catalogue.Scheme.names
      rw [List.flatMap_map]
      rfl
    have hstep := Catalogue.Step.publish (S := scheme) (c := s.registry) hlist
    refine .single ?_
    have hnewest : registry { s with
        lists := Function.update s.lists .servers
          (Pool.supersede id { id := s.made, body := s.serverlist } (s.lists .servers))
        made := s.made + 1
        updateserverlist := false } =
          { s.registry with dirty := false, published := some s.serverlist } := by
      unfold registry newest last
      dsimp only
      rw [Function.update_self, Pool.newest_supersede]
      rfl
    rw [hnewest]
    exact hstep
  · exact (Same.refl s).moves

/-- The register moves, and nothing becomes known of the servers. -/
def Quietly (s t : State) : Prop := Moves s t ∧ Quiet s t

theorem Same.quietly (h : Same s t) : Quietly s t := ⟨h.moves, h.quiet⟩

theorem Quietly.trans (h : Quietly s t) (h' : Quietly t u) : Quietly s u :=
  ⟨h.1.trans h'.1, h.2.trans h'.2⟩

/-- **A line of a client.** -/
theorem quietly_request (s : State) (conn : Nat) (r : Request) :
    Quietly s (s.request conn r).2 := by
  unfold request
  split
  · exact (Same.refl s).quietly
  · next c _ =>
    have hlast := same_update s conn fun c => { c with lastinput := s.servtime }
    cases r with
    | list =>
      have hgen : Quietly s
          (s.update conn fun c => { c with lastinput := s.servtime }).genserverlist :=
        hlast.quietly.trans (genserverlist_spec _)
      dsimp only
      split
      · exact hgen.trans (((same_give _ conn .servers _).trans (same_update _ conn _)).quietly)
      · exact hgen
    | regserv port =>
      dsimp only
      split
      · exact hlast.quietly
      · split
        · exact (hlast.trans (same_outputf _ conn _)).quietly
        · exact (hlast.trans (same_update _ conn _)).quietly.trans (addgameserver_spec _ _)
    | auth replies =>
      have hall : ∀ (ms : List (List UInt8)) (u : State),
          Same u (ms.foldl (fun s msg => s.outputf conn msg) u) := by
        intro ms
        induction ms with
        | nil => exact Same.refl
        | cons m ms ih => exact fun u => (same_outputf u conn m).trans (ih _)
      exact (hlast.trans (hall replies _)).quietly
    | nothing => exact hlast.quietly

theorem quietly_checkclientinput (conn : Nat) (fits : Bool) (rs : List Request) (s : State) :
    Quietly s (checkclientinput conn fits rs s).2 := by
  induction rs generalizing s with
  | nil => exact (Same.refl s).quietly
  | cons r rs ih =>
    have hr := quietly_request s conn r
    unfold checkclientinput
    split
    · next heq =>
      rw [heq] at hr
      exact hr
    · next heq =>
      rw [heq] at hr
      exact hr.trans (ih _)

theorem quietly_receive {conn : Nat} {rs : List Request} {fits : Bool}
    (h : s.receive conn rs fits = .ok t) : Quietly s t := by
  unfold receive at h
  split at h
  · cases h
    exact (Same.refl s).quietly
  · split at h
    · have hread := same_update s conn fun c => { c with readable := false }
      have hinput := quietly_checkclientinput conn fits rs
        (s.update conn fun c => { c with readable := false })
      dsimp only at h
      split at h
      · next heq =>
        cases h
        rw [heq] at hinput
        exact hread.quietly.trans hinput
      · next heq =>
        rw [heq] at hinput
        exact (hread.quietly.trans hinput).trans (same_purgeclient h).quietly
    · cases h
      exact (Same.refl s).quietly

/-- The servers before and behind one that changes. -/
theorem split_set {gs : List Gameserver} {i : Nat} (g : Gameserver) (h : i < gs.length) :
    ∃ l₁ l₂, gs = l₁ ++ gs[i] :: l₂ ∧ l₁.length = i ∧ gs.set i g = l₁ ++ g :: l₂ :=
  List.exists_of_set h

/-- A packet from the address of a server: whoever is told of it, only its time changes. -/
theorem pong_eq {s : State} {host i : Nat} {port : Int} {g : Gameserver}
    (hi : s.gameservers.findIdx? (fun g => g.host = host ∧ g.addrport = port) = some i)
    (hg : s.gameservers[i]? = some g) : ∃ t, Same s t ∧ s.pong host port =
      { t with
        updateserverlist := t.updateserverlist || decide (g.lastpong = 0)
        gameservers := s.gameservers.set i
          { g with lastpong := if s.servtime ≠ 0 then s.servtime else 1 } } := by
  unfold pong
  rw [hi]
  dsimp only
  rw [hg]
  dsimp only
  by_cases hfirst : g.lastping ≠ 0 ∧ (g.lastpong = 0 ∨ timeGreater g.lastping g.lastpong)
  · rw [if_pos hfirst]
    cases s.findclient g with
    | none => exact ⟨s, .refl s, rfl⟩
    | some c => exact ⟨s.confirm c, same_confirm s c, rfl⟩
  · rw [if_neg hfirst]
    exact ⟨s, .refl s, rfl⟩

/-- **A packet from an address.** -/
theorem pong_spec (s : State) (host : Nat) (port : Int) : Moves s (s.pong host port) ∧
    From (fun _ => False) (fun g => g.host = host ∧ g.addrport = port) s (s.pong host port) ∧
    ((∀ g ∈ s.gameservers, g.lastping ≠ 0) →
      ∀ g ∈ (s.pong host port).gameservers, g.lastping ≠ 0) := by
  cases hi : s.gameservers.findIdx? fun g => g.host = host ∧ g.addrport = port with
  | none =>
    have hsame : s.pong host port = s := by
      unfold pong
      rw [hi]
    rw [hsame]
    exact ⟨(Same.refl s).moves, (Same.refl s).from, id⟩
  | some i =>
    cases hg : s.gameservers[i]? with
    | none =>
      have hsame : s.pong host port = s := by
        unfold pong
        rw [hi]
        dsimp only
        rw [hg]
      rw [hsame]
      exact ⟨(Same.refl s).moves, (Same.refl s).from, id⟩
    | some g =>
      obtain ⟨t, hsame, hpong⟩ := pong_eq hi hg
      rw [hpong]
      have hnow : (if s.servtime ≠ 0 then s.servtime else 1) ≠ 0 := by
        split
        · assumption
        · decide
      generalize (if s.servtime ≠ 0 then s.servtime else 1) = now at hnow ⊢
      obtain ⟨hlt, hget⟩ := List.getElem?_eq_some_iff.mp hg
      obtain ⟨l₁, l₂, hsplit, -, hset⟩ := split_set { g with lastpong := now } hlt
      rw [hget] at hsplit
      have haddress : g.host = host ∧ g.addrport = port := by
        obtain ⟨hlt', htrue, -⟩ := List.findIdx?_eq_some_iff_getElem.mp hi
        rw [← hget]
        simpa using htrue
      have hgs := hsame.gameservers.trans hsplit
      refine ⟨.trans hsame.moves (.change hgs hset rfl (fun _ => hnow) ?_ rfl), ?_, ?_⟩
      · have hnow' : decide (now ≠ 0) = true := decide_eq_true hnow
        by_cases hpong : g.lastpong = 0 <;> simp [scheme, hpong, hnow]
      · intro k hk
        have hk : k ∈ l₁ ++ { g with lastpong := now } :: l₂ := hset ▸ hk
        rw [hsplit]
        obtain hk | hk := List.mem_append.mp hk
        · exact .inl ⟨k, List.mem_append_left _ hk, .refl k⟩
        · obtain rfl | hk := List.mem_cons.mp hk
          · exact .inl ⟨g, List.mem_append_right _ (.head _), rfl, rfl, .inl rfl,
              .inr ⟨haddress, hnow⟩⟩
          · exact .inl ⟨k, List.mem_append_right _ (.tail _ hk), .refl k⟩
      · intro hall k hk
        have hk : k ∈ l₁ ++ { g with lastpong := now } :: l₂ := hset ▸ hk
        rw [hsplit] at hall
        obtain hk | hk := List.mem_append.mp hk
        · exact hall k (List.mem_append_left _ hk)
        · obtain rfl | hk := List.mem_cons.mp hk
          · exact hall g (List.mem_append_right _ (.head _))
          · exact hall k (List.mem_append_right _ (.tail _ hk))

/-- **A server that is checked** is pinged, stays as it is or goes. -/
theorem checkgameserver_spec (s : State) (g : Gameserver) :
    (s.checkgameserver g).2.newest = s.newest ∧
    (s.checkgameserver g).2.servtime = s.servtime ∧
    ((∃ g', (s.checkgameserver g).1 = some g' ∧ Comes (Pings s.servtime) (fun _ => False) g g' ∧
        g'.lastping ≠ 0 ∧ (s.checkgameserver g).2.updateserverlist = s.updateserverlist) ∨
      (s.checkgameserver g).1 = none ∧ (s.checkgameserver g).2.updateserverlist = true) := by
  have hnow : (if s.servtime ≠ 0 then s.servtime else 1) ≠ 0 := by
    split
    · assumption
    · decide
  have htime : ∀ msg, (s.servermessage g msg).servtime = s.servtime := fun msg => by
    unfold servermessage
    split <;> rfl
  unfold checkgameserver
  split
  · next halive =>
    split
    · exact ⟨rfl, rfl, .inr ⟨rfl, rfl⟩⟩
    · exact ⟨rfl, rfl, .inl ⟨g, rfl, .refl g, halive.1, rfl⟩⟩
  · next hdead =>
    split
    · next hdue =>
      split
      · exact ⟨(same_servermessage s g _).newest, htime _, .inr ⟨rfl, rfl⟩⟩
      · next hretry =>
        have hpings : Pings s.servtime g := ⟨hdead, hdue, Nat.lt_of_not_le hretry⟩
        exact ⟨rfl, rfl, .inl ⟨_, rfl, ⟨rfl, rfl, .inr (.inr hpings), .inl rfl⟩, hnow, rfl⟩⟩
    · next hdue => exact ⟨rfl, rfl, .inl ⟨g, rfl, .refl g, fun h => hdue (.inl h), rfl⟩⟩

/-- The loop over the servers, behind those that it has passed. -/
theorem checkservers_spec (gs l₁ : List Gameserver) (s : State) :
    ReflTransGen (Catalogue.Step scheme) ⟨l₁ ++ gs, s.updateserverlist, s.newest⟩
      ⟨l₁ ++ (checkservers gs s).1, (checkservers gs s).2.updateserverlist,
        (checkservers gs s).2.newest⟩ ∧
    ∀ g' ∈ (checkservers gs s).1, g'.lastping ≠ 0 ∧
      ∃ g ∈ gs, Comes (Pings s.servtime) (fun _ => False) g g' := by
  induction gs generalizing l₁ s with
  | nil => exact ⟨.refl, nofun⟩
  | cons g gs ih =>
    obtain ⟨hnewest, htime, hg⟩ := checkgameserver_spec s g
    unfold checkservers
    dsimp only
    obtain ⟨g', hsome, hcomes, hping, hdirty⟩ | ⟨hnone, hdirty⟩ := hg
    · obtain ⟨hmoves, hfrom⟩ := ih (l₁ ++ [g']) (s.checkgameserver g).2
      rw [hnewest, hdirty, List.append_assoc, List.append_assoc] at hmoves
      rw [htime] at hfrom
      have hstep := Catalogue.Step.change (S := scheme)
        (c := ⟨l₁ ++ g :: gs, s.updateserverlist, s.newest⟩) rfl hcomes.name fun h => by
          have hpong := hcomes.lastpong.resolve_right fun h => h.1
          simpa [scheme, hpong] using h
      have hshown : scheme.shown g = scheme.shown g' := by
        have hpong := hcomes.lastpong.resolve_right fun h => h.1
        simp [scheme, hpong]
      rw [hshown, beq_self_eq_true, Bool.not_true, Bool.or_false] at hstep
      rw [hsome]
      refine ⟨.head hstep hmoves, fun k hk => ?_⟩
      obtain hk | hk := List.mem_append.mp hk
      · obtain rfl := Option.some.inj (Option.mem_toList.mp hk)
        exact ⟨hping, g, .head _, hcomes⟩
      · obtain ⟨hk', j, hj, hcomes'⟩ := hfrom k hk
        exact ⟨hk', j, .tail _ hj, hcomes'⟩
    · obtain ⟨hmoves, hfrom⟩ := ih l₁ (s.checkgameserver g).2
      rw [hnewest, hdirty] at hmoves
      rw [htime] at hfrom
      have hstep := Catalogue.Step.remove (S := scheme)
        (c := ⟨l₁ ++ g :: gs, s.updateserverlist, s.newest⟩) rfl
      rw [hnone]
      refine ⟨.head hstep hmoves, fun k hk => ?_⟩
      obtain ⟨hk', j, hj, hcomes'⟩ := hfrom k hk
      exact ⟨hk', j, .tail _ hj, hcomes'⟩

theorem checkgameservers_spec (s : State) : Moves s s.checkgameservers ∧
    From (Pings s.servtime) (fun _ => False) s s.checkgameservers ∧
    ∀ g ∈ s.checkgameservers.gameservers, g.lastping ≠ 0 := by
  obtain ⟨hmoves, hfrom⟩ := checkservers_spec s.gameservers [] s
  exact ⟨hmoves, fun g hg => .inl (hfrom g hg).2, fun g hg => (hfrom g hg).1⟩

/-- Servers that are banned are taken out. -/
theorem bangameservers_spec (s : State) : Moves s s.bangameservers ∧
    ∀ g ∈ s.bangameservers.gameservers, g ∈ s.gameservers := by
  have hfilter : ∀ (gs l₁ : List Gameserver) (dirty : Bool),
      ReflTransGen (Catalogue.Step scheme) ⟨l₁ ++ gs, dirty, s.newest⟩
        ⟨l₁ ++ gs.filter fun g => !checkBanlist s.servbans g.host,
          dirty || gs.any fun g => checkBanlist s.servbans g.host, s.newest⟩ := by
    intro gs
    induction gs with
    | nil =>
      intro l₁ dirty
      rw [List.any_nil, Bool.or_false]
      exact .refl
    | cons g gs ih =>
      intro l₁ dirty
      by_cases hban : checkBanlist s.servbans g.host = true
      · rw [List.filter_cons_of_neg (by simp [hban]), List.any_cons, hban, Bool.true_or,
          Bool.or_true]
        have hrest := ih l₁ true
        rw [Bool.true_or] at hrest
        exact .head (.remove (S := scheme) (c := ⟨l₁ ++ g :: gs, dirty, s.newest⟩) rfl) hrest
      · rw [Bool.not_eq_true] at hban
        rw [List.filter_cons_of_pos (by simp [hban]), List.any_cons, hban, Bool.false_or]
        have hrest := ih (l₁ ++ [g]) dirty
        rw [List.append_assoc, List.append_assoc] at hrest
        exact hrest
  exact ⟨hfilter s.gameservers [] s.updateserverlist, fun g hg => (List.mem_filter.mp hg).1⟩

/-- Servers are taken out, and nothing else happens to them. -/
theorem From.of_subset (h : ∀ g ∈ t.gameservers, g ∈ s.gameservers) : From asked told s t :=
  fun g hg => .inl ⟨g, h g hg, .refl g⟩

/-- **`master.cfg` is read again.** -/
theorem reload_spec {bans servbans gbans : List IpMask} {mastermotd : List UInt8}
    (h : s.step (.reload bans servbans gbans mastermotd) = .ok t) : Moves s t ∧
    ∀ g ∈ t.gameservers, g ∈ s.gameservers := by
  have hread : Same s { s with bans, servbans, gbans, mastermotd } := .of_eq rfl rfl rfl
  obtain ⟨hmoves, hsub⟩ := bangameservers_spec { s with bans, servbans, gbans, mastermotd }
  have hlate : Same (bangameservers { s with bans, servbans, gbans, mastermotd }) t :=
    .map (fun u hu => same_banclients hu) same_gengbanlist h
  exact ⟨hread.moves.trans (hmoves.trans hlate.moves), fun g hg => hsub g (hlate.gameservers ▸ hg)⟩

/-- **Every event**: the register moves, a server becomes known to have been asked where it is
pinged and to have answered where a packet comes from its address. -/
theorem step_spec {e : Event} (h : step s e = .ok t) : Moves s t ∧
    From (fun g => e = .checkgameservers ∧ Pings s.servtime g)
      (fun g => e = .pong g.host g.addrport) s t := by
  cases e with
  | reload bans servbans gbans mastermotd => exact (reload_spec h).imp_right From.of_subset
  | clock servtime =>
    have hsame : Same s { s with servtime } := .of_eq rfl rfl rfl
    cases h
    exact hsame.quietly.imp_right Quiet.mono
  | select expired =>
    obtain rfl := Except.ok.inj h
    exact ⟨(Same.of_eq rfl rfl rfl).moves, .of_subset fun g hg => hg⟩
  | pong host port =>
    cases h
    obtain ⟨hmoves, hfrom, -⟩ := pong_spec s host port
    refine ⟨hmoves, fun g' hg' => ?_⟩
    obtain ⟨g, hg, hcomes⟩ | hnew := hfrom g' hg'
    · refine .inl ⟨g, hg, hcomes.name, hcomes.addrport,
        hcomes.lastping.imp_right (Or.imp_right False.elim), hcomes.lastpong.imp_right ?_⟩
      rintro ⟨⟨rfl, rfl⟩, hpong⟩
      exact ⟨rfl, hpong⟩
    · exact .inr hnew
  | accept host => exact (same_accept h).quietly.imp_right Quiet.mono
  | send conn result beyond => exact (same_send h).quietly.imp_right Quiet.mono
  | receive conn requests fits => exact (quietly_receive h).imp_right Quiet.mono
  | hangup conn => exact (same_purgeclient h).quietly.imp_right Quiet.mono
  | limits conn => exact (same_limits h).quietly.imp_right Quiet.mono
  | checkgameservers =>
    cases h
    obtain ⟨hmoves, hfrom, -⟩ := checkgameservers_spec s
    refine ⟨hmoves, fun g' hg' => ?_⟩
    obtain ⟨g, hg, hcomes⟩ | hnew := hfrom g' hg'
    · exact .inl ⟨g, hg, hcomes.name, hcomes.addrport,
        hcomes.lastping.imp_right (Or.imp_right fun h => ⟨rfl, h⟩),
        hcomes.lastpong.imp_right fun h => h.1.elim⟩
    · exact .inr hnew

/-! ## The newest list -/

theorem newest_addgameserver (s : State) (c : Client) :
    (s.addgameserver c).newest = s.newest := by
  unfold addgameserver
  split
  · rfl
  · split
    · rfl
    · split <;> rfl

/-- The newest list changes where a client asks for it, and then his input is not read on. -/
theorem newest_request (s : State) (conn : Nat) (r : Request) :
    (s.request conn r).2.newest = s.newest ∨
      (s.request conn r).1.isSome ∧ (s.request conn r).2.updateserverlist = false := by
  unfold request
  split
  · exact .inl rfl
  · next c _ =>
    cases r with
    | list =>
      have hclean : ∀ u : State, u.genserverlist.updateserverlist = false := fun u => by
        unfold genserverlist
        split
        · rfl
        · next h => exact Bool.eq_false_iff.mpr h
      dsimp only
      split
      · next l _ _ =>
        have hsent : ∀ u : State, Same u ((u.give conn .servers l.id).update conn Client.discard) :=
          fun u => (same_give u conn .servers l.id).trans (same_update _ conn _)
        exact .inr ⟨rfl, (hsent _).dirty.trans (hclean _)⟩
      · exact .inr ⟨rfl, hclean _⟩
    | regserv port =>
      dsimp only
      split
      · exact .inl rfl
      · split
        · exact .inl rfl
        · exact .inl (newest_addgameserver _ _)
    | auth replies =>
      have hall : ∀ (ms : List (List UInt8)) (u : State),
          (ms.foldl (fun s msg => s.outputf conn msg) u).newest = u.newest := by
        intro ms
        induction ms with
        | nil => exact fun u => rfl
        | cons m ms ih => exact fun u => ih _
      exact .inl (hall replies _)
    | nothing => exact .inl rfl

theorem newest_checkclientinput (conn : Nat) (fits : Bool) (rs : List Request) (s : State) :
    (checkclientinput conn fits rs s).2.newest = s.newest ∨
      (checkclientinput conn fits rs s).2.updateserverlist = false := by
  induction rs generalizing s with
  | nil => exact .inl rfl
  | cons r rs ih =>
    have hr := newest_request s conn r
    unfold checkclientinput
    split
    · next heq =>
      rw [heq] at hr
      exact hr.imp_right And.right
    · next u heq =>
      rw [heq] at hr
      have hr : u.newest = s.newest := hr.resolve_right fun h => by cases h.1
      rw [← hr]
      exact ih u

/-- **The newest list** is not out of date where it has just changed. -/
theorem newest_step {e : Event} (h : step s e = .ok t) :
    t.newest = s.newest ∨ t.updateserverlist = false := by
  cases e with
  | reload bans servbans gbans mastermotd =>
    have hlate : Same (bangameservers { s with bans, servbans, gbans, mastermotd }) t :=
      .map (fun u hu => same_banclients hu) same_gengbanlist h
    exact .inl hlate.newest
  | clock servtime =>
    cases h
    exact .inl rfl
  | select expired =>
    obtain rfl := Except.ok.inj h
    exact .inl rfl
  | pong host port =>
    cases h
    left
    unfold pong
    split
    · rfl
    · split
      · rfl
      · dsimp only
        split
        · split
          · rfl
          · exact (same_confirm s _).newest
        · rfl
  | accept host => exact .inl (same_accept h).newest
  | send conn result beyond => exact .inl (same_send h).newest
  | receive conn requests fits =>
    unfold step receive at h
    dsimp only at h
    split at h
    · cases h
      exact .inl rfl
    · split at h
      · have hinput := newest_checkclientinput conn fits requests
          (s.update conn fun c => { c with readable := false })
        split at h
        · next heq =>
          cases h
          rw [heq] at hinput
          exact hinput
        · next heq =>
          rw [heq] at hinput
          have hpurge := same_purgeclient h
          rw [hpurge.newest, hpurge.dirty]
          exact hinput
      · cases h
        exact .inl rfl
  | hangup conn => exact .inl (same_purgeclient h).newest
  | limits conn => exact .inl (same_limits h).newest
  | checkgameservers =>
    cases h
    have hall : ∀ (gs : List Gameserver) (u : State), (checkservers gs u).2.newest = u.newest := by
      intro gs
      induction gs with
      | nil => exact fun u => rfl
      | cons g gs ih => exact fun u => (ih _).trans (checkgameserver_spec u g).1
    exact .inl (hall s.gameservers s)

/-! ## Asking and answering -/

/-- The server at an address is the one that a packet from there is for. -/
theorem pong_answers {host : Nat} {port : Int} (hs : Catalogue.Sound scheme s.registry)
    (haddr : ∀ g ∈ s.gameservers, g.addrport = g.port + 1) :
    ∀ g ∈ (s.pong host port).gameservers, g.host = host → g.addrport = port → g.lastpong ≠ 0 := by
  intro k hk hhost hport
  unfold pong at hk
  split at hk
  · next hnone =>
    have := List.findIdx?_eq_none_iff.mp hnone k hk
    simp [hhost, hport] at this
  · next i hi =>
    split at hk
    · next hnone =>
      obtain ⟨hlt, -⟩ := List.findIdx?_eq_some_iff_getElem.mp hi
      rw [List.getElem?_eq_getElem hlt] at hnone
      cases hnone
    · next g hg =>
      obtain ⟨hlt, hget⟩ := List.getElem?_eq_some_iff.mp hg
      have haddress : g.host = host ∧ g.addrport = port := by
        obtain ⟨hlt', htrue, -⟩ := List.findIdx?_eq_some_iff_getElem.mp hi
        rw [← hget]
        simpa using htrue
      dsimp only at hk
      have hnow : (if s.servtime ≠ 0 then s.servtime else 1) ≠ 0 := by
        split
        · assumption
        · decide
      generalize (if s.servtime ≠ 0 then s.servtime else 1) = now at hnow hk
      obtain ⟨l₁, l₂, hsplit, -, hset⟩ := split_set { g with lastpong := now } hlt
      rw [hget] at hsplit
      rw [hset] at hk
      -- another server at the address would have the same key
      have hother : k ∉ l₁ ++ l₂ := by
        intro hmem
        have hunique := hs.unique
        rw [show s.registry.entries = s.gameservers from rfl, hsplit, List.map_append,
          List.map_cons, List.nodup_middle, List.nodup_cons, ← List.map_append] at hunique
        refine hunique.1 (List.mem_map.mpr ⟨k, hmem, ?_⟩)
        have hk' := haddr k (by rw [hsplit]; simp at hmem ⊢; tauto)
        have hg' := haddr g (by rw [hsplit]; simp)
        refine Prod.ext (hhost.trans haddress.1.symm) ?_
        change k.port = g.port
        omega
      have hmem := List.mem_append.mp hk
      rw [List.mem_cons] at hmem
      obtain h | rfl | h := hmem
      · exact (hother (List.mem_append_left _ h)).elim
      · exact hnow
      · exact (hother (List.mem_append_right _ h)).elim

/-- The place of an event in a turn of the main loop. -/
def Event.phase : Event → Nat
  | .reload .. => 0
  | .clock _ => 1
  | .select _ => 2
  | .pong .. => 3
  | .accept _ => 4
  | .send .. | .receive .. | .hangup _ | .limits _ => 5
  | .checkgameservers => 6

/-- The main loop: the servers are checked last, and a turn starts with `master.cfg` or the
clock. -/
def Event.Next (e f : Event) : Prop :=
  (e.phase = 6 ∧ f.phase ≤ 1) ∨ (e.phase < 6 ∧ e.phase ≤ f.phase)

/-- Servers are registered when the clients are served, and pinged before anything else happens. -/
theorem pinged_step {e : Event} (h : step s e = .ok t)
    (he : e.phase = 6 ∨ e.phase < 5 ∧ ∀ g ∈ s.gameservers, g.lastping ≠ 0) :
    ∀ g ∈ t.gameservers, g.lastping ≠ 0 := by
  cases e with
  | reload bans servbans gbans mastermotd =>
    obtain ⟨-, hall⟩ := he.resolve_left (by simp [Event.phase])
    exact fun g hg => hall g ((reload_spec h).2 g hg)
  | clock servtime =>
    cases h
    exact (he.resolve_left (by simp [Event.phase])).2
  | select expired =>
    obtain rfl := Except.ok.inj h
    exact (he.resolve_left (by simp [Event.phase])).2
  | pong host port =>
    cases h
    exact (pong_spec s host port).2.2 (he.resolve_left (by simp [Event.phase])).2
  | accept host =>
    rw [(same_accept h).gameservers]
    exact (he.resolve_left (by simp [Event.phase])).2
  | send conn result beyond => simp [Event.phase] at he
  | receive conn requests fits => simp [Event.phase] at he
  | hangup conn => simp [Event.phase] at he
  | limits conn => simp [Event.phase] at he
  | checkgameservers =>
    cases h
    exact (checkgameservers_spec s).2.2

/-- A server with this address is registered after these events. -/
def Registered (host : Nat) (port : Int) (es : List Event) : Prop :=
  ∃ s : State, Run.exec State.step {} es = .ok s ∧
    ∃ g ∈ s.gameservers, g.host = host ∧ g.port = port

/-- The server has been pinged since it was registered. -/
def Pinged (host : Nat) (port : Int) : List Event → Prop :=
  Run.Since (Registered host port) fun es e => e = .checkgameservers ∧
    ∃ s : State, Run.exec State.step {} es = .ok s ∧
      ∃ g ∈ s.gameservers, g.host = host ∧ g.port = port ∧ Pings s.servtime g

/-- A packet has come from the address of the server, which had been pinged then and has been
registered ever since. -/
def Answered (host : Nat) (port : Int) : List Event → Prop :=
  Run.Since (Registered host port) fun es e => e = .pong host (port + 1) ∧ Pinged host port es

/-- What the servers and the newest list have to do with what has happened. -/
structure Known (es : List Event) (s : State) : Prop where
  sound : Catalogue.Sound scheme s.registry
  ip : ∀ g ∈ s.gameservers, g.ip = hostip g.host
  addrport : ∀ g ∈ s.gameservers, g.addrport = g.port + 1
  pinged : ∀ g ∈ s.gameservers, g.lastping ≠ 0 → Pinged g.host g.port es
  answered : ∀ g ∈ s.gameservers, g.lastpong ≠ 0 ↔ Answered g.host g.port es
  phase : (∀ g ∈ s.gameservers, g.lastping ≠ 0) ∨ ∃ e ∈ es.getLast?, e.phase = 5
  lists : ∀ text, s.newest = some text → ∃ names, Serverlist names text ∧
    ∀ n ∈ names, n.ip = hostip n.host ∧ ∃ es', es' <+: es ∧ Answered n.host n.port es'

theorem Known.init : Known [] {} := by
  refine ⟨⟨List.nodup_nil, Nat.zero_le _, fun _ => Nat.zero_le _, nofun⟩, nofun, nofun, nofun,
    nofun, .inl nofun, nofun⟩

/-- What is registered and was registered before is what it was. -/
theorem Known.step {es : List Event} {e : Event} (hrun : Run.exec State.step {} es = .ok s)
    (h : Known es s) (hstep : s.step e = .ok t) (hnext : ∀ d ∈ es.getLast?, d.Next e) :
    Known (es ++ [e]) t := by
  obtain ⟨hmoves, hfrom⟩ := step_spec hstep
  have hrun' : Run.exec State.step {} (es ++ [e]) = .ok t := by
    rw [Run.exec_snoc, hrun]
    exact hstep
  have hreg : ∀ g ∈ t.gameservers, Registered g.host g.port (es ++ [e]) := fun g hg =>
    ⟨t, hrun', g, hg, rfl, rfl⟩
  have hsound := h.sound.steps hmoves
  -- a packet arrives when all servers have been pinged
  have hasked : e.phase < 5 → ∀ g ∈ s.gameservers, g.lastping ≠ 0 := by
    intro he
    refine h.phase.resolve_right ?_
    rintro ⟨d, hd, hphase⟩
    obtain h' | h' := hnext d hd <;> omega
  have hlast : (∀ g ∈ t.gameservers, g.lastping ≠ 0) ∨ e.phase = 5 := by
    by_cases he : e.phase < 5
    · exact .inl (pinged_step hstep (.inr ⟨he, hasked he⟩))
    · have hle : e.phase ≤ 6 := by cases e <;> simp [Event.phase]
      obtain h6 | h5 : e.phase = 6 ∨ e.phase = 5 := by omega
      · exact .inl (pinged_step hstep (.inl h6))
      · exact .inr h5
  have hpinged : ∀ g ∈ t.gameservers, g.lastping ≠ 0 → Pinged g.host g.port (es ++ [e]) := by
    intro g' hg' hping
    obtain ⟨g, hg, hcomes⟩ | hnew := hfrom g' hg'
    · obtain ⟨hhost, -, hport⟩ := Name.mk.inj hcomes.name
      obtain heq | hzero | ⟨rfl, hpings⟩ := hcomes.lastping
      · refine Run.Since.snoc ?_ (hreg g' hg')
        rw [hhost, hport]
        exact h.pinged g hg (heq ▸ hping)
      · exact (hping hzero).elim
      · exact .now ⟨rfl, s, hrun, g, hg, hhost.symm, hport.symm, hpings⟩ (hreg g' hg')
    · exact (hping hnew.lastping).elim
  have hanswered : ∀ g ∈ t.gameservers, g.lastpong ≠ 0 ↔ Answered g.host g.port (es ++ [e]) := by
    intro g' hg'
    obtain ⟨g, hg, hcomes⟩ | hnew := hfrom g' hg'
    · obtain ⟨hhost, -, hport⟩ := Name.mk.inj hcomes.name
      constructor
      · intro hpong
        obtain heq | ⟨rfl, -⟩ := hcomes.lastpong
        · refine Run.Since.snoc ?_ (hreg g' hg')
          rw [hhost, hport]
          exact (h.answered g hg).mp (heq ▸ hpong)
        · refine .now ⟨?_, ?_⟩ (hreg g' hg')
          · rw [h.addrport g hg, hhost, hport]
          · rw [hhost, hport]
            exact h.pinged g hg (hasked (by simp [Event.phase]) g hg)
      · intro hans
        obtain ⟨rfl, -⟩ | hans := hans.cases
        · cases hstep
          refine pong_answers h.sound h.addrport g' hg' rfl ?_
          rw [hcomes.addrport, h.addrport g hg, hport]
        · rw [hhost, hport] at hans
          obtain heq | ⟨-, hpong⟩ := hcomes.lastpong
          · rw [heq]
            exact (h.answered g hg).mpr hans
          · exact hpong
    · -- a server that is new was not there before
      constructor
      · exact fun hpong => (hpong hnew.lastpong).elim
      · intro hans
        have hthere : Registered g'.host g'.port es := by
          obtain ⟨rfl, hping⟩ | hans := hans.cases
          · exact hping.holds
          · exact hans.holds
        obtain ⟨u, hu, k, hk, hkey⟩ := hthere
        obtain rfl := Except.ok.inj (hu.symm.trans hrun)
        exact (hnew.free k hk hkey).elim
  have hip : ∀ g ∈ t.gameservers, g.ip = hostip g.host := by
    intro g' hg'
    obtain ⟨g, hg, hcomes⟩ | hnew := hfrom g' hg'
    · obtain ⟨hhost, hip, -⟩ := Name.mk.inj hcomes.name
      rw [hip, hhost, h.ip g hg]
    · exact hnew.ip
  refine ⟨hsound, hip, ?_, hpinged, hanswered, ?_, ?_⟩
  · intro g' hg'
    obtain ⟨g, hg, hcomes⟩ | hnew := hfrom g' hg'
    · obtain ⟨-, -, hport⟩ := Name.mk.inj hcomes.name
      rw [hcomes.addrport, hport, h.addrport g hg]
    · exact hnew.addrport
  · refine hlast.imp_right fun h5 => ⟨e, ?_, h5⟩
    simp
  · intro text htext
    obtain heq | hclean := newest_step hstep
    · obtain ⟨names, hnames, hall⟩ := h.lists text (heq ▸ htext)
      refine ⟨names, hnames, fun n hn => ?_⟩
      obtain ⟨hn, es', hes', hans⟩ := hall n hn
      exact ⟨hn, es', hes'.trans (List.prefix_append _ _), hans⟩
    · obtain ⟨b, hb, htells⟩ := hsound.copy hclean
      obtain rfl := Option.some.inj (hb.symm.trans htext)
      refine ⟨_, htells, fun n hn => ?_⟩
      obtain ⟨g, hg, rfl⟩ := List.mem_map.mp hn
      obtain ⟨hg, hshown⟩ := List.mem_filter.mp hg
      have hpong : g.lastpong ≠ 0 := by simpa [scheme] using hshown
      exact ⟨hip g hg, es ++ [e], List.prefix_refl _, (hanswered g hg).mp hpong⟩

/-- **The registry**: servers are told apart by host and port, and the limits on them are met; in a
list that is sent there are servers that had answered a ping, servers count as having answered when
they have, and a list that is not to be made anew has these, each once. -/
theorem registry_sound {es : List Event} {s : State} (hrun : Run.exec State.step {} es = .ok s)
    (horder : es.IsChain Event.Next) :
    ((s.gameservers.map fun g => (g.host, g.port)).Nodup ∧ s.gameservers.length ≤ SERVER_LIMIT ∧
      ∀ host, (s.gameservers.countP fun g => g.host = host) ≤ SERVER_DUP_LIMIT) ∧
    (∀ text, s.newest = some text → ∃ names, Serverlist names text ∧
      ∀ n ∈ names, n.ip = hostip n.host ∧ ∃ es', es' <+: es ∧ Answered n.host n.port es') ∧
    (∀ g ∈ s.gameservers, g.lastpong ≠ 0 ↔ Answered g.host g.port es) ∧
    (s.updateserverlist = false → ∃ text, s.newest = some text ∧
      Serverlist ((s.gameservers.filter fun g => g.lastpong ≠ 0).map Gameserver.name) text) := by
  have hknown : Known es s := by
    refine Run.exec_history (fun es s => es.IsChain Event.Next → Known es s) (fun _ => .init) ?_
      hrun horder
    intro es u e v hu ih hv horder
    obtain ⟨hes, -, hnext⟩ := List.isChain_append.mp horder
    exact (ih hes).step hu hv fun d hd => hnext d hd e rfl
  obtain ⟨hunique, htotal, hdups, hcopy⟩ := hknown.sound
  exact ⟨⟨hunique, htotal, hdups⟩, hknown.lists, hknown.answered, hcopy⟩

/-- A server is registered, is pinged and answers; then the list is asked for. -/
def listed : List Event :=
  [.reload [] [] [] [], .clock 1, .select fun _ => [], .accept 1, .checkgameservers,
    .clock 2, .select fun _ => [], .receive 0 [.regserv 28785] true, .checkgameservers,
    .clock 3, .select fun _ => [], .pong 1 28786, .accept 1, .checkgameservers,
    .clock 4, .select fun _ => [], .receive 1 [.list] true, .checkgameservers]

/-- The server is in the list. -/
theorem registry_sound_listed : ∃ s : State, ∃ g : Gameserver, s.gameservers = [g] ∧
    Answered g.host g.port listed ∧ ∃ text, s.newest = some text ∧ Serverlist [g.name] text := by
  have hany : (Run.exec State.step {} listed).toOption.any fun s =>
      decide (s.gameservers.length = 1 ∧ (∀ g ∈ s.gameservers, g.lastpong ≠ 0) ∧
        s.updateserverlist = false) := by decide +kernel
  cases hrun : Run.exec State.step {} listed with
  | error f =>
    rw [hrun] at hany
    cases hany
  | ok s =>
    rw [hrun] at hany
    obtain ⟨hone, hpong, hclean⟩ := of_decide_eq_true hany
    obtain ⟨g, hg⟩ := List.length_eq_one_iff.mp hone
    obtain ⟨-, -, hanswered, hcopy⟩ := registry_sound hrun (by
      simp [listed, Event.Next, Event.phase])
    obtain ⟨text, htext, hlist⟩ := hcopy hclean
    have hmem : g ∈ s.gameservers := hg ▸ List.mem_singleton_self g
    refine ⟨s, g, hg, (hanswered g hmem).mp (hpong g hmem), text, htext, ?_⟩
    have hshown : (s.gameservers.filter fun g => g.lastpong ≠ 0).map Gameserver.name =
        [g.name] := by
      rw [hg, List.filter_cons_of_pos (by simpa using hpong g hmem)]
      rfl
    rwa [hshown] at hlist

end State

end Masterserver

end QServ
