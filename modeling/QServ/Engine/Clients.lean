import Mathlib.Data.List.Perm.Basic
import Mathlib.Logic.Function.Basic
import QServ.Lib.Run
import QServ.Server.State

/-!
# The client table

`engine/server.cpp` keeps a slot for every connection.  A slot is taken by `addclient` and given
up by `delclient`, from the side of the peer or by a decision of the server; the peer holds a
pointer back to its slot.

* `Clients.next`: what ENet reports, what the server decides meanwhile, and local clients.
* `Clients.Consistent`: slots, counters, game infos and peers agree.
* `clients_consistent`: they do in every run.
-/

namespace QServ

/-- `ST_EMPTY`, `ST_LOCAL`, `ST_TCPIP`. -/
inductive ClientType
  | ST_EMPTY
  | ST_LOCAL
  | ST_TCPIP
deriving DecidableEq, Repr

/-- The `client` of the engine.  A game info is named by the order in which they are created. -/
structure Client where
  type : ClientType := .ST_EMPTY
  num : Nat
  peer : Option Nat := none
  info : Option Nat := none
deriving DecidableEq, Repr

/-- The table.  `data` is the pointer `peer->data`, as the index of the slot it points to.  The
last four fields belong to no variable of the file: the infos that were created and those that
were released, what ENet was asked to disconnect, and the peers that ENet has connected. -/
structure Clients where
  clients : List Client := []
  localclients : Int := 0
  nonlocalclients : Int := 0
  data : Nat → Option Nat := fun _ => none
  created : Nat := 0
  released : List Nat := []
  asked : List (Nat × Disc) := []
  connected : Nat → Bool := fun _ => false

namespace Clients

variable (s : Clients)

/-- What `localclients` and `nonlocalclients` gain with a slot of a type. -/
def count (type : ClientType) (d : Int) : Clients :=
  match type with
  | .ST_TCPIP => { s with nonlocalclients := s.nonlocalclients + d }
  | .ST_LOCAL => { s with localclients := s.localclients + d }
  | .ST_EMPTY => s

/-- The table with another client in a slot. -/
def put (i : Nat) (c : Client) : Clients :=
  { s with clients := s.clients.set i c }

/-- `c->info = server::newclientinfo()` with the type of the slot. -/
def occupy (i : Nat) (c : Client) (type : ClientType) : Clients :=
  { s with created := s.created + 1 }.put i { c with type, info := some s.created }

/-- `server::deleteclientinfo(c->info)`. -/
def deleteclientinfo : Option Nat → Clients
  | none => s
  | some k => { s with released := s.released ++ [k] }

/-- `c->peer->data = NULL`. -/
def cleardata : Option Nat → Clients
  | none => s
  | some p => { s with data := Function.update s.data p none }

/-- A new client at the end of the table, its slot not taken yet. -/
def grow : Clients :=
  { s with clients := s.clients ++ [{ num := s.clients.length }] }

/-- `addclient(type)`: the first empty slot, or a new one, and where it is. -/
def addclient (type : ClientType) : Clients × Nat :=
  let i := (s.clients.findIdx? (·.type = .ST_EMPTY)).getD s.clients.length
  let s := if i < s.clients.length then s else s.grow
  match s.clients[i]? with
  | none => (s, i)
  | some c => ((s.occupy i c type).count type 1, i)

/-- `delclient(c)` for the client in a slot.  The peer is forgotten only where the slot is one of
TCP/IP, but so is every slot with a peer. -/
def delclient (i : Nat) : Clients :=
  match s.clients[i]? with
  | none => s
  | some c =>
    match c.type with
    | .ST_EMPTY => s
    | .ST_LOCAL => ((s.count .ST_LOCAL (-1)).deleteclientinfo c.info).put i { num := c.num }
    | .ST_TCPIP =>
      (((s.count .ST_TCPIP (-1)).cleardata c.peer).deleteclientinfo c.info).put i { num := c.num }

/-- `clients[n]` if `clients.inrange(n)` and the slot is one of TCP/IP. -/
def tcpip (n : Int) : Option Client :=
  if 0 ≤ n then s.clients[n.toNat]?.filter (·.type = .ST_TCPIP) else none

/-- `enet_peer_disconnect(peer, reason)`: the peer is asked to go, which ENet reports later. -/
def enet_peer_disconnect (peer : Option Nat) (reason : Disc) : Clients :=
  match peer with
  | none => s
  | some p => { s with asked := s.asked ++ [(p, reason)] }

/-- `disconnect_client(n, reason)`; `server::clientdisconnect(n)` takes the client out of the game
and does not come back to the table. -/
def disconnect_client (n : Int) (reason : Disc) : Clients :=
  match s.tcpip n with
  | none => s
  | some c => (s.enet_peer_disconnect c.peer reason).delclient n.toNat

/-- `dcres(n, reason)`: a kick with a text, which goes into the log and to the other clients. -/
def dcres (n : Int) : Clients :=
  match s.tcpip n with
  | none => s
  | some c => (s.enet_peer_disconnect c.peer .kick).delclient n.toNat

/-- `kicknonlocalclients(reason)`. -/
def kicknonlocalclients (reason : Disc) : Clients :=
  (List.range s.clients.length).foldl (fun s (i : Nat) =>
    match s.tcpip i with
    | none => s
    | some _ => s.disconnect_client i reason) s

/-- What the game asks of the table, at any time. -/
inductive Decision
  | disconnect_client (n : Int) (reason : Disc)
  | dcres (n : Int)
  | kicknonlocalclients (reason : Disc)
deriving DecidableEq, Repr

/-- What a decision does. -/
def perform : Decision → Clients
  | .disconnect_client n reason => s.disconnect_client n reason
  | .dcres n => s.dcres n
  | .kicknonlocalclients reason => s.kicknonlocalclients reason

/-- Decisions one after the other. -/
def performall (ds : List Decision) : Clients :=
  ds.foldl perform s

/-- The slot a peer belongs to: what its pointer says, else the first slot that names it. -/
def owner (peer : Nat) : Option Nat :=
  s.data peer <|> s.clients.findIdx? fun c => c.type = .ST_TCPIP ∧ c.peer = some peer

/-- `c.peer = event.peer` and `c.peer->data = &c`. -/
def attach (i : Nat) (peer : Nat) : Clients :=
  match s.clients[i]? with
  | none => s
  | some c =>
    { s with data := Function.update s.data peer (some i) }.put i { c with peer := some peer }

/-- What can happen to the table.  The decisions are those taken by `server::clientconnect` (it
looks over the bans of all clients) and `server::parsepacket` on the way, or at any other time;
`reason` is what the former returns, and `overread` whether the latter read over the end.  The
bots of the game have their clients elsewhere. -/
inductive Event
  | connect (peer : Nat) (ds : List Decision) (reason : Disc)
  | receive (peer : Nat) (ds : List Decision) (overread : Bool)
  | disconnect (peer : Nat)
  | update (ds : List Decision)
  | addlocal
  | dellocal (i : Nat)
  | addbot
  | delbot
deriving DecidableEq, Repr

/-- The `ENET_EVENT_TYPE_CONNECT` of `dispatch_enet_event`. -/
def connect (peer : Nat) (ds : List Decision) (reason : Disc) : Clients :=
  let a := { s with connected := Function.update s.connected peer true }.addclient .ST_TCPIP
  let s := (a.1.attach a.2 peer).performall ds
  if reason ≠ .none then s.disconnect_client a.2 reason else s

/-- `process(packet, sender, chan)`. -/
def process (sender : Nat) (ds : List Decision) (overread : Bool) : Clients :=
  let s := s.performall ds
  if overread then s.disconnect_client sender .eop else s

/-- The `ENET_EVENT_TYPE_RECEIVE` of `dispatch_enet_event`. -/
def receive (peer : Nat) (ds : List Decision) (overread : Bool) : Clients :=
  match (s.owner peer).bind fun i => s.clients[i]? with
  | none => s
  | some c => s.process c.num ds overread

/-- The `ENET_EVENT_TYPE_DISCONNECT` of `dispatch_enet_event`. -/
def disconnect (peer : Nat) : Clients :=
  let gone : Clients := { s with connected := Function.update s.connected peer false }
  match s.owner peer with
  | none => gone
  | some i => { gone with data := Function.update s.data peer none }.delclient i

/-- The table after an event. -/
def next (e : Event) : Clients :=
  match e with
  | .connect peer ds reason => s.connect peer ds reason
  | .receive peer ds overread => s.receive peer ds overread
  | .disconnect peer => s.disconnect peer
  | .update ds => s.performall ds
  | .addlocal => (s.addclient .ST_LOCAL).1
  | .dellocal i => s.delclient i
  | .addbot => s
  | .delbot => s

/-- What ENet promises: a peer is used for a new connection only after the end of its last one was
reported. -/
def Enet (s : Clients) : Event → Prop
  | .connect peer _ _ => s.connected peer = false
  | _ => True

instance (s : Clients) (e : Event) : Decidable (Enet s e) := by
  cases e <;> unfold Enet <;> infer_instance

variable {s : Clients}

/-! ## What a piece of an operation leaves alone -/

@[simp] theorem count_frame (type : ClientType) (d : Int) :
    (s.count type d).clients = s.clients ∧ (s.count type d).data = s.data ∧
      (s.count type d).created = s.created ∧ (s.count type d).released = s.released ∧
      (s.count type d).connected = s.connected := by
  cases type <;> exact ⟨rfl, rfl, rfl, rfl, rfl⟩

theorem count_counters (type : ClientType) (d : Int) :
    (s.count type d).nonlocalclients = s.nonlocalclients + (if type = .ST_TCPIP then d else 0) ∧
      (s.count type d).localclients = s.localclients + (if type = .ST_LOCAL then d else 0) := by
  cases type <;> simp [Clients.count]

@[simp] theorem cleardata_frame (p : Option Nat) :
    (s.cleardata p).clients = s.clients ∧
      (s.cleardata p).nonlocalclients = s.nonlocalclients ∧
      (s.cleardata p).localclients = s.localclients ∧ (s.cleardata p).created = s.created ∧
      (s.cleardata p).released = s.released ∧ (s.cleardata p).connected = s.connected := by
  cases p <;> exact ⟨rfl, rfl, rfl, rfl, rfl, rfl⟩

/-- Only the pointer of the peer is cleared. -/
theorem cleardata_data (p : Option Nat) (q : Nat) :
    (s.cleardata p).data q = if p = some q then none else s.data q := by
  cases p with
  | none => rfl
  | some p =>
    simp only [cleardata, Function.update_apply, Option.some.injEq]
    by_cases h : q = p
    · simp [h]
    · rw [if_neg h, if_neg (fun h' => h h'.symm)]

@[simp] theorem deleteclientinfo_frame (k : Option Nat) :
    (s.deleteclientinfo k).clients = s.clients ∧ (s.deleteclientinfo k).data = s.data ∧
      (s.deleteclientinfo k).nonlocalclients = s.nonlocalclients ∧
      (s.deleteclientinfo k).localclients = s.localclients ∧
      (s.deleteclientinfo k).created = s.created ∧
      (s.deleteclientinfo k).connected = s.connected := by
  cases k <;> exact ⟨rfl, rfl, rfl, rfl, rfl, rfl⟩

theorem deleteclientinfo_released (k : Option Nat) :
    (s.deleteclientinfo k).released = s.released ++ k.toList := by
  cases k with
  | none => exact (List.append_nil _).symm
  | some k => rfl

@[simp] theorem put_frame (i : Nat) (c : Client) :
    (s.put i c).clients = s.clients.set i c ∧ (s.put i c).data = s.data ∧
      (s.put i c).nonlocalclients = s.nonlocalclients ∧
      (s.put i c).localclients = s.localclients ∧ (s.put i c).created = s.created ∧
      (s.put i c).released = s.released ∧ (s.put i c).connected = s.connected :=
  ⟨rfl, rfl, rfl, rfl, rfl, rfl, rfl⟩

/-! ## Slots, counters and infos -/

/-- The slot at each place has its number, the counters are those of the slots, an empty slot holds
nothing, and the infos of the slots with those that were released are the ones created. -/
structure Counted (s : Clients) : Prop where
  num : ∀ (i : Nat) (c : Client), s.clients[i]? = some c → c.num = i
  nonlocalclients : s.nonlocalclients = (s.clients.countP (·.type = .ST_TCPIP) : Nat)
  localclients : s.localclients = (s.clients.countP (·.type = .ST_LOCAL) : Nat)
  empty : ∀ c ∈ s.clients, c.type = .ST_EMPTY → c.info = none ∧ c.peer = none
  occupied : ∀ c ∈ s.clients, c.type ≠ .ST_EMPTY → c.info.isSome
  infos : (s.clients.filterMap Client.info ++ s.released).Perm (List.range s.created)

/-- The table as one slot and the others. -/
theorem slot_perm {i : Nat} {c : Client} (h : s.clients[i]? = some c) :
    s.clients.Perm (c :: s.clients.eraseIdx i) := by
  obtain ⟨hi, rfl⟩ := List.getElem?_eq_some_iff.mp h
  exact (List.getElem_cons_eraseIdx_perm hi).symm

/-- The same after the slot is written. -/
theorem put_perm {i : Nat} {c : Client} (h : s.clients[i]? = some c) (d : Client) :
    (s.clients.set i d).Perm (d :: s.clients.eraseIdx i) := by
  obtain ⟨hi, -⟩ := List.getElem?_eq_some_iff.mp h
  exact List.set_perm_cons_eraseIdx hi d

theorem get_set {l : List Client} {i j : Nat} {d e : Client} (hj : (l.set i d)[j]? = some e) :
    (j = i ∧ e = d) ∨ (j ≠ i ∧ l[j]? = some e) := by
  rw [List.getElem?_set] at hj
  split at hj
  · next hij =>
    subst hij
    left
    split at hj
    · exact ⟨rfl, (Option.some.inj hj).symm⟩
    · cases hj
  · next hij =>
    right
    exact ⟨fun h => hij h.symm, hj⟩

theorem Counted.empty_table : Counted {} where
  num := by simp
  nonlocalclients := by simp
  localclients := by simp
  empty := by simp
  occupied := by simp
  infos := by simp

theorem Counted.grow (h : Counted s) : Counted s.grow where
  num := by
    intro i c hc
    simp only [Clients.grow] at hc
    by_cases hi : i < s.clients.length
    · rw [List.getElem?_append_left hi] at hc
      exact h.num i c hc
    · rw [List.getElem?_append_right (by omega)] at hc
      obtain ⟨hlt, rfl⟩ := List.getElem?_eq_some_iff.mp hc
      simp only [List.length_singleton] at hlt
      simp only [List.getElem_singleton]
      omega
  nonlocalclients := by
    simp [Clients.grow, h.nonlocalclients]
  localclients := by
    simp [Clients.grow, h.localclients]
  empty := by
    intro c hc ht
    rcases List.mem_append.mp hc with hc | hc
    · exact h.empty c hc ht
    · rw [List.mem_singleton.mp hc]
      exact ⟨rfl, rfl⟩
  occupied := by
    intro c hc ht
    rcases List.mem_append.mp hc with hc | hc
    · exact h.occupied c hc ht
    · exact absurd (by rw [List.mem_singleton.mp hc]) ht
  infos := by
    simpa [Clients.grow, List.filterMap_append] using h.infos

/-- One for a slot of the type. -/
def one (c : Client) (type : ClientType) : Int :=
  if c.type = type then 1 else 0

theorem countP_slot {i : Nat} {c : Client} (h : s.clients[i]? = some c) (type : ClientType) :
    (s.clients.countP (·.type = type) : Int) =
      one c type + ((s.clients.eraseIdx i).countP (·.type = type) : Nat) := by
  rw [(slot_perm h).countP_eq, List.countP_cons, one]
  by_cases ht : c.type = type
  · simp only [ht, decide_true, if_true]
    omega
  · simp [ht]

theorem countP_put {i : Nat} {c : Client} (h : s.clients[i]? = some c) (d : Client)
    (type : ClientType) : ((s.clients.set i d).countP (·.type = type) : Int) =
      one d type - one c type + (s.clients.countP (·.type = type) : Nat) := by
  rw [countP_slot h, (put_perm h d).countP_eq, List.countP_cons]
  have : (one d type : Int) = if d.type = type then 1 else 0 := rfl
  by_cases ht : d.type = type
  · simp only [ht, decide_true, if_true] at this ⊢
    omega
  · simp only [ht, decide_false, if_false] at this ⊢
    simp only [Bool.false_eq_true, if_false]
    omega

theorem infos_slot {i : Nat} {c : Client} (h : s.clients[i]? = some c) :
    (s.clients.filterMap Client.info).Perm
      (c.info.toList ++ (s.clients.eraseIdx i).filterMap Client.info) := by
  refine ((slot_perm h).filterMap _).trans ?_
  cases hc : c.info <;> simp [hc]

theorem infos_put {i : Nat} {c : Client} (h : s.clients[i]? = some c) (d : Client) :
    ((s.clients.set i d).filterMap Client.info).Perm
      (d.info.toList ++ (s.clients.eraseIdx i).filterMap Client.info) := by
  refine ((put_perm h d).filterMap _).trans ?_
  cases hd : d.info <;> simp [hd]

/-- What one slot may become, with the counters and the infos that go with it. -/
theorem Counted.write {t : Clients} {i : Nat} {c d : Client} (h : Counted s)
    (hc : s.clients[i]? = some c) (ht : t.clients = s.clients.set i d) (hnum : d.num = c.num)
    (hempty : d.type = .ST_EMPTY → d.info = none ∧ d.peer = none)
    (hocc : d.type ≠ .ST_EMPTY → d.info.isSome)
    (hn : t.nonlocalclients = one d .ST_TCPIP - one c .ST_TCPIP + s.nonlocalclients)
    (hl : t.localclients = one d .ST_LOCAL - one c .ST_LOCAL + s.localclients)
    (hinfos : ∀ rest, (c.info.toList ++ rest ++ s.released).Perm (List.range s.created) →
      (d.info.toList ++ rest ++ t.released).Perm (List.range t.created)) : Counted t where
  num := by
    intro j e he
    rw [ht] at he
    rcases get_set he with ⟨rfl, rfl⟩ | ⟨-, he⟩
    · rw [hnum]
      exact h.num _ c hc
    · exact h.num j e he
  nonlocalclients := by
    rw [hn, ht, countP_put hc, h.nonlocalclients]
  localclients := by
    rw [hl, ht, countP_put hc, h.localclients]
  empty := by
    intro e he hty
    obtain ⟨j, he⟩ := List.mem_iff_getElem?.mp he
    rw [ht] at he
    rcases get_set he with ⟨rfl, rfl⟩ | ⟨-, he⟩
    · exact hempty hty
    · exact h.empty e (List.mem_iff_getElem?.mpr ⟨j, he⟩) hty
  occupied := by
    intro e he hty
    obtain ⟨j, he⟩ := List.mem_iff_getElem?.mp he
    rw [ht] at he
    rcases get_set he with ⟨rfl, rfl⟩ | ⟨-, he⟩
    · exact hocc hty
    · exact h.occupied e (List.mem_iff_getElem?.mpr ⟨j, he⟩) hty
  infos := by
    have hold := ((infos_slot hc).append_right s.released).symm.trans h.infos
    rw [ht]
    exact ((infos_put hc d).append_right t.released).trans (hinfos _ hold)

/-- A slot that was given up becomes one of a type, with a new info. -/
theorem Counted.occupy {i : Nat} {c : Client} {type : ClientType} (h : Counted s)
    (hc : s.clients[i]? = some c) (hty : c.type = .ST_EMPTY) (htype : type ≠ .ST_EMPTY) :
    Counted ((s.occupy i c type).count type 1) := by
  have hinfo := (h.empty c (List.mem_iff_getElem?.mpr ⟨i, hc⟩) hty).1
  apply h.write (d := { c with type, info := some s.created }) hc
  · cases type <;> rfl
  · rfl
  · intro ht
    exact absurd ht htype
  · intro _
    rfl
  · simp only [count_counters, Clients.occupy, put_frame, one, hty]
    split <;> grind
  · simp only [count_counters, Clients.occupy, put_frame, one, hty]
    split <;> grind
  · intro rest hrest
    simp only [count_frame, Clients.occupy, put_frame, List.range_succ]
    rw [hinfo] at hrest
    simp only [Option.toList_none, List.nil_append] at hrest
    exact (hrest.cons s.created).trans (List.perm_append_singleton s.created _).symm

theorem delclient_of_type {i : Nat} {c : Client} (hc : s.clients[i]? = some c)
    (hty : c.type ≠ .ST_EMPTY) :
    s.delclient i = (((s.count c.type (-1)).cleardata
      (if c.type = .ST_TCPIP then c.peer else none)).deleteclientinfo c.info).put i
        { num := c.num } := by
  simp only [delclient, hc]
  cases ht : c.type with
  | ST_EMPTY => exact absurd ht hty
  | ST_LOCAL | ST_TCPIP => rfl

theorem delclient_of_empty {i : Nat} (h : ∀ c, s.clients[i]? = some c → c.type = .ST_EMPTY) :
    s.delclient i = s := by
  unfold delclient
  cases hc : s.clients[i]? with
  | none => rfl
  | some c => simp only [h c hc]

theorem delclient_connected (i : Nat) : (s.delclient i).connected = s.connected := by
  by_cases hall : ∀ c, s.clients[i]? = some c → c.type = .ST_EMPTY
  · rw [delclient_of_empty hall]
  · simp only [not_forall] at hall
    obtain ⟨c, hc, hty⟩ := hall
    rw [delclient_of_type hc hty]
    simp

/-- A slot that is given up becomes empty, its info released. -/
theorem Counted.delclient (h : Counted s) (i : Nat) : Counted (s.delclient i) := by
  by_cases hall : ∀ c, s.clients[i]? = some c → c.type = .ST_EMPTY
  · rwa [delclient_of_empty hall]
  · simp only [not_forall] at hall
    obtain ⟨c, hc, hty⟩ := hall
    rw [delclient_of_type hc hty]
    apply h.write (d := { num := c.num }) hc
    · simp
    · rfl
    · intro _
      exact ⟨rfl, rfl⟩
    · intro hne
      exact absurd rfl hne
    · simp only [put_frame, deleteclientinfo_frame, cleardata_frame, count_counters, one]
      split <;> grind
    · simp only [put_frame, deleteclientinfo_frame, cleardata_frame, count_counters, one]
      split <;> grind
    · intro rest hrest
      simp only [put_frame, deleteclientinfo_frame, cleardata_frame, count_frame,
        deleteclientinfo_released]
      refine List.Perm.trans ?_ hrest
      rw [Option.toList_none, List.nil_append, List.append_assoc, ← List.append_assoc rest]
      exact List.perm_append_comm

/-! ## Peers and their slots -/

/-- The pointer of a peer leads to the slot that names it, a slot that names a peer is one of
TCP/IP, and a peer with a slot is connected. -/
structure Linked (s : Clients) : Prop where
  data : ∀ p i, s.data p = some i ↔ ∃ c, s.clients[i]? = some c ∧ c.peer = some p
  type : ∀ c ∈ s.clients, c.peer.isSome → c.type = .ST_TCPIP
  connected : ∀ p i, s.data p = some i → s.connected p = true

theorem Linked.empty_table : Linked {} where
  data := by simp
  type := by simp
  connected := by simp

/-- A slot that names no peer any more: nothing points to it, the rest is as before. -/
theorem Linked.clear {t : Clients} {i : Nat} {c d : Client} (h : Linked s)
    (hc : s.clients[i]? = some c) (ht : t.clients = s.clients.set i d) (hd : d.peer = none)
    (hdata : ∀ p, t.data p = if c.peer = some p then none else s.data p)
    (hcon : t.connected = s.connected) : Linked t where
  data := by
    intro p j
    rw [hdata, ht]
    constructor
    · intro hp
      split at hp
      · cases hp
      · next hne =>
        obtain ⟨e, he, hpe⟩ := (h.data p j).mp hp
        have hij : i ≠ j := by
          rintro rfl
          rw [hc] at he
          obtain rfl := Option.some.inj he
          exact hne hpe
        exact ⟨e, by rw [List.getElem?_set_ne hij, he], hpe⟩
    · rintro ⟨e, he, hpe⟩
      rcases get_set he with ⟨rfl, rfl⟩ | ⟨hne, he⟩
      · rw [hd] at hpe
        cases hpe
      · have hp := (h.data p j).mpr ⟨e, he, hpe⟩
        rw [if_neg, hp]
        intro hcp
        have hi := (h.data p i).mpr ⟨c, hc, hcp⟩
        exact hne (Option.some.inj (hp.symm.trans hi))
  type := by
    intro e he hpe
    obtain ⟨j, he⟩ := List.mem_iff_getElem?.mp he
    rw [ht] at he
    rcases get_set he with ⟨rfl, rfl⟩ | ⟨-, he⟩
    · rw [hd] at hpe
      cases hpe
    · exact h.type e (List.mem_iff_getElem?.mpr ⟨j, he⟩) hpe
  connected := by
    intro p j hp
    rw [hdata] at hp
    split at hp
    · cases hp
    · rw [hcon]
      exact h.connected p j hp

theorem Linked.delclient (h : Linked s) (i : Nat) : Linked (s.delclient i) := by
  by_cases hall : ∀ c, s.clients[i]? = some c → c.type = .ST_EMPTY
  · rwa [delclient_of_empty hall]
  · simp only [not_forall] at hall
    obtain ⟨c, hc, hty⟩ := hall
    have hpeer : (if c.type = .ST_TCPIP then c.peer else none) = c.peer := by
      split
      · rfl
      · next hne =>
        cases hp : c.peer with
        | none => rfl
        | some p =>
          exact absurd (h.type c (List.mem_iff_getElem?.mpr ⟨i, hc⟩) (by rw [hp]; rfl)) hne
    rw [delclient_of_type hc hty, hpeer]
    apply h.clear (d := { num := c.num }) hc
    · simp
    · rfl
    · intro p
      simp [cleardata_data]
    · simp

theorem Linked.grow (h : Linked s) : Linked s.grow where
  data := by
    intro p j
    rw [show s.grow.data p = s.data p from rfl, h.data]
    constructor
    · rintro ⟨c, hc, hp⟩
      obtain ⟨hj, -⟩ := List.getElem?_eq_some_iff.mp hc
      exact ⟨c, by rw [Clients.grow, List.getElem?_append_left hj, hc], hp⟩
    · rintro ⟨c, hc, hp⟩
      refine ⟨c, ?_, hp⟩
      simp only [Clients.grow] at hc
      by_cases hj : j < s.clients.length
      · rwa [List.getElem?_append_left hj] at hc
      · rw [List.getElem?_append_right (by omega)] at hc
        have hmem := List.mem_of_getElem? hc
        rw [List.mem_singleton.mp hmem] at hp
        cases hp
  type := by
    intro c hc hp
    rcases List.mem_append.mp hc with hc | hc
    · exact h.type c hc hp
    · rw [List.mem_singleton.mp hc] at hp
      cases hp
  connected := h.connected

theorem Linked.occupy {i : Nat} {c : Client} {type : ClientType} (h : Linked s)
    (hc : s.clients[i]? = some c) (hp : c.peer = none) :
    Linked ((s.occupy i c type).count type 1) := by
  apply h.clear (d := { c with type, info := some s.created }) hc
  · simp [Clients.occupy]
  · exact hp
  · intro p
    simp [Clients.occupy, hp]
  · simp [Clients.occupy]

/-! ## Taking a slot -/

/-- The table is as it should be. -/
def Good (s : Clients) : Prop :=
  Counted s ∧ Linked s

/-- `addclient` takes an empty slot of the table, which may have grown. -/
theorem addclient_cases (s : Clients) (type : ClientType) :
    ∃ t i c, (t = s ∨ t = s.grow) ∧ t.clients[i]? = some c ∧ c.type = .ST_EMPTY ∧
      s.addclient type = ((t.occupy i c type).count type 1, i) := by
  cases hf : s.clients.findIdx? (·.type = .ST_EMPTY) with
  | none =>
    have hget : s.grow.clients[s.clients.length]? = some { num := s.clients.length } := by
      simp [Clients.grow]
    refine ⟨s.grow, s.clients.length, _, Or.inr rfl, hget, rfl, ?_⟩
    simp only [addclient, hf, Option.getD_none, Nat.lt_irrefl, if_false]
    rw [hget]
  | some i =>
    obtain ⟨hi, hty, -⟩ := List.findIdx?_eq_some_iff_getElem.mp hf
    have hget : s.clients[i]? = some s.clients[i] := List.getElem?_eq_getElem hi
    refine ⟨s, i, _, Or.inl rfl, hget, of_decide_eq_true hty, ?_⟩
    simp only [addclient, hf, Option.getD_some, hi, if_true]
    rw [hget]

theorem Good.grow (h : Good s) : Good s.grow :=
  ⟨h.1.grow, h.2.grow⟩

/-- The slot taken is of the type and names no peer. -/
theorem Good.addclient (h : Good s) {type : ClientType} (htype : type ≠ .ST_EMPTY) :
    Good (s.addclient type).1 ∧ (s.addclient type).1.connected = s.connected ∧
      (s.addclient type).1.data = s.data ∧
      ∃ c, (s.addclient type).1.clients[(s.addclient type).2]? = some c ∧
        c.type = type ∧ c.peer = none ∧ c.info.isSome := by
  obtain ⟨t, i, c, ht, hc, hty, heq⟩ := addclient_cases s type
  have hgood : Good t := by
    rcases ht with rfl | rfl
    · exact h
    · exact h.grow
  have hpeer := (hgood.1.empty c (List.mem_of_getElem? hc) hty).2
  have hlt := (List.getElem?_eq_some_iff.mp hc).1
  rw [heq]
  refine ⟨⟨hgood.1.occupy hc hty htype, hgood.2.occupy hc hpeer⟩, ?_, ?_, ?_⟩
  · rcases ht with rfl | rfl <;> simp [Clients.occupy, Clients.grow]
  · rcases ht with rfl | rfl <;> simp [Clients.occupy, Clients.grow]
  · refine ⟨{ c with type, info := some t.created }, ?_, rfl, hpeer, rfl⟩
    simp [Clients.occupy, hlt]

theorem attach_eq {i p : Nat} {c : Client} (hc : s.clients[i]? = some c) :
    s.attach i p = { s with data := Function.update s.data p (some i) }.put i
      { c with peer := some p } := by
  simp only [attach, hc]

/-- A slot of TCP/IP without a peer is given one that no slot has. -/
theorem Good.attach {i p : Nat} {c : Client} (h : Good s) (hc : s.clients[i]? = some c)
    (hty : c.type = .ST_TCPIP) (hinfo : c.info.isSome) (hpeer : c.peer = none)
    (hp : s.data p = none) (hcon : s.connected p = true) : Good (s.attach i p) := by
  rw [attach_eq hc]
  have hi := (List.getElem?_eq_some_iff.mp hc).1
  refine ⟨?_, ?_, ?_, ?_⟩
  · apply h.1.write (d := { c with peer := some p }) hc
    · rfl
    · rfl
    · intro hne
      rw [hty] at hne
      cases hne
    · intro _
      exact hinfo
    · simp [one]
    · simp [one]
    · intro rest hrest
      exact hrest
  · intro q j
    simp only [put_frame, Function.update_apply]
    constructor
    · intro hq
      split at hq
      · next hqp =>
        obtain rfl := Option.some.inj hq
        exact ⟨{ c with peer := some p }, by simp [hi], by rw [hqp]⟩
      · obtain ⟨e, he, hpe⟩ := (h.2.data q j).mp hq
        have hij : i ≠ j := by
          rintro rfl
          rw [hc] at he
          obtain rfl := Option.some.inj he
          rw [hpeer] at hpe
          cases hpe
        exact ⟨e, by rw [List.getElem?_set_ne hij, he], hpe⟩
    · rintro ⟨e, he, hpe⟩
      rcases get_set he with ⟨rfl, rfl⟩ | ⟨-, he⟩
      · rw [if_pos (Option.some.inj hpe).symm]
      · have hq := (h.2.data q j).mpr ⟨e, he, hpe⟩
        rw [if_neg, hq]
        rintro rfl
        rw [hp] at hq
        cases hq
  · intro e he hpe
    obtain ⟨j, he⟩ := List.mem_iff_getElem?.mp he
    rcases get_set he with ⟨-, rfl⟩ | ⟨-, he⟩
    · exact hty
    · exact h.2.type e (List.mem_of_getElem? he) hpe
  · intro q j hq
    simp only [put_frame, Function.update_apply] at hq
    split at hq
    · next hqp =>
      subst hqp
      exact hcon
    · exact h.2.connected q j hq

/-! ## Decisions and events -/

theorem Good.delclient (h : Good s) (i : Nat) : Good (s.delclient i) :=
  ⟨h.1.delclient i, h.2.delclient i⟩

theorem Good.enet_peer_disconnect (h : Good s) (peer : Option Nat) (reason : Disc) :
    Good (s.enet_peer_disconnect peer reason) := by
  cases peer with
  | none => exact h
  | some p => exact ⟨⟨h.1.1, h.1.2, h.1.3, h.1.4, h.1.5, h.1.6⟩, ⟨h.2.1, h.2.2, h.2.3⟩⟩

theorem Good.disconnect_client (h : Good s) (n : Int) (reason : Disc) :
    Good (s.disconnect_client n reason) := by
  unfold Clients.disconnect_client
  cases s.tcpip n with
  | none => exact h
  | some c => exact (h.enet_peer_disconnect c.peer reason).delclient n.toNat

theorem Good.dcres (h : Good s) (n : Int) : Good (s.dcres n) := by
  unfold Clients.dcres
  cases s.tcpip n with
  | none => exact h
  | some c => exact (h.enet_peer_disconnect c.peer .kick).delclient n.toNat

theorem Good.kicknonlocalclients (h : Good s) (reason : Disc) :
    Good (s.kicknonlocalclients reason) := by
  unfold Clients.kicknonlocalclients
  apply List.foldlRecOn (motive := Good) (List.range s.clients.length) _ h
  intro t ht i _
  cases t.tcpip i with
  | none => exact ht
  | some c => exact ht.disconnect_client i reason

theorem Good.perform (h : Good s) (d : Decision) : Good (s.perform d) := by
  cases d with
  | disconnect_client n reason => exact h.disconnect_client n reason
  | dcres n => exact h.dcres n
  | kicknonlocalclients reason => exact h.kicknonlocalclients reason

theorem Good.performall (h : Good s) (ds : List Decision) : Good (s.performall ds) :=
  List.foldlRecOn (motive := Good) ds _ h fun _ ht d _ => ht.perform d

/-- A peer that is not connected has no slot. -/
theorem Linked.data_none (h : Linked s) {p : Nat} (hp : s.connected p = false) :
    s.data p = none := by
  cases hd : s.data p with
  | none => rfl
  | some i =>
    rw [h.connected p i hd] at hp
    cases hp

/-- A connection that was not there before: ENet counts the peer among the connected ones. -/
theorem Good.connected (h : Good s) (p : Nat) :
    Good { s with connected := Function.update s.connected p true } := by
  refine ⟨⟨h.1.1, h.1.2, h.1.3, h.1.4, h.1.5, h.1.6⟩, ⟨h.2.1, h.2.2, ?_⟩⟩
  intro q i hq
  simp only [Function.update_apply]
  split
  · rfl
  · exact h.2.connected q i hq

theorem Good.connect {peer : Nat} (h : Good s) (hp : s.connected peer = false)
    (ds : List Decision) (reason : Disc) : Good (s.connect peer ds reason) := by
  obtain ⟨hgood, hcon, hdata, c, hc, hty, hpeer, hinfo⟩ :=
    (h.connected peer).addclient (show ClientType.ST_TCPIP ≠ .ST_EMPTY by simp)
  have hnone : (Clients.addclient { s with connected := Function.update s.connected peer true }
      .ST_TCPIP).1.data peer = none := by
    rw [hdata]
    exact h.2.data_none hp
  have hattach := hgood.attach hc hty hinfo hpeer hnone (by rw [hcon]; simp)
  unfold Clients.connect
  split
  · exact (hattach.performall ds).disconnect_client _ reason
  · exact hattach.performall ds

theorem Good.receive (h : Good s) (peer : Nat) (ds : List Decision) (overread : Bool) :
    Good (s.receive peer ds overread) := by
  unfold Clients.receive
  cases (s.owner peer).bind fun i => s.clients[i]? with
  | none => exact h
  | some c =>
    simp only [process]
    split
    · exact (h.performall ds).disconnect_client _ .eop
    · exact h.performall ds

/-- The search for a slot that names the peer is never needed. -/
theorem Linked.owner_eq (h : Linked s) (peer : Nat) : s.owner peer = s.data peer := by
  unfold owner
  cases hd : s.data peer with
  | some i => rfl
  | none =>
    apply List.findIdx?_eq_none_iff.mpr
    intro c hc
    apply decide_eq_false
    rintro ⟨-, hp⟩
    obtain ⟨i, hi⟩ := List.mem_iff_getElem?.mp hc
    have := (h.data peer i).mpr ⟨c, hi, hp⟩
    rw [hd] at this
    cases this

/-- A connection that ended, of a peer without a slot. -/
theorem Good.disconnected (h : Good s) {p : Nat} (hp : s.data p = none) :
    Good { s with connected := Function.update s.connected p false } := by
  refine ⟨⟨h.1.1, h.1.2, h.1.3, h.1.4, h.1.5, h.1.6⟩, ⟨h.2.1, h.2.2, ?_⟩⟩
  intro q i hq
  simp only [Function.update_apply]
  split
  · next hqp =>
    subst hqp
    rw [hp] at hq
    cases hq
  · exact h.2.connected q i hq

/-- `delclient` clears the pointer that `dispatch_enet_event` has cleared before. -/
theorem Linked.delclient_cleared {peer i : Nat} (h : Linked s) (hi : s.data peer = some i)
    (connected : Nat → Bool) :
    Clients.delclient { s with data := Function.update s.data peer none, connected } i =
      { s.delclient i with connected } ∧ (s.delclient i).data peer = none := by
  obtain ⟨c, hc, hp⟩ := (h.data peer i).mp hi
  have hty : c.type = .ST_TCPIP := h.type c (List.mem_of_getElem? hc) (by rw [hp]; rfl)
  have hne : c.type ≠ .ST_EMPTY := by
    rw [hty]
    simp
  constructor
  · rw [delclient_of_type hc hne, delclient_of_type (by exact hc) hne, hty, hp]
    cases c.info <;>
      simp [count, cleardata, deleteclientinfo, put]
  · rw [delclient_of_type hc hne, if_pos hty, hp]
    simp [cleardata_data]

theorem Good.disconnect (h : Good s) (peer : Nat) : Good (s.disconnect peer) := by
  simp only [Clients.disconnect]
  rw [h.2.owner_eq]
  cases hd : s.data peer with
  | none => exact h.disconnected hd
  | some i =>
    obtain ⟨heq, hnone⟩ :=
      h.2.delclient_cleared hd (Function.update s.connected peer false)
    have hgone := (h.delclient i).disconnected hnone
    rw [delclient_connected] at hgone
    dsimp only
    rw [heq]
    exact hgone

/-- One event keeps the table as it should be. -/
theorem Good.next {e : Event} (h : Good s) (he : Enet s e) : Good (s.next e) := by
  cases e with
  | connect peer ds reason => exact h.connect he ds reason
  | receive peer ds overread => exact h.receive peer ds overread
  | disconnect peer => exact h.disconnect peer
  | update ds => exact h.performall ds
  | addlocal => exact (h.addclient (show ClientType.ST_LOCAL ≠ .ST_EMPTY by simp)).1
  | dellocal i => exact h.delclient i
  | addbot => exact h
  | delbot => exact h

/-- The client table is consistent: the number of each slot, the counters, the empty slots, the
infos, each of which is either in one slot or was released once, and the peers, no two of them the
same in two slots. -/
structure Consistent (s : Clients) : Prop where
  num : ∀ (i : Nat) (c : Client), s.clients[i]? = some c → c.num = i
  nonlocalclients : s.nonlocalclients = (s.clients.countP (·.type = .ST_TCPIP) : Nat)
  localclients : s.localclients = (s.clients.countP (·.type = .ST_LOCAL) : Nat)
  empty : ∀ c ∈ s.clients, c.type = .ST_EMPTY → c.info = none ∧ c.peer = none
  occupied : ∀ c ∈ s.clients, c.type ≠ .ST_EMPTY → c.info.isSome
  infos : (s.clients.filterMap Client.info ++ s.released).Perm (List.range s.created)
  peers : ∀ (i j : Nat) (c d : Client) (p : Nat), s.clients[i]? = some c →
    s.clients[j]? = some d → c.peer = some p → d.peer = some p → i = j

theorem Good.consistent (h : Good s) : Consistent s where
  num := h.1.num
  nonlocalclients := h.1.nonlocalclients
  localclients := h.1.localclients
  empty := h.1.empty
  occupied := h.1.occupied
  infos := h.1.infos
  peers := by
    intro i j c d p hc hd hpc hpd
    have hi := (h.2.data p i).mpr ⟨c, hc, hpc⟩
    have hj := (h.2.data p j).mpr ⟨d, hd, hpd⟩
    rw [hi] at hj
    exact Option.some.inj hj

end Clients

open Clients Run

/-- **The table stays consistent**: whatever ENet reports and the server decides, in whatever
order, as long as ENet gives a peer to one connection at a time. -/
theorem clients_consistent {es : List Clients.Event} {s : Clients}
    (hrun : Steps (fun s e => (Except.ok (s.next e) : Except Empty Clients)) Enet {} es s) :
    s.Consistent := by
  have hgood : Good s := by
    apply hrun.invariant Good
    · intro s e t hs he ht
      obtain rfl := Except.ok.inj ht
      exact hs.next he
    · exact ⟨.empty_table, .empty_table⟩
  exact hgood.consistent

/-- Peer 4 is kicked and peer 7 takes its slot before the end of that connection is reported; the
next one of peer 4 costs peer 7 its slot and is refused. -/
theorem clients_consistent_reused :
    ∃ s, Steps (fun s e => (Except.ok (s.next e) : Except Empty Clients)) Enet {}
      [.connect 4 [] .none, .update [.disconnect_client 0 .kick], .connect 7 [] .none,
        .disconnect 4, .connect 4 [.dcres 0] .ipban, .disconnect 7] s ∧
      s.released = [0, 1, 2] ∧ s.Consistent := by
  obtain ⟨s, hrun, hs⟩ := Steps.of_execIf
    (fun s e => (Except.ok (s.next e) : Except Empty Clients)) Enet {}
    [.connect 4 [] .none, .update [.disconnect_client 0 .kick], .connect 7 [] .none,
      .disconnect 4, .connect 4 [.dcres 0] .ipban, .disconnect 7]
    (p := fun s => s.released = [0, 1, 2]) (by decide +kernel)
  exact ⟨s, hrun, hs, clients_consistent hrun⟩

end QServ
