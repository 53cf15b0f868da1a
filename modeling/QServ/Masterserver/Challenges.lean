import Mathlib.Logic.Function.Basic
import QServ.Lib.Expiry
import QServ.Lib.Ledger
import QServ.Lib.Run
import QServ.Masterserver.State
import QServ.Shared.Challenge

/-!
# The challenges of the master server

`purgeauths`, `reqauth` and `confauth` of `engine/masterserver.cpp`: each client has a queue of
challenges, which are answered, expire from the front, or are evicted when the queue is full.

* `Justified`: which notes may follow a history of challenges.
* `resolve_spec`: what becomes of a challenge that leaves its queue.
* `challenges_once`: every challenge is resolved at most once, its answer is freed then, and
  `succauth` is the reply to an answer to the oldest challenge with that number.
-/

namespace QServ

namespace Masterserver

open Function

/-- `AUTH_TIME`. -/
def AUTH_TIME : UInt32 := 30000

/-- `AUTH_LIMIT`. -/
def AUTH_LIMIT : Nat := 100

/-- `AUTH_THROTTLE`. -/
def AUTH_THROTTLE : UInt32 := 1000

/-! ## State -/

/-- What makes and checks challenges. -/
structure Crypto where
  Key : Type
  Answer : Type
  /-- The text and the answer for a public key, from `starttime`, `servtime` and `randomMT()`. -/
  genchallenge : Key → UInt32 → UInt32 → UInt32 → List UInt8 × Answer
  checkchallenge : List UInt8 → Answer → Bool

/-- The four bytes of a number in memory. -/
def bytes32 (n : UInt32) : List UInt8 :=
  [n.toUInt8, (n >>> 8).toUInt8, (n >>> 16).toUInt8, (n >>> 24).toUInt8]

/-- The functions of `shared/crypto.cpp`. -/
def ecc (sizeofptr : Nat) : Crypto where
  Key := Ecjacobian
  Answer := Gfield
  genchallenge pubkey starttime servtime random :=
    let seed := bytes32 starttime ++ bytes32 servtime ++ bytes32 random
    let challenge := QServ.genchallenge sizeofptr pubkey (fun i => seed.getD i 0) 12
    (challenge.1.map fun c => UInt8.ofNat c.toNat, challenge.2)
  checkchallenge val correct := QServ.checkchallenge (val.map fun c => Char.ofNat c.toNat) correct

/-- Every answer can be given. -/
theorem exists_accepted (sizeofptr : Nat) (x : Gfield) :
    ∃ val, (ecc sizeofptr).checkchallenge val x = true := by
  refine ⟨x.printdigits.map fun c => UInt8.ofNat c.toNat, ?_⟩
  have hchars : (x.printdigits.map fun c => UInt8.ofNat c.toNat).map (fun c => Char.ofNat c.toNat) =
      x.printdigits := by
    rw [List.map_map]
    refine (List.map_congr_left fun c hc => ?_).trans (List.map_id _)
    have hdigit := Bigint.isxdigit_printdigits x.digits c hc
    have hlt : c.toNat < 2 ^ 8 := by
      simp only [isxdigit, isdigit, Bool.or_eq_true, Bool.and_eq_true, decide_eq_true_eq] at hdigit
      omega
    rw [Function.comp_apply, UInt8.toNat_ofNat_of_lt' hlt, Char.ofNat_toNat, id]
  exact (congrArg (QServ.checkchallenge · x) hchars).trans (checkchallenge_printdigits x)

/-- `authreq`; `answer` is the pointer. -/
structure Authreq where
  reqtime : UInt32
  id : Nat
  answer : Nat
deriving DecidableEq, Repr

/-- A line for the client. -/
inductive Reply where
  | failauth (id : Nat)
  | chalauth (id : Nat) (text : List UInt8)
  | succauth (id : Nat)
deriving DecidableEq, Repr

/-- Why a challenge leaves its queue. -/
inductive Outcome where
  | answered (val : List UInt8) (accepted : Bool)
  | expired
  | evicted
deriving DecidableEq, Repr

/-- What happens, in order: a confirmation arrives, a challenge is added to a queue, one is taken
out of it, and a line is output. -/
inductive Note (A : Type) where
  | asked (conn id : Nat) (val : List UInt8)
  | issued (conn : Nat) (req : Authreq) (answer : A)
  | resolved (conn : Nat) (req : Authreq) (how : Outcome) (time : UInt32)
  | output (conn : Nat) (reply : Reply)

/-- A challenge of a connection has expired, or its failure is reported. -/
def Note.Expires {A : Type} (conn : Nat) : Note A → Prop
  | .resolved c _ .expired _ => c = conn
  | .output c (.failauth _) => c = conn
  | _ => False

/-- The fields of `client` that belong to challenges. -/
structure Authclient where
  lastauth : UInt32 := 0
  authreqs : List Authreq := []
deriving DecidableEq, Repr

/-- The master server, with its connections numbered as they are accepted.  `answers` is the memory
that `genchallenge` has allocated, the next piece of it at `allocated`; the log is no variable of
the source. -/
structure Challenges (K : Crypto) where
  starttime : UInt32
  servtime : UInt32 := 0
  users : List UInt8 → Option K.Key
  accepted : Nat := 0
  clients : List Nat := []
  client : Nat → Authclient := fun _ => {}
  allocated : Nat := 0
  answers : Nat → Option K.Answer := fun _ => none
  log : List (Note K.Answer) := []

/-- What must not happen to memory: a piece is used or freed that is not allocated. -/
inductive HeapFault where
  | useAfterFree
  | doubleFree
deriving DecidableEq, Repr

namespace Challenges

variable {K : Crypto} (s : Challenges K) (conn : Nat)

/-! ## Operations -/

def note (n : Note K.Answer) : Challenges K := { s with log := s.log ++ [n] }

/-- `outputf`. -/
def outputf (reply : Reply) : Challenges K := s.note (.output conn reply)

def setauthreqs (reqs : List Authreq) : Challenges K :=
  { s with client := update s.client conn { s.client conn with authreqs := reqs } }

/-- `freechallenge(answer)`. -/
def freechallenge (answer : Nat) : Except HeapFault (Challenges K) :=
  match s.answers answer with
  | none => .error .doubleFree
  | some _ => .ok { s with answers := update s.answers answer none }

/-- A challenge is taken out of a queue: the reply, `freechallenge` and the queue without it. -/
def resolve (a : Authreq) (rest : List Authreq) (how : Outcome) (reply : Reply) :
    Except HeapFault (Challenges K) :=
  (((s.note (.resolved conn a how s.servtime)).outputf conn reply).freechallenge a.answer).map
    fun s => s.setauthreqs conn rest

/-- The loop of `purgeauths` over a queue. -/
def purge (conn : Nat) : List Authreq → Challenges K → Except HeapFault (Challenges K)
  | [], s => .ok s
  | a :: rest, s =>
    if AUTH_TIME ≤ timeDifference s.servtime a.reqtime then
      (s.resolve conn a rest .expired (.failauth a.id)).bind (purge conn rest)
    else .ok s

/-- `purgeauths(c)`. -/
def purgeauths : Except HeapFault (Challenges K) := purge conn (s.client conn).authreqs s

/-- The oldest challenge leaves a queue that is full. -/
def evict : Except HeapFault (Challenges K) :=
  match (s.client conn).authreqs with
  | a :: rest =>
    if AUTH_LIMIT ≤ rest.length + 1 then s.resolve conn a rest .evicted (.failauth a.id) else .ok s
  | [] => .ok s

/-- A challenge for a user is added. -/
def issue (id : Nat) (u : K.Key) (random : UInt32) : Challenges K :=
  let (text, answer) := K.genchallenge u s.starttime s.servtime random
  let a := { reqtime := s.servtime, id, answer := s.allocated }
  (({ s with
      answers := update s.answers s.allocated (some answer)
      allocated := s.allocated + 1 }.setauthreqs conn
        ((s.client conn).authreqs ++ [a])).note (.issued conn a answer)).outputf conn
    (.chalauth id text)

/-- `reqauth(c, id, name)`. -/
def reqauth (id : Nat) (name : List UInt8) (random : UInt32) : Except HeapFault (Challenges K) :=
  if timeDifference s.servtime (s.client conn).lastauth < AUTH_THROTTLE then .ok s
  else
    let s :=
      { s with client := update s.client conn { s.client conn with lastauth := s.servtime } }
    (s.purgeauths conn).bind fun s =>
      match s.users name with
      | none => .ok (s.outputf conn (.failauth id))
      | some u => (s.evict conn).map fun s => s.issue conn id u random

/-- The loop of `confauth` behind the challenges that have another number. -/
def confirm (conn id : Nat) (val : List UInt8) (s : Challenges K) (seen : List Authreq) :
    List Authreq → Except HeapFault (Challenges K)
  | [] => .ok (s.outputf conn (.failauth id))
  | a :: rest =>
    if a.id = id then
      match s.answers a.answer with
      | none => .error .useAfterFree
      | some correct =>
        if K.checkchallenge val correct then
          s.resolve conn a (seen ++ rest) (.answered val true) (.succauth id)
        else s.resolve conn a (seen ++ rest) (.answered val false) (.failauth id)
    else confirm conn id val s (seen ++ [a]) rest

/-- `confauth(c, id, val)`. -/
def confauth (id : Nat) (val : List UInt8) : Except HeapFault (Challenges K) :=
  ((s.note (.asked conn id val)).purgeauths conn).bind fun s =>
    confirm conn id val s [] (s.client conn).authreqs

/-- What happens.  A round of the main loop reads the clock, which has advanced, perhaps across its
end, and goes through the queues of all clients; a connection is accepted or closed; a client sends
a command; the users are read again. -/
inductive Event (K : Crypto) where
  | round (advance : UInt32)
  | accept
  | purgeclient (conn : Nat)
  | reqauth (conn id : Nat) (name : List UInt8) (random : UInt32)
  | confauth (conn id : Nat) (val : List UInt8)
  | reload (users : List UInt8 → Option K.Key)

/-- One event; a connection that is closed sends nothing. -/
def step (s : Challenges K) : Event K → Except HeapFault (Challenges K)
  | .round advance =>
    let s := { s with servtime := s.servtime + advance }
    s.clients.foldlM purgeauths s
  | .accept =>
    .ok { s with
      clients := s.clients ++ [s.accepted]
      client := update s.client s.accepted {}
      accepted := s.accepted + 1 }
  | .purgeclient conn => .ok { s with clients := s.clients.filter (· ≠ conn) }
  | .reqauth conn id name random =>
    if conn ∈ s.clients then s.reqauth conn id name random else .ok s
  | .confauth conn id val => if conn ∈ s.clients then s.confauth conn id val else .ok s
  | .reload users => .ok { s with users }

/-! ## Lawful histories -/

/-- How the log issues and resolves challenges. -/
def ledger (A : Type) : Ledger (Note A) Nat Authreq Nat where
  issue
    | .issued conn req _ => some (conn, req)
    | _ => none
  settle
    | .resolved _ req _ _ => some req.answer
    | _ => none
  key := Authreq.answer

variable {A : Type} (check : List UInt8 → A → Bool)

/-- An answer has arrived on a connection, and since then only expired challenges have been dealt
with. -/
def Answering (conn id : Nat) (val : List UInt8) (log : List (Note A)) : Prop :=
  ∃ before purged, log = before ++ .asked conn id val :: purged ∧ ∀ n ∈ purged, n.Expires conn

/-- What may follow a history: a challenge is resolved for a reason, and `succauth` is output for
one that has just been answered rightly. -/
def Justified (log : List (Note A)) : Note A → Prop
  | .resolved conn req how time => ∃ older newer,
      (ledger A).opens conn log = older ++ req :: newer ∧
      match how with
      | .answered val accepted => (∀ b ∈ older, b.id ≠ req.id) ∧ Answering conn req.id val log ∧
          ∃ answer, .issued conn req answer ∈ log ∧ check val answer = accepted
      | .expired => older = [] ∧ AUTH_TIME ≤ timeDifference time req.reqtime
      | .evicted => older = [] ∧ AUTH_LIMIT ≤ newer.length + 1
  | .output conn (.succauth id) => ∃ req val time,
      log.getLast? = some (.resolved conn req (.answered val true) time) ∧ req.id = id
  | _ => True

/-- The log is lawful, the queue of a client holds what is open for him, and the memory of an
answer is allocated until its challenge is resolved. -/
structure Inv (s : Challenges K) : Prop where
  lawful : Ledger.Lawful (Justified K.checkchallenge) s.log
  sound : (ledger K.Answer).Sound s.log
  queue : ∀ conn ∈ s.clients, (s.client conn).authreqs = (ledger K.Answer).opens conn s.log
  stored : ∀ conn req answer, .issued conn req answer ∈ s.log →
    s.answers req.answer =
      if req.answer ∈ (ledger K.Answer).settled s.log then none else some answer
  allocated : ∀ k ∈ (ledger K.Answer).keys s.log, k < s.allocated
  conns : ∀ p ∈ (ledger K.Answer).issued s.log, p.1 < s.accepted
  clients : ∀ conn ∈ s.clients, conn < s.accepted

variable {s} {conn}

/-- A note that neither issues nor resolves a challenge. -/
theorem Inv.note (h : s.Inv) {n : Note K.Answer} (hi : (ledger K.Answer).issue n = none)
    (hs : (ledger K.Answer).settle n = none) (hn : Justified K.checkchallenge s.log n) :
    (s.note n).Inv where
  lawful := h.lawful.snoc hn
  sound := h.sound.quiet hi hs
  queue conn hconn := (h.queue conn hconn).trans (Ledger.opens_quiet hi hs conn).symm
  stored conn req answer hmem := by
    obtain hmem | hmem := List.mem_append.mp hmem
    · rw [Challenges.note, Ledger.settled_quiet hs]
      exact h.stored conn req answer hmem
    · rw [← List.mem_singleton.mp hmem] at hi
      cases hi
  allocated k hk := by
    rw [Challenges.note, Ledger.keys, Ledger.issued_quiet hi] at hk
    exact h.allocated k hk
  conns p hp := by
    rw [Challenges.note, Ledger.issued_quiet hi] at hp
    exact h.conns p hp
  clients := h.clients

/-! ## What the operations do -/

/-- A connection has another queue, and the log has grown. -/
structure Left (s : Challenges K) (conn : Nat) (reqs : List Authreq) (new : List (Note K.Answer))
    (t : Challenges K) : Prop where
  servtime : t.servtime = s.servtime
  clients : t.clients = s.clients
  authreqs : (t.client conn).authreqs = reqs
  others : ∀ c, c ≠ conn → t.client c = s.client c
  log : t.log = s.log ++ new

theorem Left.refl (s : Challenges K) (conn : Nat) : Left s conn (s.client conn).authreqs [] s :=
  ⟨rfl, rfl, rfl, fun _ _ => rfl, (List.append_nil _).symm⟩

theorem Left.note (s : Challenges K) (conn : Nat) (n : Note K.Answer) :
    Left s conn (s.client conn).authreqs [n] (s.note n) :=
  ⟨rfl, rfl, rfl, fun _ _ => rfl, rfl⟩

theorem Left.trans {reqs reqs' : List Authreq} {new new' : List (Note K.Answer)}
    {t u : Challenges K} (h : Left s conn reqs new t) (h' : Left t conn reqs' new' u) :
    Left s conn reqs' (new ++ new') u where
  servtime := h'.servtime.trans h.servtime
  clients := h'.clients.trans h.clients
  authreqs := h'.authreqs
  others c hc := (h'.others c hc).trans (h.others c hc)
  log := by rw [h'.log, h.log, List.append_assoc]

variable {older newer : List Authreq} {a : Authreq} {how : Outcome} {reply : Reply}

theorem mem_log_of_issued {log : List (Note A)} (h : (conn, a) ∈ (ledger A).issued log) :
    ∃ answer, .issued conn a answer ∈ log := by
  obtain ⟨n, hn, heq⟩ := List.mem_filterMap.mp h
  cases n <;> cases heq
  exact ⟨_, hn⟩

theorem issued_of_mem_log {log : List (Note A)} {answer : A}
    (h : .issued conn a answer ∈ log) : (conn, a) ∈ (ledger A).issued log :=
  List.mem_filterMap.mpr ⟨_, h, rfl⟩

/-- A challenge of a queue is open. -/
theorem Inv.pending (h : s.Inv) (hconn : conn ∈ s.clients) (ha : a ∈ (s.client conn).authreqs) :
    (conn, a) ∈ (ledger K.Answer).issued s.log ∧
      a.answer ∉ (ledger K.Answer).settled s.log ∧
      ∃ answer, .issued conn a answer ∈ s.log ∧ s.answers a.answer = some answer := by
  rw [h.queue conn hconn] at ha
  obtain ⟨hissued, hopen⟩ := Ledger.mem_opens.mp ha
  obtain ⟨answer, hn⟩ := mem_log_of_issued hissued
  exact ⟨hissued, hopen, answer, hn, (h.stored conn a answer hn).trans (if_neg hopen)⟩

/-- A challenge is taken out of its queue. -/
theorem Inv.resolved (h : s.Inv) (hconn : conn ∈ s.clients)
    (hqueue : (s.client conn).authreqs = older ++ a :: newer)
    (hjust : Justified K.checkchallenge s.log (.resolved conn a how s.servtime)) :
    ({ (s.note (.resolved conn a how s.servtime)).setauthreqs conn (older ++ newer) with
      answers := update s.answers a.answer none } : Challenges K).Inv := by
  have hopens := (h.queue conn hconn).symm.trans hqueue
  obtain ⟨hissued, hopen, -⟩ := h.pending hconn (hqueue ▸ List.mem_append_right _ List.mem_cons_self)
  have hi : (ledger K.Answer).issue (.resolved conn a how s.servtime) = none := rfl
  have hs : (ledger K.Answer).settle (.resolved conn a how s.servtime) =
      some ((ledger K.Answer).key a) := rfl
  refine ⟨h.lawful.snoc hjust, h.sound.settle hi hs hissued hopen, fun c hc => ?_,
    fun c req answer hmem => ?_, fun k hk => ?_, fun p hp => ?_, h.clients⟩
  · by_cases hcc : c = conn
    · subst hcc
      exact (congrArg Authclient.authreqs (update_self ..)).trans
        (h.sound.opens_settle_self hi hs hopens).symm
    · exact ((congrArg Authclient.authreqs (update_of_ne hcc ..)).trans (h.queue c hc)).trans
        (h.sound.opens_settle_other hi hs hissued hcc).symm
  · have hmem : .issued c req answer ∈ s.log := by
      obtain hmem | hmem := List.mem_append.mp hmem
      · exact hmem
      · cases List.mem_singleton.mp hmem
    have hsettled : (ledger K.Answer).settled (s.log ++ [.resolved conn a how s.servtime]) =
        (ledger K.Answer).settled s.log ++ [a.answer] := Ledger.settled_settle hs
    have hstored := h.stored c req answer hmem
    change update s.answers a.answer none req.answer =
      if req.answer ∈ (ledger K.Answer).settled (s.log ++ [_]) then none else some answer
    rw [hsettled]
    by_cases heq : req.answer = a.answer
    · rw [heq, update_self, if_pos (List.mem_append_right _ (List.mem_singleton_self _))]
    · rw [update_of_ne heq, hstored]
      have hiff : req.answer ∈ (ledger K.Answer).settled s.log ++ [a.answer] ↔
          req.answer ∈ (ledger K.Answer).settled s.log := by
        rw [List.mem_append, List.mem_singleton]
        exact or_iff_left heq
      simp only [hiff]
  · refine h.allocated k ?_
    rwa [Ledger.keys, ← Ledger.issued_quiet hi]
  · refine h.conns p ?_
    rwa [← Ledger.issued_quiet hi]

/-- **A challenge leaves its queue** for a reason. -/
theorem resolve_spec (older : List Authreq) (reply : Reply) (h : s.Inv)
    (hconn : conn ∈ s.clients) (hqueue : (s.client conn).authreqs = older ++ a :: newer)
    (hjust : Justified K.checkchallenge s.log (.resolved conn a how s.servtime))
    (hreply : ∀ id, reply = .succauth id → ∃ val, how = .answered val true ∧ a.id = id) :
    ∃ t, s.resolve conn a (older ++ newer) how reply = .ok t ∧ t.Inv ∧
      Left s conn (older ++ newer) [.resolved conn a how s.servtime, .output conn reply] t := by
  obtain ⟨-, -, answer, -, hstored⟩ :=
    h.pending hconn (hqueue ▸ List.mem_append_right _ List.mem_cons_self)
  have hfree : s.resolve conn a (older ++ newer) how reply =
      .ok (({ (s.note (.resolved conn a how s.servtime)).setauthreqs conn (older ++ newer) with
        answers := update s.answers a.answer none } : Challenges K).note (.output conn reply)) := by
    simp only [resolve, freechallenge, outputf, Challenges.note, hstored]
    rfl
  refine ⟨_, hfree, (h.resolved hconn hqueue hjust).note rfl rfl ?_, rfl, rfl, ?_, ?_, ?_⟩
  · cases reply with
    | succauth id =>
      obtain ⟨val, rfl, hid⟩ := hreply id rfl
      exact ⟨a, val, s.servtime, List.getLast?_concat, hid⟩
    | failauth id => trivial
    | chalauth id text => trivial
  · simp [Challenges.note, setauthreqs]
  · exact fun c hc => update_of_ne hc ..
  · exact List.append_assoc _ _ _

/-- `ENET_TIME_DIFFERENCE(time, a.reqtime) >= AUTH_TIME`. -/
def expired (time : UInt32) (a : Authreq) : Bool :=
  decide (AUTH_TIME ≤ timeDifference time a.reqtime)

/-- **`purgeauths`** takes those that have expired from the front. -/
theorem purge_spec (conn : Nat) (l : List Authreq) (s : Challenges K) (h : s.Inv)
    (hconn : conn ∈ s.clients) (hqueue : (s.client conn).authreqs = l) :
    ∃ t new, purge conn l s = .ok t ∧ t.Inv ∧
      Left s conn (l.dropWhile (expired s.servtime)) new t ∧ ∀ n ∈ new, n.Expires conn := by
  induction l generalizing s with
  | nil =>
    have hleft := Left.refl s conn
    rw [hqueue] at hleft
    exact ⟨s, [], rfl, h, hleft, nofun⟩
  | cons a rest ih =>
    by_cases hexp : AUTH_TIME ≤ timeDifference s.servtime a.reqtime
    · have hjust : Justified K.checkchallenge s.log (.resolved conn a .expired s.servtime) :=
        ⟨[], rest, (h.queue conn hconn).symm.trans hqueue, rfl, hexp⟩
      obtain ⟨t, ht, hinv, hleft⟩ := resolve_spec [] (.failauth a.id) h hconn hqueue
        hjust nofun
      obtain ⟨u, new, hu, hinv', hleft', hnew⟩ :=
        ih t hinv (hleft.clients ▸ hconn) hleft.authreqs
      rw [hleft.servtime] at hleft'
      refine ⟨u, [.resolved conn a .expired s.servtime, .output conn (.failauth a.id)] ++ new, ?_,
        hinv', ?_, ?_⟩
      · unfold purge
        rw [if_pos hexp]
        exact (congrArg (Except.bind · _) ht).trans hu
      · rw [List.dropWhile_cons_of_pos (by simpa [expired] using hexp)]
        exact hleft.trans hleft'
      · intro n hn
        simp only [List.mem_append, List.mem_cons, List.not_mem_nil, or_false] at hn
        obtain (rfl | rfl) | hn := hn
        · rfl
        · rfl
        · exact hnew n hn
    · refine ⟨s, [], ?_, h, ?_, nofun⟩
      · unfold purge
        rw [if_neg hexp]
      · rw [List.dropWhile_cons_of_neg (by simpa [expired] using hexp), ← hqueue]
        exact Left.refl s conn

theorem purgeauths_spec (h : s.Inv) (hconn : conn ∈ s.clients) :
    ∃ t new, s.purgeauths conn = .ok t ∧ t.Inv ∧
      Left s conn ((s.client conn).authreqs.dropWhile (expired s.servtime)) new t ∧
        ∀ n ∈ new, n.Expires conn :=
  purge_spec conn _ s h hconn rfl

/-- No answer to a challenge is among some notes. -/
def Unanswered (new : List (Note A)) : Prop :=
  ∀ c req val accepted time, .resolved c req (.answered val accepted) time ∉ new

theorem unanswered_of_expires {new : List (Note A)} (h : ∀ n ∈ new, n.Expires conn) :
    Unanswered new := fun _ _ _ _ _ hmem => h _ hmem

/-- The oldest is evicted from a full queue. -/
theorem evict_spec (h : s.Inv) (hconn : conn ∈ s.clients) :
    ∃ t reqs new, s.evict conn = .ok t ∧ t.Inv ∧ Left s conn reqs new t ∧
      reqs.Sublist (s.client conn).authreqs ∧ Unanswered new := by
  unfold evict
  split
  · next a rest hqueue =>
    by_cases hfull : AUTH_LIMIT ≤ rest.length + 1
    · have hjust : Justified K.checkchallenge s.log (.resolved conn a .evicted s.servtime) :=
        ⟨[], rest, (h.queue conn hconn).symm.trans hqueue, rfl, hfull⟩
      obtain ⟨t, ht, hinv, hleft⟩ := resolve_spec [] (.failauth a.id) h hconn hqueue
        hjust nofun
      rw [if_pos hfull]
      refine ⟨t, _, _, ht, hinv, hleft, ?_, ?_⟩
      · rw [hqueue]
        exact List.sublist_cons_self _ _
      · simp [Unanswered]
    · rw [if_neg hfull]
      exact ⟨s, _, _, rfl, h, Left.refl s conn, List.Sublist.refl _, fun _ _ _ _ _ => nofun⟩
  · exact ⟨s, _, _, rfl, h, Left.refl s conn, List.Sublist.refl _, fun _ _ _ _ _ => nofun⟩

/-- A challenge is added to a queue. -/
theorem Inv.issued (h : s.Inv) (hconn : conn ∈ s.clients) (ha : a.answer = s.allocated)
    (answer : K.Answer) :
    ((({ s with
      answers := update s.answers s.allocated (some answer)
      allocated := s.allocated + 1 } : Challenges K).setauthreqs conn
        ((s.client conn).authreqs ++ [a])).note (.issued conn a answer)).Inv := by
  have hi : (ledger K.Answer).issue (.issued conn a answer) = some (conn, a) := rfl
  have hs : (ledger K.Answer).settle (.issued conn a answer) = none := rfl
  have hfresh : a.answer ∉ (ledger K.Answer).keys s.log := fun hmem =>
    Nat.lt_irrefl _ (ha ▸ h.allocated _ hmem)
  refine ⟨h.lawful.snoc trivial, h.sound.issue hi hs hfresh, fun c hc => ?_,
    fun c req answer' hmem => ?_, fun k hk => ?_, fun p hp => ?_, h.clients⟩
  · have hopens := h.sound.opens_issue hi hs hfresh c
    by_cases hcc : c = conn
    · subst hcc
      rw [if_pos rfl, ← h.queue c hc] at hopens
      exact (congrArg Authclient.authreqs (update_self ..)).trans hopens.symm
    · rw [if_neg (Ne.symm hcc), List.append_nil, ← h.queue c hc] at hopens
      exact (congrArg Authclient.authreqs (update_of_ne hcc ..)).trans hopens.symm
  · have hsettled : (ledger K.Answer).settled (s.log ++ [.issued conn a answer]) =
        (ledger K.Answer).settled s.log := Ledger.settled_quiet hs
    change update s.answers s.allocated (some answer) req.answer =
      if req.answer ∈ (ledger K.Answer).settled (s.log ++ [_]) then none else some answer'
    rw [hsettled]
    obtain hmem | hmem := List.mem_append.mp hmem
    · have hold : req.answer < s.allocated :=
        h.allocated _ (Ledger.mem_keys (issued_of_mem_log hmem))
      rw [update_of_ne (Nat.ne_of_lt hold)]
      exact h.stored c req answer' hmem
    · cases List.mem_singleton.mp hmem
      rw [if_neg fun hmem => hfresh (h.sound.only _ hmem), ha, update_self]
  · have hkeys : (ledger K.Answer).keys (s.log ++ [.issued conn a answer]) =
        (ledger K.Answer).keys s.log ++ [a.answer] := by
      rw [Ledger.keys, Ledger.issued_issue hi, List.map_append]
      rfl
    obtain hk | hk := List.mem_append.mp (hkeys ▸ hk)
    · exact Nat.lt_succ_of_lt (h.allocated k hk)
    · rw [List.mem_singleton.mp hk, ha]
      exact Nat.lt_succ_self _
  · obtain hp | hp := List.mem_append.mp (Ledger.issued_issue (h := s.log) hi ▸ hp)
    · exact h.conns p hp
    · rw [List.mem_singleton.mp hp]
      exact h.clients conn hconn

/-- **A new challenge** is the last of its queue. -/
theorem issue_spec (h : s.Inv) (hconn : conn ∈ s.clients) (id : Nat) (u : K.Key)
    (random : UInt32) : ∃ a new, a.reqtime = s.servtime ∧ (s.issue conn id u random).Inv ∧
      Left s conn ((s.client conn).authreqs ++ [a]) new (s.issue conn id u random) ∧
        Unanswered new := by
  let a : Authreq := { reqtime := s.servtime, id, answer := s.allocated }
  let made := K.genchallenge u s.starttime s.servtime random
  refine ⟨a, [.issued conn a made.2, .output conn (.chalauth id made.1)], rfl,
    (h.issued hconn rfl made.2).note rfl rfl trivial, ⟨rfl, rfl, ?_, ?_, ?_⟩, ?_⟩
  · simp [issue, outputf, Challenges.note, setauthreqs, a]
  · exact fun c hc => update_of_ne hc ..
  · exact List.append_assoc _ _ _
  · simp [Unanswered]

/-- What an operation does to a queue: challenges are taken out, one may be added now, and those
that are answered were there. -/
def Serves (s : Challenges K) (conn : Nat) (t : Challenges K) : Prop :=
  ∃ kept added new, Left s conn (kept ++ added) new t ∧ kept.Sublist (s.client conn).authreqs ∧
    (∀ a ∈ added, a.reqtime = s.servtime) ∧
    ∀ c req val accepted time, .resolved c req (.answered val accepted) time ∈ new →
      req ∈ (s.client conn).authreqs ∧ time = s.servtime

theorem Serves.of_left {t : Challenges K} {kept : List Authreq} {new : List (Note K.Answer)}
    (hleft : Left s conn kept new t) (hkept : kept.Sublist (s.client conn).authreqs)
    (hnew : Unanswered new) : Serves s conn t :=
  ⟨kept, [], new, (List.append_nil kept).symm ▸ hleft, hkept, nofun,
    fun c req val accepted time hmem => absurd hmem (hnew c req val accepted time)⟩

/-- Behind what answers and adds nothing. -/
theorem Left.serves {t u : Challenges K} {kept : List Authreq} {new : List (Note K.Answer)}
    (hleft : Left s conn kept new t) (hkept : kept.Sublist (s.client conn).authreqs)
    (hnew : Unanswered new) (h : Serves t conn u) : Serves s conn u := by
  obtain ⟨kept', added, new', hleft', hkept', hadded, hnew'⟩ := h
  rw [hleft.authreqs] at hkept' hnew'
  rw [hleft.servtime] at hadded hnew'
  refine ⟨kept', added, new ++ new', hleft.trans hleft', hkept'.trans hkept, hadded, ?_⟩
  intro c req val accepted time hmem
  obtain hmem | hmem := List.mem_append.mp hmem
  · exact absurd hmem (hnew c req val accepted time)
  · obtain ⟨hreq, htime⟩ := hnew' c req val accepted time hmem
    exact ⟨hkept.subset hreq, htime⟩

/-- **`confauth`** answers the oldest with the number. -/
theorem confirm_spec {id : Nat} {val : List UInt8} (seen rest : List Authreq) (h : s.Inv)
    (hconn : conn ∈ s.clients) (hqueue : (s.client conn).authreqs = seen ++ rest)
    (hseen : ∀ b ∈ seen, b.id ≠ id) (hasked : Answering conn id val s.log) :
    ∃ t, confirm conn id val s seen rest = .ok t ∧ t.Inv ∧ Serves s conn t := by
  induction rest generalizing seen with
  | nil =>
    exact ⟨_, rfl, h.note rfl rfl trivial, .of_left (Left.note s conn _) (List.Sublist.refl _)
      (by simp [Unanswered])⟩
  | cons a rest ih =>
    unfold confirm
    by_cases hid : a.id = id
    · rw [if_pos hid]
      subst hid
      obtain ⟨-, -, correct, hissued, hstored⟩ :=
        h.pending hconn (hqueue ▸ List.mem_append_right _ List.mem_cons_self)
      rw [hstored]
      dsimp only
      have hjust : Justified K.checkchallenge s.log
          (.resolved conn a (.answered val (K.checkchallenge val correct)) s.servtime) :=
        ⟨seen, rest, (h.queue conn hconn).symm.trans hqueue, hseen, hasked, correct, hissued, rfl⟩
      have hserves {t : Challenges K} {how : Outcome} {reply : Reply} (hleft : Left s conn
          (seen ++ rest) [.resolved conn a how s.servtime, .output conn reply] t) :
          Serves s conn t := by
        refine ⟨seen ++ rest, [], [.resolved conn a how s.servtime, .output conn reply],
          (List.append_nil _).symm ▸ hleft, ?_, nofun, ?_⟩
        · rw [hqueue]
          exact (List.Sublist.refl _).append (List.sublist_cons_self _ _)
        · intro c req val accepted time hmem
          simp only [List.mem_cons, Note.resolved.injEq, reduceCtorEq, List.not_mem_nil,
            or_false] at hmem
          obtain ⟨-, rfl, -, rfl⟩ := hmem
          exact ⟨hqueue ▸ List.mem_append_right _ List.mem_cons_self, rfl⟩
      cases hcheck : K.checkchallenge val correct with
      | true =>
        rw [hcheck] at hjust
        obtain ⟨t, ht, hinv, hleft⟩ := resolve_spec seen (.succauth a.id) h hconn hqueue hjust
          fun id hreply => ⟨val, rfl, Reply.succauth.inj hreply⟩
        exact ⟨t, (if_pos rfl).trans ht, hinv, hserves hleft⟩
      | false =>
        rw [hcheck] at hjust
        obtain ⟨t, ht, hinv, hleft⟩ := resolve_spec seen (.failauth a.id) h hconn hqueue hjust
          nofun
        exact ⟨t, (if_neg nofun).trans ht, hinv, hserves hleft⟩
    · rw [if_neg hid]
      refine ih (seen ++ [a]) (by rw [hqueue, List.append_assoc, List.singleton_append]) ?_
      intro b hb
      obtain hb | hb := List.mem_append.mp hb
      · exact hseen b hb
      · exact List.mem_singleton.mp hb ▸ hid

theorem confauth_spec (h : s.Inv) (hconn : conn ∈ s.clients) (id : Nat) (val : List UInt8) :
    ∃ t, s.confauth conn id val = .ok t ∧ t.Inv ∧ Serves s conn t := by
  have hasked : (s.note (.asked conn id val)).Inv := h.note rfl rfl trivial
  obtain ⟨t, new, ht, hinv, hleft, hnew⟩ := purgeauths_spec hasked hconn
  have hanswering : Answering conn id val t.log := by
    refine ⟨s.log, new, ?_, hnew⟩
    rw [hleft.log]
    exact List.append_assoc _ _ _
  obtain ⟨u, hu, hinv', hserves⟩ := confirm_spec [] (t.client conn).authreqs hinv
    (hleft.clients ▸ hconn) rfl nofun hanswering
  refine ⟨u, (congrArg (Except.bind · _) ht).trans hu, hinv', ?_⟩
  have hserves' := hleft.serves (List.dropWhile_sublist _) (unanswered_of_expires hnew) hserves
  exact (Left.note s conn _).serves (List.Sublist.refl _) (by simp [Unanswered]) hserves'

theorem reqauth_spec (h : s.Inv) (hconn : conn ∈ s.clients) (id : Nat) (name : List UInt8)
    (random : UInt32) :
    ∃ t, s.reqauth conn id name random = .ok t ∧ t.Inv ∧ Serves s conn t := by
  unfold reqauth
  split
  · exact ⟨s, rfl, h, .of_left (Left.refl s conn) (List.Sublist.refl _) fun _ _ _ _ _ => nofun⟩
  · have hlast : Left s conn (s.client conn).authreqs [] { s with
        client := update s.client conn { s.client conn with lastauth := s.servtime } } :=
      ⟨rfl, rfl, by simp, fun c hc => update_of_ne hc .., (List.append_nil _).symm⟩
    have hsame : Inv { s with
        client := update s.client conn { s.client conn with lastauth := s.servtime } } := by
      refine ⟨h.lawful, h.sound, fun c hc => ?_, h.stored, h.allocated, h.conns, h.clients⟩
      by_cases hcc : c = conn
      · subst hcc
        exact hlast.authreqs.trans (h.queue c hc)
      · exact (congrArg Authclient.authreqs (hlast.others c hcc)).trans (h.queue c hc)
    obtain ⟨t, new, ht, hinv, hleft, hnew⟩ := purgeauths_spec hsame hconn
    have hpurged {u : Challenges K} (hserves : Serves t conn u) : Serves s conn u :=
      hlast.serves (List.Sublist.refl _) (fun _ _ _ _ _ => nofun)
        (hleft.serves (List.dropWhile_sublist _) (unanswered_of_expires hnew) hserves)
    have hconn' : conn ∈ t.clients := hleft.clients ▸ hconn
    dsimp only
    rw [ht, Except.bind]
    cases t.users name with
    | none =>
      exact ⟨_, rfl, hinv.note rfl rfl trivial, hpurged (.of_left (Left.note t conn _)
        (List.Sublist.refl _) (by simp [Unanswered]))⟩
    | some u =>
      obtain ⟨v, reqs, new', hv, hinv', hleft', hreqs, hnew'⟩ := evict_spec hinv hconn'
      obtain ⟨a, new'', ha, hinv'', hleft'', hnew''⟩ :=
        issue_spec hinv' (hleft'.clients ▸ hconn') id u random
      refine ⟨v.issue conn id u random, by rw [hv]; rfl, hinv'',
        hpurged (hleft'.serves hreqs hnew' ⟨_, [a], new'', hleft'', List.Sublist.refl _, ?_, ?_⟩)⟩
      · exact fun b hb => List.mem_singleton.mp hb ▸ ha
      · exact fun c req val accepted time hmem => absurd hmem (hnew'' c req val accepted time)

/-- **A round** goes through the queues. -/
theorem round_spec (l : List Nat) (s : Challenges K) (h : s.Inv) (hl : ∀ conn ∈ l, conn ∈ s.clients) :
    ∃ t new, l.foldlM purgeauths s = .ok t ∧ t.Inv ∧ t.servtime = s.servtime ∧
      t.clients = s.clients ∧ t.log = s.log ++ new ∧ Unanswered new ∧
      ∀ c, (t.client c).authreqs =
        if c ∈ l then (s.client c).authreqs.dropWhile (expired s.servtime)
        else (s.client c).authreqs := by
  induction l generalizing s with
  | nil =>
    exact ⟨s, [], rfl, h, rfl, rfl, (List.append_nil _).symm, fun _ _ _ _ _ => nofun, fun c => by simp⟩
  | cons conn l ih =>
    obtain ⟨t, new, ht, hinv, hleft, hnew⟩ := purgeauths_spec h (hl conn List.mem_cons_self)
    obtain ⟨u, new', hu, hinv', htime, hclients, hlog, hnew', hqueues⟩ := ih t hinv fun c hc =>
      hleft.clients ▸ hl c (List.mem_cons_of_mem _ hc)
    refine ⟨u, new ++ new', ?_, hinv', htime.trans hleft.servtime, hclients.trans hleft.clients,
      ?_, ?_, fun c => ?_⟩
    · rw [List.foldlM_cons, ht]
      exact hu
    · rw [hlog, hleft.log, List.append_assoc]
    · intro c req val accepted time hmem
      obtain hmem | hmem := List.mem_append.mp hmem
      · exact unanswered_of_expires hnew c req val accepted time hmem
      · exact hnew' c req val accepted time hmem
    · rw [hqueues, hleft.servtime]
      by_cases hcc : c = conn
      · subst hcc
        simp [hleft.authreqs, List.dropWhile_idempotent]
      · simp [hcc, hleft.others c hcc]

theorem Inv.step (h : s.Inv) (e : Event K) : ∃ t, step s e = .ok t ∧ t.Inv := by
  cases e with
  | round advance =>
    have hinv : Inv { s with servtime := s.servtime + advance } :=
      ⟨h.lawful, h.sound, h.queue, h.stored, h.allocated, h.conns, h.clients⟩
    obtain ⟨t, new, ht, hinv', -⟩ := round_spec s.clients _ hinv fun c hc => hc
    exact ⟨t, ht, hinv'⟩
  | accept =>
    refine ⟨_, rfl, h.lawful, h.sound, fun c hc => ?_, h.stored, h.allocated,
      fun p hp => Nat.lt_succ_of_lt (h.conns p hp), fun c hc => ?_⟩
    · by_cases hcc : c = s.accepted
      · subst hcc
        have hnone : (ledger K.Answer).opens s.accepted s.log = [] := by
          refine List.eq_nil_iff_forall_not_mem.mpr fun a ha => ?_
          exact Nat.lt_irrefl _ (h.conns _ (Ledger.mem_opens.mp ha).1)
        simp [hnone]
      · have hold : c ∈ s.clients := by simpa [hcc] using hc
        simpa [hcc] using h.queue c hold
    · obtain hc | hc := List.mem_append.mp hc
      · exact Nat.lt_succ_of_lt (h.clients c hc)
      · exact List.mem_singleton.mp hc ▸ Nat.lt_succ_self _
  | purgeclient conn =>
    exact ⟨_, rfl, h.lawful, h.sound, fun c hc => h.queue c (List.mem_filter.mp hc).1, h.stored,
      h.allocated, h.conns, fun c hc => h.clients c (List.mem_filter.mp hc).1⟩
  | reqauth conn id name random =>
    by_cases hconn : conn ∈ s.clients
    · obtain ⟨t, ht, hinv, -⟩ := reqauth_spec h hconn id name random
      exact ⟨t, (if_pos hconn).trans ht, hinv⟩
    · exact ⟨s, if_neg hconn, h⟩
  | confauth conn id val =>
    by_cases hconn : conn ∈ s.clients
    · obtain ⟨t, ht, hinv, -⟩ := confauth_spec h hconn id val
      exact ⟨t, (if_pos hconn).trans ht, hinv⟩
    · exact ⟨s, if_neg hconn, h⟩
  | reload users =>
    exact ⟨_, rfl, h.lawful, h.sound, h.queue, h.stored, h.allocated, h.conns, h.clients⟩

/-! ## The clock -/

/-- Milliseconds since a challenge was made, modulo `2 ^ 32`. -/
def age (time : UInt32) (a : Authreq) : Nat := (time - a.reqtime).toNat

/-- The challenges of a queue are young, the oldest first. -/
structure Aging (time : UInt32) (l : List Authreq) : Prop where
  young : ∀ a ∈ l, age time a < AUTH_TIME.toNat
  sorted : l.Pairwise fun a b => -(age time a : Int) ≤ -(age time b : Int)

theorem expired_iff {time : UInt32} (h : age time a ≤ 2 ^ 32 - AUTH_TIME.toNat) :
    expired time a = true ↔ AUTH_TIME.toNat ≤ age time a := by
  have htime := time.toNat_lt
  have hreq := a.reqtime.toNat_lt
  have hlimit : AUTH_TIME.toNat = 30000 := rfl
  have hover : ENET_TIME_OVERFLOW.toNat = 86400000 := rfl
  unfold expired timeDifference
  rw [decide_eq_true_eq]
  unfold age at h ⊢
  split
  · next hwrap =>
    rw [UInt32.le_iff_toNat_le] at hwrap ⊢
    rw [UInt32.toNat_sub] at h hwrap ⊢
    rw [UInt32.toNat_sub]
    omega
  · exact UInt32.le_iff_toNat_le

theorem timeDifference_lt {time : UInt32} (h : age time a < AUTH_TIME.toNat) :
    timeDifference time a.reqtime < AUTH_TIME := by
  have hlimit : AUTH_TIME.toNat = 30000 := rfl
  have hexp : ¬ expired time a = true := fun hexp =>
    Nat.not_le.mpr h ((expired_iff (by omega)).mp hexp)
  unfold expired at hexp
  rwa [decide_eq_true_eq, UInt32.not_le] at hexp

theorem Aging.sublist {time : UInt32} {l l' : List Authreq} (h : Aging time l)
    (hl : l'.Sublist l) : Aging time l' :=
  ⟨fun a ha => h.young a (hl.subset ha), h.sorted.sublist hl⟩

/-- Challenges that are made now are the youngest. -/
theorem Aging.append {time : UInt32} {l added : List Authreq} (h : Aging time l)
    (hadded : ∀ a ∈ added, a.reqtime = time) : Aging time (l ++ added) := by
  have hzero : ∀ a ∈ added, age time a = 0 := fun a ha => by
    rw [age, hadded a ha, UInt32.sub_self]
    rfl
  refine ⟨fun a ha => ?_, List.pairwise_append.mpr ⟨h.sorted, ?_, fun a _ b hb => ?_⟩⟩
  · obtain ha | ha := List.mem_append.mp ha
    · exact h.young a ha
    · rw [hzero a ha]
      decide
  · refine List.pairwise_of_forall_mem_list fun a ha b hb => ?_
    rw [hzero a ha, hzero b hb]
  · rw [hzero b hb]
    omega

/-- **The clock advances**, and what has expired is taken from the front. -/
theorem Aging.advance {time δ : UInt32} {l : List Authreq} (h : Aging time l)
    (hδ : δ.toNat ≤ 2 ^ 32 - 2 * AUTH_TIME.toNat) :
    Aging (time + δ) (l.dropWhile (expired (time + δ))) := by
  have hlimit : AUTH_TIME.toNat = 30000 := rfl
  have hage : ∀ a ∈ l, age (time + δ) a = age time a + δ.toNat := by
    intro a ha
    have hyoung := h.young a ha
    have htime := time.toNat_lt
    have hreq := a.reqtime.toNat_lt
    unfold age at hyoung ⊢
    rw [UInt32.toNat_sub] at hyoung
    rw [UInt32.toNat_sub, UInt32.toNat_sub, UInt32.toNat_add]
    omega
  have hexp : ∀ a ∈ l, expired (time + δ) a = true ↔ AUTH_TIME.toNat ≤ age (time + δ) a :=
    fun a ha => expired_iff (by
      have := h.young a ha
      rw [hage a ha]
      omega)
  have hsorted : l.Pairwise fun a b => -(age (time + δ) a : Int) ≤ -(age (time + δ) b : Int) := by
    refine h.sorted.imp_of_mem fun {a b} ha hb hab => ?_
    rw [hage a ha, hage b hb]
    omega
  have hagrees : Expiry.Agrees (fun a => -(age (time + δ) a : Int)) (expired (time + δ)) l := by
    intro a ha b hb houta houtb
    have hold := (hexp a ha).mp houta
    have hnew : ¬ AUTH_TIME.toNat ≤ age (time + δ) b := fun hle => by
      rw [(hexp b hb).mpr hle] at houtb
      cases houtb
    dsimp only
    omega
  rw [Expiry.dropWhile_eq_filter hsorted hagrees]
  refine ⟨fun a ha => ?_, hsorted.sublist List.filter_sublist⟩
  obtain ⟨ha, hout⟩ := List.mem_filter.mp ha
  refine Nat.not_le.mp fun hle => ?_
  rw [(hexp a ha).mpr hle] at hout
  cases hout

/-- All queues are young, and so were the challenges that have been answered. -/
structure Fresh (s : Challenges K) : Prop where
  aging : ∀ conn ∈ s.clients, Aging s.servtime (s.client conn).authreqs
  answered : ∀ c req val accepted time, .resolved c req (.answered val accepted) time ∈ s.log →
    timeDifference time req.reqtime < AUTH_TIME

theorem Fresh.serves {t : Challenges K} (h : s.Fresh) (hconn : conn ∈ s.clients)
    (hserves : Serves s conn t) : t.Fresh := by
  obtain ⟨kept, added, new, hleft, hkept, hadded, hnew⟩ := hserves
  refine ⟨fun c hc => ?_, fun c req val accepted time hmem => ?_⟩
  · rw [hleft.clients] at hc
    rw [hleft.servtime]
    by_cases hcc : c = conn
    · subst hcc
      rw [hleft.authreqs]
      exact ((h.aging c hc).sublist hkept).append hadded
    · rw [hleft.others c hcc]
      exact h.aging c hc
  · rw [hleft.log] at hmem
    obtain hmem | hmem := List.mem_append.mp hmem
    · exact h.answered c req val accepted time hmem
    · obtain ⟨hreq, rfl⟩ := hnew c req val accepted time hmem
      exact timeDifference_lt ((h.aging conn hconn).young req hreq)

/-- The clock advances by no more than all but a minute of its period. -/
def Event.Advances : Event K → Prop
  | .round δ => δ.toNat ≤ 2 ^ 32 - 2 * AUTH_TIME.toNat
  | _ => True

theorem Fresh.step (hinv : s.Inv) (h : s.Fresh) {e : Event K} (he : e.Advances)
    {t : Challenges K} (hstep : step s e = .ok t) : t.Fresh := by
  cases e with
  | round δ =>
    have hinv' : Inv { s with servtime := s.servtime + δ } :=
      ⟨hinv.lawful, hinv.sound, hinv.queue, hinv.stored, hinv.allocated, hinv.conns,
        hinv.clients⟩
    obtain ⟨u, new, hu, -, htime, hclients, hlog, hnew, hqueues⟩ :=
      round_spec s.clients _ hinv' fun c hc => hc
    cases hu.symm.trans hstep
    refine ⟨fun c hc => ?_, fun c req val accepted time hmem => ?_⟩
    · rw [hclients] at hc
      rw [htime, hqueues, if_pos hc]
      exact (h.aging c hc).advance he
    · rw [hlog] at hmem
      obtain hmem | hmem := List.mem_append.mp hmem
      · exact h.answered c req val accepted time hmem
      · exact absurd hmem (hnew c req val accepted time)
  | accept =>
    cases hstep
    refine ⟨fun c hc => ?_, h.answered⟩
    by_cases hcc : c = s.accepted
    · subst hcc
      simpa using ⟨nofun, List.Pairwise.nil⟩
    · have hold : c ∈ s.clients := by simpa [hcc] using hc
      simpa [hcc] using h.aging c hold
  | purgeclient conn =>
    cases hstep
    exact ⟨fun c hc => h.aging c (List.mem_filter.mp hc).1, h.answered⟩
  | reqauth conn id name random =>
    by_cases hconn : conn ∈ s.clients
    · obtain ⟨u, hu, -, hserves⟩ := reqauth_spec hinv hconn id name random
      cases hu.symm.trans ((if_pos hconn).symm.trans hstep)
      exact h.serves hconn hserves
    · cases (if_neg hconn).symm.trans hstep
      exact h
  | confauth conn id val =>
    by_cases hconn : conn ∈ s.clients
    · obtain ⟨u, hu, -, hserves⟩ := confauth_spec hinv hconn id val
      cases hu.symm.trans ((if_pos hconn).symm.trans hstep)
      exact h.serves hconn hserves
    · cases (if_neg hconn).symm.trans hstep
      exact h
  | reload users =>
    cases hstep
    exact ⟨h.aging, h.answered⟩

/-! ## Runs -/

theorem inv_initial (starttime : UInt32) (users : List UInt8 → Option K.Key) :
    Inv ({ starttime, users } : Challenges K) :=
  ⟨.nil, .nil, nofun, fun _ _ _ => nofun, nofun, nofun, nofun⟩

/-- The reply `succauth` between two parts of a log: the note before it is the resolution of the
oldest challenge of the connection with that number, whose answer is the one that has arrived, and
which is resolved neither before nor after. -/
def Confirms (K : Crypto) (pre post : List (Note K.Answer)) (conn id : Nat) : Prop :=
  ∃ before req val time answer older newer,
    pre = before ++ [.resolved conn req (.answered val true) time] ∧ req.id = id ∧
    .issued conn req answer ∈ before ∧ K.checkchallenge val answer = true ∧
    (ledger K.Answer).opens conn before = older ++ req :: newer ∧ (∀ b ∈ older, b.id ≠ id) ∧
    Answering conn id val before ∧ req.answer ∉ (ledger K.Answer).settled before ∧
    req.answer ∉ (ledger K.Answer).settled post

theorem inv_run {starttime : UInt32} {users : List UInt8 → Option K.Key} {es : List (Event K)}
    (hrun : Run.Steps step (fun _ _ => True) { starttime, users } es s) : s.Inv :=
  hrun.invariant Inv (fun s e t h _ hstep => by
    obtain ⟨u, hu, hinv⟩ := h.step e
    cases hu.symm.trans hstep
    exact hinv) (inv_initial starttime users)

theorem Inv.confirms (h : s.Inv) {pre post : List (Note K.Answer)} {id : Nat}
    (hlog : s.log = pre ++ .output conn (.succauth id) :: post) : Confirms K pre post conn id := by
  obtain ⟨req, val, time, hlast, hid⟩ := h.lawful.justified hlog
  obtain ⟨before, rfl⟩ := List.getLast?_eq_some_iff.mp hlast
  rw [List.append_assoc, List.singleton_append] at hlog
  obtain ⟨older, newer, hopens, holder, hanswering, answer, hissued, hcheck⟩ :=
    h.lawful.justified hlog
  have hsettled : (ledger K.Answer).settled s.log = (ledger K.Answer).settled before ++
      req.answer :: (ledger K.Answer).settled post := by
    rw [hlog]
    simp [Ledger.settled, ledger]
  have hnodup := h.sound.settled
  rw [hsettled, List.nodup_middle, List.nodup_cons, List.mem_append, not_or] at hnodup
  subst hid
  exact ⟨before, req, val, time, answer, older, newer, rfl, rfl, hissued, hcheck, hopens, holder,
    hanswering, hnodup.1.1, hnodup.1.2⟩

/-- **The challenges**: in every run no answer is freed twice or used when it is freed; every
challenge is resolved at most once, and then its answer is freed and it is in no queue; `succauth`
confirms the oldest challenge with the number; and what is answered is younger than `AUTH_TIME`,
unless the clock has advanced by almost its period at once. -/
theorem challenges_once {starttime : UInt32} {users : List UInt8 → Option K.Key}
    {es : List (Event K)} (hrun : Run.Steps step (fun _ _ => True) { starttime, users } es s) :
    (∀ e, ∃ t, step s e = .ok t) ∧ ((ledger K.Answer).settled s.log).Nodup ∧
      (∀ conn req how time, .resolved conn req how time ∈ s.log →
        (∃ answer, .issued conn req answer ∈ s.log) ∧ s.answers req.answer = none ∧
          ∀ c ∈ s.clients, ∀ b ∈ (s.client c).authreqs, b.answer ≠ req.answer) ∧
      (∀ pre post conn id, s.log = pre ++ .output conn (.succauth id) :: post →
        Confirms K pre post conn id) ∧
      ((∀ e ∈ es, e.Advances) → ∀ conn req val accepted time,
        .resolved conn req (.answered val accepted) time ∈ s.log →
          timeDifference time req.reqtime < AUTH_TIME) := by
  have hboth : s.Inv ∧ ((∀ e ∈ es, e.Advances) → s.Fresh) := by
    refine hrun.history (fun es s => s.Inv ∧ ((∀ e ∈ es, e.Advances) → s.Fresh)) ?_ []
      ⟨inv_initial starttime users, fun _ => ⟨nofun, fun _ _ _ _ _ => nofun⟩⟩
    intro es s e t ⟨hinv, hfresh⟩ _ hstep
    obtain ⟨u, hu, hinv'⟩ := hinv.step e
    cases hu.symm.trans hstep
    refine ⟨hinv', fun hes => (hfresh fun e he => hes e (List.mem_append_left _ he)).step hinv
      (hes e (List.mem_append_right _ (List.mem_singleton_self e))) hstep⟩
  obtain ⟨hinv, hfresh⟩ := hboth
  refine ⟨fun e => ?_, hinv.sound.settled, fun conn req how time hmem => ?_,
    fun pre post conn id hlog => hinv.confirms hlog, fun hes conn req val accepted time hmem =>
      (hfresh hes).answered conn req val accepted time hmem⟩
  · obtain ⟨t, ht, -⟩ := hinv.step e
    exact ⟨t, ht⟩
  · have hsettled : req.answer ∈ (ledger K.Answer).settled s.log :=
      List.mem_filterMap.mpr ⟨_, hmem, rfl⟩
    obtain ⟨pre, post, hlog⟩ := List.append_of_mem hmem
    obtain ⟨older, newer, hopens, -⟩ := hinv.lawful.justified hlog
    have hissued : (conn, req) ∈ (ledger K.Answer).issued pre := by
      refine (Ledger.mem_opens.mp ?_).1
      rw [hopens]
      exact List.mem_append_right _ List.mem_cons_self
    obtain ⟨answer, hanswer⟩ := mem_log_of_issued hissued
    have hin : .issued conn req answer ∈ s.log := hlog ▸ List.mem_append_left _ hanswer
    refine ⟨⟨answer, hin⟩, (hinv.stored conn req answer hin).trans (if_pos hsettled), ?_⟩
    intro c hc b hb heq
    exact (hinv.pending hc hb).2.1 (heq ▸ hsettled)

/-- A challenge expires, and comes too late to be confirmed. -/
theorem challenges_once_expired : ∃ s : Challenges (ecc 8),
    (ledger Gfield).settled s.log = [0] ∧ ((ledger Gfield).settled s.log).Nodup ∧
      ∀ pre post, s.log ≠ pre ++ .output 0 (.succauth 1) :: post := by
  obtain ⟨s, hrun, hs⟩ := Run.Steps.of_any step (fun _ _ => True)
    ({ starttime := 0, users := fun _ => some (parsepubkey []) } : Challenges (ecc 8))
    [.accept, .round 100000, .reqauth 0 1 [98] 0, .round 30000, .confauth 0 1 [53]]
    (p := fun s => (ledger Gfield).settled s.log = [0] ∧ s.log.all fun
      | .resolved _ _ (.answered ..) _ => false
      | _ => true) (fun _ _ _ => trivial) (by decide +kernel)
  obtain ⟨hsettled, hnone⟩ := of_decide_eq_true hs
  obtain ⟨-, hnodup, -, hconfirms, -⟩ := challenges_once hrun
  refine ⟨s, hsettled, hnodup, fun pre post hlog => ?_⟩
  obtain ⟨before, req, val, time, -, -, -, rfl, -⟩ := hconfirms pre post 0 1 hlog
  have hmem : .resolved 0 req (.answered val true) time ∈ s.log := by
    rw [hlog]
    simp
  cases List.all_eq_true.mp hnone _ hmem

/-- Two challenges are made ten seconds apart; then the clock is 35 seconds behind the second. -/
def lateevents : List (Event (ecc 8)) :=
  [.accept, .round 100000, .reqauth 0 1 [98] 0, .round 10000, .reqauth 0 2 [98] 0,
    .round 4294932296]

/-- The second challenge is answered when it is too old. -/
theorem late_confirmed : ∃ (users : List UInt8 → Option Ecjacobian) (es : List (Event (ecc 8)))
    (s : Challenges (ecc 8)) (req : Authreq) (val : List UInt8),
    Run.Steps step (fun _ _ => True) { starttime := 0, users } es s ∧
      .resolved 0 req (.answered val true) s.servtime ∈ s.log ∧
      .output 0 (.succauth req.id) ∈ s.log ∧ AUTH_TIME ≤ timeDifference s.servtime req.reqtime := by
  obtain ⟨s, hrun, hs⟩ := Run.Steps.of_any step (fun _ _ => True)
    ({ starttime := 0, users := fun _ => some (parsepubkey []) } : Challenges (ecc 8)) lateevents
    (p := fun s => s.clients = [0] ∧ s.servtime = 75000 ∧
      (s.client 0).authreqs = [⟨100000, 1, 0⟩, ⟨110000, 2, 1⟩]) (fun _ _ _ => trivial)
    (by decide +kernel)
  obtain ⟨hclients, htime, hqueue⟩ := of_decide_eq_true hs
  have hinv := inv_run hrun
  have hconn : 0 ∈ s.clients := hclients ▸ List.mem_singleton_self 0
  obtain ⟨-, -, correct, -, hstored⟩ :=
    hinv.pending (a := ⟨110000, 2, 1⟩) hconn (hqueue ▸ by simp)
  obtain ⟨val, hval⟩ := exists_accepted 8 correct
  let t := (s.note (.asked 0 2 val)).note
    (.resolved 0 ⟨110000, 2, 1⟩ (.answered val true) s.servtime)
  have hpurge : (s.note (.asked 0 2 val)).purgeauths 0 = .ok (s.note (.asked 0 2 val)) := by
    simp only [purgeauths, Challenges.note, hqueue, purge, htime]
    exact if_neg (by decide)
  have hstep : step s (.confauth 0 2 val) = .ok ({ t.outputf 0 (.succauth 2) with
      answers := update s.answers 1 none }.setauthreqs 0 [⟨100000, 1, 0⟩]) := by
    simp only [step, if_pos hconn, confauth, hpurge, Except.bind]
    simp only [Challenges.note, hqueue, confirm, Nat.reduceEqDiff, if_false, if_true, hstored, hval]
    simp only [resolve, freechallenge, Challenges.note, outputf, hstored]
    rfl
  refine ⟨_, _, _, ⟨110000, 2, 1⟩, val, hrun.append (.single trivial hstep), ?_, ?_, ?_⟩
  · simp [t, Challenges.note, outputf, setauthreqs]
  · simp [t, Challenges.note, outputf, setauthreqs]
  · change AUTH_TIME ≤ timeDifference s.servtime 110000
    rw [htime]
    decide

end Challenges

end Masterserver

end QServ
