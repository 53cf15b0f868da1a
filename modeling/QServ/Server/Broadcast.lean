import Mathlib.Algebra.Order.BigOperators.Group.List
import Mathlib.Data.List.Perm.Subperm
import Mathlib.Data.List.Permutation
import QServ.Server.Delivery

/-!
# Everybody hears everybody else

The verdict on `buildworldstate`, for every fleet of bots in which each bot has one owner.

* `buildworldstate_delivers`: every human receives the blocks of everybody else, each once,
  in one common cyclic order; the queues are empty afterwards and the buffer holds it all.
* `buildworldstate_no_order`: the order is a cyclic one only.
-/

namespace QServ
namespace Server

open WorldState Slices Run

open scoped List

variable {s : Server} {taken : WsPacket → Bool}

/-! ## Who is heard -/

/-- The listed humans. -/
def humans (s : Server) : List ClientInfo := s.cl.filter fun c => decide (c.aitype = .human)

/-- Every human with itself and each of its bots, in the order they are collected in. -/
def drivers (s : Server) : List (Int × Int) :=
  s.humans.flatMap fun c => (c.clientnum :: c.bots).map fun b => (c.clientnum, b)

/-- The queues that go out on a channel. -/
def blocks (s : Server) (queue : Chan → Int → List UInt8) (ch : Chan) : List Block :=
  s.drivers.filterMap (blockOf queue ch)

/-- The bots a human lists are there, name that human as their owner, and are listed once. -/
structure SoleOwners (s : Server) : Prop where
  nodup : ∀ c ∈ s.humans, c.bots.Nodup
  owner : ∀ c ∈ s.humans, ∀ b ∈ c.bots, ∃ d ∈ s.cl, d.clientnum = b ∧ d.aitype ≠ .human ∧
    d.ownernum = c.clientnum

theorem mem_humans {c : ClientInfo} : c ∈ s.humans ↔ c ∈ s.cl ∧ c.aitype = .human := by
  simp [humans]

/-- The records of the list are those of its numbers. -/
theorem WF.cl_clientnum (h : s.WF) : s.cl.map ClientInfo.clientnum = s.clients := by
  have hl : ∀ l : List Int, (∀ n ∈ l, n ∈ s.clients) →
      (l.filterMap s.info).map ClientInfo.clientnum = l := by
    intro l
    induction l with
    | nil => exact fun _ => rfl
    | cons n l ih =>
      intro hsub
      obtain ⟨c, hc, -, hn, -⟩ := h.get (hsub n List.mem_cons_self)
      rw [List.filterMap_cons_some hc, List.map_cons, hn,
        ih fun m hm => hsub m (List.mem_cons_of_mem n hm)]
  exact hl s.clients fun _ hn => hn

theorem WF.humans_nodup (h : s.WF) : (s.humans.map ClientInfo.clientnum).Nodup := by
  refine List.Nodup.sublist (List.Sublist.map _ List.filter_sublist) ?_
  rw [h.cl_clientnum]
  exact h.nodup

/-- A listed record is known by its number. -/
theorem WF.cl_injective (h : s.WF) {c d : ClientInfo} (hc : c ∈ s.cl) (hd : d ∈ s.cl)
    (hn : c.clientnum = d.clientnum) : c = d := by
  have hci := (h.info_of_mem_cl hc).1
  rw [hn, (h.info_of_mem_cl hd).1] at hci
  exact (Option.some.inj hci).symm

/-- Every client is collected once. -/
theorem senders_nodup (h : s.WF) (ho : s.SoleOwners) : (s.drivers.map Prod.snd).Nodup := by
  have hmap : s.drivers.map Prod.snd = s.humans.flatMap fun c => c.clientnum :: c.bots := by
    unfold drivers
    rw [List.map_flatMap]
    refine congrArg (List.flatMap · s.humans) (funext fun c => ?_)
    simp [Function.comp_def]
  -- a bot is no human
  have hbot : ∀ c ∈ s.humans, ∀ d ∈ s.humans, c.clientnum ∉ d.bots := by
    intro c hc d hd hm
    obtain ⟨b, hb, hn, hai, -⟩ := ho.owner d hd _ hm
    obtain ⟨hc, hhum⟩ := mem_humans.mp hc
    rw [h.cl_injective hb hc hn] at hai
    exact hai hhum
  rw [hmap, List.nodup_flatMap]
  refine ⟨fun c hc => List.nodup_cons.mpr ⟨hbot c hc c hc, ho.nodup c hc⟩, ?_⟩
  refine (List.pairwise_map.mp h.humans_nodup).imp_of_mem fun {c d} hc hd hne => ?_
  intro n hnc hnd
  rcases List.mem_cons.mp hnc with rfl | hnc
  · rcases List.mem_cons.mp hnd with hnd | hnd
    · exact hne hnd
    · exact hbot c hc d hd hnd
  · rcases List.mem_cons.mp hnd with rfl | hnd
    · exact hbot d hd c hc hnc
    · -- a bot listed by two humans would have two owners
      obtain ⟨b, hb, hbn, -, hbo⟩ := ho.owner c hc n hnc
      obtain ⟨b', hb', hbn', -, hbo'⟩ := ho.owner d hd n hnd
      obtain rfl := h.cl_injective hb hb' (hbn.trans hbn'.symm)
      exact hne (hbo.symm.trans hbo')

theorem senders_subset (h : s.WF) (ho : s.SoleOwners) : s.drivers.map Prod.snd ⊆ s.clients := by
  intro n hn
  obtain ⟨e, he, rfl⟩ := List.mem_map.mp hn
  obtain ⟨c, hc, he⟩ := List.mem_flatMap.mp he
  obtain ⟨b, hb, rfl⟩ := List.mem_map.mp he
  rcases List.mem_cons.mp hb with rfl | hb
  · exact (h.info_of_mem_cl (mem_humans.mp hc).1).2
  · obtain ⟨d, hd, rfl, -⟩ := ho.owner c hc b hb
    exact (h.info_of_mem_cl hd).2

/-- The blocks of a human and its bots lie side by side. -/
theorem blocks_grouped (h : s.WF) (queue : Chan → Int → List UInt8) (ch : Chan) :
    Grouped Block.owner (s.blocks queue ch) := by
  have hflat : s.blocks queue ch = s.humans.flatMap fun c =>
      ((c.clientnum :: c.bots).map fun b => (c.clientnum, b)).filterMap (blockOf queue ch) := by
    unfold blocks drivers
    rw [List.filterMap_flatMap]
  rw [hflat]
  refine grouped_flatMap h.humans_nodup fun c _ b hb => ?_
  obtain ⟨e, he, hb⟩ := List.mem_filterMap.mp hb
  obtain ⟨n, -, rfl⟩ := List.mem_map.mp he
  unfold blockOf at hb
  split at hb
  · cases hb
  · obtain rfl := Option.some.inj hb
    rfl

/-! ## The room for it -/

/-- The room the queues of a client take, going by its number. -/
def numroom (queue : Chan → Int → List UInt8) (n : Int) : Nat :=
  queueroom queue { clientnum := n, ownernum := n }

theorem bytes_blockOf_le (queue : Chan → Int → List UInt8) (e : Int × Int) :
    (bytesOf (blockOf queue .positions e).toList).length +
      (bytesOf (blockOf queue .messages e).toList).length ≤ numroom queue e.2 := by
  have hp : (bytesOf (blockOf queue .positions e).toList).length =
      (queue .positions e.2).length := by
    unfold blockOf
    by_cases hq : queue .positions e.2 = []
    · simp [hq]
    · simp [hq, Chan.header]
  have hm : (bytesOf (blockOf queue .messages e).toList).length ≤
      if (queue .messages e.2).length = 0 then 0 else 10 + (queue .messages e.2).length := by
    have hh := Chan.header_length_le .messages e.2 (queue .messages e.2).length
    unfold blockOf
    by_cases hq : queue .messages e.2 = []
    · simp [hq]
    · simp [hq]
      exact hh
  change _ ≤ (queue .positions e.2).length +
    if (queue .messages e.2).length = 0 then 0 else 10 + (queue .messages e.2).length
  omega

/-- Both phases fit in what is set aside for them. -/
theorem bytes_blocks_le (h : s.WF) (ho : s.SoleOwners) (queue : Chan → Int → List UInt8) :
    (bytesOf (s.blocks queue .positions)).length + (bytesOf (s.blocks queue .messages)).length ≤
      (s.cl.map (queueroom queue)).sum := by
  have hsum : ∀ es : List (Int × Int),
      (bytesOf (es.filterMap (blockOf queue .positions))).length +
        (bytesOf (es.filterMap (blockOf queue .messages))).length ≤
      ((es.map Prod.snd).map (numroom queue)).sum := by
    intro es
    induction es with
    | nil => exact le_refl 0
    | cons e es ih =>
      have hsplit : ∀ ch, (e :: es).filterMap (blockOf queue ch) =
          (blockOf queue ch e).toList ++ es.filterMap (blockOf queue ch) := by
        intro ch
        cases hb : blockOf queue ch e with
        | none => rw [List.filterMap_cons_none hb]; rfl
        | some b => rw [List.filterMap_cons_some hb]; rfl
      have he := bytes_blockOf_le queue e
      rw [hsplit, hsplit]
      simp only [bytesOf, List.flatMap_append, List.length_append, List.map_cons,
        List.sum_cons] at *
      omega
  have hcl : (s.cl.map (queueroom queue)).sum = (s.clients.map (numroom queue)).sum := by
    rw [← h.cl_clientnum, List.map_map]
    rfl
  obtain ⟨l, hperm, hsub⟩ := List.subperm_of_subset (senders_nodup h ho)
    (senders_subset h ho)
  calc _ ≤ ((s.drivers.map Prod.snd).map (numroom queue)).sum := hsum s.drivers
    _ = (l.map (numroom queue)).sum := ((hperm.map _).sum_eq).symm
    _ ≤ (s.clients.map (numroom queue)).sum :=
        (hsub.map _).sum_le_sum fun _ _ => Nat.zero_le _
    _ = (s.cl.map (queueroom queue)).sum := hcl.symm

/-! ## What is received -/

/-- What a round sends to one human. -/
theorem roundPackets_received (h : s.WF) {c : ClientInfo} (hc : c ∈ s.humans) (ch ch' : Chan)
    (reliable : Bool) (round : List Block) :
    ((s.roundPackets ch' reliable round).filter
      fun d => decide (d.1 = c.clientnum ∧ d.2.1 = ch)).map (fun d => d.2.2.2) =
    if ch' = ch then [bytesOf (others Block.owner c.clientnum round)].filter (· ≠ []) else [] := by
  obtain ⟨hcl, hhum⟩ := mem_humans.mp hc
  obtain ⟨l, m, hlm⟩ := List.append_of_mem hcl
  have hnd : (s.cl.map ClientInfo.clientnum).Nodup := h.cl_clientnum ▸ h.nodup
  rw [hlm, List.map_append, List.map_cons] at hnd
  -- nobody else has the number of this client
  have hother : ∀ cs : List ClientInfo, (∀ d ∈ cs, d.clientnum ≠ c.clientnum) →
      (cs.filterMap (roundPacket ch' reliable round)).filter
        (fun d => decide (d.1 = c.clientnum ∧ d.2.1 = ch)) = [] := by
    intro cs hcs
    rw [List.filter_eq_nil_iff]
    intro d hd
    obtain ⟨e, he, hed⟩ := List.mem_filterMap.mp hd
    unfold roundPacket at hed
    split at hed
    · cases hed
    · split at hed
      · cases hed
      · obtain rfl := Option.some.inj hed
        simp [hcs e he]
  obtain ⟨-, hmid, hdisj⟩ := List.nodup_append.mp hnd
  have hl := hother l fun d hd =>
    hdisj _ (List.mem_map_of_mem hd) _ List.mem_cons_self
  have hm := hother m fun d hd hdc =>
    (List.nodup_cons.mp hmid).1 (hdc ▸ List.mem_map_of_mem hd)
  unfold roundPackets
  rw [hlm, List.filterMap_append, List.filter_append, hl, List.nil_append]
  by_cases hb : bytesOf (others Block.owner c.clientnum round) = []
  · have hp : roundPacket ch' reliable round c = none := by
      unfold roundPacket
      rw [if_neg (by simp [hhum]), if_pos hb]
    rw [List.filterMap_cons_none hp, hm, hb]
    simp
  · have hp : roundPacket ch' reliable round c =
        some (c.clientnum, ch', reliable, bytesOf (others Block.owner c.clientnum round)) := by
      unfold roundPacket
      rw [if_neg (by simp [hhum]), if_neg hb]
    rw [List.filterMap_cons_some hp, List.filter_cons, hm]
    by_cases hch : ch' = ch
    · rw [if_pos (by simp [hch]), if_pos hch, List.filter_cons_of_pos (by simpa using hb)]
      rfl
    · rw [if_neg (by simp [hch]), if_neg hch]
      rfl

theorem rounds_received (h : s.WF) {c : ClientInfo} (hc : c ∈ s.humans) (ch ch' : Chan)
    (reliable : Bool) (rounds : List (List Block)) :
    ((rounds.flatMap (s.roundPackets ch' reliable)).filter
      fun d => decide (d.1 = c.clientnum ∧ d.2.1 = ch)).map (fun d => d.2.2.2) =
    if ch' = ch then
      (rounds.map fun round => bytesOf (others Block.owner c.clientnum round)).filter (· ≠ [])
    else [] := by
  induction rounds with
  | nil => simp
  | cons round rounds ih =>
    rw [List.flatMap_cons, List.filter_append, List.map_append, ih,
      roundPackets_received h hc ch ch' reliable round]
    by_cases hch : ch' = ch
    · simp only [if_pos hch]
      rw [List.map_cons, ← List.filter_append, List.singleton_append]
    · simp [hch]

/-! ## The verdict -/

/-- What is delivered on one channel: there are rounds, which together hold every block
once, and a human receives of each a rotation of what is not its own. -/
def Delivers (s : Server) (queue : Chan → Int → List UInt8) (ch : Chan) (w : WorldState) : Prop :=
  ∃ rounds : List (List Block), rounds.flatten = s.blocks queue ch ∧
    ∀ c ∈ s.humans, ∃ pieces : List (List Block),
      List.Forall₂ (fun piece round => piece ~r
        round.filter fun b => decide (b.owner ≠ c.clientnum)) pieces rounds ∧
      pieces.flatten.Perm ((s.blocks queue ch).filter fun b => decide (b.owner ≠ c.clientnum)) ∧
      w.received c.clientnum ch = (pieces.map bytesOf).filter (· ≠ [])

theorem delivers_of_rounds {queue : Chan → Int → List UInt8} {ch : Chan} {w : WorldState}
    {rounds : List (List Block)} (hflat : rounds.flatten = s.blocks queue ch)
    (hg : Grouped Block.owner (s.blocks queue ch))
    (hrec : ∀ c ∈ s.humans, w.received c.clientnum ch =
      (rounds.map fun round => bytesOf (others Block.owner c.clientnum round)).filter (· ≠ [])) :
    s.Delivers queue ch w := by
  refine ⟨rounds, hflat, fun c hc =>
    ⟨rounds.map (others Block.owner c.clientnum), ?_, ?_, ?_⟩⟩
  · have hround : ∀ round ∈ rounds, Grouped Block.owner round := fun round hr =>
      hg.sublist (hflat ▸ List.sublist_flatten_of_mem hr)
    clear hflat hrec
    induction rounds with
    | nil => exact List.Forall₂.nil
    | cons round rounds ih =>
      exact List.Forall₂.cons ((hround round List.mem_cons_self).others_isRotated c.clientnum)
        (ih fun r hr => hround r (List.mem_cons_of_mem _ hr))
  · have hround : ∀ round ∈ rounds, Grouped Block.owner round := fun round hr =>
      hg.sublist (hflat ▸ List.sublist_flatten_of_mem hr)
    rw [← hflat]
    clear hflat hrec
    induction rounds with
    | nil => exact List.Perm.refl _
    | cons round rounds ih =>
      rw [List.map_cons, List.flatten_cons, List.flatten_cons, List.filter_append]
      exact ((hround round List.mem_cons_self).others_isRotated c.clientnum).perm.append
        (ih fun r hr => hround r (List.mem_cons_of_mem _ hr))
  · rw [hrec c hc, List.map_map]
    rfl

/-- The nested loops over the humans and their bots are one loop over the drivers. -/
theorem foldl_drivers (f : Int → WorldState → Int → WorldState) (w : WorldState) :
    s.cl.foldl (fun w c =>
      if c.aitype ≠ .human then w
      else c.bots.foldl (fun w b => f c.clientnum w b) (f c.clientnum w c.clientnum)) w =
    s.drivers.foldl (fun w e => f e.1 w e.2) w := by
  unfold drivers humans
  generalize s.cl = cs
  induction cs generalizing w with
  | nil => rfl
  | cons c cs ih =>
    by_cases hc : c.aitype = .human
    · rw [List.foldl_cons, List.filter_cons_of_pos (by simpa using hc), List.flatMap_cons,
        List.foldl_append, List.foldl_map, ← ih]
      simp [hc]
    · rw [List.foldl_cons, List.filter_cons_of_neg (by simpa using hc), ← ih]
      simp [hc]

/-- **Everybody hears everybody else**: where every bot has one owner, a run of
`buildworldstate` sends every human each queue but its own and those of its bots exactly
once, unchanged and in one common cyclic order; all these queues are empty afterwards, and
nothing is written past the end of the buffer. -/
theorem buildworldstate_delivers (h : s.WF) (ho : s.SoleOwners)
    (queue : Chan → Int → List UInt8) (mtu : Int) (reliable : Bool) :
    (∀ ch, s.Delivers queue ch (s.buildworldstate taken queue mtu reliable).2) ∧
    (∀ ch, ∀ e ∈ s.drivers, (s.buildworldstate taken queue mtu reliable).2.queue ch e.2 = []) ∧
    (s.buildworldstate taken queue mtu reliable).2.overwrote = false := by
  have hroom := bytes_blocks_le h ho queue
  have hgp := blocks_grouped h queue .positions
  have hgm := blocks_grouped h queue .messages
  have hnd := senders_nodup h ho
  unfold buildworldstate
  simp only
  by_cases hz : (s.cl.map (queueroom queue)).sum = 0
  · rw [if_pos hz]
    have hnil : ∀ ch, s.blocks queue ch = [] := by
      intro ch
      by_contra hne
      obtain ⟨b, l, hb⟩ := List.exists_cons_of_ne_nil hne
      have hbytes : b.bytes ≠ [] := by
        have hm : b ∈ s.blocks queue ch := hb ▸ List.mem_cons_self
        obtain ⟨e, -, he⟩ := List.mem_filterMap.mp hm
        unfold blockOf at he
        split at he
        · cases he
        · next hq =>
          obtain rfl := Option.some.inj he
          exact fun hn => hq (List.append_eq_nil_iff.mp hn).2
      have hpos : 0 < (bytesOf (s.blocks queue ch)).length := by
        rw [hb, bytesOf, List.flatMap_cons, List.length_append]
        have := List.length_pos_iff.mpr hbytes
        omega
      cases ch <;> omega
    have hflat : ∀ ch, ([] : List (List Block)).flatten = s.blocks queue ch :=
      fun ch => (hnil ch).symm
    refine ⟨fun ch => delivers_of_rounds (hflat ch)
      (by rw [hnil ch]; exact fun a b c hin => by cases hin) fun c _ => rfl, ?_, rfl⟩
    intro ch e he
    by_contra hq
    have hm : blockOf queue ch e ≠ none := by
      unfold blockOf
      rw [if_neg hq]
      exact Option.some_ne_none _
    obtain ⟨b, hb⟩ := Option.ne_none_iff_exists'.mp hm
    have : b ∈ s.blocks queue ch := List.mem_filterMap.mpr ⟨e, he, hb⟩
    rw [hnil ch] at this
    cases this
  · rw [if_neg hz]
    simp only
    generalize hmtu : (if mtu - 100 ≤ 0 then ((2 * (s.cl.map (queueroom queue)).sum : Nat) : Int)
      else mtu - 100) = mtu'
    generalize hw : ({ cap := 2 * (s.cl.map (queueroom queue)).sum, queue } : WorldState) = w
    have hcap : w.cap = 2 * (s.cl.map (queueroom queue)).sum := by rw [← hw]
    have hdata : w.data = [] := by rw [← hw]
    have hqueue : w.queue = queue := by rw [← hw]
    have hdel : w.delivered = [] := by rw [← hw]; rfl
    have hstart : Round s .positions false w w [] [] :=
      Round.start (by rw [← hw]; rfl) (by rw [← hw]) (by rw [← hw]; simp) (by rw [← hw]; simp)
    unfold sendpositions sendmessages addposition addmessages
    rw [foldl_drivers fun ci w bi => s.addblock taken .positions false mtu' ci w bi,
      foldl_drivers fun ci w bi => s.addblock taken .messages reliable mtu' ci w bi]
    -- first the positions
    obtain ⟨ps, w1, hw1, hps, hr1, hq1⟩ := phase taken mtu' s.drivers hstart
      hnd (by rw [hqueue]; exact hgp) (by
        rw [hqueue, hdata, hcap]
        change 0 + 2 * (bytesOf (s.blocks queue .positions)).length ≤ _
        omega)
    rw [hqueue] at hps hq1
    rw [← hw1]
    have hmsg : s.drivers.filterMap (blockOf w1.queue .messages) = s.blocks queue .messages := by
      refine List.filterMap_congr fun e _ => ?_
      have hkeep : w1.queue .messages e.2 = queue .messages e.2 := by
        rw [hq1, if_neg (by simp)]
      unfold blockOf
      rw [hkeep]
    have hlen := hr1.data_length
    rw [hps, hdata] at hlen
    change _ = 0 + 2 * (bytesOf (s.blocks queue .positions)).length + 0 at hlen
    -- then the messages
    obtain ⟨ms, w2, hw2, hms, hr2, hq2⟩ := phase taken mtu' s.drivers
      (hr1.restart .messages reliable) hnd (by rw [hmsg]; exact hgm) (by
        rw [hmsg, hr1.cap, hcap, hlen]
        omega)
    rw [hmsg] at hms
    rw [← hw2]
    have hsent : w2.delivered = ps.flatMap (s.roundPackets .positions false) ++
        ms.flatMap (s.roundPackets .messages reliable) := by
      rw [hr2.sent, hr1.sent, hdel, List.nil_append]
    refine ⟨?_, ?_, hr2.fits⟩
    · intro ch
      cases ch with
      | positions =>
        refine delivers_of_rounds hps hgp fun c hc => ?_
        unfold received
        rw [hsent, List.filter_append, List.map_append, rounds_received h hc, rounds_received h hc]
        simp
      | messages =>
        refine delivers_of_rounds hms hgm fun c hc => ?_
        unfold received
        rw [hsent, List.filter_append, List.map_append, rounds_received h hc, rounds_received h hc]
        simp
    · intro ch e he
      have hm : e.2 ∈ s.drivers.map Prod.snd := List.mem_map_of_mem he
      rw [hq2, hq1]
      cases ch <;> simp [hm]

/-- Everybody's number, as a position. -/
def sampleQueue : Chan → Int → List UInt8
  | .positions, n => [byte n]
  | .messages, _ => []

/-- Two clients, of which the first drives a bot. -/
theorem buildworldstate_sample : ∃ s : Server, Run.Reachable step (initial sampleConfig) s ∧
    s.drivers = [(0, 0), (0, 128), (1, 1)] ∧
    s.Delivers sampleQueue .positions
      (s.buildworldstate (fun _ => true) sampleQueue 1400 false).2 := by
  obtain ⟨s, hrun, hs⟩ := Reachable.of_any step (initial sampleConfig)
    (twoclients ++ [.autobot 0 "bot"])
    (p := fun s : Server => decide (s.drivers = [(0, 0), (0, 128), (1, 1)] ∧
      ∀ c ∈ s.humans, c.bots.Nodup ∧ ∀ b ∈ c.bots, ∃ d ∈ s.cl, d.clientnum = b ∧
        d.aitype ≠ .human ∧ d.ownernum = c.clientnum)) (by rfl)
  obtain ⟨hd, ho⟩ := of_decide_eq_true hs
  exact ⟨s, hrun, hd, (buildworldstate_delivers (Reachable.orderly hrun).toWF
    ⟨fun c hc => (ho c hc).1, fun c hc => (ho c hc).2⟩ sampleQueue 1400 false).1 .positions⟩

/-- Three clients and a bot that has lost its owner. -/
def threeclients : List Event :=
  twoclients ++ [.connect 2 11 "eleven" 0, .hello 2 "eve" "" "" "" fun _ => false,
    .autobot 0 "bot", .shiftai 128 none]

/-- Of three clients each hears the other two in turn, so that there is no order of all three
in which everybody hears them; and nobody sends for a bot without an owner. -/
theorem buildworldstate_no_order : ∃ s : Server, Run.Reachable step (initial sampleConfig) s ∧
    (¬ ∃ order : List Block, order.Perm (s.blocks sampleQueue .positions) ∧ ∀ c ∈ s.humans,
      ((s.buildworldstate (fun _ => true) sampleQueue 1400 false).2.received c.clientnum
        .positions).flatten = bytesOf (order.filter fun b => decide (b.owner ≠ c.clientnum))) ∧
    128 ∈ s.clients ∧
    (s.buildworldstate (fun _ => true) sampleQueue 1400 false).2.queue .positions 128 ≠ [] := by
  obtain ⟨s, hrun, hs⟩ := Reachable.of_any step (initial sampleConfig) threeclients
    (p := fun s : Server => decide ((∀ order ∈ (s.blocks sampleQueue .positions).permutations',
      ∃ c ∈ s.humans, ((s.buildworldstate (fun _ => true) sampleQueue 1400 false).2.received
        c.clientnum .positions).flatten ≠
          bytesOf (order.filter fun b => decide (b.owner ≠ c.clientnum))) ∧
      128 ∈ s.clients ∧
      (s.buildworldstate (fun _ => true) sampleQueue 1400 false).2.queue .positions 128 ≠ []))
    (by rfl)
  obtain ⟨horder, hbot⟩ := of_decide_eq_true hs
  refine ⟨s, hrun, ?_, hbot⟩
  rintro ⟨order, hperm, hall⟩
  obtain ⟨c, hc, hne⟩ := horder order (List.mem_permutations'.mpr hperm)
  exact hne (hall c hc)

end Server
end QServ
