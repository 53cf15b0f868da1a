import QServ.Server.Safety
import QServ.Server.WorldState

/-!
# What the world state delivers

* `Round`: the state of the buffer in the middle of a phase, as the blocks sent in the
  rounds that are over and those of the round under way.
* `Round.flush`, `Round.add`: what ends a round, and what a queue adds to it.
-/

namespace QServ

open Slices

/-- The queue of a client as it goes out, charged to the human that drives it. -/
structure Block where
  owner : Int
  sender : Int
  bytes : List UInt8
  deriving DecidableEq, Repr

/-- The blocks one after the other. -/
abbrev bytesOf (bs : List Block) : List UInt8 := bs.flatMap Block.bytes

namespace WorldState

variable {w : WorldState}

/-! ## Writing and reading the buffer -/

theorem put_of_room {bs : List UInt8} (h : w.data.length + bs.length ≤ w.cap) :
    w.put bs = { w with data := w.data ++ bs } := by
  have hroom : bs.length ≤ w.cap - w.data.length := by omega
  unfold put
  rw [List.take_of_length_le hroom, decide_eq_false (by omega), Bool.or_false]

/-- What has been written stays as it is. -/
theorem read_append {bs cs : List UInt8} {start size : Nat} (h : start + size ≤ bs.length) :
    ((bs ++ cs).drop start).take size = (bs.drop start).take size := by
  rw [List.drop_append_of_le_length (by omega), List.take_append_of_le_length]
  rw [List.length_drop]
  omega

/-- A queue that has room in the buffer, moved there. -/
theorem moveblock_eq {ch : Chan} {ci bi : Int} {bytes : List UInt8}
    (hbytes : ch.header bi (w.queue ch bi).length ++ w.queue ch bi = bytes)
    (hbase : w.base ≤ w.data.length) (hroom : w.data.length + bytes.length ≤ w.cap) :
    w.moveblock ch ci bi =
      { w with
        data := w.data ++ bytes,
        queue := fun ch' n => if ch' = ch ∧ n = bi then [] else w.queue ch' n,
        wsdata := if w.marked ci then w.wsdata
          else Function.update w.wsdata ci (some (w.base + w.length)),
        wslen := Function.update w.wslen ci
          (if w.marked ci then w.wslen ci + bytes.length else bytes.length) } := by
  have hlen := congrArg List.length hbytes
  rw [List.length_append] at hlen
  have hput : (w.put (ch.header bi (w.queue ch bi).length)).put (w.queue ch bi) =
      { w with data := w.data ++ bytes } := by
    rw [put_of_room (w := w) (by omega), put_of_room]
    · simp only [List.append_assoc, hbytes]
    · simp only [List.length_append]
      omega
  have hnew : (w.data ++ bytes).length - w.base - w.length = bytes.length := by
    unfold length
    rw [List.length_append]
    omega
  unfold moveblock
  simp only [hput]
  by_cases hm : w.marked ci = true
  · rw [if_pos hm, if_pos hm, ← hnew]
    exact if_pos hm
  · rw [if_neg hm, if_neg hm, ← hnew]
    exact if_neg hm

/-- The packet for one client, and none for a bot or where there is nothing to send. -/
def packetFor (w : WorldState) (ch : Chan) (reliable : Bool) (wslen : Nat) (c : ClientInfo) :
    Option WsPacket :=
  if c.aitype ≠ .human then none
  else if (w.slice ch reliable wslen c.clientnum).size = 0 then none
  else some (w.slice ch reliable wslen c.clientnum)

/-- The loop over the clients sends each its packet. -/
theorem foldl_send (taken : WsPacket → Bool) (ch : Chan) (reliable : Bool) (wslen : Nat)
    (cs : List ClientInfo) (w : WorldState) : ∃ uses,
    cs.foldl (fun w c =>
      if c.aitype ≠ .human then w
      else
        let p := w.slice ch reliable wslen c.clientnum
        if p.size = 0 then w else w.send taken p) w =
      { w with packets := w.packets ++ cs.filterMap (w.packetFor ch reliable wslen), uses } := by
  induction cs generalizing w with
  | nil => exact ⟨w.uses, by simp⟩
  | cons c cs ih =>
    rw [List.foldl_cons]
    by_cases hc : c.aitype ≠ .human
    · obtain ⟨uses, ih⟩ := ih w
      exact ⟨uses, by rw [if_pos hc, ih, List.filterMap_cons_none (by simp [packetFor, hc])]⟩
    · by_cases hz : (w.slice ch reliable wslen c.clientnum).size = 0
      · obtain ⟨uses, ih⟩ := ih w
        refine ⟨uses, ?_⟩
        simp only [if_neg hc, if_pos hz]
        rw [ih, List.filterMap_cons_none (by simp [packetFor, hc, hz])]
      · obtain ⟨uses, ih⟩ := ih (w.send taken (w.slice ch reliable wslen c.clientnum))
        refine ⟨uses, ?_⟩
        simp only [if_neg hc, if_neg hz]
        -- sending moves no mark, so the packets of the others are cut as before
        have hrest : cs.filterMap ((w.send taken
            (w.slice ch reliable wslen c.clientnum)).packetFor ch reliable wslen) =
            cs.filterMap (w.packetFor ch reliable wslen) := rfl
        rw [ih, hrest, List.filterMap_cons_some (b := w.slice ch reliable wslen c.clientnum)
          (by simp [packetFor, hc, hz])]
        simp [send]

end WorldState

namespace Server

open WorldState

variable {s : Server} {ch : Chan} {reliable : Bool} (taken : WsPacket → Bool)

/-- A round that has room for its second copy. -/
theorem sendround_eq (ch : Chan) (reliable : Bool) {w : WorldState} (hne : w.length ≠ 0)
    (hroom : w.data.length + w.length ≤ w.cap) : ∃ uses,
    s.sendround taken ch reliable w =
      { w with
        data := w.data ++ w.data.drop w.base,
        base := w.data.length + w.length,
        recorded := w.recorded ++ [(ch, w.data.drop w.base)],
        packets := w.packets ++ s.cl.filterMap (w.packetFor ch reliable w.length), uses } := by
  have hlen : (w.data.drop w.base).length = w.length := List.length_drop
  unfold sendround
  rw [if_neg hne]
  simp only
  rw [put_of_room (by rw [hlen]; exact hroom)]
  obtain ⟨uses, hfold⟩ := foldl_send taken ch reliable w.length s.cl
    { w with recorded := w.recorded ++ [(ch, w.data.drop w.base)],
             data := w.data ++ w.data.drop w.base }
  refine ⟨uses, ?_⟩
  rw [hfold]
  simp only [List.length_append, hlen]
  rfl

theorem sendround_empty {w : WorldState} (h : w.length = 0) :
    s.sendround taken ch reliable w = w := if_pos h

/-! ## Rounds -/

/-- What a round sends to a human: the blocks of everybody else, if there are any. -/
def roundPacket (ch : Chan) (reliable : Bool) (chunk : List Block) (c : ClientInfo) :
    Option (Int × Chan × Bool × List UInt8) :=
  if c.aitype ≠ .human then none
  else if bytesOf (others Block.owner c.clientnum chunk) = [] then none
  else some (c.clientnum, ch, reliable, bytesOf (others Block.owner c.clientnum chunk))

/-- What a round sends. -/
def roundPackets (s : Server) (ch : Chan) (reliable : Bool) (chunk : List Block) :
    List (Int × Chan × Bool × List UInt8) :=
  s.cl.filterMap (roundPacket ch reliable chunk)

/-- The buffer in the middle of a phase that began with `w0`: the blocks in `done` have been
sent, round by round, and those in `cur` are waiting for the round to end. -/
structure Round (s : Server) (ch : Chan) (reliable : Bool) (w0 w : WorldState)
    (done : List (List Block)) (cur : List Block) : Prop where
  cap : w.cap = w0.cap
  data : w.data = w0.data ++ done.flatMap (fun c => bytesOf c ++ bytesOf c) ++ bytesOf cur
  base : w.base + (bytesOf cur).length = w.data.length
  fits : w.overwrote = false
  stale : ∀ r, owned Block.owner r cur = [] → ∀ p, w.wsdata r = some p → p < w.base
  mark : ∀ r, owned Block.owner r cur ≠ [] →
    w.wsdata r = some (w.base + (bytesOf (before Block.owner r cur)).length) ∧
      w.wslen r = (bytesOf (owned Block.owner r cur)).length
  sent : w.delivered = w0.delivered ++ done.flatMap (s.roundPackets ch reliable)
  inside : ∀ p ∈ w.packets, p.start + p.size ≤ w.data.length
  full : ∀ b ∈ cur, b.bytes ≠ []

namespace Round

variable {w0 w : WorldState} {done : List (List Block)} {cur : List Block}

theorem length (h : Round s ch reliable w0 w done cur) : w.length = (bytesOf cur).length := by
  have := h.base
  unfold WorldState.length
  omega

theorem drop_base (h : Round s ch reliable w0 w done cur) :
    w.data.drop w.base = bytesOf cur := by
  have hb := h.base
  rw [h.data, List.length_append] at hb
  rw [h.data, show w.base = (w0.data ++ done.flatMap fun c => bytesOf c ++ bytesOf c).length
    by omega]
  exact List.drop_left

theorem marked_iff (h : Round s ch reliable w0 w done cur) (r : Int) :
    w.marked r = true ↔ owned Block.owner r cur ≠ [] := by
  unfold marked
  constructor
  · intro hm hnil
    obtain ⟨p, hp, hle⟩ := (Option.any_eq_true _ _).mp hm
    have := h.stale r hnil p hp
    have := of_decide_eq_true hle
    omega
  · intro hne
    rw [(h.mark r hne).1]
    simp

/-- What a packet cut from a round with its second copy holds. -/
theorem read_slice (h : Round s ch reliable w0 w done cur) (hg : Grouped Block.owner cur)
    (r : Int) :
    ((w.data ++ bytesOf cur).drop (w.slice ch reliable w.length r).start).take
      (w.slice ch reliable w.length r).size = bytesOf (others Block.owner r cur) := by
  have hdrop : ∀ k, (w.data ++ bytesOf cur).drop (w.base + k) =
      (bytesOf cur ++ bytesOf cur).drop k := by
    intro k
    have hb := h.base
    rw [← List.drop_drop, List.drop_append_of_le_length (by omega), h.drop_base]
  rw [h.length]
  by_cases hown : owned Block.owner r cur = []
  · -- without a block of its own a client gets the whole round
    have hm : w.marked r = false := by
      rw [Bool.eq_false_iff]
      exact fun hm => (h.marked_iff r).mp hm hown
    unfold slice
    simp only [hm, Bool.false_eq_true, if_false]
    rw [others_of_owned_nil hown, ← Nat.add_zero w.base, hdrop 0, List.drop_zero, List.take_left]
  · have hm : w.marked r = true := (h.marked_iff r).mpr hown
    obtain ⟨hdata, hlen⟩ := h.mark r hown
    unfold slice
    simp only [hm, if_true, hdata, hlen, Option.getD_some]
    rw [Nat.add_assoc, hdrop]
    exact hg.slice r Block.bytes

/-- The piece for a client lies within the two copies. -/
theorem slice_inside (h : Round s ch reliable w0 w done cur) (hg : Grouped Block.owner cur)
    (r : Int) : (w.slice ch reliable w.length r).start + (w.slice ch reliable w.length r).size ≤
      w.data.length + (bytesOf cur).length := by
  have hb := h.base
  rw [h.length]
  by_cases hown : owned Block.owner r cur = []
  · have hm : w.marked r = false := by
      rw [Bool.eq_false_iff]
      exact fun hm => (h.marked_iff r).mp hm hown
    unfold slice
    simp only [hm, Bool.false_eq_true, if_false]
    omega
  · have hm : w.marked r = true := (h.marked_iff r).mpr hown
    obtain ⟨hdata, hlen⟩ := h.mark r hown
    have hsplit := congrArg (fun l => (bytesOf l).length) (hg.split r)
    simp only [bytesOf, List.flatMap_append, List.length_append] at hsplit
    unfold slice
    simp only [hm, if_true, hdata, hlen, Option.getD_some]
    unfold bytesOf at *
    omega

/-- **The end of a round**: everybody gets the blocks of everybody else, and the next round
begins empty. -/
theorem flush (h : Round s ch reliable w0 w done cur) (hg : Grouped Block.owner cur)
    (hroom : w.data.length + (bytesOf cur).length ≤ w.cap) (hne : cur ≠ []) :
    Round s ch reliable w0 (s.sendround taken ch reliable w) (done ++ [cur]) [] := by
  have hpos : (bytesOf cur).length ≠ 0 := by
    obtain ⟨b, l, rfl⟩ := List.exists_cons_of_ne_nil hne
    have := h.full b List.mem_cons_self
    simpa [bytesOf] using fun hb => absurd hb this
  obtain ⟨uses, hsend⟩ := sendround_eq (s := s) (w := w) taken ch reliable (by rw [h.length]; exact hpos) (by rw [h.length]; exact hroom)
  rw [h.drop_base] at hsend
  have hb := h.base
  have hl := h.length
  rw [hsend]
  constructor
  · exact h.cap
  · simp only [List.flatMap_append, List.flatMap_cons, List.flatMap_nil, List.append_nil]
    rw [h.data]
    simp only [List.append_assoc]
  · simp only [List.flatMap_nil, List.length_nil, List.length_append, hl]
    rfl
  · exact h.fits
  · intro r _ p hp
    simp only at hp ⊢
    by_cases hown : owned Block.owner r cur = []
    · have := h.stale r hown p hp
      omega
    · obtain ⟨hdata, -⟩ := h.mark r hown
      rw [hdata] at hp
      obtain rfl := Option.some.inj hp
      have hpre : (bytesOf (before Block.owner r cur)).length ≤ (bytesOf cur).length := by
        have hsplit := congrArg (fun l => (bytesOf l).length) (hg.split r)
        simp only [bytesOf, List.flatMap_append, List.length_append] at hsplit
        unfold bytesOf
        omega
      omega
  · intro r hr
    exact absurd rfl hr
  · -- earlier packets read as before, the new ones are cut from the two copies
    have hold : w.packets.map (fun p => (p.cn, p.chan, p.reliable,
        ((w.data ++ bytesOf cur).drop p.start).take p.size)) = w.delivered := by
      unfold delivered
      refine List.map_congr_left fun p hp => ?_
      rw [read_append (h.inside p hp)]
    have hnew : (s.cl.filterMap (w.packetFor ch reliable w.length)).map
        (fun p => (p.cn, p.chan, p.reliable, ((w.data ++ bytesOf cur).drop p.start).take p.size)) =
        s.roundPackets ch reliable cur := by
      rw [List.map_filterMap]
      unfold roundPackets
      refine List.filterMap_congr fun c _ => ?_
      have hread := h.read_slice hg c.clientnum
      have hin := h.slice_inside hg c.clientnum
      have hsize : (w.slice ch reliable w.length c.clientnum).size = 0 ↔
          bytesOf (others Block.owner c.clientnum cur) = [] := by
        rw [← hread, ← List.length_eq_zero_iff, List.length_take, List.length_drop,
          List.length_append]
        omega
      unfold packetFor roundPacket
      by_cases hc : c.aitype ≠ .human
      · rw [if_pos hc, if_pos hc]
        rfl
      · rw [if_neg hc, if_neg hc]
        by_cases hz : (w.slice ch reliable w.length c.clientnum).size = 0
        · rw [if_pos hz, if_pos (hsize.mp hz)]
          rfl
        · rw [if_neg hz, if_neg fun he => hz (hsize.mpr he), Option.map_some, hread]
          rfl
    unfold delivered at hold ⊢
    simp only [List.map_append, List.flatMap_append, List.flatMap_cons, List.flatMap_nil,
      List.append_nil]
    rw [hold, hnew]
    have := h.sent
    unfold delivered at this
    rw [this, List.append_assoc]
  · intro p hp
    simp only [List.length_append] at hp ⊢
    rcases List.mem_append.mp hp with hp | hp
    · have := h.inside p hp
      omega
    · obtain ⟨c, -, hc⟩ := List.mem_filterMap.mp hp
      unfold packetFor at hc
      split at hc
      · cases hc
      · split at hc
        · cases hc
        · obtain rfl := Option.some.inj hc
          exact h.slice_inside hg c.clientnum
  · intro b hb
    cases hb

/-- **A queue joins the round**, charged to the human that drives its client. -/
theorem move (h : Round s ch reliable w0 w done cur) (ci bi : Int)
    (hq : w.queue ch bi ≠ [])
    (hroom : w.data.length + (ch.header bi (w.queue ch bi).length ++ w.queue ch bi).length ≤
      w.cap) :
    Round s ch reliable w0 (w.moveblock ch ci bi) done
      (cur ++ [⟨ci, bi, ch.header bi (w.queue ch bi).length ++ w.queue ch bi⟩]) := by
  generalize hbytes : ch.header bi (w.queue ch bi).length ++ w.queue ch bi = bytes at hroom
  have hne : bytes ≠ [] := by
    rw [← hbytes]
    exact fun hnil => hq (List.append_eq_nil_iff.mp hnil).2
  have hb := h.base
  have hdata : w.data ++ bytes = w0.data ++ (done.flatMap fun c => bytesOf c ++ bytesOf c) ++
      bytesOf (cur ++ [⟨ci, bi, bytes⟩]) := by
    rw [h.data]
    simp [bytesOf]
  have hbase : w.base + (bytesOf (cur ++ [⟨ci, bi, bytes⟩])).length =
      (w.data ++ bytes).length := by
    simp [bytesOf] at hb ⊢
    omega
  have hsent : w.packets.map (fun p => (p.cn, p.chan, p.reliable,
      ((w.data ++ bytes).drop p.start).take p.size)) = w.delivered := by
    unfold delivered
    refine List.map_congr_left fun p hp => ?_
    rw [read_append (h.inside p hp)]
  have hinside : ∀ p ∈ w.packets, p.start + p.size ≤ (w.data ++ bytes).length := by
    intro p hp
    have := h.inside p hp
    rw [List.length_append]
    omega
  have hfull : ∀ b ∈ cur ++ [(⟨ci, bi, bytes⟩ : Block)], b.bytes ≠ [] := by
    intro b hb
    rcases List.mem_append.mp hb with hb | hb
    · exact h.full b hb
    · rw [List.mem_singleton.mp hb]
      exact hne
  have hlast : ∀ r, owned Block.owner r [(⟨ci, bi, bytes⟩ : Block)] =
      if ci = r then [⟨ci, bi, bytes⟩] else [] := by
    intro r
    by_cases hr : ci = r <;> simp [owned, hr]
  rw [moveblock_eq hbytes (by omega) hroom]
  by_cases hm : w.marked ci = true
  · have hown : owned Block.owner ci cur ≠ [] := (h.marked_iff ci).mp hm
    rw [if_pos hm, if_pos hm]
    constructor
    · exact h.cap
    · exact hdata
    · exact hbase
    · exact h.fits
    · intro r hr
      rw [owned_append] at hr
      exact h.stale r (List.append_eq_nil_iff.mp hr).1
    · intro r hr
      rw [owned_append, hlast] at hr
      by_cases hc : ci = r
      · subst hc
        obtain ⟨h1, h2⟩ := h.mark ci hown
        rw [before_append_of_owned hown, owned_append, hlast, if_pos rfl]
        refine ⟨h1, ?_⟩
        simp only [Function.update_self]
        rw [h2]
        simp [bytesOf]
      · rw [if_neg hc, List.append_nil] at hr
        obtain ⟨h1, h2⟩ := h.mark r hr
        rw [before_append_of_owned hr, owned_append, hlast, if_neg hc, List.append_nil]
        refine ⟨h1, ?_⟩
        simp only [Function.update_of_ne (Ne.symm hc)]
        exact h2
    · exact hsent.trans h.sent
    · exact hinside
    · exact hfull
  · have hown : owned Block.owner ci cur = [] := by
      by_contra hne
      exact hm ((h.marked_iff ci).mpr hne)
    rw [if_neg hm, if_neg hm]
    constructor
    · exact h.cap
    · exact hdata
    · exact hbase
    · exact h.fits
    · intro r hr p hp
      rw [owned_append, hlast] at hr
      obtain ⟨hr1, hr2⟩ := List.append_eq_nil_iff.mp hr
      have hc : ci ≠ r := by
        intro hc
        rw [if_pos hc] at hr2
        cases hr2
      simp only [Function.update_of_ne (Ne.symm hc)] at hp
      exact h.stale r hr1 p hp
    · intro r hr
      rw [owned_append, hlast] at hr
      by_cases hc : ci = r
      · subst hc
        rw [before_append_of_owned_nil hown rfl, owned_append, hlast, if_pos rfl, hown]
        simp only [Function.update_self]
        exact ⟨by rw [h.length], by simp [bytesOf]⟩
      · rw [if_neg hc, List.append_nil] at hr
        obtain ⟨h1, h2⟩ := h.mark r hr
        rw [before_append_of_owned hr, owned_append, hlast, if_neg hc, List.append_nil]
        simp only [Function.update_of_ne (Ne.symm hc)]
        exact ⟨h1, h2⟩
    · exact hsent.trans h.sent
    · exact hinside
    · exact hfull

theorem data_length (h : Round s ch reliable w0 w done cur) : w.data.length =
    w0.data.length + 2 * (bytesOf done.flatten).length + (bytesOf cur).length := by
  have hdone : (done.flatMap fun c => bytesOf c ++ bytesOf c).length =
      2 * (bytesOf done.flatten).length := by
    clear h
    induction done with
    | nil => rfl
    | cons c done ih =>
      rw [List.flatMap_cons, List.flatten_cons, List.length_append, ih]
      simp only [bytesOf, List.flatMap_append, List.length_append]
      omega
  rw [h.data, List.length_append, List.length_append, hdone]

/-- A buffer whose round is empty begins a new phase. -/
theorem start (hbase : w.base = w.data.length) (hfits : w.overwrote = false)
    (hstale : ∀ r p, w.wsdata r = some p → p < w.base)
    (hinside : ∀ p ∈ w.packets, p.start + p.size ≤ w.data.length) :
    Round s ch reliable w w [] [] := by
  refine ⟨rfl, by simp, by simp [hbase], hfits, fun r _ => hstale r, ?_, by simp, hinside, ?_⟩
  · intro r hr
    exact absurd rfl hr
  · intro b hb
    cases hb

/-- What follows the last round of a phase begins the next one. -/
theorem restart (h : Round s ch reliable w0 w done []) (ch' : Chan) (reliable' : Bool) :
    Round s ch' reliable' w w [] [] :=
  start (by simpa using h.base) h.fits (fun r p hp => h.stale r rfl p hp) h.inside

end Round

/-! ## Phases -/

/-- The block the queue of a client makes, if there is anything in it; `e` is the human that
drives the client, and the client. -/
def blockOf (queue : Chan → Int → List UInt8) (ch : Chan) (e : Int × Int) : Option Block :=
  if queue ch e.2 = [] then none
  else some ⟨e.1, e.2, ch.header e.2 (queue ch e.2).length ++ queue ch e.2⟩

theorem queue_sendround (w : WorldState) :
    (s.sendround taken ch reliable w).queue = w.queue := by
  unfold sendround
  split
  · rfl
  · obtain ⟨uses, hfold⟩ := foldl_send taken ch reliable w.length s.cl
      (WorldState.put { w with recorded := w.recorded ++ [(ch, w.data.drop w.base)] }
        (w.data.drop w.base))
    simp only
    erw [hfold]
    rfl

theorem queue_moveblock (w : WorldState) (ci bi : Int) : (w.moveblock ch ci bi).queue =
    fun ch' n => if ch' = ch ∧ n = bi then [] else w.queue ch' n := by
  unfold moveblock
  simp only
  split <;> rfl

/-- A queue that is moved is empty from then on, and no other is touched. -/
theorem queue_addblock (mtu ci : Int) (w : WorldState) (bi : Int) :
    (s.addblock taken ch reliable mtu ci w bi).queue =
      fun ch' n => if ch' = ch ∧ n = bi then [] else w.queue ch' n := by
  unfold addblock
  split
  · next hnil =>
    funext ch' n
    split
    · next hc => rw [hc.1, hc.2, hnil]
    · rfl
  · simp only
    rw [queue_moveblock]
    split
    · rw [queue_sendround]
    · rfl

section Phase

variable {w0 w : WorldState} {done : List (List Block)} {cur : List Block} (mtu : Int)

/-- **One queue after the other**: each joins the round under way, or the next one where it
does not fit. -/
theorem Round.add (h : Round s ch reliable w0 w done cur) (e : Int × Int)
    (hg : Grouped Block.owner cur)
    (hroom : w0.data.length + 2 * (bytesOf (done.flatten ++ cur ++
      (blockOf w.queue ch e).toList)).length ≤ w0.cap) :
    ∃ done' cur', done'.flatten ++ cur' = done.flatten ++ cur ++ (blockOf w.queue ch e).toList ∧
      Round s ch reliable w0 (s.addblock taken ch reliable mtu e.1 w e.2) done' cur' := by
  have hlen := h.data_length
  have hcap := h.cap
  by_cases hq : w.queue ch e.2 = []
  · refine ⟨done, cur, by simp [blockOf, hq], ?_⟩
    unfold addblock
    rwa [if_pos hq]
  · have hblock : blockOf w.queue ch e = some ⟨e.1, e.2,
        ch.header e.2 (w.queue ch e.2).length ++ w.queue ch e.2⟩ := if_neg hq
    rw [hblock] at hroom ⊢
    simp only [Option.toList_some, bytesOf, List.flatMap_append, List.flatMap_cons,
      List.flatMap_nil, List.append_nil, List.length_append] at hroom
    unfold addblock
    rw [if_neg hq]
    simp only
    by_cases hfull : mtu < (w.length + ch.slack + (w.queue ch e.2).length : Nat)
    · rw [if_pos hfull]
      by_cases hcur : cur = []
      · -- nothing to flush: the round is still empty
        rw [sendround_empty taken (by rw [h.length, hcur]; rfl)]
        refine ⟨done, cur ++ [_], by simp, h.move e.1 e.2 hq ?_⟩
        rw [List.length_append]
        simp only [bytesOf] at *
        omega
      · have hflush := h.flush taken hg (by simp only [bytesOf] at *; omega) hcur
        have hqueue : (s.sendround taken ch reliable w).queue = w.queue := queue_sendround taken w
        have hl := hflush.data_length
        have hc := hflush.cap
        simp only [List.flatten_append, List.flatten_cons, List.flatten_nil, List.append_nil,
          bytesOf, List.flatMap_append, List.flatMap_nil, List.length_append,
          List.length_nil] at hl
        have hmove := hflush.move e.1 e.2 (by rw [hqueue]; exact hq) (by
          rw [hqueue, List.length_append]
          omega)
        rw [hqueue, List.nil_append] at hmove
        exact ⟨done ++ [cur], _, by simp, hmove⟩
    · rw [if_neg hfull]
      refine ⟨done, cur ++ [_], by simp, h.move e.1 e.2 hq ?_⟩
      rw [List.length_append]
      simp only [bytesOf] at *
      omega

/-- All queues, of different clients. -/
theorem Round.run (es : List (Int × Int)) : ∀ {w done cur}, Round s ch reliable w0 w done cur →
    (es.map Prod.snd).Nodup →
    Grouped Block.owner (done.flatten ++ cur ++ es.filterMap (blockOf w.queue ch)) →
    w0.data.length + 2 * (bytesOf (done.flatten ++ cur ++
      es.filterMap (blockOf w.queue ch))).length ≤ w0.cap →
    ∃ done' cur', done'.flatten ++ cur' =
        done.flatten ++ cur ++ es.filterMap (blockOf w.queue ch) ∧
      Round s ch reliable w0
        (es.foldl (fun w e => s.addblock taken ch reliable mtu e.1 w e.2) w) done' cur' := by
  induction es with
  | nil => exact fun {w done cur} h _ _ _ => ⟨done, cur, by simp, h⟩
  | cons e es ih =>
    intro w done cur h hnd hg hroom
    rw [List.map_cons, List.nodup_cons] at hnd
    obtain ⟨hfresh, hnd⟩ := hnd
    -- the queues of the others are as they were
    have hrest : es.filterMap (blockOf (s.addblock taken ch reliable mtu e.1 w e.2).queue ch) =
        es.filterMap (blockOf w.queue ch) := by
      refine List.filterMap_congr fun d hd => ?_
      have hne : d.2 ≠ e.2 := fun hde => hfresh (hde ▸ List.mem_map_of_mem hd)
      unfold blockOf
      rw [queue_addblock]
      simp [hne]
    have hsplit : (e :: es).filterMap (blockOf w.queue ch) =
        (blockOf w.queue ch e).toList ++ es.filterMap (blockOf w.queue ch) := by
      cases hb : blockOf w.queue ch e with
      | none => rw [List.filterMap_cons_none hb]; rfl
      | some b => rw [List.filterMap_cons_some hb]; rfl
    rw [hsplit, ← List.append_assoc] at hg hroom ⊢
    obtain ⟨done1, cur1, heq, h1⟩ := h.add taken mtu e
      (hg.sublist (by
        rw [List.append_assoc, List.append_assoc]
        exact (List.sublist_append_left cur _).trans (List.sublist_append_right _ _)))
      (by
        simp only [bytesOf, List.flatMap_append, List.length_append] at hroom ⊢
        omega)
    rw [← heq, ← hrest] at hg hroom ⊢
    obtain ⟨done2, cur2, heq2, h2⟩ := ih h1 hnd hg hroom
    exact ⟨done2, cur2, heq2, h2⟩

/-- Moved queues are empty, the others untouched. -/
theorem queue_run (es : List (Int × Int)) (w : WorldState) (ch' : Chan) (n : Int) :
    (es.foldl (fun w e => s.addblock taken ch reliable mtu e.1 w e.2) w).queue ch' n =
      if ch' = ch ∧ n ∈ es.map Prod.snd then [] else w.queue ch' n := by
  induction es generalizing w with
  | nil => simp
  | cons e es ih =>
    rw [List.foldl_cons, ih, queue_addblock]
    by_cases hc : ch' = ch
    · by_cases hn : n ∈ es.map Prod.snd
      · simp [hc, hn]
      · by_cases he : n = e.2 <;> simp [hc, hn, he]
    · simp [hc]

/-- **A phase**: the blocks go out round by round, in their order, and the queues are empty
afterwards. -/
theorem phase (es : List (Int × Int)) (h : Round s ch reliable w w [] [])
    (hnd : (es.map Prod.snd).Nodup) (hg : Grouped Block.owner (es.filterMap (blockOf w.queue ch)))
    (hroom : w.data.length + 2 * (bytesOf (es.filterMap (blockOf w.queue ch))).length ≤ w.cap) :
    ∃ chunks w', w' = s.sendround taken ch reliable
        (es.foldl (fun w e => s.addblock taken ch reliable mtu e.1 w e.2) w) ∧
      chunks.flatten = es.filterMap (blockOf w.queue ch) ∧
      Round s ch reliable w w' chunks [] ∧
      ∀ ch' n, w'.queue ch' n = if ch' = ch ∧ n ∈ es.map Prod.snd then [] else w.queue ch' n := by
  obtain ⟨done, cur, heq, h'⟩ := h.run taken mtu es hnd
    (by simpa using hg) (by simpa using hroom)
  simp only [List.flatten_nil, List.nil_append] at heq
  have hqueue : ∀ ch' n, (s.sendround taken ch reliable
      (es.foldl (fun w e => s.addblock taken ch reliable mtu e.1 w e.2) w)).queue ch' n =
      if ch' = ch ∧ n ∈ es.map Prod.snd then [] else w.queue ch' n := by
    intro ch' n
    rw [queue_sendround, queue_run]
  by_cases hcur : cur = []
  · subst hcur
    rw [List.append_nil] at heq
    refine ⟨done, _, rfl, heq, ?_, hqueue⟩
    rw [sendround_empty taken (by rw [h'.length]; rfl)]
    exact h'
  · refine ⟨done ++ [cur], _, rfl, by simpa using heq, h'.flush taken (hg.sublist ?_) ?_ hcur, hqueue⟩
    · rw [← heq]
      exact List.sublist_append_right _ _
    · have hl := h'.data_length
      have hc := h'.cap
      rw [← heq] at hroom
      simp only [bytesOf, List.flatMap_append, List.length_append] at *
      omega

end Phase

end Server
end QServ
