import QServ.Server.Core

/-!
# The bots: who owns them and how they go

The ownership part of `fpsgame/aiman.h`.  A bot is driven by a human client, its
owner; when the owner goes away its bots are shifted to the eligible client with
the fewest bots, or lose their owner, and when no human is left all of them are
deleted from the client list at once.
-/

namespace QServ
namespace Server

variable (s : Server)

/-- `getinfo(n)`: the engine's slot below `MAXCLIENTS`, the entry of `bots` above. -/
def getinfo (n : Int) : Option ClientInfo :=
  if n < MAXCLIENTS then (if 0 ≤ n then s.info n else none)
  else if n - MAXCLIENTS < s.nbots then s.info n else none

/-- `getclientinfo(n)`: the engine's client table only, so never a bot. -/
def getclientinfo (n : Int) : Option ClientInfo :=
  if 0 ≤ n ∧ n < MAXCLIENTS then s.info n else none

/-- `getclientip(n)`: the peer's address, `0` where there is no network peer. -/
def getclientip (n : Int) : Nat :=
  match s.getclientinfo n with
  | some c => if c.isLocal then 0 else c.host
  | none => 0

/-- `numclients(-1, false, true)`: the human clients, spectators included. -/
def numhumans : Nat := (s.cl.filter fun c => c.aitype = .human).length

/-- `validaiclient`: a client that may own bots. -/
def validaiclient (c : ClientInfo) : Bool :=
  decide (0 ≤ c.clientnum) && decide (c.aitype = .human) &&
    (decide (c.state ≠ .spectator) || c.isLocal || decide (c.privilege ≠ .none))

/-- `findaiclient(exclude)`: the first of the eligible clients with the fewest bots. -/
def findaiclient (exclude : Int) : Option ClientInfo :=
  s.cl.foldl (fun least c =>
    if !validaiclient c || c.clientnum = exclude then least
    else match least with
      | none => some c
      | some l => if c.bots.length < l.bots.length then some c else some l) none

/-- `owner->bots.removeobj(bot)`, the owner being looked up by `getclientinfo`. -/
def disown (owner bot : Int) : Server :=
  match s.getclientinfo owner with
  | some _ => s.upd owner fun o => { o with bots := o.bots.filter (· ≠ bot) }
  | none => s

@[simp] theorem core_disown (s : Server) (owner bot : Int) :
    (s.disown owner bot).core = s.core := by
  unfold disown
  split
  · exact core_upd s owner fun _ => rfl
  · rfl

/-- `shiftai(ci, owner)`: take a bot from its owner and give it to another one. -/
def shiftai (bot : Int) (owner : Option ClientInfo) : Server :=
  match s.info bot with
  | none => s
  | some b =>
    let s := s.disown b.ownernum bot
    match owner with
    | none => s.upd bot fun b => { b with aireinit := 0, ownernum := -1 }
    | some o =>
      if bot = o.clientnum then s
      else (s.upd bot fun b => { b with aireinit := 2, ownernum := o.clientnum }).upd o.clientnum
        fun o => { o with bots := o.bots ++ [bot] }

@[simp] theorem core_shiftai (s : Server) (bot : Int) (owner : Option ClientInfo) :
    (s.shiftai bot owner).core = s.core := by
  unfold shiftai
  split
  · rfl
  · next b _ =>
    cases owner with
    | none =>
      simp only
      rw [core_upd _ _ (by intro c; rfl), core_disown]
    | some o =>
      simp only
      split
      · exact core_disown s b.ownernum bot
      · rw [core_upd _ _ (by intro c; rfl), core_upd _ _ (by intro c; rfl), core_disown]

/-- `removeai(ci)`: every bot of the client is given to somebody else. -/
def removeai (cn : Int) : Server :=
  match s.info cn with
  | none => s
  | some c => c.bots.reverse.foldl (fun s bot => s.shiftai bot (s.findaiclient cn)) s

/-- Handing over bots leaves the session as it is. -/
@[simp] theorem core_removeai (s : Server) (cn : Int) : (s.removeai cn).core = s.core := by
  unfold removeai
  split
  · rfl
  · next c hc =>
    clear hc
    generalize c.bots.reverse = bots
    induction bots generalizing s with
    | nil => rfl
    | cons bot bots ih => rw [List.foldl_cons, ih, core_shiftai]

/-- `deleteai(ci)`: the bot leaves its owner, the client list and the heap. -/
def deleteai (bot : Int) : Server :=
  if bot - MAXCLIENTS < s.nbots then
    match s.info bot with
    | none => s
    | some b =>
      let s := s.sendf (-1) 1 [.int MsgType.nCdis.code, .int bot]
      ((s.disown b.ownernum bot).unlist bot).free bot
  else s

/-- The bots from the last entry of `bots` down to the first. -/
def botnums : List Int := ((List.range s.nbots).map fun i : Nat => MAXCLIENTS + (i : Int)).reverse

theorem mem_botnums {s : Server} {n : Int} :
    n ∈ s.botnums ↔ MAXCLIENTS ≤ n ∧ n - MAXCLIENTS < s.nbots := by
  unfold botnums
  rw [List.mem_reverse, List.mem_map]
  constructor
  · rintro ⟨i, hi, rfl⟩
    rw [List.mem_range] at hi
    omega
  · rintro ⟨h1, h2⟩
    refine ⟨(n - MAXCLIENTS).toNat, ?_, by omega⟩
    rw [List.mem_range]
    omega

/-- `clearai`: delete all bots. -/
def clearai : Server := s.botnums.foldl deleteai s

/-- The bot in slot `i` of `bots`, if there is one that has an owner. -/
def ownedbot (i : Nat) : Option ClientInfo :=
  (s.info (MAXCLIENTS + i)).filter fun b => decide (0 ≤ b.ownernum)

/-- The slot `addai` uses: the first without an owned bot, or a new one. -/
def botslot : Nat :=
  ((List.range s.nbots).find? fun i => (s.ownedbot i).isNone).getD s.nbots

/-- `owner->bots.add(ci)` for the client `addai` makes the owner. -/
def adopt (owner : Option ClientInfo) (bot : Int) : Server :=
  match owner with
  | none => s
  | some o => s.upd o.clientnum fun o => { o with bots := o.bots ++ [bot] }

/-- `addai(skill, limit)`: an ownerless bot gets an owner again, else a new one is made. -/
def addai (name : String) (limit : Int) : Server × Bool :=
  let numai := ((List.range s.nbots).filter fun i => (s.ownedbot i).isSome).length
  let maxai := if 0 ≤ limit then min limit MAXBOTS else MAXBOTS
  if maxai ≤ numai then (s, false)
  else
    let slot := s.botslot
    let bot := MAXCLIENTS + (slot : Int)
    let owner := s.findaiclient (-1)
    let ownernum := match owner with | some o => o.clientnum | none => -1
    match s.info bot with
    | some _ =>
      ((s.adopt owner bot).upd bot fun b => { b with ownernum, aireinit := 2 }, true)
    | none =>
      let s := s.adopt owner bot
      ({ s with
          nbots := max s.nbots (slot + 1), clients := s.clients ++ [bot],
          info := fun n => if n = bot then
            some { clientnum := bot, ownernum, name, aitype := .bot, connected := true,
                   aireinit := 2 }
            else s.info n }, true)

/-- `deleteai()`: delete the last bot that has an owner. -/
def deletelastai : Server × Bool :=
  match ((List.range s.nbots).reverse.find? fun i => (s.ownedbot i).isSome) with
  | some i => (s.deleteai (MAXCLIENTS + i), true)
  | none => (s, false)

/-- `reqadd(ci, skill)`. -/
def reqadd (n : Int) (name : String) : Server :=
  match s.info n with
  | none => s
  | some c =>
    if !c.isLocal && c.privilege = .none then s
    else
      let limit : Int := if !c.isLocal && c.privilege < .admin then s.cfg.botlimit else -1
      match s.addai name limit with
      | (s, true) => s
      | (s, false) =>
        s.sendf n 1 [.int MsgType.nServmsg.code, .str "failed to create or assign bot"]

/-- `reqdel(ci)`. -/
def reqdel (n : Int) : Server :=
  match s.info n with
  | none => s
  | some c =>
    if !c.isLocal && c.privilege = .none then s
    else
      match s.deletelastai with
      | (s, true) => s
      | (s, false) =>
        s.sendf n 1 [.int MsgType.nServmsg.code, .str "failed to remove any bots"]

/-- `addBotHelper(ci, skill)`: the client is a master for the length of the call. -/
def addBotHelper (n : Int) (name : String) : Server :=
  match s.info n with
  | none => s
  | some c =>
    ((s.upd n fun c => { c with privilege := .master }).reqadd n name).upd n fun d =>
      { d with privilege := c.privilege }

/-- A deleted bot is gone from the list and the heap, and nothing else has changed; the
slot of a bot that is not there is skipped. -/
theorem roster_deleteai {s : Server} (h : s.Live) {bot : Int} (hbot : bot - MAXCLIENTS < s.nbots) :
    (s.deleteai bot).roster = (s.without [bot]).roster := by
  unfold deleteai
  rw [if_pos hbot]
  split
  · next hnone =>
    -- no record, so by the invariant no entry of the list either
    have hcl : s.clients.filter (· ∉ [bot]) = s.clients := by
      refine List.filter_eq_self.mpr fun n hn => ?_
      obtain ⟨c, hc, -⟩ := h n hn
      have hne : n ≠ bot := by
        rintro rfl
        rw [hnone] at hc
        cases hc
      simpa using hne
    have hinfo : (fun n => if n ∈ [bot] then none else s.info n) = s.info := by
      funext n
      split
      · next hn => rw [List.mem_singleton.mp hn, hnone]
      · rfl
    unfold without
    rw [hcl, hinfo]
  · next b _ =>
    have hcore : ((s.sendf (-1) 1 [.int MsgType.nCdis.code, .int bot]).disown b.ownernum bot).core =
        s.core := by
      rw [core_disown, core_sendf]
    rw [← without_roster (roster_of_core hcore) [bot]]
    unfold without free unlist
    simp only [List.mem_singleton]

theorem Live.deleteai {s : Server} (h : s.Live) {bot : Int} (hbot : bot - MAXCLIENTS < s.nbots) :
    (s.deleteai bot).Live :=
  (h.without [bot]).of_roster (roster_deleteai h hbot)

theorem foldl_deleteai (l : List Int) :
    ∀ s : Server, s.Live → (∀ b ∈ l, b - MAXCLIENTS < s.nbots) →
      (l.foldl Server.deleteai s).roster = (s.without l).roster := by
  induction l with
  | nil =>
    intro s _ _
    unfold without
    simp
  | cons b l ih =>
    intro s h hl
    have hb := hl b List.mem_cons_self
    have hr := roster_deleteai h hb
    have hnb : (s.deleteai b).nbots = (s.without [b]).nbots := of_roster nbots (fun _ => rfl) hr
    rw [List.foldl_cons, ih _ (h.deleteai hb)
      fun c hc => by rw [hnb]; exact hl c (List.mem_cons_of_mem b hc)]
    rw [without_roster hr l, without_without, List.singleton_append]

/-- **`clearai` removes the bots** and nobody else. -/
theorem roster_clearai {s : Server} (h : s.Live) :
    s.clearai.roster = (s.without s.botnums).roster :=
  foldl_deleteai s.botnums s h fun _ hb => (mem_botnums.mp hb).2

end Server
end QServ
