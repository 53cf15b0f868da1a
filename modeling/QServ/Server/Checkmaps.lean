import Mathlib.Data.List.DropRight
import QServ.Lib.Tally
import QServ.Server.State
import QServ.Shared.Quicksort

/-!
# Modified maps

Clients report the checksum of their copy of the map, and `checkmaps` of `fpsgame/server.cpp` tells
who has another one than the server, or than most of the others where the server does not know.

* `checkmaps`: the reports are counted, the counts are sorted, and neighbours are compared.
* `IsReference`, `Modified`: whose copy is the right one, and who has another.
* `checkmaps_exact`: they are the ones that are marked, and nobody is warned twice on a map.
-/

namespace QServ

namespace Checkmaps

/-! ## The code -/

/-- What `checkmaps` reads of a `clientinfo`, which is known by `id`. -/
structure Mapclient where
  id : Nat
  state : CState := .dead
  aitype : AiType := .human
  isLocal : Bool := false
  clientmap : String := ""
  mapcrc : Int := 0
  warned : Bool := false
  isSpecLocked : Bool := false
deriving DecidableEq, Repr

/-- `crcinfo`. -/
structure Crcinfo where
  crc : Int
  nmatches : Nat
deriving DecidableEq, Repr

/-- What is sent about maps. -/
inductive Mapmsg
  | servmsg (req : Int) (id : Nat) (msg : String)
  | spectator (id : Nat)
  | mapchange
deriving DecidableEq, Repr

/-- What `checkmaps` reads of the server, and what has been sent. -/
structure Mapserver where
  m_edit : Bool := false
  smapname : String := ""
  mcrc : UInt32 := 0
  modifiedmapspectator : Int := 1
  clients : List Mapclient := []
  sent : List Mapmsg := []
deriving DecidableEq, Repr

/-- `ci->state.state!=CS_SPECTATOR && ci->state.aitype == AI_NONE`. -/
def Mapclient.playing (ci : Mapclient) : Bool := ci.state ≠ .spectator && ci.aitype = .human

/-- The first entry with this checksum has one more, or there is a new entry. -/
def addmatch (crc : Int) : List Crcinfo → List Crcinfo
  | [] => [⟨crc, 1⟩]
  | c :: crcs =>
    if c.crc = crc then { c with nmatches := c.nmatches + 1 } :: crcs else c :: addmatch crc crcs

/-- `crcs`, `total`, `unsent` and `invalid`. -/
structure Crccount where
  crcs : List Crcinfo
  total : Nat := 0
  unsent : Nat := 0
  invalid : Nat := 0

/-- A client is counted. -/
def countclient (c : Crccount) (ci : Mapclient) : Crccount :=
  if !ci.playing then c
  else
    let c := { c with total := c.total + 1 }
    if ci.clientmap = "" then
      if ci.mapcrc < 0 then { c with invalid := c.invalid + 1 }
      else if ci.mapcrc = 0 then { c with unsent := c.unsent + 1 }
      else c
    else { c with crcs := addmatch ci.mapcrc c.crcs }

/-- `mcrc` as an `int`. -/
@[irreducible] def Mapserver.servercrc (s : Mapserver) : Int := int32 s.mcrc.toNat

/-- The entry of the server, which no other comes up to. -/
def servercrcs (s : Mapserver) : List Crcinfo :=
  if s.mcrc ≠ 0 then [⟨s.servercrc, s.clients.length + 1⟩] else []

/-- The loop that counts the clients. -/
def countcrcs (s : Mapserver) : Crccount := s.clients.foldl countclient { crcs := servercrcs s }

/-- `crcinfo::compare`. -/
def comparecrcs (x y : Crcinfo) (u : Unit) : Bool × Unit := (y.nmatches < x.nmatches, u)

variable (colorname : Nat → String)

/-- The message about a client. -/
def modifiedmsg (smapname : String) (req : Int) (ci : Mapclient) : Mapmsg :=
  .servmsg req ci.id (colorname ci.id ++ " has modified map \"" ++ smapname ++ "\"")

/-- Those with such a map and checksum are warned and marked. -/
def warnclients (req : Int) (modified : String → Int → Bool) (s : Mapserver) : Mapserver :=
  let chosen (ci : Mapclient) : Bool :=
    ci.playing && modified ci.clientmap ci.mapcrc && !(req < 0 && ci.warned)
  { s with
    clients := s.clients.map fun ci =>
      if chosen ci && req < 0 then { ci with warned := true } else ci
    sent := s.sent ++ (s.clients.filter chosen).map (modifiedmsg colorname s.smapname req) }

/-- `!ci->clientmap[0] && ci->mapcrc < 0`. -/
def invalidmap (clientmap : String) (mapcrc : Int) : Bool := clientmap = "" && mapcrc < 0

/-- `ci->clientmap[0] && ci->mapcrc == info.crc`. -/
def hascrc (info : Crcinfo) (clientmap : String) (mapcrc : Int) : Bool :=
  clientmap ≠ "" && mapcrc = info.crc

/-- The loop over the sorted entries, if there are two. -/
def warncrcs (req : Int) (s : Mapserver) : List Crcinfo → Mapserver
  | first :: second :: crcs =>
    let s :=
      if first.nmatches ≤ second.nmatches then warnclients colorname req (hascrc first) s else s
    (second :: crcs).foldl (fun s info => warnclients colorname req (hascrc info) s) s
  | _ => s

/-- `!ci->local && ci->warned && ci->state.state != CS_SPECTATOR`. -/
def Mapclient.tospectate (ci : Mapclient) : Bool :=
  !ci.isLocal && ci.warned && ci.state ≠ .spectator

/-- The loop over those who are to watch. -/
def spectatewarned (s : Mapserver) : Mapserver :=
  { s with
    clients := s.clients.map fun ci =>
      if ci.tospectate then { ci with state := .spectator, isSpecLocked := true } else ci
    sent := s.sent ++ (s.clients.filter Mapclient.tospectate).map fun ci => .spectator ci.id }

/-- `checkmaps(req)`. -/
def checkmaps (req : Int) (s : Mapserver) : Option Mapserver :=
  if s.m_edit || s.smapname = "" then some s
  else
    let c := countcrcs s
    if s.mcrc = 0 && c.total - c.unsent < min c.total 4 then some s
    else
      (Quicksort.sort comparecrcs c.crcs ()).map fun (crcs, _) =>
        let s := warncrcs colorname req (warnclients colorname req invalidmap s) crcs
        if req < 0 && s.modifiedmapspectator ≠ 0 && (s.mcrc ≠ 0 || s.modifiedmapspectator = 1) then
          spectatewarned s
        else s

/-! ## Who is judged -/

/-- How many play and report this checksum. -/
def Mapserver.reports (s : Mapserver) (crc : Int) : Nat :=
  s.clients.countP fun ci => ci.playing && ci.clientmap ≠ "" && ci.mapcrc = crc

/-- The checksum of the server, or else the one that more report than any other. -/
def IsReference (s : Mapserver) (crc : Int) : Prop :=
  if s.mcrc ≠ 0 then crc = s.servercrc else Tally.Leads s.reports crc

/-- Somebody who plays has another map. -/
def Modified (s : Mapserver) (ci : Mapclient) : Prop :=
  ci.playing = true ∧ (ci.clientmap = "" ∧ ci.mapcrc < 0 ∨
    ci.clientmap ≠ "" ∧ ¬IsReference s ci.mapcrc)

/-- How many play, and how many of them have reported something. -/
def Mapserver.total (s : Mapserver) : Nat := s.clients.countP Mapclient.playing

def Mapserver.reported (s : Mapserver) : Nat :=
  s.clients.countP fun ci => ci.playing && !(ci.clientmap = "" && ci.mapcrc = 0)

/-- There is a map that is not being edited, and enough is known about it. -/
structure Judges (s : Mapserver) : Prop where
  played : s.m_edit = false
  named : s.smapname ≠ ""
  known : s.mcrc ≠ 0 ∨ min s.total 4 ≤ s.reported

/-! ## The counts -/

theorem addmatch_eq (crc : Int) (crcs : List Crcinfo) : addmatch crc crcs =
    Tally.bump Crcinfo.crc (fun c => { c with nmatches := c.nmatches + 1 }) ⟨crc, 1⟩ crcs := by
  induction crcs with
  | nil => rfl
  | cons c crcs ih => rw [addmatch, Tally.bump, ih]

/-- What the loop has counted. -/
structure Counted (l : List Mapclient) (f : Int → Nat) (c d : Crccount) : Prop where
  crcs : Tally.Tallies Crcinfo.crc Crcinfo.nmatches d.crcs fun k =>
    f k + l.countP fun ci => ci.playing && ci.clientmap ≠ "" && ci.mapcrc = k
  total : d.total = c.total + l.countP Mapclient.playing
  unsent : d.unsent =
    c.unsent + l.countP fun ci => ci.playing && (ci.clientmap = "" && ci.mapcrc = 0)

/-- A client is counted if he plays. -/
theorem countclient_spec {c : Crccount} {f : Int → Nat}
    (h : Tally.Tallies Crcinfo.crc Crcinfo.nmatches c.crcs f) (ci : Mapclient) :
    Counted [ci] f c (countclient c ci) := by
  unfold countclient
  by_cases hplay : ci.playing = true
  · by_cases hmap : ci.clientmap = ""
    · by_cases hneg : ci.mapcrc < 0
      · have hzero : ci.mapcrc ≠ 0 := by omega
        exact ⟨by simpa [hplay, hmap, hneg] using h, by simp [hplay, hmap, hneg],
          by simp [hplay, hmap, hneg, hzero]⟩
      · by_cases hzero : ci.mapcrc = 0
        · exact ⟨by simpa [hplay, hmap, hzero] using h, by simp [hplay, hmap, hzero],
            by simp [hplay, hmap, hzero]⟩
        · exact ⟨by simpa [hplay, hmap, hneg, hzero] using h, by simp [hplay, hmap, hneg, hzero],
            by simp [hplay, hmap, hneg, hzero]⟩
    · have hbump := h.bump (fun c => { c with nmatches := c.nmatches + 1 }) ⟨ci.mapcrc, 1⟩
        (fun _ => rfl) (fun _ => rfl) rfl
      rw [← addmatch_eq] at hbump
      refine ⟨?_, by simp [hplay, hmap], by simp [hplay, hmap]⟩
      have hone : (fun k => f k + [ci].countP fun ci =>
          ci.playing && ci.clientmap ≠ "" && ci.mapcrc = k) =
          fun k => f k + if k = ci.mapcrc then 1 else 0 := by
        funext k
        by_cases hk : k = ci.mapcrc
        · simp [hplay, hmap, hk]
        · simp [hplay, hmap, hk, Ne.symm hk]
      rw [hone]
      simpa only [hplay, hmap, Bool.not_true, Bool.false_eq_true, if_false] using hbump
  · exact ⟨by simpa [hplay] using h, by simp [hplay], by simp [hplay]⟩

theorem Counted.cons {ci : Mapclient} {l : List Mapclient} {f : Int → Nat} {c d e : Crccount}
    (h : Counted [ci] f c d)
    (h' : Counted l (fun k => f k + [ci].countP fun ci =>
      ci.playing && ci.clientmap ≠ "" && ci.mapcrc = k) d e) : Counted (ci :: l) f c e where
  crcs := by
    have hadd : ∀ p : Mapclient → Bool, (ci :: l).countP p = [ci].countP p + l.countP p := by
      intro p
      rw [← List.countP_append, List.singleton_append]
    simpa only [hadd, Nat.add_assoc] using h'.crcs
  total := by
    rw [h'.total, h.total, Nat.add_assoc, ← List.countP_append, List.singleton_append]
  unsent := by
    rw [h'.unsent, h.unsent, Nat.add_assoc, ← List.countP_append, List.singleton_append]

theorem countclients_spec (l : List Mapclient) : ∀ (c : Crccount) (f : Int → Nat),
    Tally.Tallies Crcinfo.crc Crcinfo.nmatches c.crcs f →
    Counted l f c (l.foldl countclient c) := by
  induction l with
  | nil => exact fun c f h => ⟨h, rfl, rfl⟩
  | cons ci l ih =>
    intro c f h
    have hstep := countclient_spec h ci
    exact hstep.cons (ih _ _ hstep.crcs)

/-- What the entry of the server adds. -/
def headstart (s : Mapserver) (k : Int) : Nat :=
  if s.mcrc ≠ 0 ∧ k = s.servercrc then s.clients.length + 1 else 0

theorem headstart_server {s : Mapserver} (h : s.mcrc ≠ 0) :
    headstart s s.servercrc = s.clients.length + 1 := by
  rw [headstart, if_pos ⟨h, rfl⟩]

theorem headstart_other {s : Mapserver} {k : Int} (h : k ≠ s.servercrc) : headstart s k = 0 := by
  rw [headstart, if_neg fun hk => h hk.2]

theorem headstart_unknown {s : Mapserver} (h : ¬s.mcrc ≠ 0) (k : Int) : headstart s k = 0 := by
  rw [headstart, if_neg fun hk => h hk.1]

theorem countcrcs_spec (s : Mapserver) :
    Tally.Tallies Crcinfo.crc Crcinfo.nmatches (countcrcs s).crcs
      (fun k => headstart s k + s.reports k) ∧
    (countcrcs s).total = s.total ∧ (countcrcs s).total - (countcrcs s).unsent = s.reported := by
  have hstart : Tally.Tallies Crcinfo.crc Crcinfo.nmatches (servercrcs s) (headstart s) := by
    unfold servercrcs
    split
    · next hmcrc =>
      refine ⟨List.nodup_singleton _, fun b hb => ?_, fun k => ?_⟩
      · rw [List.mem_singleton.mp hb, headstart_server hmcrc]
      · rw [headstart, List.map_singleton, List.mem_singleton]
        split
        · next h => exact iff_of_true (Nat.succ_pos _) h.2
        · next h => exact iff_of_false (Nat.lt_irrefl 0) fun hk => h ⟨hmcrc, hk⟩
    · next hmcrc =>
      rw [show headstart s = fun _ => 0 from funext (headstart_unknown hmcrc)]
      exact Tally.tallies_nil
  obtain ⟨hcrcs, htotal, hunsent⟩ := countclients_spec s.clients { crcs := servercrcs s } _ hstart
  refine ⟨hcrcs, htotal.trans (Nat.zero_add _), ?_⟩
  -- those who play have reported something or nothing
  have hsplit : s.total = s.reported +
      s.clients.countP fun ci => ci.playing && (ci.clientmap = "" && ci.mapcrc = 0) := by
    unfold Mapserver.total Mapserver.reported
    rw [List.countP_eq_countP_filter_add s.clients Mapclient.playing
      fun ci => !(ci.clientmap = "" && ci.mapcrc = 0), List.countP_filter, List.countP_filter]
    congr 1
    exact List.countP_congr fun ci _ => by simp
  unfold countcrcs
  rw [htotal, hunsent]
  unfold Mapserver.total at hsplit
  dsimp only
  omega

theorem reports_le (s : Mapserver) (k : Int) : s.reports k ≤ s.clients.length :=
  List.countP_le_length

/-- The greatest count is that of the reference. -/
theorem leads_iff (s : Mapserver) {k : Int} :
    Tally.Leads (fun k => headstart s k + s.reports k) k ↔ IsReference s k := by
  unfold IsReference
  split
  · next hmcrc =>
    have hle := reports_le s
    constructor
    · intro hlead
      by_contra hne
      have hlt := hlead _ (Ne.symm hne)
      have hk := hle k
      dsimp only at hlt
      rw [headstart_server hmcrc, headstart_other hne] at hlt
      omega
    · rintro rfl c hc
      have hcle := hle c
      dsimp only
      rw [headstart_server hmcrc, headstart_other hc]
      omega
  · next hmcrc =>
    unfold Tally.Leads
    simp only [headstart_unknown hmcrc, Nat.zero_add]

/-! ## The warnings -/

section

variable {colorname : Nat → String} {s t u : Mapserver} {p q : String → Int → Bool}

/-- Who plays with such a map and checksum. -/
def Mapclient.has (p : String → Int → Bool) (ci : Mapclient) : Bool :=
  ci.playing && p ci.clientmap ci.mapcrc

/-- He is marked. -/
def mark (p : String → Int → Bool) (ci : Mapclient) : Mapclient :=
  { ci with warned := ci.warned || ci.has p }

/-- Those who have such maps are marked, and each who was not before is warned. -/
structure Warned (colorname : Nat → String) (s : Mapserver) (p : String → Int → Bool)
    (t : Mapserver) : Prop where
  state : t = { s with clients := s.clients.map (mark p), sent := t.sent }
  sent : ∃ new, t.sent = s.sent ++ new ∧ new.Perm ((s.clients.filter fun ci =>
    ci.has p && !ci.warned).map (modifiedmsg colorname s.smapname (-1)))

theorem warnclients_warned (colorname : Nat → String) (p : String → Int → Bool) (s : Mapserver) :
    Warned colorname s p (warnclients colorname (-1) p s) := by
  have hneg : decide ((-1 : Int) < 0) = true := by decide
  constructor
  · unfold warnclients
    simp only [hneg, Bool.true_and, Bool.and_true]
    congr 1
    refine List.map_congr_left fun ci _ => ?_
    rw [mark, Mapclient.has]
    cases hhas : ci.playing && p ci.clientmap ci.mapcrc with
    | false => simp
    | true =>
      cases hw : ci.warned with
      | false => simp
      | true =>
        simp only [Bool.not_true, Bool.and_false, Bool.false_eq_true, if_false, Bool.or_true]
        rw [← hw]
  · refine ⟨_, rfl, .of_eq ?_⟩
    simp only [hneg, Bool.true_and]
    rfl

theorem Warned.none (colorname : Nat → String) (s : Mapserver) :
    Warned colorname s (fun _ _ => false) s := by
  have hhas : ∀ ci : Mapclient, ci.has (fun _ _ => false) = false := fun ci => Bool.and_false _
  refine ⟨?_, [], (List.append_nil _).symm, ?_⟩
  · have hid : s.clients.map (mark fun _ _ => false) = s.clients := by
      conv_rhs => rw [← List.map_id s.clients]
      refine List.map_congr_left fun ci _ => ?_
      simp only [mark, hhas, Bool.or_false, id_eq]
    rw [hid]
  · simp [hhas]

/-- Those who are chosen by one of two, the one after the other. -/
theorem filter_or_perm {l : List Mapclient} (a b : Mapclient → Bool) :
    (l.filter a ++ l.filter fun ci => b ci && !a ci).Perm (l.filter fun ci => a ci || b ci) := by
  have hsplit := List.filter_append_perm a (l.filter fun ci => a ci || b ci)
  rw [List.filter_filter, List.filter_filter] at hsplit
  refine .trans (.of_eq ?_) hsplit
  congr 1
  · exact List.filter_congr fun ci _ => by cases a ci <;> simp
  · exact List.filter_congr fun ci _ => by cases a ci <;> simp

theorem Warned.trans (h : Warned colorname s p t) (h' : Warned colorname t q u) :
    Warned colorname s (fun m c => p m c || q m c) u := by
  obtain ⟨hstate, new, hsent, hnew⟩ := h
  obtain ⟨hstate', new', hsent', hnew'⟩ := h'
  have hclients : t.clients = s.clients.map (mark p) := by rw [hstate]
  have hname : t.smapname = s.smapname := by rw [hstate]
  have hor : ∀ ci : Mapclient, ci.has (fun m c => p m c || q m c) = (ci.has p || ci.has q) :=
    fun ci => Bool.and_or_distrib_left ..
  refine ⟨?_, new ++ new', ?_, ?_⟩
  · rw [hstate', hclients, List.map_map]
    have hmark : mark q ∘ mark p = mark fun m c => p m c || q m c := by
      funext ci
      rw [Function.comp_apply, mark, mark, mark, hor, ← Bool.or_assoc]
      rfl
    rw [hmark, hstate]
  · rw [hsent', hsent, List.append_assoc]
  · -- the second round leaves out those whom the first has marked
    rw [hclients, hname, List.filter_map, List.map_map] at hnew'
    refine (hnew.append hnew').trans ?_
    have hmsg : modifiedmsg colorname s.smapname (-1) ∘ mark p =
        modifiedmsg colorname s.smapname (-1) := rfl
    rw [hmsg, ← List.map_append]
    refine List.Perm.map _ ?_
    have hfirst : (s.clients.filter fun ci => ci.has p && !ci.warned) =
        (s.clients.filter fun ci => !ci.warned).filter fun ci => ci.has p := by
      rw [List.filter_filter]
    have hsecond : s.clients.filter ((fun ci => ci.has q && !ci.warned) ∘ mark p) =
        (s.clients.filter fun ci => !ci.warned).filter fun ci => ci.has q && !ci.has p := by
      rw [List.filter_filter]
      refine List.filter_congr fun ci _ => ?_
      have hhas : (mark p ci).has q = ci.has q := rfl
      rw [Function.comp_apply, hhas, mark, Bool.not_or, Bool.and_assoc, Bool.and_comm (!ci.warned)]
    rw [hfirst, hsecond]
    refine (filter_or_perm _ _).trans (.of_eq ?_)
    rw [List.filter_filter]
    exact List.filter_congr fun ci _ => by rw [hor]

theorem warncrcs_eq (colorname : Nat → String) (req : Int) (s : Mapserver) (crcs : List Crcinfo) :
    warncrcs colorname req s crcs = (Tally.trailing Crcinfo.nmatches crcs).foldl
      (fun s info => warnclients colorname req (hascrc info) s) s := by
  rcases crcs with _ | ⟨a, _ | ⟨b, crcs⟩⟩
  · rfl
  · rfl
  · rw [warncrcs, Tally.trailing]
    split <;> rfl

theorem foldl_warned (colorname : Nat → String) (infos : List Crcinfo) : ∀ s : Mapserver,
    Warned colorname s (fun m c => infos.any fun info => hascrc info m c)
      (infos.foldl (fun s info => warnclients colorname (-1) (hascrc info) s) s) := by
  induction infos with
  | nil => exact fun s => .none colorname s
  | cons info infos ih =>
    intro s
    have h := (warnclients_warned colorname (hascrc info) s).trans (ih _)
    simp only [List.any_cons, List.foldl_cons]
    exact h

end

/-! ## The verdict -/

/-- `checkmaps(-1)` after it has judged: whom it spectates. -/
def settle (s : Mapserver) : Mapserver :=
  if s.modifiedmapspectator ≠ 0 ∧ (s.mcrc ≠ 0 ∨ s.modifiedmapspectator = 1) then spectatewarned s
  else s

/-- Nothing happens without a judgement, and else those with modified maps are marked. -/
theorem checkmaps_spec (colorname : Nat → String) (s : Mapserver) :
    (¬Judges s → checkmaps colorname (-1) s = some s) ∧
    (Judges s → ∃ p t, checkmaps colorname (-1) s = some (settle t) ∧ Warned colorname s p t ∧
      ∀ ci ∈ s.clients, ci.has p = true ↔ Modified s ci) := by
  obtain ⟨htally, htotal, hreported⟩ := countcrcs_spec s
  constructor
  · intro hno
    unfold checkmaps
    split
    · rfl
    · next hmap =>
      simp only [Bool.or_eq_true, decide_eq_true_eq, not_or, Bool.not_eq_true] at hmap
      dsimp only
      rw [if_pos]
      rw [hreported, htotal, Bool.and_eq_true, decide_eq_true_eq, decide_eq_true_eq]
      by_contra hcon
      refine hno ⟨hmap.1, hmap.2, ?_⟩
      by_cases hmcrc : s.mcrc = 0
      · exact Or.inr (by_contra fun hlt => hcon ⟨hmcrc, by omega⟩)
      · exact Or.inl hmcrc
  · intro hj
    obtain ⟨crcs, u, hsort, hperm, hord⟩ := Quicksort.sort_exact comparecrcs (countcrcs s).crcs ()
    have hsorted := hord (fun x y => y.nmatches < x.nmatches)
      { asymm := fun x y h h' => by omega
        trans := fun x y z h h' => by omega
        decides := fun x y u => by simp [comparecrcs] }
    have hdesc : crcs.Pairwise fun a b => b.nmatches ≤ a.nmatches :=
      hsorted.imp fun h => Nat.le_of_not_lt h
    have hcrcs := htally.perm hperm.symm
    have hwarn := (warnclients_warned colorname invalidmap s).trans
      (foldl_warned colorname (Tally.trailing Crcinfo.nmatches crcs) _)
    rw [← warncrcs_eq] at hwarn
    refine ⟨_, _, ?_, hwarn, fun ci hci => ?_⟩
    · unfold checkmaps
      rw [if_neg (by simp [hj.played, hj.named])]
      dsimp only
      rw [if_neg, hsort]
      · simp [settle]
      · rw [hreported, htotal, Bool.and_eq_true, decide_eq_true_eq, decide_eq_true_eq]
        rintro ⟨hmcrc, hlt⟩
        rcases hj.known with h | h
        · exact h hmcrc
        · omega
    · rw [Mapclient.has, Bool.and_eq_true, Modified]
      refine and_congr_right fun hplay => ?_
      rw [Bool.or_eq_true, invalidmap, Bool.and_eq_true, decide_eq_true_eq, decide_eq_true_eq]
      refine or_congr_right ?_
      rw [List.any_eq_true]
      constructor
      · rintro ⟨info, hinfo, hhas⟩
        rw [hascrc, Bool.and_eq_true, decide_eq_true_eq, decide_eq_true_eq] at hhas
        obtain ⟨hmap, hcrc⟩ := hhas
        refine ⟨hmap, ?_⟩
        have hpos : 0 < headstart s ci.mapcrc + s.reports ci.mapcrc := by
          refine Nat.lt_of_lt_of_le ?_ (Nat.le_add_left _ _)
          exact List.countP_pos_iff.mpr ⟨ci, hci, by simp [hplay, hmap]⟩
        rw [← leads_iff, ← hcrcs.mem_trailing_iff hdesc hpos]
        exact hcrc ▸ List.mem_map_of_mem hinfo
      · rintro ⟨hmap, href⟩
        have hpos : 0 < headstart s ci.mapcrc + s.reports ci.mapcrc := by
          refine Nat.lt_of_lt_of_le ?_ (Nat.le_add_left _ _)
          exact List.countP_pos_iff.mpr ⟨ci, hci, by simp [hplay, hmap]⟩
        rw [← leads_iff, ← hcrcs.mem_trailing_iff hdesc hpos] at href
        obtain ⟨info, hinfo, hcrc⟩ := List.mem_map.mp href
        exact ⟨info, hinfo, by simp [hascrc, hmap, hcrc]⟩

/-! ## Warnings on a map -/

/-- What happens to what `checkmaps` reads. -/
inductive Mapevent
  | check
  | checkfor (sender : Nat)
  | change (id : Nat) (state : CState) (clientmap : String) (mapcrc : Int) (isSpecLocked : Bool)
  | connect (aitype : AiType) (isLocal : Bool)
  | disconnect (id : Nat)
  | changemap (m_edit : Bool) (smapname : String) (mcrc : UInt32)
  | setmodifiedmapspectator (n : Int)
deriving DecidableEq, Repr

/-- `mapchange()`. -/
def Mapclient.mapchange (ci : Mapclient) : Mapclient :=
  { ci with clientmap := "", mapcrc := 0, warned := false }

/-- The server with the number of the next `clientinfo`. -/
def nextmap (colorname : Nat → String) : Mapserver × Nat → Mapevent → Option (Mapserver × Nat)
  | (s, n), .check => (checkmaps colorname (-1) s).map (·, n)
  | (s, n), .checkfor sender => (checkmaps colorname sender s).map (·, n)
  | (s, n), .change id state clientmap mapcrc isSpecLocked =>
    some ({ s with clients := s.clients.map fun ci =>
      if ci.id = id then { ci with state, clientmap, mapcrc, isSpecLocked } else ci }, n)
  | (s, n), .connect aitype isLocal =>
    some ({ s with clients := s.clients ++ [{ id := n, aitype, isLocal }] }, n + 1)
  | (s, n), .disconnect id => some ({ s with clients := s.clients.filter fun ci => ci.id ≠ id }, n)
  | (s, n), .changemap m_edit smapname mcrc =>
    some ({ s with m_edit, smapname, mcrc, clients := s.clients.map Mapclient.mapchange,
                   sent := s.sent ++ [.mapchange] }, n)
  | (s, n), .setmodifiedmapspectator k => some ({ s with modifiedmapspectator := k }, n)

/-- A run. -/
def runmaps (colorname : Nat → String) (s : Mapserver × Nat) (es : List Mapevent) :
    Option (Mapserver × Nat) := es.foldlM (nextmap colorname) s

/-- A warning about a client to all. -/
def Mapmsg.warns (id : Nat) : Mapmsg → Bool
  | .servmsg req about _ => req < 0 && about = id
  | _ => false

/-- What has been sent since the last change of map. -/
def sincechange (sent : List Mapmsg) : List Mapmsg := sent.rtakeWhile (· ≠ .mapchange)

section

variable {colorname : Nat → String} {s t u : Mapserver} {p : String → Int → Bool} {n : Nat}

/-- Only messages to one client have been sent. -/
def Answered (s t : Mapserver) : Prop :=
  ∃ new, t = { s with sent := s.sent ++ new } ∧
    ∀ m ∈ new, m ≠ .mapchange ∧ ∀ id, m.warns id = false

theorem Answered.refl (s : Mapserver) : Answered s s := ⟨[], by rw [List.append_nil], by simp⟩

theorem Answered.trans (h : Answered s t) (h' : Answered t u) : Answered s u := by
  obtain ⟨new, rfl, hnew⟩ := h
  obtain ⟨new', rfl, hnew'⟩ := h'
  refine ⟨new ++ new', by rw [List.append_assoc], fun m hm => ?_⟩
  rcases List.mem_append.mp hm with hm | hm
  · exact hnew m hm
  · exact hnew' m hm

theorem warnclients_answered (colorname : Nat → String) (sender : Nat) (p : String → Int → Bool)
    (s : Mapserver) : Answered s (warnclients colorname sender p s) := by
  have hreq : decide ((sender : Int) < 0) = false := by simp
  refine ⟨(s.clients.filter (Mapclient.has p)).map (modifiedmsg colorname s.smapname sender), ?_,
    fun m hm => ?_⟩
  · unfold warnclients
    simp only [hreq, Bool.and_false, Bool.false_eq_true, if_false, List.map_id', Bool.false_and,
      Bool.not_false, Bool.and_true]
    rfl
  · obtain ⟨ci, -, rfl⟩ := List.mem_map.mp hm
    exact ⟨nofun, fun id => by rw [modifiedmsg, Mapmsg.warns, hreq, Bool.false_and]⟩

theorem checkmaps_answered (colorname : Nat → String) (sender : Nat) (s : Mapserver) :
    ∃ t, checkmaps colorname sender s = some t ∧ Answered s t := by
  unfold checkmaps
  split
  · exact ⟨s, rfl, .refl s⟩
  · dsimp only
    split
    · exact ⟨s, rfl, .refl s⟩
    · obtain ⟨crcs, u, hsort, -⟩ := Quicksort.sort_exact comparecrcs (countcrcs s).crcs ()
      have hfold : ∀ (infos : List Crcinfo) (s : Mapserver), Answered s
          (infos.foldl (fun s info => warnclients colorname sender (hascrc info) s) s) := by
        intro infos
        induction infos with
        | nil => exact .refl
        | cons info infos ih =>
          exact fun s => (warnclients_answered colorname sender _ s).trans (ih _)
      have hreq : decide ((sender : Int) < 0) = false := by simp
      refine ⟨_, by rw [hsort, Option.map_some], ?_⟩
      simp only [hreq, Bool.false_and, Bool.false_eq_true, if_false, warncrcs_eq]
      exact (warnclients_answered colorname sender _ s).trans (hfold _ _)

theorem sincechange_append {sent new : List Mapmsg} (h : ∀ m ∈ new, m ≠ .mapchange) :
    sincechange (sent ++ new) = sincechange sent ++ new := by
  induction new using List.reverseRecOn with
  | nil => rw [List.append_nil, List.append_nil]
  | append_singleton new m ih =>
    have hm := h m (by simp)
    rw [← List.append_assoc, sincechange, List.rtakeWhile_concat_pos _ _ _ (by simpa using hm),
      ← sincechange, ih fun x hx => h x (List.mem_append_left _ hx), List.append_assoc]

/-- How often a client has been warned on the map. -/
def warnings (s : Mapserver) (id : Nat) : Nat := (sincechange s.sent).countP (Mapmsg.warns id)

theorem warnings_append {new : List Mapmsg} (hsent : t.sent = s.sent ++ new)
    (h : ∀ m ∈ new, m ≠ .mapchange) (id : Nat) :
    warnings t id = warnings s id + new.countP (Mapmsg.warns id) := by
  rw [warnings, hsent, sincechange_append h, List.countP_append, warnings]

theorem Answered.warnings_eq (h : Answered s t) (id : Nat) : warnings t id = warnings s id := by
  obtain ⟨new, rfl, hnew⟩ := h
  have hzero : new.countP (Mapmsg.warns id) = 0 :=
    List.countP_eq_zero.mpr fun m hm => by simp [(hnew m hm).2 id]
  rw [warnings_append rfl (fun m hm => (hnew m hm).1), hzero, Nat.add_zero]

theorem spectate_sent (s : Mapserver) : ∃ new, (settle s).sent = s.sent ++ new ∧
    ∀ m ∈ new, m ≠ .mapchange ∧ ∀ id, m.warns id = false := by
  unfold settle
  split
  · refine ⟨_, rfl, fun m hm => ?_⟩
    obtain ⟨ci, -, rfl⟩ := List.mem_map.mp hm
    exact ⟨nofun, fun _ => rfl⟩
  · exact ⟨[], (List.append_nil _).symm, by simp⟩

/-- The same clients are marked after they have been made to watch. -/
theorem mem_settle {di : Mapclient} (h : di ∈ (settle s).clients) :
    ∃ ci ∈ s.clients, di.id = ci.id ∧ di.warned = ci.warned := by
  unfold settle at h
  split at h
  · obtain ⟨ci, hci, rfl⟩ := List.mem_map.mp h
    exact ⟨ci, hci, by split <;> rfl, by split <;> rfl⟩
  · exact ⟨di, h, rfl, rfl⟩

theorem ids_settle (s : Mapserver) :
    (settle s).clients.map Mapclient.id = s.clients.map Mapclient.id := by
  unfold settle
  split
  · unfold spectatewarned
    rw [List.map_map]
    refine List.map_congr_left fun ci _ => ?_
    rw [Function.comp_apply]
    split <;> rfl
  · rfl

/-- Nobody is warned twice on a map, and those who are not marked have not been warned. -/
structure Once (x : Mapserver × Nat) : Prop where
  nodup : (x.1.clients.map Mapclient.id).Nodup
  issued : ∀ ci ∈ x.1.clients, ci.id < x.2
  once : ∀ id, warnings x.1 id ≤ 1
  future : ∀ id, x.2 ≤ id → warnings x.1 id = 0
  unwarned : ∀ ci ∈ x.1.clients, ci.warned = false → warnings x.1 ci.id = 0

/-- The warnings of a judgement. -/
theorem Warned.warnings_eq (h : Warned colorname s p t) (id : Nat) : warnings t id =
    warnings s id + s.clients.countP fun ci => ci.has p && !ci.warned && ci.id = id := by
  obtain ⟨-, new, hsent, hnew⟩ := h
  have hmsg : ∀ m ∈ new, m ≠ .mapchange := by
    intro m hm
    obtain ⟨ci, -, rfl⟩ := List.mem_map.mp (hnew.mem_iff.mp hm)
    nofun
  rw [warnings_append hsent hmsg, hnew.countP_eq, List.countP_map, List.countP_filter]
  congr 1
  refine List.countP_congr fun ci _ => ?_
  simp [modifiedmsg, Mapmsg.warns, and_comm]

theorem Once.check (h : Once (s, n)) (hw : Warned colorname s p t) : Once (settle t, n) := by
  obtain ⟨new, hsent, hnew⟩ := spectate_sent t
  have hwarn : ∀ id, warnings (settle t) id = warnings s id +
      s.clients.countP fun ci => ci.has p && !ci.warned && ci.id = id := by
    intro id
    have hzero : new.countP (Mapmsg.warns id) = 0 :=
      List.countP_eq_zero.mpr fun m hm => by simp [(hnew m hm).2 id]
    rw [warnings_append hsent (fun m hm => (hnew m hm).1), hzero, Nat.add_zero, hw.warnings_eq]
  have hclients : t.clients = s.clients.map (mark p) := by rw [hw.state]
  have hids : t.clients.map Mapclient.id = s.clients.map Mapclient.id := by
    rw [hclients, List.map_map]
    rfl
  refine ⟨?_, fun di hdi => ?_, fun id => ?_, fun id hid => ?_, fun di hdi hdw => ?_⟩
  · dsimp only
    rw [ids_settle, hids]
    exact h.nodup
  · obtain ⟨ti, hti, hid, -⟩ := mem_settle hdi
    rw [hclients] at hti
    obtain ⟨ci, hci, rfl⟩ := List.mem_map.mp hti
    rw [hid]
    exact h.issued ci hci
  · dsimp only
    rw [hwarn]
    by_cases hzero : (s.clients.countP fun ci => ci.has p && !ci.warned && ci.id = id) = 0
    · rw [hzero]
      exact h.once id
    · -- the only client of this number has not been warned before
      obtain ⟨ci, hci, hcond⟩ := List.countP_pos_iff.mp (Nat.pos_of_ne_zero hzero)
      simp only [Bool.and_eq_true, Bool.not_eq_true', decide_eq_true_eq] at hcond
      obtain ⟨⟨-, hcw⟩, rfl⟩ := hcond
      have hbefore := h.unwarned ci hci hcw
      dsimp only at hbefore
      have hone : (s.clients.countP fun di => di.has p && !di.warned && di.id = ci.id) ≤ 1 := by
        have hcount := List.nodup_iff_count_le_one.mp h.nodup ci.id
        rw [List.count, List.countP_map] at hcount
        refine (List.countP_mono_left fun di _ hdi => ?_).trans hcount
        simpa using (Bool.and_eq_true_iff.mp hdi).2
      omega
  · dsimp only at hid ⊢
    rw [hwarn, h.future id hid, Nat.zero_add, List.countP_eq_zero]
    intro ci hci
    have hlt := h.issued ci hci
    dsimp only at hlt
    have hne : ci.id ≠ id := by omega
    simp [hne]
  · obtain ⟨ti, hti, hid, hwd⟩ := mem_settle hdi
    rw [hclients] at hti
    obtain ⟨ci, hci, rfl⟩ := List.mem_map.mp hti
    rw [hwd, mark, Bool.or_eq_false_iff] at hdw
    have hsame : (mark p ci).id = ci.id := rfl
    dsimp only
    rw [hid, hsame, hwarn, h.unwarned ci hci hdw.1, Nat.zero_add, List.countP_eq_zero]
    intro di hdi hcond
    simp only [Bool.and_eq_true, Bool.not_eq_true', decide_eq_true_eq] at hcond
    have heq : di = ci := List.inj_on_of_nodup_map h.nodup hdi hci hcond.2
    rw [heq, hdw.2] at hcond
    exact absurd hcond.1.1 (by decide)

theorem Once.next (h : Once (s, n)) {e : Mapevent} {x : Mapserver × Nat}
    (hx : nextmap colorname (s, n) e = some x) : Once x := by
  cases e with
  | check =>
    obtain ⟨hno, hyes⟩ := checkmaps_spec colorname s
    by_cases hj : Judges s
    · obtain ⟨p, t, hrun, hw, -⟩ := hyes hj
      rw [nextmap, hrun, Option.map_some] at hx
      obtain rfl := Option.some.inj hx
      exact h.check hw
    · rw [nextmap, hno hj, Option.map_some] at hx
      obtain rfl := Option.some.inj hx
      exact h
  | checkfor sender =>
    obtain ⟨t, hrun, hans⟩ := checkmaps_answered colorname sender s
    rw [nextmap, hrun, Option.map_some] at hx
    obtain rfl := Option.some.inj hx
    have hwarn := hans.warnings_eq
    obtain ⟨new, rfl, -⟩ := hans
    exact ⟨h.nodup, h.issued, fun id => (hwarn id).trans_le (h.once id),
      fun id hid => (hwarn id).trans (h.future id hid),
      fun ci hci hcw => (hwarn ci.id).trans (h.unwarned ci hci hcw)⟩
  | change id state clientmap mapcrc isSpecLocked =>
    obtain rfl := Option.some.inj hx
    have hids : ((s.clients.map fun ci => if ci.id = id then
        { ci with state, clientmap, mapcrc, isSpecLocked } else ci).map Mapclient.id) =
          s.clients.map Mapclient.id := by
      rw [List.map_map]
      refine List.map_congr_left fun ci _ => ?_
      rw [Function.comp_apply]
      split <;> rfl
    refine ⟨?_, fun di hdi => ?_, h.once, h.future, fun di hdi hdw => ?_⟩
    · exact hids ▸ h.nodup
    · obtain ⟨ci, hci, rfl⟩ := List.mem_map.mp hdi
      have hlt := h.issued ci hci
      split <;> exact hlt
    · obtain ⟨ci, hci, rfl⟩ := List.mem_map.mp hdi
      have hzero := h.unwarned ci hci
      split at hdw
      · next hcid =>
        rw [if_pos hcid]
        exact hzero hdw
      · next hcid =>
        rw [if_neg hcid]
        exact hzero hdw
  | connect aitype isLocal =>
    obtain rfl := Option.some.inj hx
    refine ⟨?_, fun di hdi => ?_, h.once, fun id hid => h.future id (Nat.le_of_succ_le hid),
      fun di hdi hdw => ?_⟩
    · dsimp only
      rw [List.map_append, List.map_singleton]
      refine List.nodup_append.mpr ⟨h.nodup, List.nodup_singleton _, fun a ha b hb hab => ?_⟩
      obtain ⟨ci, hci, rfl⟩ := List.mem_map.mp ha
      obtain rfl := List.mem_singleton.mp hb
      have hlt := h.issued ci hci
      exact absurd hab (Nat.ne_of_lt hlt)
    · rcases List.mem_append.mp hdi with hdi | hdi
      · exact Nat.lt_succ_of_lt (h.issued di hdi)
      · rw [List.mem_singleton.mp hdi]
        exact Nat.lt_succ_self n
    · rcases List.mem_append.mp hdi with hdi | hdi
      · exact h.unwarned di hdi hdw
      · rw [List.mem_singleton.mp hdi]
        exact h.future n le_rfl
  | disconnect id =>
    obtain rfl := Option.some.inj hx
    exact ⟨h.nodup.sublist (List.filter_sublist.map _),
      fun ci hci => h.issued ci (List.mem_of_mem_filter hci), h.once, h.future,
      fun ci hci => h.unwarned ci (List.mem_of_mem_filter hci)⟩
  | changemap m_edit smapname mcrc =>
    obtain rfl := Option.some.inj hx
    have hnone : ∀ id, (sincechange (s.sent ++ [.mapchange])).countP (Mapmsg.warns id) = 0 := by
      intro id
      rw [sincechange, List.rtakeWhile_concat_neg _ _ _ (by simp)]
      rfl
    refine ⟨?_, fun di hdi => ?_, fun id => (hnone id).trans_le (Nat.zero_le 1),
      fun id _ => hnone id, fun di _ _ => hnone di.id⟩
    · dsimp only
      rw [List.map_map]
      exact h.nodup
    · obtain ⟨ci, hci, rfl⟩ := List.mem_map.mp hdi
      exact h.issued ci hci
  | setmodifiedmapspectator k =>
    obtain rfl := Option.some.inj hx
    exact ⟨h.nodup, h.issued, h.once, h.future, h.unwarned⟩

theorem Once.run {x y : Mapserver × Nat} (h : Once x) {es : List Mapevent}
    (hrun : runmaps colorname x es = some y) : Once y := by
  induction es generalizing x with
  | nil =>
    obtain rfl := Option.some.inj hrun
    exact h
  | cons e es ih =>
    rw [runmaps, List.foldlM_cons, Option.bind_eq_bind, Option.bind_eq_some_iff] at hrun
    obtain ⟨x', hx', hrun⟩ := hrun
    exact ih (h.next hx') hrun

end

/-- **`checkmaps`**.  A judgement marks those with modified maps, and each of them who was not
marked before is warned; there is one if and only if a map is played, and the server knows it or
enough have reported.  In every run nobody is warned twice between two changes of map. -/
theorem checkmaps_exact (colorname : Nat → String) :
    (∀ s : Mapserver, (¬Judges s → checkmaps colorname (-1) s = some s) ∧
      (Judges s → ∃ (modified : Mapclient → Bool) (t : Mapserver) (new : List Mapmsg),
        checkmaps colorname (-1) s = some (settle t) ∧
        (∀ ci ∈ s.clients, modified ci = true ↔ Modified s ci) ∧
        t = { s with
          clients := s.clients.map fun ci => { ci with warned := ci.warned || modified ci }
          sent := s.sent ++ new } ∧
        new.Perm ((s.clients.filter fun ci => modified ci && !ci.warned).map
          (modifiedmsg colorname s.smapname (-1))))) ∧
    ∀ (es : List Mapevent) (t : Mapserver) (n : Nat), runmaps colorname ({}, 0) es = some (t, n) →
      ∀ id, warnings t id ≤ 1 := by
  refine ⟨fun s => ⟨(checkmaps_spec colorname s).1, fun hj => ?_⟩, fun es t n hrun => ?_⟩
  · obtain ⟨p, t, hrun, hw, hp⟩ := (checkmaps_spec colorname s).2 hj
    obtain ⟨hstate, new, hsent, hnew⟩ := hw
    refine ⟨Mapclient.has p, t, new, hrun, hp, ?_, hnew⟩
    rw [← hsent]
    exact hstate
  · have hstart : Once ({}, 0) :=
      ⟨List.nodup_nil, nofun, fun _ => Nat.zero_le 1, fun _ _ => rfl, nofun⟩
    exact (hstart.run hrun).once

/-- Nobody is judged on a map that is being edited. -/
theorem edited_unjudged : ∃ (s : Mapserver) (ci : Mapclient), ci ∈ s.clients ∧ s.mcrc ≠ 0 ∧
    Modified s ci ∧ ∀ colorname, checkmaps colorname (-1) s = some s ∧ ci.warned = false :=
  ⟨{ m_edit := true, smapname := "complex", mcrc := 1, clients := [{ id := 0, mapcrc := -1 }] },
    { id := 0, mapcrc := -1 }, List.mem_singleton_self _, by decide,
    ⟨rfl, Or.inl ⟨rfl, by decide⟩⟩, fun _ => ⟨rfl, rfl⟩⟩

end Checkmaps

end QServ
