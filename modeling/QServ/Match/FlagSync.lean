import QServ.Lib.Replica
import QServ.Match.Flags

/-!
# Flags at the clients

The client of `fpsgame/ctf.h`, which keeps a copy of the flags and the scores by the messages of the
server.

* `FlagClient.recv`: what a client does with a message about a flag.
* `Flag.Seen`, `Ctf.Agree`: the copy has the version, the place, the spawn index and the
  invisibility of every flag, and the scores.
* `Ctf.Hands`: a pass that the target takes over; of another one the clients are told nothing.
* `flags_followed`: in every run in which every flag that is passed is taken over, a client that
  joins at any time agrees from then on.
-/

namespace QServ

open Replica

/-! ## The client -/

/-- `ctfclientmode::flag`, as far as it comes from the server: the number of the owner or -1,
whether `droptime` is not 0, and whether `vistime` is 0. -/
structure FlagView where
  version : Int := 0
  spawnindex : Int := -1
  owner : Int := -1
  dropped : Bool := false
  invisible : Bool := false
  deriving DecidableEq, Repr

namespace FlagView

variable (v : FlagView)

/-- Where the client sees the flag. -/
def place : Ctf.Place :=
  if 0 ≤ v.owner then .owned v.owner else if v.dropped then .dropped else .home

/-- `ownflag(i, owner, owntime, ownteam)`. -/
def ownflag (owner : Int) : FlagView := { v with owner, invisible := false }

/-- `dropflag(i, o, yaw, droptime)`. -/
def dropflag : FlagView := { v with owner := -1, dropped := true, invisible := false }

/-- `returnflag(i, vistime)`, where `invisible` is whether `vistime` is 0. -/
def returnflag (invisible : Bool) : FlagView := { v with owner := -1, dropped := false, invisible }

end FlagView

/-- `ctfclientmode`, with the mode of the game. -/
structure FlagClient where
  flags : List FlagView := []
  scores : Int × Int := (0, 0)
  hold : Bool := false
  protect : Bool := false
  deriving DecidableEq, Repr

/-- A flag in `N_INITFLAGS`. -/
structure InitFlag where
  version : Int
  spawnindex : Int
  owner : Int
  invis : Bool
  dropped : Bool
  deriving DecidableEq, Repr

namespace FlagClient

variable (c : FlagClient)

/-- Write through a `flag &` if `flags.inrange(i)`. -/
def updflag (i : Int) (f : FlagView → FlagView) : FlagClient :=
  if i < 0 then c else { c with flags := c.flags.modify i.toNat f }

/-- `setscore(team, score)`. -/
def setscore (team score : Int) : FlagClient :=
  if team = 1 then { c with scores := (score, c.scores.2) }
  else if team = 2 then { c with scores := (c.scores.1, score) }
  else c

/-- `dropflag(d, i, version, droploc)`. -/
def dropflag (i version : Int) : FlagClient := c.updflag i fun v => { v with version }.dropflag

/-- `returnflag(d, i, version)`. -/
def returnflag (i version : Int) : FlagClient :=
  c.updflag i fun v => { v with version }.returnflag false

/-- `resetflag(i, version, spawnindex, team, score)`. -/
def resetflag (i version spawnindex team score : Int) : FlagClient :=
  (c.setscore team score).updflag i fun v => { v with version, spawnindex }.returnflag c.protect

/-- `scoreflag(d, relay, relayversion, goal, goalversion, goalspawn, team, score, dflags)`. -/
def scoreflag (relay relayversion goal goalversion goalspawn team score : Int) : FlagClient :=
  let c := c.setscore team score
  if 0 ≤ goal ∧ goal < c.flags.length then
    let c := c.updflag goal fun v => { v with version := goalversion, spawnindex := goalspawn }
    let c := if 0 ≤ relay then c.updflag relay fun v => { v with version := relayversion } else c
    c.updflag (if 0 ≤ relay then relay else goal) fun v => v.returnflag c.protect
  else c

/-- `takeflag(d, i, version)`. -/
def takeflag (cn i version : Int) : FlagClient :=
  c.updflag i fun v => { v with version }.ownflag cn

/-- `invisflag(i, invis)`; the server sends no other `invis` than 0. -/
def invisflag (i : Int) : FlagClient := c.updflag i fun v => { v with invisible := false }

/-- A message about a flag. -/
def recv : FlagMsg → FlagClient
  | .take cn i version => c.takeflag cn i version
  | .drop _ i version => c.dropflag i version
  | .return _ i version => c.returnflag i version
  | .score _ relay relayversion goal goalversion goalspawn team score _ =>
    c.scoreflag relay relayversion goal goalversion goalspawn team score
  | .reset i version spawnindex team score => c.resetflag i version spawnindex team score
  | .invis i => c.invisflag i

/-- `setup()` on a map for which `numflags` flags are added. -/
def setup (numflags : Nat) (hold protect : Bool) : FlagClient where
  flags := List.replicate numflags { invisible := !hold && protect }
  hold
  protect

/-- A flag of `parseflags(p, commit)`. -/
def initflag (b : InitFlag) : FlagView where
  version := b.version
  spawnindex := b.spawnindex
  owner := if 0 ≤ b.owner then b.owner else -1
  dropped := if b.owner < 0 then b.dropped else false
  invisible := b.invis

/-- `parseflags(p, commit)` of `N_INITFLAGS`. -/
def parseflags (scores : Int × Int) (l : List InitFlag) : FlagClient :=
  { c with
    scores
    flags := c.flags.mapIdx fun i v => (l[i]?.map initflag).getD v }

end FlagClient

/-! ## Agreement -/

/-- A client has the version, the spawn index, the place and the invisibility of a flag. -/
structure Flag.Seen {P : Type} (f : Flag P) (v : FlagView) : Prop where
  version : v.version = f.version
  spawnindex : v.spawnindex = f.spawnindex
  place : v.place = f.place
  invisible : v.invisible = decide (f.invistime ≠ 0)

namespace Ctf

variable {P : Type} {near : P → P → Bool} {s s' : Ctf P}

/-- A client agrees who has `numflags` flags on the map; while the server has none, they are as
`setup()` leaves them. -/
structure Agree (numflags : Nat) (s : Ctf P) (c : FlagClient) : Prop where
  hold : c.hold = s.hold
  protect : c.protect = s.protect
  scores : c.scores = s.scores
  length : c.flags.length = numflags
  le : s.flags.length ≤ numflags
  fresh : s.notgotflags = true →
    c.flags = List.replicate numflags { invisible := !s.hold && s.protect }
  seen : ∀ (i : Nat) (f : Flag P) (v : FlagView), s.flags[i]? = some f → c.flags[i]? = some v →
    f.Seen v

/-- **What every event keeps**: flags are owned by connected clients, who own no other; no game is
both a hold and a protect game; and in a protect game the clock is not 0. -/
structure Ready (s : Ctf P) : Prop where
  nodup : (s.clients.map Runner.cn).Nodup
  nonneg : ∀ c ∈ s.clients, 0 ≤ c.cn
  got : s.notgotflags = true → s.flags = []
  owner : ∀ f ∈ s.flags, 0 ≤ f.owner → f.owner ∈ s.clients.map Runner.cn
  alone : ∀ (i j : Nat) (f g : Flag P), s.flags[i]? = some f → s.flags[j]? = some g →
    0 ≤ f.owner → f.owner = g.owner → i = j
  modes : s.hold = true → s.protect = false
  clock : s.protect = true → s.lastmillis ≠ 0

/-- Clients who agree are told what they need to agree on. -/
abbrev Tells (numflags : Nat) (s s' : Ctf P) : Prop :=
  Tracks FlagClient.recv (Agree numflags) Ready Ctf.sent s s'

end Ctf

/-! ## Flags that are seen -/

namespace Flag.Seen

variable {P : Type} {f g : Flag P} {v : FlagView}

/-- A flag that is at home for both. -/
theorem of_home (hversion : v.version = f.version) (hspawn : v.spawnindex = f.spawnindex)
    (howner : f.owner < 0) (hdrop : f.droptime = 0) (hvowner : v.owner < 0)
    (hvdrop : v.dropped = false) (hinvis : v.invisible = decide (f.invistime ≠ 0)) : f.Seen v := by
  refine ⟨hversion, hspawn, ?_, hinvis⟩
  have hv : ¬0 ≤ v.owner := not_le.mpr hvowner
  have hf : ¬0 ≤ f.owner := not_le.mpr howner
  simp [FlagView.place, Flag.place, hv, hf, hdrop, hvdrop]

/-- A flag whose place and invisibility stay. -/
theorem of_stays (h : f.Seen v) {w : FlagView} (hversion : w.version = g.version)
    (hspawn : w.spawnindex = g.spawnindex) (howner : g.owner = f.owner)
    (hdrop : g.droptime = f.droptime) (hinvis : g.invistime = f.invistime)
    (hplace : w.place = v.place) (hvinvis : w.invisible = v.invisible) : g.Seen w := by
  refine ⟨hversion, hspawn, ?_, ?_⟩
  · rw [hplace, h.place, Flag.place, Flag.place, howner, hdrop]
  · rw [hvinvis, h.invisible, hinvis]

theorem forget (h : f.Seen v) (cn : Int) : (f.forget cn).Seen v := by
  unfold Flag.forget
  split
  · exact h.of_stays h.version h.spawnindex rfl rfl rfl rfl rfl
  · exact h

theorem deadflag (h : f.Seen v) (lastmillis : Int) : (f.deadflag lastmillis).Seen v := by
  unfold Flag.deadflag
  split
  · exact h
  · exact h.of_stays h.version h.spawnindex rfl rfl rfl rfl rfl

/-- `N_TAKEFLAG`; where the flag was before does not matter. -/
theorem take (hspawn : v.spawnindex = f.spawnindex) {owner : Int} (hpos : 0 ≤ owner)
    (owntime ownteam : Int) : ((f.ownflag owner owntime ownteam).bump).Seen
      ({ v with version := f.version + 1 }.ownflag owner) := by
  refine ⟨rfl, hspawn, ?_, by simp [FlagView.ownflag, Flag.ownflag, bump]⟩
  rw [Ctf.owned_place owner owntime ownteam hpos]
  exact if_pos hpos

/-- `N_DROPFLAG`. -/
theorem drop (h : f.Seen v) {droptime : Int} (hclock : droptime ≠ 0) (dropper : Int) :
    ((f.dropflag droptime dropper).bump).Seen { v with version := f.version + 1 }.dropflag := by
  refine ⟨rfl, h.spawnindex, ?_, by simp [FlagView.dropflag, Flag.dropflag, bump]⟩
  simp [FlagView.place, Flag.place, FlagView.dropflag, Flag.dropflag, bump, hclock]

/-- `N_RETURNFLAG`. -/
theorem returned (h : f.Seen v) :
    ((f.returnflag 0).bump).Seen ({ v with version := f.version + 1 }.returnflag false) :=
  of_home rfl h.spawnindex (Int.negSucc_lt_zero 0) rfl (Int.negSucc_lt_zero 0) rfl
    (by simp [FlagView.returnflag, Flag.returnflag, bump])

/-- `N_INVISFLAG`. -/
theorem invis (h : f.Seen v) : { f with invistime := 0 }.Seen { v with invisible := false } :=
  ⟨h.version, h.spawnindex, h.place, by simp⟩

end Flag.Seen

namespace Ctf

variable {P : Type} {near : P → P → Bool} {s s' : Ctf P} {numflags : Nat} {c : FlagClient}

/-! ## What agrees -/

/-- Only the flags and the scores matter. -/
theorem Agree.congr (h : Agree numflags s c) (hhold : s'.hold = s.hold)
    (hprotect : s'.protect = s.protect) (hscores : s'.scores = s.scores)
    (hgot : s'.notgotflags = s.notgotflags) (hflags : s'.flags = s.flags) :
    Agree numflags s' c := by
  refine ⟨h.hold.trans hhold.symm, h.protect.trans hprotect.symm, h.scores.trans hscores.symm,
    h.length, hflags ▸ h.le, ?_, ?_⟩
  · rw [hgot, hhold, hprotect]
    exact h.fresh
  · rw [hflags]
    exact h.seen

/-- A change of every flag that no client sees. -/
theorem Agree.map (h : Agree numflags s c) {g : Flag P → Flag P}
    (hg : ∀ (f : Flag P) v, f.Seen v → (g f).Seen v) :
    Agree numflags { s with flags := s.flags.map g } c := by
  refine ⟨h.hold, h.protect, h.scores, h.length, (List.length_map g).trans_le h.le, h.fresh,
    fun i f v hf hv => ?_⟩
  simp only [List.getElem?_map, Option.map_eq_some_iff] at hf
  obtain ⟨a, ha, rfl⟩ := hf
  exact hg a v (h.seen i a v ha hv)

/-- **A change of one flag** on both sides. -/
theorem Agree.updflag (h : Agree numflags s c) (hr : s.Ready) {i : Nat} {f : Flag P}
    (hf : s.flags[i]? = some f) {g : Flag P → Flag P} {w : FlagView → FlagView}
    (hgw : ∀ v, f.Seen v → (g f).Seen (w v)) :
    Agree numflags (s.updflag i g) (c.updflag i w) := by
  have hupd : c.updflag i w = { c with flags := c.flags.modify i w } := by
    rw [FlagClient.updflag, if_neg (by omega), Int.toNat_natCast]
  rw [hupd]
  refine ⟨h.hold, h.protect, h.scores, ?_, (length_updflag i g).trans_le h.le, fun hgot => ?_,
    fun k f' v hf' hv => ?_⟩
  · rw [List.length_modify]
    exact h.length
  · have hnone := hr.got hgot
    rw [hnone] at hf
    cases hf
  · rw [getElem?_updflag, Option.map_eq_some_iff] at hf'
    simp only [List.getElem?_modify, Option.map_eq_map, Option.map_eq_some_iff] at hv
    obtain ⟨a, ha, rfl⟩ := hf'
    obtain ⟨b, hb, rfl⟩ := hv
    have hseen := h.seen k a b ha hb
    by_cases hik : i = k
    · subst hik
      obtain rfl := Option.some.inj (hf.symm.trans ha)
      simp only [if_true]
      exact hgw b hseen
    · simp only [if_neg hik]
      exact hseen

/-! ## The invariant -/

/-- An operation that gives no flag to anybody. -/
theorem Ready.loses (h : s.Ready) (hroster : s'.roster = s.roster) (hhold : s'.hold = s.hold)
    (hprotect : s'.protect = s.protect) (hgot : s'.notgotflags = s.notgotflags)
    (hflags : Pointwise Flag.Loses s s') (hclock : s'.lastmillis = s.lastmillis) : s'.Ready := by
  have hcns := mem_cns_of_roster hroster
  refine ⟨hcns ▸ h.nodup, nonneg_of_cns hcns h.nonneg, fun hnot => ?_, fun f' hf' ho => ?_,
    fun i j f' g' hf' hg' ho heq => ?_, ?_, ?_⟩
  · have hlen := hflags.1
    rw [h.got (hgot ▸ hnot)] at hlen
    exact List.length_eq_zero_iff.mp hlen
  · obtain ⟨i, hi⟩ := List.getElem?_of_mem hf'
    obtain ⟨f, hf, hgo⟩ := hflags.exists hi
    have howner := (hgo.owner ho).1
    rw [hcns, howner]
    exact h.owner f (List.mem_of_getElem? hf) (howner ▸ ho)
  · obtain ⟨f, hf, hgo⟩ := hflags.exists hf'
    obtain ⟨g, hg, hgo'⟩ := hflags.exists hg'
    have howner := (hgo.owner ho).1
    have howner' := (hgo'.owner (heq ▸ ho)).1
    exact h.alone i j f g hf hg (howner ▸ ho) (by rw [← howner, ← howner', heq])
  · rw [hhold, hprotect]
    exact h.modes
  · rw [hprotect, hclock]
    exact h.clock

theorem Ready.keeps (h : s.Ready) (hk : Keeps s s') (hclock : s'.lastmillis = s.lastmillis) :
    s'.Ready :=
  h.loses hk.roster hk.hold hk.protect hk.got hk.loses hclock

theorem pickup_told (ci : Runner P) (i : Nat) (f : Flag P) :
    (s.pickup ci i f).sent = s.sent ++ [.take ci.cn i (f.version + 1)] ∧
      (s.pickup ci i f).scores = s.scores ∧ (s.pickup ci i f).lastmillis = s.lastmillis := by
  unfold pickup
  generalize (if s.hold = true then ctfteamflag ci.team else -1) = ownteam
  simp only
  split <;> exact ⟨rfl, rfl, rfl⟩

/-- A flag is picked up by a connected client who carries none. -/
theorem Ready.pickup (h : s.Ready) {ci : Runner P} (hci : ci.cn ∈ s.clients.map Runner.cn)
    {i : Nat} {f : Flag P} (hgot : s.notgotflags = false) (hfree : s.Free ci.cn) :
    (s.pickup ci i f).Ready := by
  obtain ⟨-, hroster, hhold, hprotect, hnotgot⟩ := pickup_flags (s := s) ci i f
  obtain ⟨-, -, hclock⟩ := pickup_told (s := s) ci i f
  have hcns := mem_cns_of_roster hroster
  refine ⟨hcns ▸ h.nodup, nonneg_of_cns hcns h.nonneg, fun hnot => ?_, fun g hg ho => ?_,
    fun j k g g' hg hg' ho heq => ?_, ?_, ?_⟩
  · rw [hnotgot, hgot] at hnot
    cases hnot
  · obtain ⟨k, hk⟩ := List.getElem?_of_mem hg
    rw [getElem?_pickup, Option.map_eq_some_iff] at hk
    obtain ⟨a, ha, rfl⟩ := hk
    rw [hcns]
    by_cases hik : i = k
    · rw [if_pos hik]
      exact hci
    · rw [if_neg hik] at ho ⊢
      exact h.owner a (List.mem_of_getElem? ha) ho
  · rw [getElem?_pickup, Option.map_eq_some_iff] at hg hg'
    obtain ⟨a, ha, rfl⟩ := hg
    obtain ⟨a', ha', rfl⟩ := hg'
    by_cases hij : i = j
    · by_cases hik : i = k
      · exact hij.symm.trans hik
      · rw [if_pos hij, if_neg hik] at heq
        exact absurd heq.symm (hfree a' (List.mem_of_getElem? ha'))
    · rw [if_neg hij] at ho heq
      by_cases hik : i = k
      · rw [if_pos hik] at heq
        exact absurd heq (hfree a (List.mem_of_getElem? ha))
      · rw [if_neg hik] at heq
        exact h.alone j k a a' ha ha' ho heq
  · rw [hhold, hprotect]
    exact h.modes
  · rw [hprotect, hclock]
    exact h.clock

/-! ## What the clients are told -/

/-- What no client sees, and nothing is said about. -/
theorem tells_quiet (hk : Keeps s s') (hclock : s'.lastmillis = s.lastmillis)
    (hsent : s'.sent = s.sent) (hscores : s'.scores = s.scores) (hflags : s'.flags = s.flags) :
    Tells numflags s s' :=
  .of_quiet (fun h => h.keeps hk hclock) hsent fun _ _ h =>
    h.congr hk.hold hk.protect hscores hk.got hflags

/-- Other clients, who own the same flags. -/
theorem tells_clients (hnodup : s.Ready → (s'.clients.map Runner.cn).Nodup)
    (hnonneg : s.Ready → ∀ c ∈ s'.clients, 0 ≤ c.cn)
    (howner : s.Ready → ∀ f ∈ s.flags, 0 ≤ f.owner → f.owner ∈ s'.clients.map Runner.cn)
    (hs' : s' = { s with
      clients := s'.clients, gamespeed := s'.gamespeed, gamelimit := s'.gamelimit }) :
    Tells numflags s s' := by
  rw [hs'] at hnodup hnonneg howner ⊢
  refine .of_quiet (fun h => ?_) rfl fun _ _ h => h.congr rfl rfl rfl rfl rfl
  exact ⟨hnodup h, hnonneg h, h.got, howner h, h.alone, h.modes, h.clock⟩

theorem tells_upd {f : Runner P → Runner P} (hf : ∀ c, (f c).cn = c.cn) (cn : Int) :
    Tells numflags s (s.upd cn f) := by
  have hcns : (s.upd cn f).clients.map Runner.cn = s.clients.map Runner.cn := cns_upd hf
  exact tells_clients (fun h => hcns ▸ h.nodup) (fun h => nonneg_of_cns hcns h.nonneg)
    (fun h => hcns ▸ h.owner) rfl

theorem tells_startintermission : Tells numflags s s.startintermission :=
  tells_quiet keeps_startintermission rfl rfl rfl rfl

theorem tells_forget (cn : Int) : Tells numflags s (s.forget cn) :=
  .of_quiet (fun h => h.keeps (keeps_forget cn) rfl) rfl fun _ _ h =>
    h.map fun _ _ hseen => hseen.forget cn

theorem tells_deadflags (cn : Int) : Tells numflags s (s.deadflags cn) := by
  have hk := keeps_deadflags (s := s) cn
  unfold deadflags at hk ⊢
  split
  · next hhold =>
    rw [if_pos hhold] at hk
    refine .of_quiet (fun h => h.keeps hk rfl) rfl fun _ _ h => h.map fun f v hseen => ?_
    split
    · exact hseen.deadflag s.lastmillis
    · exact hseen
  · exact .refl s

/-- `N_RETURNFLAG` for a flag that goes home. -/
theorem tells_return {i : Nat} {f : Flag P} (hf : s.flags[i]? = some f) (cn : Int) :
    Tells numflags s
      ((s.updflag i fun f => (f.returnflag 0).bump).sendf (.return cn i (f.version + 1))) := by
  have hk : Keeps s (s.updflag i fun f => (f.returnflag 0).bump) :=
    keeps_updflag fun f _ => f.goes_returned 0
  refine .of_sent (fun h => h.keeps (hk.trans (keeps_sendf _)) rfl) rfl fun c hr h => ?_
  exact (h.updflag hr hf fun v hv => hv.returned).congr rfl rfl rfl rfl rfl

/-- One flag is dropped while the clock is not 0. -/
theorem tells_drop1 (ci : Runner P) (dropper : Int) (s : Ctf P) (i : Nat) :
    Tracks FlagClient.recv (Agree numflags) (fun s => s.Ready ∧ s.lastmillis ≠ 0) Ctf.sent s
      (drop1 near ci dropper s i) := by
  have hk : Keeps s (drop1 near ci dropper s i) := keeps_drop1 ci dropper s i
  unfold drop1 at hk ⊢
  split
  · exact .refl s
  · next f hf =>
    simp only [hf] at hk
    split
    · exact .refl s
    · next hown =>
      rw [if_neg hown] at hk
      split
      · intro hs
        obtain ⟨hready, hsent⟩ := tells_return hf ci.cn hs.1
        exact ⟨⟨hready, hs.2⟩, hsent⟩
      · next hnear =>
        rw [if_neg hnear] at hk
        refine .of_sent (fun hs => ⟨hs.1.keeps hk rfl, hs.2⟩) rfl fun c hs h => ?_
        exact (h.updflag hs.1 hf fun v hv => hv.drop hs.2 dropper).congr rfl rfl rfl rfl rfl

/-- **A drop** tells it, if the clock is not 0 or there is nothing to drop. -/
theorem tells_dropflag {ci : Runner P} (hclock : s.lastmillis ≠ 0 ∨ s.Free ci.cn) (dropper : Int) :
    Tells numflags s (s.dropflag near ci dropper) := by
  rcases hclock with hclock | hfree
  · unfold dropflag
    split
    · exact .refl s
    · exact (Tracks.foldl (tells_drop1 ci dropper) _ s).of_inv (fun h => ⟨h, hclock⟩) And.left
  · rw [dropflag_of_free hfree]
    exact .refl s

theorem tells_leavegame {ci : Runner P} (hclock : s.lastmillis ≠ 0 ∨ s.Free ci.cn) :
    Tells numflags s (s.leavegame near ci) :=
  (tells_dropflag hclock ci.cn).trans (tells_forget ci.cn)

theorem tells_died {ci : Runner P} (hpos : 0 ≤ ci.cn)
    (hclock : s.lastmillis ≠ 0 ∨ s.Free ci.cn) (actor : Option (Runner P)) :
    Tells numflags s (s.died near ci actor) := by
  unfold died
  split
  · exact .refl s
  · have hclock' : (s.deadflags ci.cn).lastmillis ≠ 0 ∨ (s.deadflags ci.cn).Free ci.cn := by
      refine hclock.imp (fun h => ?_) fun h => h.keeps hpos (keeps_deadflags ci.cn)
      unfold deadflags
      split <;> exact h
    exact (tells_deadflags ci.cn).trans ((tells_dropflag hclock' _).trans (tells_forget ci.cn))

/-- `N_TAKEFLAG`. -/
theorem tells_pickup {ci : Runner P} (hci : ci.cn ∈ s.clients.map Runner.cn) {i : Nat} {f : Flag P}
    (hf : s.flags[i]? = some f) (hgot : s.notgotflags = false) (hfree : s.Free ci.cn) :
    Tells numflags s (s.pickup ci i f) := by
  obtain ⟨hflags, -, hhold, hprotect, hnotgot⟩ := pickup_flags (s := s) ci i f
  obtain ⟨hsent, hscores, -⟩ := pickup_told (s := s) ci i f
  refine .of_sent (fun h => h.pickup hci hgot hfree) hsent fun c hr h => ?_
  obtain ⟨d, hd, heq⟩ := List.mem_map.mp hci
  have hpos : 0 ≤ ci.cn := heq ▸ hr.nonneg d hd
  have hupd := h.updflag hr hf
    (g := fun f => (f.ownflag ci.cn s.lastmillis (if s.hold then ctfteamflag ci.team else -1)).bump)
    (w := fun v => { v with version := f.version + 1 }.ownflag ci.cn)
    fun v hv => .take hv.spawnindex hpos _ _
  exact hupd.congr hhold hprotect hscores hnotgot hflags

/-! ## Scores and frames -/

/-- A flag that is scored or put back, in a mode where it spawns somewhere else. -/
def respawn (s : Ctf P) (draw : Nat) (f : Flag P) : Flag P :=
  if s.hold then f.spawn s.holdspawns.length draw else f

/-- The `invistime` of a flag that goes home. -/
def hidetime (s : Ctf P) : Int := if s.protect then s.lastmillis else 0

theorem scoreflags_none (goal draw : Nat) : s.scoreflags goal none draw =
    s.updflag goal fun f => (s.respawn draw (f.returnflag s.hidetime)).bump := by
  unfold scoreflags respawn hidetime
  generalize (if s.protect = true then s.lastmillis else 0) = invistime
  simp only [Option.getD_none]
  by_cases hhold : s.hold = true
  · have hhold' : (s.updflag goal fun f => f.returnflag invistime).hold = true := hhold
    simp only [hhold, hhold', if_true, spawnflag, updflag_updflag]
    rfl
  · have hhold' : ¬(s.updflag goal fun f => f.returnflag invistime).hold = true := hhold
    simp only [if_neg hhold, if_neg hhold', updflag_updflag]

theorem scoreflags_some {goal j : Nat} (hne : goal ≠ j) (draw : Nat) :
    s.scoreflags goal (some j) draw =
      (s.updflag goal fun f => (s.respawn draw f).bump).updflag j fun f =>
        (f.returnflag s.hidetime).bump := by
  unfold scoreflags respawn hidetime
  generalize (if s.protect = true then s.lastmillis else 0) = invistime
  simp only [Option.getD_some]
  by_cases hhold : s.hold = true
  · have hhold' : (s.updflag j fun f => f.returnflag invistime).hold = true := hhold
    simp only [hhold, hhold', if_true, spawnflag]
    rw [updflag_comm hne, updflag_updflag, updflag_comm hne.symm, updflag_comm hne.symm,
      updflag_updflag]
    rfl
  · have hhold' : ¬(s.updflag j fun f => f.returnflag invistime).hold = true := hhold
    simp only [if_neg hhold, if_neg hhold']
    rw [updflag_updflag, updflag_comm hne.symm]

theorem addscore_told (team score : Int) :
    (s.addscore team score).flags = s.flags ∧ (s.addscore team score).sent = s.sent ∧
      (s.addscore team score).lastmillis = s.lastmillis := by
  unfold addscore
  split
  · exact ⟨rfl, rfl, rfl⟩
  · split <;> exact ⟨rfl, rfl, rfl⟩

theorem flagrun_told (ci : Runner P) :
    (s.flagrun ci).flags = s.flags ∧ (s.flagrun ci).scores = s.scores ∧
      (s.flagrun ci).lastmillis = s.lastmillis ∧ (s.flagrun ci).sent = s.sent := by
  unfold flagrun doflagrun
  simp only
  split
  · split <;> exact ⟨rfl, rfl, rfl, rfl⟩
  · exact ⟨rfl, rfl, rfl, rfl⟩

/-- What scoring does besides moving the flags, and what it says. -/
theorem scoreflag_told (ci : Runner P) (goal : Nat) (relay : Option Nat) (draw : Nat) :
    let t := s.scoreflags goal relay draw
    let team := ctfteamflag ci.team
    (s.scoreflag ci goal relay draw).flags = t.flags ∧
    (s.scoreflag ci goal relay draw).scores = (t.addscore team 1).scores ∧
    (s.scoreflag ci goal relay draw).lastmillis = t.lastmillis ∧
    (s.scoreflag ci goal relay draw).sent = t.sent ++
      [.score ci.cn ((relay.map Int.ofNat).getD (-1)) ((relay.map t.version).getD (-1)) goal
        (t.version goal) (t.spawnindex goal) team ((t.addscore team 1).totalscore team)
        (ci.flags + 1)] := by
  intro t team
  obtain ⟨hflags, hsent, hclock⟩ :=
    addscore_told (s := t.upd ci.cn Runner.addflag) team 1
  have hscores : ((t.upd ci.cn Runner.addflag).addscore team 1).scores =
      (t.addscore team 1).scores := by
    unfold addscore
    split
    · rfl
    · split <;> rfl
  have hrun : ∀ m : FlagMsg,
      let u := (((t.upd ci.cn Runner.addflag).addscore team 1).sendf m).flagrun ci
      u.flags = t.flags ∧ u.scores = (t.addscore team 1).scores ∧ u.lastmillis = t.lastmillis ∧
        u.sent = t.sent ++ [m] := by
    intro m u
    obtain ⟨hflags', hscores', hclock', hsent'⟩ :=
      flagrun_told (s := ((t.upd ci.cn Runner.addflag).addscore team 1).sendf m) ci
    refine ⟨hflags'.trans hflags, hscores'.trans hscores, hclock'.trans hclock, hsent'.trans ?_⟩
    exact congrArg (· ++ [m]) hsent
  have hversion : ((t.upd ci.cn Runner.addflag).addscore team 1).version = t.version := by
    funext i
    rw [version, hflags]
    rfl
  have hindex : ((t.upd ci.cn Runner.addflag).addscore team 1).spawnindex goal =
      t.spawnindex goal := by
    rw [spawnindex, hflags]
    rfl
  have htotal : ((t.upd ci.cn Runner.addflag).addscore team 1).totalscore team =
      (t.addscore team 1).totalscore team := by
    rw [totalscore, hscores]
    rfl
  unfold scoreflag
  simp only
  rw [← hversion, ← hindex, ← htotal]
  split
  · exact hrun _
  · exact hrun _

theorem invisible_hidetime (h : s.protect = true → s.lastmillis ≠ 0) :
    decide (s.hidetime ≠ 0) = s.protect := by
  unfold hidetime
  cases hp : s.protect with
  | false => simp
  | true => simp [h hp]

/-- A flag that is scored or put back. -/
theorem seen_returned (hclock : s.protect = true → s.lastmillis ≠ 0) (draw : Nat) (f : Flag P)
    (v : FlagView) : ((s.respawn draw (f.returnflag s.hidetime)).bump).Seen
      ({ v with
        version := f.version + 1
        spawnindex := (s.respawn draw (f.returnflag s.hidetime)).spawnindex }.returnflag
          s.protect) := by
  have hrest : (s.respawn draw (f.returnflag s.hidetime)).version = f.version ∧
      (s.respawn draw (f.returnflag s.hidetime)).owner = -1 ∧
      (s.respawn draw (f.returnflag s.hidetime)).droptime = 0 ∧
      (s.respawn draw (f.returnflag s.hidetime)).invistime = s.hidetime := by
    unfold respawn Flag.spawn
    split
    · split <;> exact ⟨rfl, rfl, rfl, rfl⟩
    · exact ⟨rfl, rfl, rfl, rfl⟩
  obtain ⟨hversion, howner, hdrop, hinvis⟩ := hrest
  refine .of_home ?_ rfl ?_ hdrop (Int.negSucc_lt_zero 0) rfl ?_
  · exact congrArg (· + 1) hversion.symm
  · show (s.respawn draw (f.returnflag s.hidetime)).owner < 0
    omega
  · show s.protect = decide ((s.respawn draw (f.returnflag s.hidetime)).invistime ≠ 0)
    rw [hinvis, invisible_hidetime hclock]

theorem Agree.addscore (h : Agree numflags s c) (team score : Int) :
    Agree numflags (s.addscore team score)
      (c.setscore team ((s.addscore team score).totalscore team)) := by
  have h₁ := congrArg Prod.fst h.scores
  have h₂ := congrArg Prod.snd h.scores
  unfold Ctf.addscore FlagClient.setscore
  split
  · next hteam =>
    refine ⟨h.hold, h.protect, ?_, h.length, h.le, h.fresh, h.seen⟩
    simp [totalscore, hteam, h₂]
  · next hteam =>
    split
    · next hteam' =>
      refine ⟨h.hold, h.protect, ?_, h.length, h.le, h.fresh, h.seen⟩
      simp [totalscore, hteam', h₁]
    · exact h

end Ctf

namespace FlagClient

variable {c : FlagClient}

theorem updflag_updflag (i : Int) (g h : FlagView → FlagView) :
    (c.updflag i g).updflag i h = c.updflag i fun v => h (g v) := by
  unfold updflag
  split
  · rfl
  · simp only
    rw [List.modify_modify_eq]
    rfl

@[simp] theorem protect_updflag (i : Int) (g : FlagView → FlagView) :
    (c.updflag i g).protect = c.protect := by
  unfold updflag
  split <;> rfl

/-- The scores and the flags are set in either order. -/
theorem setscore_updflag (team score i : Int) (g : FlagView → FlagView) :
    (c.setscore team score).updflag i g = (c.updflag i g).setscore team score := by
  unfold setscore updflag
  by_cases h₁ : team = 1
  · simp only [h₁, if_true]
    split <;> rfl
  · by_cases h₂ : team = 2
    · simp only [h₂, if_true]
      split <;> rfl
    · simp only [h₁, h₂, if_false]

@[simp] theorem flags_setscore (team score : Int) : (c.setscore team score).flags = c.flags := by
  unfold setscore
  split
  · rfl
  · split <;> rfl

@[simp] theorem protect_setscore (team score : Int) :
    (c.setscore team score).protect = c.protect := by
  unfold setscore
  split
  · rfl
  · split <;> rfl

theorem resetflag_eq (i version spawnindex team score : Int) :
    c.resetflag i version spawnindex team score =
      (c.updflag i fun v => { v with version, spawnindex }.returnflag c.protect).setscore team
        score :=
  setscore_updflag ..

/-- A flag that is its own goal. -/
theorem scoreflag_none {goal : Nat} (hgoal : goal < c.flags.length)
    (relayversion version spawnindex team score : Int) :
    c.scoreflag (-1) relayversion goal version spawnindex team score =
      (c.updflag goal fun v => { v with version, spawnindex }.returnflag c.protect).setscore team
        score := by
  have hin : (0 : Int) ≤ goal ∧ (goal : Int) < (c.setscore team score).flags.length := by
    rw [flags_setscore]
    omega
  unfold scoreflag
  simp only [if_pos hin, Int.reduceNeg, Int.reduceLE, if_false]
  rw [updflag_updflag, setscore_updflag, protect_updflag, protect_setscore]

/-- A flag that is brought to another. -/
theorem scoreflag_some {goal : Nat} (hgoal : goal < c.flags.length) (j : Nat)
    (relayversion version spawnindex team score : Int) :
    c.scoreflag j relayversion goal version spawnindex team score =
      ((c.updflag goal fun v => { v with version, spawnindex }).updflag j fun v =>
        { v with version := relayversion }.returnflag c.protect).setscore team score := by
  have hin : (0 : Int) ≤ goal ∧ (goal : Int) < (c.setscore team score).flags.length := by
    rw [flags_setscore]
    omega
  have hj : (0 : Int) ≤ j := Int.natCast_nonneg j
  unfold scoreflag
  simp only [if_pos hin, if_pos hj]
  rw [updflag_updflag, setscore_updflag, protect_updflag, protect_setscore, protect_updflag,
    setscore_updflag]

end FlagClient

namespace Ctf

variable {P : Type} {near : P → P → Bool} {s s' : Ctf P} {numflags : Nat} {c : FlagClient}

theorem version_eq {i : Nat} {f : Flag P} (hf : s.flags[i]? = some f) :
    s.version i = f.version := by
  rw [version, hf]
  rfl

theorem spawnindex_eq {i : Nat} {f : Flag P} (hf : s.flags[i]? = some f) :
    s.spawnindex i = f.spawnindex := by
  rw [spawnindex, hf]
  rfl

theorem updflag_some {i : Nat} {f : Flag P} (hf : s.flags[i]? = some f) (g : Flag P → Flag P) :
    (s.updflag i g).flags[i]? = some (g f) := by
  rw [getElem?_updflag, hf, Option.map_some, if_pos rfl]

theorem Agree.inrange (h : Agree numflags s c) {i : Nat} {f : Flag P}
    (hf : s.flags[i]? = some f) : i < c.flags.length := by
  rw [h.length]
  exact (List.getElem?_eq_some_iff.mp hf).1.trans_le h.le

theorem version_bump_respawn (draw : Nat) (f : Flag P) :
    ((s.respawn draw f).bump).version = f.version + 1 := by
  unfold respawn
  split
  · exact congrArg (· + 1) (f.version_spawn _ draw)
  · rfl

/-- `N_SCOREFLAG` for a flag that is its own goal. -/
theorem agree_scored (h : Agree numflags s c) (hr : s.Ready) {goal : Nat} {f : Flag P}
    (hf : s.flags[goal]? = some f) (draw : Nat) :
    Agree numflags (s.scoreflags goal none draw)
      (c.updflag goal fun v => { v with
        version := (s.scoreflags goal none draw).version goal
        spawnindex := (s.scoreflags goal none draw).spawnindex goal }.returnflag c.protect) := by
  have hafter := updflag_some hf fun f => (s.respawn draw (f.returnflag s.hidetime)).bump
  rw [scoreflags_none, version_eq hafter, spawnindex_eq hafter, version_bump_respawn, h.protect]
  exact h.updflag hr hf fun v _ => seen_returned hr.clock draw f v

/-- `N_SCOREFLAG` for a flag that is brought to another. -/
theorem agree_relayed (h : Agree numflags s c) (hr : s.Ready) {goal j : Nat} {f g : Flag P}
    (hf : s.flags[goal]? = some f) (hg : s.flags[j]? = some g) (hne : goal ≠ j) (draw : Nat) :
    Agree numflags (s.scoreflags goal (some j) draw)
      ((c.updflag goal fun v => { v with
        version := (s.scoreflags goal (some j) draw).version goal
        spawnindex := (s.scoreflags goal (some j) draw).spawnindex goal }).updflag j fun v =>
          { v with version := (s.scoreflags goal (some j) draw).version j }.returnflag
            c.protect) := by
  have hgoal := updflag_some hf fun f => (s.respawn draw f).bump
  have hj : (s.updflag goal fun f => (s.respawn draw f).bump).flags[j]? = some g := by
    rw [getElem?_updflag, hg, Option.map_some, if_neg hne]
  have hj' := updflag_some hj fun f => (f.returnflag s.hidetime).bump
  have hgoal' : ((s.updflag goal fun f => (s.respawn draw f).bump).updflag j fun f =>
      (f.returnflag s.hidetime).bump).flags[goal]? = some (s.respawn draw f).bump := by
    rw [getElem?_updflag, hgoal, Option.map_some, if_neg hne.symm]
  rw [scoreflags_some hne, version_eq hgoal', spawnindex_eq hgoal', version_eq hj',
    version_bump_respawn, h.protect]
  have hk : Keeps s (s.updflag goal fun f => (s.respawn draw f).bump) := by
    refine keeps_updflag fun f _ => ?_
    unfold respawn
    split
    · exact (f.goes_spawn _ draw).trans (Flag.goes_bump _)
    · exact f.goes_bump
  refine (h.updflag hr hf fun v hv => ?_).updflag (hr.keeps hk rfl) hj fun v hv => ?_
  · unfold respawn Flag.spawn
    split
    · split <;> exact hv.of_stays rfl rfl rfl rfl rfl rfl rfl
    · exact hv.of_stays rfl rfl rfl rfl rfl rfl rfl
  · refine .of_home rfl hv.spawnindex (Int.negSucc_lt_zero 0) rfl (Int.negSucc_lt_zero 0) rfl ?_
    exact (invisible_hidetime hr.clock).symm

theorem scoreflags_told (goal : Nat) (relay : Option Nat) (draw : Nat) :
    (s.scoreflags goal relay draw).lastmillis = s.lastmillis ∧
      (s.scoreflags goal relay draw).sent = s.sent := by
  unfold scoreflags
  have hspawn : ∀ u : Ctf P, (if u.hold then u.spawnflag goal draw else u).lastmillis =
      u.lastmillis ∧ (if u.hold then u.spawnflag goal draw else u).sent = u.sent := by
    intro u
    split <;> exact ⟨rfl, rfl⟩
  cases relay with
  | none => exact hspawn _
  | some j => exact hspawn _

/-- **A score** tells it. -/
theorem tells_scoreflag (ci : Runner P) {goal : Nat} {relay : Option Nat} {f : Flag P}
    (hf : s.flags[goal]? = some f)
    (hrelay : ∀ j, relay = some j → goal ≠ j ∧ ∃ g, s.flags[j]? = some g) (draw : Nat) :
    Tells numflags s (s.scoreflag ci goal relay draw) := by
  obtain ⟨hflags, hscores, hclock, hsent⟩ := scoreflag_told (s := s) ci goal relay draw
  obtain ⟨hclock', hsent'⟩ := scoreflags_told (s := s) goal relay draw
  rw [hsent'] at hsent
  have hne : relay ≠ some goal := fun heq => (hrelay goal heq).1 rfl
  have hk := keeps_scoreflag (s := s) ci draw hne
  have hadd := keeps_addscore (s := s.scoreflags goal relay draw) (ctfteamflag ci.team) 1
  have hrest := keeps_scored (s := s) ci goal relay draw
  have hflags' : (s.scoreflag ci goal relay draw).flags =
      ((s.scoreflags goal relay draw).addscore (ctfteamflag ci.team) 1).flags :=
    hflags.trans (addscore_told _ _).1.symm
  refine .of_sent (fun h => h.keeps hk (hclock.trans hclock')) hsent fun c hr h => ?_
  suffices hagree : Agree numflags ((s.scoreflags goal relay draw).addscore (ctfteamflag ci.team) 1)
      (c.recv (.score ci.cn ((relay.map Int.ofNat).getD (-1))
        ((relay.map (s.scoreflags goal relay draw).version).getD (-1)) goal
        ((s.scoreflags goal relay draw).version goal)
        ((s.scoreflags goal relay draw).spawnindex goal) (ctfteamflag ci.team)
        (((s.scoreflags goal relay draw).addscore (ctfteamflag ci.team) 1).totalscore
          (ctfteamflag ci.team)) (ci.flags + 1))) from
    hagree.congr (hrest.hold.trans hadd.hold.symm) (hrest.protect.trans hadd.protect.symm) hscores
      (hrest.got.trans hadd.got.symm) hflags'
  cases relay with
  | none =>
    have hscore := (agree_scored h hr hf draw).addscore (ctfteamflag ci.team) 1
    rw [← FlagClient.scoreflag_none (h.inrange hf) (-1)] at hscore
    exact hscore
  | some j =>
    obtain ⟨hne', g, hg⟩ := hrelay j rfl
    have hscore := (agree_relayed h hr hf hg hne' draw).addscore (ctfteamflag ci.team) 1
    rw [← FlagClient.scoreflag_some (h.inrange hf)] at hscore
    exact hscore

/-- **A take request** tells what it does. -/
theorem tells_takeflag {ci : Runner P} (hci : ci.cn ∈ s.clients.map Runner.cn) (hpos : 0 ≤ ci.cn)
    (i : Nat) (version : Int) : Tells numflags s (s.takeflag ci i version) := by
  unfold takeflag
  split
  · exact .refl s
  · next f hf =>
    split
    · exact .refl s
    · next htakes =>
      split
      · split
        · exact .refl s
        · next hfree =>
          refine tells_pickup hci hf (not_not.mp htakes).1 (carried_eq_none.mp ?_)
          exact Option.not_isSome_iff_eq_none.mp hfree
      · split
        · split
          · exact tells_scoreflag ci hf (fun j hj => by cases hj) 0
          · exact .refl s
        · split
          · exact tells_return hf ci.cn
          · split
            · exact .refl s
            · next j hj =>
              obtain ⟨g, hg, hown⟩ := carried_spec hj
              refine tells_scoreflag ci hf (fun k hk => ?_) 0
              obtain rfl := Option.some.inj hk
              refine ⟨fun heq => ?_, g, hg⟩
              subst heq
              obtain rfl := Option.some.inj (hf.symm.trans hg)
              have hfree := (not_not.mp htakes).2.2.2.2.1
              omega

/-- The team in `N_RESETFLAG`. -/
def resetteam (s : Ctf P) (f : Flag P) : Int := if s.hold then 0 else f.team

/-- A flag that is put back; team 0 has no score. -/
theorem resetflag_eq {i : Nat} {f : Flag P} (hf : s.flags[i]? = some f) (draw : Nat)
    (hreset : f.owner < 0 ∧ f.droptime ≠ 0 ∧ RESETFLAGTIME ≤ s.lastmillis - f.droptime) :
    let t := (s.scoreflags i none draw).addscore (s.resetteam f) (if s.protect then -1 else 0)
    s.resetflag draw i f = t.sendf (.reset i ((s.scoreflags i none draw).version i)
      ((s.scoreflags i none draw).spawnindex i) (s.resetteam f)
        (t.totalscore (s.resetteam f))) := by
  intro t
  have hafter := updflag_some hf fun f => (s.respawn draw (f.returnflag s.hidetime)).bump
  have hversion : (s.scoreflags i none draw).version i = f.version + 1 := by
    rw [scoreflags_none, version_eq hafter, version_bump_respawn]
    rfl
  have hindex : t.spawnindex i = (s.scoreflags i none draw).spawnindex i := by
    rw [spawnindex, (addscore_told _ _).1]
    rfl
  have hmode : (s.scoreflags i none draw).hold = s.hold ∧
      (s.scoreflags i none draw).protect = s.protect := by
    rw [scoreflags_none]
    exact ⟨rfl, rfl⟩
  have hmode' : t.hold = s.hold :=
    (keeps_addscore (s := s.scoreflags i none draw) _ _).hold.trans hmode.1
  unfold resetflag
  rw [if_pos hreset, hversion, ← hindex]
  simp only [hmode.1, hmode.2]
  by_cases hhold : s.hold = true
  · have hzero : t = s.scoreflags i none draw := by
      show Ctf.addscore _ (s.resetteam f) _ = _
      rw [resetteam, if_pos hhold]
      rfl
    rw [hzero, resetteam, if_pos hhold, if_pos hhold, hmode.1, if_pos hhold, if_pos hhold]
    rfl
  · have hteam : t = (s.scoreflags i none draw).addscore f.team (if s.protect then -1 else 0) := by
      show Ctf.addscore _ (s.resetteam f) _ = _
      rw [resetteam, if_neg hhold]
    rw [hteam] at hmode' ⊢
    rw [resetteam, if_neg hhold, if_neg hhold, hmode', if_neg hhold, if_neg hhold]

/-- `N_RESETFLAG` of a frame. -/
theorem tells_resetflag {i : Nat} {f : Flag P} (hf : s.flags[i]? = some f) (draw : Nat) :
    Tells numflags s (s.resetflag draw i f) := by
  have hk := keeps_resetflag (s := s) draw i f
  by_cases hreset : f.owner < 0 ∧ f.droptime ≠ 0 ∧ RESETFLAGTIME ≤ s.lastmillis - f.droptime
  · obtain ⟨hclock, hsent⟩ := scoreflags_told (s := s) i none draw
    obtain ⟨-, hsent', hclock'⟩ := addscore_told (s := s.scoreflags i none draw) (s.resetteam f)
      (if s.protect then -1 else 0)
    rw [resetflag_eq hf draw hreset] at hk ⊢
    refine .of_sent (fun h => h.keeps hk (hclock'.trans hclock))
      (congrArg (· ++ _) (hsent'.trans hsent)) fun c hr h => ?_
    have hagree := (agree_scored h hr hf draw).addscore (s.resetteam f)
      (if s.protect then -1 else 0)
    rw [← FlagClient.resetflag_eq] at hagree
    exact hagree.congr rfl rfl rfl rfl rfl
  · rw [resetflag, if_neg hreset]
    exact .refl s

/-- `N_INVISFLAG`. -/
theorem tells_showflag (i : Nat) : Tells numflags s (s.showflag i) := by
  have hk := keeps_showflag (s := s) i
  unfold showflag at hk ⊢
  split
  · exact .refl s
  · next f hf =>
    simp only [hf] at hk
    split
    · next hshow =>
      rw [if_pos hshow] at hk
      refine .of_sent (fun h => h.keeps hk rfl) rfl fun c hr h => ?_
      exact (h.updflag hr hf fun v hv => hv.invis).congr rfl rfl rfl rfl rfl
    · exact .refl s

/-- A flag that was held for long enough has an owner who is connected. -/
theorem tells_holdflag (draw i : Nat) : Tells numflags s (s.holdflag draw i) := by
  unfold holdflag
  split
  · exact .refl s
  · next f hf =>
    split
    · next hheld =>
      split
      · exact tells_scoreflag _ hf (fun j hj => by cases hj) draw
      · next hnone =>
        intro hr
        have hmem := hr.owner f (List.mem_of_getElem? hf) hheld.2.1
        obtain ⟨d, hd, heq⟩ := List.mem_map.mp hmem
        exact absurd heq (Keyed.lookup_eq_none.mp hnone d hd)
    · exact .refl s

/-- **A frame** tells what it does. -/
theorem tells_update (rnd : Nat → Nat) : Tells numflags s (s.update rnd) := by
  unfold update
  split
  · exact .refl s
  · refine Tracks.foldl (fun s i => ?_) _ s
    unfold update1
    split
    · exact .refl s
    · next f hf =>
      exact (tells_resetflag hf _).trans ((tells_showflag i).trans (tells_holdflag _ i))

/-! ## Passes -/

/-- **The target takes a flag over** that goes home for it: his request is one that `takeflag` looks
at, and he carries none, or scores with it. -/
def Hands (s : Ctf P) (t : Runner P) (f : Flag P) : Prop :=
  s.Takes t (f.returnflag 0) f.version ∧
    if s.Owns t f then s.carried t.cn = none else s.protect = true

instance (t : Runner P) (f : Flag P) : Decidable (s.Hands t f) :=
  inferInstanceAs (Decidable (_ ∧ _))

/-- The flag goes home after the others were forgotten. -/
theorem released_eq {cn : Int} (hpos : 0 ≤ cn) (i : Nat) :
    s.released i cn = (s.forget cn).updflag i fun f => f.returnflag 0 := by
  have hflags : (s.flags.modify i fun f => f.returnflag 0).map (fun f => f.forget cn) =
      (s.flags.map fun f => f.forget cn).modify i fun f => f.returnflag 0 := by
    apply List.ext_getElem?
    intro k
    simp only [List.getElem?_map, List.getElem?_modify, Option.map_eq_map, Option.map_map]
    refine congrArg (fun g => Option.map g s.flags[k]?) (funext fun f => ?_)
    simp only [Function.comp]
    by_cases hik : i = k
    · have hhome : (f.returnflag 0).forget cn = f.returnflag 0 := if_neg fun heq => by
        have heq : (-1 : Int) = cn := heq
        omega
      simp only [hik, if_true, hhome]
      unfold Flag.forget
      split <;> rfl
    · simp only [hik, if_false]
  unfold released forget updflag
  simp only [hflags]

/-- What is scored is returned, so that it may be returned before. -/
theorem scoreflag_returned (ci : Runner P) (i draw : Nat) :
    (s.updflag i fun f => f.returnflag 0).scoreflag ci i none draw =
      s.scoreflag ci i none draw := by
  have hflags : (s.updflag i fun f => f.returnflag 0).scoreflags i none draw =
      s.scoreflags i none draw := by
    rw [scoreflags_none, scoreflags_none, updflag_updflag]
    rfl
  unfold scoreflag
  rw [hflags]

/-- `N_TAKEFLAG` for a flag that went home without a word. -/
theorem tells_pickup_returned {ci : Runner P} (hci : ci.cn ∈ s.clients.map Runner.cn) {i : Nat}
    {f : Flag P} (hf : s.flags[i]? = some f) (hgot : s.notgotflags = false)
    (hfree : s.Free ci.cn) :
    Tells numflags s ((s.updflag i fun f => f.returnflag 0).pickup ci i (f.returnflag 0)) := by
  obtain ⟨hflags, -, hhold, hprotect, hnotgot⟩ :=
    pickup_flags (s := s.updflag i fun f => f.returnflag 0) ci i (f.returnflag 0)
  obtain ⟨hsent, hscores, -⟩ :=
    pickup_told (s := s.updflag i fun f => f.returnflag 0) ci i (f.returnflag 0)
  have hreturned : Pointwise Flag.Loses s (s.updflag i fun f => f.returnflag 0) := by
    refine ⟨length_updflag i _, fun k a a' ha ha' => ?_⟩
    rw [getElem?_updflag, ha, Option.map_some] at ha'
    obtain rfl := Option.some.inj ha'
    split
    · exact .of_freed (Int.negSucc_lt_zero 0) id
    · exact (Flag.Goes.refl a).toLoses
  have hpos (hr : s.Ready) : 0 ≤ ci.cn := by
    obtain ⟨d, hd, heq⟩ := List.mem_map.mp hci
    exact heq ▸ hr.nonneg d hd
  refine .of_sent (fun h => ?_) hsent fun c hr h => ?_
  · have hready : (s.updflag i fun f => f.returnflag 0).Ready :=
      h.loses rfl rfl rfl rfl hreturned rfl
    have hfree' : (s.updflag i fun f => f.returnflag 0).Free ci.cn :=
      hfree.loses (hpos h) hreturned
    exact hready.pickup hci hgot hfree'
  · have hupd := h.updflag hr hf
      (g := fun f => ((f.returnflag 0).ownflag ci.cn s.lastmillis
        (if s.hold then ctfteamflag ci.team else -1)).bump)
      (w := fun v => { v with version := f.version + 1 }.ownflag ci.cn)
      fun v hv => Flag.Seen.take (f := f.returnflag 0) hv.spawnindex (hpos hr) _ _
    refine hupd.congr hhold hprotect hscores hnotgot (hflags.trans ?_)
    exact congrArg Ctf.flags (updflag_updflag i _ _)

/-- What a target who takes the flag over does. -/
theorem takeflag_hands {cn : Int} (hpos : 0 ≤ cn) {t : Runner P} (hfree : 0 ≤ t.cn) {i : Nat}
    {f : Flag P} (hf : s.flags[i]? = some f) (hhands : s.Hands t f) :
    (s.carried t.cn = none ∧ (s.released i cn).takeflag t i ((s.released i cn).version i) =
        (s.released i cn).pickup t i (f.returnflag 0)) ∨
      (s.released i cn).takeflag t i ((s.released i cn).version i) =
        (s.released i cn).scoreflag t i none 0 := by
  obtain ⟨htakes, howns⟩ := hhands
  have hhome : (f.returnflag 0).forget cn = f.returnflag 0 := if_neg fun heq => by
    have heq : (-1 : Int) = cn := heq
    omega
  have hf' : (s.released i cn).flags[i]? = some (f.returnflag 0) := by
    rw [getElem?_released, hf, Option.map_some, if_pos rfl, hhome]
  have htakes' : (s.released i cn).Takes t (f.returnflag 0) ((s.released i cn).version i) := by
    rw [version_eq hf']
    exact htakes
  unfold takeflag
  rw [hf']
  simp only
  rw [if_neg (not_not.mpr htakes')]
  by_cases hteam : s.Owns t f
  · have hteam' : (s.released i cn).Owns t (f.returnflag 0) := hteam
    rw [if_pos hteam] at howns
    have hcarried : (s.released i cn).carried t.cn = none :=
      carried_eq_none.mpr ((carried_eq_none.mp howns).loses hfree (loses_released i cn))
    refine Or.inl ⟨howns, ?_⟩
    rw [if_pos hteam', hcarried]
    rfl
  · have hteam' : ¬(s.released i cn).Owns t (f.returnflag 0) := hteam
    rw [if_neg hteam] at howns
    have hprotect : (s.released i cn).protect = true := howns
    refine Or.inr ?_
    rw [if_neg hteam', if_pos hprotect]
    exact if_pos rfl

/-- **A flag that is passed** and taken over. -/
theorem tells_pass1 {actor target t : Runner P} (hpos : 0 ≤ actor.cn)
    (ht : s.getinfo target.cn = some t) (rnd : Nat → Nat) {i : Nat} {f : Flag P}
    (hf : s.flags[i]? = some f) (hown : f.owner = actor.cn) (hne : actor.cn ≠ t.cn)
    (hhands : s.Hands t f) (hr : s.Ready) :
    Tells numflags s (pass1 near rnd actor target s i) ∧
      (pass1 near rnd actor target s i).Free actor.cn := by
  have halone (k : Nat) (g : Flag P) (hg : s.flags[k]? = some g) (heq : g.owner = actor.cn) :
      i = k := hr.alone i k f g hf hg (hown ▸ hpos) (hown.trans heq.symm)
  have hgone := free_returned hpos halone
  have htpos : 0 ≤ t.cn := hr.nonneg t (getinfo_mem ht)
  have hmem : t.cn ∈ s.clients.map Runner.cn := List.mem_map_of_mem (getinfo_mem ht)
  have heq : pass1 near rnd actor target s i =
      (((s.released i actor.cn).takeflag t i ((s.released i actor.cn).version i)).update rnd).upd
        target.cn (Runner.setpassed true) := by
    have ht' : (s.released i actor.cn).getinfo target.cn = some t := ht
    unfold pass1
    rw [hf]
    simp only
    rw [if_neg (not_not.mpr hown), dropflag_of_free hgone, ← released, ht']
  have hkeeps : Keeps ((s.released i actor.cn).takeflag t i ((s.released i actor.cn).version i))
      (pass1 near rnd actor target s i) := by
    rw [heq]
    exact (keeps_update rnd).trans (keeps_setpassed target.cn true)
  have hfree : (s.released i actor.cn).Free actor.cn := hgone.keeps hpos (keeps_forget actor.cn)
  constructor
  · rw [heq]
    refine Tracks.trans ?_ ((tells_update rnd).trans
      (tells_upd (f := Runner.setpassed true) (fun _ => rfl) target.cn))
    have hf' : (s.forget actor.cn).flags[i]? = some (f.forget actor.cn) := by
      show (s.flags.map _)[i]? = _
      rw [List.getElem?_map, hf]
      rfl
    have hreturn : (f.forget actor.cn).returnflag 0 = f.returnflag 0 := by
      unfold Flag.forget
      split <;> rfl
    refine (tells_forget actor.cn).trans ?_
    rcases takeflag_hands hpos htpos hf hhands with ⟨hcarried, htake⟩ | hscore
    · rw [htake, released_eq hpos, ← hreturn]
      refine tells_pickup_returned (s := s.forget actor.cn) hmem hf' hhands.1.1 ?_
      exact (carried_eq_none.mp hcarried).keeps htpos (keeps_forget actor.cn)
    · rw [hscore, released_eq hpos, scoreflag_returned]
      exact tells_scoreflag t hf' (fun j hj => by cases hj) 0
  · refine Free.keeps hpos ?_ hkeeps
    rcases takeflag_cases (s := s.released i actor.cn) htpos i
      ((s.released i actor.cn).version i) with hk | ⟨g, -, -, -, -, htake⟩
    · exact hfree.keeps hpos hk
    · rw [htake]
      exact hfree.pickup hne.symm i g

/-- **`dopassflagsequence`** tells what it does, if the target takes over what the actor has. -/
theorem tells_dopassflagsequence {actor target t : Runner P} (hpos : 0 ≤ actor.cn)
    (ht : s.getinfo target.cn = some t) (rnd : Nat → Nat) (hne : actor.cn ≠ t.cn)
    (hhands : ∀ f ∈ s.flags, f.owner = actor.cn → s.Hands t f) :
    Tells numflags s (s.dopassflagsequence near rnd actor target) := by
  intro hr
  by_cases hnone : s.Free actor.cn
  · unfold dopassflagsequence
    rw [foldl_pass1_of_free hnone]
    exact Tracks.refl s hr
  · obtain ⟨f, hmem, hown⟩ : ∃ f ∈ s.flags, f.owner = actor.cn := by
      simpa [Free] using hnone
    obtain ⟨i, hf⟩ := List.getElem?_of_mem hmem
    have hpass : Tells numflags s (pass1 near rnd actor target s i) ∧
        (pass1 near rnd actor target s i).Free actor.cn :=
      tells_pass1 hpos ht rnd hf hown hne (hhands f hmem hown) hr
    obtain ⟨htells, hgone⟩ := hpass
    have halone (k : Nat) (g : Flag P) (hg : s.flags[k]? = some g) (heq : g.owner = actor.cn) :
        i = k := hr.alone i k f g hf hg (hown ▸ hpos) (hown.trans heq.symm)
    rw [dopassflagsequence_eq hf halone hgone]
    exact htells hr

/-! ## Maps -/

/-- The number of flags `setup()` adds for what it finds on a map. -/
def mapflags (hold : Bool) (spots : List (P × Int)) : Nat :=
  if hold then (if spots.isEmpty then 0 else 1) else (spots.take MAXFLAGS).length

theorem Ready.of_free (hnodup : (s.clients.map Runner.cn).Nodup)
    (hnonneg : ∀ c ∈ s.clients, 0 ≤ c.cn) (hgot : s.notgotflags = true → s.flags = []) (hfree : ∀ f ∈ s.flags, f.owner < 0)
    (hmodes : s.hold = true → s.protect = false) (hclock : s.protect = true → s.lastmillis ≠ 0) :
    s.Ready := by
  refine ⟨hnodup, hnonneg, hgot, fun f hf ho => ?_, fun i j f g hf hg ho => ?_, hmodes, hclock⟩
  · exact absurd ho (not_le.mpr (hfree f hf))
  · exact absurd ho (not_le.mpr (hfree f (List.mem_of_getElem? hf)))

/-- The flag of a hold game, before it spawns. -/
def holdflags (s : Ctf P) (spots : List (P × Int)) : Ctf P :=
  let holdspawns := (spots.take MAXHOLDSPAWNS).map Prod.fst
  { s with
    holdspawns
    flags := (holdspawns.take 1).map fun spawnloc => { spawnloc }
    notgotflags := false }

theorem setupflags_hold (hhold : s.hold = true) (hprotect : s.protect = false)
    {spots : List (P × Int)} (hspots : spots ≠ []) (rnd : Nat → Nat) :
    let t := (s.holdflags spots).scoreflags 0 none (rnd 0)
    s.setupflags spots rnd = t.sendf (.reset 0 (t.version 0) (t.spawnindex 0) 0 0) := by
  obtain ⟨spot, l, rfl⟩ := List.exists_cons_of_ne_nil hspots
  intro t
  have ht : t = ((s.holdflags (spot :: l)).spawnflag 0 (rnd 0)).updflag 0 Flag.bump := by
    show Ctf.scoreflags _ 0 none (rnd 0) = _
    rw [scoreflags_none, spawnflag, updflag_updflag]
    unfold respawn hidetime holdflags updflag
    simp only [hhold, hprotect]
    rfl
  rw [ht]
  unfold setupflags
  rw [if_pos hhold]
  rfl

theorem setupflags_other (hhold : s.hold = false) (spots : List (P × Int)) (rnd : Nat → Nat) :
    s.setupflags spots rnd =
      { s with
        flags := addflags spots (if s.protect then s.lastmillis else 0)
        notgotflags := false } := by
  unfold setupflags
  rw [hhold]
  rfl

/-- **The flags of a map** are told, or as every client has them. -/
theorem tells_setupflags {spots : List (P × Int)} (hgot : s.notgotflags = true)
    (hfits : mapflags s.hold spots ≤ numflags) (rnd : Nat → Nat) :
    Tells numflags s (s.setupflags spots rnd) := by
  intro hr
  have hnone := hr.got hgot
  cases hhold : s.hold with
  | false =>
    rw [setupflags_other hhold]
    have hlen : (addflags spots (if s.protect = true then s.lastmillis else 0)).length ≤
        numflags := by
      rw [addflags, List.length_map]
      rw [mapflags, hhold] at hfits
      exact hfits
    have hflag : ∀ f ∈ addflags spots (if s.protect = true then s.lastmillis else 0),
        ∃ spawnloc team, f = { spawnloc, team, invistime := s.hidetime } := by
      intro f hf
      obtain ⟨spot, -, rfl⟩ := List.mem_map.mp hf
      exact ⟨spot.1, spot.2, rfl⟩
    refine Tracks.of_quiet (fun h => ?_) rfl (fun c hr h => ?_) hr
    · refine .of_free h.nodup h.nonneg (fun hnot => by cases hnot) (fun f hf => ?_) h.modes h.clock
      obtain ⟨spawnloc, team, rfl⟩ := hflag f hf
      exact Int.negSucc_lt_zero 0
    · refine ⟨h.hold, h.protect, h.scores, h.length, hlen, fun hnot => (by cases hnot),
        fun i f v hf hv => ?_⟩
      obtain ⟨spawnloc, team, rfl⟩ := hflag f (List.mem_of_getElem? hf)
      rw [h.fresh hgot] at hv
      obtain rfl := List.eq_of_mem_replicate (List.mem_of_getElem? hv)
      refine ⟨rfl, rfl, rfl, ?_⟩
      rw [invisible_hidetime hr.clock, hhold]
      rfl
  | true =>
    have hprotect := hr.modes hhold
    by_cases hspots : spots = []
    · have hnoflags : s.setupflags spots rnd =
          { s with holdspawns := [], notgotflags := false } := by
        unfold setupflags
        rw [if_pos hhold, hspots]
        rfl
      rw [hnoflags]
      refine Tracks.of_quiet (fun h => ?_) rfl (fun c hr h => ?_) hr
      · exact ⟨h.nodup, h.nonneg, fun hnot => (by cases hnot), h.owner, h.alone, h.modes, h.clock⟩
      · exact ⟨h.hold, h.protect, h.scores, h.length, h.le, fun hnot => (by cases hnot), h.seen⟩
    · rw [setupflags_hold hhold hprotect hspots]
      obtain ⟨spot, l, rfl⟩ := List.exists_cons_of_ne_nil hspots
      have hready : (s.holdflags (spot :: l)).Ready := by
        refine .of_free hr.nodup hr.nonneg (fun hnot => by cases hnot) (fun f hf => ?_) hr.modes
          hr.clock
        rw [List.mem_singleton.mp hf]
        exact Int.negSucc_lt_zero 0
      have hk : Keeps (s.holdflags (spot :: l))
          ((s.holdflags (spot :: l)).scoreflags 0 none (rnd 0)) :=
        keeps_scoreflags (rnd 0) (Option.some_ne_none 0).symm
      obtain ⟨hclock, hsent⟩ := scoreflags_told (s := s.holdflags (spot :: l)) 0 none (rnd 0)
      refine Tracks.of_sent (fun _ => hready.keeps (hk.trans (keeps_sendf _)) hclock)
        (congrArg (· ++ _) hsent) (fun c hr h => ?_) hr
      have hagree : Agree numflags (s.holdflags (spot :: l)) c := by
        refine ⟨h.hold, h.protect, h.scores, h.length, ?_, fun hnot => (by cases hnot),
          fun i f v hf hv => ?_⟩
        · rw [mapflags, hhold] at hfits
          exact hfits
        · obtain rfl := List.mem_singleton.mp (List.mem_of_getElem? hf)
          rw [h.fresh hgot] at hv
          obtain rfl := List.eq_of_mem_replicate (List.mem_of_getElem? hv)
          refine ⟨rfl, rfl, rfl, ?_⟩
          rw [hhold]
          rfl
      have hflag : (s.holdflags (spot :: l)).flags[0]? = some { spawnloc := spot.1 } := rfl
      exact (agree_scored hagree hready hflag (rnd 0)).congr rfl rfl rfl rfl rfl

/-! ## Events -/

/-- What goes without saying only at another time or on another map: while the clock is 0 no flag is
dropped, nothing is hidden; a game has one mode; the flags a client sends for a map are no more than
the map has; and every flag that is passed is taken over. -/
def Sound (numflags : Nat) (s : Ctf P) : CtfEvent P → Prop
  | .setup _ hold protect _ _ _ _ _ =>
    (hold = true → protect = false) ∧ (protect = true → s.lastmillis ≠ 0)
  | .parseflags spots _ => s.notgotflags = true → mapflags s.hold spots ≤ numflags
  | .clientdisconnect cn | .forcespectator cn | .died cn _ | .setteam cn _ | .trydropflag cn =>
    s.lastmillis ≠ 0 ∨ s.carried cn = none
  | .passflag actor target _ => ∀ a ∈ s.getinfo actor, ∀ t ∈ s.getinfo target,
    a.cn ≠ t.cn ∧ a.team = t.team ∧ t.state = .alive →
      ∀ f ∈ s.flags, f.owner = a.cn → s.Hands t f
  | .update lastmillis _ _ => s.protect = true → lastmillis ≠ 0
  | _ => True

instance decidableSound (numflags : Nat) (s : Ctf P) :
    ∀ e : CtfEvent P, Decidable (s.Sound numflags e)
  | .setup _ hold protect _ _ _ _ _ => inferInstanceAs
      (Decidable ((hold = true → protect = false) ∧ (protect = true → s.lastmillis ≠ 0)))
  | .parseflags spots _ => inferInstanceAs
      (Decidable (s.notgotflags = true → mapflags s.hold spots ≤ numflags))
  | .update lastmillis _ _ => inferInstanceAs (Decidable (s.protect = true → lastmillis ≠ 0))
  | .clientdisconnect cn | .forcespectator cn | .died cn _ | .setteam cn _ | .trydropflag cn =>
    inferInstanceAs (Decidable (_ ∨ s.carried cn = none))
  | .passflag actor target _ => inferInstanceAs (Decidable
      (∀ a ∈ s.getinfo actor, ∀ t ∈ s.getinfo target, _ → _))
  | .connected .. | .setstate .. | .moved .. | .spawned .. | .takeflag .. | .changegamespeed ..
  | .setlimit .. | .startintermission => isTrue trivial

theorem tells_withinfo {cn : Int} {f : Runner P → Ctf P}
    (hf : ∀ ci, s.getinfo cn = some ci → Tells numflags s (f ci)) :
    Tells numflags s (s.withinfo cn f) := by
  unfold Ctf.withinfo
  cases hg : s.getinfo cn with
  | none => exact .refl s
  | some ci => exact hf ci hg

/-- The condition on the clock for a client who is connected. -/
theorem free_of_carried {cn : Int} {ci : Runner P} (hg : s.getinfo cn = some ci)
    (h : s.lastmillis ≠ 0 ∨ s.carried cn = none) : s.lastmillis ≠ 0 ∨ s.Free ci.cn := by
  rw [getinfo_cn hg, ← carried_eq_none]
  exact h

/-- **Every event of a game** tells what it does. -/
theorem tells_next {e : CtfEvent P} (hs : s.Sound numflags e) (hgame : InGame e) :
    Tells numflags s (s.next near e) := by
  cases e with
  | setup gotitems hold protect tkpenalty spots gamelimit gamespeed rnd => exact hgame.elim
  | parseflags spots rnd =>
    show Tells numflags s (s.parseflags spots rnd)
    unfold Ctf.parseflags
    split
    · next hgot => exact tells_setupflags hgot (hs hgot) rnd
    · exact .refl s
  | connected cn team state o flags =>
    show Tells numflags s (s.connected cn team state o flags)
    unfold Ctf.connected
    split
    · next hc =>
      refine tells_clients (fun h => Keyed.nodup_add h.nodup hc.1) (fun h c hmem => ?_)
        (fun h f hf ho => ?_) rfl
      · rcases List.mem_append.mp hmem with hmem | hmem
        · exact h.nonneg c hmem
        · rw [List.mem_singleton.mp hmem]
          exact hc.2.1
      · exact (List.map_append ▸ List.mem_append_left _ (h.owner f hf ho) :)
    · exact .refl s
  | clientdisconnect cn =>
    refine tells_withinfo fun ci hg hr => ?_
    have hpos := hr.nonneg ci (getinfo_mem hg)
    have hfree : (s.leavegame near ci).Free ci.cn :=
      (free_dropflag hpos hr.got ci.cn).keeps hpos (keeps_forget ci.cn)
    rw [getinfo_cn hg] at hfree
    have hleave : Tells numflags s (s.leavegame near ci) := tells_leavegame (free_of_carried hg hs)
    refine hleave.trans (tells_clients (fun h => Keyed.nodup_remove h.nodup) (fun h c hc => ?_)
      (fun h f hf ho => ?_) rfl) hr
    · exact h.nonneg c (List.mem_of_mem_filter hc)
    · obtain ⟨c, hc, heq⟩ := List.mem_map.mp (h.owner f hf ho)
      have hne : c.cn ≠ cn := fun hcn => hfree f hf (heq.symm.trans hcn)
      exact List.mem_map.mpr ⟨c, List.mem_filter.mpr ⟨hc, by simpa using hne⟩, heq⟩
  | forcespectator cn =>
    refine tells_withinfo fun ci hg => ?_
    have hleave : Tells numflags s (s.leavegame near ci) := tells_leavegame (free_of_carried hg hs)
    refine hleave.trans ?_
    exact tells_upd (by exact fun _ => rfl) cn
  | setstate cn state => exact tells_upd (by exact fun _ => rfl) cn
  | moved cn o => exact tells_upd (by exact fun _ => rfl) cn
  | spawned cn =>
    refine tells_withinfo fun ci hg => ?_
    split
    · exact tells_upd (by exact fun _ => rfl) cn
    · exact .refl s
  | died cn actor =>
    refine tells_withinfo fun ci hg => ?_
    split
    · intro hr
      have hpos := hr.nonneg ci (getinfo_mem hg)
      have hdied : Tells numflags s (s.died near ci (actor.bind s.getinfo)) :=
        tells_died hpos (free_of_carried hg hs) _
      exact hdied.trans (tells_upd (by exact fun _ => rfl) cn) hr
    · exact .refl s
  | setteam cn team =>
    refine tells_withinfo fun ci hg => Tracks.trans ?_ (tells_upd (by exact fun _ => rfl) cn)
    split
    · exact tells_dropflag (free_of_carried hg hs) ci.cn
    · exact .refl s
  | takeflag cn i version =>
    refine tells_withinfo fun ci hg => ?_
    split
    · intro hr
      have hpos := hr.nonneg ci (getinfo_mem hg)
      exact tells_takeflag (List.mem_map_of_mem (getinfo_mem hg)) hpos i.toNat version hr
    · exact .refl s
  | trydropflag cn =>
    exact tells_withinfo fun ci hg => tells_dropflag (free_of_carried hg hs) ci.cn
  | passflag actor target rnd =>
    refine tells_withinfo fun a ha => tells_withinfo fun t ht => ?_
    unfold Ctf.passflag
    split
    · next hpass =>
      intro hr
      have hpos := hr.nonneg a (getinfo_mem ha)
      have ht' : s.getinfo t.cn = some t := (getinfo_cn ht).symm ▸ ht
      exact tells_dopassflagsequence hpos ht' rnd hpass.1 (hs a ha t ht hpass) hr
    · exact .refl s
  | update lastmillis gamemillis rnd =>
    refine Tracks.trans (t := { s with lastmillis, gamemillis }) ?_ (tells_update rnd)
    refine .of_quiet (fun h => ?_) rfl fun _ _ h => h.congr rfl rfl rfl rfl rfl
    exact ⟨h.nodup, h.nonneg, h.got, h.owner, h.alone, h.modes, hs⟩
  | changegamespeed val =>
    show Tells numflags s (s.changegamespeed val)
    have hcns : (s.changegamespeed val).clients.map Runner.cn = s.clients.map Runner.cn := by
      unfold Ctf.changegamespeed
      simp only
      split
      · rw [List.map_map]
        rfl
      · rfl
    refine tells_clients (fun h => hcns ▸ h.nodup) (fun h => nonneg_of_cns hcns h.nonneg)
      (fun h => hcns ▸ h.owner) ?_
    unfold Ctf.changegamespeed
    simp only
    split <;> rfl
  | setlimit gamelimit =>
    exact tells_clients (fun h => h.nodup) (fun h => h.nonneg) (fun h => h.owner) rfl
  | startintermission => exact tells_startintermission

end Ctf

/-- A flag of `initclient(ci, p, true)`. -/
def Flag.initclient {P : Type} (f : Flag P) : InitFlag where
  version := f.version
  spawnindex := f.spawnindex
  owner := f.owner
  invis := decide (f.invistime ≠ 0)
  dropped := decide (f.droptime ≠ 0)

theorem Flag.seen_initclient {P : Type} (f : Flag P) :
    f.Seen (FlagClient.initflag f.initclient) := by
  refine ⟨rfl, rfl, ?_, rfl⟩
  unfold Flag.initclient FlagClient.initflag FlagView.place Flag.place
  by_cases ho : 0 ≤ f.owner
  · simp [ho]
  · have hneg : f.owner < 0 := by omega
    simp [ho, hneg]

namespace Ctf

variable {P : Type} {near : P → P → Bool} {s s' : Ctf P} {numflags : Nat} {c : FlagClient}

/-- **A join**: who applies `N_INITFLAGS` after the map was loaded agrees. -/
theorem agree_initclient (hgot : s.notgotflags = true → s.flags = [])
    (hfits : s.flags.length ≤ numflags) :
    Agree numflags s
      ((FlagClient.setup numflags s.hold s.protect).parseflags s.scores
        (s.flags.map Flag.initclient)) := by
  refine ⟨rfl, rfl, rfl, ?_, hfits, fun hnot => ?_, fun i f v hf hv => ?_⟩
  · simp [FlagClient.parseflags, FlagClient.setup]
  · rw [hgot hnot, FlagClient.parseflags]
    apply List.ext_getElem?
    simp [FlagClient.setup]
  · unfold FlagClient.parseflags at hv
    simp only [List.getElem?_mapIdx, List.getElem?_map, hf, Option.map_some, Option.getD_some,
      Option.map_eq_some_iff] at hv
    obtain ⟨-, -, rfl⟩ := hv
    exact f.seen_initclient

end Ctf

/-! ## Games -/

/-- A game: the mode, the number of flags of the map as all clients have it, and a client. -/
structure FlagGame (P : Type) where
  ctf : Ctf P := Ctf.initial
  numflags : Nat := 0
  client : Option FlagClient := none

/-- What happens in a game: an event of the mode, or the client joins. -/
inductive FlagEvent (P : Type)
  | play (e : CtfEvent P)
  | join

namespace FlagGame

variable {P : Type} (near : P → P → Bool) (g : FlagGame P)

/-- The number of flags of the map after an event. -/
def mapAfter : CtfEvent P → Nat
  | .setup _ hold _ _ spots _ _ _ => Ctf.mapflags hold spots
  | _ => g.numflags

/-- A client loads a new map. -/
def mapchange (c : FlagClient) : CtfEvent P → FlagClient
  | .setup _ hold protect _ spots _ _ _ => .setup (Ctf.mapflags hold spots) hold protect
  | _ => c

/-- One event.  The client applies what is sent, behind the `N_MAPCHANGE` of a new map; when it
joins, it is sent the map and `N_INITFLAGS`. -/
def next (g : FlagGame P) : FlagEvent P → FlagGame P
  | .play e =>
    let s := g.ctf.next near e
    { ctf := s
      numflags := g.mapAfter e
      client := g.client.map fun c =>
        (s.sent.drop g.ctf.sent.length).foldl FlagClient.recv (mapchange c e) }
  | .join =>
    { g with client := some ((FlagClient.setup g.numflags g.ctf.hold g.ctf.protect).parseflags
        g.ctf.scores (g.ctf.flags.map Flag.initclient)) }

/-- A game as a system; no event fails. -/
def step (g : FlagGame P) (e : FlagEvent P) : Except Fault (FlagGame P) := .ok (g.next near e)

/-- The condition of `Ctf.Sound`. -/
def Sound (g : FlagGame P) : FlagEvent P → Prop
  | .play e => g.ctf.Sound g.numflags e
  | .join => True

instance (g : FlagGame P) : ∀ e : FlagEvent P, Decidable (g.Sound e)
  | .play e => Ctf.decidableSound g.numflags g.ctf e
  | .join => isTrue trivial

/-- **The client is in step**: it has the scores, and the version, the place, the spawn index and
the invisibility of every flag. -/
def InStep : Prop :=
  ∀ c ∈ g.client, c.scores = g.ctf.scores ∧
    ∀ (i : Nat) (f : Flag P), g.ctf.flags[i]? = some f → ∃ v, c.flags[i]? = some v ∧ f.Seen v

/-- The invariant of the runs. -/
structure Kept : Prop where
  ready : g.ctf.Ready
  fits : g.ctf.flags.length ≤ g.numflags
  agree : ∀ c ∈ g.client, Ctf.Agree g.numflags g.ctf c

variable {near g}

theorem Kept.inStep (h : g.Kept) : g.InStep := by
  intro c hc
  have hagree := h.agree c hc
  refine ⟨hagree.scores, fun i f hf => ?_⟩
  have hlt := hagree.inrange hf
  have hv := List.getElem?_eq_getElem hlt
  exact ⟨_, hv, hagree.seen i f _ hf hv⟩

/-- Events that are told keep the invariant. -/
theorem Kept.tells {s : Ctf P} {n : Nat} {client : Option FlagClient} {t : Ctf P} (hr : s.Ready)
    (hle : s.flags.length ≤ n) (hc : ∀ c ∈ client, Ctf.Agree n s c) (ht : Ctf.Tells n s t) :
    Kept { ctf := t, numflags := n, client := client.map fun c =>
      (t.sent.drop s.sent.length).foldl FlagClient.recv c } := by
  -- there is always somebody who agrees: who joins now
  have hjoin := ht.agree hr (Ctf.agree_initclient hr.got hle)
  refine ⟨(ht hr).1, hjoin.le, fun d hd => ?_⟩
  obtain ⟨c, hmem, rfl⟩ := Option.map_eq_some_iff.mp hd
  exact ht.agree hr (hc c hmem)

/-- A new map, before its flags are set up. -/
theorem Kept.setup (h : g.Kept) (gotitems hold protect tkpenalty : Bool) (spots : List (P × Int))
    (gamelimit gamespeed : Int) (rnd : Nat → Nat) (hmodes : hold = true → protect = false)
    (hclock : protect = true → g.ctf.lastmillis ≠ 0) :
    (g.next near (.play (.setup gotitems hold protect tkpenalty spots gamelimit gamespeed
      rnd))).Kept := by
  let s : Ctf P := { g.ctf with
    clients := g.ctf.clients.map Runner.mapchange
    flags := [], holdspawns := [], scores := (0, 0), notgotflags := true, hold, protect
    tkpenalty, gamemillis := 0, gamelimit, gamespeed, interm := 0 }
  have hcns : s.clients.map Runner.cn = g.ctf.clients.map Runner.cn := by
    rw [List.map_map]
    rfl
  have hready : s.Ready :=
    .of_free (hcns ▸ h.ready.nodup) (Ctf.nonneg_of_cns hcns h.ready.nonneg) (fun _ => rfl)
      (fun f hf => absurd hf List.not_mem_nil) hmodes hclock
  have hload : ∀ c ∈ g.client.map fun _ => FlagClient.setup (Ctf.mapflags hold spots) hold protect,
      Ctf.Agree (Ctf.mapflags hold spots) s c := by
    intro d hd
    obtain ⟨c, -, rfl⟩ := Option.map_eq_some_iff.mp hd
    exact ⟨rfl, rfl, rfl, List.length_replicate, Nat.zero_le _, fun _ => rfl,
      fun i f v hf => by cases hf⟩
  have hsetup : Ctf.Tells (Ctf.mapflags hold spots) s
      (if gotitems then s.setupflags spots rnd else s) := by
    split
    · exact Ctf.tells_setupflags rfl (Nat.le_refl _) rnd
    · exact .refl s
  have hkept := Kept.tells hready (Nat.zero_le _) hload hsetup
  rw [Option.map_map] at hkept
  exact hkept

/-- **Every event** keeps the client in step. -/
theorem Kept.next (h : g.Kept) {e : FlagEvent P} (hs : g.Sound e) : (g.next near e).Kept := by
  cases e with
  | join =>
    refine ⟨h.ready, h.fits, fun c hc => ?_⟩
    obtain rfl := Option.some.inj hc
    exact Ctf.agree_initclient h.ready.got h.fits
  | play e =>
    by_cases hgame : Ctf.InGame e
    · have hsame : g.mapAfter e = g.numflags ∧ ∀ c, mapchange c e = c := by
        cases e with
        | setup => exact hgame.elim
        | _ => exact ⟨rfl, fun _ => rfl⟩
      have htells : Ctf.Tells g.numflags g.ctf (g.ctf.next near e) := Ctf.tells_next hs hgame
      have hkept := Kept.tells h.ready h.fits h.agree htells
      unfold FlagGame.next
      simp only [hsame.1, hsame.2]
      exact hkept
    · cases e with
      | setup gotitems hold protect tkpenalty spots gamelimit gamespeed rnd =>
        exact h.setup gotitems hold protect tkpenalty spots gamelimit gamespeed rnd hs.1 hs.2
      | _ => exact absurd trivial hgame

theorem kept_initial : ({} : FlagGame P).Kept := by
  refine ⟨?_, Nat.le_refl 0, fun c hc => by cases hc⟩
  exact .of_free List.nodup_nil (fun c hc => absurd hc List.not_mem_nil) (fun _ => rfl)
    (fun f hf => absurd hf List.not_mem_nil) (fun h => by cases h) fun h => by cases h

end FlagGame

/-- **Flags at the clients**: in every run in which every flag that is passed is taken over by the
target (and no flag is dropped or hidden while the clock is 0, and no client sends more flags for a
map than it has), a client that joined at any time has the scores, and the version, the place, the
spawn index and the invisibility of every flag. -/
theorem flags_followed {P : Type} (near : P → P → Bool) {es : List (FlagEvent P)} {g : FlagGame P}
    (hrun : Run.Steps (FlagGame.step near) FlagGame.Sound {} es g) : g.InStep := by
  refine FlagGame.Kept.inStep (hrun.invariant FlagGame.Kept (fun g e g' h hs hstep => ?_)
    FlagGame.kept_initial)
  obtain rfl := Except.ok.inj hstep
  exact h.next hs

/-- A client joins, a player takes a flag and passes it to one of his team. -/
theorem flags_followed_passed : ∃ g : FlagGame Unit, g.client.isSome ∧
    (∃ f ∈ g.ctf.flags[0]?, f.place = .owned 1) ∧ g.InStep := by
  obtain ⟨g, hrun, hclient, howner⟩ :=
    Run.Steps.of_execIf (FlagGame.step fun _ _ => false) FlagGame.Sound {}
      [.play (.setup true false false true [((), 2)] 600000 100 id),
        .play (.connected 0 "good" .dead () 0), .play (.connected 1 "good" .dead () 0),
        .play (.spawned 0), .play (.spawned 1), .join, .play (.takeflag 0 0 0),
        .play (.passflag 0 1 id)]
      (p := fun g => g.client.isSome ∧ ∃ f ∈ g.ctf.flags[0]?, f.place = .owned 1)
      (by decide +kernel)
  exact ⟨g, hclient, howner, flags_followed _ hrun⟩

/-- A flag is passed to a player who carries one: it is at home, and the client still sees it with
the one who passed it. -/
theorem pass_untold : ∃ g : FlagGame Unit,
    Run.Reachable (FlagGame.step fun _ _ => false) {} g ∧ ¬g.InStep ∧
      (∃ f ∈ g.ctf.flags[0]?, f.place = .home) ∧
      ∃ c ∈ g.client, ∃ v ∈ c.flags[0]?, v.place = .owned 0 := by
  obtain ⟨g, hrun, hg⟩ := Run.Reachable.of_any (FlagGame.step fun _ _ => false) {}
    (Ctf.twocarriers.map .play ++ [.join, .play (.passflag 0 1 id)])
    (p := fun g => (∃ f ∈ g.ctf.flags[0]?, f.place = .home) ∧
      ∃ c ∈ g.client, ∃ v ∈ c.flags[0]?, v.place = .owned 0) (by decide +kernel)
  obtain ⟨⟨f, hf, hhome⟩, c, hc, v, hv, howned⟩ := of_decide_eq_true hg
  refine ⟨g, hrun, fun hstep => ?_, ⟨f, hf, hhome⟩, c, hc, v, hv, howned⟩
  obtain ⟨w, hw, hseen⟩ := (hstep c hc).2 0 f hf
  obtain rfl := Option.some.inj (hw.symm.trans hv)
  have hplace := hseen.place
  rw [howned, hhome] at hplace
  cases hplace

end QServ
