import Mathlib.Data.List.Forall2
import Mathlib.Data.List.GetD
import Mathlib.Data.List.Induction
import Mathlib.Data.List.Perm.Basic
import Mathlib.Data.List.Sort
import Mathlib.Data.String.Basic
import Mathlib.Logic.Relation
import QServ.Lib.Loop
import QServ.Lib.Tally

/-!
# Balancing the teams with bots

`balanceteams` moves bots from the first team of a sorted list to the last one.  An entry of the
list has its name in the buffer of a client, and the entry that a bot is announced for is read
after the last entry has been moved forward.

* `calcteams_spec`: the entries are the teams with their sizes.
* `Balance.step`: one round of the loop; `Balance.step_traced`: whom it moves.
* `Fair`: what the rounds keep while the list is one of names and sizes.
* `balanceteams_spec`: whom the loop moves, and when the teams are balanced by it.
-/

namespace QServ

/-- What a client is; bots are not spectators. -/
inductive Kind where
  | human (spectator : Bool)
  | bot
deriving DecidableEq, Repr

/-- A client, with the buffer of his team's name. -/
structure Member where
  cn : Nat
  kind : Kind
  team : String
deriving DecidableEq, Repr

/-- Where a name is: in the buffer of a client or in the program. -/
inductive Teamname where
  | client (cn : Nat)
  | literal (name : String)
deriving DecidableEq, Repr

/-- `teamscore`. -/
structure Teamscore where
  team : Teamname
  score : Nat
deriving DecidableEq, Repr

/-- `clients` and `bots`. -/
structure Roster where
  clients : List Member
  bots : List Nat
  nodup : (clients.map Member.cn).Nodup
  nodup_bots : bots.Nodup
  mem_bots : ∀ c ∈ clients, c.cn ∈ bots ↔ c.kind = .bot

/-! ## The teams -/

/-- Not a spectator. -/
def Member.plays (c : Member) : Bool := c.kind ≠ .human true

/-- The team of a client. -/
def teamof (cs : List Member) (cn : Nat) : String :=
  match cs.find? fun c => c.cn = cn with
  | some c => c.team
  | none => ""

/-- The name that is there. -/
def Teamname.read (cs : List Member) : Teamname → String
  | client cn => teamof cs cn
  | literal name => name

/-- The name of an entry. -/
def Teamscore.name (cs : List Member) (t : Teamscore) : String := t.team.read cs

/-- `t->score++`. -/
def Teamscore.increase (t : Teamscore) : Teamscore := { t with score := t.score + 1 }

/-- A client is counted. -/
def addmember (cs : List Member) (teams : List Teamscore) (c : Member) : List Teamscore :=
  if c.plays ∧ c.team ≠ "" then
    Tally.bump (Teamscore.name cs) Teamscore.increase ⟨.client c.cn, 1⟩ teams
  else teams

/-- `teamscore::compare(x, y)`. -/
def Teamscore.compare (cs : List Member) (x y : Teamscore) : Bool :=
  if y.score < x.score then true
  else if x.score < y.score then false
  else decide (x.name cs < y.name cs)

/-- A default team is added if it is not there. -/
def adddefault (cs : List Member) (teams : List Teamscore) (name : String) : List Teamscore :=
  if teams.any fun t => t.name cs = name then teams else teams ++ [⟨.literal name, 0⟩]

/-- The teams of those who play, sorted. -/
def counted (cs : List Member) : List Teamscore :=
  (cs.foldl (addmember cs) []).insertionSort fun x y => y.compare cs x = false

/-- `calcteams(teams)`. -/
def calcteams (cs : List Member) : List Teamscore :=
  if (counted cs).length < 2 then ["good", "evil"].foldl (adddefault cs) (counted cs)
  else counted cs

/-- The names of the teams. -/
def teamnames (cs : List Member) : List String := (calcteams cs).map (Teamscore.name cs)

/-! ## The loop -/

/-- The variables of `balanceteams`, and the messages it has sent. -/
structure Balance where
  clients : List Member
  teams : List Teamscore
  reassign : List Nat
  moved : List (Nat × String) := []
deriving DecidableEq, Repr

/-- The last entry is moved forward, in a list from the last entry to the first. -/
def sift : Teamscore → List Teamscore → List Teamscore
  | x, [] => [x]
  | x, y :: ys => if x.score ≤ y.score then x :: y :: ys else y :: sift x ys

/-- `teams[0].score--; t.score++`, and the last entry is moved forward. -/
def shift (first : Teamscore) (rest : List Teamscore) : List Teamscore :=
  match ({ first with score := first.score - 1 } :: rest).reverse with
  | [] => []
  | t :: others => (sift t.increase others).reverse

namespace Balance

variable (b : Balance)

/-- The condition of the loop. -/
def goes : Bool :=
  match b.teams with
  | [] => false
  | first :: rest => b.reassign ≠ [] && (rest.getLastD first).score + 1 < first.score

/-- The first bot that is left in the first team: his place in `reassign`. -/
def findbot : Option Nat :=
  match b.teams with
  | [] => none
  | first :: _ =>
    b.reassign.findIdx? fun cn => teamof b.clients cn = first.name b.clients

/-- `reassign.removeunordered(i)`. -/
def removeunordered (l : List Nat) (i : Nat) : List Nat := (l.set i (l.getLastD 0)).dropLast

/-- `copystring(bot->team, team)`. -/
def setteam (cs : List Member) (bot : Nat) (team : String) : List Member :=
  cs.map fun c => if c.cn = bot then { c with team } else c

/-- The bot at a place of `reassign` goes to a team. -/
def assign (i : Nat) (teams : List Teamscore) (team : String) : Balance :=
  let bot := b.reassign.getD i 0
  { clients := setteam b.clients bot team
    teams
    reassign := removeunordered b.reassign i
    moved := b.moved ++ [(bot, team)] }

/-- A bot is moved: to the team that is the last one now. -/
def move (i : Nat) : Balance :=
  match b.teams with
  | [] => b
  | first :: rest =>
    let teams := shift first rest
    b.assign i teams ((teams.getLastD first).name b.clients)

/-- One round. -/
def step : Balance ⊕ Balance :=
  if b.goes then
    match b.findbot with
    | some i => .inl (b.move i)
    | none => .inl { b with teams := b.teams.tail }
  else .inr b

end Balance

/-- The start of `balanceteams()`. -/
def Roster.start (r : Roster) : Balance :=
  { clients := r.clients, teams := calcteams r.clients, reassign := r.bots }

/-- `balanceteams()`. -/
def Roster.balanceteams (r : Roster) : Option Balance :=
  Loop.loop (fun b : Balance => some b.step)
    (r.bots.length + (calcteams r.clients).length + 1) r.start

/-! ## Sizes -/

/-- How many play in a team. -/
def size (cs : List Member) (name : String) : Nat :=
  cs.countP fun c => c.plays && decide (c.team ≠ "") && decide (c.team = name)

section Sizes

variable {cs : List Member} {c : Member}

theorem teamof_eq (hnd : (cs.map Member.cn).Nodup) (hc : c ∈ cs) : teamof cs c.cn = c.team := by
  unfold teamof
  cases hfind : cs.find? fun c' => c'.cn = c.cn with
  | none =>
    rw [List.find?_eq_none] at hfind
    exact absurd (decide_eq_true rfl) (hfind c hc)
  | some c' =>
    have hcn : c'.cn = c.cn := by simpa using List.find?_some hfind
    rw [List.inj_on_of_nodup_map hnd (List.mem_of_find?_eq_some hfind) hc hcn]

theorem exists_of_teamof {cn : Nat} (h : teamof cs cn ≠ "") : ∃ c ∈ cs, c.cn = cn := by
  unfold teamof at h
  split at h
  · next c hc => exact ⟨c, List.mem_of_find?_eq_some hc, by simpa using List.find?_some hc⟩
  · exact absurd rfl h

theorem size_pos {name : String} : 0 < size cs name ↔
    ∃ c ∈ cs, c.plays = true ∧ c.team ≠ "" ∧ c.team = name := by
  simp [size, List.countP_pos_iff, and_assoc]

/-- The counts of those who play. -/
theorem foldl_addmember (l : List Member) (hl : ∀ c ∈ l, teamof cs c.cn = c.team) :
    Tally.Tallies (Teamscore.name cs) Teamscore.score (l.foldl (addmember cs) []) (size l) := by
  induction l using List.reverseRecOn with
  | nil => exact Tally.tallies_nil
  | append_singleton l c ih =>
    have hl' := ih fun c hc => hl c (List.mem_append_left _ hc)
    have hsize (name : String) : size (l ++ [c]) name = size l name +
        if c.plays && decide (c.team ≠ "") && decide (c.team = name) then 1 else 0 := by
      simp [size, List.countP_append]
    have hname : Teamscore.name cs ⟨.client c.cn, 1⟩ = c.team := hl c (by simp)
    rw [List.foldl_append, List.foldl_cons, List.foldl_nil, funext hsize]
    by_cases hc : c.plays = true ∧ c.team ≠ ""
    · have hbump := hl'.bump Teamscore.increase ⟨.client c.cn, 1⟩ (fun _ => rfl) (fun _ => rfl) rfl
      have hone (name : String) : (c.plays && decide (c.team ≠ "") && decide (c.team = name)) =
          decide (name = c.team) := by
        simp [hc.1, hc.2, eq_comm]
      rw [addmember, if_pos hc]
      simpa only [hname, hone, decide_eq_true_eq] using hbump
    · have hzero (name : String) :
          (c.plays && decide (c.team ≠ "") && decide (c.team = name)) = false := by
        by_contra h
        simp only [Bool.not_eq_false, Bool.and_eq_true, decide_eq_true_eq] at h
        exact hc ⟨h.1.1, h.1.2⟩
      rw [addmember, if_neg hc]
      simp only [hzero, Bool.false_eq_true, if_false, Nat.add_zero]
      exact hl'

theorem compare_total (x y : Teamscore) :
    y.compare cs x = false ∨ x.compare cs y = false := by
  unfold Teamscore.compare
  by_cases h : x.score < y.score
  · right
    simp [h, not_lt_of_gt h]
  · by_cases h' : y.score < x.score
    · left
      simp [h', h]
    · simp only [h, h', if_false, decide_eq_false_iff_not, not_lt]
      exact le_total _ _

theorem compare_trans {x y z : Teamscore} (hxy : y.compare cs x = false)
    (hyz : z.compare cs y = false) : z.compare cs x = false := by
  unfold Teamscore.compare at *
  split_ifs at hxy hyz ⊢ <;> first | omega | skip
  simp only [decide_eq_false_iff_not, not_lt] at hxy hyz ⊢
  exact le_trans hxy hyz

instance : Std.Total fun x y : Teamscore => y.compare cs x = false := ⟨compare_total⟩

instance : IsTrans Teamscore fun x y => y.compare cs x = false := ⟨fun _ _ _ => compare_trans⟩

theorem score_le_of_compare {x y : Teamscore} (h : y.compare cs x = false) :
    y.score ≤ x.score := by
  unfold Teamscore.compare at h
  by_contra hlt
  simp [not_le.mp hlt] at h

/-- What the list of the teams is. -/
structure Teams (cs : List Member) (teams : List Teamscore) : Prop where
  sorted : teams.Pairwise fun x y => y.score ≤ x.score
  nodup : (teams.map (Teamscore.name cs)).Nodup
  score : ∀ t ∈ teams, t.score = size cs (t.name cs)
  all : ∀ name, 0 < size cs name → name ∈ teams.map (Teamscore.name cs)

theorem teams_adddefault {teams : List Teamscore} (h : Teams cs teams) (name : String) :
    Teams cs (adddefault cs teams name) ∧
      (adddefault cs teams name).map (Teamscore.name cs) =
        if name ∈ teams.map (Teamscore.name cs) then teams.map (Teamscore.name cs)
        else teams.map (Teamscore.name cs) ++ [name] := by
  unfold adddefault
  by_cases hin : name ∈ teams.map (Teamscore.name cs)
  · have hany : (teams.any fun t => t.name cs = name) = true := by
      obtain ⟨t, ht, heq⟩ := List.mem_map.mp hin
      exact List.any_eq_true.mpr ⟨t, ht, by simpa using heq⟩
    rw [if_pos hany, if_pos hin]
    exact ⟨h, rfl⟩
  · have hany : ¬ (teams.any fun t => t.name cs = name) = true := by
      intro hany
      obtain ⟨t, ht, heq⟩ := List.any_eq_true.mp hany
      exact hin (List.mem_map.mpr ⟨t, ht, by simpa using heq⟩)
    rw [if_neg hany, if_neg hin]
    have hnew : Teamscore.name cs ⟨.literal name, 0⟩ = name := rfl
    refine ⟨⟨?_, ?_, ?_, ?_⟩, by simp [hnew]⟩
    · refine List.pairwise_append.mpr ⟨h.sorted, List.pairwise_singleton _ _, ?_⟩
      intro x _ y hy
      rw [List.mem_singleton.mp hy]
      exact Nat.zero_le _
    · rw [List.map_append, List.nodup_append]
      refine ⟨h.nodup, by simp, ?_⟩
      intro a ha c hc heq
      rw [List.map_singleton, List.mem_singleton, hnew] at hc
      exact hin (by rwa [← hc, ← heq])
    · intro t ht
      obtain ht | ht := List.mem_append.mp ht
      · exact h.score t ht
      · rw [List.mem_singleton.mp ht, hnew]
        exact (Nat.eq_zero_of_not_pos fun hpos => hin (h.all name hpos)).symm
    · intro a ha
      rw [List.map_append]
      exact List.mem_append_left _ (h.all a ha)

theorem counted_spec (hnd : (cs.map Member.cn).Nodup) : Teams cs (counted cs) ∧
    ∀ name ∈ (counted cs).map (Teamscore.name cs), 0 < size cs name := by
  have htally := foldl_addmember cs fun c hc => teamof_eq hnd hc
  have hperm : (counted cs).Perm (cs.foldl (addmember cs) []) := List.perm_insertionSort _ _
  refine ⟨⟨?_, ?_, ?_, ?_⟩, ?_⟩
  · exact (List.pairwise_insertionSort _ _).imp score_le_of_compare
  · exact (hperm.map _).nodup_iff.mpr htally.nodup
  · exact fun t ht => htally.count t (hperm.mem_iff.mp ht)
  · exact fun name hpos => (hperm.map _).mem_iff.mpr ((htally.all name).mp hpos)
  · exact fun name hname => (htally.all name).mpr ((hperm.map _).mem_iff.mp hname)

/-- **The teams**: their sizes, the largest first, and all of those who play. -/
theorem calcteams_spec (hnd : (cs.map Member.cn).Nodup) : Teams cs (calcteams cs) := by
  have h := (counted_spec hnd).1
  unfold calcteams
  split
  · exact (teams_adddefault (teams_adddefault h "good").1 "evil").1
  · exact h

theorem mem_adddefaults {teams : List Teamscore} (h : Teams cs teams) (name : String) :
    name ∈ (["good", "evil"].foldl (adddefault cs) teams).map (Teamscore.name cs) ↔
      name ∈ teams.map (Teamscore.name cs) ∨ name = "good" ∨ name = "evil" := by
  have hgood := teams_adddefault h "good"
  have hmem (teams : List Teamscore) (h : Teams cs teams) (d : String) :
      name ∈ (adddefault cs teams d).map (Teamscore.name cs) ↔
        name ∈ teams.map (Teamscore.name cs) ∨ name = d := by
    rw [(teams_adddefault h d).2]
    split
    · next hin =>
      constructor
      · exact .inl
      · rintro (h | rfl)
        · exact h
        · exact hin
    · simp
  rw [List.foldl_cons, List.foldl_cons, List.foldl_nil, hmem _ hgood.1, hmem _ h, or_assoc]

/-- The teams after some of those who play have gone to other teams of the list. -/
theorem teamnames_mono {cs' : List Member} (hnd : (cs.map Member.cn).Nodup)
    (hnd' : (cs'.map Member.cn).Nodup) (hkept : ∀ name, 0 < size cs name → 0 < size cs' name)
    (hwithin : ∀ name, 0 < size cs' name → name ∈ teamnames cs) :
    ∀ name ∈ teamnames cs', name ∈ teamnames cs := by
  obtain ⟨h, hpos⟩ := counted_spec hnd
  obtain ⟨h', hpos'⟩ := counted_spec hnd'
  have hle : (counted cs).length ≤ (counted cs').length := by
    have hsub : (counted cs).map (Teamscore.name cs) ⊆ (counted cs').map (Teamscore.name cs') :=
      fun name hname => h'.all name (hkept name (hpos name hname))
    simpa using (List.subperm_of_subset h.nodup hsub).length_le
  intro name hname
  unfold teamnames calcteams at hname
  by_cases hfew : (counted cs').length < 2
  · rw [if_pos hfew, mem_adddefaults h'] at hname
    obtain hname | hname := hname
    · exact hwithin name (hpos' name hname)
    · unfold teamnames calcteams
      rw [if_pos (by omega), mem_adddefaults h]
      exact .inr hname
  · rw [if_neg hfew] at hname
    exact hwithin name (hpos' name hname)

end Sizes

/-! ## Whom the loop moves -/

theorem sift_length (x : Teamscore) (ys : List Teamscore) : (sift x ys).length = ys.length + 1 := by
  induction ys with
  | nil => rfl
  | cons y ys ih =>
    unfold sift
    split
    · rfl
    · simp [ih]

theorem shift_length (first : Teamscore) (rest : List Teamscore) :
    (shift first rest).length = rest.length + 1 := by
  unfold shift
  split
  · next h => simp at h
  · next t others h =>
    have hlength := congrArg List.length h
    rw [List.length_reverse, List.length_cons, List.length_cons] at hlength
    rw [List.length_reverse, sift_length, hlength]

/-- The last entry stays where it is if the one before it has more, and so does the first. -/
theorem shift_eq {first last : Teamscore} {mid : List Teamscore}
    (hmid : ∀ t ∈ mid, last.score < t.score) (hfirst : last.score + 1 < first.score) :
    shift first (mid ++ [last]) =
      { first with score := first.score - 1 } :: (mid ++ [last.increase]) := by
  have hsift : ∀ ys : List Teamscore, (∀ y ∈ ys, last.score < y.score) →
      sift last.increase ys = last.increase :: ys := by
    intro ys hys
    cases ys with
    | nil => rfl
    | cons y ys =>
      have := hys y List.mem_cons_self
      have hle : last.increase.score ≤ y.score := this
      rw [sift, if_pos hle]
  have hreverse : ({ first with score := first.score - 1 } :: (mid ++ [last])).reverse =
      last :: (mid.reverse ++ [{ first with score := first.score - 1 }]) := by
    simp
  unfold shift
  rw [hreverse]
  dsimp only
  rw [hsift]
  · simp
  · intro y hy
    obtain hy | hy := List.mem_append.mp hy
    · exact hmid y (List.mem_reverse.mp hy)
    · rw [List.mem_singleton.mp hy]
      simp only
      omega

namespace Balance

theorem removeunordered_perm {l : List Nat} {i : Nat} (hi : i < l.length) :
    l.Perm (l.getD i 0 :: removeunordered l i) := by
  obtain rfl | ⟨init, last, rfl⟩ := l.eq_nil_or_concat
  · simp at hi
  · rw [List.concat_eq_append] at hi ⊢
    rw [List.length_append, List.length_singleton] at hi
    unfold removeunordered
    rw [List.getLastD_concat]
    obtain hlt | heq := Nat.lt_succ_iff_lt_or_eq.mp hi
    · have hsplit := List.take_append_drop i init
      rw [List.set_append_left _ _ hlt, List.dropLast_concat, List.getD_append _ _ _ _ hlt,
        List.getD_eq_getElem _ _ hlt]
      have hset : (init.set i last).Perm (last :: init.eraseIdx i) := by
        rw [List.set_eq_take_append_cons_drop, if_pos hlt, List.eraseIdx_eq_take_drop_succ]
        exact List.perm_middle
      have hinit : init.Perm (init[i] :: init.eraseIdx i) :=
        (List.getElem_cons_eraseIdx_perm hlt).symm
      exact (hinit.append_right [last]).trans (((List.perm_append_singleton _ _).cons _).trans
        (hset.symm.cons _))
    · subst heq
      simp [List.perm_append_singleton]

variable {r : Roster} {b b' : Balance}

/-- What is true of everything the loop does: only bots are moved, each once and to the team that is
announced. -/
structure Traced (r : Roster) (b : Balance) : Prop where
  same : List.Forall₂ (fun c c' : Member => c'.cn = c.cn ∧ c'.kind = c.kind ∧
    (c'.team = c.team ∨ c.kind = .bot ∧ (c.cn, c'.team) ∈ b.moved)) r.clients b.clients
  said : ∀ m ∈ b.moved, ∀ c ∈ b.clients, c.cn = m.1 → c.team = m.2
  once : ∀ m ∈ b.moved, m.1 ∉ b.reassign
  bots : ∀ cn ∈ b.reassign, cn ∈ r.bots
  nodup : b.reassign.Nodup

theorem traced_start (r : Roster) : Traced r r.start :=
  ⟨List.forall₂_same.mpr fun _ _ => ⟨rfl, rfl, .inl rfl⟩, nofun, nofun, fun _ h => h,
    r.nodup_bots⟩

theorem findbot_lt {i : Nat} (h : b.findbot = some i) : i < b.reassign.length := by
  unfold findbot at h
  split at h
  · cases h
  · exact (List.findIdx?_eq_some_iff_getElem.mp h).1

theorem goes_ne_nil (h : b.goes = true) : b.teams ≠ [] := by
  intro hnil
  simp [goes, hnil] at h

theorem mem_setteam {cs : List Member} {bot : Nat} {team : String} {c' : Member} :
    c' ∈ setteam cs bot team ↔
      ∃ c ∈ cs, c' = if c.cn = bot then { c with team } else c := by
  simp [setteam, eq_comm]

/-- **A move.** -/
theorem Traced.assign (h : Traced r b) {i : Nat} (hi : i < b.reassign.length)
    (teams : List Teamscore) (team : String) : Traced r (b.assign i teams team) := by
  have hperm := removeunordered_perm hi
  have hmem : b.reassign.getD i 0 ∈ b.reassign := hperm.mem_iff.mpr List.mem_cons_self
  obtain ⟨hnot, hnodup⟩ := List.nodup_cons.mp (hperm.nodup_iff.mp h.nodup)
  have hsub : ∀ cn ∈ removeunordered b.reassign i, cn ∈ b.reassign := fun cn hcn =>
    hperm.mem_iff.mpr (List.mem_cons_of_mem _ hcn)
  refine ⟨?_, ?_, ?_, fun cn hcn => h.bots cn (hsub cn hcn), hnodup⟩
  · have hbot := h.bots _ hmem
    refine List.forall₂_map_right_iff.mpr ?_
    have hboth := (List.forall₂_and_left r.clients b.clients).mpr ⟨fun _ hc => hc, h.same⟩
    refine hboth.imp ?_
    rintro c c' ⟨hc, hcn, hkind, hteam⟩
    split
    · next heq =>
      refine ⟨hcn, hkind, .inr ⟨(r.mem_bots c hc).mp ?_, ?_⟩⟩
      · rw [← hcn, heq]
        exact hbot
      · rw [← hcn, heq]
        exact List.mem_append_right _ List.mem_cons_self
    · refine ⟨hcn, hkind, hteam.imp_right fun hteam => ⟨hteam.1, ?_⟩⟩
      exact List.mem_append_left _ hteam.2
  · intro m hm c' hc' hcn
    obtain ⟨c, hc, rfl⟩ := mem_setteam.mp hc'
    obtain hm | hm := List.mem_append.mp hm
    · by_cases heq : c.cn = b.reassign.getD i 0
      · rw [if_pos heq] at hcn
        refine absurd hmem ?_
        rw [← heq, show c.cn = m.1 from hcn]
        exact h.once m hm
      · rw [if_neg heq] at hcn ⊢
        exact h.said m hm c hc hcn
    · rw [List.mem_singleton.mp hm] at hcn ⊢
      by_cases heq : c.cn = b.reassign.getD i 0
      · rw [if_pos heq]
      · rw [if_neg heq] at hcn
        exact absurd hcn heq
  · intro m hm hmem'
    obtain hm | hm := List.mem_append.mp hm
    · exact h.once m hm (hsub _ hmem')
    · rw [List.mem_singleton.mp hm] at hmem'
      exact hnot hmem'

theorem Traced.move (h : Traced r b) {i : Nat} (hi : i < b.reassign.length) :
    Traced r (b.move i) := by
  unfold Balance.move
  split
  · exact h
  · exact h.assign hi _ _

/-- What one round does. -/
theorem step_cases (b : Balance) : b.goes = false ∧ b.step = .inr b ∨
    b.goes = true ∧ b.findbot = none ∧ b.step = .inl { b with teams := b.teams.tail } ∨
    ∃ i, b.goes = true ∧ b.findbot = some i ∧ b.step = .inl (b.move i) := by
  unfold step
  cases hgoes : b.goes with
  | false => exact .inl ⟨rfl, rfl⟩
  | true =>
    cases hfind : b.findbot with
    | none => exact .inr (.inl ⟨rfl, rfl, rfl⟩)
    | some i => exact .inr (.inr ⟨i, rfl, rfl, rfl⟩)

/-- A round moves a bot or drops a team. -/
def measure (b : Balance) : Nat := b.reassign.length + b.teams.length

theorem step_measure (h : b.step = .inl b') : b'.measure < b.measure := by
  obtain ⟨-, heq⟩ | ⟨hgoes, -, heq⟩ | ⟨i, hgoes, hfind, heq⟩ := b.step_cases
  · rw [heq] at h
    cases h
  · rw [heq] at h
    cases h
    have := List.length_pos_iff.mpr (goes_ne_nil hgoes)
    simp only [measure, List.length_tail]
    omega
  · rw [heq] at h
    cases h
    have hi := findbot_lt hfind
    have hlength := (removeunordered_perm hi).length_eq
    rw [List.length_cons] at hlength
    unfold measure move
    cases hteams : b.teams with
    | nil => exact absurd hteams (goes_ne_nil hgoes)
    | cons first rest =>
      simp only [assign, shift_length, List.length_cons]
      omega

theorem step_traced (h : Traced r b) (hstep : b.step = .inl b') : Traced r b' := by
  obtain ⟨-, heq⟩ | ⟨-, -, heq⟩ | ⟨i, -, hfind, heq⟩ := b.step_cases
  · rw [heq] at hstep
    cases hstep
  · rw [heq] at hstep
    cases hstep
    exact ⟨h.same, h.said, h.once, h.bots, h.nodup⟩
  · rw [heq] at hstep
    cases hstep
    exact h.move (findbot_lt hfind)

/-! ## When the teams are balanced -/

/-- What a round that moves a bot relies on: no team between the first and the last one has as many
members as one of them, and the name of the first one is not in the buffer of the bot, unless the
loop ends with him. -/
def careful (b : Balance) : Bool :=
  match b.goes, b.findbot, b.teams with
  | true, some i, first :: rest =>
    (rest.dropLast.all fun t =>
      (rest.getLastD first).score < t.score && t.score < first.score) &&
    (first.team ≠ .client (b.reassign.getD i 0) || !(b.move i).goes)
  | _, _, _ => true

/-- The rounds that follow. -/
def Later : Balance → Balance → Prop := Relation.ReflTransGen fun s t => s.step = .inl t

/-- What `balanceteams` is for: the sizes of the teams differ by one at most, or no bot is in a team
that has two members more than the smallest one. -/
def Balanced (cs : List Member) : Prop :=
  (∀ x ∈ calcteams cs, ∀ y ∈ calcteams cs, x.score ≤ y.score + 1) ∨
  ∀ x ∈ calcteams cs, ∀ y ∈ calcteams cs, y.score + 2 ≤ x.score →
    ∀ c ∈ cs, c.kind = .bot → c.team ≠ x.name cs

/-- A list of names and sizes, from which teams without bots have been dropped and whose last team
has got the bots that have been moved. -/
structure Fair (r : Roster) (b : Balance) (board : List (String × Nat)) : Prop where
  sorted : board.Pairwise fun x y => y.2 ≤ x.2
  nodup : (board.map Prod.fst).Nodup
  score : ∀ x ∈ board, x.2 = size b.clients x.1
  listed : ∀ x ∈ board, x.1 ∈ teamnames r.clients
  gone : ∀ name ∈ teamnames r.clients, name ∉ board.map Prod.fst →
    (∀ x ∈ board, x.2 ≤ size b.clients name) ∧
      ∀ c ∈ b.clients, c.kind = .bot → c.team ≠ name
  moved : ∀ c ∈ b.clients, c.kind = .bot → c.cn ∉ b.reassign →
    ∃ x, board.getLast? = some x ∧ c.team = x.1
  within : ∀ name, 0 < size b.clients name → name ∈ teamnames r.clients
  kept : ∀ name, 0 < size r.clients name → 0 < size b.clients name

/-- The entries of the loop are those of such a list; the names matter while it goes on. -/
structure Good (r : Roster) (b : Balance) (board : List (String × Nat)) : Prop
    extends Fair r b board where
  scores : b.teams.map Teamscore.score = board.map Prod.snd
  names : b.goes = true → board = b.teams.map fun t => (t.name b.clients, t.score)

theorem Traced.cns (h : Traced r b) : b.clients.map Member.cn = r.clients.map Member.cn := by
  have hsame := h.same
  generalize r.clients = cs at hsame
  generalize b.clients = cs' at hsame
  induction hsame with
  | nil => rfl
  | cons hc _ ih => rw [List.map_cons, List.map_cons, hc.1, ih]

theorem Traced.nodup_cns (h : Traced r b) : (b.clients.map Member.cn).Nodup := by
  rw [h.cns]
  exact r.nodup

theorem Traced.kind (h : Traced r b) {c : Member} (hc : c ∈ b.clients) (hbot : c.cn ∈ r.bots) :
    c.kind = .bot := by
  have hsame := h.same
  have hbots : ∀ c ∈ r.clients, c.cn ∈ r.bots → c.kind = .bot := fun c hc => (r.mem_bots c hc).mp
  generalize r.clients = cs at hsame hbots
  generalize b.clients = cs' at hsame hc
  induction hsame with
  | nil => cases hc
  | @cons d d' cs cs' hd _ ih =>
    obtain rfl | hc := List.mem_cons.mp hc
    · rw [hd.2.1]
      exact hbots d List.mem_cons_self (hd.1 ▸ hbot)
    · exact ih (fun c hc => hbots c (List.mem_cons_of_mem _ hc)) hc

theorem ne_empty_of_mem_teamnames {cs : List Member} (hnd : (cs.map Member.cn).Nodup)
    {name : String} (h : name ∈ teamnames cs) : name ≠ "" := by
  obtain ⟨hcounted, hpos⟩ := counted_spec hnd
  have hne : name ∈ (counted cs).map (Teamscore.name cs) → name ≠ "" := by
    intro hin
    obtain ⟨c, -, -, hteam, rfl⟩ := size_pos.mp (hpos name hin)
    exact hteam
  unfold teamnames calcteams at h
  split at h
  · obtain hin | rfl | rfl := (mem_adddefaults hcounted name).mp h
    · exact hne hin
    · decide
    · decide
  · exact hne h

/-- Bots are moved from one size to another. -/
theorem size_setteam {cs : List Member} {c : Member} (hnd : (cs.map Member.cn).Nodup)
    (hc : c ∈ cs) (hplays : c.plays = true) (hteam : c.team ≠ "") {team : String}
    (hne : team ≠ "") (name : String) :
    size (setteam cs c.cn team) name + (if name = c.team then 1 else 0) =
      size cs name + if name = team then 1 else 0 := by
  induction cs with
  | nil => cases hc
  | cons d cs ih =>
    obtain ⟨hd, hnd⟩ := List.nodup_cons.mp hnd
    simp only [size, setteam, List.map_cons, List.countP_cons] at ih ⊢
    obtain rfl | hc := List.mem_cons.mp hc
    · have hrest : cs.map (fun e => if e.cn = c.cn then { e with team } else e) = cs := by
        refine List.map_congr_left (fun e he => if_neg fun heq => hd ?_) |>.trans cs.map_id
        exact List.mem_map.mpr ⟨e, he, heq⟩
      have hplays' : Member.plays { c with team } = true := hplays
      rw [hrest, if_pos rfl]
      simp only [hplays, hplays', hteam, hne, ne_eq, not_false_eq_true, decide_true, Bool.true_and,
        decide_eq_true_eq, eq_comm (a := name)]
      omega
    · have hdc : d.cn ≠ c.cn := fun heq => hd (heq ▸ List.mem_map_of_mem hc)
      have := ih hnd hc
      rw [if_neg hdc]
      omega

/-- At the start the list is that of `calcteams`. -/
theorem good_start (r : Roster) : Good r r.start
    ((calcteams r.clients).map fun t => (t.name r.clients, t.score)) := by
  have h := calcteams_spec r.nodup
  refine ⟨⟨?_, ?_, ?_, ?_, ?_, ?_, ?_, fun _ h => h⟩, ?_, fun _ => ?_⟩
  · exact List.pairwise_map.mpr h.sorted
  · rw [List.map_map]
    exact h.nodup
  · intro x hx
    obtain ⟨t, ht, rfl⟩ := List.mem_map.mp hx
    exact h.score t ht
  · intro x hx
    obtain ⟨t, ht, rfl⟩ := List.mem_map.mp hx
    exact List.mem_map_of_mem ht
  · intro name hname hnot
    rw [List.map_map] at hnot
    exact absurd hname hnot
  · intro c hc hkind hcn
    exact absurd ((r.mem_bots c hc).mpr hkind) hcn
  · exact h.all
  · rw [List.map_map]
    rfl
  · rfl

/-- **A team without bots** that may be moved is dropped. -/
theorem Fair.drop {first : String × Nat} {rest : List (String × Nat)}
    (h : Fair r b (first :: rest)) (htraced : Traced r b) (hrest : rest ≠ [])
    (hbots : ∀ cn ∈ b.reassign, teamof b.clients cn ≠ first.1) (teams : List Teamscore) :
    Fair r { b with teams } rest := by
  obtain ⟨hfirst, hsorted⟩ := List.pairwise_cons.mp h.sorted
  obtain ⟨hnot, hnodup⟩ := List.nodup_cons.mp h.nodup
  refine ⟨hsorted, hnodup, fun x hx => h.score x (List.mem_cons_of_mem _ hx),
    fun x hx => h.listed x (List.mem_cons_of_mem _ hx), fun name hname hnew => ?_,
    fun c hc hkind hcn => ?_, h.within, h.kept⟩
  · by_cases hname' : name = first.1
    · subst hname'
      refine ⟨fun x hx => ?_, fun c hc hkind heq => ?_⟩
      · rw [← h.score first List.mem_cons_self]
        exact hfirst x hx
      · by_cases hcn : c.cn ∈ b.reassign
        · exact hbots c.cn hcn (by rw [teamof_eq htraced.nodup_cns hc, heq])
        · -- he has been moved to the last team, which is not the first one
          obtain ⟨x, hx, hteam⟩ := h.moved c hc hkind hcn
          rw [List.getLast?_cons_of_ne_nil hrest] at hx
          refine hnot ?_
          rw [← heq, hteam]
          exact List.mem_map_of_mem (List.mem_of_getLast? hx)
    · have hnot' : name ∉ (first :: rest).map Prod.fst := by
        rw [List.map_cons, List.mem_cons]
        rintro (heq | hmem)
        · exact hname' heq
        · exact hnew hmem
      obtain ⟨hle, hbot⟩ := h.gone name hname hnot'
      exact ⟨fun x hx => hle x (List.mem_cons_of_mem _ hx), hbot⟩
  · obtain ⟨x, hx, hteam⟩ := h.moved c hc hkind hcn
    rw [List.getLast?_cons_of_ne_nil hrest] at hx
    exact ⟨x, hx, hteam⟩

/-- **A bot is moved** from the first team to the last one. -/
theorem Fair.move {first last : String × Nat} {mid : List (String × Nat)}
    (h : Fair r b (first :: (mid ++ [last]))) (htraced : Traced r b)
    (hgoes : last.2 + 1 < first.2) (hmid : ∀ x ∈ mid, last.2 < x.2 ∧ x.2 < first.2) {i : Nat}
    (hi : i < b.reassign.length) (hteam : teamof b.clients (b.reassign.getD i 0) = first.1)
    (teams : List Teamscore) :
    Fair r (b.assign i teams last.1)
      ((first.1, first.2 - 1) :: (mid ++ [(last.1, last.2 + 1)])) := by
  obtain ⟨hfirst, hsorted⟩ := List.pairwise_cons.mp h.sorted
  obtain ⟨hmidsorted, -, hlast⟩ := List.pairwise_append.mp hsorted
  have hnames := h.nodup
  rw [List.map_cons, List.map_append, List.map_singleton, List.nodup_cons, List.mem_append,
    List.mem_singleton, List.nodup_append] at hnames
  obtain ⟨hnotfirst, -, -, hnotlast⟩ := hnames
  have hne : first.1 ≠ last.1 := fun heq => hnotfirst (.inr heq)
  have hempty : first.1 ≠ "" :=
    ne_empty_of_mem_teamnames r.nodup (h.listed _ List.mem_cons_self)
  have hlastin : last ∈ first :: (mid ++ [last]) := by simp
  have hempty' : last.1 ≠ "" := ne_empty_of_mem_teamnames r.nodup (h.listed _ hlastin)
  -- the bot
  have hperm := removeunordered_perm hi
  have hbot : b.reassign.getD i 0 ∈ b.reassign := hperm.mem_iff.mpr List.mem_cons_self
  obtain ⟨c, hc, hcn⟩ := exists_of_teamof (hteam ▸ hempty)
  rw [← hcn] at hteam hbot
  rw [teamof_eq htraced.nodup_cns hc] at hteam
  have hkind := htraced.kind hc (htraced.bots _ hbot)
  have hplays : c.plays = true := by simp [Member.plays, hkind]
  have hsize (name : String) : size (b.assign i teams last.1).clients name +
      (if name = first.1 then 1 else 0) =
      size b.clients name + if name = last.1 then 1 else 0 := by
    have := size_setteam htraced.nodup_cns hc hplays (hteam ▸ hempty) hempty' name
    rwa [hteam, hcn] at this
  have hscore1 := h.score first List.mem_cons_self
  have hscore2 := h.score last hlastin
  have hmem : ∀ x ∈ (first.1, first.2 - 1) :: (mid ++ [(last.1, last.2 + 1)]),
      x = (first.1, first.2 - 1) ∨ x ∈ mid ∨ x = (last.1, last.2 + 1) := by
    intro x hx
    simpa using hx
  have hkept : (first.1, first.2 - 1).1 :: (mid ++ [(last.1, last.2 + 1)]).map Prod.fst =
      (first :: (mid ++ [last])).map Prod.fst := by simp
  refine ⟨?_, ?_, fun x hx => ?_, fun x hx => ?_, fun name hname hnew => ?_,
    fun d hd hdkind hdcn => ?_, fun name hpos => ?_, fun name hpos => ?_⟩
  · refine List.pairwise_cons.mpr ⟨fun x hx => ?_, List.pairwise_append.mpr
      ⟨hmidsorted, List.pairwise_singleton _ _, fun x hx y hy => ?_⟩⟩
    · obtain hx | hx := List.mem_append.mp hx
      · have := (hmid x hx).2
        simp only
        omega
      · rw [List.mem_singleton.mp hx]
        simp only
        omega
    · rw [List.mem_singleton.mp hy]
      exact (hmid x hx).1
  · rw [List.map_cons, hkept]
    exact h.nodup
  · have hs := hsize x.1
    obtain rfl | hx | rfl := hmem x hx
    · rw [if_pos rfl, if_neg hne] at hs
      simp only at hs ⊢
      omega
    · have hx1 : x.1 ≠ first.1 := fun heq => hnotfirst (.inl (heq ▸ List.mem_map_of_mem hx))
      have hx2 : x.1 ≠ last.1 := hnotlast _ (List.mem_map_of_mem hx) _ List.mem_cons_self
      rw [if_neg hx1, if_neg hx2] at hs
      have := h.score x (by simp [hx])
      omega
    · rw [if_neg hne.symm, if_pos rfl] at hs
      simp only at hs ⊢
      omega
  · obtain rfl | hx | rfl := hmem x hx
    · exact h.listed first List.mem_cons_self
    · exact h.listed x (by simp [hx])
    · exact h.listed last hlastin
  · rw [List.map_cons, hkept] at hnew
    obtain ⟨hle, hno⟩ := h.gone name hname hnew
    have hname1 : name ≠ first.1 := fun heq => hnew (by simp [heq])
    have hname2 : name ≠ last.1 := fun heq => hnew (by simp [heq])
    have hs := hsize name
    rw [if_neg hname1, if_neg hname2] at hs
    refine ⟨fun x hx => ?_, fun d hd hdkind hteam' => ?_⟩
    · have hlefirst := hle first List.mem_cons_self
      obtain rfl | hx | rfl := hmem x hx
      · simp only
        omega
      · have := hle x (by simp [hx])
        omega
      · simp only
        omega
    · obtain ⟨d, hd', rfl⟩ := mem_setteam.mp hd
      split at hteam'
      · exact hname2 hteam'.symm
      · next hdcn =>
        rw [if_neg hdcn] at hdkind
        exact hno d hd' hdkind hteam'
  · refine ⟨(last.1, last.2 + 1), by rw [← List.cons_append, List.getLast?_concat], ?_⟩
    obtain ⟨d, hd', rfl⟩ := mem_setteam.mp hd
    by_cases hdbot : d.cn = b.reassign.getD i 0
    · rw [if_pos hdbot]
    · rw [if_neg hdbot] at hdkind hdcn ⊢
      have hold : d.cn ∉ b.reassign := fun hin => by
        obtain heq | hin := List.mem_cons.mp (hperm.mem_iff.mp hin)
        · exact hdbot heq
        · exact hdcn hin
      obtain ⟨x, hx, hxteam⟩ := h.moved d hd' hdkind hold
      rw [← List.cons_append, List.getLast?_concat] at hx
      cases hx
      exact hxteam
  · have hs := hsize name
    by_cases hname2 : name = last.1
    · rw [hname2]
      exact h.listed last hlastin
    · rw [if_neg hname2] at hs
      exact h.within name (by omega)
  · have hs := hsize name
    have hold := h.kept name hpos
    by_cases hname1 : name = first.1
    · subst hname1
      rw [if_pos rfl, if_neg hne] at hs
      omega
    · rw [if_neg hname1] at hs
      omega

/-- **The end of the loop.** -/
theorem Fair.balanced {board : List (String × Nat)} (h : Fair r b board) (htraced : Traced r b)
    (hend : b.reassign = [] ∨ board = [] ∨ ∀ x ∈ board, ∀ y ∈ board, x.2 ≤ y.2 + 1) :
    Balanced b.clients := by
  have hteams := calcteams_spec htraced.nodup_cns
  have hnames := teamnames_mono r.nodup htraced.nodup_cns h.kept h.within
  refine .inr fun x hx y hy hxy c hc hkind hcx => ?_
  have hxname := hnames _ (List.mem_map_of_mem hx)
  have hyname := hnames _ (List.mem_map_of_mem hy)
  rw [hteams.score x hx, hteams.score y hy] at hxy
  have hxin : x.name b.clients ∈ board.map Prod.fst := by
    by_contra hno
    exact (h.gone _ hxname hno).2 c hc hkind hcx
  obtain ⟨u, hu, hux⟩ := List.mem_map.mp hxin
  have husize := h.score u hu
  rw [hux] at husize
  have hsmall : u.2 ≤ size b.clients (y.name b.clients) + 1 := by
    by_cases hyin : y.name b.clients ∈ board.map Prod.fst
    · obtain ⟨w, hw, hwy⟩ := List.mem_map.mp hyin
      have hwsize := h.score w hw
      rw [hwy] at hwsize
      rw [← hwsize]
      obtain hempty | hnil | hend := hend
      · -- all bots have been moved, and the team they are in is the last one
        obtain ⟨last, hlast, hteam⟩ := h.moved c hc hkind (by simp [hempty])
        have hlastin := List.mem_of_getLast? hlast
        have heq : u = last :=
          List.inj_on_of_nodup_map h.nodup hu hlastin (by rw [hux, ← hcx, hteam])
        obtain ⟨init, rfl⟩ := List.getLast?_eq_some_iff.mp hlast
        obtain hw | hw := List.mem_append.mp hw
        · have := (List.pairwise_append.mp h.sorted).2.2 w hw last List.mem_cons_self
          rw [heq]
          omega
        · rw [heq, List.mem_singleton.mp hw]
          omega
      · rw [hnil] at hu
        cases hu
      · exact hend u hu w hw
    · have := (h.gone _ hyname hyin).1 u hu
      omega
  omega

/-- A name is the same after a bot has been moved whose buffer it is not in. -/
theorem read_setteam {cs : List Member} {bot : Nat} {team : String} {n : Teamname}
    (h : n ≠ .client bot) : n.read (setteam cs bot team) = n.read cs := by
  cases n with
  | literal name => rfl
  | client cn =>
    have hcn : cn ≠ bot := fun heq => h (heq ▸ rfl)
    have hfind : (setteam cs bot team).find? (fun c => c.cn = cn) =
        cs.find? fun c => c.cn = cn := by
      induction cs with
      | nil => rfl
      | cons c cs ih =>
        unfold setteam at ih ⊢
        by_cases hc : c.cn = bot
        · have hne : ¬ c.cn = cn := fun heq => hcn (heq.symm.trans hc)
          simp only [List.map_cons, hc, if_true, List.find?_cons]
          simp only [show ¬ bot = cn from fun heq => hcn heq.symm, decide_false, ih]
        · simp only [List.map_cons, hc, if_false, List.find?_cons, ih]
    simp only [Teamname.read, teamof, hfind]

/-- **One round** keeps the list if it is careful. -/
theorem Good.step {board : List (String × Nat)} (h : Good r b board) (htraced : Traced r b)
    (hcareful : b.careful = true) (hstep : b.step = .inl b') : ∃ board', Good r b' board' := by
  have hgoes : b.goes = true := by
    by_contra hno
    simp [Balance.step, hno] at hstep
  have hboard := h.names hgoes
  cases hteams : b.teams with
  | nil => exact absurd hteams (goes_ne_nil hgoes)
  | cons first rest =>
    have hlt := hgoes
    simp only [goes, hteams, Bool.and_eq_true, decide_eq_true_eq] at hlt
    obtain ⟨-, hlt⟩ := hlt
    obtain rfl | ⟨mid, last, hrest⟩ := rest.eq_nil_or_concat
    · simp at hlt
    · rw [List.concat_eq_append] at hrest
      subst hrest
      rw [List.getLastD_concat] at hlt
      rw [hteams] at hboard
      obtain ⟨-, heq⟩ | ⟨-, hfind, heq⟩ | ⟨i, -, hfind, heq⟩ := b.step_cases
      · rw [heq] at hstep
        cases hstep
      · -- nobody of the first team is left
        rw [heq] at hstep
        cases hstep
        have hbots : ∀ cn ∈ b.reassign, teamof b.clients cn ≠ first.name b.clients := by
          simp only [findbot, hteams, List.findIdx?_eq_none_iff, decide_eq_false_iff_not] at hfind
          exact hfind
        have hfair := h.toFair
        rw [hboard, List.map_cons] at hfair
        have hdrop := hfair.drop htraced (by simp) hbots b.teams.tail
        refine ⟨_, ⟨hdrop, ?_, fun _ => ?_⟩⟩
        · simp [hteams]
        · simp [hteams]
      · rw [heq] at hstep
        cases hstep
        have hi := findbot_lt hfind
        have hteam : teamof b.clients (b.reassign.getD i 0) = first.name b.clients := by
          simp only [findbot, hteams] at hfind
          obtain ⟨_, hbot, -⟩ := List.findIdx?_eq_some_iff_getElem.mp hfind
          rw [List.getD_eq_getElem _ _ hi]
          simpa using hbot
        simp only [careful, hgoes, hfind, hteams, List.dropLast_concat, List.getLastD_concat,
          Bool.and_eq_true, List.all_eq_true, decide_eq_true_eq, Bool.or_eq_true,
          Bool.not_eq_true'] at hcareful
        obtain ⟨hmid, howner⟩ := hcareful
        have hshift := shift_eq (fun t ht => (hmid t ht).1) hlt
        have hmove : b.move i = b.assign i ({ first with score := first.score - 1 } ::
            (mid ++ [last.increase])) (last.name b.clients) := by
          simp only [Balance.move, hteams, hshift]
          rw [← List.cons_append, List.getLastD_concat]
          rfl
        have hfair := h.toFair
        rw [hboard, List.map_cons, List.map_append, List.map_singleton] at hfair
        have hmove' := hfair.move htraced hlt (by simpa using hmid) hi hteam
          ({ first with score := first.score - 1 } :: (mid ++ [last.increase]))
        rw [hmove] at howner ⊢
        refine ⟨_, ⟨hmove', ?_, fun hgo => ?_⟩⟩
        · simp [assign, Teamscore.increase]
        · -- the loop goes on, so no name has changed
          have hfirst : first.team ≠ .client (b.reassign.getD i 0) := by
            obtain hfirst | hstop := howner
            · exact hfirst
            · rw [hstop] at hgo
              cases hgo
          have hnodup := hfair.nodup
          rw [List.map_cons, List.nodup_cons] at hnodup
          have hread : ∀ t ∈ first :: (mid ++ [last]),
              t.team.read (setteam b.clients (b.reassign.getD i 0) (last.name b.clients)) =
                t.name b.clients := by
            intro t ht
            refine read_setteam fun howner' => ?_
            obtain rfl | ht := List.mem_cons.mp ht
            · exact hfirst howner'
            · refine hnodup.1 ?_
              have hname : t.name b.clients = first.name b.clients := by
                rw [Teamscore.name, howner']
                exact hteam
              rw [← hname]
              have := List.mem_map_of_mem (f := fun t : Teamscore => t.name b.clients) ht
              simpa using this
          have hmidnames : mid.map (fun t => (t.name b.clients, t.score)) = mid.map fun t =>
              (t.team.read (setteam b.clients (b.reassign.getD i 0) (last.name b.clients)),
                t.score) :=
            List.map_congr_left fun t ht => by rw [hread t (by simp [ht])]
          have hfirstname := hread first List.mem_cons_self
          have hlastname := hread last (by simp)
          simp only [assign, List.map_cons, List.map_append, List.map_nil, Teamscore.name,
            Teamscore.increase] at hmidnames hfirstname hlastname ⊢
          rw [hmidnames, hfirstname, hlastname]

theorem score_bounds {first : Teamscore} {rest : List Teamscore}
    (h : (first :: rest).Pairwise fun s t => t.score ≤ s.score) :
    ∀ t ∈ first :: rest, t.score ≤ first.score ∧ (rest.getLastD first).score ≤ t.score := by
  intro t ht
  obtain ⟨hfirst, hrest⟩ := List.pairwise_cons.mp h
  have hle : t.score ≤ first.score := by
    obtain rfl | ht := List.mem_cons.mp ht
    · exact le_refl _
    · exact hfirst t ht
  refine ⟨hle, ?_⟩
  obtain rfl | ⟨init, last, heq⟩ := rest.eq_nil_or_concat
  · rw [List.mem_singleton.mp ht]
    exact le_refl _
  · rw [List.concat_eq_append] at heq
    subst heq
    rw [List.getLastD_concat]
    rw [← List.cons_append] at h ht
    obtain ht | ht := List.mem_append.mp ht
    · exact (List.pairwise_append.mp h).2.2 t ht last List.mem_cons_self
    · rw [List.mem_singleton.mp ht]

/-- At the end of the loop. -/
theorem Good.balanced {board : List (String × Nat)} (h : Good r b board) (htraced : Traced r b)
    (hend : b.goes = false) : Balanced b.clients := by
  refine h.toFair.balanced htraced ?_
  have hscores := h.scores
  cases hteams : b.teams with
  | nil =>
    rw [hteams, List.map_nil, eq_comm, List.map_eq_nil_iff] at hscores
    exact .inr (.inl hscores)
  | cons first rest =>
    by_cases hnone : b.reassign = []
    · exact .inl hnone
    · simp only [goes, hteams, hnone, ne_eq, not_false_eq_true, decide_true, Bool.true_and,
        decide_eq_false_iff_not, not_lt] at hend
      refine .inr (.inr fun x hx y hy => ?_)
      rw [hteams] at hscores
      have hsorted : (first :: rest).Pairwise fun s t => t.score ≤ s.score := by
        have hsnd : (board.map Prod.snd).Pairwise fun m n => n ≤ m := List.pairwise_map.mpr h.sorted
        rw [← hscores] at hsnd
        exact List.pairwise_map.mp hsnd
      have hbounds := score_bounds hsorted
      obtain ⟨s, hs, hsx⟩ : ∃ s ∈ first :: rest, s.score = x.2 :=
        List.mem_map.mp (hscores ▸ List.mem_map_of_mem hx)
      obtain ⟨t, ht, hty⟩ : ∃ t ∈ first :: rest, t.score = y.2 :=
        List.mem_map.mp (hscores ▸ List.mem_map_of_mem hy)
      have hs' := (hbounds s hs).1
      have ht' := (hbounds t ht).2
      omega

end Balance

/-- Each round of the loop is careful. -/
def Roster.Calm (r : Roster) : Prop := ∀ b, Balance.Later r.start b → b.careful = true

/-- What holds at the head of each round. -/
structure Balance.Head (r : Roster) (b : Balance) : Prop where
  traced : Balance.Traced r b
  later : Balance.Later r.start b
  good : r.Calm → ∃ board, Balance.Good r b board

/-- What holds at the end. -/
structure Balance.Done (r : Roster) (b : Balance) : Prop where
  traced : Balance.Traced r b
  balanced : r.Calm → Balance.Balanced b.clients

theorem Balance.step_head {r : Roster} {b : Balance} (h : Balance.Head r b) :
    Loop.Round (Balance.Head r) Balance.measure (Balance.Done r) b b.step := by
  cases hstep : b.step with
  | inl b' =>
    refine ⟨⟨Balance.step_traced h.traced hstep, h.later.tail hstep, fun hcalm => ?_⟩,
      Balance.step_measure hstep⟩
    obtain ⟨board, hboard⟩ := h.good hcalm
    exact hboard.step h.traced (hcalm b h.later) hstep
  | inr b' =>
    obtain ⟨hgoes, heq⟩ | ⟨-, -, heq⟩ | ⟨i, -, -, heq⟩ := b.step_cases
    · rw [heq] at hstep
      cases hstep
      refine ⟨h.traced, fun hcalm => ?_⟩
      obtain ⟨board, hboard⟩ := h.good hcalm
      exact hboard.balanced h.traced hgoes
    · rw [heq] at hstep
      cases hstep
    · rw [heq] at hstep
      cases hstep

/-- **Balancing**: the loop ends, the clients are the same but for bots that are moved, and each of
them is in the team that is announced for him.  If each round is careful, the teams are balanced
at the end. -/
theorem balanceteams_spec (r : Roster) : ∃ b, r.balanceteams = some b ∧
    List.Forall₂ (fun c c' : Member => c'.cn = c.cn ∧ c'.kind = c.kind ∧
      (c'.team = c.team ∨ c.kind = .bot ∧ (c.cn, c'.team) ∈ b.moved)) r.clients b.clients ∧
    (∀ m ∈ b.moved, ∀ c ∈ b.clients, c.cn = m.1 → c.team = m.2) ∧
    (r.Calm → Balance.Balanced b.clients) := by
  have hstart : Balance.Head r r.start :=
    ⟨Balance.traced_start r, .refl, fun _ => ⟨_, Balance.good_start r⟩⟩
  obtain ⟨b, hb, hdone⟩ : Loop.Yields r.balanceteams (Balance.Done r) :=
    Loop.loop_spec (Balance.Head r) Balance.measure _
      (fun b hb => ⟨_, rfl, Balance.step_head hb⟩) _ _ hstart (Nat.lt_succ_self _)
  exact ⟨b, hb, hdone.traced.same, hdone.traced.said, hdone.balanced⟩

namespace Balance

instance (cs : List Member) : Decidable (Balanced cs) := inferInstanceAs (Decidable (_ ∨ _))

/-- All the rounds, no more than so many, are careful. -/
def calm : Nat → Balance → Bool
  | 0, _ => false
  | n + 1, b => b.careful &&
    match b.step with
    | .inl b' => calm n b'
    | .inr _ => true

theorem careful_of_calm {n : Nat} {b s : Balance} (h : calm n b = true) (hs : Later b s) :
    s.careful = true := by
  induction n generalizing b with
  | zero => cases h
  | succ n ih =>
    simp only [calm, Bool.and_eq_true] at h
    obtain rfl | ⟨b', hstep, hrest⟩ := hs.cases_head
    · exact h.1
    · have hcalm := h.2
      rw [hstep] at hcalm
      exact ih hcalm hrest

end Balance

/-- A player with three bots in one team, a player in the other, and a spectator. -/
def threebots : Roster where
  clients := [⟨0, .human false, "good"⟩, ⟨1, .human false, "evil"⟩, ⟨2, .human true, "good"⟩,
    ⟨128, .bot, "good"⟩, ⟨129, .bot, "good"⟩, ⟨130, .bot, "good"⟩]
  bots := [128, 129, 130]
  nodup := by decide
  nodup_bots := by decide
  mem_bots := by decide

theorem threebots_balanced : ∃ b, threebots.balanceteams = some b ∧
    List.Forall₂ (fun c c' : Member => c'.cn = c.cn ∧ c'.kind = c.kind ∧
      (c'.team = c.team ∨ c.kind = .bot ∧ (c.cn, c'.team) ∈ b.moved))
      threebots.clients b.clients ∧
    (∀ m ∈ b.moved, ∀ c ∈ b.clients, c.cn = m.1 → c.team = m.2) ∧
    Balance.Balanced b.clients := by
  obtain ⟨b, hb, hsame, hsaid, hbalanced⟩ := balanceteams_spec threebots
  have hcalm : Balance.calm 5 threebots.start = true := by decide +kernel
  exact ⟨b, hb, hsame, hsaid, hbalanced fun s => Balance.careful_of_calm hcalm⟩

/-- Four bots in one team and nobody in the other. -/
def fourbots : Roster where
  clients := [⟨128, .bot, "good"⟩, ⟨129, .bot, "good"⟩, ⟨130, .bot, "good"⟩, ⟨131, .bot, "good"⟩]
  bots := [128, 129, 130, 131]
  nodup := by decide
  nodup_bots := by decide
  mem_bots := by decide

/-- Four bots in one of three teams, one player in each of the others. -/
def threeteams : Roster where
  clients := [⟨0, .human false, "a"⟩, ⟨1, .human false, "b"⟩, ⟨2, .human false, "c"⟩,
    ⟨128, .bot, "a"⟩, ⟨129, .bot, "a"⟩, ⟨130, .bot, "a"⟩]
  bots := [128, 129, 130]
  nodup := by decide
  nodup_bots := by decide
  mem_bots := by decide

/-- The loop ends with three bots against one, and with two, three and one in the teams. -/
theorem not_balanced : (∃ b, fourbots.balanceteams = some b ∧ ¬ Balance.Balanced b.clients) ∧
    ∃ b, threeteams.balanceteams = some b ∧ ¬ Balance.Balanced b.clients := by
  have hfour : (fourbots.balanceteams.map fun b => decide (Balance.Balanced b.clients)) =
      some false := by
    decide +kernel
  have hthree : (threeteams.balanceteams.map fun b => decide (Balance.Balanced b.clients)) =
      some false := by
    decide +kernel
  obtain ⟨b, hb, hnot⟩ := Option.map_eq_some_iff.mp hfour
  obtain ⟨b', hb', hnot'⟩ := Option.map_eq_some_iff.mp hthree
  exact ⟨⟨b, hb, of_decide_eq_false hnot⟩, b', hb', of_decide_eq_false hnot'⟩

end QServ
