import Mathlib.Algebra.Order.Field.Rat
import Mathlib.Data.List.Induction
import Mathlib.Data.List.Sort
import Mathlib.Tactic.Linarith
import QServ.Lib.Loop
import QServ.Server.State

/-!
# Dealing the clients to the teams

`autoteam` deals the clients to the two teams in turn, the best first: a team goes on while its
rank is not above that of the other, and a round in which nobody is selected is the last.  The
ranks are exact here.

* `choosebestclient_some`: the best of those who have not been selected.
* `Draft.step`: the loops of `autoteam`; `Draft.step_sound`: what one turn of them keeps.
* `lead`: how far the team that selects last is ahead when those of positive rank are dealt.
* `autoteam_spec`: nobody is selected twice, and who is left out.
-/

namespace QServ

/-- What `autoteam` reads of a client. -/
structure Contender where
  timeplayed : Int
  state : CState
  effectiveness : ℚ
deriving DecidableEq

/-- The rank of a client. -/
def Contender.rank (c : Contender) : ℚ :=
  if c.state ≠ .spectator then c.effectiveness / max c.timeplayed 1 else -1

/-- He has been selected. -/
def Contender.mark (c : Contender) : Contender := { c with timeplayed := -1 }

/-- The better of the best so far and client `i`. -/
def betterclient (best : Option (Nat × ℚ)) (i : Nat) (rank : ℚ) : Option (Nat × ℚ) :=
  match best with
  | none => some (i, rank)
  | some b => if b.2 < rank then some (i, rank) else some b

/-- The loop of `choosebestclient` from client `i` on. -/
def bestclient : Nat → Option (Nat × ℚ) → List Contender → Option (Nat × ℚ)
  | _, best, [] => best
  | i, best, c :: cs =>
    bestclient (i + 1) (if c.timeplayed < 0 then best else betterclient best i c.rank) cs

/-- `choosebestclient(bestrank)`: the number of the client and his rank. -/
def choosebestclient (cs : List Contender) : Option (Nat × ℚ) := bestclient 0 none cs

/-- The loops of `autoteam`: `teamrank`, the team whose turn it is, how many it has selected in
this round, `remaining`, and who has been selected for which team. -/
structure Draft where
  clients : List Contender
  teamrank : Bool → ℚ := fun _ => 0
  first : Bool := false
  selected : Nat := 0
  remaining : Int
  picks : List (Bool × Nat) := []

namespace Draft

variable (hidefrags : Bool) (d : Draft)

/-- The client is selected. -/
def select (i : Nat) (rank : ℚ) : Draft :=
  { d with
    clients := d.clients.modify i Contender.mark
    picks := d.picks ++ [(d.first, i)]
    teamrank :=
      if 0 < rank then Function.update d.teamrank d.first (d.teamrank d.first + rank)
      else d.teamrank
    selected := d.selected + 1 }

/-- The end of a round, on the left with the next one. -/
def endround : Draft ⊕ Draft :=
  if d.selected = 0 then .inr d
  else
    let remaining := d.remaining - d.selected
    let d := { d with remaining, selected := 0, first := !d.first }
    if 0 ≤ remaining then .inl d else .inr d

/-- One turn of the `while` loop, and the end of its round where that ends. -/
def step : Draft ⊕ Draft :=
  if d.teamrank d.first ≤ d.teamrank (!d.first) then
    match choosebestclient d.clients with
    | none => d.endround
    | some (i, rank) =>
      let rank := if hidefrags then 1 else rank
      if !hidefrags ∧ d.selected ≠ 0 ∧ rank ≤ 0 then d.endround
      else
        let d := d.select i rank
        if rank ≤ 0 then d.endround else .inl d
  else d.endround

/-- Those who have been selected, the first first. -/
def picked : List Nat := d.picks.map Prod.snd

end Draft

/-- The rounds of `autoteam()`. -/
def autoteam (hidefrags : Bool) (cs : List Contender) : Option Draft :=
  Loop.loop (fun d : Draft => some (d.step hidefrags)) (2 * cs.length + 1)
    { clients := cs, remaining := cs.length }

/-! ## The best client -/

/-- The best of the first `n` clients who have not been selected. -/
def BestOf (cs : List Contender) (n : Nat) (best : Option (Nat × ℚ)) : Prop :=
  (best = none → ∀ j < n, ∀ c, cs[j]? = some c → c.timeplayed < 0) ∧
  ∀ i rank, best = some (i, rank) →
    (∃ c, cs[i]? = some c ∧ 0 ≤ c.timeplayed ∧ rank = c.rank) ∧
    ∀ j < n, ∀ c, cs[j]? = some c → 0 ≤ c.timeplayed → c.rank ≤ rank

theorem bestOf_zero (cs : List Contender) : BestOf cs 0 none :=
  ⟨fun _ j hj => absurd hj (Nat.not_lt_zero j), fun _ _ h => by cases h⟩

theorem bestOf_succ {cs : List Contender} {n : Nat} {best : Option (Nat × ℚ)} {c : Contender}
    (hc : cs[n]? = some c) (h : BestOf cs n best) :
    BestOf cs (n + 1) (if c.timeplayed < 0 then best else betterclient best n c.rank) := by
  obtain ⟨hnone, hsome⟩ := h
  split
  · next hneg =>
    refine ⟨fun hb j hj c' hc' => ?_, fun i rank hb => ⟨(hsome i rank hb).1, ?_⟩⟩
    · obtain hj | rfl := Nat.lt_succ_iff_lt_or_eq.mp hj
      · exact hnone hb j hj c' hc'
      · rw [hc] at hc'
        cases hc'
        exact hneg
    · intro j hj c' hc' hpos
      obtain hj | rfl := Nat.lt_succ_iff_lt_or_eq.mp hj
      · exact (hsome i rank hb).2 j hj c' hc' hpos
      · rw [hc] at hc'
        cases hc'
        omega
  · next hpos =>
    -- whichever of the two is taken, its rank is that of a client and not below either
    have hnew : ∀ i rank, (∃ c, cs[i]? = some c ∧ 0 ≤ c.timeplayed ∧ rank = c.rank) →
        c.rank ≤ rank → (∀ j < n, ∀ c, cs[j]? = some c → 0 ≤ c.timeplayed → c.rank ≤ rank) →
        BestOf cs (n + 1) (some (i, rank)) := by
      intro i rank hfrom hle hbelow
      refine ⟨nofun, fun i' rank' h => ?_⟩
      cases h
      refine ⟨hfrom, fun j hj c' hc' hpos' => ?_⟩
      obtain hj | rfl := Nat.lt_succ_iff_lt_or_eq.mp hj
      · exact hbelow j hj c' hc' hpos'
      · rw [hc] at hc'
        cases hc'
        exact hle
    have hhere : ∃ c', cs[n]? = some c' ∧ 0 ≤ c'.timeplayed ∧ c.rank = c'.rank :=
      ⟨c, hc, not_lt.mp hpos, rfl⟩
    cases best with
    | none =>
      refine hnew n c.rank hhere (le_refl _) fun j hj c' hc' hpos' => ?_
      exact absurd (hnone rfl j hj c' hc') (not_lt.mpr hpos')
    | some b =>
      obtain ⟨i, rank⟩ := b
      unfold betterclient
      dsimp only
      split
      · next hlt =>
        refine hnew n c.rank hhere (le_refl _) fun j hj c' hc' hpos' => ?_
        exact le_trans ((hsome i rank rfl).2 j hj c' hc' hpos') (le_of_lt hlt)
      · next hle =>
        exact hnew i rank (hsome i rank rfl).1 (not_lt.mp hle) (hsome i rank rfl).2

theorem bestclient_bestOf (pre cs : List Contender) (best : Option (Nat × ℚ))
    (h : BestOf (pre ++ cs) pre.length best) :
    BestOf (pre ++ cs) (pre ++ cs).length (bestclient pre.length best cs) := by
  induction cs generalizing pre best with
  | nil => simpa [bestclient] using h
  | cons c cs ih =>
    have hc : (pre ++ c :: cs)[pre.length]? = some c := by simp
    have := ih (pre ++ [c]) _ (by simpa using bestOf_succ hc h)
    simpa [bestclient] using this

theorem choosebestclient_bestOf (cs : List Contender) : BestOf cs cs.length (choosebestclient cs) :=
  bestclient_bestOf [] cs none (bestOf_zero cs)

/-- **The best client**: nobody who has not been selected has a higher rank. -/
theorem choosebestclient_some {cs : List Contender} {i : Nat} {rank : ℚ}
    (h : choosebestclient cs = some (i, rank)) :
    ∃ c, cs[i]? = some c ∧ 0 ≤ c.timeplayed ∧ rank = c.rank ∧
      ∀ c' ∈ cs, 0 ≤ c'.timeplayed → c'.rank ≤ rank := by
  obtain ⟨⟨c, hc, hpos, hrank⟩, hmax⟩ := (choosebestclient_bestOf cs).2 i rank h
  refine ⟨c, hc, hpos, hrank, fun c' hmem hpos' => ?_⟩
  obtain ⟨j, hj, hc'⟩ := List.getElem_of_mem hmem
  exact hmax j hj c' (by rw [List.getElem?_eq_getElem hj, hc']) hpos'

theorem choosebestclient_none {cs : List Contender} (h : choosebestclient cs = none) :
    ∀ c ∈ cs, c.timeplayed < 0 := by
  intro c hmem
  obtain ⟨j, hj, hc⟩ := List.getElem_of_mem hmem
  exact (choosebestclient_bestOf cs).1 h j hj c (by rw [List.getElem?_eq_getElem hj, hc])

/-! ## Those who wait -/

/-- The rank a client is dealt with. -/
def Contender.dealt (hidefrags : Bool) (c : Contender) : ℚ := if hidefrags then 1 else c.rank

/-- The ranks of those who have not been selected. -/
def waiting (hidefrags : Bool) (cs : List Contender) : List ℚ :=
  (cs.filter fun c => 0 ≤ c.timeplayed).map (Contender.dealt hidefrags)

/-- The positive ones, the highest first. -/
def positives (ranks : List ℚ) : List ℚ := (ranks.filter fun r => 0 < r).insertionSort (· ≥ ·)

/-- How many of them are not positive. -/
def unranked (ranks : List ℚ) : Nat := ranks.countP fun r => r ≤ 0

theorem waiting_modify (hidefrags : Bool) {cs : List Contender} {i : Nat} {c : Contender} (hc : cs[i]? = some c)
    (hpos : 0 ≤ c.timeplayed) :
    (waiting hidefrags cs).Perm
      (c.dealt hidefrags :: waiting hidefrags (cs.modify i Contender.mark)) := by
  induction cs generalizing i with
  | nil => cases hc
  | cons c' cs ih =>
    cases i with
    | zero =>
      cases hc
      simp [waiting, hpos, Contender.mark]
    | succ i =>
      have hrest := ih (i := i) hc
      by_cases hpos' : 0 ≤ c'.timeplayed
      · simp only [waiting, List.modify_succ_cons] at hrest ⊢
        simp only [List.filter_cons, hpos', decide_true, if_true, List.map_cons]
        exact (hrest.cons _).trans (List.Perm.swap _ _ _)
      · simpa [waiting, hpos'] using hrest

theorem waiting_eq_nil (hidefrags : Bool) {cs : List Contender} (h : ∀ c ∈ cs, c.timeplayed < 0) :
    waiting hidefrags cs = [] := by
  unfold waiting
  rw [List.filter_eq_nil_iff.mpr, List.map_nil]
  intro c hc
  simpa using h c hc

theorem positives_perm {l l' : List ℚ} (h : l.Perm l') : positives l = positives l' :=
  List.Perm.eq_of_pairwise' (r := (· ≥ ·)) (List.pairwise_insertionSort _ _)
    (List.pairwise_insertionSort _ _) <|
    (List.perm_insertionSort _ _).trans ((h.filter _).trans (List.perm_insertionSort _ _).symm)

/-- The highest positive rank comes first. -/
theorem positives_cons {l l' : List ℚ} {r : ℚ} (h : l.Perm (r :: l')) (hr : 0 < r)
    (hmax : ∀ r' ∈ l, r' ≤ r) : positives l = r :: positives l' := by
  rw [positives_perm h]
  unfold positives
  rw [List.filter_cons, if_pos (by simpa using hr)]
  refine List.insertionSort_cons_of_forall_rel _ fun r' hr' => ?_
  exact hmax r' (h.mem_iff.mpr (List.mem_cons_of_mem _ (List.mem_filter.mp hr').1))

theorem positives_eq_nil {l : List ℚ} : positives l = [] ↔ ∀ r ∈ l, r ≤ 0 := by
  unfold positives
  rw [← List.length_eq_zero_iff, List.length_insertionSort, List.length_eq_zero_iff,
    List.filter_eq_nil_iff]
  simp

theorem others_perm {l l' : List ℚ} {r : ℚ} (h : l.Perm (r :: l')) :
    unranked l = unranked l' + if r ≤ 0 then 1 else 0 := by
  unfold unranked
  rw [h.countP_eq, List.countP_cons]
  simp

theorem unranked_eq_zero {l : List ℚ} (h : positives l = []) : unranked l = 0 ↔ l = [] := by
  have hall := positives_eq_nil.mp h
  unfold unranked
  rw [List.countP_eq_zero]
  constructor
  · intro hno
    cases l with
    | nil => rfl
    | cons r l => exact absurd (hall r List.mem_cons_self) (by simpa using hno r)
  · rintro rfl
    simp

/-! ## Who is left out -/

/-- The lead of the team whose turn it is, when the positive ranks are dealt: the next rank goes to
it while it is not ahead, and to the other team then. -/
def deal (lead : ℚ) (ranks : List ℚ) : ℚ := ranks.foldl (fun lead rank => rank - |lead|) lead

/-- How far the team that selects last is ahead when the positive ranks are dealt. -/
def lead (ranks : List ℚ) : ℚ := deal 0 (positives ranks)

/-- Nobody will be left out: the team whose turn it is, which has selected somebody in this round
or not, is so far ahead, so many others and these positive ranks are left. -/
def Complete (selected : Bool) (gap : ℚ) (n : Nat) : List ℚ → Prop
  | [] => n = 0 ∨ gap = 0 ∨ n = 1 ∧ if selected then 0 < gap else gap < 0
  | rank :: ranks => Complete true (rank - |gap|) n ranks

theorem complete_true {gap : ℚ} {n : Nat} {ranks : List ℚ} : Complete true gap n ranks ↔
    n = 0 ∨ deal gap ranks = 0 ∨ n = 1 ∧ 0 < deal gap ranks := by
  induction ranks generalizing gap with
  | nil => simp [Complete, deal]
  | cons rank ranks ih => exact ih

/-- At the beginning. -/
theorem complete_start {n : Nat} {ranks : List ℚ} : Complete false 0 n ranks ↔
    n = 0 ∨ deal 0 ranks = 0 ∨ n = 1 ∧ 0 < deal 0 ranks := by
  cases ranks with
  | nil => simp [Complete, deal]
  | cons rank ranks => exact complete_true

/-- The turn passes to the other team. -/
theorem complete_switch {gap : ℚ} {n : Nat} {ranks : List ℚ} (h : 0 < gap ∨ ranks = []) :
    Complete false (-gap) n ranks ↔ Complete true gap n ranks := by
  cases ranks with
  | nil => simp [Complete]
  | cons rank ranks => simp [Complete]

/-! ## The rounds -/

/-- Each of them is selected once, and while nobody of higher rank waits. -/
def Greedy (cs : List Contender) (picked : List Nat) : Prop :=
  ∀ l i r, picked = l ++ i :: r → i ∉ l ∧ ∃ c, cs[i]? = some c ∧
    ∀ j c', cs[j]? = some c' → j ∉ l → c'.rank ≤ c.rank

theorem greedy_concat {cs : List Contender} {l : List Nat} {i : Nat} {c : Contender}
    (hl : Greedy cs l) (hi : i ∉ l) (hc : cs[i]? = some c)
    (hmax : ∀ j c', cs[j]? = some c' → j ∉ l → c'.rank ≤ c.rank) : Greedy cs (l ++ [i]) := by
  intro l' j r heq
  obtain rfl | ⟨r, k, rfl⟩ := r.eq_nil_or_concat
  · obtain ⟨rfl, hij⟩ := List.append_inj' heq rfl
    cases hij
    exact ⟨hi, c, hc, hmax⟩
  · rw [List.concat_eq_append, ← List.cons_append, ← List.append_assoc] at heq
    exact hl l' j r (List.append_inj' heq rfl).1

theorem greedy_nodup {cs : List Contender} {l : List Nat} (hl : Greedy cs l) : l.Nodup := by
  induction l using List.reverseRecOn with
  | nil => exact List.nodup_nil
  | append_singleton l i ih =>
    have hi : i ∉ l := (hl l i [] rfl).1
    refine List.nodup_append.mpr ⟨ih fun l' j r heq => ?_, List.nodup_singleton i, ?_⟩
    · exact hl l' j (r ++ [i]) (by rw [heq]; simp)
    · intro j hj k hk heq
      rw [List.mem_singleton.mp hk] at heq
      exact hi (heq ▸ hj)

namespace Draft

variable (hidefrags : Bool) (cs : List Contender) (d : Draft)

/-- How far the team whose turn it is is ahead. -/
def gap : ℚ := d.teamrank d.first - d.teamrank (!d.first)

/-- Nobody will be left out. -/
def Full : Prop :=
  Complete (decide (d.selected ≠ 0)) d.gap (unranked (waiting hidefrags d.clients))
    (positives (waiting hidefrags d.clients))

/-- Who has been selected, and how many have not. -/
structure Base : Prop where
  marked : ∀ j : Nat, d.clients[j]? = cs[j]?.map fun c => if j ∈ d.picked then c.mark else c
  greedy : Greedy cs d.picked
  count : (waiting hidefrags d.clients).length + d.picked.length = cs.length
  remaining : d.remaining = cs.length - d.picked.length + d.selected

/-- At the head of the loop: a team that has the turn anew is not ahead while there are positive
ranks. -/
structure Sound : Prop extends d.Base hidefrags cs where
  ended : d.selected = 0 → d.gap ≤ 0 ∨ positives (waiting hidefrags d.clients) = []
  full : d.Full hidefrags ↔
    Complete false 0 (unranked (waiting hidefrags cs)) (positives (waiting hidefrags cs))

/-- At the end. -/
structure Done : Prop extends d.Base hidefrags cs where
  full : waiting hidefrags d.clients = [] ↔
    Complete false 0 (unranked (waiting hidefrags cs)) (positives (waiting hidefrags cs))

/-- A turn selects somebody or ends a round in which somebody has been selected. -/
def measure : Nat :=
  2 * (waiting hidefrags d.clients).length + if d.selected = 0 then 0 else 1

variable {hidefrags cs d}

/-- **The end of a round.** -/
theorem endround_sound {d' : Draft} (hd : d.Base hidefrags cs)
    (hstop : d.selected = 0 → d.Done hidefrags cs)
    (hended : d.selected ≠ 0 → 0 ≤ d.gap ∨ positives (waiting hidefrags d.clients) = [])
    (hnext : d.selected ≠ 0 →
      (Complete false (-d.gap) (unranked (waiting hidefrags d.clients))
          (positives (waiting hidefrags d.clients)) ↔
        Complete false 0 (unranked (waiting hidefrags cs)) (positives (waiting hidefrags cs))))
    (hless : d.selected ≠ 0 → 2 * (waiting hidefrags d.clients).length < d'.measure hidefrags) :
    Loop.Round (Sound hidefrags cs) (measure hidefrags) (Done hidefrags cs) d' d.endround := by
  unfold endround
  split
  · next h => exact hstop h
  · next h =>
    have hremaining := hd.remaining
    have hcount := hd.count
    dsimp only
    rw [if_pos (by omega)]
    have hswitch : gap { d with remaining := d.remaining - d.selected, selected := 0,
                                first := !d.first } = -d.gap := by
      simp [gap]
    refine ⟨⟨⟨hd.marked, hd.greedy, hd.count, ?_⟩, fun _ => ?_, ?_⟩, ?_⟩
    · simp only [picked] at hremaining ⊢
      push_cast
      omega
    · rw [hswitch]
      obtain hended | hended := hended h
      · exact .inl (by linarith)
      · exact .inr hended
    · rw [← hnext h, Full, hswitch]
      simp
    · simpa [measure] using hless h

variable {i : Nat} {c : Contender}

/-- A client who has not been selected. -/
theorem Base.free (hd : d.Base hidefrags cs) (hc : d.clients[i]? = some c)
    (hpos : 0 ≤ c.timeplayed) : cs[i]? = some c ∧ i ∉ d.picked := by
  have hi := hd.marked i
  rw [hc] at hi
  cases hcs : cs[i]? with
  | none =>
    rw [hcs] at hi
    cases hi
  | some c' =>
    rw [hcs, Option.map_some] at hi
    by_cases hmem : i ∈ d.picked
    · rw [if_pos hmem] at hi
      cases hi
      exact absurd hpos (by simp [Contender.mark])
    · rw [if_neg hmem] at hi
      exact ⟨hi.symm, hmem⟩

/-- The best of those who wait is selected. -/
theorem Base.select (hd : d.Base hidefrags cs) (hcs : ∀ c ∈ cs, 0 ≤ c.timeplayed)
    (hc : d.clients[i]? = some c) (hpos : 0 ≤ c.timeplayed)
    (hmax : ∀ c' ∈ d.clients, 0 ≤ c'.timeplayed → c'.rank ≤ c.rank) (rank : ℚ) :
    (d.select i rank).Base hidefrags cs := by
  obtain ⟨hci, hi⟩ := hd.free hc hpos
  have hpicked : (d.select i rank).picked = d.picked ++ [i] := by simp [picked, Draft.select]
  refine ⟨fun j => ?_, ?_, ?_, ?_⟩
  · rw [hpicked]
    simp only [Draft.select, List.getElem?_modify]
    by_cases hij : i = j
    · subst hij
      simp [hc, hci]
    · have hji : j ≠ i := Ne.symm hij
      simp only [hij, if_false, hd.marked, List.mem_append, List.mem_singleton, hji, or_false]
      simp
  · rw [hpicked]
    refine greedy_concat hd.greedy hi hci fun j c' hc' hj => ?_
    have hmem := hd.marked j
    rw [hc', Option.map_some, if_neg hj] at hmem
    exact hmax c' (List.mem_of_getElem? hmem) (hcs c' (List.mem_of_getElem? hc'))
  · have hlength := (waiting_modify hidefrags hc hpos).length_eq
    have hcount := hd.count
    rw [hpicked]
    simp only [Draft.select, List.length_cons, List.length_append, List.length_nil] at hlength ⊢
    omega
  · have hremaining := hd.remaining
    rw [hpicked]
    simp only [Draft.select, List.length_append, List.length_cons, List.length_nil]
    push_cast
    omega

theorem gap_select (rank : ℚ) :
    (d.select i rank).gap = if 0 < rank then d.gap + rank else d.gap := by
  unfold gap Draft.select
  split
  · have hother : (!d.first) ≠ d.first := by cases d.first <;> decide
    simp only [Function.update_self, Function.update_of_ne hother]
    linarith
  · rfl

theorem dealt_mono {c' : Contender} (h : c'.rank ≤ c.rank) :
    c'.dealt hidefrags ≤ c.dealt hidefrags := by
  unfold Contender.dealt
  split
  · exact le_refl _
  · exact h

/-- Nobody is left to select. -/
theorem Sound.done_of_none (hd : d.Sound hidefrags cs)
    (hnone : waiting hidefrags d.clients = []) : d.Done hidefrags cs := by
  refine ⟨hd.toBase, ?_⟩
  rw [← hd.full, Full, hnone]
  simp [Complete, unranked, positives]

/-- A team that is ahead when its turn begins ends the rounds. -/
theorem Sound.done_of_ahead (hd : d.Sound hidefrags cs) (hgap : 0 < d.gap)
    (hsel : d.selected = 0) : d.Done hidefrags cs := by
  have hpos := (hd.ended hsel).resolve_left (not_le.mpr hgap)
  refine ⟨hd.toBase, ?_⟩
  rw [← hd.full, Full, hpos, ← unranked_eq_zero hpos]
  simp only [Complete, hsel, ne_eq, not_true_eq_false, decide_false, Bool.false_eq_true, if_false]
  constructor
  · exact .inl
  · rintro (h | h | ⟨-, h⟩)
    · exact h
    · exact absurd h (ne_of_gt hgap)
    · exact absurd hgap (not_lt.mpr (le_of_lt h))

/-- The turn passes on when somebody has been selected. -/
theorem Sound.next (hd : d.Sound hidefrags cs) (hsel : d.selected ≠ 0)
    (h : 0 < d.gap ∨ positives (waiting hidefrags d.clients) = []) :
    Complete false (-d.gap) (unranked (waiting hidefrags d.clients))
        (positives (waiting hidefrags d.clients)) ↔
      Complete false 0 (unranked (waiting hidefrags cs)) (positives (waiting hidefrags cs)) := by
  rw [complete_switch h, ← hd.full, Full]
  simp [hsel]

/-- Nobody who waits is dealt with a higher rank. -/
theorem waiting_le (hmax : ∀ c' ∈ d.clients, 0 ≤ c'.timeplayed → c'.rank ≤ c.rank) :
    ∀ r ∈ waiting hidefrags d.clients, r ≤ c.dealt hidefrags := by
  intro r hr
  obtain ⟨c', hc', rfl⟩ := List.mem_map.mp hr
  obtain ⟨hmem, hpos⟩ := List.mem_filter.mp hc'
  exact dealt_mono (hmax c' hmem (by simpa using hpos))

theorem positives_of_low (hmax : ∀ c' ∈ d.clients, 0 ≤ c'.timeplayed → c'.rank ≤ c.rank)
    (hlow : c.dealt hidefrags ≤ 0) : positives (waiting hidefrags d.clients) = [] :=
  positives_eq_nil.mpr fun r hr => (waiting_le hmax r hr).trans hlow

/-- A client whose rank is not positive is the only one of his round. -/
theorem Sound.select_low (hd : d.Sound hidefrags cs) (hcs : ∀ c ∈ cs, 0 ≤ c.timeplayed)
    (hgap : d.gap ≤ 0) (hsel : d.selected = 0) (hc : d.clients[i]? = some c)
    (hplayed : 0 ≤ c.timeplayed)
    (hmax : ∀ c' ∈ d.clients, 0 ≤ c'.timeplayed → c'.rank ≤ c.rank)
    (hlow : c.dealt hidefrags ≤ 0) :
    Loop.Round (Sound hidefrags cs) (measure hidefrags) (Done hidefrags cs) d
      (d.select i (c.dealt hidefrags)).endround := by
  have hwaiting := waiting_modify hidefrags hc hplayed
  have hother := others_perm hwaiting
  have hlength := hwaiting.length_eq
  have hpos := positives_of_low hmax hlow
  have hpos' : positives (waiting hidefrags (d.clients.modify i Contender.mark)) = [] := by
    refine positives_eq_nil.mpr fun r hr => ?_
    exact positives_eq_nil.mp hpos r (hwaiting.mem_iff.mpr (List.mem_cons_of_mem _ hr))
  have hclients : waiting hidefrags (d.select i (c.dealt hidefrags)).clients =
      waiting hidefrags (d.clients.modify i Contender.mark) := rfl
  rw [if_pos hlow] at hother
  rw [List.length_cons] at hlength
  refine endround_sound (hd.toBase.select hcs hc hplayed hmax _)
    (fun h => absurd h (Nat.succ_ne_zero _)) (fun _ => .inr (by rw [hclients, hpos']))
    (fun _ => ?_) (fun _ => ?_)
  · rw [← hd.full, Full, hclients, hpos, hpos', gap_select, if_neg (not_lt.mpr hlow), hother]
    simp only [Complete, hsel, ne_eq, not_true_eq_false, decide_false, Bool.false_eq_true,
      if_false, neg_eq_zero]
    constructor
    · rintro (h | h | ⟨-, h⟩)
      · obtain hlt | heq := lt_or_eq_of_le hgap
        · exact .inr (.inr ⟨by omega, hlt⟩)
        · exact .inr (.inl heq)
      · exact .inr (.inl h)
      · exact absurd hgap (not_le.mpr (by linarith))
    · rintro (h | h | ⟨h, -⟩)
      · omega
      · exact .inr (.inl h)
      · exact .inl (by omega)
  · rw [hclients, measure, hsel]
    simp only [if_true]
    omega

/-- After a client of positive rank the team may go on. -/
theorem Sound.select_high (hd : d.Sound hidefrags cs) (hcs : ∀ c ∈ cs, 0 ≤ c.timeplayed)
    (hgap : d.gap ≤ 0) (hc : d.clients[i]? = some c) (hplayed : 0 ≤ c.timeplayed)
    (hmax : ∀ c' ∈ d.clients, 0 ≤ c'.timeplayed → c'.rank ≤ c.rank)
    (hhigh : 0 < c.dealt hidefrags) :
    Loop.Round (Sound hidefrags cs) (measure hidefrags) (Done hidefrags cs) d
      (.inl (d.select i (c.dealt hidefrags))) := by
  have hwaiting := waiting_modify hidefrags hc hplayed
  have hother := others_perm hwaiting
  have hlength := hwaiting.length_eq
  have hpositives := positives_cons hwaiting hhigh (waiting_le hmax)
  have hclients : waiting hidefrags (d.select i (c.dealt hidefrags)).clients =
      waiting hidefrags (d.clients.modify i Contender.mark) := rfl
  have hnew : (d.select i (c.dealt hidefrags)).selected ≠ 0 := Nat.succ_ne_zero _
  have hgap' : c.dealt hidefrags - |d.gap| = d.gap + c.dealt hidefrags := by
    rw [abs_of_nonpos hgap]
    linarith
  rw [if_neg (not_le.mpr hhigh), Nat.add_zero] at hother
  rw [List.length_cons] at hlength
  refine ⟨⟨hd.toBase.select hcs hc hplayed hmax _, fun h => absurd h hnew, ?_⟩, ?_⟩
  · rw [← hd.full, Full, Full, hclients, hpositives, gap_select, if_pos hhigh, hother]
    simp only [Complete, hnew, ne_eq, not_false_eq_true, decide_true, hgap']
  · simp only [measure, hclients, hnew, if_false]
    omega

theorem step_le {d : Draft} : d.teamrank d.first ≤ d.teamrank (!d.first) ↔ d.gap ≤ 0 := by
  unfold gap
  constructor <;> intro h <;> linarith

/-- **One turn.** -/
theorem step_sound (hcs : ∀ c ∈ cs, 0 ≤ c.timeplayed) (hd : d.Sound hidefrags cs) :
    Loop.Round (Sound hidefrags cs) (measure hidefrags) (Done hidefrags cs) d
      (d.step hidefrags) := by
  have hless : d.selected ≠ 0 →
      2 * (waiting hidefrags d.clients).length < d.measure hidefrags := fun hsel => by
    simp [measure, hsel]
  unfold step
  split
  · next hle =>
    have hgap := step_le.mp hle
    cases hbest : choosebestclient d.clients with
    | none =>
      have hnone := waiting_eq_nil hidefrags (choosebestclient_none hbest)
      have hpos : positives (waiting hidefrags d.clients) = [] := by rw [hnone]; rfl
      exact endround_sound hd.toBase (fun _ => hd.done_of_none hnone) (fun _ => .inr hpos)
        (fun hsel => hd.next hsel (.inr hpos)) hless
    | some b =>
      obtain ⟨i, rank⟩ := b
      obtain ⟨c, hc, hplayed, rfl, hmax⟩ := choosebestclient_some hbest
      change Loop.Round _ _ _ d (if !hidefrags ∧ d.selected ≠ 0 ∧ c.dealt hidefrags ≤ 0
        then d.endround else
          if c.dealt hidefrags ≤ 0 then (d.select i (c.dealt hidefrags)).endround
          else .inl (d.select i (c.dealt hidefrags)))
      split
      · next h =>
        have hpos := positives_of_low hmax h.2.2
        exact endround_sound hd.toBase (fun hsel => absurd hsel h.2.1) (fun _ => .inr hpos)
          (fun hsel => hd.next hsel (.inr hpos)) hless
      · next hno =>
        split
        · next hlow =>
          have hshow : hidefrags = false := by
            cases hidefrags with
            | false => rfl
            | true => exact absurd hlow (by norm_num [Contender.dealt])
          have hsel : d.selected = 0 := by
            by_contra hsel
            exact hno ⟨by simp [hshow], hsel, hlow⟩
          exact hd.select_low hcs hgap hsel hc hplayed hmax hlow
        · next hhigh => exact hd.select_high hcs hgap hc hplayed hmax (not_le.mp hhigh)
  · next hle =>
    have hgap : 0 < d.gap := not_le.mp fun h => hle (step_le.mpr h)
    exact endround_sound hd.toBase (hd.done_of_ahead hgap) (fun _ => .inl (le_of_lt hgap))
      (fun hsel => hd.next hsel (.inl hgap)) hless

/-- The selection list of a team. -/
def team (d : Draft) (t : Bool) : List Nat := (d.picks.filter fun p => p.1 = t).map Prod.snd

theorem team_perm (d : Draft) : (d.team true ++ d.team false).Perm d.picked := by
  unfold team picked
  rw [← List.map_append]
  refine List.Perm.map _ ?_
  have hfalse : (d.picks.filter fun p => p.1 = false) =
      d.picks.filter fun p => !decide (p.1 = true) := by
    congr 1
    funext p
    cases p.1 <;> rfl
  rw [hfalse]
  exact List.filter_append_perm _ _

/-- Those who are selected are numbers of clients, and nobody waits exactly when all are. -/
theorem Base.perm (hd : d.Base hidefrags cs) :
    d.picked.Perm (List.range cs.length) ↔ waiting hidefrags d.clients = [] := by
  have hcount := hd.count
  constructor
  · intro h
    have hlength := h.length_eq
    rw [List.length_range] at hlength
    exact List.length_eq_zero_iff.mp (by omega)
  · intro h
    rw [h, List.length_nil, Nat.zero_add] at hcount
    have hsub : d.picked ⊆ List.range cs.length := by
      intro i hi
      obtain ⟨l, r, heq⟩ := List.append_of_mem hi
      obtain ⟨-, c, hc, -⟩ := hd.greedy l i r heq
      obtain ⟨hlt, -⟩ := List.getElem?_eq_some_iff.mp hc
      exact List.mem_range.mpr hlt
    refine (List.subperm_of_subset (greedy_nodup hd.greedy) hsub).perm_of_length_le ?_
    rw [List.length_range, hcount]

end Draft

/-- **Dealing the clients**: the rounds end, nobody is selected twice, and everybody is selected
while nobody of higher rank waits.  All are selected if and only if frags are hidden, or all
ranks are positive, or the teams are even when the positive ranks are dealt, or the team that
selects last is ahead then and there is one other client. -/
theorem autoteam_spec (hidefrags : Bool) (cs : List Contender) (hcs : ∀ c ∈ cs, 0 ≤ c.timeplayed) :
    ∃ d, autoteam hidefrags cs = some d ∧ (d.team true ++ d.team false).Nodup ∧
      Greedy cs d.picked ∧
      ((d.team true ++ d.team false).Perm (List.range cs.length) ↔
        hidefrags = true ∨ unranked (cs.map Contender.rank) = 0 ∨ lead (cs.map Contender.rank) = 0 ∨
          unranked (cs.map Contender.rank) = 1 ∧ 0 < lead (cs.map Contender.rank)) := by
  have hstart : Draft.Sound hidefrags cs { clients := cs, remaining := cs.length } := by
    refine ⟨⟨fun j => ?_, ?_, ?_, ?_⟩, fun _ => .inl ?_, ?_⟩
    · simp [Draft.picked]
    · intro l i r h
      simp [Draft.picked] at h
    · have hall : (cs.filter fun c => 0 ≤ c.timeplayed) = cs :=
        List.filter_eq_self.mpr fun c hc => by simpa using hcs c hc
      simp [waiting, Draft.picked, hall]
    · simp [Draft.picked]
    · simp [Draft.gap]
    · simp [Draft.Full, Draft.gap]
  have hmeasure : Draft.measure hidefrags { clients := cs, remaining := cs.length } <
      2 * cs.length + 1 := by
    have hcount := hstart.count
    simp only [Draft.picked, List.map_nil, List.length_nil] at hcount
    simp only [Draft.measure, if_true]
    omega
  obtain ⟨d, hd, hdone⟩ : Loop.Yields (autoteam hidefrags cs) (Draft.Done hidefrags cs) :=
    Loop.loop_spec (Draft.Sound hidefrags cs) (Draft.measure hidefrags) _
      (fun d hd => ⟨_, rfl, Draft.step_sound hcs hd⟩) _ _ hstart hmeasure
  refine ⟨d, hd, (d.team_perm.nodup_iff).mpr (greedy_nodup hdone.greedy), hdone.greedy, ?_⟩
  rw [d.team_perm.congr_left, hdone.toBase.perm, hdone.full, complete_start]
  have hwaiting : waiting hidefrags cs = cs.map (Contender.dealt hidefrags) := by
    unfold waiting
    rw [List.filter_eq_self.mpr fun c hc => by simpa using hcs c hc]
  rw [hwaiting]
  cases hidefrags with
  | false =>
    have hrank : Contender.dealt false = Contender.rank := rfl
    rw [hrank]
    simp [lead]
  | true =>
    have hzero : unranked (cs.map (Contender.dealt true)) = 0 := by
      unfold unranked
      rw [List.countP_eq_zero]
      intro r hr
      obtain ⟨c, -, rfl⟩ := List.mem_map.mp hr
      norm_num [Contender.dealt]
    simp [hzero]

/-- A client with a rank, and two that have none yet. -/
def newcomers : List Contender := [⟨1, .alive, 5⟩, ⟨1, .alive, 0⟩, ⟨1, .dead, 0⟩]

theorem autoteam_newcomers : ∃ d, autoteam false newcomers = some d ∧
    (d.team true ++ d.team false).Nodup ∧ Greedy newcomers d.picked ∧
      ((d.team true ++ d.team false).Perm (List.range newcomers.length) ↔
        false = true ∨ unranked (newcomers.map Contender.rank) = 0 ∨
          lead (newcomers.map Contender.rank) = 0 ∨
          unranked (newcomers.map Contender.rank) = 1 ∧ 0 < lead (newcomers.map Contender.rank)) :=
  autoteam_spec false newcomers (by simp [newcomers])

/-- The last of them is left out. -/
theorem newcomer_left_out : (autoteam false newcomers).map
    (fun d => (d.team false, d.team true)) = some ([0], [1]) := by
  decide +kernel

end QServ
