import Mathlib.Data.List.Induction
import QServ.Lib.Tally
import QServ.Server.Rotation

/-!
# Votes on the next map

`checkvotes` groups the votes of those who may vote, takes one of the groups with the most votes
and changes the map if that are enough.

* `supporters`: how many of those who may vote are for a map and a mode.
* `tally_spec`: the groups are the pairs that are voted for, each with its supporters.
* `checkvotes_spec`: what the map is changed to, and when.
-/

namespace QServ

namespace Server

/-- `votecount`. -/
structure Votecount where
  map : String
  mode : Int
  count : Nat
deriving DecidableEq, Repr

/-- Neither a bot nor a spectator who is nobody else. -/
def voter (c : ClientInfo) : Bool :=
  !(decide (c.state = .spectator) && decide (c.privilege = .none) && !c.isLocal) &&
    decide (c.aitype = .human)

/-- `vc->count++`, of a new entry if there is none. -/
def addvote (map : String) (mode : Int) : List Votecount → List Votecount
  | [] => [{ map, mode, count := 1 }]
  | v :: votes =>
    if map = v.map ∧ mode = v.mode then { v with count := v.count + 1 } :: votes
    else v :: addvote map mode votes

/-- The entry with more votes; a coin decides between those that have as many. -/
def better (toss : Bool) (best v : Votecount) : Votecount :=
  if best.count < v.count ∨ v.count = best.count ∧ toss then v else best

/-- The best of an entry and those after it, the first of which is number `i`. -/
def bestof (coin : Nat → Bool) : Nat → Votecount → List Votecount → Votecount
  | _, best, [] => best
  | i, best, v :: votes => bestof coin (i + 1) (better (coin i) best v) votes

/-- `best` after the loop over the entries. -/
def bestvote (coin : Nat → Bool) : List Votecount → Option Votecount
  | [] => none
  | v :: votes => some (bestof coin 1 v votes)

section Votes

variable (s : Server) (vote : ClientInfo → String × Int) (coin : Nat → Bool)

/-- The loop over the clients, with the `mapvote` and `modevote` of each. -/
def tally (cs : List ClientInfo) : List Votecount :=
  cs.foldl (fun votes c =>
    if voter c && mValid (vote c).2 then addvote (vote c).1 (vote c).2 votes else votes) []

/-- `maxvotes`. -/
def maxvotes : Nat := s.cl.countP voter

/-- `checkvotes(force)`, past the packets that are sent out and the demo that is ended before a
change. -/
def checkvotes (force : Bool) : Except Fault Server :=
  match bestvote coin (tally vote s.cl) with
  | none => if force then s.rotatemap true else .ok s
  | some best =>
    if force ∨ s.maxvotes / 2 < best.count then
      if (if force then 1 else s.maxvotes / 2) < best.count then
        .ok (s.changemap best.map best.mode)
      else s.rotatemap true
    else .ok s

/-- How many of those who may vote are for a map and a mode. -/
def supporters (cs : List ClientInfo) (map : String) (mode : Int) : Nat :=
  cs.countP fun c => voter c && mValid (vote c).2 && decide (vote c = (map, mode))

/-! ## Groups -/

variable {vote} {votes : List Votecount}

/-- The pair that an entry is for. -/
def Votecount.pair (v : Votecount) : String × Int := (v.map, v.mode)

theorem addvote_eq (map : String) (mode : Int) (votes : List Votecount) :
    addvote map mode votes = Tally.bump Votecount.pair (fun v => { v with count := v.count + 1 })
      { map, mode, count := 1 } votes := by
  induction votes with
  | nil => rfl
  | cons v votes ih =>
    unfold addvote Tally.bump
    simp only [Votecount.pair, Prod.mk.injEq, eq_comm]
    rw [ih]

/-- **The groups** are distinct, and each has its supporters. -/
theorem tally_spec (cs : List ClientInfo) :
    Tally.Tallies Votecount.pair Votecount.count (tally vote cs)
      fun p => supporters vote cs p.1 p.2 := by
  induction cs using List.reverseRecOn with
  | nil => exact Tally.tallies_nil
  | append_singleton cs c ih =>
    have htally : tally vote (cs ++ [c]) = if voter c && mValid (vote c).2 then
        addvote (vote c).1 (vote c).2 (tally vote cs) else tally vote cs := by
      simp [tally, List.foldl_append]
    have hsupporters (map : String) (mode : Int) : supporters vote (cs ++ [c]) map mode =
        supporters vote cs map mode +
          if voter c && mValid (vote c).2 && decide (vote c = (map, mode)) then 1 else 0 := by
      simp [supporters, List.countP_append]
    simp only [htally, hsupporters]
    cases hc : voter c && mValid (vote c).2 with
    | false => simpa using ih
    | true =>
      rw [if_pos rfl, addvote_eq]
      have hbump := ih.bump (fun v => { v with count := v.count + 1 })
        { map := (vote c).1, mode := (vote c).2, count := 1 } (fun _ => rfl) (fun _ => rfl) rfl
      simpa [Votecount.pair, eq_comm] using hbump

/-! ## The best of them -/

variable {coin}

theorem better_spec (toss : Bool) (best v : Votecount) :
    (better toss best v = v ∨ better toss best v = best) ∧
      best.count ≤ (better toss best v).count ∧ v.count ≤ (better toss best v).count := by
  unfold better
  split
  · exact ⟨.inl rfl, by omega, le_refl _⟩
  · exact ⟨.inr rfl, le_refl _, by omega⟩

theorem bestof_spec (coin : Nat → Bool) (votes : List Votecount) (i : Nat) (best : Votecount) :
    bestof coin i best votes ∈ best :: votes ∧
      ∀ v ∈ best :: votes, v.count ≤ (bestof coin i best votes).count := by
  induction votes generalizing i best with
  | nil => simp [bestof]
  | cons v votes ih =>
    obtain ⟨hfrom, hbest, hv⟩ := better_spec (coin i) best v
    obtain ⟨hmem, hmax⟩ := ih (i + 1) (better (coin i) best v)
    have hnew := hmax _ List.mem_cons_self
    unfold bestof
    refine ⟨?_, fun w hw => ?_⟩
    · obtain heq | hmem := List.mem_cons.mp hmem
      · rw [heq]
        obtain h | h := hfrom <;> simp [h]
      · simp [hmem]
    · obtain rfl | hw := List.mem_cons.mp hw
      · exact hbest.trans hnew
      · obtain rfl | hw := List.mem_cons.mp hw
        · exact hv.trans hnew
        · exact hmax w (List.mem_cons_of_mem _ hw)

/-- **The best** is one of the entries, and none has more votes. -/
theorem bestvote_some {b : Votecount} (h : bestvote coin votes = some b) :
    b ∈ votes ∧ ∀ v ∈ votes, v.count ≤ b.count := by
  cases votes with
  | nil => cases h
  | cons v votes =>
    cases h
    exact bestof_spec coin votes 1 v

theorem bestvote_none (h : bestvote coin votes = none) : votes = [] := by
  cases votes with
  | nil => rfl
  | cons v votes => cases h

theorem supporters_eq_zero {cs : List ClientInfo} (h : tally vote cs = []) (map : String)
    (mode : Int) : supporters vote cs map mode = 0 := by
  have hall := (show Tally.Tallies _ _ (tally vote cs) _ from tally_spec cs).all (map, mode)
  rw [h] at hall
  exact Nat.eq_zero_of_not_pos (by simpa using hall)

/-- **The best group** has its supporters, and no pair has more. -/
theorem supporters_best {cs : List ClientInfo} {b : Votecount}
    (h : bestvote coin (tally vote cs) = some b) :
    supporters vote cs b.map b.mode = b.count ∧
      ∀ map mode, supporters vote cs map mode ≤ b.count := by
  have htally : Tally.Tallies _ _ (tally vote cs) _ := tally_spec cs
  obtain ⟨hmem, hmax⟩ := bestvote_some h
  refine ⟨(htally.count b hmem).symm, fun map mode => ?_⟩
  obtain hzero | hpos := Nat.eq_zero_or_pos (supporters vote cs map mode)
  · rw [hzero]
    exact Nat.zero_le _
  · obtain ⟨v, hv, heq⟩ := List.mem_map.mp ((htally.all (map, mode)).mp hpos)
    have hcount := htally.count v hv
    rw [heq] at hcount
    exact hcount ▸ hmax v hv

variable (vote coin)

/-- A pair that no other has more supporters than. -/
def Wins (map : String) (mode : Int) : Prop :=
  ∀ map' mode', supporters vote s.cl map' mode' ≤ supporters vote s.cl map mode

/-- **Votes**: without `force` the map is changed only to a pair that more than half of those who
may vote are for, and left if there is none; with `force` to one that has at least two votes, and
by the rotation if there is none.  No pair has more votes than the one that is taken. -/
theorem checkvotes_spec :
    ((∃ map mode, s.Wins vote map mode ∧ s.maxvotes < 2 * supporters vote s.cl map mode ∧
        s.checkvotes vote coin false = .ok (s.changemap map mode)) ∨
      (∀ map mode, 2 * supporters vote s.cl map mode ≤ s.maxvotes) ∧
        s.checkvotes vote coin false = .ok s) ∧
    ((∃ map mode, s.Wins vote map mode ∧ 2 ≤ supporters vote s.cl map mode ∧
        s.checkvotes vote coin true = .ok (s.changemap map mode)) ∨
      (∀ map mode, supporters vote s.cl map mode < 2) ∧
        s.checkvotes vote coin true = s.rotatemap true) := by
  unfold checkvotes
  cases hbest : bestvote coin (tally vote s.cl) with
  | none =>
    have hzero := supporters_eq_zero (bestvote_none hbest)
    exact ⟨.inr ⟨fun map mode => by simp [hzero], rfl⟩,
      .inr ⟨fun map mode => by simp [hzero], rfl⟩⟩
  | some b =>
    obtain ⟨hcount, hmax⟩ := supporters_best hbest
    have hwins : s.Wins vote b.map b.mode := fun map mode => by
      rw [hcount]
      exact hmax map mode
    refine ⟨?_, ?_⟩
    · by_cases hmany : s.maxvotes / 2 < b.count
      · exact .inl ⟨b.map, b.mode, hwins, by omega, by simp [hmany]⟩
      · refine .inr ⟨fun map mode => ?_, by simp [hmany]⟩
        have := hmax map mode
        omega
    · by_cases htwo : 1 < b.count
      · exact .inl ⟨b.map, b.mode, hwins, by omega, by simp [htwo]⟩
      · refine .inr ⟨fun map mode => ?_, by simp [htwo]⟩
        have := hmax map mode
        omega

end Votes

end Server

end QServ
