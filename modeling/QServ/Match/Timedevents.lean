import Mathlib.Data.List.Induction
import Mathlib.Data.List.Nodup
import Mathlib.Logic.Function.Basic
import QServ.Lib.Loop

/-!
# The events that wait when a client spawns

`cleartimedevents` of `fpsgame/server.cpp`: runs of events that are not kept are taken out of the
queue while it is scanned, and the events are released.  A queue has pointers; an event that is
released twice, or looked at afterwards, is a fault.

* `cleartimedevents`: the loop with the place behind the last event that is kept.
* `Owned`: the queue owns its events.
* `Scanned`: what holds at the head of the loop.
* `cleartimedevents_exact`: what is left of the queue and of the events.
-/

namespace QServ

namespace Timedevents

open Loop

/-! ## The queue -/

/-- What is derived from `gameevent`. -/
inductive Kind where
  | shotevent
  | explodeevent
  | suicideevent
  | pickupevent
deriving DecidableEq, Repr

/-- `keepable()`. -/
def Kind.keepable : Kind → Bool
  | .explodeevent => true
  | _ => false

/-- The events that are allocated, and the queue and `timesync` of a client. -/
structure Queue where
  heap : Nat → Option Kind
  events : List Nat
  timesync : Bool

/-- The loop of `remove(i, n)` of `tools.h`, from `p` on with so many to come. -/
def movedown (n : Nat) : Nat → Nat → List Nat → List Nat
  | 0, _, buf => buf
  | k + 1, p, buf => movedown n k (p + 1) (buf.set (p - n) (buf.getD p 0))

/-- `remove(i, n)`. -/
def remove (buf : List Nat) (i n : Nat) : List Nat :=
  (movedown n (buf.length - (i + n)) (i + n) buf).take (buf.length - n)

namespace Queue

/-- `delete p;` -/
def delete (q : Queue) (p : Nat) : Option Queue :=
  (q.heap p).map fun _ => { q with heap := Function.update q.heap p none }

/-- `for(int j = keep; j < i; j++) delete ci->events[j];`, from `j` on with so many to come. -/
def deletefrom : Nat → Nat → Queue → Option Queue
  | 0, _, q => some q
  | k + 1, j, q => do
    let p ← q.events[j]?
    let q ← q.delete p
    deletefrom k (j + 1) q

/-- A round of the loop over the queue, with `i` and `keep`. -/
def scan : Queue × Nat × Nat → Option ((Queue × Nat × Nat) ⊕ (Queue × Nat))
  | (q, i, keep) =>
    if i < q.events.length then do
      let p ← q.events[i]?
      let kind ← q.heap p
      if kind.keepable then
        if keep < i then do
          let q ← deletefrom (i - keep) keep q
          let q := { q with events := remove q.events keep (i - keep) }
          some (.inl (q, keep + 1, keep + 1))
        else some (.inl (q, i + 1, i + 1))
      else some (.inl (q, i + 1, keep))
    else some (.inr (q, keep))

/-- `while(ci->events.length() > keep) delete ci->events.pop();`, with so many to come. -/
def deletelast : Nat → Queue → Option Queue
  | 0, q => some q
  | k + 1, q => do
    let p ← q.events.getLast?
    let q ← delete { q with events := q.events.dropLast } p
    deletelast k q

/-- `cleartimedevents(ci)`. -/
def cleartimedevents (q : Queue) : Option Queue := do
  let (q, keep) ← loop scan (q.events.length + 1) (q, 0, 0)
  let q ← deletelast (q.events.length - keep) q
  some { q with timesync := false }

/-- The event is kept. -/
def kept (q : Queue) (p : Nat) : Bool := (q.heap p).any Kind.keepable

/-- The events of the queue are allocated, each once. -/
structure Owned (q : Queue) : Prop where
  nodup : q.events.Nodup
  live : ∀ p ∈ q.events, (q.heap p).isSome

/-- These events are released. -/
def released (q : Queue) (ps : List Nat) (p : Nat) : Option Kind :=
  if p ∈ ps then none else q.heap p

end Queue

/-! ## The vector -/

/-- Each element that is behind is moved by as many places as are removed. -/
theorem movedown_eq (b : List Nat) : ∀ (a w : List Nat), ∃ w', w'.length = w.length ∧
    movedown w.length b.length (a.length + w.length) (a ++ w ++ b) = a ++ b ++ w' := by
  induction b with
  | nil =>
    intro a w
    refine ⟨w, rfl, ?_⟩
    rw [List.append_nil, List.append_nil]
    rfl
  | cons d b ih =>
    intro a w
    obtain ⟨y, v, hv⟩ : ∃ y v, w ++ [d] = y :: v := List.exists_cons_of_ne_nil (by simp)
    have hlen : v.length = w.length := by
      have := congrArg List.length hv
      simpa using this.symm
    have hbuf : a ++ w ++ d :: b = a ++ y :: v ++ b := by
      rw [← hv]
      simp
    have hget : (a ++ w ++ d :: b).getD (a.length + w.length) 0 = d := by
      rw [← List.length_append]
      simp
    have hset : (a ++ w ++ d :: b).set a.length d = (a ++ [d]) ++ v ++ b := by
      rw [hbuf]
      simp
    obtain ⟨w', hw', hmove⟩ := ih (a ++ [d]) v
    refine ⟨w', hw'.trans hlen, ?_⟩
    rw [List.length_cons, movedown, Nat.add_sub_cancel, hget, hset]
    rw [hlen, List.length_append, List.length_singleton, Nat.add_right_comm] at hmove
    rw [hmove]
    simp

/-- **A range is removed**. -/
theorem remove_eq (a w b : List Nat) : remove (a ++ w ++ b) a.length w.length = a ++ b := by
  obtain ⟨w', hw', hmove⟩ := movedown_eq b a w
  have hb : (a ++ w ++ b).length - (a.length + w.length) = b.length := by
    rw [List.length_append, List.length_append, Nat.add_sub_cancel_left]
  have hab : (a ++ w ++ b).length - w.length = (a ++ b).length := by
    simp only [List.length_append]
    omega
  rw [remove, hb, hab, hmove, List.take_left]

namespace Queue

variable {q t : Queue}

/-! ## Releasing events -/

theorem released_nil (q : Queue) : q.released [] = q.heap := by
  funext p
  exact if_neg List.not_mem_nil

theorem delete_eq {p : Nat} (hp : (q.heap p).isSome) :
    q.delete p = some { q with heap := Function.update q.heap p none } := by
  obtain ⟨kind, hkind⟩ := Option.isSome_iff_exists.mp hp
  rw [delete, hkind]
  rfl

/-- One event is released, then others. -/
theorem released_update (q : Queue) (p : Nat) (ps : List Nat) (events : List Nat) :
    Queue.released ⟨Function.update q.heap p none, events, q.timesync⟩ ps =
      q.released (p :: ps) := by
  funext p'
  unfold released
  dsimp only
  by_cases hp : p' = p
  · subst hp
    rw [Function.update_self, ite_self, if_pos List.mem_cons_self]
  · rw [Function.update_of_ne hp]
    simp [hp]

/-- **A run is released** in its order. -/
theorem deletefrom_eq {b : List Nat} (run : List Nat) : ∀ {a : List Nat} {q : Queue},
    q.events = a ++ run ++ b → run.Nodup → (∀ p ∈ run, (q.heap p).isSome) →
    deletefrom run.length a.length q = some { q with heap := q.released run } := by
  induction run with
  | nil =>
    intro a q _ _ _
    rw [released_nil]
    rfl
  | cons p run ih =>
    intro a q hevents hnodup hlive
    obtain ⟨hp, hrun⟩ := List.nodup_cons.mp hnodup
    have hget : q.events[a.length]? = some p := by
      rw [hevents]
      simp
    have hlive' : ∀ p' ∈ run, (Function.update q.heap p none p').isSome := by
      intro p' hp'
      have hne : p' ≠ p := fun heq => hp (heq ▸ hp')
      rw [Function.update_of_ne hne]
      exact hlive p' (List.mem_cons_of_mem _ hp')
    have hrest := ih (a := a ++ [p]) (q := { q with heap := Function.update q.heap p none })
      (by rw [hevents]; simp) hrun hlive'
    rw [List.length_append, List.length_singleton] at hrest
    rw [List.length_cons, deletefrom, hget]
    change (q.delete p).bind _ = _
    rw [delete_eq (hlive p (.head _)), Option.bind_some, hrest, released_update]

/-- **The last run is released**, from its end. -/
theorem deletelast_eq (run : List Nat) : ∀ {a : List Nat} {q : Queue},
    q.events = a ++ run → run.Nodup → (∀ p ∈ run, (q.heap p).isSome) →
    deletelast run.length q = some { q with events := a, heap := q.released run } := by
  induction run using List.reverseRecOn with
  | nil =>
    intro a q hevents _ _
    rw [List.append_nil] at hevents
    rw [released_nil, ← hevents]
    rfl
  | append_singleton run p ih =>
    intro a q hevents hnodup hlive
    have hcons : (p :: run).Nodup := List.nodup_append_comm.mp hnodup
    obtain ⟨hp, hrun⟩ := List.nodup_cons.mp hcons
    have hlast : q.events.getLast? = some p := by
      rw [hevents, ← List.append_assoc, List.getLast?_concat]
    have hdrop : q.events.dropLast = a ++ run := by
      rw [hevents, ← List.append_assoc, List.dropLast_concat]
    have hlive' : ∀ p' ∈ run, (Function.update q.heap p none p').isSome := by
      intro p' hp'
      have hne : p' ≠ p := fun heq => hp (heq ▸ hp')
      rw [Function.update_of_ne hne]
      exact hlive p' (List.mem_append_left _ hp')
    have hrest := ih (a := a) (q := ⟨Function.update q.heap p none, a ++ run, q.timesync⟩) rfl hrun
      hlive'
    have hperm : q.released (p :: run) = q.released (run ++ [p]) := by
      funext p'
      simp only [released, List.mem_cons, List.mem_append, List.not_mem_nil, false_or, or_comm]
    rw [List.length_append, List.length_singleton, deletelast, hlast]
    change (delete _ p).bind _ = _
    rw [hdrop, delete_eq (q := { q with events := a ++ run })
      (hlive p (List.mem_append_right _ (.head _))), Option.bind_some, hrest, released_update,
      hperm]

/-! ## The scan -/

/-- **The head of the loop**: of the events that have been looked at the kept ones are left and a
run behind them, and the others are released. -/
def Scanned (q : Queue) : Queue × Nat × Nat → Prop
  | (t, i, keep) => ∃ done run rest, q.events = done ++ run ++ rest ∧
      (∀ p ∈ run, q.kept p = false) ∧
      t = { q with events := done.filter q.kept ++ run ++ rest
                   heap := q.released (done.filter fun p => !q.kept p) } ∧
      keep = (done.filter q.kept).length ∧ i = keep + run.length

/-- The end of the loop. -/
def Over (q : Queue) : Queue × Nat → Prop
  | (t, keep) => ∃ done run, q.events = done ++ run ∧ (∀ p ∈ run, q.kept p = false) ∧
      t = { q with events := done.filter q.kept ++ run
                   heap := q.released (done.filter fun p => !q.kept p) } ∧
      keep = (done.filter q.kept).length

theorem released_released (q : Queue) (ps ps' events : List Nat) :
    Queue.released ⟨q.released ps, events, q.timesync⟩ ps' = q.released (ps ++ ps') := by
  funext p
  simp only [released, List.mem_append]
  split_ifs <;> simp_all

theorem filter_kept {run : List Nat} (h : ∀ p ∈ run, q.kept p = false) :
    run.filter q.kept = [] :=
  List.filter_eq_nil_iff.mpr fun p hp => by rw [h p hp]; exact Bool.false_ne_true

theorem filter_dropped {run : List Nat} (h : ∀ p ∈ run, q.kept p = false) :
    run.filter (fun p => !q.kept p) = run :=
  List.filter_eq_self.mpr fun p hp => by rw [h p hp]; rfl

/-- The rounds to come. -/
def togo : Queue × Nat × Nat → Nat
  | (t, i, _) => t.events.length - i

theorem released_of_not_mem {ps : List Nat} {p : Nat} (h : p ∉ ps) : q.released ps p = q.heap p :=
  if_neg h

theorem scan_round (hq : q.Owned) (s : Queue × Nat × Nat) (h : Scanned q s) :
    Yields (scan s) (Round (Scanned q) togo (Over q) s) := by
  obtain ⟨t, i, keep⟩ := s
  obtain ⟨done, run, rest, hevents, hrun, rfl, rfl, rfl⟩ := h
  obtain ⟨hnodup, hlive⟩ := hq
  cases rest with
  | nil =>
    refine ⟨.inr (_, _), if_neg ?_, done, run, ?_, hrun, ?_, rfl⟩
    · simp
    · rw [hevents, List.append_nil]
    · rw [List.append_nil]
  | cons p rest =>
    have hp : p ∈ q.events := by
      rw [hevents]
      simp
    obtain ⟨kind, hkind⟩ := Option.isSome_iff_exists.mp (hlive p hp)
    have hnd : (done ++ (run ++ p :: rest)).Nodup := by
      rw [← List.append_assoc, ← hevents]
      exact hnodup
    have hfresh : ∀ p' ∈ run ++ p :: rest, p' ∉ done.filter fun p => !q.kept p := by
      intro p' hp' hmem
      exact (List.nodup_append.mp hnd).2.2 p' (List.mem_filter.mp hmem).1 p' hp' rfl
    have hheap : ∀ p' ∈ run ++ p :: rest,
        q.released (done.filter fun p => !q.kept p) p' = q.heap p' :=
      fun p' hp' => released_of_not_mem (hfresh p' hp')
    have hkept : q.kept p = kind.keepable := by rw [kept, hkind, Option.any_some]
    -- the event that is looked at
    have hin : (done.filter q.kept).length + run.length <
        (done.filter q.kept ++ run ++ p :: rest).length := by
      simp
    have hget : (done.filter q.kept ++ run ++ p :: rest)[(done.filter q.kept).length +
        run.length]? = some p := by
      rw [← List.length_append]
      simp
    have hlook : q.released (done.filter fun p => !q.kept p) p = some kind := by
      rw [hheap p (List.mem_append_right _ (.head _)), hkind]
    unfold scan
    dsimp only
    rw [if_pos hin, hget]
    change Yields (Option.bind (q.released _ p) _) _
    rw [hlook, Option.bind_some]
    by_cases hkeep : kind.keepable = true
    · have hkp : q.kept p = true := hkept.trans hkeep
      rw [if_pos hkeep]
      by_cases hnil : run = []
      · -- nothing is between this event and the last one that is kept
        subst hnil
        rw [if_neg (by simp)]
        refine ⟨_, rfl, ⟨done ++ [p], [], rest, ?_, nofun, ?_, ?_, rfl⟩, ?_⟩
        · rw [hevents]
          simp
        · simp [List.filter_append, hkp]
        · simp [List.filter_append, hkp]
        · simp only [togo, List.length_append, List.length_cons]
          omega
      · -- the run behind the last one that is kept is taken out
        have hpos := List.length_pos_iff.mpr hnil
        have hrunnd : run.Nodup := (List.nodup_append.mp (List.nodup_append.mp hnd).2.1).1
        have hrunlive : ∀ p' ∈ run, (q.released (done.filter fun p => !q.kept p) p').isSome := by
          intro p' hp'
          rw [hheap p' (List.mem_append_left _ hp')]
          refine hlive p' ?_
          rw [hevents]
          simp [hp']
        have hdel := deletefrom_eq (b := p :: rest) run (a := done.filter q.kept)
          (q := { q with events := done.filter q.kept ++ run ++ p :: rest
                         heap := q.released (done.filter fun p => !q.kept p) }) rfl hrunnd hrunlive
        rw [if_pos (by omega), Nat.add_sub_cancel_left, hdel]
        dsimp only [Option.bind_eq_bind, Option.bind_some]
        rw [remove_eq]
        refine ⟨_, rfl, ⟨done ++ run ++ [p], [], rest, ?_, nofun, ?_, ?_, rfl⟩, ?_⟩
        · rw [hevents]
          simp
        · rw [released_released]
          simp [List.filter_append, filter_kept hrun, filter_dropped hrun, hkp]
        · simp [List.filter_append, filter_kept hrun, hkp]
        · simp only [togo, List.length_append, List.length_cons]
          omega
    · have hkp : q.kept p = false := hkept.trans (by simpa using hkeep)
      rw [if_neg hkeep]
      refine ⟨_, rfl, ⟨done, run ++ [p], rest, ?_, ?_, ?_, rfl, ?_⟩, ?_⟩
      · rw [hevents]
        simp
      · intro p' hp'
        obtain hp' | hp' := List.mem_append.mp hp'
        · exact hrun p' hp'
        · obtain rfl := List.mem_singleton.mp hp'
          exact hkp
      · simp
      · simp [Nat.add_assoc]
      · simp only [togo]
        omega

/-- **The events that are kept** are left in the queue in their order; every other one is released,
once, and nothing else is. -/
theorem cleartimedevents_exact {q : Queue} (hq : q.Owned) : ∃ t, q.cleartimedevents = some t ∧
    t.events = q.events.filter q.kept ∧ t.timesync = false ∧
    (∀ p, t.heap p = if p ∈ q.events ∧ q.kept p = false then none else q.heap p) ∧ t.Owned := by
  have hinit : Scanned q (q, 0, 0) := by
    refine ⟨[], [], q.events, rfl, nofun, ?_, rfl, rfl⟩
    rw [List.filter_nil, List.filter_nil, released_nil]
    rfl
  obtain ⟨⟨t, keep⟩, hloop, done, run, hevents, hrun, rfl, rfl⟩ :=
    loop_spec (Scanned q) togo (Over q) (scan_round hq) (q.events.length + 1) (q, 0, 0) hinit
      (Nat.lt_succ_of_le (Nat.sub_le _ _))
  have hnd : (done ++ run).Nodup := hevents ▸ hq.nodup
  have hfresh : ∀ p ∈ run, p ∉ done.filter fun p => !q.kept p := by
    intro p hp hmem
    exact (List.nodup_append.mp hnd).2.2 p (List.mem_filter.mp hmem).1 p hp rfl
  have hlast := deletelast_eq run (a := done.filter q.kept)
    (q := { q with events := done.filter q.kept ++ run
                   heap := q.released (done.filter fun p => !q.kept p) }) rfl
    (List.nodup_append.mp hnd).2.1 fun p hp => by
      dsimp only
      rw [released_of_not_mem (hfresh p hp)]
      exact hq.live p (by rw [hevents]; exact List.mem_append_right _ hp)
  have hleft : q.events.filter q.kept = done.filter q.kept := by
    rw [hevents, List.filter_append, filter_kept hrun, List.append_nil]
  have hgone : ∀ p, q.released ((done.filter fun p => !q.kept p) ++ run) p =
      if p ∈ q.events ∧ q.kept p = false then none else q.heap p := by
    intro p
    have hmem : p ∈ (done.filter fun p => !q.kept p) ++ run ↔
        p ∈ q.events ∧ q.kept p = false := by
      rw [← filter_dropped hrun, ← List.filter_append, ← hevents, List.mem_filter,
        Bool.not_eq_true']
    rw [released]
    exact if_congr hmem rfl rfl
  refine ⟨⟨q.released ((done.filter fun p => !q.kept p) ++ run), done.filter q.kept, false⟩, ?_,
    hleft.symm, rfl, hgone, ?_, fun p hp => ?_⟩
  · rw [cleartimedevents, hloop]
    change Option.bind (deletelast _ _) _ = _
    rw [List.length_append, Nat.add_sub_cancel_left, hlast, released_released]
    rfl
  · exact (hleft ▸ hq.nodup.filter _)
  · have hp' : p ∈ q.events ∧ q.kept p = true := by
      rw [← List.mem_filter, hleft]
      exact hp
    dsimp only
    rw [hgone, if_neg (by simp [hp'.2])]
    exact hq.live p hp'.1

/-- An explosion between two shots. -/
def shots : Queue :=
  ⟨fun p => if p = 2 then some .explodeevent else some .shotevent, [1, 2, 3], true⟩

/-- The explosion is kept. -/
theorem cleartimedevents_exact_shots : ∃ t, shots.cleartimedevents = some t ∧ t.events = [2] := by
  have hq : shots.Owned := ⟨by decide, by decide⟩
  obtain ⟨t, hrun, hevents, -⟩ := cleartimedevents_exact hq
  exact ⟨t, hrun, hevents⟩

end Queue

end Timedevents

end QServ
