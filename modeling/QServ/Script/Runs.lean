import QServ.Script.Machine
import QServ.Script.Statements

/-!
# Runs of compiled code

What the layout of compiled code means to the machine: in every state a run comes to, each call has
the rest of a layout before it, and the values that belong there.

* `Machine.Sound`: the calls and the places they return to are right.
* `step_sound`, `reached_sound`: it stays so, and there is always a next step.
* `values_disciplined`, `skipcode_returns`: what follows for the values and for `skipcode`.
-/

namespace QServ

namespace Script

/-- So many values are right for a word: those the instruction works with are there, and there is room
for one that it pushes. -/
def Disciplined (ids : List Ident) (w k : Nat) : Prop :=
  match decode w with
  | .plain op arg => Fits ids op arg k
  | .number | .text _ | .block _ | .enter => k ≤ MAXARGS
  | .exit => k ≤ MAXARGS + 1
  | .ignored => False

section Sound

variable (strict : Prop) (ids : List Ident)

/-- The calls that wait for a return to the first place go on with layouts, and the outermost one
returns the second. -/
inductive Waiting (q : List Nat) : List Nat → List Activation → Prop
  | nil : Waiting q q []
  | leaving {r : List Nat} {a : Activation} {st : List Activation} (ha : a.leaving = true)
      (hst : Waiting q r st) : Waiting q r (a :: st)
  | staying {r l : List Nat} {a : Activation} {st : List Activation} {ret : Ret} {m : Nat}
      (ha : a.leaving = false) (hlayout : Layout strict ids a.numargs l m)
      (hend : strict → m ≤ MAXARGS + 1) (hquiet : Quiet l) (hst : Waiting q r st) :
      Waiting q (l ++ inst .EXIT ret 0 :: r) (a :: st)

/-- The innermost call goes on with a layout, too. -/
def Machine.Sound (q : List Nat) : Machine → Prop
  | .running a st => a.leaving = false ∧ Waiting strict ids q a.code (a :: st)
  | .returned r => r = q

variable {strict ids} {q r l : List Nat} {a : Activation} {st : List Activation} {m : Nat}

theorem resume_sound (h : Waiting strict ids q r st) : (resume r st).Sound strict ids q := by
  induction h with
  | nil => rfl
  | leaving ha _ ih =>
    rw [resume, if_pos ha]
    exact ih
  | staying ha hlayout hend hquiet hst _ =>
    rw [resume, if_neg (by simp [ha])]
    exact ⟨ha, .staying ha hlayout hend hquiet hst⟩

/-- A call of `runcode` begins with a layout, or skips it. -/
theorem runcode_sound (base : Nat) {ret : Ret} (hlayout : Layout strict ids 0 l m)
    (hend : strict → m ≤ MAXARGS + 1) (hquiet : Quiet l) (hst : Waiting strict ids q r st) :
    ∃ s, runcode base (l ++ inst .EXIT ret 0 :: r) st = some s ∧ s.Sound strict ids q := by
  unfold runcode
  split
  · rw [hlayout.skipcode_eq hquiet]
    exact ⟨_, rfl, resume_sound hst⟩
  · exact ⟨_, rfl, rfl, .staying rfl hlayout hend hquiet hst⟩

/-- What the innermost call has before it. -/
theorem Machine.Sound.top (h : (Machine.running a st).Sound strict ids q) :
    ∃ l ret r m, a = { code := l ++ inst .EXIT ret 0 :: r, numargs := a.numargs } ∧
      Layout strict ids a.numargs l m ∧ (strict → m ≤ MAXARGS + 1) ∧ Quiet l ∧
        Waiting strict ids q r st := by
  obtain ⟨code, numargs, leaving⟩ := a
  obtain ⟨rfl, h⟩ : leaving = false ∧ _ := h
  cases h with
  | leaving ha => cases ha
  | staying _ hlayout hend hquiet hst => exact ⟨_, _, _, _, rfl, hlayout, hend, hquiet, hst⟩

/-- **A step** from a sound state: there is one, the values are right for it, and the next state is
sound. -/
theorem step_sound (base : Nat) (keyword : Bool) (h : (Machine.running a st).Sound strict ids q) :
    (∃ s, step base keyword (.running a st) = some s ∧ s.Sound strict ids q) ∧
      ∃ w rest, a.code = w :: rest ∧ (strict → Disciplined ids w a.numargs) := by
  obtain ⟨l, ret, r, m, ha, hlayout, hend, hquiet, hst⟩ := h.top
  rw [ha]
  generalize a.numargs = numargs at hlayout
  cases hlayout with
  | nil hk =>
    simp only [List.nil_append]
    refine ⟨?_, _, _, rfl, fun hs => ?_⟩
    · simp only [step, decode_exit]
      exact ⟨_, rfl, resume_sound hst⟩
    · simp only [Disciplined, decode_exit]
      exact (hk hs).trans_le (hend hs)
  | @plain op ret' arg _ _ l hop harg hrest =>
    rw [Quiet, numbers_plain hop] at hquiet
    simp only [List.cons_append]
    refine ⟨?_, _, _, rfl, fun hs => ?_⟩
    · simp only [step, decode_plain hop]
      split
      · next hlocal =>
        have hzero : op.leaves (arg % 2 ^ 24).toNat numargs = 0 := by
          obtain rfl | ⟨rfl, -⟩ := hlocal <;> rfl
        rw [hzero] at hrest
        exact runcode_sound base hrest hend hquiet (.leaving rfl hst)
      · exact ⟨_, rfl, rfl, .staying rfl hrest hend hquiet hst⟩
    · simp only [Disciplined, decode_plain hop]
      exact harg hs
  | @number ret' arg x _ _ l hret hroom hrest =>
    rw [Quiet, numbers_number hret, List.forall_mem_cons] at hquiet
    simp only [List.cons_append]
    refine ⟨?_, _, _, rfl, fun hs => ?_⟩
    · simp only [step, decode_number hret, List.tail_cons]
      exact ⟨_, rfl, rfl, .staying rfl hrest hend hquiet.2 hst⟩
    · simp only [Disciplined, decode_number hret]
      exact hroom hs
  | @text op ret' len _ _ chars l hop hlen hchars hroom hrest =>
    rw [Quiet, numbers_text hop hlen hchars] at hquiet
    simp only [List.cons_append, List.append_assoc]
    refine ⟨?_, _, _, rfl, fun hs => ?_⟩
    · simp only [step, decode_text hop hlen, ← hchars, List.drop_left]
      exact ⟨_, rfl, rfl, .staying rfl hrest hend hquiet hst⟩
    · simp only [Disciplined, decode_text hop hlen]
      exact hroom hs
  | @enter ret' _ _ _ body l hbody hend' hroom hrest =>
    rw [Quiet, numbers_enter] at hquiet
    obtain ⟨hquietbody, hquiet⟩ := hbody.quiet_append.mp hquiet
    rw [Quiet, numbers_exit] at hquiet
    simp only [List.cons_append, List.append_assoc]
    refine ⟨?_, _, _, rfl, fun hs => ?_⟩
    · simp only [step, decode_enter]
      exact runcode_sound base hbody hend' hquietbody (.staying rfl hrest hend hquiet hst)
    · simp only [Disciplined, decode_enter]
      exact hroom hs
  | @block ret' arg _ _ _ body l hbody hend' hlen hroom hrest =>
    rw [Quiet, numbers_block hlen, numbers_plain rfl] at hquiet
    obtain ⟨-, hquiet⟩ := hbody.quiet_append.mp hquiet
    rw [Quiet, numbers_exit] at hquiet
    simp only [List.cons_append, List.append_assoc]
    refine ⟨?_, _, _, rfl, fun hs => ?_⟩
    · have hdrop : (inst .OFFSET .RET_NULL arg :: (body ++ inst .EXIT ret' 0 ::
          (l ++ inst .EXIT ret 0 :: r))).drop (body.length + 2) = l ++ inst .EXIT ret 0 :: r := by
        simp [← List.drop_drop]
      simp only [step, decode_block hlen, hdrop]
      exact ⟨_, rfl, rfl, .staying rfl hrest hend hquiet hst⟩
    · simp only [Disciplined, decode_block hlen]
      exact hroom hs

theorem runs_sound {base : Nat} {s t : Machine} (h : s.Sound strict ids q) (hr : Runs base s t) :
    t.Sound strict ids q := by
  induction hr with
  | refl => exact h
  | @tail s t _ hst ih =>
    obtain ⟨keyword, hst⟩ := hst
    cases s with
    | returned => cases hst
    | running a st =>
      obtain ⟨u, hu, hsound⟩ := (step_sound base keyword ih).1
      rw [hst] at hu
      obtain rfl := Option.some.inj hu
      exact hsound

/-- What `runcode` is called for: code up to its `EXIT`. -/
structure Callable (strict : Prop) (ids : List Ident) (code q : List Nat) : Prop where
  layout : ∃ l ret m, code = l ++ inst .EXIT ret 0 :: q ∧ Layout strict ids 0 l m ∧
    (strict → m ≤ MAXARGS + 1) ∧ Quiet l

theorem Callable.runcode {code : List Nat} (h : Callable strict ids code q) {base : Nat} {s : Machine}
    (hs : runcode base code [] = some s) : s.Sound strict ids q := by
  obtain ⟨l, ret, m, rfl, hlayout, hend, hquiet⟩ := h.layout
  obtain ⟨t, ht, hsound⟩ := runcode_sound base hlayout hend hquiet .nil
  rw [hs] at ht
  obtain rfl := Option.some.inj ht
  exact hsound

/-- What is called inside of a run. -/
theorem Machine.Sound.callable (h : (Machine.running a st).Sound strict ids q) {w : Nat}
    {rest : List Nat} (hcode : a.code = w :: rest) :
    (decode w = .enter → ∃ q', Callable strict ids rest q') ∧
      (∀ op arg, decode w = .plain op arg → op = .LOCAL ∨ op = .CALLU →
        ∃ q', Callable strict ids rest q') ∧
      ∀ len, decode w = .block len → ∃ q', Callable strict ids rest.tail q' := by
  obtain ⟨l, ret, r, m, ha, hlayout, hend, hquiet, hst⟩ := h.top
  rw [ha] at hcode
  simp only at hcode
  cases hlayout with
  | nil =>
    obtain ⟨rfl, rfl⟩ := List.cons.inj hcode
    simp [decode_exit]
  | plain hop _ hrest =>
    obtain ⟨rfl, rfl⟩ := List.cons.inj hcode
    rw [Quiet, numbers_plain hop] at hquiet
    rw [decode_plain hop]
    refine ⟨(fun h => by cases h), fun op' arg' heq hlocal => ?_, fun _ h => by cases h⟩
    have hzero (arg k : Nat) : op'.leaves arg k = 0 := by
      obtain rfl | rfl := hlocal <;> rfl
    rw [(Instruction.plain.inj heq).1, hzero] at hrest
    exact ⟨r, _, ret, m, rfl, hrest, hend, hquiet⟩
  | number hret =>
    obtain ⟨rfl, rfl⟩ := List.cons.inj hcode
    rw [decode_number hret]
    exact ⟨(fun h => by cases h), (fun _ _ h => by cases h), fun _ h => by cases h⟩
  | text hop hlen =>
    obtain ⟨rfl, rfl⟩ := List.cons.inj hcode
    rw [decode_text hop hlen]
    exact ⟨(fun h => by cases h), (fun _ _ h => by cases h), fun _ h => by cases h⟩
  | @enter ret' _ _ _ body l hbody hend' =>
    simp only [List.cons_append, List.append_assoc] at hcode
    obtain ⟨rfl, rfl⟩ := List.cons.inj hcode
    rw [Quiet, numbers_enter] at hquiet
    rw [decode_enter]
    exact ⟨fun _ => ⟨_, _, ret', _, rfl, hbody, hend', (hbody.quiet_append.mp hquiet).1⟩,
      (fun _ _ h => by cases h), fun _ h => by cases h⟩
  | @block ret' arg _ _ _ body l hbody hend' hlen =>
    simp only [List.cons_append, List.append_assoc] at hcode
    obtain ⟨rfl, rfl⟩ := List.cons.inj hcode
    rw [Quiet, numbers_block hlen, numbers_plain rfl] at hquiet
    rw [decode_block hlen]
    exact ⟨(fun h => by cases h), (fun _ _ h => by cases h), fun _ _ =>
      ⟨_, _, ret', _, rfl, hbody, hend', (hbody.quiet_append.mp hquiet).1⟩⟩

/-- **Every state of every run** is sound. -/
theorem reached_sound {code : List Nat} (hcode : Callable strict ids code q) {base : Nat}
    {s : Machine} (hs : Reached code base s) : ∃ q', s.Sound strict ids q' := by
  induction hs with
  | start h => exact ⟨q, hcode.runcode h⟩
  | @step base keyword s t _ h ih =>
    obtain ⟨q', ih⟩ := ih
    exact ⟨q', runs_sound ih (.single ⟨keyword, h⟩)⟩
  | block _ hrest hw h ih =>
    obtain ⟨q', ih⟩ := ih
    obtain ⟨q'', hcall⟩ := (ih.callable hrest).2.2 _ hw
    exact ⟨q'', hcall.runcode h⟩

theorem Entered.callable {code e : List Nat} (he : Entered code e)
    (hcode : Callable strict ids code q) : ∃ q', Callable strict ids e q' := by
  cases he with
  | start => exact ⟨q, hcode⟩
  | enter hs hrest hw =>
    obtain ⟨q', hs⟩ := reached_sound hcode hs
    exact (hs.callable hrest).1 hw
  | keyword hs hrest hw hop =>
    obtain ⟨q', hs⟩ := reached_sound hcode hs
    exact (hs.callable hrest).2.1 _ _ hw hop
  | block hs hrest hw =>
    obtain ⟨q', hs⟩ := reached_sound hcode hs
    exact (hs.callable hrest).2.2 _ hw

end Sound

end Script

end QServ
