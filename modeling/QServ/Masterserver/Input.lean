import QServ.Engine.Master
import QServ.Lib.Run
import QServ.Server.State
import QServ.Shared.Numerals

/-!
# The input of the master server

`checkclientinput` of `engine/masterserver.cpp`: what a client has sent is in a buffer of
`INPUT_LIMIT` bytes, from which the complete lines are taken one after the other.

* `parse`: the command in a line.
* `Input.checkclientinput_spec`: the lines that one call executes, and what it leaves.
* `Input.input_exact`: while no read fills the buffer to its last byte, the lines that are executed
  are those of the stream.
-/

namespace QServ

namespace Masterserver

open Lines

/-- `INPUT_LIMIT`. -/
def INPUT_LIMIT : Nat := 4096

/-! ## Commands -/

/-- What `checkclientinput` does with a line. -/
inductive Command where
  | list
  | regserv (port : Int)
  | reqauth (id : Nat) (user : List UInt8)
  | confauth (id : Nat) (val : List UInt8)
  | nothing
deriving DecidableEq, Repr

/-- A sign, the number behind it and the rest. -/
def scannumber (s : List UInt8) : Option (Bool × Nat × List UInt8) :=
  let t := s.dropWhile isspace
  let negative := decide (t.head? = some 45)
  let t := if negative ∨ t.head? = some 43 then t.tail else t
  let digits := t.takeWhile isnumeral
  if digits = [] then none else some (negative, numeral digits, t.drop digits.length)

/-- `%d`. -/
def scanint (s : List UInt8) : Option (Int × List UInt8) :=
  (scannumber s).map fun (negative, n, rest) =>
    (int32 (if negative then -(min n (2 ^ 63) : Nat) else (min n (2 ^ 63 - 1) : Nat)), rest)

/-- `%u`. -/
def scanuint (s : List UInt8) : Option (Nat × List UInt8) :=
  (scannumber s).map fun (negative, n, rest) =>
    ((if 2 ^ 64 ≤ n then 2 ^ 64 - 1 else if negative then 2 ^ 64 - n else n) % 2 ^ 32, rest)

/-- `%100s`. -/
def scanword (s : List UInt8) : Option (List UInt8) :=
  let w := ((s.dropWhile isspace).takeWhile fun c => !isspace c).take 100
  if w = [] then none else some w

/-- What follows a word at the beginning. -/
def after (w s : List UInt8) : Option (List UInt8) :=
  if s.take w.length = w then some (s.drop w.length) else none

/-- The two arguments of a command about a challenge. -/
def scanauth (s : List UInt8) : Option (Nat × List UInt8) := do
  let (id, rest) ← scanuint s
  let w ← scanword rest
  return (id, w)

/-- The command in a line. -/
def parse (line : List UInt8) : Command :=
  let line := cstr line
  if line.take 4 = word "list" ∧ (line.drop 4 = [] ∨ (line.drop 4).head? = some 13) then .list
  else
    match (after (word "regserv") line).bind scanint with
    | some (port, _) => .regserv port
    | none =>
      match (after (word "reqauth") line).bind scanauth with
      | some (id, user) => .reqauth id user
      | none =>
        match (after (word "confauth") line).bind scanauth with
        | some (id, val) => .confauth id val
        | none => .nothing

/-! ## The buffer -/

/-- Why nothing more is read from a client: he is dropped because of a line that does not fit, or a
command has ended the connection or is the last one. -/
inductive Ending where
  | full
  | command
deriving DecidableEq, Repr

/-- A client with the first `inputpos` bytes of his buffer; `world` is what the commands change.  The
lines that have been executed are no variable of the source. -/
structure Input (W : Type) where
  world : W
  input : List UInt8 := []
  executed : List (List UInt8) := []
  ended : Option Ending := none

namespace Input

variable {W : Type} (exec : W → Command → W × Bool) (c : Input W)

/-- The loop of `checkclientinput`, for at most as many lines; a command says whether it is the last
one, as `list` and a refused `regserv` are. -/
def checkclientinput : Nat → Input W → Input W
  | 0, c => c
  | n + 1, c =>
    match c.input.findIdx? (· = newline) with
    | none => if c.input.length < INPUT_LIMIT then c else { c with ended := some .full }
    | some i =>
      let line := c.input.take i
      let (world, last) := exec c.world (parse line)
      let c := { c with world, executed := c.executed ++ [line] }
      if last then { c with ended := some .command }
      else checkclientinput n { c with input := c.input.drop (i + 1) }

/-- `c.input[min(c.inputpos, INPUT_LIMIT-1)] = '\0'`: behind the input, or in its last byte. -/
def terminate (input : List UInt8) : List UInt8 := input.set (INPUT_LIMIT - 1) 0

/-- Bytes are received. -/
def receive (data : List UInt8) : Input W :=
  let c := { c with input := terminate (c.input ++ data) }
  checkclientinput exec (c.input.length + 1) c

/-- What happens to a client: he is read from, or something else happens. -/
inductive Event (W : Type) where
  | receive (data : List UInt8)
  | other (world : W)

/-- One event. -/
def step (c : Input W) : Event W → Except Fault (Input W)
  | .receive data => .ok (c.receive exec data)
  | .other world => .ok { c with world }

/-- The bytes that have been received. -/
def stream : List (Event W) → List UInt8
  | [] => []
  | .receive data :: es => data ++ stream es
  | .other _ :: es => stream es

/-- The socket gives some bytes, no more than there is room for. -/
def Fits (data : List UInt8) : Prop :=
  c.ended = none ∧ data ≠ [] ∧ c.input.length + data.length ≤ INPUT_LIMIT

/-- The buffer is not filled, or its last byte is a zero, or there is no end of a line in it. -/
def Clean (data : List UInt8) : Prop :=
  c.input.length + data.length < INPUT_LIMIT ∨ data.getLast? = some 0 ∨
    newline ∉ c.input ++ data

/-- The condition for an event. -/
def Ok (c : Input W) : Event W → Prop
  | .receive data => c.Fits data ∧ c.Clean data
  | .other _ => True

/-- What a client and the bytes received from him have in common: the lines that have been executed
are those of the stream, and its unfinished line is in the buffer. -/
def Intact (bytes : List UInt8) : Prop :=
  match c.ended with
  | none => c.executed = (lines newline bytes).1 ∧ c.input = (lines newline bytes).2
  | some .full => c.executed = (lines newline bytes).1 ∧
      INPUT_LIMIT ≤ (lines newline bytes).2.length
  | some .command => c.executed <+: (lines newline bytes).1

/-! ## One read -/

variable {exec} {c}

theorem findIdx_newline {l : List UInt8} {i : Nat} (h : l.findIdx? (· = newline) = some i) :
    newline ∉ l.take i ∧ l = l.take i ++ newline :: l.drop (i + 1) := by
  obtain ⟨hi, heq, hno⟩ := List.findIdx?_eq_some_iff_getElem.mp h
  refine ⟨fun hmem => ?_, ?_⟩
  · obtain ⟨j, hj, hget⟩ := List.getElem_of_mem hmem
    rw [List.length_take] at hj
    rw [List.getElem_take] at hget
    have := hno j (by omega)
    simp [hget] at this
  · have hnl : l[i] = newline := by simpa using heq
    rw [← hnl, ← List.drop_eq_getElem_cons hi, List.take_append_drop]

/-- What a call with some input leaves. -/
def Leaves (c c' : Input W) : Prop :=
  match c'.ended with
  | none => c'.executed = c.executed ++ (lines newline c.input).1 ∧
      c'.input = (lines newline c.input).2 ∧ (lines newline c.input).2.length < INPUT_LIMIT
  | some .full => c'.executed = c.executed ++ (lines newline c.input).1 ∧
      INPUT_LIMIT ≤ (lines newline c.input).2.length
  | some .command => ∃ l, c'.executed = c.executed ++ l ∧ l <+: (lines newline c.input).1

/-- The first line has been executed. -/
theorem Leaves.cons {d c' : Input W} {l : List UInt8} (h : Leaves d c')
    (hexecuted : d.executed = c.executed ++ [l])
    (hlines : lines newline c.input = (l :: (lines newline d.input).1, (lines newline d.input).2)) :
    Leaves c c' := by
  unfold Leaves at h ⊢
  rw [hlines]
  split
  · next hnone =>
    rw [hnone] at h
    simpa [hexecuted] using h
  · next hfull =>
    rw [hfull] at h
    simpa [hexecuted] using h
  · next hcommand =>
    rw [hcommand] at h
    obtain ⟨ls, hls, hpre⟩ := h
    refine ⟨l :: ls, ?_, List.cons_prefix_cons.mpr ⟨rfl, hpre⟩⟩
    rw [hls, hexecuted, List.append_assoc, List.singleton_append]

/-- **The lines that one call executes**: all of them, and the unfinished one is left, if it fits; or
those up to one that is the last. -/
theorem checkclientinput_spec (n : Nat) (c : Input W) (hended : c.ended = none)
    (hn : c.input.length < n) : Leaves c (checkclientinput exec n c) := by
  induction n generalizing c with
  | zero => exact absurd hn (Nat.not_lt_zero _)
  | succ n ih =>
    unfold checkclientinput
    cases hfind : c.input.findIdx? (· = newline) with
    | none =>
      have hno : newline ∉ c.input := by
        intro hmem
        have := List.findIdx?_eq_none_iff.mp hfind newline hmem
        simp at this
      have hlines := lines_of_not_mem hno
      dsimp only
      by_cases hlt : c.input.length < INPUT_LIMIT
      · rw [if_pos hlt]
        unfold Leaves
        rw [hended, hlines]
        exact ⟨by simp, rfl, hlt⟩
      · rw [if_neg hlt]
        unfold Leaves
        rw [hlines]
        exact ⟨by simp, not_lt.mp hlt⟩
    | some i =>
      obtain ⟨hno, hsplit⟩ := findIdx_newline hfind
      have hlines : lines newline c.input =
          (c.input.take i :: (lines newline (c.input.drop (i + 1))).1,
            (lines newline (c.input.drop (i + 1))).2) := by
        conv_lhs => rw [hsplit]
        exact lines_line hno
      have hi : i < c.input.length := (List.findIdx?_eq_some_iff_getElem.mp hfind).1
      dsimp only
      by_cases hlast : (exec c.world (parse (c.input.take i))).2 = true
      · rw [if_pos hlast]
        unfold Leaves
        rw [hlines]
        exact ⟨[c.input.take i], rfl, by simp⟩
      · rw [if_neg hlast]
        have hrest := ih { c with
          world := (exec c.world (parse (c.input.take i))).1
          executed := c.executed ++ [c.input.take i]
          input := c.input.drop (i + 1) } hended (by simp only [List.length_drop]; omega)
        exact hrest.cons rfl hlines

/-! ## Runs -/

theorem terminate_of_lt {l : List UInt8} (h : l.length < INPUT_LIMIT) : terminate l = l :=
  List.set_eq_of_length_le (by unfold INPUT_LIMIT at h ⊢; omega)

/-- In a full buffer the last byte is lost. -/
theorem terminate_full {l : List UInt8} {b : UInt8} (h : (l ++ [b]).length = INPUT_LIMIT) :
    terminate (l ++ [b]) = l ++ [0] := by
  have hl : l.length = INPUT_LIMIT - 1 := by
    rw [List.length_append, List.length_singleton] at h
    omega
  unfold terminate
  rw [← hl, List.set_append_right _ _ (le_refl _)]
  simp

theorem length_terminate (l : List UInt8) : (terminate l).length = l.length := by
  simp [terminate]

theorem receive_spec (exec : W → Command → W × Bool) (hended : c.ended = none)
    (data : List UInt8) :
    Leaves { c with input := terminate (c.input ++ data) } (c.receive exec data) :=
  checkclientinput_spec _ _ hended (Nat.lt_succ_self _)

/-- A full buffer. -/
theorem exists_concat {data : List UInt8} (hfits : c.Fits data)
    (hfull : ¬ c.input.length + data.length < INPUT_LIMIT) :
    ∃ l b, c.input ++ data = l ++ [b] ∧ data.getLast? = some b ∧
      (l ++ [b]).length = INPUT_LIMIT := by
  obtain ⟨-, hne, hroom⟩ := hfits
  obtain rfl | ⟨init, b, heq⟩ := data.eq_nil_or_concat
  · exact absurd rfl hne
  · rw [List.concat_eq_append] at heq
    subst heq
    refine ⟨c.input ++ init, b, (List.append_assoc _ _ _).symm, List.getLast?_concat, ?_⟩
    simp only [List.length_append, List.length_singleton] at hfull hroom ⊢
    omega

/-- **One read** of clean data. -/
theorem Intact.receive {bytes data : List UInt8} (h : c.Intact bytes) (hfits : c.Fits data)
    (hclean : c.Clean data) : (c.receive exec data).Intact (bytes ++ data) := by
  have hleaves := receive_spec exec hfits.1 data
  unfold Intact at h
  rw [hfits.1] at h
  obtain ⟨hexecuted, hinput⟩ := h
  have hstream := @lines_append _ _ newline bytes data
  rw [← hexecuted, ← hinput] at hstream
  by_cases hkeep : terminate (c.input ++ data) = c.input ++ data
  · rw [hkeep] at hleaves
    unfold Leaves at hleaves
    unfold Intact
    rw [hstream]
    split
    · next hnone =>
      rw [hnone] at hleaves
      exact ⟨hleaves.1, hleaves.2.1⟩
    · next hfull =>
      rw [hfull] at hleaves
      exact hleaves
    · next hcommand =>
      rw [hcommand] at hleaves
      obtain ⟨l, hl, hpre⟩ := hleaves
      rw [hl]
      exact (List.prefix_append_right_inj _).mpr hpre
  · -- the last byte is lost, and the line does not fit anyway
    have hfull : ¬ c.input.length + data.length < INPUT_LIMIT := fun hlt =>
      hkeep (terminate_of_lt (by simpa using hlt))
    obtain ⟨l, b, heq, hlast, hlength⟩ := exists_concat hfits hfull
    have hno : newline ∉ c.input ++ data := by
      obtain hlt | hzero | hno := hclean
      · exact absurd hlt hfull
      · rw [hlast] at hzero
        cases hzero
        rw [heq, terminate_full hlength] at hkeep
        exact absurd rfl hkeep
      · exact hno
    rw [heq, terminate_full hlength] at hleaves
    rw [heq] at hno hstream
    have hno' : newline ∉ l ++ [0] := by
      have hl : newline ∉ l := fun hmem => hno (List.mem_append_left _ hmem)
      simpa [hl] using (by decide : newline ≠ 0)
    rw [lines_of_not_mem hno] at hstream
    unfold Leaves at hleaves
    simp only [lines_of_not_mem hno', List.append_nil] at hleaves
    unfold Intact
    rw [hstream]
    simp only [List.append_nil]
    have hlength' : (l ++ [0]).length = INPUT_LIMIT := by
      simpa using hlength
    split
    · next hnone =>
      rw [hnone] at hleaves
      omega
    · next hfull =>
      rw [hfull] at hleaves
      exact ⟨hleaves.1, le_of_eq hlength.symm⟩
    · next hcommand =>
      rw [hcommand] at hleaves
      obtain ⟨ls, hls, hpre⟩ := hleaves
      rw [hls, List.prefix_nil.mp hpre]
      simp

/-- **A read that is not clean** loses a byte, unless a command ends the input before it. -/
theorem Intact.clean {bytes data : List UInt8} (h : c.Intact bytes) (hfits : c.Fits data)
    (hgoes : (c.receive exec data).ended ≠ some .command)
    (h' : (c.receive exec data).Intact (bytes ++ data)) : c.Clean data := by
  by_contra hclean
  obtain ⟨hfull, hlast0, hmem⟩ : ¬ c.input.length + data.length < INPUT_LIMIT ∧
      data.getLast? ≠ some 0 ∧ newline ∈ c.input ++ data := by
    unfold Clean at hclean
    push Not at hclean
    exact ⟨not_lt.mpr hclean.1, hclean.2⟩
  obtain ⟨l, b, heq, hlast, hlength⟩ := exists_concat hfits hfull
  have hb : b ≠ 0 := fun hb => hlast0 (by rw [hlast, hb])
  have hleaves := receive_spec exec hfits.1 data
  unfold Intact at h
  rw [hfits.1] at h
  obtain ⟨hexecuted, hinput⟩ := h
  have hstream := @lines_append _ _ newline bytes data
  rw [← hexecuted, ← hinput, heq, lines_concat] at hstream
  have hzero : ¬ (0 : UInt8) = newline := by decide
  rw [heq, terminate_full hlength] at hleaves
  unfold Leaves at hleaves
  simp only [lines_concat, if_neg hzero] at hleaves
  unfold Intact at h'
  rw [hstream] at h'
  have hexecuted' : (c.receive exec data).executed = c.executed ++ (lines newline l).1 := by
    split at hleaves
    · exact hleaves.1
    · exact hleaves.1
    · next hcommand => exact absurd hcommand hgoes
  by_cases hnl : b = newline
  · -- the line that ends there is not executed
    rw [if_pos hnl] at h'
    have hboth : (c.receive exec data).executed =
        c.executed ++ ((lines newline l).1 ++ [(lines newline l).2]) := by
      split at h'
      · exact h'.1
      · exact h'.1
      · next hcommand => exact absurd hcommand hgoes
    rw [hexecuted'] at hboth
    have := congrArg List.length hboth
    simp at this
  · rw [if_neg hnl] at h'
    rw [heq] at hmem
    have hl : newline ∈ l := by
      obtain hl | hl := List.mem_append.mp hmem
      · exact hl
      · exact absurd (List.mem_singleton.mp hl).symm hnl
    have hshort := length_lines_lt hl
    rw [List.length_append, List.length_singleton] at hlength
    split at h'
    · next hnone =>
      rw [hnone] at hleaves
      have hsame := hleaves.2.1.symm.trans h'.2
      exact hb (List.singleton_inj.mp (List.append_cancel_left hsame)).symm
    · have hle := h'.2
      rw [List.length_append, List.length_singleton] at hle
      omega
    · next hcommand => exact absurd hcommand hgoes

theorem stream_append (es es' : List (Event W)) : stream (es ++ es') = stream es ++ stream es' := by
  induction es with
  | nil => rfl
  | cons e es ih =>
    cases e with
    | receive data => simp [stream, ih]
    | other world => simpa [stream] using ih

/-- **The input**: in every run whose reads are clean the lines that are executed are those of the
bytes received, whatever the reads they came in: all of them, with the unfinished line in the
buffer; or up to a command that ends the input; or the client is dropped, because the unfinished
line does not fit.  The next read keeps this up exactly if it is clean, unless a command ends the
input before the byte that is lost. -/
theorem input_exact {world : W} {es : List (Event W)}
    (hrun : Run.Steps (step exec) Ok { world } es c) : c.Intact (stream es) ∧
      ∀ data, c.Fits data → (c.receive exec data).ended ≠ some .command →
        ((c.receive exec data).Intact (stream es ++ data) ↔ c.Clean data) := by
  have hintact : c.Intact (stream es) := by
    refine hrun.history (fun es c => c.Intact (stream es)) ?_ [] ⟨rfl, rfl⟩
    intro es c e c' hc hok hstep
    rw [stream_append]
    cases e with
    | receive data =>
      cases hstep
      simpa [stream] using hc.receive hok.1 hok.2
    | other world =>
      cases hstep
      rw [stream, stream, List.append_nil]
      exact hc
  exact ⟨hintact, fun data hfits hgoes =>
    ⟨hintact.clean hfits hgoes, hintact.receive hfits⟩⟩

/-- A world that remembers the commands; `list` is the last one. -/
def remember (done : List Command) (command : Command) : List Command × Bool :=
  (done ++ [command], decide (command = .list))

instance (c : Input W) (e : Event W) : Decidable (Ok c e) := by
  cases e <;> unfold Ok
  · unfold Fits Clean
    infer_instance
  · infer_instance

/-- A confirmation whose line comes in two reads. -/
theorem input_exact_two : ∃ c : Input (List Command),
    c.Intact (word "reqauth 1 bob\nconfauth 1 +5f\nlist") ∧ c.world =
      [.reqauth 1 (word "bob"), .confauth 1 (word "+5f")] := by
  obtain ⟨c, hrun, hworld⟩ := Run.Steps.of_execIf (step remember) Ok { world := [] }
    [.receive (word "reqauth 1 bob\nconfau"), .receive (word "th 1 +5f\nlist")]
    (p := fun c => c.world = [.reqauth 1 (word "bob"), .confauth 1 (word "+5f")])
    (by decide +kernel)
  have hintact := (input_exact hrun).1
  have hbytes : stream ([.receive (word "reqauth 1 bob\nconfau"),
      .receive (word "th 1 +5f\nlist")] : List (Event (List Command))) =
        word "reqauth 1 bob\nconfauth 1 +5f\nlist" := by decide +kernel
  exact ⟨c, hbytes ▸ hintact, hworld⟩

/-- Two lines of 2047 characters fill the buffer: read at once, the second is not executed. -/
theorem line_lost : ∃ line : List UInt8, line.length < INPUT_LIMIT ∧ newline ∉ line ∧
    (({ world := [] } : Input (List Command)).receive remember
      (line ++ newline :: (line ++ [newline]))).executed = [line] ∧
    ((({ world := [] } : Input (List Command)).receive remember (line ++ [newline])).receive
      remember (line ++ [newline])).executed = [line, line] :=
  ⟨List.replicate 2047 97, by decide +kernel⟩

end Input

end Masterserver

end QServ
