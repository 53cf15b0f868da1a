import QServ.Masterserver.State

/-!
# The clients of the master server

What holds of a client and of what is pending for him, and what the operations do to that.

* `Fine`: the offset belongs to the output if there is any, and else to the message; what has been
  sent is made of whole units and a part of what is pending; what is pending ends with the bans that
  are due, or they have been sent.
* `Fine.outputf`, `Fine.take_bans`, `Fine.grow`, `Fine.take_list`: what is pending changes.
* `Fine.advance`, `Fine.finishoutput`, `Fine.finishmessage`: the socket takes bytes.
-/

namespace QServ

namespace Masterserver

abbrev Lists := Owner → List (Pool.Cell (List UInt8))

/-- The text of the message of a client. -/
def text (lists : Lists) (c : Client) : List UInt8 :=
  match c.message with
  | none => []
  | some (o, id) => (Pool.body id (lists o)).getD []

/-- What is pending for a client: his output or, without any, his message. -/
def pending (lists : Lists) (c : Client) : List UInt8 :=
  if c.output ≠ [] then c.output else text lists c

namespace Sending

/-- The bytes of a unit. -/
def bytes : Sending → List UInt8
  | .lines ls => ls.flatten
  | .list _ text => text

/-- The lines of a unit. -/
def outputs : Sending → List (List UInt8)
  | .lines ls => ls
  | .list .. => []

/-- The list of a unit. -/
def messages : Sending → List (Owner × Nat)
  | .lines _ => []
  | .list message _ => [message]

end Sending

/-- A text ends a list that has been sent, or the list that is pending. -/
def Client.Has (lists : Lists) (c : Client) (d : List UInt8) : Prop :=
  match c.message with
  | none => ∃ t, d <:+ t ∧ t <:+: c.track.sent
  | some _ => d <:+ text lists c

/-- What holds of a client. -/
structure Fine (lists : Lists) (c : Client) : Prop where
  zero : c.message = none → c.output = [] → c.outputpos = 0
  progress : c.output = [] → c.outputpos ≤ (text lists c).length ∧
    (text lists c).take c.outputpos <:+ c.track.sent
  reading : c.readable = true → c.writable = false ∧ c.outputpos = 0
  bans : c.shouldpurge = false → ∀ message, c.message = some message → message.1 = .bans
  registered : ∀ d, c.track.due = some d → 0 ≤ c.servport
  due : c.shouldpurge = false → ∀ d, c.track.due = some d → c.Has lists d
  output : c.output = c.track.pending.flatten
  written : c.track.written = c.track.units.flatMap Sending.outputs ++ c.track.pending
  given : c.track.given = c.track.units.flatMap Sending.messages ++ c.message.toList
  offset : c.track.torn = false → c.outputpos ≤ (pending lists c).length
  sent : c.track.torn = false → c.track.sent =
    c.track.units.flatMap Sending.bytes ++ (pending lists c).take c.outputpos

namespace Fine

variable {lists lists' : Lists} {c : Client}

/-- Only the text of the message matters. -/
theorem congr (h : Fine lists c) (htext : text lists' c = text lists c) : Fine lists' c := by
  have hpending : pending lists' c = pending lists c := by
    unfold pending
    rw [htext]
  refine ⟨h.zero, ?_, h.reading, h.bans, h.registered, fun hpurge d hd => ?_, h.output, h.written,
    h.given, ?_, ?_⟩
  · rw [htext]
    exact h.progress
  · have hhas := h.due hpurge d hd
    unfold Client.Has at hhas ⊢
    rwa [htext]
  · rw [hpending]
    exact h.offset
  · rw [hpending]
    exact h.sent

theorem initial (conn host : Nat) (connecttime lastinput : UInt32) :
    Fine lists { conn, host, connecttime, lastinput } where
  zero _ _ := rfl
  progress _ := ⟨Nat.zero_le _, List.nil_suffix⟩
  reading h := nomatch h
  bans _ _ h := nomatch h
  registered _ h := nomatch h
  due _ _ h := nomatch h
  output := rfl
  written := rfl
  given := rfl
  offset _ := Nat.zero_le _
  sent _ := rfl

/-- Fields that nothing depends on. -/
theorem of_eq {c' : Client} (h : Fine lists c) (hmessage : c'.message = c.message)
    (houtput : c'.output = c.output) (hpos : c'.outputpos = c.outputpos)
    (hreading : c'.readable = true → c.readable = true ∧ c'.writable = c.writable)
    (hpurge : c'.shouldpurge = c.shouldpurge) (hport : 0 ≤ c.servport → 0 ≤ c'.servport)
    (htrack : c'.track = c.track) : Fine lists c' := by
  have htext : text lists c' = text lists c := by
    unfold text
    rw [hmessage]
  have hpending : pending lists c' = pending lists c := by
    unfold pending
    rw [houtput, htext]
  refine ⟨?_, ?_, fun hread => ?_, ?_, ?_, fun hp d hd => ?_, ?_, ?_, ?_, ?_, ?_⟩
  · rw [hmessage, houtput, hpos]
    exact h.zero
  · rw [houtput, hpos, htext, htrack]
    exact h.progress
  · obtain ⟨hread, hwrite⟩ := hreading hread
    rw [hwrite, hpos]
    exact h.reading hread
  · rw [hpurge, hmessage]
    exact h.bans
  · rw [htrack]
    exact fun d hd => hport (h.registered d hd)
  · rw [hpurge] at hp
    rw [htrack] at hd
    have hhas := h.due hp d hd
    unfold Client.Has at hhas ⊢
    rwa [hmessage, htext, htrack]
  · rw [houtput, htrack]
    exact h.output
  · rw [htrack]
    exact h.written
  · rw [htrack, hmessage]
    exact h.given
  · rw [htrack, hpos, hpending]
    exact h.offset
  · rw [htrack, hpos, hpending]
    exact h.sent

theorem pending_of_output (h : c.output ≠ []) : pending lists c = c.output := if_pos h

theorem pending_of_nil (h : c.output = []) : pending lists c = text lists c :=
  if_neg (not_not.mpr h)

/-- Unless a list is torn, what was pending up to the offset is not affected by a line. -/
theorem take_outputf (h : Fine lists c) {msg : List UInt8}
    (htorn : (c.outputf msg).track.torn = false) : c.track.torn = false ∧
      c.outputpos ≤ (pending lists (c.outputf msg)).length ∧
      (pending lists (c.outputf msg)).take c.outputpos = (pending lists c).take c.outputpos := by
  obtain ⟨htorn, hpart⟩ := Bool.or_eq_false_iff.mp htorn
  have hpart := of_decide_eq_false hpart
  have hoffset := h.offset htorn
  refine ⟨htorn, ?_⟩
  by_cases hout : c.output = []
  · by_cases hpos : c.outputpos = 0
    · rw [hpos]
      exact ⟨Nat.zero_le _, rfl⟩
    · -- a list is partly sent, so the line is empty
      have hmsg : msg = [] := by
        by_contra hmsg
        refine hpart ⟨?_, hout, hpos, hmsg⟩
        rw [Option.isSome_iff_ne_none]
        exact fun hnone => hpos (h.zero hnone hout)
      have hsame : pending lists (c.outputf msg) = pending lists c := by
        rw [pending_of_nil hout, pending_of_nil (by simp [Client.outputf, hout, hmsg])]
        rfl
      rw [hsame]
      exact ⟨hoffset, rfl⟩
  · have hnew : pending lists (c.outputf msg) = c.output ++ msg :=
      pending_of_output (by simp [Client.outputf, hout])
    rw [pending_of_output hout] at hoffset ⊢
    rw [hnew, List.length_append, List.take_append_of_le_length hoffset]
    exact ⟨Nat.le_add_right_of_le hoffset, rfl⟩

/-- **A line is output.** -/
theorem outputf (h : Fine lists c) (msg : List UInt8) : Fine lists (c.outputf msg) where
  zero hmessage hout := h.zero hmessage (List.append_eq_nil_iff.mp hout).1
  progress hout := h.progress (List.append_eq_nil_iff.mp hout).1
  reading := h.reading
  bans := h.bans
  registered := h.registered
  due := h.due
  output := by
    change c.output ++ msg = (c.track.pending ++ [msg]).flatten
    rw [h.output]
    simp
  written := by
    change c.track.written ++ [msg] = _
    rw [h.written, List.append_assoc]
    rfl
  given := h.given
  offset htorn := (h.take_outputf htorn).2.1
  sent htorn := by
    obtain ⟨htorn', -, htake⟩ := h.take_outputf htorn
    change c.track.sent = _ ++ (pending lists (c.outputf msg)).take c.outputpos
    rw [htake]
    exact h.sent htorn'

theorem outputs (h : Fine lists c) (msgs : List (List UInt8)) :
    Fine lists (msgs.foldl Client.outputf c) := by
  induction msgs generalizing c with
  | nil => exact h
  | cons msg msgs ih => exact ih (h.outputf msg)

theorem select (h : Fine lists c) : Fine lists c.select := by
  refine ⟨h.zero, h.progress, fun hread => ?_, h.bans, h.registered, h.due, h.output, h.written,
    h.given, h.offset, h.sent⟩
  have hwritable : c.select.writable = false := by simpa [Client.select] using hread
  obtain ⟨hmessage, hout⟩ := Bool.or_eq_false_iff.mp hwritable
  exact ⟨hwritable, h.zero (Option.not_isSome_iff_eq_none.mp (by simp [hmessage]))
    (not_not.mp (of_decide_eq_false hout))⟩

/-- **A list of bans** for a client without a message. -/
theorem take_bans (h : Fine lists c) (hnone : c.message = none) {id : Nat} {t : List UInt8}
    (ht : Pool.body id (lists .bans) = some t) (hport : 0 ≤ c.servport) :
    Fine lists ((c.take (.bans, id)).distribute t) := by
  have htext : text lists ((c.take (.bans, id)).distribute t) = t := by
    simp [text, Client.take, Client.distribute, ht]
  have hpos : c.output = [] → c.outputpos = 0 := h.zero hnone
  have htake : (pending lists ((c.take (.bans, id)).distribute t)).take c.outputpos =
      (pending lists c).take c.outputpos := by
    by_cases hout : c.output = []
    · rw [hpos hout]
      rfl
    · rw [pending_of_output hout, pending_of_output (c := (c.take (.bans, id)).distribute t) hout]
      rfl
  refine ⟨nofun, fun hout => ?_, h.reading, fun _ message hmessage => ?_, fun _ _ => hport,
    fun _ d hd => ?_, h.output, h.written, ?_, fun htorn => ?_, fun htorn => ?_⟩
  · rw [show ((c.take (.bans, id)).distribute t).outputpos = 0 from hpos hout]
    exact ⟨Nat.zero_le _, List.nil_suffix⟩
  · cases hmessage
    rfl
  · cases hd
    exact htext ▸ List.suffix_refl t
  · change c.track.given ++ [(.bans, id)] = _
    rw [h.given, hnone]
    simp [Client.take, Client.distribute]
  · by_cases hout : c.output = []
    · rw [show ((c.take (.bans, id)).distribute t).outputpos = 0 from hpos hout]
      exact Nat.zero_le _
    · have hoffset := h.offset htorn
      rw [pending_of_output hout] at hoffset
      rw [pending_of_output (c := (c.take (.bans, id)).distribute t) hout]
      exact hoffset
  · change c.track.sent = _ ++ (pending lists ((c.take (.bans, id)).distribute t)).take c.outputpos
    rw [htake]
    exact h.sent htorn

/-- The text of the message grows, and other bans are due. -/
theorem grow (h : Fine lists c) {l : List UInt8} (htext : text lists' c = text lists c ++ l)
    (due : Option (List UInt8)) (hport : ∀ d, due = some d → 0 ≤ c.servport)
    (hdue : c.shouldpurge = false → ∀ d, due = some d → c.Has lists' d) :
    Fine lists' { c with track := { c.track with due } } := by
  have htake : c.output = [] → (text lists' c).take c.outputpos = (text lists c).take c.outputpos :=
    fun hout => by rw [htext, List.take_append_of_le_length (h.progress hout).1]
  have hsame : c.output ≠ [] → pending lists' c = pending lists c := fun hout => by
    rw [pending_of_output hout, pending_of_output hout]
  refine ⟨h.zero, fun hout => ?_, h.reading, h.bans, hport, hdue, h.output, h.written, h.given,
    fun htorn => ?_, fun htorn => ?_⟩
  · change c.outputpos ≤ (text lists' c).length ∧ (text lists' c).take c.outputpos <:+ _
    rw [htake hout, htext, List.length_append]
    exact ⟨Nat.le_add_right_of_le (h.progress hout).1, (h.progress hout).2⟩
  · change c.outputpos ≤ (pending lists' c).length
    by_cases hout : c.output = []
    · rw [pending_of_nil hout, htext, List.length_append]
      exact Nat.le_add_right_of_le (h.progress hout).1
    · rw [hsame hout]
      exact h.offset htorn
  · change _ = _ ++ (pending lists' c).take c.outputpos
    by_cases hout : c.output = []
    · rw [pending_of_nil hout, htake hout, ← pending_of_nil hout]
      exact h.sent htorn
    · rw [hsame hout]
      exact h.sent htorn

/-- **The list of servers** for a client who has nothing pending; his output is thrown away. -/
theorem take_list (h : Fine lists c) (hnone : c.message = none) (hpos : c.outputpos = 0)
    (id : Nat) : Fine lists (c.take (.servers, id)).discard where
  zero := nofun
  progress _ := ⟨Nat.zero_le _, List.nil_suffix⟩
  reading hread := ⟨(h.reading hread).1, rfl⟩
  bans hpurge := nomatch hpurge
  registered := h.registered
  due hpurge := nomatch hpurge
  output := rfl
  written := by
    change c.track.written.take (c.track.written.length - c.track.pending.length) = _
    rw [h.written, List.length_append, Nat.add_sub_cancel, List.take_left]
    exact (List.append_nil _).symm
  given := by
    change c.track.given ++ [(.servers, id)] = _
    rw [h.given, hnone]
    simp [Client.take, Client.discard]
  offset _ := Nat.zero_le _
  sent htorn := by
    have hsent := h.sent htorn
    rw [hpos, List.take_zero] at hsent
    exact hsent

/-- What the socket takes of a text, from an offset within it. -/
theorem take_add_drop (t : List UInt8) (pos res : Nat) :
    t.take (pos + ((t.drop pos).take res).length) = t.take pos ++ (t.drop pos).take res := by
  rw [List.take_add, List.length_take, ← List.take_eq_take_min]

theorem length_take_drop (t : List UInt8) {pos : Nat} (res : Nat) (h : pos ≤ t.length) :
    pos + ((t.drop pos).take res).length ≤ t.length := by
  rw [List.length_take, List.length_drop]
  omega

/-- **The socket takes some bytes.** -/
theorem advance (h : Fine lists c) (hwritable : c.writable = true)
    (hany : c.message ≠ none ∨ c.output ≠ []) (res : Nat) {bytes : List UInt8}
    (hbytes : c.outputpos ≤ (pending lists c).length →
      bytes = ((pending lists c).drop c.outputpos).take res) : Fine lists (c.advance bytes) where
  zero hmessage hout := absurd hany (by simp [show c.message = none from hmessage,
    show c.output = [] from hout])
  progress hout := by
    have hprogress := h.progress hout
    change c.outputpos + bytes.length ≤ (text lists c).length ∧
      (text lists c).take (c.outputpos + bytes.length) <:+ c.track.sent ++ bytes
    rw [pending_of_nil (c := c) hout] at hbytes
    rw [hbytes hprogress.1]
    refine ⟨length_take_drop _ res hprogress.1, ?_⟩
    obtain ⟨before, hbefore⟩ := hprogress.2
    rw [take_add_drop]
    exact ⟨before, by rw [← List.append_assoc, hbefore]⟩
  reading hread := absurd (h.reading hread).1 (by simp [hwritable])
  bans := h.bans
  registered := h.registered
  due hpurge d hd := by
    have hhas := h.due hpurge d hd
    unfold Client.Has at hhas ⊢
    change match c.message with
      | none => ∃ t, d <:+ t ∧ t <:+: c.track.sent ++ bytes
      | some _ => d <:+ text lists c
    split
    · next hnone =>
      rw [hnone] at hhas
      obtain ⟨t, ht, hsent⟩ := hhas
      exact ⟨t, ht, List.infix_append_of_infix_left hsent⟩
    · next hsome =>
      rw [hsome] at hhas
      exact hhas
  output := h.output
  written := h.written
  given := h.given
  offset htorn := by
    have hoffset := h.offset htorn
    change c.outputpos + bytes.length ≤ (pending lists c).length
    rw [hbytes hoffset]
    exact length_take_drop _ res hoffset
  sent htorn := by
    have hoffset := h.offset htorn
    change c.track.sent ++ bytes = _ ++ (pending lists c).take (c.outputpos + bytes.length)
    rw [hbytes hoffset, take_add_drop, ← List.append_assoc]
    exact congrArg (· ++ _) (h.sent htorn)

/-- **The output is sent.** -/
theorem finishoutput (h : Fine lists c) (hout : c.output ≠ []) (hdone : c.output.length ≤ c.outputpos) :
    Fine lists c.finishoutput where
  zero _ _ := rfl
  progress _ := ⟨Nat.zero_le _, List.nil_suffix⟩
  reading hread := ⟨(h.reading hread).1, rfl⟩
  bans := h.bans
  registered := h.registered
  due := h.due
  output := rfl
  written := by
    change c.track.written = (c.track.units ++ [Sending.lines c.track.pending]).flatMap Sending.outputs ++ []
    rw [h.written]
    simp [Sending.outputs]
  given := by
    change c.track.given =
      (c.track.units ++ [Sending.lines c.track.pending]).flatMap Sending.messages ++ c.message.toList
    rw [h.given]
    simp [Sending.messages]
  offset _ := Nat.zero_le _
  sent htorn := by
    have hsent := h.sent htorn
    rw [pending_of_output hout, List.take_of_length_le hdone, h.output] at hsent
    change c.track.sent = (c.track.units ++ [Sending.lines c.track.pending]).flatMap Sending.bytes ++ []
    rw [hsent]
    simp [Sending.bytes]

/-- **The message is sent.** -/
theorem finishmessage (h : Fine lists c) (hout : c.output = []) {message : Owner × Nat}
    (hmessage : c.message = some message) (hdone : (text lists c).length ≤ c.outputpos) :
    Fine lists (c.finishmessage message (text lists c)) where
  zero _ _ := rfl
  progress _ := ⟨Nat.zero_le _, List.nil_suffix⟩
  reading hread := ⟨(h.reading hread).1, rfl⟩
  bans _ message hmessage := nomatch hmessage
  registered := h.registered
  due hpurge d hd := by
    have hhas := h.due hpurge d hd
    unfold Client.Has at hhas
    rw [hmessage] at hhas
    have hsuffix := (h.progress hout).2
    rw [List.take_of_length_le hdone] at hsuffix
    exact ⟨text lists c, hhas, hsuffix.isInfix⟩
  output := h.output
  written := by
    change c.track.written =
      (c.track.units ++ [Sending.list message (text lists c)]).flatMap Sending.outputs ++ c.track.pending
    rw [h.written]
    simp [Sending.outputs]
  given := by
    change c.track.given =
      (c.track.units ++ [Sending.list message (text lists c)]).flatMap Sending.messages ++ []
    rw [h.given, hmessage]
    simp [Sending.messages]
  offset _ := Nat.zero_le _
  sent htorn := by
    have hsent := h.sent htorn
    rw [pending_of_nil hout, List.take_of_length_le hdone] at hsent
    change c.track.sent =
      (c.track.units ++ [Sending.list message (text lists c)]).flatMap Sending.bytes ++ _
    rw [hsent]
    simp [Sending.bytes, Client.finishmessage]

end Fine

end Masterserver

end QServ
