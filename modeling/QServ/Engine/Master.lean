import QServ.Game.Text
import QServ.Lib.Lines

/-!
# The link to the master server

The two buffers of `engine/server.cpp` between the server and the master server: what arrives is
cut into lines at a moving offset, what is requested waits until the socket takes it.

* `Master.next`: the operations, with what the socket did as part of the event.
* `processmasterinput_spec`: the lines that one call handles and what it leaves.
* `master_stream`: over a whole run the lines handled are those of the stream that was received,
  and the bytes sent are those of the requests that were accepted.
-/

namespace QServ

open Lines

/-- `'\n'`. -/
def newline : UInt8 := 10

/-- The characters of a line up to the first zero. -/
def cstr (text : List UInt8) : List UInt8 := text.takeWhile (· ≠ 0)

/-- What `processmasterinput` does with a line. -/
inductive MasterLine
  | failreg (args : List UInt8)
  | succreg
  | game (cmd : List UInt8) (cmdlen : Nat) (args : List UInt8)
deriving DecidableEq, Repr

/-- The command word of a line and what follows the blanks behind it. -/
def dispatchline (line : List UInt8) : MasterLine :=
  let space (c : UInt8) := iscubespace (Char.ofNat c.toNat)
  let cmdlen := (line.takeWhile fun c => !space c).length
  let args := (line.drop cmdlen).dropWhile space
  let word (s : String) := s.toList.map fun c => UInt8.ofNat c.toNat
  if line.take cmdlen = word "failreg" then .failreg (cstr args)
  else if line.take cmdlen = word "succreg" then .succreg
  else .game (cstr line) cmdlen (cstr args)

/-- The link.  The last four fields belong to no variable of the source: the lines handled and the
bytes received on this connection, the bytes sent on it and the requests accepted for it. -/
structure Master where
  mastersock : Bool := false
  masterconnected : Bool := false
  masterin : List UInt8 := []
  masterinpos : Nat := 0
  masterout : List UInt8 := []
  masteroutpos : Nat := 0
  handled : List MasterLine := []
  received : List UInt8 := []
  sent : List UInt8 := []
  accepted : List (List UInt8) := []
deriving DecidableEq, Repr

namespace Master

/-- `disconnectmaster()`: the next connection starts afresh. -/
def disconnectmaster (_ : Master) : Master := {}

/-- The rest of `requestmaster(req)` once there is a socket. -/
def putrequest (s : Master) (req : List UInt8) : Master :=
  if 4096 ≤ s.masterout.length then s
  else { s with masterout := s.masterout ++ req, accepted := s.accepted ++ [req] }

/-- `requestmaster(req)`; `connects` says whether `connectmaster` finds a socket. -/
def requestmaster (s : Master) (req : List UInt8) (connects : Bool) : Master :=
  if s.mastersock then s.putrequest req
  else if connects then { s with mastersock := true }.putrequest req
  else s

/-- `memchr(input, '\n', masterin.length() - masterinpos)`. -/
def lineend (s : Master) : Option Nat :=
  ((s.masterin.drop s.masterinpos).findIdx? (· = newline)).map (s.masterinpos + ·)

/-- The body of the loop of `processmasterinput` for the line that ends there: the zero in place of
the newline, the handler with the requests it makes (none of the handlers disconnects the master),
and the offset behind the line. -/
def handleline (s : Master) (lineend : Nat) (requests : List (List UInt8)) : Master :=
  let line := (s.masterin.drop s.masterinpos).take (lineend - s.masterinpos)
  let s := { s with masterin := s.masterin.set lineend 0, handled := s.handled ++ [dispatchline line] }
  let s := requests.foldl putrequest s
  { s with masterinpos := lineend + 1 }

/-- The loop of `processmasterinput`, for at most as many lines; `requests` are those that the
handlers of this call make, line by line. -/
def handlelines (requests : Nat → List (List UInt8)) : Nat → Nat → Master → Master
  | 0, _, s => s
  | n + 1, k, s =>
    match s.lineend with
    | none => s
    | some e => handlelines requests n (k + 1) (s.handleline e (requests k))

/-- `processmasterinput()`. -/
def processmasterinput (s : Master) (requests : Nat → List (List UInt8)) : Master :=
  if s.masterin.length ≤ s.masterinpos then s
  else
    let s := handlelines requests s.masterin.length 0 s
    if s.masterin.length ≤ s.masterinpos then { s with masterin := [], masterinpos := 0 } else s

/-- `masterin.advance(recv)`: the bytes read into the buffer. -/
def advance (s : Master) (bytes : List UInt8) : Master :=
  { s with masterin := s.masterin ++ bytes, received := s.received ++ bytes }

/-- `flushmasterinput()`: the bytes the socket gave, none when it is closed. -/
def flushmasterinput (s : Master) (bytes : List UInt8) (requests : Nat → List (List UInt8)) :
    Master :=
  if bytes = [] then s.disconnectmaster else (s.advance bytes).processmasterinput requests

/-- `flushmasteroutput()`: how many bytes the socket takes, if it is not in error. -/
def flushmasteroutput (s : Master) (takes : Option Nat) : Master :=
  if s.masterout = [] ∨ !s.masterconnected then s
  else
    match takes with
    | none => s.disconnectmaster
    | some n =>
      let sent := (s.masterout.drop s.masteroutpos).take n
      let s := { s with sent := s.sent ++ sent, masteroutpos := s.masteroutpos + sent.length }
      if s.masterout.length ≤ s.masteroutpos then { s with masterout := [], masteroutpos := 0 }
      else s

/-- What happens to the link. -/
inductive Event
  /-- `requestmaster` is called. -/
  | request (req : List UInt8) (connects : Bool)
  /-- The connection is there, or the attempt failed. -/
  | connected (error : Bool)
  /-- The socket is ready for reading. -/
  | input (bytes : List UInt8) (requests : Nat → List (List UInt8))
  /-- The buffer is flushed. -/
  | output (takes : Option Nat)
  /-- No connection for a minute, or another master server. -/
  | disconnect

/-- One event. -/
def next (s : Master) : Event → Master
  | .request req connects => s.requestmaster req connects
  | .connected error =>
    if !s.mastersock || s.masterconnected then s
    else if error then s.disconnectmaster
    else { s with masterconnected := true }
  | .input bytes requests =>
    if s.mastersock && s.masterconnected then s.flushmasterinput bytes requests else s
  | .output takes => s.flushmasteroutput takes
  | .disconnect => s.disconnectmaster

/-- A run from the start of the server. -/
def run (es : List Event) : Master := es.foldl next {}

/-- A connection on which these bytes arrived in one read. -/
def unsplit (bytes : List UInt8) : Master :=
  Master.flushmasterinput { mastersock := true, masterconnected := true } bytes fun _ => []

/-! ## Output -/

/-- What was sent and what waits are the accepted requests. -/
structure Out (s : Master) : Prop where
  pos : s.masteroutpos ≤ s.masterout.length
  bytes : s.sent ++ s.masterout.drop s.masteroutpos = s.accepted.flatten

theorem Out.putrequest {s : Master} (h : s.Out) (req : List UInt8) : (s.putrequest req).Out := by
  unfold Master.putrequest
  split
  · exact h
  · have hpos := h.pos
    refine ⟨by simp; omega, ?_⟩
    simp only [List.drop_append_of_le_length hpos, List.flatten_append, List.flatten_singleton,
      ← List.append_assoc, h.bytes]

theorem Out.requests {s : Master} (h : s.Out) (reqs : List (List UInt8)) :
    (reqs.foldl Master.putrequest s).Out := by
  induction reqs generalizing s with
  | nil => exact h
  | cons req reqs ih => exact ih (h.putrequest req)

/-- What is behind the bytes taken is behind as many as were asked for. -/
theorem drop_length_take (bytes : List UInt8) (n : Nat) :
    bytes.drop (bytes.take n).length = bytes.drop n := by
  rw [List.length_take]
  obtain h | h := Nat.le_total n bytes.length
  · rw [Nat.min_eq_left h]
  · rw [Nat.min_eq_right h, List.drop_length, List.drop_eq_nil_of_le h]

/-- A partial send takes the next bytes in order. -/
theorem Out.flushmasteroutput {s : Master} (h : s.Out) (takes : Option Nat) :
    (s.flushmasteroutput takes).Out := by
  unfold Master.flushmasteroutput
  split
  · exact h
  · cases takes with
    | none => exact ⟨Nat.le_refl 0, rfl⟩
    | some n =>
      have hpos := h.pos
      have hsent : s.sent ++ (s.masterout.drop s.masteroutpos).take n ++
          s.masterout.drop (s.masteroutpos + ((s.masterout.drop s.masteroutpos).take n).length) =
          s.accepted.flatten := by
        rw [← h.bytes, List.append_assoc, ← List.drop_drop, drop_length_take,
          List.take_append_drop]
      dsimp only
      split
      · next hend =>
        rw [List.drop_eq_nil_of_le hend] at hsent
        exact ⟨Nat.le_refl 0, hsent⟩
      · next hend => exact ⟨by simp only at hend ⊢; omega, hsent⟩

/-! ## Input -/

/-- The fields that a request leaves alone. -/
def input (s : Master) : List UInt8 × Nat × List MasterLine × List UInt8 :=
  (s.masterin, s.masterinpos, s.handled, s.received)

theorem input_putrequest (s : Master) (req : List UInt8) : (s.putrequest req).input = s.input := by
  unfold putrequest
  split <;> rfl

theorem input_requests (s : Master) (reqs : List (List UInt8)) :
    (reqs.foldl putrequest s).input = s.input := by
  induction reqs generalizing s with
  | nil => rfl
  | cons req reqs ih => rw [List.foldl_cons, ih, input_putrequest]

/-- The lines of the stream are handled, and the unfinished one is what the buffer still has. -/
structure In (s : Master) : Prop where
  pos : s.masterinpos ≤ s.masterin.length
  handled : s.handled = (lines newline s.received).1.map dispatchline
  rest : s.masterin.drop s.masterinpos = (lines newline s.received).2

/-- The end of the line that the rest of the buffer begins with. -/
theorem lineend_line {s : Master} {l bs : List UInt8} (hl : newline ∉ l)
    (hrest : s.masterin.drop s.masterinpos = l ++ newline :: bs) :
    s.lineend = some (s.masterinpos + l.length) := by
  have hfind : (l ++ newline :: bs).findIdx? (· = newline) = some l.length := by
    clear hrest
    induction l with
    | nil => simp [List.findIdx?_cons]
    | cons c l ih =>
      have hc : c ≠ newline := fun hc => hl (by simp [hc])
      rw [List.cons_append, List.findIdx?_cons, ih fun hmem => hl (List.mem_cons_of_mem _ hmem)]
      simp [hc]
  rw [lineend, hrest, hfind]
  rfl

theorem lineend_none {s : Master} (h : newline ∉ s.masterin.drop s.masterinpos) :
    s.lineend = none := by
  rw [lineend, List.findIdx?_eq_none_iff.mpr]
  · rfl
  · intro c hc
    exact decide_eq_false fun hcn => h (hcn ▸ hc)

/-- The body of the loop handles the first line of the rest and moves behind it. -/
theorem handleline_input {s : Master} {l bs : List UInt8} (reqs : List (List UInt8))
    (hrest : s.masterin.drop s.masterinpos = l ++ newline :: bs) :
    let t := s.handleline (s.masterinpos + l.length) reqs
    t.masterin.length = s.masterin.length ∧ t.masterinpos = s.masterinpos + l.length + 1 ∧
      t.masterin.drop t.masterinpos = bs ∧ t.handled = s.handled ++ [dispatchline l] ∧
      t.received = s.received := by
  intro t
  have hline : (s.masterin.drop s.masterinpos).take (s.masterinpos + l.length - s.masterinpos) = l := by
    rw [hrest, Nat.add_sub_cancel_left, List.take_left]
  have hframe := input_requests { s with
    masterin := s.masterin.set (s.masterinpos + l.length) 0
    handled := s.handled ++ [dispatchline
      ((s.masterin.drop s.masterinpos).take (s.masterinpos + l.length - s.masterinpos))] } reqs
  simp only [input, Prod.mk.injEq, hline] at hframe
  obtain ⟨hin, -, hhandled, hreceived⟩ := hframe
  have hbuf : t.masterin = s.masterin.set (s.masterinpos + l.length) 0 := by
    simp only [t, handleline, hline, hin]
  have hpos : t.masterinpos = s.masterinpos + l.length + 1 := rfl
  refine ⟨?_, hpos, ?_, ?_, ?_⟩
  · rw [hbuf, List.length_set]
  · have hdrop : s.masterin.drop (s.masterinpos + l.length + 1) = bs := by
      rw [Nat.add_assoc, ← List.drop_drop, hrest]
      simp
    rw [hbuf, hpos, List.drop_set_of_lt (Nat.lt_succ_self _), hdrop]
  · simp only [t, handleline, hline, hhandled]
  · simp only [t, handleline, hline, hreceived]

/-- The loop handles the lines of the rest and leaves the unfinished one. -/
theorem handlelines_spec (requests : Nat → List (List UInt8)) : ∀ (n k : Nat) (s : Master),
    s.masterinpos ≤ s.masterin.length → s.masterin.length ≤ s.masterinpos + n →
    let t := handlelines requests n k s
    let rest := lines newline (s.masterin.drop s.masterinpos)
    t.masterinpos ≤ t.masterin.length ∧ t.handled = s.handled ++ rest.1.map dispatchline ∧
      t.masterin.drop t.masterinpos = rest.2 ∧ t.received = s.received
  | 0, _, s, hpos, hfuel => by
    have hrest : s.masterin.drop s.masterinpos = [] := List.drop_eq_nil_of_le (by omega)
    simp [handlelines, hrest, lines, hpos]
  | n + 1, k, s, hpos, hfuel => by
    intro t rest
    by_cases hmem : newline ∈ s.masterin.drop s.masterinpos
    · obtain ⟨l, bs, hrest, hl⟩ := List.eq_append_cons_of_mem hmem
      obtain ⟨hlen, hpos', hdrop, hhandled, hreceived⟩ := handleline_input (requests k) hrest
      have hsize : s.masterinpos + l.length + 1 ≤ s.masterin.length := by
        have := congrArg List.length hrest
        simp at this
        omega
      have ht : t = handlelines requests n (k + 1)
          (s.handleline (s.masterinpos + l.length) (requests k)) := by
        simp only [t, handlelines, lineend_line hl hrest]
      have ih := handlelines_spec requests n (k + 1)
        (s.handleline (s.masterinpos + l.length) (requests k)) (by omega) (by omega)
      rw [hdrop, hhandled, hreceived] at ih
      have hlines : rest = (l :: (lines newline bs).1, (lines newline bs).2) := by
        simp only [rest, hrest, lines_line hl]
      rw [ht, hlines]
      simpa using ih
    · have ht : t = s := by simp only [t, handlelines, lineend_none hmem]
      have hlines : rest = ([], s.masterin.drop s.masterinpos) := lines_of_not_mem hmem
      rw [ht, hlines]
      simp [hpos]

/-- What one call handles and what it leaves. -/
theorem processmasterinput_spec (s : Master) (requests : Nat → List (List UInt8))
    (hpos : s.masterinpos ≤ s.masterin.length) :
    let t := s.processmasterinput requests
    let rest := lines newline (s.masterin.drop s.masterinpos)
    t.masterinpos ≤ t.masterin.length ∧ t.handled = s.handled ++ rest.1.map dispatchline ∧
      t.masterin.drop t.masterinpos = rest.2 ∧ t.received = s.received := by
  unfold processmasterinput
  split
  · next hend => simp [List.drop_eq_nil_of_le hend, lines, hpos]
  · have hspec := handlelines_spec requests s.masterin.length 0 s hpos (by omega)
    generalize handlelines requests s.masterin.length 0 s = t at *
    obtain ⟨hpos', hhandled, hdrop, hreceived⟩ := hspec
    dsimp only
    split
    · next hend =>
      rw [List.drop_eq_nil_of_le hend] at hdrop
      exact ⟨Nat.le_refl 0, hhandled, hdrop, hreceived⟩
    · exact ⟨hpos', hhandled, hdrop, hreceived⟩

/-- **One read**: its bytes continue the line that was unfinished. -/
theorem In.flushmasterinput {s : Master} (h : s.In) (bytes : List UInt8)
    (requests : Nat → List (List UInt8)) : (s.flushmasterinput bytes requests).In := by
  unfold Master.flushmasterinput
  split
  · exact ⟨Nat.le_refl 0, rfl, rfl⟩
  · have hpos := h.pos
    have hrest : (s.advance bytes).masterin.drop (s.advance bytes).masterinpos =
        (lines newline s.received).2 ++ bytes := by
      simp only [advance, List.drop_append_of_le_length hpos, h.rest]
    obtain ⟨hpos', hhandled, hdrop, hreceived⟩ := processmasterinput_spec (s.advance bytes) requests
      (by simp [advance]; omega)
    rw [hrest] at hhandled hdrop
    have hsplit : lines newline (s.received ++ bytes) = _ := lines_append s.received bytes
    have hstream : (s.advance bytes).received = s.received ++ bytes := rfl
    have hbefore : (s.advance bytes).handled = s.handled := rfl
    refine ⟨hpos', ?_, ?_⟩
    · rw [hhandled, hreceived, hstream, hsplit, hbefore, h.handled, List.map_append]
    · rw [hdrop, hreceived, hstream, hsplit]

theorem In.of_input {s t : Master} (h : s.In) (heq : t.input = s.input) : t.In := by
  simp only [input, Prod.mk.injEq] at heq
  obtain ⟨hin, hpos, hhandled, hreceived⟩ := heq
  refine ⟨?_, ?_, ?_⟩
  · rw [hin, hpos]
    exact h.pos
  · rw [hhandled, hreceived]
    exact h.handled
  · rw [hin, hpos, hreceived]
    exact h.rest

/-! ## Runs -/

theorem Out.handleline {s : Master} (h : s.Out) (e : Nat) (reqs : List (List UInt8)) :
    (s.handleline e reqs).Out := by
  have hout := Out.requests (s := { s with
    masterin := s.masterin.set e 0
    handled := s.handled ++ [dispatchline ((s.masterin.drop s.masterinpos).take (e - s.masterinpos))] })
    ⟨h.pos, h.bytes⟩ reqs
  exact ⟨hout.pos, hout.bytes⟩

theorem Out.handlelines {s : Master} (h : s.Out) (requests : Nat → List (List UInt8)) (n k : Nat) :
    (handlelines requests n k s).Out := by
  induction n generalizing s k with
  | zero => exact h
  | succ n ih =>
    unfold Master.handlelines
    cases s.lineend with
    | none => exact h
    | some e => exact ih (h.handleline e (requests k)) (k + 1)

theorem Out.flushmasterinput {s : Master} (h : s.Out) (bytes : List UInt8)
    (requests : Nat → List (List UInt8)) : (s.flushmasterinput bytes requests).Out := by
  unfold Master.flushmasterinput processmasterinput
  split
  · exact ⟨Nat.le_refl 0, rfl⟩
  · split
    · exact ⟨h.pos, h.bytes⟩
    · have hread : (s.advance bytes).Out := ⟨h.pos, h.bytes⟩
      have hout := hread.handlelines requests (s.advance bytes).masterin.length 0
      dsimp only
      split
      · exact ⟨hout.pos, hout.bytes⟩
      · exact hout

theorem requestmaster_keeps {s : Master} (hin : s.In) (hout : s.Out) (req : List UInt8)
    (connects : Bool) : (s.requestmaster req connects).In ∧ (s.requestmaster req connects).Out := by
  have hin' : ({ s with mastersock := true } : Master).In := ⟨hin.pos, hin.handled, hin.rest⟩
  have hout' : ({ s with mastersock := true } : Master).Out := ⟨hout.pos, hout.bytes⟩
  unfold requestmaster
  split
  · exact ⟨hin.of_input (input_putrequest s req), hout.putrequest req⟩
  · split
    · exact ⟨hin'.of_input (input_putrequest _ req), hout'.putrequest req⟩
    · exact ⟨hin, hout⟩

theorem flushmasteroutput_in {s : Master} (hin : s.In) (takes : Option Nat) :
    (s.flushmasteroutput takes).In := by
  unfold flushmasteroutput
  split
  · exact hin
  · cases takes with
    | none => exact ⟨Nat.le_refl 0, rfl, rfl⟩
    | some n =>
      dsimp only
      split
      · exact ⟨hin.pos, hin.handled, hin.rest⟩
      · exact ⟨hin.pos, hin.handled, hin.rest⟩

/-- One event keeps both buffers in step with the streams. -/
theorem next_keeps {s : Master} (hin : s.In) (hout : s.Out) (e : Event) :
    (s.next e).In ∧ (s.next e).Out := by
  have hfresh : ({} : Master).In ∧ ({} : Master).Out :=
    ⟨⟨Nat.le_refl 0, rfl, rfl⟩, ⟨Nat.le_refl 0, rfl⟩⟩
  cases e with
  | request req connects => exact requestmaster_keeps hin hout req connects
  | connected error =>
    simp only [next]
    split
    · exact ⟨hin, hout⟩
    · split
      · exact hfresh
      · exact ⟨⟨hin.pos, hin.handled, hin.rest⟩, ⟨hout.pos, hout.bytes⟩⟩
  | input bytes requests =>
    simp only [next]
    split
    · exact ⟨hin.flushmasterinput bytes requests, hout.flushmasterinput bytes requests⟩
    · exact ⟨hin, hout⟩
  | output takes => exact ⟨flushmasteroutput_in hin takes, hout.flushmasteroutput takes⟩
  | disconnect => exact hfresh

theorem run_keeps (es : List Event) : (run es).In ∧ (run es).Out := by
  unfold run
  suffices h : ∀ s : Master, s.In → s.Out → (es.foldl next s).In ∧ (es.foldl next s).Out from
    h {} ⟨Nat.le_refl 0, rfl, rfl⟩ ⟨Nat.le_refl 0, rfl⟩
  induction es with
  | nil => exact fun s hin hout => ⟨hin, hout⟩
  | cons e es ih =>
    intro s hin hout
    obtain ⟨hin', hout'⟩ := next_keeps hin hout e
    exact ih (s.next e) hin' hout'

/-- One read of a whole stream handles all its lines. -/
theorem unsplit_handled (bytes : List UInt8) :
    (unsplit bytes).handled = (lines newline bytes).1.map dispatchline := by
  have hin : (unsplit bytes).In :=
    In.flushmasterinput ⟨Nat.le_refl 0, rfl, rfl⟩ bytes fun _ => []
  have hreceived : (unsplit bytes).received = bytes := by
    unfold unsplit flushmasterinput
    split
    · next hbytes => exact hbytes.symm
    · exact (processmasterinput_spec _ _ (Nat.zero_le _)).2.2.2
  rw [hin.handled, hreceived]

/-- **However the stream is split**, the lines handled on a connection are those of the bytes it
has brought, the unfinished one is still in the buffer, and what was sent is followed by what waits
in the requests that were accepted. -/
theorem master_stream (es : List Event) :
    let s := run es
    s.masterinpos ≤ s.masterin.length ∧
      s.handled = (lines newline s.received).1.map dispatchline ∧
      s.masterin.drop s.masterinpos = (lines newline s.received).2 ∧
      s.handled = (unsplit s.received).handled ∧
      s.sent ++ s.masterout.drop s.masteroutpos = s.accepted.flatten := by
  intro s
  obtain ⟨hin, hout⟩ := run_keeps es
  exact ⟨hin.pos, hin.handled, hin.rest, hin.handled.trans (unsplit_handled s.received).symm,
    hout.bytes⟩

end Master

end QServ
