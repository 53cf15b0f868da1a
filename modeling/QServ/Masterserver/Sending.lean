import QServ.Masterserver.Invariants

/-!
# What the master server sends

The lists that clients share, and the bytes that each of them is sent.

* `lists_counted`: a list is deleted when no client has it and there is a newer one, and every
  server gets the bans.
* `bytes_sent`: what a client is sent are whole units, unless a line comes between the parts of a
  list.
-/

namespace QServ

namespace Masterserver

namespace State

variable {s : State} {es : List Event}

/-! ## Lists -/

/-- **The lists**: in every run the count of a list is the number of clients that have it; no client
has a list that is deleted, and none is used; a list is deleted only when no client has it and there
is a newer one; and a client with a port, unless he has asked for the servers, has been sent or has
pending a text that ends with the newest bans that were distributed since. -/
theorem lists_counted (hrun : Run.Steps step (fun _ _ => True) {} es s) :
    (∀ o, ∀ l ∈ s.lists o, l.refs = holders s.clients o l.id) ∧
      (∀ c ∈ s.clients, ∀ o id, c.message = some (o, id) → id ∈ Pool.ids (s.lists o)) ∧
      (∀ e, ∃ t, step s e = .ok t) ∧
      (∀ e t, step s e = .ok t → ∀ o, ∀ i ∈ Pool.ids (s.lists o), i ∉ Pool.ids (t.lists o) →
        holders t.clients o i = 0 ∧ ∃ z, (Pool.ids (t.lists o)).getLast? = some z ∧ i < z) ∧
      ∀ c ∈ s.clients, 0 ≤ c.servport → c.shouldpurge = false →
        ∀ d, c.track.due = some d → c.Has s.lists d := by
  have h := inv_run hrun
  refine ⟨fun o l hl => (h.counted o).refs l hl, fun c hc o id hmessage => ?_, fun e => ?_,
    fun e t hstep o i hi hout => ?_, fun c hc _ hpurge d hd => (h.fine c hc).due hpurge d hd⟩
  · refine (h.counted o).held id ?_
    exact List.countP_pos_iff.mpr ⟨c, hc, decide_eq_true hmessage⟩
  · obtain ⟨t, ht, -⟩ := h.step e
    exact ⟨t, ht⟩
  · obtain ⟨u, hu, hinv, hcovers⟩ := h.step e
    cases hu.symm.trans hstep
    exact (hinv.counted o).taken (hcovers o) hi hout

/-- A server registers and answers, and the bans are read again and sent. -/
def registered : List Event :=
  [.accept 1, .select fun _ => [], .receive 0 [.regserv 28785] true, .checkgameservers,
    .pong 1 28786, .reload [] [] [⟨10, 255⟩] [], .select fun _ => [], .send 0 (some 100) [],
    .select fun _ => [], .send 0 (some 100) []]

/-- The bans that are sent to a server. -/
theorem lists_counted_registered : ∃ s : State, ∃ c ∈ s.clients, c.message = none ∧
    c.Has s.lists (word "cleargbans\naddgban 10\n") := by
  obtain ⟨s, hrun, hs⟩ := Run.Steps.of_any step (fun _ _ => True) {} registered
    (p := fun s => s.clients.any fun c => c.message = none ∧ 0 ≤ c.servport ∧
      c.shouldpurge = false ∧ c.track.due = some (word "cleargbans\naddgban 10\n"))
    (fun _ _ _ => trivial) (by decide +kernel)
  obtain ⟨c, hc, hdue⟩ := List.any_eq_true.mp hs
  obtain ⟨hmessage, hport, hpurge, hdue⟩ := of_decide_eq_true hdue
  obtain ⟨-, -, -, -, hhas⟩ := lists_counted hrun
  exact ⟨s, c, hc, hmessage, hhas c hc hport hpurge _ hdue⟩

/-! ## Bytes -/

/-- **The bytes**: in every run, what a client has been sent is a prefix of the units that are
complete and of what is pending: the lines that were output, each once and in order, without those
that are thrown away when he asks for the servers, and the lists that were given to him, each once
and in order; and the offset is within what is pending.  This is so unless a line was output to him
when a list was partly sent. -/
theorem bytes_sent (hrun : Run.Steps step (fun _ _ => True) {} es s) :
    ∀ c ∈ s.clients, c.track.torn = false →
      c.outputpos ≤ (pending s.lists c).length ∧
      c.track.sent = c.track.units.flatMap Sending.bytes ++ (pending s.lists c).take c.outputpos ∧
      c.track.sent <+: c.track.units.flatMap Sending.bytes ++ pending s.lists c ∧
      c.track.written = c.track.units.flatMap Sending.outputs ++ c.track.pending ∧
      c.output = c.track.pending.flatten ∧
      c.track.given = c.track.units.flatMap Sending.messages ++ c.message.toList := by
  intro c hc htorn
  have h := (inv_run hrun).fine c hc
  refine ⟨h.offset htorn, h.sent htorn, ?_, h.written, h.output, h.given⟩
  rw [h.sent htorn]
  exact (List.prefix_append_right_inj _).mpr (List.take_prefix _ _)

/-- Two units that are sent to a server. -/
theorem bytes_sent_registered : ∃ s : State, ∃ c ∈ s.clients,
    c.track.units.length = 2 ∧ c.track.sent = c.track.units.flatMap Sending.bytes := by
  obtain ⟨s, hrun, hs⟩ := Run.Steps.of_any step (fun _ _ => True) {} registered
    (p := fun s => s.clients.any fun c => c.track.torn = false ∧ c.track.units.length = 2 ∧
      c.outputpos = 0) (fun _ _ _ => trivial) (by decide +kernel)
  obtain ⟨c, hc, hunits⟩ := List.any_eq_true.mp hs
  obtain ⟨htorn, hlength, hpos⟩ := of_decide_eq_true hunits
  obtain ⟨-, hsent, -⟩ := bytes_sent hrun c hc htorn
  rw [hpos, List.take_zero, List.append_nil] at hsent
  exact ⟨s, c, hc, hlength, hsent⟩

/-- A line that is output before the list is asked for, in the same read, is thrown away. -/
theorem line_discarded : ∃ s : State, Run.Steps step (fun _ _ => True) {}
    [.reload [] [] [] (word "hi"), .accept 1, .select fun _ => [],
      .receive 0 [.auth [word "failauth 1\n"], .list] true, .select fun _ => [],
      .send 0 (some 4) []] s ∧
    ∃ c ∈ s.clients, c.track.sent = word "echo" ∧ c.output = [] ∧
      ¬ c.track.sent <+: word "failauth 1\n" ++ text s.lists c := by
  obtain ⟨s, hrun, hs⟩ := Run.Steps.of_any step (fun _ _ => True) {}
    [.reload [] [] [] (word "hi"), .accept 1, .select fun _ => [],
      .receive 0 [.auth [word "failauth 1\n"], .list] true, .select fun _ => [],
      .send 0 (some 4) []]
    (p := fun s => s.clients.any fun c => c.track.sent = word "echo" ∧ c.output = [] ∧
      ¬ c.track.sent <+: word "failauth 1\n" ++ text s.lists c)
    (fun _ _ _ => trivial) (by decide +kernel)
  obtain ⟨c, hc, hsent⟩ := List.any_eq_true.mp hs
  exact ⟨s, hrun, c, hc, of_decide_eq_true hsent⟩

/-- A line that is output when a list is partly sent: the offset is beyond it. -/
theorem offset_beyond : ∃ s : State, Run.Reachable step {} s ∧ ∃ c ∈ s.clients,
    c.output = word "succreg\n" ∧ c.outputpos = 9 := by
  obtain ⟨s, hrun, hs⟩ := Run.Reachable.of_any step {}
    [.accept 1, .select fun _ => [], .receive 0 [.regserv 28785] true, .checkgameservers,
      .reload [] [] [] [], .select fun _ => [], .send 0 (some 9) [], .pong 1 28786]
    (p := fun s => s.clients.any fun c => c.output = word "succreg\n" ∧ c.outputpos = 9)
    (by decide +kernel)
  obtain ⟨c, hc, hpos⟩ := List.any_eq_true.mp hs
  exact ⟨s, hrun, c, hc, of_decide_eq_true hpos⟩

end State

end Masterserver

end QServ
