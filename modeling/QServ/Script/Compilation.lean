import QServ.Script.Runs

/-!
# What compilation promises

* `compilemain_bracketed`: every text is compiled, and well, unless code is looked up under no name.
* `compiled_disciplined`: arguments are values, and instructions have the values they need.
* `skipcode_returns`: `skipcode` comes to the place where a run would return, if it takes no number
  for an instruction.
-/

namespace QServ

namespace Script

open Loop

/-- Floats that do not come up. -/
def nofloats : Floats Unit where
  parsefloat _ := ()
  whole _ := some 0
  bits _ := 0
  zero := ()

/-! ## Brackets -/

/-- `if`, as it is registered. -/
def ifcommand : List Ident := [{ name := word "if", type := .ID_COMMAND (word "tee") }]

theorem registered_ifcommand : Registered ifcommand := by
  intro id hid args htype
  obtain rfl := List.mem_singleton.mp hid
  obtain rfl := Idtype.ID_COMMAND.inj htype
  decide +kernel

/-- What is compiled is called behind its `START`. -/
theorem callable_of_compilemain {F : Type} (fl : Floats F) (strict : Prop) (idents : List Ident)
    (p : Text) (hreg : Registered idents) : Yields (compilemain fl idents p) fun c =>
      Clean strict c → Quiet c.code → ∀ ids, c.idents <+: ids →
        Callable strict ids c.code.tail [] := by
  refine (compilemain_spec fl strict idents p hreg).imp fun c h hclean hquiet ids hids => ?_
  obtain ⟨-, -, -, l, hl, hlayout⟩ := h
  have hlayout := hlayout hclean ids hids
  rw [hl, Quiet, numbers_plain rfl] at hquiet
  rw [hl, List.tail_cons]
  exact ⟨l, .RET_NULL, 0, rfl, hlayout, fun _ => Nat.zero_le _, (hlayout.quiet_append.mp hquiet).1⟩

/-- **`skipcode` returns where a run does**, from every place at which `runcode` is called, if no
number in the code is taken for an instruction. -/
theorem skipcode_returns {F : Type} (fl : Floats F) (idents : List Ident) (hreg : Registered idents)
    (p : Text) : ∃ c, compilemain fl idents p = some c ∧ (.long ∉ c.notes → Quiet c.code →
      ∀ e, Entered c.code.tail e → ∃ q, skipcode e = some q ∧
        ∀ base s q', runcode base e [] = some s → Runs base s (.returned q') → q' = q) := by
  refine (callable_of_compilemain fl False idents p hreg).imp fun c hcall hlong hquiet e he => ?_
  obtain ⟨q, hq⟩ := he.callable (hcall ⟨hlong, False.elim⟩ hquiet c.idents List.prefix_rfl)
  refine ⟨q, ?_, fun base s q' hs hruns => runs_sound (hq.runcode hs) hruns⟩
  obtain ⟨l, ret, m, rfl, hlayout, -, hquiet⟩ := hq.layout
  exact hlayout.skipcode_eq hquiet ret q

theorem skipcode_returns_if : ∃ c, compilemain nofloats ifcommand (word "if (1)") = some c ∧
    ∀ e, Entered c.code.tail e → ∃ q, skipcode e = some q := by
  obtain ⟨c, hc, h⟩ := skipcode_returns nofloats ifcommand registered_ifcommand (word "if (1)")
  have hclean : (compilemain nofloats ifcommand (word "if (1)")).all fun c =>
      decide (.long ∉ c.notes ∧ ∀ x ∈ numbers c.code, ¬Misread x) := by decide
  rw [hc, Option.all_some, decide_eq_true_eq] at hclean
  exact ⟨c, hc, fun e he => (h hclean.1 hclean.2 e he).imp fun q hq => hq.1⟩

/-- The number `16777220` has the last byte of an `EXIT`. -/
theorem number_skipped_as_exit : ¬∀ (p : Text) (c : Compiler) (e : List Nat),
    compilemain nofloats [] p = some c → Entered c.code.tail e → ∃ q, skipcode e = some q ∧
      ∀ base s q', runcode base e [] = some s → Runs base s (.returned q') → q' = q := by
  intro h
  have hcode : (compilemain nofloats [] (word "16777220")).map Compiler.code =
      some [0, 69, 16777220, 12, 4] := by decide
  obtain ⟨c, hc, hcode⟩ := Option.map_eq_some_iff.mp hcode
  obtain ⟨q, hskip, hruns⟩ := h _ c c.code.tail hc .start
  rw [hcode, List.tail_cons] at hskip hruns
  have hreturned : steps 0 3 (.running { code := [69, 16777220, 12, 4] } []) =
      some (.returned []) := by decide
  have hq := hruns 0 _ [] rfl (runs_of_steps hreturned)
  rw [← hq] at hskip
  exact absurd hskip (by decide)

end Script

end QServ
