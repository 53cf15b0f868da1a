import QServ.Server.Safety

/-!
# What throwing clients out comes to

The verdicts on the loops that disconnect clients and on `trykick`, for every client list
in order; by `Reachable.orderly` these are the lists that occur.

* `loops_visit_iff`: both loops reach everybody they are after, exactly if the last human
  to go is not preceded by a bot.
* `trykick_iff`: a kick does what it announces, exactly if an allowed victim has finished
  connecting and does not outrank the record of the actor.
-/

namespace QServ
namespace Server

open Run

variable {s : Server}

/-! ## The loops -/

/-- **When the loops over the client list go through**: unless every human is to be thrown
out and a bot heads the list, both stay within the list and reach everybody they are
after. -/
theorem loops_visit_iff (h : s.WF) (ip : Nat) {actor : Option Int}
    (ha : ∀ a ∈ actor, a ∈ s.clients ∧ a < MAXCLIENTS) :
    (VisitsAll (s.kickclients ip actor) s (s.kicked ip actor) ↔
      ¬ s.BotAhead (s.kicked ip actor)) ∧
    (VisitsAll s.sweepexceeded s s.overdue ↔ ¬ s.BotAhead s.overdue) :=
  ⟨visitsAll_iff h (fun a haa => (ha a haa).1) (kick_shrinks h ip ha),
    visitsAll_iff h (by simp) (exceeded_shrinks h)⟩

/-- Kicking the second of two clients. -/
theorem loops_visit_sample : ∃ s : Server,
    VisitsAll (s.kickclients 9 (some 0)) s (s.kicked 9 (some 0)) ∧ s.kicked 9 (some 0) 1 := by
  obtain ⟨s, hrun, hs⟩ := Reachable.of_any step (initial sampleConfig) twoclients
    (p := fun s : Server => decide (s.clients = [0, 1] ∧ s.kicked 9 (some 0) 1 = true ∧
      s.kicked 9 (some 0) 0 = false)) (by rfl)
  obtain ⟨hcl, hk1, hk0⟩ := of_decide_eq_true hs
  have ha : ∀ a ∈ some (0 : Int), a ∈ s.clients ∧ a < MAXCLIENTS := by
    intro a ha
    obtain rfl := Option.some.inj ha
    rw [hcl]
    decide
  refine ⟨s, ((loops_visit_iff (Reachable.orderly hrun).toWF 9 ha).1).mpr ?_, hk1⟩
  rintro ⟨-, hall, -⟩
  rw [hall 0 (by rw [hcl]; decide) (by decide)] at hk0
  cases hk0

/-- A bot joins between two clients, and the first of them leaves. -/
def botahead : List Event :=
  [.connect 0 7 "seven" 0, .hello 0 "ann" "" "" "" fun _ => false, .autobot 0 "bot",
    .connect 1 9 "nine" 0, .hello 1 "bob" "" "" "" fun _ => false, .drop 0]

/-- The last human is kicked: the list is emptied under the loop, which reads on. -/
theorem kickclients_strands : ∃ s, Run.Reachable step (initial sampleConfig) s ∧
    s.clients = [128, 1] ∧ s.kickclients 9 none = .error .outOfRange := by
  obtain ⟨s, hrun, hs⟩ := Reachable.of_any step (initial sampleConfig) botahead
    (p := fun s : Server => decide (s.clients = [128, 1]) &&
      match s.kickclients 9 none with
      | .error f => decide (f = .outOfRange)
      | .ok _ => false) (by rfl)
  rw [Bool.and_eq_true, decide_eq_true_eq] at hs
  obtain ⟨hcl, hloop⟩ := hs
  refine ⟨s, hrun, hcl, ?_⟩
  cases hk : s.kickclients 9 none with
  | error f =>
    rw [hk] at hloop
    rw [of_decide_eq_true hloop]
  | ok t =>
    rw [hk] at hloop
    cases hloop

/-! ## Kicks -/

/-- What a kick promises about `victim`: once allowed and announced, the victim is gone,
and no administrator, local client, bot or the actor is; a kick that is not allowed
changes nothing. -/
structure KickHonest (s : Server) (cn victim : Int) (reason authname authdesc : Option String)
    (authpriv : Priv) : Prop where
  allowed : ∀ ci vinfo, s.info cn = some ci → s.getclientinfo victim = some vinfo →
    kickAllowed ci vinfo authname authpriv →
    ∃ s', s.trykick cn victim reason authname authdesc authpriv false = .ok (s', false) ∧
      s'.info victim = none ∧ victim ∉ s'.clients ∧
      ∀ n ∈ s.clients, ∀ c, s.info n = some c →
        (c.privilege = .admin ∨ c.isLocal ∨ c.aitype ≠ .human ∨ n = cn) → n ∈ s'.clients
  refused : (∀ ci vinfo, s.info cn = some ci → s.getclientinfo victim = some vinfo →
      ¬ kickAllowed ci vinfo authname authpriv) →
    s.trykick cn victim reason authname authdesc authpriv false = .ok (s, false)

/-- **When a kick does what it announces**: exactly when an allowed victim has finished
connecting and does not outrank the actor's own record. -/
theorem trykick_iff (h : s.WF) {cn : Int} (hcn : cn ∈ s.clients) (hhum : cn < MAXCLIENTS)
    (victim : Int) (reason authname authdesc : Option String) (authpriv : Priv) :
    KickHonest s cn victim reason authname authdesc authpriv ↔
      ∀ ci vinfo, s.info cn = some ci → s.getclientinfo victim = some vinfo →
        kickAllowed ci vinfo authname authpriv →
        victim ∈ s.clients ∧ vinfo.privilege ≤ ci.privilege := by
  have hget : ∀ {vinfo}, s.getclientinfo victim = some vinfo →
      s.info victim = some vinfo ∧ victim < MAXCLIENTS := by
    intro vinfo hv
    unfold getclientinfo at hv
    split at hv
    · next hr => exact ⟨hv, hr.2⟩
    · cases hv
  constructor
  · intro hh ci vinfo hci hv hallow
    obtain ⟨hvi, -⟩ := hget hv
    obtain ⟨s1, hrun1, hgone, hout, -⟩ := hh.allowed ci vinfo hci hv hallow
    obtain ⟨s', hrun, hsw, hcl⟩ := trykick_run h hcn hhum hci hv reason authname authdesc authpriv
      hallow
    rw [hrun1] at hrun
    obtain rfl : s1 = s' := congrArg Prod.fst (Except.ok.inj hrun)
    have hlisted : victim ∈ s.clients := by
      by_contra hnot
      have := hsw.kept victim (Or.inr hnot)
      rw [hgone, hvi] at this
      cases this
    refine ⟨hlisted, ?_⟩
    have hk : s.kicked (s.getclientip victim) (some cn) victim := by
      by_contra hk
      refine hout ?_
      rw [hcl]
      exact List.mem_filter.mpr ⟨hlisted, by simpa using hk⟩
    obtain ⟨c, hc, -, -, -, -, hact⟩ := kicked_spec h hk
    obtain rfl : vinfo = c := Option.some.inj (hvi.symm.trans hc)
    exact (hact cn rfl ci hci).1
  · intro hcond
    constructor
    · intro ci vinfo hci hv hallow
      obtain ⟨hvi, hvlt⟩ := hget hv
      obtain ⟨hlisted, hle⟩ := hcond ci vinfo hci hv hallow
      obtain ⟨s', hrun, hsw, hcl⟩ := trykick_run h hcn hhum hci hv reason authname authdesc
        authpriv hallow
      unfold kickAllowed at hallow
      simp only [Bool.and_eq_true, decide_eq_true_eq, Bool.not_eq_true'] at hallow
      obtain ⟨⟨-, hne⟩, ⟨-, hpriv⟩, hloc⟩ := hallow
      have hk : s.kicked (s.getclientip victim) (some cn) victim := by
        unfold Server.kicked kickable
        rw [hvi]
        simp only [Option.bind_some, hci]
        rw [(h.human victim vinfo hvi).mpr hvlt, hloc]
        simp [not_le.mpr hpriv, not_lt.mpr hle, Ne.symm hne]
      have hout : victim ∉ s'.clients := by
        rw [hcl]
        intro hm
        simp [hk] at hm
      refine ⟨s', hrun, hsw.freed victim hlisted hout, hout, ?_⟩
      intro n hn c hc hprot
      rw [hcl]
      refine List.mem_filter.mpr ⟨hn, ?_⟩
      by_contra hkn
      have hkn : s.kicked (s.getclientip victim) (some cn) n := by simpa using hkn
      obtain ⟨d, hd, hlt, hdl, hda, -, hact⟩ := kicked_spec h hkn
      obtain rfl : c = d := Option.some.inj (hc.symm.trans hd)
      rcases hprot with hp | hp | hp | hp
      · exact absurd hp hda.ne
      · rw [hdl] at hp
        cases hp
      · exact hp ((h.human n c hc).mpr hlt)
      · exact (hact cn rfl ci hci).2 hp.symm
    · intro hno
      obtain ⟨ci, hci, -⟩ := h.live cn hcn
      cases hv : s.getclientinfo victim with
      | none => exact trykick_unknown hci hv reason authname authdesc authpriv false
      | some vinfo => rw [trykick_eq h hci hv, if_neg (hno ci vinfo hci hv)]

/-- What `trykick_iff` asks of a kick, decided in a given state. -/
def kickHonest (s : Server) (cn victim : Int) (authname : Option String) (authpriv : Priv) : Bool :=
  (s.info cn).all fun ci => (s.getclientinfo victim).all fun vinfo =>
    !kickAllowed ci vinfo authname authpriv ||
      decide (victim ∈ s.clients ∧ vinfo.privilege ≤ ci.privilege)

theorem kickHonest_iff (s : Server) (cn victim : Int) (authname : Option String)
    (authpriv : Priv) : s.kickHonest cn victim authname authpriv ↔
      ∀ ci vinfo, s.info cn = some ci → s.getclientinfo victim = some vinfo →
        kickAllowed ci vinfo authname authpriv →
        victim ∈ s.clients ∧ vinfo.privilege ≤ ci.privilege := by
  unfold kickHonest
  cases s.info cn with
  | none => simp
  | some ci =>
    cases s.getclientinfo victim with
    | none => simp
    | some vinfo =>
      cases hk : kickAllowed ci vinfo authname authpriv
      · simp [hk]
      · simp [hk]

/-- The first of two clients claims master and kicks the second. -/
theorem trykick_sample : ∃ s : Server, Run.Reachable step (initial sampleConfig) s ∧
    s.clients = [0, 1] ∧ KickHonest s 0 1 (some "spam") none none .none := by
  obtain ⟨s, hrun, hs⟩ := Reachable.of_any step (initial sampleConfig)
    (twoclients ++ [.setmaster 0 0 1 ""])
    (p := fun s : Server => decide (s.clients = [0, 1]) && s.kickHonest 0 1 none .none) (by rfl)
  rw [Bool.and_eq_true, decide_eq_true_eq] at hs
  obtain ⟨hcl, hk⟩ := hs
  have hmem : (0 : Int) ∈ s.clients := by
    rw [hcl]
    exact List.mem_cons_self
  exact ⟨s, hrun, hcl, (trykick_iff (Reachable.orderly hrun).toWF hmem (by decide) 1 (some "spam")
    none none .none).mpr ((kickHonest_iff s 0 1 none .none).mp hk)⟩

/-- The second of two clients is master, the first has no privilege of its own: its kick by a
verified auth name is allowed and announced, but leaves the master where it is. -/
theorem trykick_dishonest : ∃ s : Server, Run.Reachable step (initial sampleConfig) s ∧
    s.clients = [0, 1] ∧
    ¬ KickHonest s 0 1 (some "spam") (some "sheriff") (some "town") .auth := by
  obtain ⟨s, hrun, hs⟩ := Reachable.of_any step (initial sampleConfig)
    (twoclients ++ [.setmaster 1 1 1 ""])
    (p := fun s : Server => decide (s.clients = [0, 1]) &&
      (s.info 0).any fun ci => (s.getclientinfo 1).any fun vinfo =>
        kickAllowed ci vinfo (some "sheriff") .auth &&
          ((s.trykick 0 1 (some "spam") (some "sheriff") (some "town") .auth false).toOption.any
            fun r : Server × Bool => decide (1 ∈ r.1.clients))) (by rfl)
  rw [Bool.and_eq_true, decide_eq_true_eq] at hs
  obtain ⟨hcl, hkick⟩ := hs
  refine ⟨s, hrun, hcl, fun hh => ?_⟩
  obtain ⟨ci, hci, hkick⟩ := (Option.any_eq_true _ _).mp hkick
  obtain ⟨vinfo, hv, hkick⟩ := (Option.any_eq_true _ _).mp hkick
  rw [Bool.and_eq_true] at hkick
  obtain ⟨hallow, hstay⟩ := hkick
  obtain ⟨s', hrun', -, hgone, -⟩ := hh.allowed ci vinfo hci hv hallow
  rw [hrun'] at hstay
  exact hgone (of_decide_eq_true hstay)

end Server
end QServ
