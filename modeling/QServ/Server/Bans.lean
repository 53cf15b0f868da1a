import Mathlib.Data.Multiset.Filter
import QServ.Lib.Expiry
import QServ.Lib.Run
import QServ.Server.Session

/-!
# Bans and the clock

`addban` keeps the bans sorted by a plain comparison of their ends, `serverupdate` takes the
first ones away as long as a difference of 32 bits says that they are over, `checkbans` does
not look at the clock at all.

* `Register`: the bans that were given and have not been found to be over.
* `bans_exact`: in every run in which the two comparisons agree at each update, and no ban is
  over as it is given, the list is the register and an address is refused exactly if it has a
  ban that is not over; the next step keeps this up exactly if it meets the same condition.
-/

namespace QServ

/-- `ipmask`. -/
structure IpMask where
  ip : Nat
  mask : Nat
  deriving DecidableEq, Repr

/-- `ipmask::check(host)`. -/
def IpMask.check (m : IpMask) (host : Nat) : Bool := host &&& m.mask = m.ip

/-- `banlist::check(ip)` of `ipbans` and `gbans`. -/
def checkBanlist (bans : List IpMask) (ip : Nat) : Bool := bans.any fun b => b.check ip

/-- A ban is over when its end does not lie ahead of the clock. -/
def Ban.over (clock : Int) (b : Ban) : Bool := int32 (b.expire - clock) ≤ 0

namespace Server

variable (s : Server)

/-- `while(bannedips.length() && bannedips[0].expire-totalmillis <= 0) bannedips.remove(0)`. -/
def prunebans : Server := { s with bannedips := s.bannedips.dropWhile (Ban.over s.totalmillis) }

/-- `checkbans(ip)`. -/
def checkbans (ipbans gbans : List IpMask) (ip : Nat) : Bool :=
  s.bannedips.any (fun b => b.ip = ip) || (checkBanlist ipbans ip || checkBanlist gbans ip)

/-- What happens to the bans.  `serverslice` reads the clock and runs `serverupdate`. -/
inductive BanEvent where
  | addban (ip : Nat) (expire : Int)
  | serverslice (millis : Int)
  | clearbans
  deriving DecidableEq, Repr

/-- One event. -/
def banStep (s : Server) : BanEvent → Except Fault Server
  | .addban ip expire => .ok (s.addban ip expire)
  | .serverslice millis => .ok { s with totalmillis := int32 millis }.prunebans
  | .clearbans => .ok s.clearbans

end Server

/-! ## The register -/

/-- The bans given and not yet found to be over, with the clock they are measured by. -/
structure Register where
  bans : Multiset Ban
  clock : Int

namespace Register

variable (r : Register)

/-- The ban of an address for a time. -/
def ban (ip : Nat) (expire : Int) : Ban :=
  { time := r.clock, expire := int32 (r.clock + expire), ip }

/-- What an event does to the register. -/
def step (r : Register) : Server.BanEvent → Register
  | .addban ip expire => { r with bans := r.ban ip expire ::ₘ r.bans }
  | .serverslice millis =>
    { bans := r.bans.filter fun b => b.over (int32 millis) = false, clock := int32 millis }
  | .clearbans => { r with bans := 0 }

/-- The register after a sequence of events. -/
def run (r : Register) (es : List Server.BanEvent) : Register := es.foldl step r

/-- The address has a ban that is not over. -/
def Bans (ip : Nat) : Prop := ∃ b ∈ r.bans, b.ip = ip ∧ b.over r.clock = false

end Register

namespace Server

variable {s : Server} {ipbans gbans : List IpMask}

/-- What the bans of the server amount to. -/
def register (s : Server) : Register := { bans := s.bannedips, clock := s.totalmillis }

/-- The bans are kept in order, and an address is refused exactly if the register has a ban
for it that is not over or a permanent one. -/
structure Exact (ipbans gbans : List IpMask) (s : Server) : Prop where
  sorted : s.bannedips.Pairwise fun a b => a.expire ≤ b.expire
  refuses : ∀ ip, s.checkbans ipbans gbans ip = true ↔
    s.register.Bans ip ∨ checkBanlist ipbans ip = true ∨ checkBanlist gbans ip = true

/-- No ban is over as it is given, but for an address that is refused anyway; at an update the
bans that are over stand before the others in the order of their ends. -/
def BanClean (ipbans gbans : List IpMask) (s : Server) : BanEvent → Prop
  | .addban ip expire => 0 < int32 expire ∨ s.checkbans ipbans gbans ip = true
  | .serverslice millis => Expiry.Agrees Ban.expire (Ban.over (int32 millis)) s.bannedips
  | .clearbans => True

/-! ## The order of the list -/

theorem coe_insertBan (b : Ban) (l : List Ban) :
    (insertBan b l : Multiset Ban) = b ::ₘ (l : Multiset Ban) := by
  induction l with
  | nil => rfl
  | cons x l ih =>
    unfold insertBan
    split
    · rfl
    · rw [← Multiset.cons_coe, ih, Multiset.cons_swap, Multiset.cons_coe]

theorem sorted_insertBan (b : Ban) {l : List Ban}
    (h : l.Pairwise fun a b => a.expire ≤ b.expire) :
    (insertBan b l).Pairwise fun a b => a.expire ≤ b.expire := by
  induction l with
  | nil => exact List.pairwise_singleton _ b
  | cons x l ih =>
    obtain ⟨hx, hl⟩ := List.pairwise_cons.mp h
    unfold insertBan
    split
    · next hlt =>
      refine List.pairwise_cons.mpr ⟨fun y hy => ?_, h⟩
      rcases List.mem_cons.mp hy with rfl | hy
      · exact le_of_lt hlt
      · exact le_trans (le_of_lt hlt) (hx y hy)
    · next hge =>
      refine List.pairwise_cons.mpr ⟨fun y hy => ?_, ih hl⟩
      rcases (mem_insertBan l).mp hy with rfl | hy
      · exact not_lt.mp hge
      · exact hx y hy

/-- Whether a ban is over depends on its end alone. -/
theorem over_congr (clock : Int) (a b : Ban) (h : a.expire = b.expire) :
    a.over clock = b.over clock := by
  unfold Ban.over
  rw [h]

/-- A new ban is over exactly if its time does not come out positive. -/
theorem over_ban (r : Register) (ip : Nat) (expire : Int) :
    (r.ban ip expire).over r.clock = false ↔ 0 < int32 expire := by
  have hdiff : int32 (int32 (r.clock + expire) - r.clock) = int32 expire := by
    simp [int32]
  simp [Ban.over, Register.ban, hdiff]

/-! ## One event -/

theorem checkbans_iff (ip : Nat) : s.checkbans ipbans gbans ip = true ↔
    (∃ b ∈ s.bannedips, b.ip = ip) ∨ checkBanlist ipbans ip = true ∨
      checkBanlist gbans ip = true := by
  simp [checkbans]

theorem Exact.of_register (hs : s.bannedips.Pairwise fun a b => a.expire ≤ b.expire)
    (h : ∀ b ∈ s.bannedips, b.over s.totalmillis = false) : Exact ipbans gbans s := by
  refine ⟨hs, fun ip => ?_⟩
  rw [checkbans_iff]
  refine or_congr ⟨?_, ?_⟩ Iff.rfl
  · rintro ⟨b, hb, hip⟩
    exact ⟨b, hb, hip, h b hb⟩
  · rintro ⟨b, hb, hip, -⟩
    exact ⟨b, hb, hip⟩

theorem register_addban (ip : Nat) (expire : Int) :
    (s.addban ip expire).register = s.register.step (.addban ip expire) :=
  congrArg (fun bans => ({ bans, clock := s.totalmillis } : Register)) (coe_insertBan _ _)

/-- **A new ban** keeps the list exact if it is not over at once, or its address is refused
without it. -/
theorem Exact.addban_iff (h : Exact ipbans gbans s) (ip : Nat) (expire : Int) :
    Exact ipbans gbans (s.addban ip expire) ↔
      0 < int32 expire ∨ s.checkbans ipbans gbans ip = true := by
  have hmem : ∀ b, b ∈ (s.addban ip expire).bannedips ↔
      b = s.register.ban ip expire ∨ b ∈ s.bannedips := fun b => mem_insertBan s.bannedips
  have hover := over_ban s.register ip expire
  constructor
  · intro h'
    have hnew : (s.addban ip expire).checkbans ipbans gbans ip = true :=
      checkbans_iff ip |>.mpr (Or.inl ⟨_, (hmem _).mpr (Or.inl rfl), rfl⟩)
    rcases (h'.refuses ip).mp hnew with ⟨b, hb, hip, hb'⟩ | hperm
    · rcases (hmem b).mp hb with rfl | hb
      · exact Or.inl (hover.mp hb')
      · exact Or.inr (checkbans_iff ip |>.mpr (Or.inl ⟨b, hb, hip⟩))
    · exact Or.inr (checkbans_iff ip |>.mpr (Or.inr hperm))
  · intro hclean
    refine ⟨sorted_insertBan _ h.sorted, fun ip' => ?_⟩
    -- what was refused before still is, and for the same reason
    have hold : s.checkbans ipbans gbans ip' = true → (s.addban ip expire).register.Bans ip' ∨
        checkBanlist ipbans ip' = true ∨ checkBanlist gbans ip' = true := by
      intro hc
      refine ((h.refuses ip').mp hc).imp ?_ id
      rintro ⟨b, hb, hip, hb'⟩
      exact ⟨b, (hmem b).mpr (Or.inr hb), hip, hb'⟩
    rw [checkbans_iff]
    constructor
    · rintro (⟨b, hb, rfl⟩ | hperm)
      · rcases (hmem b).mp hb with rfl | hb
        · rcases hclean with hpos | hc
          · exact Or.inl ⟨_, hb, rfl, hover.mpr hpos⟩
          · exact hold hc
        · exact hold (checkbans_iff _ |>.mpr (Or.inl ⟨b, hb, rfl⟩))
      · exact Or.inr hperm
    · rintro (⟨b, hb, hip, -⟩ | hperm)
      · exact Or.inl ⟨b, hb, hip⟩
      · exact Or.inr hperm

/-- **An update** leaves what is not over, and only that, exactly if the order of the ends
agrees with the clock. -/
theorem Exact.serverslice_iff (h : Exact ipbans gbans s) (millis : Int) :
    ({ s with totalmillis := int32 millis }.prunebans.register =
        s.register.step (.serverslice millis) ∧
      Exact ipbans gbans { s with totalmillis := int32 millis }.prunebans) ↔
      Expiry.Agrees Ban.expire (Ban.over (int32 millis)) s.bannedips := by
  have hiff := Expiry.dropWhile_eq_filter_iff h.sorted (over_congr (int32 millis))
  constructor
  · rintro ⟨hreg, -⟩
    exact hiff.mp (congrArg Register.bans hreg)
  · intro hagree
    have hreg := hiff.mpr hagree
    refine ⟨congrArg (fun bans => ({ bans, clock := int32 millis } : Register)) hreg, ?_⟩
    refine .of_register (h.sorted.sublist (List.dropWhile_sublist _)) fun b hb => ?_
    have hb' : b ∈ (s.bannedips.dropWhile (Ban.over (int32 millis)) : Multiset Ban) := hb
    rw [hreg] at hb'
    exact (Multiset.mem_filter.mp hb').2

/-- **One event** keeps the list exact if and only if it meets the condition. -/
theorem Exact.step_iff (h : Exact ipbans gbans s) (e : BanEvent) :
    (∃ t, s.banStep e = .ok t ∧ t.register = s.register.step e ∧ Exact ipbans gbans t) ↔
      s.BanClean ipbans gbans e := by
  cases e with
  | addban ip expire =>
    simp [banStep, BanClean, register_addban, h.addban_iff]
  | serverslice millis =>
    simp [banStep, BanClean, h.serverslice_iff]
  | clearbans =>
    refine ⟨fun _ => trivial, fun _ => ⟨_, rfl, rfl, .of_register List.Pairwise.nil ?_⟩⟩
    intro b hb
    cases hb

/-! ## Runs -/

theorem exact_initial (cfg : Config) : Exact ipbans gbans (initial cfg) :=
  .of_register List.Pairwise.nil fun b hb => by cases hb

theorem Exact.of_steps {t : Server} {es : List BanEvent}
    (hrun : Run.Steps banStep (BanClean ipbans gbans) s es t) (h : Exact ipbans gbans s) :
    t.register = s.register.run es ∧ Exact ipbans gbans t := by
  induction hrun with
  | nil s => exact ⟨rfl, h⟩
  | cons hc hstep _ ih =>
    obtain ⟨u, hu, hreg, hex⟩ := (h.step_iff _).mpr hc
    obtain rfl := Except.ok.inj (hu.symm.trans hstep)
    obtain ⟨hrest, ht⟩ := ih hex
    refine ⟨?_, ht⟩
    rw [hrest, hreg]
    rfl

/-- **Bans end on time**: as long as no ban is over as it is given and the order of the ends
agrees with the clock at every update, the list is the register of the bans given and not
found to be over, and an address is refused exactly if a ban for it is not over, or a
permanent one exists.  The next event keeps this up exactly if it meets the condition too. -/
theorem bans_exact {cfg : Config} {es : List BanEvent}
    (hrun : Run.Steps banStep (BanClean ipbans gbans) (initial cfg) es s) :
    s.register = Register.run { bans := 0, clock := 0 } es ∧
      (∀ ip, s.checkbans ipbans gbans ip = true ↔
        s.register.Bans ip ∨ checkBanlist ipbans ip = true ∨ checkBanlist gbans ip = true) ∧
      ∀ e, (∃ t, s.banStep e = .ok t ∧ t.register = s.register.step e ∧ Exact ipbans gbans t) ↔
        s.BanClean ipbans gbans e := by
  obtain ⟨hreg, hex⟩ := Exact.of_steps hrun (exact_initial cfg)
  exact ⟨hreg, hex.refuses, hex.step_iff⟩

instance (e : BanEvent) : Decidable (s.BanClean ipbans gbans e) :=
  match e with
  | .addban _ _ => inferInstanceAs (Decidable (_ ∨ _))
  | .serverslice millis => inferInstanceAs (Decidable
      (∀ a ∈ s.bannedips, ∀ b ∈ s.bannedips, a.over (int32 millis) = true →
        b.over (int32 millis) = false → a.expire < b.expire))
  | .clearbans => inferInstanceAs (Decidable True)

/-- Two bans, of which the shorter one ends. -/
theorem bans_exact_two : ∃ s : Server, s.checkbans [] [] 7 = true ∧ s.checkbans [] [] 9 = false ∧
    s.register = Register.run { bans := 0, clock := 0 }
      [.serverslice 1000, .addban 7 14400000, .addban 9 60000, .serverslice 61000] := by
  obtain ⟨s, hrun, h7, h9⟩ := Run.Steps.of_execIf banStep (BanClean [] []) (initial sampleConfig)
    [.serverslice 1000, .addban 7 14400000, .addban 9 60000, .serverslice 61000]
    (p := fun s => s.checkbans [] [] 7 = true ∧ s.checkbans [] [] 9 = false) (by decide)
  exact ⟨s, h7, h9, (bans_exact hrun).1⟩

/-- A ban whose end lies past the largest clock value stands before one that ends earlier:
when that one is over it stays on the list, and its address is refused. -/
theorem stale_ban : ∃ s t : Server, Run.Reachable banStep (initial sampleConfig) s ∧
    s.banStep (.serverslice 2147483648) = .ok t ∧ t.checkbans [] [] 7 = true ∧
    ∀ b ∈ t.bannedips, b.ip = 7 → b.over t.totalmillis = true := by
  obtain ⟨s, hrun, hs⟩ := Run.Reachable.of_any banStep (initial sampleConfig)
    [.serverslice 2147482648, .addban 7 500, .addban 9 14400000]
    (p := fun s =>
      { s with totalmillis := int32 2147483648 }.prunebans.checkbans [] [] 7 = true ∧
      ∀ b ∈ { s with totalmillis := int32 2147483648 }.prunebans.bannedips,
        b.ip = 7 → b.over (int32 2147483648) = true) (by decide)
  obtain ⟨hcheck, hover⟩ := of_decide_eq_true hs
  exact ⟨s, _, hrun, rfl, hcheck, hover⟩

end Server
end QServ
