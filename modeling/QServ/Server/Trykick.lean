import QServ.Server.Kick

/-!
# `trykick`

`trykick` decides with the level it is given (the actor's own privilege, or that of a
verified auth kick) whether a kick is allowed, announces it, bans the address, and leaves
the disconnecting to `kickclients`, which decides again with the privilege stored in the
actor's record.

* `trykick_eq`: a kick by its decision.
* `trykick_run`: an allowed kick runs the loop of `kickclients` to its end.
-/

namespace QServ
namespace Server

open ReverseLoop

variable (s : Server)

/-- The level `trykick` goes by: that of the auth kick where it is above the actor's own. -/
def kickPriv (ci : ClientInfo) (authname : Option String) (authpriv : Priv) : Priv :=
  if authname.isSome && !(decide (authpriv ≤ ci.privilege) || ci.isLocal) then authpriv
  else ci.privilege

/-- The name the kick is announced under: with the auth name where that was needed. -/
def kicker (ci : ClientInfo) (authname authdesc : Option String) (authpriv : Priv) : String :=
  match authname with
  | none => s.colorname ci
  | some an =>
    if authpriv ≤ ci.privilege || ci.isLocal then s.colorname ci
    else
      match authdesc with
      | none => s.colorname ci ++ " as '\x0cs\x0c5" ++ an ++ "\x0cr'"
      | some ad =>
        if ad = "" then s.colorname ci ++ " as '\x0cs\x0c5" ++ an ++ "\x0cr'"
        else s.colorname ci ++ " as '\x0cs\x0c5" ++ an ++ "\x0cr' [\x0cs\x0c0" ++ ad ++ "\x0cr]"

/-- The announcement of a kick. -/
def kickMsg (kicker victim : String) (reason : Option String) : String :=
  match reason with
  | none => "\x0c0" ++ kicker ++ " \x0c7kicked \x0c3" ++ victim
  | some r =>
    if r = "" then "\x0c0" ++ kicker ++ " \x0c7kicked \x0c3" ++ victim
    else "\x0c0" ++ kicker ++ " \x0c7kicked \x0c3" ++ victim ++ " \x0c7because: " ++ r

/-- The time a kick bans for: `4*60*60000` milliseconds. -/
def kickban : Int := 4 * 60 * 60000

/-- `trykick(ci, victim, reason, authname, authdesc, authpriv, trial)`. -/
def trykick (cn victim : Int) (reason authname authdesc : Option String) (authpriv : Priv)
    (trial : Bool) : Except Fault (Server × Bool) :=
  match s.info cn with
  | none => .error .useAfterFree
  | some ci =>
    let priv := kickPriv ci authname authpriv
    if (priv ≠ .none || ci.isLocal) && ci.clientnum ≠ victim then
      match s.getclientinfo victim with
      | none => .ok (s, false)
      | some vinfo =>
        if (vinfo.privilege ≤ priv || ci.isLocal) && vinfo.privilege < .admin && !vinfo.isLocal then
          if trial then .ok (s, true)
          else
            let s := s.sendservmsg (kickMsg (s.kicker ci authname authdesc authpriv)
              (s.colorname vinfo) reason)
            let ip := s.getclientip victim
            ((s.addban ip kickban).kickclients ip (some cn)).map fun s => (s, false)
        else .ok (s, false)
    else .ok (s, false)

/-- The decision of `trykick`: the level given is high enough for this victim. -/
def kickAllowed (ci vinfo : ClientInfo) (authname : Option String) (authpriv : Priv) : Bool :=
  (decide (kickPriv ci authname authpriv ≠ .none) || ci.isLocal) &&
    decide (ci.clientnum ≠ vinfo.clientnum) &&
    ((decide (vinfo.privilege ≤ kickPriv ci authname authpriv) || ci.isLocal) &&
      decide (vinfo.privilege < .admin) && !vinfo.isLocal)

variable {s}

/-- `trykick` for a known victim, by its decision. -/
theorem trykick_eq (h : s.WF) {cn victim : Int} {ci vinfo : ClientInfo} (hci : s.info cn = some ci)
    (hv : s.getclientinfo victim = some vinfo) (reason authname authdesc : Option String)
    (authpriv : Priv) :
    s.trykick cn victim reason authname authdesc authpriv false =
      if kickAllowed ci vinfo authname authpriv then
        (((s.sendservmsg (kickMsg (s.kicker ci authname authdesc authpriv)
          (s.colorname vinfo) reason)).addban (s.getclientip victim) kickban).kickclients
            (s.getclientip victim) (some cn)).map fun s => (s, false)
      else .ok (s, false) := by
  have hvn : vinfo.clientnum = victim := by
    unfold getclientinfo at hv
    split at hv
    · exact h.clientnum victim vinfo hv
    · cases hv
  unfold trykick kickAllowed
  rw [hci, hvn]
  simp only [hv]
  by_cases h1 : ((decide (kickPriv ci authname authpriv ≠ .none) || ci.isLocal) &&
      decide (ci.clientnum ≠ victim)) = true
  · rw [if_pos h1, h1, Bool.true_and, if_neg Bool.false_ne_true]
    rfl
  · rw [if_neg h1, Bool.eq_false_iff.mpr h1, Bool.false_and, if_neg Bool.false_ne_true]

/-- No known victim, no kick. -/
theorem trykick_unknown {cn victim : Int} {ci : ClientInfo} (hci : s.info cn = some ci)
    (hv : s.getclientinfo victim = none) (reason authname authdesc : Option String)
    (authpriv : Priv) (trial : Bool) :
    s.trykick cn victim reason authname authdesc authpriv trial = .ok (s, false) := by
  unfold trykick
  rw [hci]
  simp only [hv]
  split <;> rfl

/-- An allowed kick runs `kickclients` to its end: whoever it is after goes, and nobody
else. -/
theorem trykick_run (h : s.WF) {cn victim : Int} {ci vinfo : ClientInfo}
    (hcn : cn ∈ s.clients) (hhum : cn < MAXCLIENTS) (hci : s.info cn = some ci)
    (hv : s.getclientinfo victim = some vinfo) (reason authname authdesc : Option String)
    (authpriv : Priv) (hallow : kickAllowed ci vinfo authname authpriv) :
    ∃ s', s.trykick cn victim reason authname authdesc authpriv false = .ok (s', false) ∧
      Sweeping s (some cn) s' ∧
      s'.clients = s.clients.filter fun n => !s.kicked (s.getclientip victim) (some cn) n := by
  obtain ⟨ip, hip⟩ : ∃ ip, s.getclientip victim = ip := ⟨_, rfl⟩
  rw [trykick_eq h hci hv, if_pos hallow, hip]
  generalize hs1 : (s.sendservmsg (kickMsg (s.kicker ci authname authdesc authpriv)
    (s.colorname vinfo) reason)).addban ip kickban = s1
  -- announcing and banning leave the roster alone, and with it whom the loop is after
  have hroster : s1.roster = s.roster := by
    rw [← hs1]
    rfl
  have hcl : s1.clients = s.clients := clients_of_roster hroster
  have hkicked : s1.kicked ip (some cn) = s.kicked ip (some cn) := by
    rw [← hs1]
    rfl
  have hsafe : ¬ s.kicked ip (some cn) cn := by
    intro hk
    obtain ⟨c, -, -, -, -, -, hact⟩ := kicked_spec h hk
    exact (hact cn rfl ci hci).2 rfl
  have hanchor : isHuman cn = true := by simpa [isHuman] using hhum
  have hactor : ∀ a ∈ some cn, a ∈ s1.clients ∧ a < MAXCLIENTS := by
    intro a ha
    obtain rfl := Option.some.inj ha
    exact ⟨hcl ▸ hcn, hhum⟩
  obtain ⟨s', hrun, hsw, hcl'⟩ := kickclients_run (h.of_roster hroster) ip hactor
    (by
      unfold BotAhead
      rw [hkicked, hcl]
      exact not_stranded_of_anchor hcn hanchor hsafe)
  refine ⟨s', by rw [hrun]; rfl, ?_, ?_⟩
  · refine ⟨hsw.wf, hcl ▸ hsw.sub, ?_, ?_, ?_, hsw.actor⟩
    · intro n hn
      rw [← hcl] at hn
      rw [hsw.kept n hn]
      exact info_of_roster hroster n
    · intro n hn
      rw [← hcl] at hn
      exact hsw.freed n hn
    · rw [hsw.gamemillis]
      exact Server.of_roster Server.gamemillis (fun _ => rfl) hroster
  · rw [hcl', hkicked, hcl, survivors_of_anchor hcn hanchor hsafe]

end Server
end QServ
