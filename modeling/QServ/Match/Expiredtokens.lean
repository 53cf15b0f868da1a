import QServ.Lib.Sweep
import QServ.Match.Tokens

/-!
# The limits on skulls

How many tokens lie on the map, and the lists in which those that are removed are announced.

* `dropscan`, `leavescan`, `updatescan`: the loops of `fpsgame/collect.h` with their packets.
* `Limits`: the limits on the tokens of a player, of a base, and of those who have left.
* `tokens_limited`: the limits are met in every run, and what is removed is announced.
-/

namespace QServ

/-- What is said of a token and does not change as long as it lies on the map. -/
def CollectToken.mark (t : CollectToken) : Int × Int × Int := (t.id, t.team, t.droptime)

namespace Collect

/-! ## The loops with their packets -/

/-- `N_EXPIRETOKENS`. -/
def N_EXPIRETOKENS : Int := 109

/-- The list of the tokens that are removed, if there are any. -/
def expirelist (ids : List Int) : List (List Int) :=
  if ids = [] then [] else [N_EXPIRETOKENS :: ids ++ [-1]]

/-- The loop of `droptokens` over the tokens before `i`, with `expired` and the packet. -/
def dropscan (cn team : Int) : Nat → Nat × Nat → List CollectToken → Nat → List Int →
    List CollectToken × Nat × List Int
  | 0, _, tokens, expired, p => (tokens, expired, p)
  | i + 1, k, tokens, expired, p =>
    match tokens[i]? with
    | none => dropscan cn team i k tokens expired p
    | some t =>
      if t.dropper = cn then
        match overlimit TOKENLIMIT team k t with
        | (k, none) =>
          dropscan cn team i k (removeunordered tokens i) (expired + 1)
            ((if expired = 0 then p ++ [N_EXPIRETOKENS] else p) ++ [t.id])
        | (k, some _) => dropscan cn team i k tokens expired p
      else dropscan cn team i k tokens expired p

/-- The tokens that `droptokens` keeps, and what it has put into the packet then. -/
def dropexpired (s : Collect) (ci : Carrier) (carried : Nat) : List CollectToken × List Int :=
  let (tokens, expired, p) :=
    dropscan ci.cn (collectteambase ci.team) s.tokens.length (1, carried) s.tokens 0 []
  (tokens, if expired ≠ 0 then p ++ [-1] else p)

/-- `if(t.dropper == ci->clientnum) t.dropper = INT_MIN; else if(t.dropper > INT_MIN) continue;`. -/
def disown (cn : Int) (t : CollectToken) : Option CollectToken :=
  if t.dropper = cn then some { t with dropper := INT_MIN }
  else if INT_MIN < t.dropper then none
  else some t

/-- `while(--i >= 0)` in the loop of `leavegame`. -/
def leaverest (cn team : Int) : Nat → Nat × Nat → List CollectToken → List Int →
    List CollectToken × List Int
  | 0, _, tokens, p => (tokens, p)
  | i + 1, k, tokens, p =>
    match tokens[i]? with
    | none => leaverest cn team i k tokens p
    | some t =>
      match disown cn t with
      | none => leaverest cn team i k tokens p
      | some t =>
        match overlimit UNOWNEDTOKENLIMIT team k t with
        | (k, none) => leaverest cn team i k (removeunordered tokens i) (p ++ [t.id])
        | (k, some t) => leaverest cn team i k (tokens.set i t) p

/-- The loop of `leavegame` over the tokens before `i`, with the packets that are sent. -/
def leavescan (cn team : Int) : Nat → Nat × Nat → List CollectToken →
    List CollectToken × List (List Int)
  | 0, _, tokens => (tokens, [])
  | i + 1, k, tokens =>
    match tokens[i]? with
    | none => leavescan cn team i k tokens
    | some t =>
      match disown cn t with
      | none => leavescan cn team i k tokens
      | some t =>
        match overlimit UNOWNEDTOKENLIMIT team k t with
        | (k, none) =>
          let (tokens, p) :=
            leaverest cn team i k (removeunordered tokens i) [N_EXPIRETOKENS, t.id]
          (tokens, [p ++ [-1]])
        | (k, some t) => leavescan cn team i k (tokens.set i t)

/-- The loop of `update` over the tokens before `i`, with `resets`. -/
def updatescan (lastmillis : Int) : Nat → List CollectToken → List Int →
    List CollectToken × List Int
  | 0, tokens, resets => (tokens, resets)
  | i + 1, tokens, resets =>
    match tokens[i]? with
    | none => updatescan lastmillis i tokens resets
    | some t =>
      if EXPIRETOKENTIME ≤ lastmillis - t.droptime then
        updatescan lastmillis i (removeunordered tokens i) (resets ++ [t.id])
      else updatescan lastmillis i tokens resets

/-! ## The loops are scans -/

/-- The body of the loop of `droptokens`. -/
def dropbody (cn team : Int) (k : Nat × Nat) (t : CollectToken) :
    (Nat × Nat) × Option CollectToken :=
  if t.dropper = cn then overlimit TOKENLIMIT team k t else (k, some t)

/-- The body of the loops of `leavegame`. -/
def leavebody (cn team : Int) (k : Nat × Nat) (t : CollectToken) :
    (Nat × Nat) × Option CollectToken :=
  match disown cn t with
  | none => (k, some t)
  | some t => overlimit UNOWNEDTOKENLIMIT team k t

/-- The body of the loop of `update`. -/
def updatebody (lastmillis : Int) (_ : Unit) (t : CollectToken) : Unit × Option CollectToken :=
  ((), if EXPIRETOKENTIME ≤ lastmillis - t.droptime then none else some t)

theorem removeunordered_eq (l : List CollectToken) (i : Nat) :
    removeunordered l i = Sweep.removeunordered l i := by
  unfold removeunordered Sweep.removeunordered
  cases l.getLast? <;> rfl

theorem sweep_eq_back {κ : Type} (body : κ → CollectToken → κ × Option CollectToken) (n : Nat)
    (k : κ) (l gone : List CollectToken) : sweep body n k l = (Sweep.back body n k l gone).2.1 := by
  induction n generalizing k l gone with
  | zero => rfl
  | succ i ih =>
    unfold sweep Sweep.back
    cases l[i]? with
    | none => exact ih k l gone
    | some t =>
      dsimp only
      obtain ⟨k', _ | t'⟩ := body k t
      · dsimp only
        rw [removeunordered_eq]
        exact ih k' _ _
      · exact ih k' _ _

theorem set_getElem? {l : List CollectToken} {i : Nat} {t : CollectToken} (h : l[i]? = some t) :
    l.set i t = l := by
  obtain ⟨hi, rfl⟩ := List.getElem?_eq_some_iff.mp h
  exact List.set_getElem_self hi

/-- The counter that is advanced, and what becomes of the token. -/
theorem overlimit_cases (limit : Nat) (team : Int) (k : Nat × Nat) (t : CollectToken) :
    (overlimit limit team k t).2 = none ∨ (overlimit limit team k t).2 = some t := by
  unfold overlimit
  split
  · dsimp only
    split
    · exact .inl rfl
    · exact .inr rfl
  · dsimp only
    split
    · exact .inl rfl
    · exact .inr rfl

/-- What is in the packet of `droptokens` when some tokens have been removed. -/
def expirehead (gone : List CollectToken) : List Int :=
  if gone = [] then [] else N_EXPIRETOKENS :: gone.map CollectToken.id

theorem expirehead_append (gone : List CollectToken) (t : CollectToken) :
    expirehead (gone ++ [t]) =
      (if gone.length = 0 then expirehead gone ++ [N_EXPIRETOKENS] else expirehead gone) ++
        [t.id] := by
  obtain _ | ⟨g, gone⟩ := gone
  · rfl
  · simp [expirehead]

theorem dropscan_eq (cn team : Int) (i : Nat) (k : Nat × Nat) (tokens gone : List CollectToken) :
    dropscan cn team i k tokens gone.length (expirehead gone) =
      ((Sweep.back (dropbody cn team) i k tokens gone).2.1,
        (Sweep.back (dropbody cn team) i k tokens gone).2.2.length,
        expirehead (Sweep.back (dropbody cn team) i k tokens gone).2.2) := by
  induction i generalizing k tokens gone with
  | zero => rfl
  | succ i ih =>
    unfold dropscan Sweep.back
    cases ht : tokens[i]? with
    | none => exact ih k tokens gone
    | some t =>
      dsimp only [dropbody]
      split
      · have hcases := overlimit_cases TOKENLIMIT team k t
        generalize overlimit TOKENLIMIT team k t = r at hcases
        obtain ⟨k', t'⟩ := r
        obtain rfl | rfl : t' = none ∨ t' = some t := hcases
        · dsimp only
          have hlen : gone.length + 1 = (gone ++ [t]).length := by simp
          rw [← expirehead_append, hlen, removeunordered_eq]
          exact ih k' _ _
        · dsimp only
          rw [set_getElem? ht]
          exact ih k' tokens gone
      · dsimp only
        rw [set_getElem? ht]
        exact ih k tokens gone

/-- A token whose dropper has left. -/
theorem disown_some {cn : Int} {t t' : CollectToken} (h : disown cn t = some t') :
    t' = { t with dropper := INT_MIN } ∨ t' = t ∧ t.dropper ≤ INT_MIN := by
  unfold disown at h
  split at h
  · exact .inl (Option.some.inj h).symm
  · split at h
    · cases h
    · next hle => exact .inr ⟨(Option.some.inj h).symm, Int.not_lt.mp hle⟩

theorem disown_id {cn : Int} {t t' : CollectToken} (h : disown cn t = some t') : t'.id = t.id := by
  obtain rfl | ⟨rfl, -⟩ := disown_some h
  · rfl
  · rfl

theorem leaverest_eq (cn team : Int) (i : Nat) (k : Nat × Nat) (tokens gone : List CollectToken) :
    leaverest cn team i k tokens (N_EXPIRETOKENS :: gone.map CollectToken.id) =
      ((Sweep.back (leavebody cn team) i k tokens gone).2.1,
        N_EXPIRETOKENS ::
          (Sweep.back (leavebody cn team) i k tokens gone).2.2.map CollectToken.id) := by
  induction i generalizing k tokens gone with
  | zero => rfl
  | succ i ih =>
    unfold leaverest Sweep.back
    cases ht : tokens[i]? with
    | none => exact ih k tokens gone
    | some t =>
      dsimp only [leavebody]
      cases hd : disown cn t with
      | none =>
        dsimp only
        rw [set_getElem? ht]
        exact ih k tokens gone
      | some t' =>
        have hid := disown_id hd
        dsimp only
        obtain ⟨k', _ | u⟩ := overlimit UNOWNEDTOKENLIMIT team k t'
        · dsimp only
          have hp : N_EXPIRETOKENS :: gone.map CollectToken.id ++ [t'.id] =
              N_EXPIRETOKENS :: (gone ++ [t]).map CollectToken.id := by
            rw [List.map_append, hid]
            rfl
          rw [hp, removeunordered_eq]
          exact ih k' _ _
        · exact ih k' _ _

theorem leavescan_eq (cn team : Int) (i : Nat) (k : Nat × Nat) (tokens : List CollectToken) :
    leavescan cn team i k tokens =
      ((Sweep.back (leavebody cn team) i k tokens []).2.1,
        expirelist ((Sweep.back (leavebody cn team) i k tokens []).2.2.map CollectToken.id)) := by
  induction i generalizing k tokens with
  | zero => rfl
  | succ i ih =>
    unfold leavescan Sweep.back
    cases ht : tokens[i]? with
    | none => exact ih k tokens
    | some t =>
      dsimp only [leavebody]
      cases hd : disown cn t with
      | none =>
        dsimp only
        rw [set_getElem? ht]
        exact ih k tokens
      | some t' =>
        dsimp only
        obtain ⟨k', _ | u⟩ := overlimit UNOWNEDTOKENLIMIT team k t'
        · -- the inner loop goes down to the first token, and the outer one has nothing left
          have hrest := leaverest_eq cn team i k' (removeunordered tokens i) [t]
          rw [List.map_cons, List.map_nil, ← disown_id hd] at hrest
          have hgone := Sweep.back_gone (leavebody cn team) i k' (removeunordered tokens i) [t]
          dsimp only
          rw [hrest, List.nil_append, ← removeunordered_eq, hgone]
          rfl
        · exact ih k' _

theorem updatescan_eq (lastmillis : Int) (i : Nat) (tokens gone : List CollectToken) :
    updatescan lastmillis i tokens (gone.map CollectToken.id) =
      ((Sweep.back (updatebody lastmillis) i () tokens gone).2.1,
        (Sweep.back (updatebody lastmillis) i () tokens gone).2.2.map CollectToken.id) := by
  induction i generalizing tokens gone with
  | zero => rfl
  | succ i ih =>
    unfold updatescan Sweep.back
    cases ht : tokens[i]? with
    | none => exact ih tokens gone
    | some t =>
      dsimp only [updatebody]
      split
      · have hp : gone.map CollectToken.id ++ [t.id] = (gone ++ [t]).map CollectToken.id := by
          rw [List.map_append]
          rfl
        dsimp only
        rw [hp, removeunordered_eq]
        exact ih _ _
      · dsimp only
        rw [set_getElem? ht]
        exact ih tokens gone

/-! ## What the loops keep -/

/-- Some tokens are removed and the others are kept, whoever is said to have dropped them. -/
def Kept (before kept gone : List CollectToken) : Prop :=
  (kept.map CollectToken.mark ++ gone.map CollectToken.mark).Perm (before.map CollectToken.mark)

/-- A scan of all tokens. -/
theorem kept_scan {κ : Type} (body : κ → CollectToken → κ × Option CollectToken)
    (h : ∀ k t k' t', body k t = (k', some t') → t'.mark = t.mark) (tokens : List CollectToken)
    (k : κ) :
    (sweep body tokens.length k tokens).Perm (Sweep.scan body k tokens.reverse).2.1 ∧
    Kept tokens (sweep body tokens.length k tokens)
      (Sweep.back body tokens.length k tokens []).2.2 := by
  obtain ⟨hkept, hgone⟩ := Sweep.back_length body tokens k
  rw [← sweep_eq_back] at hkept
  refine ⟨hkept, ?_⟩
  unfold Kept
  rw [hgone]
  exact ((hkept.map _).append_right _).trans
    ((Sweep.map_kept_gone h).trans ((List.reverse_perm tokens).map _))

/-- The body of the loop of `droptokens` leaves a token as it is. -/
theorem dropbody_some {cn team : Int} {k k' : Nat × Nat} {t t' : CollectToken}
    (h : dropbody cn team k t = (k', some t')) : t' = t := by
  unfold dropbody at h
  split at h
  · have hcases := overlimit_cases TOKENLIMIT team k t
    rw [h] at hcases
    exact Option.some.inj (hcases.resolve_left nofun)
  · exact (Option.some.inj (Prod.mk.inj h).2).symm

/-- A counter and the limit. -/
theorem overlimit_fst (limit : Nat) (team : Int) (k : Nat × Nat) (t : CollectToken) :
    k.1 ≤ (overlimit limit team k t).1.1 ∧ k.2 ≤ (overlimit limit team k t).1.2 ∧
    ∀ t', (overlimit limit team k t).2 = some t' →
      (t.team = team →
        k.1 < (overlimit limit team k t).1.1 ∧ (overlimit limit team k t).1.1 ≤ limit) ∧
      (t.team ≠ team →
        k.2 < (overlimit limit team k t).1.2 ∧ (overlimit limit team k t).1.2 ≤ limit) := by
  unfold overlimit
  split
  · next hteam =>
    refine ⟨Nat.le_succ _, Nat.le_refl _, fun t' h => ⟨fun _ => ?_, fun hne => (hne hteam).elim⟩⟩
    dsimp only at h ⊢
    split at h
    · cases h
    · omega
  · next hteam =>
    refine ⟨Nat.le_refl _, Nat.le_succ _, fun t' h => ⟨fun heq => (hteam heq).elim, fun _ => ?_⟩⟩
    dsimp only at h ⊢
    split at h
    · cases h
    · omega

/-- **What `droptokens` keeps**: no more tokens of the player than the limits leave room for. -/
theorem keeptokens_spec (s : Collect) (ci : Carrier) (carried : Nat) :
    ∃ gone, Kept s.tokens (s.keeptokens ci carried) gone ∧
      s.dropexpired ci carried = (s.keeptokens ci carried,
        if gone = [] then [] else N_EXPIRETOKENS :: gone.map CollectToken.id ++ [-1]) ∧
      ((s.keeptokens ci carried).countP fun t =>
        t.dropper = ci.cn ∧ t.team = collectteambase ci.team) ≤ TOKENLIMIT - 1 ∧
      ((s.keeptokens ci carried).countP fun t =>
        t.dropper = ci.cn ∧ t.team ≠ collectteambase ci.team) ≤ TOKENLIMIT - carried ∧
      ∀ p, (s.keeptokens ci carried).countP p ≤ s.tokens.countP p := by
  have hsame : ∀ k t k' t', dropbody ci.cn (collectteambase ci.team) k t = (k', some t') → t' = t :=
    fun k t k' t' h => dropbody_some h
  obtain ⟨hperm, hkept⟩ := kept_scan (dropbody ci.cn (collectteambase ci.team))
    (fun k t k' t' h => by rw [hsame k t k' t' h]) s.tokens (1, carried)
  have hlimit := overlimit_fst TOKENLIMIT (collectteambase ci.team)
  refine ⟨_, hkept, ?_, ?_, ?_, fun p => ?_⟩
  · have heq := dropscan_eq ci.cn (collectteambase ci.team) s.tokens.length (1, carried) s.tokens []
    unfold dropexpired
    rw [List.length_nil, expirehead, if_pos rfl] at heq
    rw [heq]
    dsimp only
    rw [← sweep_eq_back]
    refine Prod.ext rfl ?_
    dsimp only
    cases (Sweep.back (dropbody ci.cn (collectteambase ci.team)) s.tokens.length (1, carried)
      s.tokens []).2.2 with
    | nil => rfl
    | cons g gone => rfl
  · change List.countP _ (sweep (dropbody ci.cn (collectteambase ci.team)) s.tokens.length
      (1, carried) s.tokens) ≤ _
    rw [hperm.countP_eq]
    refine Sweep.countP_kept_le Prod.fst (fun k t => ?_) fun k t t' ht' hp => ?_
    · unfold dropbody
      split
      · exact (hlimit k t).1
      · exact Nat.le_refl _
    · obtain ⟨hdropper, hteam⟩ := of_decide_eq_true hp
      obtain rfl := hsame k t _ t' (Prod.ext rfl ht')
      unfold dropbody at ht' ⊢
      rw [if_pos hdropper] at ht' ⊢
      exact ((hlimit k t').2.2 _ ht').1 hteam
  · change List.countP _ (sweep (dropbody ci.cn (collectteambase ci.team)) s.tokens.length
      (1, carried) s.tokens) ≤ _
    rw [hperm.countP_eq]
    refine Sweep.countP_kept_le Prod.snd (fun k t => ?_) fun k t t' ht' hp => ?_
    · unfold dropbody
      split
      · exact (hlimit k t).2.1
      · exact Nat.le_refl _
    · obtain ⟨hdropper, hteam⟩ := of_decide_eq_true hp
      obtain rfl := hsame k t _ t' (Prod.ext rfl ht')
      unfold dropbody at ht' ⊢
      rw [if_pos hdropper] at ht' ⊢
      exact ((hlimit k t').2.2 _ ht').2 hteam
  · change List.countP _ (sweep (dropbody ci.cn (collectteambase ci.team)) s.tokens.length
      (1, carried) s.tokens) ≤ _
    rw [hperm.countP_eq, ← (List.reverse_perm s.tokens).countP_eq]
    refine Sweep.countP_kept_mono fun k t k' t' h hp => ?_
    rwa [← hsame k t k' t' h]

theorem tokens_leavegame (s : Collect) (ci : Carrier) : (s.leavegame ci true).tokens =
    sweep (leavebody ci.cn (collectteambase ci.team)) s.tokens.length (0, 0) s.tokens := by
  have hbody : (fun (k : Nat × Nat) t =>
      if t.dropper = ci.cn then
        overlimit UNOWNEDTOKENLIMIT (collectteambase ci.team) k { t with dropper := INT_MIN }
      else if INT_MIN < t.dropper then (k, some t)
      else overlimit UNOWNEDTOKENLIMIT (collectteambase ci.team) k t) =
      leavebody ci.cn (collectteambase ci.team) := by
    funext k t
    unfold leavebody disown
    split
    · rfl
    · split <;> rfl
  rw [← hbody]
  rfl

/-- What the loops of `leavegame` do with a token that they keep. -/
theorem leavebody_some {cn team : Int} {k k' : Nat × Nat} {t t' : CollectToken}
    (h : leavebody cn team k t = (k', some t')) :
    k' = k ∧ t' = t ∧ t.dropper ≠ cn ∧ INT_MIN < t.dropper ∨
      t'.mark = t.mark ∧ t'.dropper ≤ INT_MIN ∧ disown cn t = some t' ∧
        overlimit UNOWNEDTOKENLIMIT team k t' = (k', some t') := by
  unfold leavebody at h
  cases hd : disown cn t with
  | none =>
    rw [hd] at h
    obtain ⟨rfl, heq⟩ := Prod.mk.inj h
    refine .inl ⟨rfl, (Option.some.inj heq).symm, ?_⟩
    unfold disown at hd
    split at hd
    · cases hd
    · split at hd
      · exact ⟨by assumption, by assumption⟩
      · cases hd
  | some u =>
    rw [hd] at h
    dsimp only at h
    have hcases := overlimit_cases UNOWNEDTOKENLIMIT team k u
    rw [h] at hcases
    obtain rfl := Option.some.inj (hcases.resolve_left nofun)
    refine .inr ⟨?_, ?_, rfl, h⟩
    · obtain rfl | ⟨rfl, -⟩ := disown_some hd
      · rfl
      · rfl
    · obtain rfl | ⟨rfl, hle⟩ := disown_some hd
      · exact Int.le_refl _
      · exact hle

/-- **What `leavegame` keeps** of the tokens without a dropper, with those of the player who
leaves. -/
theorem leavegame_spec (s : Collect) (ci : Carrier) (hcn : INT_MIN < ci.cn) :
    ∃ gone, Kept s.tokens (s.leavegame ci true).tokens gone ∧
      leavescan ci.cn (collectteambase ci.team) s.tokens.length (0, 0) s.tokens =
        ((s.leavegame ci true).tokens, expirelist (gone.map CollectToken.id)) ∧
      ((s.leavegame ci true).tokens.countP fun t =>
        t.dropper = INT_MIN ∧ t.team = collectteambase ci.team) ≤ UNOWNEDTOKENLIMIT ∧
      ((s.leavegame ci true).tokens.countP fun t =>
        t.dropper = INT_MIN ∧ t.team ≠ collectteambase ci.team) ≤ UNOWNEDTOKENLIMIT ∧
      (∀ t ∈ (s.leavegame ci true).tokens, t.dropper ≠ ci.cn) ∧
      ∀ p : CollectToken → Bool, (∀ t, p t → INT_MIN < t.dropper) →
        (s.leavegame ci true).tokens.countP p ≤ s.tokens.countP p := by
  rw [tokens_leavegame]
  obtain ⟨hperm, hkept⟩ := kept_scan (leavebody ci.cn (collectteambase ci.team))
    (fun k t k' t' h => by
      obtain ⟨-, rfl, -⟩ | ⟨hmark, -⟩ := leavebody_some h
      · rfl
      · exact hmark) s.tokens (0, 0)
  have hlimit := overlimit_fst UNOWNEDTOKENLIMIT (collectteambase ci.team)
  have hmono : ∀ k t, k.1 ≤ (leavebody ci.cn (collectteambase ci.team) k t).1.1 ∧
      k.2 ≤ (leavebody ci.cn (collectteambase ci.team) k t).1.2 := by
    intro k t
    unfold leavebody
    split
    · exact ⟨Nat.le_refl _, Nat.le_refl _⟩
    · exact ⟨(hlimit k _).1, (hlimit k _).2.1⟩
  refine ⟨_, hkept, ?_, ?_, ?_, ?_, fun p hp => ?_⟩
  · rw [leavescan_eq, ← sweep_eq_back]
  · rw [hperm.countP_eq]
    refine Sweep.countP_kept_le Prod.fst (fun k t => (hmono k t).1) fun k t t' ht' hp => ?_
    obtain ⟨hdropper, hteam⟩ := of_decide_eq_true hp
    obtain ⟨-, rfl, -, hlt⟩ | ⟨-, -, -, hover⟩ := leavebody_some (Prod.ext rfl ht')
    · omega
    · have := (hlimit k t').2.2 t' (by rw [hover])
      rw [hover] at this
      exact this.1 hteam
  · rw [hperm.countP_eq]
    refine Sweep.countP_kept_le Prod.snd (fun k t => (hmono k t).2) fun k t t' ht' hp => ?_
    obtain ⟨hdropper, hteam⟩ := of_decide_eq_true hp
    obtain ⟨-, rfl, -, hlt⟩ | ⟨-, -, -, hover⟩ := leavebody_some (Prod.ext rfl ht')
    · omega
    · have := (hlimit k t').2.2 t' (by rw [hover])
      rw [hover] at this
      exact this.2 hteam
  · intro t ht hdropper
    have hnone : (Sweep.scan (leavebody ci.cn (collectteambase ci.team)) (0, 0)
        s.tokens.reverse).2.1.countP (fun t => t.dropper = ci.cn) ≤ 0 - 0 := by
      refine Sweep.countP_kept_le (fun _ => 0) (fun _ _ => Nat.le_refl 0) fun k t t' ht' hp => ?_
      have hp := of_decide_eq_true hp
      obtain ⟨-, rfl, hne, -⟩ | ⟨-, hle, -⟩ := leavebody_some (Prod.ext rfl ht')
      · exact (hne hp).elim
      · omega
    rw [← hperm.countP_eq] at hnone
    exact List.countP_eq_zero.mp (Nat.le_zero.mp hnone) t ht (decide_eq_true hdropper)
  · rw [hperm.countP_eq, ← (List.reverse_perm s.tokens).countP_eq]
    refine Sweep.countP_kept_mono fun k t k' t' h hpt => ?_
    obtain ⟨-, rfl, -⟩ | ⟨-, hle, -⟩ := leavebody_some h
    · exact hpt
    · have := hp t' hpt
      omega

/-- **What `update` keeps.** -/
theorem updatescan_spec (tokens : List CollectToken) (lastmillis : Int) :
    ∃ gone, Kept tokens (updatescan lastmillis tokens.length tokens []).1 gone ∧
      (updatescan lastmillis tokens.length tokens []).2 = gone.map CollectToken.id ∧
      sweep (updatebody lastmillis) tokens.length () tokens =
        (updatescan lastmillis tokens.length tokens []).1 ∧
      ∀ p, (updatescan lastmillis tokens.length tokens []).1.countP p ≤ tokens.countP p := by
  have hsame : ∀ k t k' t', updatebody lastmillis k t = (k', some t') → t' = t := by
    intro k t k' t' h
    obtain ⟨-, h⟩ := Prod.mk.inj h
    split at h
    · cases h
    · exact (Option.some.inj h).symm
  obtain ⟨hperm, hkept⟩ := kept_scan (updatebody lastmillis)
    (fun k t k' t' h => by rw [hsame k t k' t' h]) tokens ()
  have heq := updatescan_eq lastmillis tokens.length tokens []
  rw [List.map_nil, ← sweep_eq_back] at heq
  rw [heq]
  refine ⟨_, hkept, rfl, rfl, fun p => ?_⟩
  rw [hperm.countP_eq, ← (List.reverse_perm tokens).countP_eq]
  refine Sweep.countP_kept_mono fun k t k' t' h hp => ?_
  rwa [← hsame k t k' t' h]

/-! ## Tokens that are dropped -/

/-- The numbers of the tokens. -/
structure Numbered (s : Collect) : Prop where
  nonneg : 0 ≤ s.nexttoken
  lt : s.nexttoken < 2 ^ 31
  pos : ∀ t ∈ s.tokens, 0 < t.id

/-- At most `n` tokens have been dropped, each with a number of its own. -/
structure Fresh (s : Collect) (n : Int) : Prop where
  le : s.nexttoken ≤ n
  ids : ∀ t ∈ s.tokens, t.id ≤ s.nexttoken
  nodup : (s.tokens.map CollectToken.id).Nodup

theorem Fresh.mono {s : Collect} {m n : Int} (h : Fresh s m) (hle : m ≤ n) : Fresh s n :=
  ⟨h.le.trans hle, h.ids, h.nodup⟩

variable {s : Collect}

/-- The next number. -/
theorem nexttoken_droptoken (h : Numbered s) (team dropper : Int) :
    0 < (s.droptoken team dropper).nexttoken ∧ (s.droptoken team dropper).nexttoken < 2 ^ 31 ∧
    (s.nexttoken + 1 < 2 ^ 31 → (s.droptoken team dropper).nexttoken = s.nexttoken + 1) := by
  have hnonneg := h.nonneg
  have hlt := h.lt
  have hnext : (s.droptoken team dropper).nexttoken =
      if int32 (s.nexttoken + 1) < 0 then 1 else int32 (s.nexttoken + 1) := rfl
  rw [hnext]
  by_cases hwrap : s.nexttoken + 1 < 2 ^ 31
  · rw [int32_of_lt (by omega) hwrap, if_neg (by omega)]
    exact ⟨by omega, hwrap, fun _ => rfl⟩
  · have hend : s.nexttoken + 1 = 2 ^ 31 := by omega
    rw [hend]
    exact ⟨by decide, by decide, fun h => absurd h (by decide)⟩

theorem numbered_droptoken (h : Numbered s) (team dropper : Int) :
    Numbered (s.droptoken team dropper) := by
  obtain ⟨hpos, hlt, -⟩ := nexttoken_droptoken h team dropper
  refine ⟨hpos.le, hlt, fun t ht => ?_⟩
  obtain ht | ht := List.mem_append.mp ht
  · exact h.pos t ht
  · rw [List.mem_singleton.mp ht]
    exact hpos

theorem fresh_droptoken {n : Int} (h : Numbered s) (hf : Fresh s n) (hn : n + 1 < 2 ^ 31)
    (team dropper : Int) : Fresh (s.droptoken team dropper) (n + 1) := by
  obtain ⟨-, -, hnext⟩ := nexttoken_droptoken h team dropper
  have hle := hf.le
  have hnext := hnext (by omega)
  refine ⟨by omega, fun t ht => ?_, ?_⟩
  · obtain ht | ht := List.mem_append.mp ht
    · have := hf.ids t ht
      omega
    · rw [List.mem_singleton.mp ht]
      exact Int.le_refl _
  · have htokens : (s.droptoken team dropper).tokens.map CollectToken.id =
        s.tokens.map CollectToken.id ++ [(s.droptoken team dropper).nexttoken] := by
      unfold droptoken
      rw [List.map_append]
      rfl
    rw [htokens]
    refine List.nodup_append.mpr ⟨hf.nodup, List.nodup_singleton _, fun x hx y hy => ?_⟩
    obtain ⟨t, ht, rfl⟩ := List.mem_map.mp hx
    have := hf.ids t ht
    rw [List.mem_singleton.mp hy]
    omega

/-- **The tokens of a death**: one of the player and those he has carried. -/
theorem dropall_spec (h : Numbered s) {team : Int} (hteam : 0 < team) (dropper : Int) (n : Nat) :
    ∃ news, (dropall team dropper n s).tokens = s.tokens ++ news ∧
      (∀ t ∈ news, t.dropper = dropper) ∧
      (news.countP fun t => t.team = team) ≤ 1 ∧ (news.countP fun t => t.team ≠ team) ≤ n - 1 ∧
      Numbered (dropall team dropper n s) ∧
      ∀ m, Fresh s m → m + n < 2 ^ 31 → Fresh (dropall team dropper n s) (m + n) ∧
        (dropall team dropper n s).nexttoken = s.nexttoken + n ∧
        ∀ t ∈ news, s.nexttoken < t.id := by
  induction n with
  | zero =>
    refine ⟨[], (List.append_nil _).symm, nofun, Nat.zero_le _, Nat.zero_le _, h, fun m hm _ => ?_⟩
    exact ⟨hm.mono (by omega), (Int.add_zero _).symm, nofun⟩
  | succ n ih =>
    obtain ⟨news, htokens, hdropper, hown, hother, hnum, hfresh⟩ := ih
    have hnext := nexttoken_droptoken hnum (if n = 0 then team else -team) dropper
    have hdrop : (dropall team dropper (n + 1) s).tokens = (dropall team dropper n s).tokens ++
        [{ id := (dropall team dropper (n + 1) s).nexttoken, team := if n = 0 then team else -team,
           droptime := (dropall team dropper n s).lastmillis, dropper }] := rfl
    refine ⟨_, by rw [hdrop, htokens, List.append_assoc], fun t ht => ?_, ?_, ?_,
      numbered_droptoken hnum _ _, fun m hm hlt => ?_⟩
    · obtain ht | ht := List.mem_append.mp ht
      · exact hdropper t ht
      · rw [List.mem_singleton.mp ht]
    · rw [List.countP_append, List.countP_singleton]
      dsimp only
      by_cases hn : n = 0
      · -- only the first token is of his team
        subst hn
        have hnil : news = [] := by
          have : s.tokens = s.tokens ++ news := htokens
          simpa using this
        rw [hnil]
        simp
      · rw [if_neg hn, if_neg (by simp; omega)]
        exact hown
    · rw [List.countP_append, List.countP_singleton]
      dsimp only
      by_cases hn : n = 0
      · rw [if_pos hn, if_neg (by simp)]
        omega
      · have : ∀ b : Bool, (if b then 1 else 0) ≤ 1 := by decide
        have := this (decide ((if n = 0 then team else -team) ≠ team))
        omega
    · push_cast at hlt
      obtain ⟨hf, hn, hids⟩ := hfresh m hm (by omega)
      have hle := hf.le
      have hle' := hm.le
      have heq : (dropall team dropper (n + 1) s).nexttoken = s.nexttoken + n + 1 := by
        rw [← hn]
        exact hnext.2.2 (by omega)
      refine ⟨?_, by rw [heq]; push_cast; omega, fun t ht => ?_⟩
      · have := fresh_droptoken hnum hf (by omega) (if n = 0 then team else -team) dropper
        push_cast
        rw [← Int.add_assoc]
        exact this
      · obtain ht | ht := List.mem_append.mp ht
        · exact hids t ht
        · rw [List.mem_singleton.mp ht]
          dsimp only
          omega

/-- What is kept has its number, and no other token has it. -/
theorem ids_kept {before kept gone : List CollectToken} (h : Kept before kept gone) :
    (kept.map CollectToken.id ++ gone.map CollectToken.id).Perm (before.map CollectToken.id) := by
  have := h.map Prod.fst
  simpa [List.map_map, Function.comp_def, CollectToken.mark] using this

theorem Numbered.kept {g : Collect} {kept gone : List CollectToken} (h : Numbered g)
    (hk : Kept g.tokens kept gone) : Numbered { g with tokens := kept } ∧ ∀ t ∈ gone, 0 < t.id := by
  have hids : ∀ id ∈ g.tokens.map CollectToken.id, 0 < id := fun id hid => by
    obtain ⟨t, ht, rfl⟩ := List.mem_map.mp hid
    exact h.pos t ht
  refine ⟨⟨h.nonneg, h.lt, fun t ht => hids _ ?_⟩, fun t ht => hids _ ?_⟩
  · exact (ids_kept hk).subset (List.mem_append_left _ (List.mem_map_of_mem ht))
  · exact (ids_kept hk).subset (List.mem_append_right _ (List.mem_map_of_mem ht))

theorem Fresh.kept {g : Collect} {n : Int} {kept gone : List CollectToken} (h : Fresh g n)
    (hk : Kept g.tokens kept gone) : Fresh { g with tokens := kept } n ∧
    (∀ t ∈ gone, t.id ≤ g.nexttoken) ∧ ∀ t ∈ kept, ∀ u ∈ gone, t.id ≠ u.id := by
  have hids : ∀ id ∈ g.tokens.map CollectToken.id, id ≤ g.nexttoken := fun id hid => by
    obtain ⟨t, ht, rfl⟩ := List.mem_map.mp hid
    exact h.ids t ht
  have hnodup := (ids_kept hk).nodup_iff.mpr h.nodup
  obtain ⟨hkept, -, hne⟩ := List.nodup_append.mp hnodup
  refine ⟨⟨h.le, fun t ht => hids _ ?_, hkept⟩, fun t ht => hids _ ?_, fun t ht u hu => ?_⟩
  · exact (ids_kept hk).subset (List.mem_append_left _ (List.mem_map_of_mem ht))
  · exact (ids_kept hk).subset (List.mem_append_right _ (List.mem_map_of_mem ht))
  · exact hne _ (List.mem_map_of_mem ht) _ (List.mem_map_of_mem hu)

/-- The lists of tokens that an event sends. -/
def announces (s : Collect) : CollectEvent → List (List Int)
  | .died cn penalty =>
    match s.getinfo cn with
    | none => []
    | some ci =>
      if s.notgotbases then []
      else
        let p := (s.dropexpired ci (if penalty then 0 else ci.tokens)).2
        if p = [] then [] else [p]
  | .clientdisconnect cn =>
    match s.getinfo cn with
    | none => []
    | some ci => (leavescan ci.cn (collectteambase ci.team) s.tokens.length (0, 0) s.tokens).2
  | .update lastmillis gamemillis =>
    if s.gamelimit ≤ gamemillis ∨ s.notgotbases then []
    else expirelist (updatescan lastmillis s.tokens.length s.tokens []).2
  | _ => []

end Collect

/-! ## Runs -/

/-- A game with the team of the player who was the last to disconnect, the deaths and the deposits
since the map was loaded, and the lists that were sent last. -/
structure Skulls where
  game : Collect
  left : Int := 0
  drops : Nat := 0
  lists : List (List Int) := []

namespace Skulls

open Collect

/-- One event. -/
def step (s : Skulls) (e : CollectEvent) : Except Fault Skulls :=
  .ok {
    game := s.game.step e
    left := match e with
      | .clientdisconnect cn =>
        match s.game.getinfo cn with
        | none => s.left
        | some ci => collectteambase ci.team
      | _ => s.left
    drops := match e with
      | .setup .. => 0
      | .died .. | .deposittokens .. => s.drops + 1
      | _ => s.drops
    lists := s.game.announces e }

/-- No client is connected and no map loaded. -/
def initial : Skulls := { game := CollectWorld.initial.game }

/-- Players are on the two teams, and their numbers are those of clients. -/
def Teams (_ : Skulls) : CollectEvent → Prop
  | .connected cn team _ => 0 ≤ cn ∧ 0 < collectteambase team
  | .switchteam _ team => 0 < collectteambase team
  | _ => True

instance (s : Skulls) (e : CollectEvent) : Decidable (Teams s e) :=
  match e with
  | .connected cn team _ => inferInstanceAs (Decidable (0 ≤ cn ∧ 0 < collectteambase team))
  | .switchteam _ team => inferInstanceAs (Decidable (0 < collectteambase team))
  | .setup .. | .parsebases _ | .clientdisconnect _ | .forcespectator _ | .setstate .. | .spawn _
  | .died .. | .deposittokens .. | .taketoken .. | .update .. | .startintermission =>
    inferInstanceAs (Decidable True)

/-- A player of one of the teams who carries what he may. -/
structure Plays (c : Carrier) : Prop where
  cn : 0 ≤ c.cn
  team : 0 < collectteambase c.team
  tokens : c.tokens ≤ TOKENLIMIT

/-- The tokens on the map: those of a player, those of the ones who have left, by the team of the
last of them, and those stolen from a base. -/
structure Few (tokens : List CollectToken) (left : Int) : Prop where
  owned : ∀ cn : Int, 0 ≤ cn → (tokens.countP fun t => t.dropper = cn) ≤ 2 * TOKENLIMIT
  friendly : (tokens.countP fun t => t.dropper = INT_MIN ∧ t.team = left) ≤ UNOWNEDTOKENLIMIT
  enemy : (tokens.countP fun t => t.dropper = INT_MIN ∧ t.team ≠ left) ≤ UNOWNEDTOKENLIMIT
  stolen : ∀ b : Nat, b < MAXBASES →
    (tokens.countP fun t => t.dropper = -1 - (b : Int)) ≤ TOKENLIMIT

/-- **The limits.** -/
structure Limits (s : Skulls) : Prop where
  nodup : (s.game.clients.map Carrier.cn).Nodup
  plays : ∀ c ∈ s.game.clients, Plays c
  bases : s.game.bases.length ≤ MAXBASES
  few : Few s.game.tokens s.left
  numbered : Numbered s.game
  fresh : 6 * (s.drops : Int) < 2 ^ 31 → Fresh s.game (6 * s.drops)

variable {s t : Skulls}

theorem limits_initial : Limits initial := by
  refine ⟨List.nodup_nil, nofun, Nat.zero_le _, ?_, ⟨Int.le_refl _, by decide, nofun⟩, fun _ => ?_⟩
  · exact ⟨fun _ _ => Nat.zero_le _, Nat.zero_le _, Nat.zero_le _, fun _ _ => Nat.zero_le _⟩
  · exact ⟨Int.le_refl _, nofun, List.nodup_nil⟩

/-! ## Clients -/

theorem plays_upd {l : List Carrier} (h : ∀ c ∈ l, Plays c) (cn : Int) {f : Carrier → Carrier}
    (hf : ∀ c ∈ l, c.cn = cn → Plays (f c)) : ∀ c ∈ Keyed.modify Carrier.cn cn f l, Plays c := by
  intro c hc
  obtain ⟨c, hmem, rfl⟩ := List.mem_map.mp hc
  split
  · next hcn => exact hf c hmem hcn
  · exact h c hmem

/-- A player stays on his team and carries no more than before. -/
theorem Plays.keep {c c' : Carrier} (h : Plays c) (hcn : c'.cn = c.cn) (hteam : c'.team = c.team)
    (htokens : c'.tokens ≤ c.tokens) : Plays c' :=
  ⟨hcn ▸ h.cn, hteam ▸ h.team, htokens.trans h.tokens⟩

/-! ## Tokens -/

theorem Few.mono {tokens tokens' : List CollectToken} {left : Int} (h : Few tokens left)
    (hle : ∀ p, tokens'.countP p ≤ tokens.countP p) : Few tokens' left :=
  ⟨fun cn hcn => (hle _).trans (h.owned cn hcn), (hle _).trans h.friendly, (hle _).trans h.enemy,
    fun b hb => (hle _).trans (h.stolen b hb)⟩

theorem countP_append_of_not {p : CollectToken → Bool} {kept news : List CollectToken}
    (h : ∀ t ∈ news, p t = false) : (kept ++ news).countP p = kept.countP p := by
  have hnews : news.countP p = 0 := List.countP_eq_zero.mpr fun t ht => by simp [h t ht]
  rw [List.countP_append, hnews, Nat.add_zero]

/-- Tokens that a player drops count for him. -/
theorem Few.append {kept news : List CollectToken} {left cn : Int} (h : Few kept left)
    (hcn : 0 ≤ cn) (hnews : ∀ t ∈ news, t.dropper = cn)
    (hown : ((kept ++ news).countP fun t => t.dropper = cn) ≤ 2 * TOKENLIMIT) :
    Few (kept ++ news) left := by
  have hother : ∀ d, d ≠ cn → ∀ q : CollectToken → Prop, [DecidablePred q] →
      (∀ t, q t → t.dropper = d) → ∀ t ∈ news, decide (q t) = false := by
    intro d hd q _ hq t ht
    refine decide_eq_false fun hqt => hd ?_
    rw [← hq t hqt, hnews t ht]
  refine ⟨fun c hc => ?_, ?_, ?_, fun b hb => ?_⟩
  · by_cases heq : c = cn
    · rw [heq]
      exact hown
    · rw [countP_append_of_not (hother c heq _ fun t => id)]
      exact h.owned c hc
  · rw [countP_append_of_not (hother INT_MIN (by unfold INT_MIN; omega) _ fun t => And.left)]
    exact h.friendly
  · rw [countP_append_of_not (hother INT_MIN (by unfold INT_MIN; omega) _ fun t => And.left)]
    exact h.enemy
  · rw [countP_append_of_not (hother (-1 - b) (by omega) _ fun t => id)]
    exact h.stolen b hb

/-- The tokens of a player are those of his team and the others. -/
theorem countP_dropper (tokens : List CollectToken) (cn team : Int) :
    (tokens.countP fun t => t.dropper = cn) =
      (tokens.countP fun t => t.dropper = cn ∧ t.team = team) +
        tokens.countP fun t => t.dropper = cn ∧ t.team ≠ team := by
  induction tokens with
  | nil => rfl
  | cons t tokens ih =>
    rw [List.countP_cons, List.countP_cons, List.countP_cons, ih]
    by_cases hd : t.dropper = cn <;> by_cases ht : t.team = team <;> simp [hd, ht] <;> omega

/-- What an event does to the tokens: some are removed and announced, and some are new. -/
structure Told (s t : Skulls) (gone kept news : List CollectToken) : Prop where
  keeps : Kept s.game.tokens kept gone
  tokens : t.game.tokens = kept ++ news
  lists : t.lists = expirelist (gone.map CollectToken.id)
  pos : ∀ u ∈ gone, 0 < u.id
  apart : 6 * (t.drops : Int) < 2 ^ 31 → ∀ k ∈ t.game.tokens, ∀ u ∈ gone, k.id ≠ u.id

/-- **The tokens of a death**, of a player of one of the teams. -/
theorem droptokens_spec {g : Collect} {ci : Carrier} {left : Int} (hci : Plays ci)
    (hfew : Few g.tokens left) (hnum : Numbered g) (hgot : g.notgotbases = false) (penalty : Bool) :
    ∃ gone kept news, Kept g.tokens kept gone ∧ (g.droptokens ci penalty).tokens = kept ++ news ∧
      (g.dropexpired ci (if penalty then 0 else ci.tokens)).2 =
        (if gone = [] then [] else N_EXPIRETOKENS :: gone.map CollectToken.id ++ [-1]) ∧
      ((g.droptokens ci penalty).tokens.countP fun t =>
        t.dropper = ci.cn ∧ t.team = collectteambase ci.team) ≤ TOKENLIMIT ∧
      ((g.droptokens ci penalty).tokens.countP fun t =>
        t.dropper = ci.cn ∧ t.team ≠ collectteambase ci.team) ≤ TOKENLIMIT ∧
      Few (g.droptokens ci penalty).tokens left ∧ Numbered (g.droptokens ci penalty) ∧
      ∀ m, Fresh g m → m + 6 < 2 ^ 31 → Fresh (g.droptokens ci penalty) (m + 6) ∧
        ∀ k ∈ kept ++ news, ∀ u ∈ gone, k.id ≠ u.id := by
  have hcarried : (if penalty then 0 else ci.tokens) ≤ TOKENLIMIT := by
    split
    · exact Nat.zero_le _
    · exact hci.tokens
  have hnot : ¬g.notgotbases = true := by
    rw [hgot]
    exact Bool.false_ne_true
  unfold droptokens
  rw [if_neg hnot]
  dsimp only
  generalize (if penalty then 0 else ci.tokens) = carried at hcarried ⊢
  obtain ⟨gone, hkept, hlist, hown, hother, hmono⟩ := keeptokens_spec g ci carried
  obtain ⟨hnum', hpos⟩ := hnum.kept hkept
  obtain ⟨news, htokens, hdropper, hnewown, hnewother, hnum'', hfresh⟩ :=
    dropall_spec hnum' hci.team ci.cn (1 + carried)
  have htokens : (dropall (collectteambase ci.team) ci.cn (1 + carried)
      { g with tokens := g.keeptokens ci carried }).tokens = g.keeptokens ci carried ++ news :=
    htokens
  have hlimit : TOKENLIMIT = 5 := rfl
  have hfriendly : ((g.keeptokens ci carried ++ news).countP fun t =>
      t.dropper = ci.cn ∧ t.team = collectteambase ci.team) ≤ TOKENLIMIT := by
    have hle : (news.countP fun t => t.dropper = ci.cn ∧ t.team = collectteambase ci.team) ≤
        news.countP fun t => t.team = collectteambase ci.team :=
      List.countP_mono_left fun t _ ht => decide_eq_true (of_decide_eq_true ht).2
    rw [List.countP_append]
    omega
  have henemy : ((g.keeptokens ci carried ++ news).countP fun t =>
      t.dropper = ci.cn ∧ t.team ≠ collectteambase ci.team) ≤ TOKENLIMIT := by
    have hle : (news.countP fun t => t.dropper = ci.cn ∧ t.team ≠ collectteambase ci.team) ≤
        news.countP fun t => t.team ≠ collectteambase ci.team :=
      List.countP_mono_left fun t _ ht => decide_eq_true (of_decide_eq_true ht).2
    rw [List.countP_append]
    omega
  refine ⟨gone, g.keeptokens ci carried, news, hkept, htokens, by rw [hlist], ?_, ?_, ?_, ?_, ?_⟩
  · change List.countP _ (dropall _ _ _ _).tokens ≤ _
    rw [htokens]
    exact hfriendly
  · change List.countP _ (dropall _ _ _ _).tokens ≤ _
    rw [htokens]
    exact henemy
  · change Few (dropall _ _ _ _).tokens left
    rw [htokens]
    refine (hfew.mono hmono).append hci.cn hdropper ?_
    rw [countP_dropper _ ci.cn (collectteambase ci.team)]
    omega
  · exact ⟨hnum''.nonneg, hnum''.lt, hnum''.pos⟩
  · intro m hm hlt
    obtain ⟨hm', hgone, hne⟩ := hm.kept hkept
    obtain ⟨hf, -, hnews⟩ := hfresh m hm' (by push_cast; omega)
    have hf := hf.mono (n := m + 6) (by push_cast; omega)
    refine ⟨⟨hf.le, hf.ids, hf.nodup⟩, fun k hk u hu => ?_⟩
    obtain hk | hk := List.mem_append.mp hk
    · exact hne k hk u hu
    · have hlt := hnews k hk
      have hle := hgone u hu
      dsimp only at hlt
      omega

/-! ## Events -/

/-- The limits are met, and what has been removed is announced. -/
def Orderly (s t : Skulls) : Prop := Limits t ∧ ∃ gone kept news, Told s t gone kept news

/-- The tokens stay as they are, and the clients what they have to be. -/
structure Alike (g g' : Collect) : Prop where
  nodup : (g.clients.map Carrier.cn).Nodup → (g'.clients.map Carrier.cn).Nodup
  plays : (∀ c ∈ g.clients, Plays c) → ∀ c ∈ g'.clients, Plays c
  bases : g.bases.length ≤ MAXBASES → g'.bases.length ≤ MAXBASES
  tokens : g'.tokens = g.tokens
  nexttoken : g'.nexttoken = g.nexttoken

theorem Alike.refl (g : Collect) : Alike g g := ⟨id, id, id, rfl, rfl⟩

theorem Alike.trans {g g' g'' : Collect} (h : Alike g g') (h' : Alike g' g'') : Alike g g'' :=
  ⟨h'.nodup ∘ h.nodup, h'.plays ∘ h.plays, h'.bases ∘ h.bases, h'.tokens.trans h.tokens,
    h'.nexttoken.trans h.nexttoken⟩

/-- A change of a client. -/
theorem Alike.upd (g : Collect) (cn : Int) {f : Carrier → Carrier} (hcn : ∀ c, (f c).cn = c.cn)
    (hplays : ∀ c, Plays c → Plays (f c)) : Alike g (g.upd cn f) :=
  ⟨fun h => nodup_upd h cn hcn, fun h => plays_upd h cn fun c hc _ => hplays c (h c hc), id, rfl,
    rfl⟩

theorem Alike.addscore (g : Collect) (team score : Int) : Alike g (g.addscore team score) := by
  unfold Collect.addscore
  split
  · exact ⟨id, id, id, rfl, rfl⟩
  · split <;> exact ⟨id, id, id, rfl, rfl⟩

theorem Limits.still (h : Limits s) {g : Collect} {drops : Nat} (halike : Alike s.game g)
    (hdrops : s.drops ≤ drops) : Orderly s { game := g, left := s.left, drops, lists := [] } := by
  have hnum := h.numbered
  have htokens := halike.tokens
  have hnext := halike.nexttoken
  refine ⟨⟨halike.nodup h.nodup, halike.plays h.plays, halike.bases h.bases, htokens ▸ h.few, ?_,
    fun hlt => ?_⟩, [], g.tokens, [], ?_⟩
  · exact ⟨hnext ▸ hnum.nonneg, hnext ▸ hnum.lt, htokens ▸ hnum.pos⟩
  · have hlt : 6 * (drops : Int) < 2 ^ 31 := hlt
    have hf := (h.fresh (by omega)).mono (n := 6 * drops) (by omega)
    exact ⟨hnext ▸ hf.le, by rw [htokens, hnext]; exact hf.ids, htokens ▸ hf.nodup⟩
  · refine ⟨?_, (List.append_nil _).symm, rfl, nofun, fun _ _ _ => nofun⟩
    unfold Kept
    rw [htokens, List.map_nil, List.append_nil]

/-- **A theft** of a token that lies where the base is. -/
theorem Few.steal {tokens : List CollectToken} {left : Int} (h : Few tokens left) {b : Nat}
    (hb : b < MAXBASES) (hfew : (tokens.countP fun t => t.dropper = -1 - (b : Int)) < TOKENLIMIT)
    {t : CollectToken} (ht : t.dropper = -1 - (b : Int)) : Few (tokens ++ [t]) left := by
  have hmax : MAXBASES = 20 := rfl
  have hother : ∀ d, d ≠ -1 - (b : Int) → ∀ q : CollectToken → Prop, [DecidablePred q] →
      (∀ t, q t → t.dropper = d) → ∀ u ∈ [t], decide (q u) = false := by
    intro d hd q _ hq u hu
    obtain rfl := List.mem_singleton.mp hu
    exact decide_eq_false fun hqu => hd ((hq u hqu).symm.trans ht)
  refine ⟨fun c hc => ?_, ?_, ?_, fun b' hb' => ?_⟩
  · rw [countP_append_of_not (hother c (by omega) _ fun t => id)]
    exact h.owned c hc
  · rw [countP_append_of_not (hother INT_MIN (by unfold INT_MIN; omega) _ fun t => And.left)]
    exact h.friendly
  · rw [countP_append_of_not (hother INT_MIN (by unfold INT_MIN; omega) _ fun t => And.left)]
    exact h.enemy
  · by_cases heq : b' = b
    · rw [heq, List.countP_append, List.countP_singleton]
      split
      · omega
      · omega
    · rw [countP_append_of_not (hother (-1 - b') (by omega) _ fun t => id)]
      exact h.stolen b' hb'

/-- What a message about a base does: it leaves the tokens as they are, or one is stolen. -/
theorem deposittokens_spec (g : Collect) (ci : Carrier) (basenum : Int) :
    Alike g (g.deposittokens ci basenum) ∨ ∃ (b : Nat) (g' : Collect), Alike g g' ∧
      b < g.bases.length ∧ (g.tokens.countP fun t => t.dropper = -1 - (b : Int)) < TOKENLIMIT ∧
      g.deposittokens ci basenum = g'.droptoken (collectteambase ci.team) (-1 - (b : Int)) := by
  unfold deposittokens
  split
  · exact .inl (.refl g)
  · next hbase =>
    split
    · exact .inl (.refl g)
    · next b hb =>
      have hsteal : Alike g { g with
          bases := g.bases.set basenum.toNat { b with laststeal := g.gamemillis } } :=
        ⟨id, id, fun h => by rwa [List.length_set], rfl, rfl⟩
      split
      · exact .inl (.refl g)
      · dsimp only
        split
        · exact .inl (.refl g)
        · split
          · have hscore := (hsteal.trans (.addscore _ (collectteambase ci.team) ci.tokens)).trans
              (.upd _ ci.cn (f := fun c => { c with flags := c.flags + ci.tokens, tokens := 0 })
                (fun _ => rfl) fun c hc => hc.keep rfl rfl (Nat.zero_le _))
            split
            · exact .inl (hscore.trans ⟨id, id, id, rfl, rfl⟩)
            · exact .inl hscore
          · split
            · exact .inl (.refl g)
            · split
              · exact .inl (.refl g)
              · split
                · next hfew =>
                  have hnat : (basenum.toNat : Int) = basenum := by
                    rw [Int.toNat_of_nonneg]
                    omega
                  refine .inr ⟨basenum.toNat, _, hsteal.trans (.addscore _ b.team (-1)),
                    (List.getElem?_eq_some_iff.mp hb).1, ?_, by rw [hnat]⟩
                  rw [List.countP_eq_length_filter, hnat]
                  exact hfew
                · exact .inl (.refl g)

/-- **A deposit** or a theft. -/
theorem Limits.deposittokens (h : Limits s) (ci : Carrier) (basenum : Int) :
    Orderly s { game := s.game.deposittokens ci basenum, left := s.left, drops := s.drops + 1,
                lists := [] } := by
  obtain halike | ⟨b, g, halike, hb, hfew, heq⟩ := deposittokens_spec s.game ci basenum
  · exact h.still halike (Nat.le_succ _)
  · rw [heq]
    obtain ⟨⟨hnd, hplays, hbases, hfew', hnum, hfresh⟩, -⟩ := h.still halike (Nat.le_refl _)
    have hnext := nexttoken_droptoken hnum (collectteambase ci.team) (-1 - (b : Int))
    have htokens := halike.tokens
    refine ⟨⟨hnd, hplays, hbases, ?_, numbered_droptoken hnum _ _, fun hlt => ?_⟩, [], g.tokens,
      [{ id := (g.droptoken (collectteambase ci.team) (-1 - (b : Int))).nexttoken,
         team := collectteambase ci.team, droptime := g.lastmillis,
         dropper := -1 - (b : Int) }], ?_⟩
    · rw [← htokens] at hfew
      exact hfew'.steal (Nat.lt_of_lt_of_le hb h.bases) hfew rfl
    · push_cast at hlt
      have hf := fresh_droptoken hnum (hfresh (by dsimp only; omega)) (by dsimp only; omega)
        (collectteambase ci.team) (-1 - (b : Int))
      exact hf.mono (by push_cast; omega)
    · refine ⟨?_, rfl, rfl, nofun, fun _ _ _ => nofun⟩
      unfold Kept
      rw [htokens, List.map_nil, List.append_nil]

theorem bases_dropall (team dropper : Int) (n : Nat) (g : Collect) :
    (dropall team dropper n g).bases = g.bases := by
  induction n with
  | zero => rfl
  | succ n ih => exact ih

/-- A list of what is removed, where there is anything. -/
theorem expirelist_packet (gone : List CollectToken) :
    (if (if gone = [] then [] else N_EXPIRETOKENS :: gone.map CollectToken.id ++ [-1]) = [] then []
      else [if gone = [] then [] else N_EXPIRETOKENS :: gone.map CollectToken.id ++ [-1]]) =
      expirelist (gone.map CollectToken.id) := by
  cases gone with
  | nil => rfl
  | cons u gone => rfl

theorem clients_droptokens (g : Collect) (ci : Carrier) (penalty : Bool)
    (hplays : ∀ c ∈ g.clients, Plays c) : ∀ c ∈ (g.droptokens ci penalty).clients, Plays c := by
  unfold droptokens
  split
  · exact hplays
  · dsimp only
    refine plays_upd ?_ _ fun c hc _ => ?_
    · rw [clients_dropall]
      exact hplays
    · rw [clients_dropall] at hc
      exact (hplays c hc).keep rfl rfl (Nat.zero_le _)

/-- **A death.** -/
theorem Limits.died (h : Limits s) (cn : Int) (penalty : Bool)
    (hstep : step s (.died cn penalty) = .ok t) : Orderly s t := by
  obtain rfl := Except.ok.inj hstep
  dsimp only [Collect.step, withinfo, announces]
  cases hci : s.game.getinfo cn with
  | none => exact h.still (.refl _) (Nat.le_succ _)
  | some ci =>
    have hplays := h.plays ci (Keyed.lookup_mem hci).1
    dsimp only
    split
    · next hgot =>
      have heq : s.game.droptokens ci penalty = s.game := by
        unfold droptokens
        rw [if_pos hgot]
      rw [heq]
      exact h.still (.upd _ cn (fun _ => rfl) fun c hc => hc.keep rfl rfl (Nat.le_refl _))
        (Nat.le_succ _)
    · next hgot =>
      obtain ⟨gone, kept, news, hkept, htokens, hlist, -, -, hfew, hnum, hfresh⟩ :=
        droptokens_spec hplays h.few h.numbered (by simpa using hgot) penalty
      have hdead : Alike (s.game.droptokens ci penalty)
          ((s.game.droptokens ci penalty).upd cn fun c => { c with state := .dead }) :=
        .upd _ cn (fun _ => rfl) fun c hc => hc.keep rfl rfl (Nat.le_refl _)
      refine ⟨⟨hdead.nodup (nodup_droptokens h.nodup ci penalty),
        hdead.plays (clients_droptokens _ ci penalty h.plays), ?_, hfew,
        ⟨hnum.nonneg, hnum.lt, hnum.pos⟩, fun hlt => ?_⟩, gone, kept, news, hkept, htokens, ?_,
        (h.numbered.kept hkept).2, fun hlt => ?_⟩
      · have hbases : (s.game.droptokens ci penalty).bases = s.game.bases := by
          unfold droptokens
          rw [if_neg hgot]
          exact bases_dropall _ _ _ _
        change (s.game.droptokens ci penalty).bases.length ≤ _
        rw [hbases]
        exact h.bases
      · push_cast at hlt
        obtain ⟨hf, -⟩ := hfresh _ (h.fresh (by omega)) (by omega)
        have hf := hf.mono (n := 6 * (s.drops + 1 : Nat)) (by push_cast; omega)
        exact ⟨hf.le, hf.ids, hf.nodup⟩
      · dsimp only
        rw [hlist]
        exact expirelist_packet gone
      · push_cast at hlt
        obtain ⟨-, hne⟩ := hfresh _ (h.fresh (by omega)) (by omega)
        intro k hk
        exact hne k (htokens ▸ hk)

/-- **A player disconnects.** -/
theorem Limits.clientdisconnect (h : Limits s) (cn : Int)
    (hstep : step s (.clientdisconnect cn) = .ok t) : Orderly s t := by
  obtain rfl := Except.ok.inj hstep
  dsimp only [Collect.step, withinfo, announces]
  cases hci : s.game.getinfo cn with
  | none => exact h.still (.refl _) (Nat.le_refl _)
  | some ci =>
    obtain ⟨hmem, hcn⟩ := Keyed.lookup_mem hci
    have hnonneg := (h.plays ci hmem).cn
    obtain ⟨gone, hkept, hlist, hfriendly, henemy, -, hmono⟩ :=
      leavegame_spec s.game ci (by unfold INT_MIN; omega)
    have hplays : ∀ c ∈ (s.game.leavegame ci true).clients, Plays c :=
      plays_upd h.plays _ fun c hc _ => (h.plays c hc).keep rfl rfl (Nat.zero_le _)
    have hnum := (h.numbered.kept hkept).1
    have hbases : (s.game.leavegame ci true).bases = s.game.bases := rfl
    have hnext : (s.game.leavegame ci true).nexttoken = s.game.nexttoken := rfl
    have hless : ∀ p : CollectToken → Prop, [DecidablePred p] → (∀ t, p t → INT_MIN < t.dropper) →
        ((s.game.leavegame ci true).tokens.countP fun t => p t) ≤
          s.game.tokens.countP fun t => p t :=
      fun p _ hp => hmono _ fun t ht => hp t (of_decide_eq_true ht)
    dsimp only
    rw [hlist]
    refine ⟨⟨Keyed.nodup_remove (nodup_leavegame h.nodup ci true), fun c hc => ?_, ?_,
      ⟨fun d hd => ?_, hfriendly, henemy, fun b hb => ?_⟩, ⟨?_, ?_, hnum.pos⟩, fun hlt => ?_⟩,
      gone, _, [], hkept, (List.append_nil _).symm, rfl, (h.numbered.kept hkept).2, fun hlt => ?_⟩
    · exact hplays c (List.mem_filter.mp hc).1
    · rw [hbases]
      exact h.bases
    · refine (hless (fun t => t.dropper = d) fun t ht => ?_).trans (h.few.owned d hd)
      unfold INT_MIN
      omega
    · refine (hless (fun t => t.dropper = -1 - (b : Int)) fun t ht => ?_).trans (h.few.stolen b hb)
      have : MAXBASES = 20 := rfl
      unfold INT_MIN
      omega
    · rw [hnext]
      exact h.numbered.nonneg
    · rw [hnext]
      exact h.numbered.lt
    · obtain ⟨hf, -⟩ := (h.fresh hlt).kept hkept
      exact ⟨hf.le, hf.ids, hf.nodup⟩
    · exact ((h.fresh hlt).kept hkept).2.2

/-- **Tokens expire.** -/
theorem Limits.update (h : Limits s) (lastmillis gamemillis : Int)
    (hstep : step s (.update lastmillis gamemillis) = .ok t) : Orderly s t := by
  obtain rfl := Except.ok.inj hstep
  dsimp only [Collect.step, Collect.update, announces]
  split
  · exact h.still ⟨id, id, id, rfl, rfl⟩ (Nat.le_refl _)
  · obtain ⟨gone, hkept, hlist, hsweep, hmono⟩ := updatescan_spec s.game.tokens lastmillis
    have hnum := (h.numbered.kept hkept).1
    have hsweep : sweep (fun (_ : Unit) t =>
        ((), if EXPIRETOKENTIME ≤ lastmillis - t.droptime then none else some t))
        s.game.tokens.length () s.game.tokens =
          (updatescan lastmillis s.game.tokens.length s.game.tokens []).1 := hsweep
    rw [hsweep, hlist]
    refine ⟨⟨h.nodup, h.plays, h.bases, h.few.mono hmono, ⟨hnum.nonneg, hnum.lt, hnum.pos⟩,
      fun hlt => ?_⟩, gone, _, [], hkept, (List.append_nil _).symm, rfl, (h.numbered.kept hkept).2,
      fun hlt => ?_⟩
    · obtain ⟨hf, -⟩ := (h.fresh hlt).kept hkept
      exact ⟨hf.le, hf.ids, hf.nodup⟩
    · exact ((h.fresh hlt).kept hkept).2.2

/-- A map is loaded. -/
theorem Limits.setup (h : Limits s) {gotitems : Bool} {teams : List Int} {gamelimit : Int}
    (hstep : step s (.setup gotitems teams gamelimit) = .ok t) : Limits t := by
  obtain rfl := Except.ok.inj hstep
  have hzero : (0 : Int) < 2 ^ 31 := by decide
  refine ⟨?_, fun c hc => ?_, ?_, ?_, ⟨Int.le_refl _, hzero, nofun⟩,
    fun _ => ⟨Int.le_refl _, nofun, List.nodup_nil⟩⟩
  · have hnd := h.nodup
    simpa [Collect.step, Collect.setup, List.map_map, Function.comp_def] using hnd
  · obtain ⟨c, hmem, rfl⟩ := List.mem_map.mp hc
    exact (h.plays c hmem).keep rfl rfl (Nat.zero_le _)
  · dsimp only [Collect.step, Collect.setup]
    split
    · rw [List.length_map]
      exact List.length_take_le _ _
    · exact Nat.zero_le _
  · exact ⟨fun _ _ => Nat.zero_le _, Nat.zero_le _, Nat.zero_le _, fun _ _ => Nat.zero_le _⟩

/-- **Every event** keeps the limits and announces what is removed, but for a new map. -/
theorem Limits.step (h : Limits s) {e : CollectEvent} (hteams : Teams s e)
    (hstep : step s e = .ok t) : Limits t ∧ ((∀ gotitems teams gamelimit, e ≠ .setup gotitems teams gamelimit) →
      ∃ gone kept news, Told s t gone kept news) := by
  have hall : Orderly s t → Limits t ∧ ((∀ gotitems teams gamelimit,
      e ≠ .setup gotitems teams gamelimit) → ∃ gone kept news, Told s t gone kept news) :=
    fun ⟨hlimits, htold⟩ => ⟨hlimits, fun _ => htold⟩
  cases e with
  | setup gotitems teams gamelimit => exact ⟨h.setup hstep, fun hne => (hne _ _ _ rfl).elim⟩
  | parsebases teams =>
    refine hall ?_
    obtain rfl := Except.ok.inj hstep
    refine h.still ?_ (Nat.le_refl _)
    dsimp only [Collect.step, parsebases]
    split
    · refine ⟨id, id, fun _ => ?_, rfl, rfl⟩
      rw [List.length_map]
      exact List.length_take_le _ _
    · exact .refl _
  | connected cn team state =>
    refine hall ?_
    obtain rfl := Except.ok.inj hstep
    refine h.still ?_ (Nat.le_refl _)
    dsimp only [Collect.step]
    split
    · next hfree =>
      refine ⟨fun hnd => Keyed.nodup_add hnd hfree, fun hplays c hc => ?_, id, rfl, rfl⟩
      obtain hc | hc := List.mem_append.mp hc
      · exact hplays c hc
      · obtain rfl := List.mem_singleton.mp hc
        exact ⟨hteams.1, hteams.2, Nat.zero_le _⟩
    · exact .refl _
  | clientdisconnect cn => exact hall (h.clientdisconnect cn hstep)
  | forcespectator cn =>
    refine hall ?_
    obtain rfl := Except.ok.inj hstep
    refine h.still ?_ (Nat.le_refl _)
    dsimp only [Collect.step, withinfo]
    cases s.game.getinfo cn with
    | none => exact .refl _
    | some ci =>
      have hleave : Alike s.game (s.game.leavegame ci false) :=
        .upd _ ci.cn (fun _ => rfl) fun c hc => hc.keep rfl rfl (Nat.zero_le _)
      exact hleave.trans (.upd _ cn (fun _ => rfl) fun c hc => hc.keep rfl rfl (Nat.le_refl _))
  | setstate cn state =>
    refine hall ?_
    obtain rfl := Except.ok.inj hstep
    exact h.still (.upd _ cn (fun _ => rfl) fun c hc => hc.keep rfl rfl (Nat.le_refl _))
      (Nat.le_refl _)
  | spawn cn =>
    refine hall ?_
    obtain rfl := Except.ok.inj hstep
    exact h.still (.upd _ cn (fun _ => rfl) fun c hc => hc.keep rfl rfl (Nat.zero_le _))
      (Nat.le_refl _)
  | switchteam cn team =>
    refine hall ?_
    obtain rfl := Except.ok.inj hstep
    exact h.still (.upd _ cn (fun _ => rfl) fun c hc => ⟨hc.cn, hteams, hc.tokens⟩) (Nat.le_refl _)
  | died cn penalty => exact hall (h.died cn penalty hstep)
  | deposittokens cn basenum =>
    refine hall ?_
    obtain rfl := Except.ok.inj hstep
    dsimp only [Collect.step, withinfo]
    cases s.game.getinfo cn with
    | none => exact h.still (.refl _) (Nat.le_succ _)
    | some ci => exact h.deposittokens ci basenum
  | taketoken cn tid =>
    refine hall ?_
    obtain rfl := Except.ok.inj hstep
    dsimp only [Collect.step, withinfo]
    cases hci : s.game.getinfo cn with
    | none => exact h.still (.refl _) (Nat.le_refl _)
    | some ci =>
      refine h.still ?_ (Nat.le_refl _)
      dsimp only [taketoken]
      split
      · exact .refl _
      · split
        · exact .refl _
        · next tk _ =>
          split
          · next htakes =>
            have hroom : ci.tokens < TOKENLIMIT := by
              unfold takes at htakes
              simp only [Bool.and_eq_true, decide_eq_true_eq] at htakes
              exact htakes.2
            refine ⟨fun hnd => nodup_upd hnd ci.cn fun _ => rfl, fun _ => ?_, id, rfl, rfl⟩
            refine plays_upd h.plays _ fun c hc hcn => ?_
            -- the client is the one whose message it is
            have hlookup := Keyed.lookup_of_mem h.nodup hc
            rw [hcn, (Keyed.lookup_mem hci).2] at hlookup
            obtain rfl := Option.some.inj (hci.symm.trans hlookup)
            exact ⟨(h.plays ci hc).cn, (h.plays ci hc).team, hroom⟩
          · exact .refl _
  | update lastmillis gamemillis => exact hall (h.update lastmillis gamemillis hstep)
  | startintermission =>
    refine hall ?_
    obtain rfl := Except.ok.inj hstep
    exact h.still ⟨id, id, id, rfl, rfl⟩ (Nat.le_refl _)

/-- **The limits on skulls**, in every run with players on the two teams: right after a death the
tokens of the player are within the limit, those of his team and the others; they are never more
than these together; so are those of the players who have left, by the team of the last of them, and
those stolen from a base.  What an event removes it announces in one list, in which there is nothing
that stays as long as the tokens have numbers of their own. -/
theorem tokens_limited {es : List CollectEvent} (hrun : Run.Steps step Teams initial es s) :
    (∀ cn : Int, 0 ≤ cn → (s.game.tokens.countP fun t => t.dropper = cn) ≤ 2 * TOKENLIMIT) ∧
    (s.game.tokens.countP fun t => t.dropper = INT_MIN ∧ t.team = s.left) ≤ UNOWNEDTOKENLIMIT ∧
    (s.game.tokens.countP fun t => t.dropper = INT_MIN ∧ t.team ≠ s.left) ≤ UNOWNEDTOKENLIMIT ∧
    (∀ b : Nat, b < MAXBASES →
      (s.game.tokens.countP fun t => t.dropper = -1 - (b : Int)) ≤ TOKENLIMIT) ∧
    ∀ e t, Teams s e → step s e = .ok t →
      (∀ cn penalty ci, e = .died cn penalty → s.game.notgotbases = false →
        s.game.getinfo cn = some ci →
        (t.game.tokens.countP fun k => k.dropper = cn ∧ k.team = collectteambase ci.team) ≤
          TOKENLIMIT ∧
        (t.game.tokens.countP fun k => k.dropper = cn ∧ k.team ≠ collectteambase ci.team) ≤
          TOKENLIMIT) ∧
      ((∀ gotitems teams gamelimit, e ≠ .setup gotitems teams gamelimit) →
        ∃ gone kept news, Told s t gone kept news) := by
  have h : Limits s :=
    hrun.invariant Limits (fun _ _ _ h hok ht => (h.step hok ht).1) limits_initial
  refine ⟨h.few.owned, h.few.friendly, h.few.enemy, h.few.stolen, fun e t hteams hstep => ⟨?_, ?_⟩⟩
  · rintro cn penalty ci rfl hgot hci
    obtain rfl := Except.ok.inj hstep
    obtain ⟨hmem, rfl⟩ := Keyed.lookup_mem hci
    obtain ⟨gone, kept, news, -, -, -, hown, hother, -⟩ :=
      droptokens_spec (h.plays ci hmem) h.few h.numbered hgot penalty
    have hgame : (s.game.step (.died ci.cn penalty)).tokens =
        (s.game.droptokens ci penalty).tokens := by
      dsimp only [Collect.step, withinfo]
      rw [hci]
      rfl
    rw [hgame]
    exact ⟨hown, hother⟩
  · exact (h.step hteams hstep).2

/-- Six deaths of a player: the token of the first is announced. -/
theorem tokens_limited_deaths : ∃ s t : Skulls, step s (.died 0 false) = .ok t ∧
    t.lists = [[N_EXPIRETOKENS, 1, -1]] ∧
    (t.game.tokens.countP fun k => k.dropper = 0 ∧ k.team = 1) ≤ TOKENLIMIT := by
  obtain ⟨s, hrun, hgot, hci, hlists⟩ := Run.Steps.of_execIf step Teams initial
    [.setup true [1, 2] 600000, .connected 0 "good" .dead, .connected 1 "evil" .dead,
      .died 0 false, .died 0 false, .died 0 false, .died 0 false, .died 0 false]
    (p := fun s => s.game.notgotbases = false ∧
      (s.game.getinfo 0).map Carrier.team = some "good" ∧
      s.game.announces (.died 0 false) = [[N_EXPIRETOKENS, 1, -1]]) (by decide +kernel)
  obtain ⟨ci, hci, hteam⟩ := Option.map_eq_some_iff.mp hci
  obtain ⟨-, -, -, -, hevent⟩ := tokens_limited hrun
  obtain ⟨hlimit, -⟩ := hevent (.died 0 false) _ trivial rfl
  obtain ⟨hown, -⟩ := hlimit 0 false ci rfl hgot hci
  rw [hteam] at hown
  exact ⟨s, _, rfl, hlists, hown⟩

end Skulls

end QServ
