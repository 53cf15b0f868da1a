import QServ.Server.Safety

/-!
# Who is master, as a newcomer hears it

`welcomepacket` tells a client that joins who holds which privilege, in a block of its own
making; everybody else has heard it in the `N_CURRENTMASTER` block of `setmaster`.  Here is
the grammar of that block, the encoder of `welcomepacket` and what a newcomer reads out of
it.

* `read_currentmaster`: the block of `setmaster` reads back as the privileged clients.
* `welcomemasters_eq`, `read_welcomemasters`: what `welcomepacket` writes, and what is read.
* `seesMasters_iff`: when a newcomer sees the same masters as everybody else.
-/

namespace QServ

/-! ## The grammar of the block -/

/-- The pairs of a block, up to the one `-1` that ends it. -/
def readpairs : List Field → Option (List (Int × Int))
  | [.int n] => if n = -1 then some [] else none
  | .int n :: .int p :: rest => if 0 ≤ n then (readpairs rest).map ((n, p) :: ·) else none
  | _ => none

/-- A complete `N_CURRENTMASTER` block: the master mode and the pairs. -/
def readblock : List Field → Option (Int × List (Int × Int))
  | .int t :: .int mm :: rest =>
    if t = MsgType.nCurrentmaster.code then (readpairs rest).map (mm, ·) else none
  | _ => none

/-- The pairs as they are written. -/
def putpairs (ps : List (Int × Int)) : List Field :=
  ps.flatMap fun q => [.int q.1, .int q.2]

theorem putpairs_append (ps qs : List (Int × Int)) :
    putpairs (ps ++ qs) = putpairs ps ++ putpairs qs :=
  List.flatMap_append

/-- Pairs with client numbers in them read back as they were written. -/
theorem readpairs_put {ps : List (Int × Int)} (h : ∀ q ∈ ps, 0 ≤ q.1) :
    readpairs (putpairs ps ++ [.int (-1)]) = some ps := by
  induction ps with
  | nil => rfl
  | cons q ps ih =>
    obtain ⟨n, p⟩ := q
    have hn : 0 ≤ n := h (n, p) List.mem_cons_self
    have ih := ih fun r hr => h r (List.mem_cons_of_mem _ hr)
    -- what follows a pair is never empty, so the last pair is not taken for the end
    change readpairs (.int n :: .int p :: (putpairs ps ++ [.int (-1)])) = some ((n, p) :: ps)
    rw [readpairs, if_pos hn, ih]
    rfl

theorem readblock_put (mm : Int) {ps : List (Int × Int)} (h : ∀ q ∈ ps, 0 ≤ q.1) :
    readblock ([.int MsgType.nCurrentmaster.code, .int mm] ++ putpairs ps ++ [.int (-1)]) =
      some (mm, ps) := by
  change readblock (.int MsgType.nCurrentmaster.code :: .int mm ::
    (putpairs ps ++ [.int (-1)])) = some (mm, ps)
  rw [readblock, if_pos rfl, readpairs_put h]
  rfl

namespace Server

open Run

variable {s : Server}

/-! ## What is written -/

/-- The pair a client is listed with. -/
def pair (c : ClientInfo) : Int × Int := (c.clientnum, c.privilege.code)

/-- The pairs of those among `cs` that hold at least master. -/
def masters (cs : List ClientInfo) : List (Int × Int) :=
  (cs.filter fun c => decide (Priv.master ≤ c.privilege)).map pair

theorem masterpairs_eq (cs : List ClientInfo) : masterpairs cs = putpairs (masters cs) := by
  unfold masterpairs putpairs masters
  rw [List.flatMap_map]
  rfl

theorem mem_masters {cs : List ClientInfo} {q : Int × Int} :
    q ∈ masters cs ↔ ∃ c ∈ cs, Priv.master ≤ c.privilege ∧ pair c = q := by
  simp [masters, and_assoc]

/-- The two fields a block starts with. -/
def blockhead (s : Server) : List Field :=
  [.int MsgType.nCurrentmaster.code, .int s.mastermode.code]

/-- One round of the first loop of `welcomepacket`: a header for each visible client.  The
flag tells whether one has been written. -/
def putheader (s : Server) (r : List Field × Bool) (c : ClientInfo) : List Field × Bool :=
  if !c.isInvAdmin then (r.1 ++ s.blockhead, true) else r

/-- One round of the second loop: the pair of a visible client that holds a privilege, after
a header unless there is one. -/
def putmaster (s : Server) (r : List Field × Bool) (c : ClientInfo) : List Field × Bool :=
  if decide (Priv.master ≤ c.privilege) && !c.isInvAdmin then
    ((if r.2 then r.1 else r.1 ++ s.blockhead) ++ [.int c.clientnum, .int c.privilege.code], true)
  else r

/-- The `N_CURRENTMASTER` part of `welcomepacket`. -/
def welcomemasters (s : Server) : List Field :=
  let r := if s.mastermode ≠ .mmOpen then s.cl.foldl s.putheader ([], false) else ([], false)
  let r := s.cl.foldl s.putmaster r
  if r.2 then r.1 ++ [.int (-1)] else r.1

/-- The clients a newcomer may know of. -/
def visible (s : Server) : List ClientInfo := s.cl.filter fun c => !c.isInvAdmin

/-- How often the header is written. -/
def headers (s : Server) : Nat :=
  if s.mastermode ≠ .mmOpen ∧ s.visible ≠ [] then s.visible.length
  else if masters s.visible ≠ [] then 1
  else 0

theorem foldl_putheader (s : Server) (cs : List ClientInfo) (r : List Field × Bool) :
    cs.foldl s.putheader r =
      (r.1 ++ ((cs.filter fun c => !c.isInvAdmin).flatMap fun _ => s.blockhead),
        r.2 || !(cs.filter fun c => !c.isInvAdmin).isEmpty) := by
  induction cs generalizing r with
  | nil => simp
  | cons c cs ih =>
    rw [List.foldl_cons, ih]
    unfold putheader
    cases hc : c.isInvAdmin <;> simp [hc]

/-- Once there is a header only pairs are written. -/
theorem foldl_putmaster_true (s : Server) (cs : List ClientInfo) (p : List Field) :
    cs.foldl s.putmaster (p, true) =
      (p ++ putpairs (masters (cs.filter fun c => !c.isInvAdmin)), true) := by
  induction cs generalizing p with
  | nil => simp [masters, putpairs]
  | cons c cs ih =>
    rw [List.foldl_cons]
    by_cases hp : Priv.master ≤ c.privilege
    · cases hc : c.isInvAdmin
      · have hstep : s.putmaster (p, true) c = (p ++ putpairs [pair c], true) := by
          simp [putmaster, putpairs, pair, hp, hc]
        rw [hstep, ih, List.append_assoc, ← putpairs_append]
        simp [masters, hp, hc]
      · have hstep : s.putmaster (p, true) c = (p, true) := by simp [putmaster, hc]
        rw [hstep, ih]
        simp [hc]
    · have hstep : s.putmaster (p, true) c = (p, true) := by simp [putmaster, hp]
      rw [hstep, ih]
      cases hc : c.isInvAdmin <;> simp [masters, hp, hc]

/-- Without a header one is written before the first pair, if there is one. -/
theorem foldl_putmaster_false (s : Server) (cs : List ClientInfo) :
    cs.foldl s.putmaster ([], false) =
      if masters (cs.filter fun c => !c.isInvAdmin) = [] then ([], false)
      else (s.blockhead ++ putpairs (masters (cs.filter fun c => !c.isInvAdmin)), true) := by
  induction cs with
  | nil => rfl
  | cons c cs ih =>
    rw [List.foldl_cons]
    by_cases hp : Priv.master ≤ c.privilege
    · cases hc : c.isInvAdmin
      · have hstep : s.putmaster ([], false) c = (s.blockhead ++ putpairs [pair c], true) := by
          simp [putmaster, putpairs, pair, hp, hc]
        rw [hstep, foldl_putmaster_true, List.append_assoc, ← putpairs_append]
        simp [masters, hp, hc]
      · have hstep : s.putmaster ([], false) c = ([], false) := by simp [putmaster, hc]
        rw [hstep, ih]
        simp [hc]
    · have hstep : s.putmaster ([], false) c = ([], false) := by simp [putmaster, hp]
      rw [hstep, ih]
      cases hc : c.isInvAdmin <;> simp [masters, hp, hc]

/-- **What `welcomepacket` writes**: so many headers, the pairs of the visible clients, the
end. -/
theorem welcomemasters_eq (s : Server) : s.welcomemasters =
    if s.headers = 0 then []
    else (List.replicate s.headers s.blockhead).flatten ++ putpairs (masters s.visible) ++
      [.int (-1)] := by
  have hconst : ∀ cs : List ClientInfo, (cs.flatMap fun _ => s.blockhead) =
      (List.replicate cs.length s.blockhead).flatten := by
    intro cs
    rw [List.flatMap_def, List.map_const']
  have hfirst := foldl_putheader s s.cl ([], false)
  have htrue := foldl_putmaster_true s s.cl
  have hfalse := foldl_putmaster_false s s.cl
  rw [show (s.cl.filter fun c => !c.isInvAdmin) = s.visible from rfl] at hfirst htrue hfalse
  unfold welcomemasters headers
  by_cases hmm : s.mastermode ≠ .mmOpen
  · by_cases hvis : s.visible = []
    · have hr : s.cl.foldl s.putheader ([], false) = ([], false) := by simp [hfirst, hvis]
      simp [hmm, hr, hfalse, hvis, masters]
    · have hr : s.cl.foldl s.putheader ([], false) =
          ((List.replicate s.visible.length s.blockhead).flatten, true) := by
        simp [hfirst, hvis, hconst]
      simp [hmm, hr, htrue, hvis]
  · by_cases hm : masters s.visible = []
    · simp [hmm, hfalse, hm]
    · simp [hmm, hfalse, hm]

/-! ## What is read -/

theorem masters_nonneg (h : s.WF) {cs : List ClientInfo} (hsub : cs ⊆ s.cl) :
    ∀ q ∈ masters cs, 0 ≤ q.1 := by
  intro q hq
  obtain ⟨c, hc, -, rfl⟩ := mem_masters.mp hq
  exact h.nonneg _ c (h.info_of_mem_cl (hsub hc)).1

/-- The block of `setmaster` reads back as the clients with a privilege. -/
theorem read_currentmaster (h : s.WF) :
    readblock s.currentmaster = some ((s.mastermode.code : Int), masters s.cl) := by
  unfold currentmaster
  rw [masterpairs_eq]
  exact readblock_put _ (masters_nonneg h (List.Subset.refl _))

/-- A header read in the place of a pair: `N_CURRENTMASTER` and the master mode. -/
def ghost (s : Server) : Int × Int := (MsgType.nCurrentmaster.code, s.mastermode.code)

/-- **What a newcomer reads**: nothing at all, or one block, in which every header but the
first stands for a client. -/
theorem read_welcomemasters (h : s.WF) :
    (s.headers = 0 ∧ s.welcomemasters = []) ∨
      readblock s.welcomemasters = some ((s.mastermode.code : Int),
        List.replicate (s.headers - 1) s.ghost ++ masters s.visible) := by
  rw [welcomemasters_eq]
  by_cases hz : s.headers = 0
  · exact Or.inl ⟨hz, if_pos hz⟩
  · right
    rw [if_neg hz]
    obtain ⟨k, hk⟩ := Nat.exists_eq_succ_of_ne_zero hz
    have hghost : (List.replicate k s.blockhead).flatten =
        putpairs (List.replicate k s.ghost) := by
      unfold putpairs
      rw [List.flatMap_def, List.map_replicate]
      rfl
    rw [hk, List.replicate_succ, List.flatten_cons, Nat.succ_sub_one, hghost, List.append_assoc,
      List.append_assoc, ← List.append_assoc (putpairs _), ← putpairs_append, ← List.append_assoc]
    refine readblock_put _ fun q hq => ?_
    rcases List.mem_append.mp hq with hq | hq
    · rw [List.eq_of_mem_replicate hq]
      exact Int.natCast_nonneg _
    · exact masters_nonneg h (fun c hc => (List.mem_filter.mp hc).1) q hq

/-- A client that joins sees the same masters as one that was present: what it is sent is
nothing or one complete block, and lists exactly the pairs `setmaster` would broadcast. -/
def SeesMasters (s : Server) : Prop :=
  ∃ ps qs, (s.welcomemasters = [] ∧ ps = [] ∨
      readblock s.welcomemasters = some ((s.mastermode.code : Int), ps)) ∧
    readblock s.currentmaster = some ((s.mastermode.code : Int), qs) ∧ ∀ q, q ∈ ps ↔ q ∈ qs

/-- More than one header is written. -/
def Stutters (s : Server) : Prop := s.mastermode ≠ .mmOpen ∧ 2 ≤ s.visible.length

theorem stutters_iff (s : Server) : s.Stutters ↔ 2 ≤ s.headers := by
  unfold Stutters headers
  constructor
  · rintro ⟨hmm, hlen⟩
    have hvis : s.visible ≠ [] := by
      intro hnil
      rw [hnil] at hlen
      simp at hlen
    rwa [if_pos ⟨hmm, hvis⟩]
  · intro hh
    split at hh
    · next hc => exact ⟨hc.1, hh⟩
    · split at hh <;> omega

/-- What is read, as a set of pairs. -/
theorem seesMasters_iff_pairs (h : s.WF) : s.SeesMasters ↔
    ∀ q, (s.Stutters ∧ q = s.ghost ∨ q ∈ masters s.visible) ↔ q ∈ masters s.cl := by
  have hread : ∀ q, q ∈ List.replicate (s.headers - 1) s.ghost ++ masters s.visible ↔
      s.Stutters ∧ q = s.ghost ∨ q ∈ masters s.visible := by
    intro q
    rw [List.mem_append, List.mem_replicate, stutters_iff]
    have : s.headers - 1 ≠ 0 ↔ 2 ≤ s.headers := by omega
    rw [this]
  -- without a header there is no visible client with a privilege
  have hzero : s.headers = 0 → masters s.visible = [] := by
    intro hz
    unfold headers at hz
    by_contra hne
    split at hz
    · next hc => exact hc.2 (List.length_eq_zero_iff.mp hz)
    · simp at hz
  constructor
  · rintro ⟨ps, qs, hps, hqs, heq⟩ q
    rw [read_currentmaster h] at hqs
    obtain rfl : masters s.cl = qs := congrArg Prod.snd (Option.some.inj hqs)
    rw [← heq, ← hread]
    rcases read_welcomemasters h with ⟨hz, hnil⟩ | hblock
    · rcases hps with ⟨-, rfl⟩ | hps
      · simp [hz, hzero hz]
      · rw [hnil] at hps
        cases hps
    · rcases hps with ⟨hnil, -⟩ | hps
      · rw [hnil] at hblock
        cases hblock
      · rw [hblock] at hps
        obtain rfl := congrArg Prod.snd (Option.some.inj hps)
        exact Iff.rfl
  · intro heq
    rcases read_welcomemasters h with ⟨hz, hnil⟩ | hblock
    · refine ⟨[], _, Or.inl ⟨hnil, rfl⟩, read_currentmaster h, fun q => ?_⟩
      rw [← heq, ← hread]
      simp [hz, hzero hz]
    · exact ⟨_, _, Or.inr hblock, read_currentmaster h, fun q => (hread q).trans (heq q)⟩

/-- **When a newcomer sees the same masters as everybody else**: exactly when no privileged
client is invisible and not more than one header is written, but for the accident that a
header reads like the pair of a client that is there. -/
theorem seesMasters_iff (h : s.WF) : s.SeesMasters ↔
    (∀ c ∈ s.cl, .master ≤ c.privilege → c.isInvAdmin → s.Stutters ∧ pair c = s.ghost) ∧
    (s.Stutters → ∃ c ∈ s.cl, .master ≤ c.privilege ∧ pair c = s.ghost) := by
  rw [seesMasters_iff_pairs h]
  have hsame : ∀ c ∈ s.cl, ∀ d ∈ s.cl, pair c = pair d → c = d := by
    intro c hc d hd hp
    have hn : c.clientnum = d.clientnum := congrArg Prod.fst hp
    have hci := (h.info_of_mem_cl hc).1
    rw [hn, (h.info_of_mem_cl hd).1] at hci
    exact (Option.some.inj hci).symm
  constructor
  · intro heq
    refine ⟨fun c hc hp hinv => ?_, fun hst => mem_masters.mp ((heq s.ghost).mp (Or.inl ⟨hst, rfl⟩))⟩
    rcases (heq (pair c)).mpr (mem_masters.mpr ⟨c, hc, hp, rfl⟩) with hg | hv
    · exact hg
    · obtain ⟨d, hd, -, hpair⟩ := mem_masters.mp hv
      obtain ⟨hd, hvis⟩ := List.mem_filter.mp hd
      rw [hsame d hd c hc hpair, hinv] at hvis
      cases hvis
  · rintro ⟨hinv, hst⟩ q
    constructor
    · rintro (⟨hstut, rfl⟩ | hq)
      · exact mem_masters.mpr (hst hstut)
      · obtain ⟨c, hc, hp⟩ := mem_masters.mp hq
        exact mem_masters.mpr ⟨c, (List.mem_filter.mp hc).1, hp⟩
    · intro hq
      obtain ⟨c, hc, hp, rfl⟩ := mem_masters.mp hq
      cases hi : c.isInvAdmin
      · exact Or.inr (mem_masters.mpr ⟨c, List.mem_filter.mpr ⟨hc, by simp [hi]⟩, hp, rfl⟩)
      · exact Or.inl (hinv c hc hp hi)

/-- A lone master locks the server: a newcomer sees it. -/
theorem seesMasters_sample : ∃ s : Server, Run.Reachable step (initial sampleConfig) s ∧
    (∃ c ∈ s.cl, c.privilege = .master) ∧ s.mastermode = .mmLocked ∧ s.SeesMasters := by
  obtain ⟨s, hrun, hs⟩ := Reachable.of_any step (initial sampleConfig)
    [.connect 0 7 "seven" 0, .hello 0 "ann" "" "" "" fun _ => false, .setmaster 0 0 1 "",
      .mastermode 0 .mmLocked]
    (p := fun s : Server => decide ((∃ c ∈ s.cl, c.privilege = .master) ∧
      s.mastermode = .mmLocked ∧ (∀ c ∈ s.cl, c.isInvAdmin = false) ∧ s.visible.length < 2))
    (by rfl)
  obtain ⟨hm, hmm, hinv, hlen⟩ := of_decide_eq_true hs
  refine ⟨s, hrun, hm, hmm, (seesMasters_iff (Reachable.orderly hrun).toWF).mpr ⟨?_, ?_⟩⟩
  · intro c hc _ hi
    rw [hinv c hc] at hi
    cases hi
  · rintro ⟨-, hst⟩
    omega

/-- One of two clients is master and locks the server: a newcomer is told that client 61,
the number of `N_CURRENTMASTER`, is a master too. -/
theorem seesMasters_stutters : ∃ s : Server, Run.Reachable step (initial sampleConfig) s ∧
    s.clients = [0, 1] ∧ readblock s.welcomemasters = some (2, [(61, 2), (0, 1)]) ∧
    readblock s.currentmaster = some (2, [(0, 1)]) ∧ ¬ s.SeesMasters := by
  obtain ⟨s, hrun, hs⟩ := Reachable.of_any step (initial sampleConfig) masterlocks
    (p := fun s : Server => decide (s.clients = [0, 1] ∧
      readblock s.welcomemasters = some (2, [(61, 2), (0, 1)]) ∧
      readblock s.currentmaster = some (2, [(0, 1)]))) (by rfl)
  obtain ⟨hcl, hw, hm⟩ := of_decide_eq_true hs
  refine ⟨s, hrun, hcl, hw, hm, ?_⟩
  rintro ⟨ps, qs, hps, hqs, heq⟩
  rw [hm] at hqs
  obtain rfl := congrArg Prod.snd (Option.some.inj hqs)
  rcases hps with ⟨hnil, -⟩ | hps
  · rw [hnil] at hw
    cases hw
  · rw [hw] at hps
    obtain rfl := congrArg Prod.snd (Option.some.inj hps)
    exact absurd ((heq (61, 2)).mp List.mem_cons_self) (by decide)

end Server
end QServ
