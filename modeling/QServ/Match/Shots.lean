import QServ.Server.State
import QServ.Shared.Fields

/-!
# Shots

`shotevent::process`: a client says whom his shot hits and with how many rays, and the server adds
the rays up so that a shot has no more of them than the gun.

* `Arms.process`: the event; `Volley`: what its loop over the hits has done so far.
* `Arms.volley_exact`: until the sum leaves the range of an `int` it is the sum of the rays.
* `Arms.process_fair_iff`: the damage is that of one shot exactly when the rays of the hits that
  pass the checks add up to less than `2 ^ 31`.
-/

namespace QServ

/-- What a shot reads of `guninfo`. -/
structure Guninfo where
  attackdelay : Int
  damage : Int
  range : Int
  rays : Int
deriving DecidableEq, Repr

/-- `guns`. -/
def guns : List Guninfo :=
  [⟨250, 50, 14, 1⟩, ⟨1400, 10, 1024, 20⟩, ⟨100, 30, 1024, 1⟩, ⟨800, 120, 1024, 1⟩,
    ⟨1500, 100, 2048, 1⟩, ⟨600, 90, 1024, 1⟩, ⟨500, 35, 1024, 1⟩, ⟨200, 20, 1024, 1⟩,
    ⟨200, 40, 1024, 1⟩, ⟨200, 30, 1024, 1⟩, ⟨250, 50, 12, 1⟩, ⟨0, 120, 0, 1⟩]

/-- `GUN_RL`, `GUN_GL`, `GUN_PISTOL`. -/
def GUN_RL : Int := 3
def GUN_GL : Int := 5
def GUN_PISTOL : Int := 6

/-- `guns[gun]`. -/
def guninfo (gun : Int) : Guninfo := guns.getD gun.toNat ⟨0, 0, 0, 0⟩

/-- A vector as it is sent. -/
abbrev Vec := Int32 × Int32 × Int32

/-- `hitinfo`; the distance is in sixteenths, as it is sent. -/
structure Hit where
  target : Int32
  lifesequence : Int32
  dist : Int32
  rays : Int32
  dir : Vec
deriving DecidableEq, Repr

/-- `shotevent`. -/
structure Shot where
  id : Int32
  millis : Int
  gun : Int32
  start : Vec
  finish : Vec
  hits : List Hit
deriving DecidableEq, Repr

/-! ## The message -/

/-- Three numbers. -/
def getvec : StateM Ucharbuf Vec := do
  return (← getint, ← getint, ← getint)

/-- The fields of a hit. -/
def gethit : StateM Ucharbuf Hit := do
  let target ← getint
  let lifesequence ← getint
  let dist ← getint
  let rays ← getint
  return { target, lifesequence, dist, rays, dir := ← getvec }

/-- The loop over the hits, which ends where the message does. -/
def gethits : Nat → StateM Ucharbuf (List Hit)
  | 0 => return []
  | n + 1 => do
    if (← get).overread then return []
    let h ← gethit
    return h :: (← gethits n)

/-- `N_SHOOT`, after its type and the check for an id; `millis` is what `geteventmillis` says. -/
def parseshot (millis : Int32 → Int) : StateM Ucharbuf Shot := do
  let id ← getint
  let gun ← getint
  let start ← getvec
  let finish ← getvec
  let hits ← getint
  return { id, millis := millis id, gun, start, finish, hits := ← gethits hits.toInt.toNat }

/-! ## The event -/

/-- `projectilestate<8>::add(val)`. -/
def addprojectile (projs : List Int32) (val : Int32) : List Int32 :=
  if 8 ≤ projs.length then [val] else projs ++ [val]

/-- The `gamestate` of the one who shoots. -/
structure Shooter where
  state : CState
  lastdeath : Int
  lastshot : Int
  gunwait : Int
  ammo : Int → Int
  quadmillis : Int
  shotdamage : Int
  gunshotdamage : Int → Int
  rockets : List Int32
  grenades : List Int32

/-- `DEATHMILLIS`. -/
def DEATHMILLIS : Int := 300

/-- `isalive(gamemillis)`. -/
def Shooter.isalive (gs : Shooter) (gamemillis : Int) : Bool :=
  decide (gs.state = .alive) ||
    (decide (gs.state = .dead) && decide (gamemillis - gs.lastdeath ≤ DEATHMILLIS))

/-- What a hit is compared with. -/
structure Target where
  state : CState
  lifesequence : Int
deriving DecidableEq, Repr

/-- The game `W` as `shotevent::process(ci)` sees it; `toofar` is the comparison of the length of
the shot with the range of the gun. -/
structure Arms (W : Type) where
  shooter : W → Shooter
  setshooter : W → Shooter → W
  getinfo : W → Int32 → Option Target
  dodamage : W → Int32 → Int → Int32 → Vec → W
  toofar : Shot → Bool

/-- How far the loop over the hits has come: `totalrays`, the hits that passed the checks and
those of them for which `dodamage` was called. -/
structure Volley (W : Type) where
  world : W
  totalrays : Int := 0
  passed : List Hit := []
  struck : List Hit := []

/-- The rays of hits. -/
def rays (hits : List Hit) : Int := (hits.map fun h => h.rays.toInt).sum

namespace Arms

variable {W : Type} (a : Arms W) (gamemillis : Int) (e : Shot)

/-- The gun of the shot. -/
def gun : Guninfo := guninfo e.gun.toInt

/-- The hit is not skipped by `continue`. -/
def passes (w : W) (h : Hit) : Bool :=
  match a.getinfo w h.target with
  | none => false
  | some target => decide (target.state = .alive) &&
      decide (h.lifesequence.toInt = target.lifesequence) && decide (1 ≤ h.rays.toInt) &&
      decide (h.dist.toInt ≤ 16 * ((gun e).range + 1))

/-- What a hit does to its target. -/
def strike (w : W) (h : Hit) : W :=
  let damage := int32 (h.rays.toInt * (gun e).damage)
  let damage := if (a.shooter w).quadmillis ≠ 0 then int32 (damage * 4) else damage
  a.dodamage w h.target damage e.gun h.dir

/-- The body of the loop over the hits, where `totalrays` is added up by `add`. -/
def hit (add : Int → Int → Int) (v : Volley W) (h : Hit) : Volley W :=
  if a.passes e v.world h then
    let totalrays := add v.totalrays h.rays.toInt
    if (gun e).rays < totalrays then { v with totalrays, passed := v.passed ++ [h] }
    else { world := a.strike e v.world h, totalrays, passed := v.passed ++ [h],
           struck := v.struck ++ [h] }
  else v

/-- `m += n` of an `int`. -/
def addint (m n : Int) : Int := int32 (m + n)

/-- What keeps a shot from being fired. -/
def refuses (gs : Shooter) : Bool :=
  !gs.isalive gamemillis || decide (e.millis - gs.lastshot < gs.gunwait) ||
    decide (e.gun.toInt < 0) || decide (GUN_PISTOL < e.gun.toInt) ||
    decide (gs.ammo e.gun.toInt ≤ 0) || (decide ((gun e).range ≠ 0) && a.toofar e)

/-- The shot is fired: what that does to the one who fires it. -/
def fire (gs : Shooter) : Shooter :=
  let n := e.gun.toInt
  let power := (gun e).damage * (if gs.quadmillis ≠ 0 then 4 else 1) * (gun e).rays
  { gs with
    ammo := if n = 0 then gs.ammo else Function.update gs.ammo n (gs.ammo n - 1)
    lastshot := e.millis
    gunwait := (gun e).attackdelay
    shotdamage := int32 (gs.shotdamage + power)
    gunshotdamage := Function.update gs.gunshotdamage n (int32 (gs.gunshotdamage n + power))
    rockets := if n = GUN_RL then addprojectile gs.rockets e.id else gs.rockets
    grenades := if n = GUN_GL then addprojectile gs.grenades e.id else gs.grenades }

/-- `shotevent::process(ci)`, where `totalrays` is added up by `add`. -/
def processWith (add : Int → Int → Int) (w : W) : Volley W :=
  if a.refuses gamemillis e (a.shooter w) then { world := w }
  else
    let w := a.setshooter w (fire e (a.shooter w))
    if e.gun.toInt = GUN_RL ∨ e.gun.toInt = GUN_GL then { world := w }
    else e.hits.foldl (a.hit e add) { world := w }

/-- `shotevent::process(ci)`: the sum is an `int`. -/
def process (w : W) : Volley W := a.processWith gamemillis e addint w

/-- The same with a sum of any size. -/
def processExactly (w : W) : Volley W := a.processWith gamemillis e (· + ·) w

/-! ## The sum -/

variable {add : Int → Int → Int} {e}

theorem rays_append (hits hits' : List Hit) : rays (hits ++ hits') = rays hits + rays hits' := by
  simp [rays]

theorem rays_singleton (h : Hit) : rays [h] = h.rays.toInt := by
  simp [rays]

theorem guninfo_rays (gun : Int) : 0 ≤ (guninfo gun).rays := by
  have hall : ∀ g ∈ (⟨0, 0, 0, 0⟩ :: guns : List Guninfo), 0 ≤ g.rays := by decide
  unfold guninfo
  rw [List.getD_eq_getElem?_getD]
  cases hg : guns[gun.toNat]? with
  | none => exact hall _ List.mem_cons_self
  | some g => exact hall _ (List.mem_cons_of_mem _ (List.mem_of_getElem? hg))

theorem rays_pos_of_passes {w : W} {h : Hit} (hp : a.passes e w h) : 1 ≤ h.rays.toInt := by
  unfold passes at hp
  split at hp
  · cases hp
  · simp only [Bool.and_eq_true, decide_eq_true_eq] at hp
    exact hp.1.2

/-- What a hit does: nothing, or its rays are counted, or they also do damage. -/
theorem hit_cases (h : Hit) (v : Volley W) :
    (¬ a.passes e v.world h ∧ a.hit e add v h = v) ∨
    (a.passes e v.world h ∧ (gun e).rays < add v.totalrays h.rays.toInt ∧
      a.hit e add v h =
        { v with totalrays := add v.totalrays h.rays.toInt, passed := v.passed ++ [h] }) ∨
    (a.passes e v.world h ∧ add v.totalrays h.rays.toInt ≤ (gun e).rays ∧
      a.hit e add v h =
        { world := a.strike e v.world h, totalrays := add v.totalrays h.rays.toInt,
          passed := v.passed ++ [h], struck := v.struck ++ [h] }) := by
  unfold hit
  by_cases hp : a.passes e v.world h
  · by_cases hmax : (gun e).rays < add v.totalrays h.rays.toInt
    · exact .inr (.inl ⟨hp, hmax, by simp [hp, hmax]⟩)
    · exact .inr (.inr ⟨hp, not_lt.mp hmax, by simp [hp, hmax]⟩)
  · exact .inl ⟨hp, by simp [hp]⟩

variable {v : Volley W}

/-- Only hits with rays do damage. -/
theorem volley_pos (hits : List Hit) (hv : ∀ h ∈ v.struck, 1 ≤ h.rays.toInt) :
    ∀ h ∈ (hits.foldl (a.hit e add) v).struck, 1 ≤ h.rays.toInt := by
  induction hits generalizing v with
  | nil => exact hv
  | cons h hits ih =>
    refine ih ?_
    obtain ⟨-, heq⟩ | ⟨-, -, heq⟩ | ⟨hp, -, heq⟩ := a.hit_cases h v
    · rwa [heq]
    · rwa [heq]
    · rw [heq]
      intro h' hmem
      obtain hmem | hmem := List.mem_append.mp hmem
      · exact hv h' hmem
      · rw [List.mem_singleton.mp hmem]
        exact a.rays_pos_of_passes hp

/-- The rays that are counted only become more. -/
theorem volley_mono (hits : List Hit) :
    rays v.passed ≤ rays (hits.foldl (a.hit e add) v).passed := by
  induction hits generalizing v with
  | nil => exact le_refl _
  | cons h hits ih =>
    refine le_trans ?_ ih
    have hsum : a.passes e v.world h → rays v.passed ≤ rays (v.passed ++ [h]) := fun hp => by
      have := a.rays_pos_of_passes hp
      rw [rays_append]
      simp only [rays, List.map_cons, List.map_nil, List.sum_singleton]
      omega
    obtain ⟨-, heq⟩ | ⟨hp, -, heq⟩ | ⟨hp, -, heq⟩ := a.hit_cases h v
    · rw [heq]
    · rw [heq]
      exact hsum hp
    · rw [heq]
      exact hsum hp

/-- `totalrays` is the sum of the rays that are counted, and those that do damage are some of
them and no more than the gun has. -/
structure Exact (e : Shot) (v : Volley W) : Prop where
  total : v.totalrays = rays v.passed
  nonneg : 0 ≤ rays v.passed
  part : rays v.struck ≤ rays v.passed
  fair : rays v.struck ≤ (gun e).rays

/-- One hit keeps an exact sum exact. -/
theorem hit_exact (hv : Exact e v) (h : Hit) : Exact e (a.hit e (· + ·) v h) := by
  have hpassed := rays_append v.passed [h]
  have hstruck := rays_append v.struck [h]
  rw [rays_singleton] at hpassed hstruck
  obtain ⟨htotal, hnonneg, hpart, hfair⟩ := hv
  obtain ⟨-, heq⟩ | ⟨hp, hmax, heq⟩ | ⟨hp, hmax, heq⟩ := a.hit_cases h v
  · rw [heq]
    exact ⟨htotal, hnonneg, hpart, hfair⟩
  · have hpos := a.rays_pos_of_passes hp
    rw [heq]
    exact ⟨by simp only; omega, by simp only; omega, by simp only; omega, hfair⟩
  · have hpos := a.rays_pos_of_passes hp
    rw [heq]
    exact ⟨by simp only; omega, by simp only; omega, by simp only; omega, by simp only; omega⟩

/-- **The exact sum**: of all the hits that pass the checks. -/
theorem volley_exact (hv : Exact e v) (hits : List Hit) :
    Exact e (hits.foldl (a.hit e (· + ·)) v) := by
  induction hits generalizing v with
  | nil => exact hv
  | cons h hits ih => exact ih (a.hit_exact hv h)

/-- Whatever the sum, the same hits are counted. -/
theorem hit_passed (h : Hit) : (a.hit e add v h).passed = (a.hit e (· + ·) v h).passed := by
  unfold hit
  split
  · dsimp only
    split <;> split <;> rfl
  · rfl

/-- A sum that fits into an `int` is the exact one. -/
theorem hit_eq (hv : Exact e v) {h : Hit} (hfits : rays (a.hit e (· + ·) v h).passed < 2 ^ 31) :
    a.hit e addint v h = a.hit e (· + ·) v h := by
  unfold hit at hfits ⊢
  split
  · next hp =>
    have hpos := a.rays_pos_of_passes hp
    have hadd : addint v.totalrays h.rays.toInt = v.totalrays + h.rays.toInt := by
      refine int32_of_lt ?_ ?_
      · have := hv.total
        have := hv.nonneg
        omega
      · have hpassed : rays (v.passed ++ [h]) < 2 ^ 31 := by
          rw [if_pos hp] at hfits
          dsimp only at hfits
          split at hfits <;> exact hfits
        rw [rays_append, rays_singleton, ← hv.total] at hpassed
        exact hpassed
    rw [hadd]
  · rfl

/-- **The sum of a run** is the exact one if either of them fits. -/
theorem volley_eq (hv : Exact e v) {hits : List Hit}
    (hfits : rays (hits.foldl (a.hit e addint) v).passed < 2 ^ 31 ∨
      rays (hits.foldl (a.hit e (· + ·)) v).passed < 2 ^ 31) :
    hits.foldl (a.hit e addint) v = hits.foldl (a.hit e (· + ·)) v := by
  induction hits generalizing v with
  | nil => rfl
  | cons h hits ih =>
    simp only [List.foldl_cons] at hfits ⊢
    have hfirst : rays (a.hit e (· + ·) v h).passed < 2 ^ 31 := by
      obtain hfits | hfits := hfits
      · have hsame : (a.hit e addint v h).passed = _ := a.hit_passed h
        rw [← hsame]
        exact lt_of_le_of_lt (a.volley_mono hits) hfits
      · exact lt_of_le_of_lt (a.volley_mono hits) hfits
    rw [a.hit_eq hv hfirst] at hfits ⊢
    exact ih (a.hit_exact hv h) hfits

theorem addint_lt (m n : Int) : addint m n < 2 ^ 31 := by
  have := Int.bmod_lt (x := m + n) (m := 2 ^ 32) (by omega)
  unfold addint int32
  omega

theorem volley_lt (hits : List Hit) (hv : v.totalrays < 2 ^ 31) :
    (hits.foldl (a.hit e addint) v).totalrays < 2 ^ 31 := by
  induction hits generalizing v with
  | nil => exact hv
  | cons h hits ih =>
    refine ih ?_
    obtain ⟨-, heq⟩ | ⟨-, -, heq⟩ | ⟨-, -, heq⟩ := a.hit_cases h v
    · rwa [heq]
    · rw [heq]
      exact addint_lt _ _
    · rw [heq]
      exact addint_lt _ _

/-- **Shots**: no hit without rays does damage, and the rays that do are added up without
wrap-around, and are no more than the gun has, if and only if the rays of all the hits that pass
the checks sum to less than `2 ^ 31`. -/
theorem process_fair_iff (w : W) :
    (∀ h ∈ (a.process gamemillis e w).struck, 1 ≤ h.rays.toInt) ∧
    ((rays (a.process gamemillis e w).struck ≤ (gun e).rays ∧
        (a.process gamemillis e w).totalrays = rays (a.process gamemillis e w).passed) ↔
      rays (a.processExactly gamemillis e w).passed < 2 ^ 31) := by
  have hstart (w : W) : Exact e { world := w } := ⟨rfl, le_refl _, le_refl _, guninfo_rays _⟩
  unfold process processExactly processWith
  split
  · exact ⟨by simp, by simp [rays, guninfo_rays, gun]⟩
  · dsimp only
    split
    · exact ⟨by simp, by simp [rays, guninfo_rays, gun]⟩
    · refine ⟨a.volley_pos e.hits (by simp), ?_, ?_⟩
      · rintro ⟨-, htotal⟩
        have hlt := a.volley_lt (e := e) (v := { world := a.setshooter w (fire e (a.shooter w)) })
          e.hits (by simp)
        rw [htotal] at hlt
        rwa [← a.volley_eq (hstart _) (.inl hlt)]
      · intro hfits
        have hexact := a.volley_exact (hstart (a.setshooter w (fire e (a.shooter w)))) e.hits
        rw [a.volley_eq (hstart _) (.inr hfits)]
        exact ⟨hexact.fair, hexact.total⟩

/-- A duel: the one who shoots, and the health of client 1. -/
def duel : Arms (Shooter × Int) where
  shooter := Prod.fst
  setshooter w gs := (gs, w.2)
  getinfo w cn :=
    if cn = 1 then some { state := if 0 < w.2 then .alive else .dead, lifesequence := 0 } else none
  dodamage w _ damage _ _ := (w.1, w.2 - damage)
  toofar _ := false

/-- One shot of a rifle: a hit with `2 ^ 31 - 1` rays and two with one ray. -/
def riflemessage : List UInt8 :=
  [0, 4, 0, 0, 0, 0, 0, 0, 3,
    1, 0, 0, 129, 255, 255, 255, 127, 0, 0, 0, 1, 0, 0, 1, 0, 0, 0, 1, 0, 0, 1, 0, 0, 0]

/-- A client with a rifle. -/
def rifleman : Shooter where
  state := .alive
  lastdeath := 0
  lastshot := 0
  gunwait := 0
  ammo _ := 10
  quadmillis := 0
  shotdamage := 0
  gunshotdamage _ := 0
  rockets := []
  grenades := []

/-- Two rays of the rifle, which has one, do damage. -/
theorem rifle_shoots_twice :
    let e := ((parseshot fun _ => 1000).run (ucharbuf riflemessage)).1
    (gun e).rays = 1 ∧ rays (duel.process 1000 e (rifleman, 250)).struck = 2 ∧
      (duel.process 1000 e (rifleman, 250)).world.2 = 50 := by
  decide +kernel

end Arms

end QServ
