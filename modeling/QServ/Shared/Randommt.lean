import QServ.Lib.Recurrence

/-!
# Random numbers

`seedMT` and `randomMT` of `shared/tools.cpp`, which renew one word of the state at each call, and
the MT19937 generator, which renews all of them when they are used up.

* `Mt19937.genrand_exact`: the generator gives the words of its recurrence, tempered.
* `randomMT_step`: a call renews the oldest word.
* `randomMT_exact`: the numbers are those of the generator.
-/

namespace QServ

/-! ## The generator -/

namespace Mt19937

/-- `N`. -/
def N : Nat := 624

/-- `M`. -/
def M : Nat := 397

def MATRIX_A : UInt32 := 0x9908B0DF

def UPPER_MASK : UInt32 := 0x80000000

def LOWER_MASK : UInt32 := 0x7FFFFFFF

/-- `x ↦ xA` for a word whose lowest bit is the last coefficient. -/
def timesA (y : UInt32) : UInt32 := if y &&& 1 = 0 then y >>> 1 else (y >>> 1) ^^^ MATRIX_A

/-- The next word: from the upper bit of one, the lower bits of another, and a third. -/
def twist (a b c : UInt32) : UInt32 := c ^^^ timesA ((a &&& UPPER_MASK) ||| (b &&& LOWER_MASK))

/-- Tempering. -/
def tempering (y : UInt32) : UInt32 :=
  let y := y ^^^ (y >>> 11)
  let y := y ^^^ (y <<< 7 &&& 0x9D2C5680)
  let y := y ^^^ (y <<< 15 &&& 0xEFC60000)
  y ^^^ (y >>> 18)

/-- The first words. -/
def initial (seed : UInt32) : Nat → UInt32
  | 0 => seed
  | i + 1 =>
    (1812433253 : UInt32) * (initial seed i ^^^ (initial seed i >>> 30)) + UInt32.ofNat (i + 1)

/-- The recurrence. -/
def taps : Recurrence.Taps := { n := N, m := M, one_lt := by decide, lt := by decide }

/-- The words. -/
def word (seed : UInt32) : Nat → UInt32 := Recurrence.run taps twist (initial seed)

/-- The state: `mti` words of `mt` have been used. -/
structure State where
  mt : List UInt32
  mti : Nat

/-- The generator is initialised; the first number is asked of new words. -/
def init_genrand (seed : UInt32) : State := { mt := (List.range N).map (initial seed), mti := N }

/-- All words are renewed, from the first to the last. -/
def regenerate (mt : List UInt32) : Option (List UInt32) := Recurrence.steps taps twist N 0 mt

/-- Words that have not been used. -/
def renew (s : State) : Option State :=
  if N ≤ s.mti then (regenerate s.mt).map fun mt => { mt, mti := 0 } else some s

/-- The next number and the state behind it. -/
def genrand_int32 (s : State) : Option (UInt32 × State) := do
  let s ← renew s
  some (tempering (← s.mt[s.mti]?), { s with mti := s.mti + 1 })

/-- The state behind `n` numbers. -/
def after (s : State) : Nat → Option State
  | 0 => some s
  | n + 1 => (after s n).bind fun s => (genrand_int32 s).map Prod.snd

/-- Number `n`. -/
def output (s : State) (n : Nat) : Option UInt32 :=
  (after s n).bind fun s => (genrand_int32 s).map Prod.fst

theorem holds_initial (seed : UInt32) :
    Recurrence.Holds taps (word seed) 0 ((List.range N).map (initial seed)) where
  length := by rw [List.length_map, List.length_range]; rfl
  get k _ hk := by
    have hlt : k < taps.n := by omega
    have hget : (List.range N)[k]? = some k := List.getElem?_range hlt
    rw [Nat.mod_eq_of_lt hlt, List.getElem?_map, hget, word, Recurrence.run_of_lt hlt]
    rfl

/-- What the state holds before number `n`: the words in it begin at a multiple of `N`. -/
structure Generates (seed : UInt32) (n : Nat) (s : State) : Prop where
  le : s.mti ≤ N
  dvd : N ∣ n + N - s.mti
  holds : Recurrence.Holds taps (word seed) (n + N - s.mti) s.mt

variable {seed : UInt32} {n : Nat} {s : State}

theorem Generates.renew (h : Generates seed n s) :
    ∃ s', renew s = some s' ∧ Generates seed n s' ∧ s'.mti < N := by
  unfold Mt19937.renew
  by_cases hused : N ≤ s.mti
  · have heq : s.mti = N := Nat.le_antisymm h.le hused
    have hdvd := h.dvd
    have hholds := h.holds
    rw [heq, Nat.add_sub_cancel] at hdvd hholds
    have hstart : 0 % taps.n = n % taps.n := (Nat.mod_eq_zero_of_dvd hdvd).symm
    obtain ⟨mt, hmt, hnew⟩ := hholds.steps (Recurrence.run_obeys _) N hstart
    have hpos : 0 < N := by decide
    refine ⟨⟨mt, 0⟩, ?_, ⟨Nat.zero_le N, ?_, hnew⟩, hpos⟩
    · rw [if_pos hused, regenerate, hmt]
      rfl
    · exact Nat.dvd_add hdvd (Nat.dvd_refl N)
  · exact ⟨s, if_neg hused, h, Nat.not_le.mp hused⟩

/-- **A number.** -/
theorem Generates.next (h : Generates seed n s) :
    ∃ s', genrand_int32 s = some (tempering (word seed (n + N)), s') ∧
      Generates seed (n + 1) s' := by
  obtain ⟨s, hrenew, ⟨-, hdvd, hholds⟩, hlt⟩ := h.renew
  have hget : s.mt[s.mti]? = some (word seed (n + N)) := by
    have hword := hholds.get (n + N) (Nat.sub_le _ _) (by change _ < _ + N; omega)
    obtain ⟨q, hq⟩ := hdvd
    have hsum : n + N = s.mti + N * q := by omega
    have hmod : (n + N) % taps.n = s.mti := by
      change (n + N) % N = s.mti
      rw [hsum, Nat.add_mul_mod_self_left, Nat.mod_eq_of_lt hlt]
    rw [hmod] at hword
    exact hword
  have hsucc : n + 1 + N - (s.mti + 1) = n + N - s.mti := by omega
  refine ⟨{ s with mti := s.mti + 1 }, ?_, Nat.succ_le_of_lt hlt, ?_, ?_⟩
  · simp only [genrand_int32, hrenew, Option.bind_eq_bind, Option.bind_some, hget]
  · dsimp only
    rwa [hsucc]
  · dsimp only
    rwa [hsucc]

theorem generates_init (seed : UInt32) : Generates seed 0 (init_genrand seed) := by
  have hstart : 0 + N - (init_genrand seed).mti = 0 := by
    rw [Nat.zero_add]
    exact Nat.sub_self N
  have hholds : Recurrence.Holds taps (word seed) 0 (init_genrand seed).mt := by
    dsimp only [init_genrand]
    exact holds_initial seed
  refine ⟨Nat.le_refl N, ?_, ?_⟩
  · rw [hstart]
    exact Nat.dvd_zero N
  · rw [hstart]
    exact hholds

theorem generates_after (seed : UInt32) (n : Nat) :
    ∃ s, after (init_genrand seed) n = some s ∧ Generates seed n s := by
  induction n with
  | zero => exact ⟨init_genrand seed, rfl, generates_init seed⟩
  | succ n ih =>
    obtain ⟨s, hs, h⟩ := ih
    obtain ⟨s', hs', h'⟩ := h.next
    refine ⟨s', ?_, h'⟩
    rw [after, hs, Option.bind_some, hs']
    rfl

/-- **The generator** gives the words of its recurrence, tempered. -/
theorem genrand_exact (seed : UInt32) (n : Nat) :
    output (init_genrand seed) n = some (tempering (word seed (n + N))) := by
  obtain ⟨s, hs, h⟩ := generates_after seed n
  obtain ⟨s', hs', -⟩ := h.next
  rw [output, hs, Option.bind_some, hs']
  rfl

end Mt19937

/-! ## The code -/

/-- `state` and `next`. -/
structure RandomMT where
  state : List UInt32
  next : Nat

namespace RandomMT

open Mt19937 (N M)

/-- `K`. -/
def K : UInt32 := 0x9908B0DF

/-- `for(uint i = 1; i < N; i++) state[i] = seed = 1812433253U * (seed ^ (seed >> 30)) + i;`, from
`i` on, `n` times. -/
def fill : Nat → Nat → UInt32 → List UInt32
  | 0, _, _ => []
  | n + 1, i, seed =>
    let seed := (1812433253 : UInt32) * (seed ^^^ (seed >>> 30)) + UInt32.ofNat i
    seed :: fill n (i + 1) seed

/-- `seedMT(seed)`. -/
def seedMT (seed : UInt32) : RandomMT := { state := seed :: fill (N - 1) 1 seed, next := 0 }

/-- What `randomMT` returns for a word. -/
def temper (y : UInt32) : UInt32 :=
  let y := y ^^^ (y >>> 11)
  let y := y ^^^ ((y <<< 7) &&& 0x9D2C5680)
  let y := y ^^^ ((y <<< 15) &&& 0xEFC60000)
  y ^^^ (y >>> 18)

/-- `cur` and the state with the new `next`; without a seed the time gives one. -/
def advance (now : UInt32) (s : RandomMT) : Nat × RandomMT :=
  let next := s.next + 1
  if N ≤ next then
    if N < next then (0, { seedMT (5489 + now) with next := 1 }) else (s.next, { s with next := 0 })
  else (s.next, { s with next })

/-- `randomMT()`; nothing for a place outside `state`. -/
def randomMT (now : UInt32) (s : RandomMT) : Option (UInt32 × RandomMT) := do
  let (cur, s) := advance now s
  let y := ((← s.state[cur]?) &&& 0x80000000) ||| ((← s.state[s.next]?) &&& 0x7FFFFFFF)
  let y := (← s.state[if cur < N - M then cur + M else cur + M - N]?) ^^^ (y >>> 1) ^^^
    (-(y &&& 1) &&& K)
  some (temper y, { s with state := s.state.set cur y })

/-- The state behind `n` calls at the given times. -/
def after (now : Nat → UInt32) (s : RandomMT) : Nat → Option RandomMT
  | 0 => some s
  | n + 1 => (after now s n).bind fun s => (randomMT (now n) s).map Prod.snd

/-- The result of call `n`. -/
def output (now : Nat → UInt32) (s : RandomMT) (n : Nat) : Option UInt32 :=
  (after now s n).bind fun s => (randomMT (now n) s).map Prod.fst

theorem fill_eq (seed : UInt32) (n : Nat) : ∀ i : Nat,
    fill n (i + 1) (Mt19937.initial seed i) =
      (List.range' (i + 1) n).map (Mt19937.initial seed) := by
  induction n with
  | zero =>
    intro i
    rfl
  | succ n ih =>
    intro i
    rw [List.range'_succ, List.map_cons, ← ih (i + 1)]
    rfl

theorem seedMT_state (seed : UInt32) :
    (seedMT seed).state = (List.range N).map (Mt19937.initial seed) := by
  have hfill := fill_eq seed (N - 1) 0
  have hrange : List.range N = 0 :: List.range' 1 (N - 1) := by
    rw [List.range_eq_range']
    rfl
  rw [hrange, List.map_cons]
  exact congrArg (seed :: ·) hfill

/-- The new word. -/
theorem twist_eq (a b c : UInt32) :
    (let y := (a &&& 0x80000000) ||| (b &&& 0x7FFFFFFF)
     c ^^^ (y >>> 1) ^^^ (-(y &&& 1) &&& K)) = Mt19937.twist a b c := by
  have hbit : ∀ y : UInt32, y &&& 1 = 0 ∨ y &&& 1 = 1 := fun y => by
    have hmod : (y &&& 1).toNat = y.toNat % 2 := by
      rw [UInt32.toNat_and]
      exact Nat.and_one_is_mod y.toNat
    rcases Nat.mod_two_eq_zero_or_one y.toNat with h | h
    · exact Or.inl (UInt32.toNat_inj.mp (hmod.trans h))
    · exact Or.inr (UInt32.toNat_inj.mp (hmod.trans h))
  unfold Mt19937.twist Mt19937.timesA Mt19937.UPPER_MASK Mt19937.LOWER_MASK
  dsimp only
  generalize (a &&& 0x80000000) ||| (b &&& 0x7FFFFFFF) = y
  rcases hbit y with h | h
  · rw [h, if_pos rfl]
    have hzero : -(0 : UInt32) &&& K = 0 := by decide
    rw [hzero, UInt32.xor_zero]
  · rw [h, if_neg (by decide)]
    have hall : -(1 : UInt32) &&& K = Mt19937.MATRIX_A := by decide
    rw [hall, UInt32.xor_assoc]

/-- What the state holds before call `n`. -/
structure Circulates (seed : UInt32) (n : Nat) (s : RandomMT) : Prop where
  next : s.next = n % N
  holds : Recurrence.Holds Mt19937.taps (Mt19937.word seed) n s.state

variable {seed : UInt32} {n : Nat} {s : RandomMT}

/-- **A call** renews the oldest word and returns it, tempered. -/
theorem Circulates.randomMT (h : Circulates seed n s) (now : UInt32) :
    ∃ s', randomMT now s = some (temper (Mt19937.word seed (n + N)), s') ∧
      Circulates seed (n + 1) s' := by
  obtain ⟨state, next⟩ := s
  obtain ⟨hnext, hholds⟩ := h
  dsimp only at hnext hholds
  have hadvance : advance now ⟨state, next⟩ = (n % N, ⟨state, (n + 1) % N⟩) := by
    unfold advance
    dsimp only
    rw [hnext]
    have hN : N = 624 := rfl
    by_cases hlast : N ≤ n % N + 1
    · have hzero : (n + 1) % N = 0 := by
        rw [hN] at hlast ⊢
        omega
      have hle : ¬ N < n % N + 1 := by
        rw [hN]
        omega
      rw [if_pos hlast, if_neg hle, hzero]
    · have hsucc : (n + 1) % N = n % N + 1 := by
        rw [hN] at hlast ⊢
        omega
      rw [if_neg hlast, hsucc]
  have hthird : (if n % N < N - M then n % N + M else n % N + M - N) = (n + M) % N := by
    have hN : N = 624 := rfl
    have hM : M = 397 := rfl
    rw [hN, hM]
    split
    · omega
    · omega
  have hget : ∀ d < N, state[(n + d) % N]? = some (Mt19937.word seed (n + d)) := fun d hd =>
    hholds.get (n + d) (Nat.le_add_right n d) (Nat.add_lt_add_left hd n)
  have hword : Mt19937.word seed (n + N) = Mt19937.twist (Mt19937.word seed n)
      (Mt19937.word seed (n + 1)) (Mt19937.word seed (n + M)) := Recurrence.run_obeys _ n
  refine ⟨⟨state.set (n % N) (Mt19937.word seed (n + N)), (n + 1) % N⟩, ?_, rfl, hholds.set⟩
  have hfirst := hget 0 (by decide)
  rw [Nat.add_zero] at hfirst
  unfold RandomMT.randomMT
  rw [hadvance, hword]
  dsimp only
  rw [hthird, hfirst, hget 1 (by decide), hget M (by decide)]
  simp only [Option.bind_eq_bind, Option.bind_some, twist_eq]

/-- Without a seed the time gives one. -/
theorem randomMT_unseeded (state : List UInt32) (now now' : UInt32) :
    randomMT now ⟨state, N⟩ = randomMT now' (seedMT (5489 + now)) := by
  have hseed : advance now ⟨state, N⟩ = advance now' (seedMT (5489 + now)) := by
    have hseeded : ¬ N ≤ 0 + 1 := by decide
    unfold advance
    rw [if_pos (Nat.le_succ N), if_pos (Nat.lt_succ_self N)]
    exact (if_neg hseeded).symm
  unfold RandomMT.randomMT
  rw [hseed]

/-- The state behind `n` calls. -/
theorem circulates_after (now : Nat → UInt32) (seed : UInt32) (n : Nat) :
    ∃ s, after now (seedMT seed) n = some s ∧ Circulates seed n s := by
  induction n with
  | zero =>
    refine ⟨seedMT seed, rfl, rfl, ?_⟩
    rw [seedMT_state]
    exact Mt19937.holds_initial seed
  | succ n ih =>
    obtain ⟨s, hs, h⟩ := ih
    obtain ⟨s', hs', h'⟩ := h.randomMT (now n)
    refine ⟨s', ?_, h'⟩
    rw [after, hs, Option.bind_some, hs']
    rfl

/-- **The numbers** after a seed are those of the generator, at whatever times they are asked for:
the words of the recurrence, tempered. -/
theorem randomMT_exact (now : Nat → UInt32) (seed : UInt32) (n : Nat) :
    output now (seedMT seed) n = Mt19937.output (Mt19937.init_genrand seed) n ∧
    output now (seedMT seed) n = some (temper (Mt19937.word seed (n + N))) := by
  have hrun : output now (seedMT seed) n = some (temper (Mt19937.word seed (n + N))) := by
    obtain ⟨s, hs, h⟩ := circulates_after now seed n
    obtain ⟨s', hs', -⟩ := h.randomMT (now n)
    rw [output, hs, Option.bind_some, hs']
    rfl
  refine ⟨?_, hrun⟩
  rw [hrun, Mt19937.genrand_exact]
  rfl

end RandomMT

end QServ
