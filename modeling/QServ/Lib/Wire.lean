import Mathlib.Data.List.Basic

/-!
# Reading what was written

A stream is read by a state monad over what is left of it.  A reader takes a word for a value
when, whatever follows the word, it yields the value and leaves what follows: no frame around the
word is needed, and such readers compose.

* `Reads.bind`, `Reads.map`: reading one word after the other.
* `Reads.mapM`: a list of fields is read back from its concatenated words.
* `ReadsAt`: the same in front of one given rest, field by field.
-/

namespace Wire

variable {σ ι α β φ : Type} {feed : List σ → ι}

/-- `d` reads the word `w` as `a` when `rest` comes after it. -/
def ReadsAt (feed : List σ → ι) (d : StateM ι α) (w : List σ) (a : α) (rest : List σ) : Prop :=
  d.run (feed (w ++ rest)) = (a, feed rest)

/-- `d` reads the word `w` as `a`, whatever comes after it. -/
def Reads (feed : List σ → ι) (d : StateM ι α) (w : List σ) (a : α) : Prop :=
  ∀ rest, ReadsAt feed d w a rest

theorem ReadsAt.bind {d : StateM ι α} {k : α → StateM ι β} {w v rest : List σ} {a : α} {b : β}
    (hd : ReadsAt feed d w a (v ++ rest)) (hk : ReadsAt feed (k a) v b rest) :
    ReadsAt feed (d >>= k) (w ++ v) b rest := by
  show (d >>= k).run (feed ((w ++ v) ++ rest)) = (b, feed rest)
  have h : d.run (feed (w ++ (v ++ rest))) = (a, feed (v ++ rest)) := hd
  rw [List.append_assoc, StateT.run_bind, h]
  exact hk

theorem Reads.bind {d : StateM ι α} {k : α → StateM ι β} {w v : List σ} {a : α} {b : β}
    (hd : Reads feed d w a) (hk : Reads feed (k a) v b) : Reads feed (d >>= k) (w ++ v) b :=
  fun rest => (hd _).bind (hk rest)

theorem Reads.pure (a : α) : Reads feed (Pure.pure a) [] a := fun _ => rfl

theorem Reads.map {d : StateM ι α} {w : List σ} {a : α} (f : α → β) (hd : Reads feed d w a) :
    Reads feed (f <$> d) w (f a) := by
  intro rest
  show (f <$> d).run (feed (w ++ rest)) = (f a, feed rest)
  have h : d.run (feed (w ++ rest)) = (a, feed rest) := hd rest
  rw [StateT.run_map, h]
  rfl

section fields

variable {get : φ → StateM ι α} {put : φ → List σ} {value : φ → α}

/-- A list of fields read in turn, each of them by its reader. -/
theorem Reads.mapM {fs : List φ} (h : ∀ f ∈ fs, Reads feed (get f) (put f) (value f)) :
    Reads feed (fs.mapM get) (fs.flatMap put) (fs.map value) := by
  induction fs with
  | nil => simpa using Reads.pure []
  | cons f fs ih =>
    have hf := h f List.mem_cons_self
    have hfs := ih fun g hg => h g (List.mem_cons_of_mem _ hg)
    simp only [List.mapM_cons, List.flatMap_cons, List.map_cons]
    refine hf.bind ?_
    have hmap := hfs.map (value f :: ·)
    rwa [map_eq_pure_bind] at hmap

/-- The fields up to a place, and one more: what the last reader did. -/
theorem ReadsAt.of_mapM_succ {fs : List φ} {f : φ} {pre rest : List σ}
    (hfs : ReadsAt feed (fs.mapM get) pre (fs.map value) (put f ++ rest))
    (hsucc : ReadsAt feed ((fs ++ [f]).mapM get) (pre ++ put f) ((fs ++ [f]).map value) rest) :
    ReadsAt feed (get f) (put f) (value f) rest := by
  have h : (fs.mapM get).run (feed (pre ++ (put f ++ rest))) = (fs.map value, feed (put f ++ rest)) :=
    hfs
  have h' : ((fs ++ [f]).mapM get).run (feed (pre ++ put f ++ rest)) =
      ((fs ++ [f]).map value, feed rest) := hsucc
  rw [List.mapM_append, StateT.run_bind, List.append_assoc, h] at h'
  simp only [List.mapM_cons, List.mapM_nil, List.map_append, List.map_cons, List.map_nil] at h'
  show (get f).run (feed (put f ++ rest)) = (value f, feed rest)
  have hf : (fs.map value ++ [((get f).run (feed (put f ++ rest))).1],
      ((get f).run (feed (put f ++ rest))).2) = (fs.map value ++ [value f], feed rest) := h'
  obtain ⟨hval, hrest⟩ := Prod.mk.inj hf
  exact Prod.ext (by simpa using hval) hrest

end fields

end Wire
