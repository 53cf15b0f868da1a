import QServ.Match.Ctf

/-!
# What the flag operations leave alone

A relation of states that the elementary writes of `ctf.h` are in: to the flags, to the marks of
one client, and of a message about a flag that is not scored.  The operations that are made of
them are in it, too.

* `Ctf.Frame`: such a relation.
* `Frame.dropflag`, `Frame.died`, `Frame.pickup`, `Frame.scoreflags`: the operations.
-/

namespace QServ

/-- A message about a flag that is scored: the scorer and the flag. -/
def FlagMsg.scored : FlagMsg → Option (Int × Int)
  | .score cn relay .. => some (cn, relay)
  | _ => none

namespace Ctf

variable {P : Type} {near : P → P → Bool} {s s' s'' : Ctf P}

/-- **A frame condition**: the writes to the flags and to the marks of this client keep it. -/
structure Frame (cn : Int) (R : Ctf P → Ctf P → Prop) : Prop where
  refl : ∀ s, R s s
  trans : ∀ {s s' s''}, R s s' → R s' s'' → R s s''
  flags : ∀ s flags holdspawns notgotflags, R s { s with flags, holdspawns, notgotflags }
  sendf : ∀ s m, m.scored = none → R s (s.sendf m)
  unmark : ∀ s, R s (s.upd cn Runner.unmark)
  settake : ∀ s t, R s (s.upd cn (Runner.settake t))

namespace Frame

variable {cn : Int} {R : Ctf P → Ctf P → Prop}

theorem updflag (h : Frame cn R) (i : Nat) (f : Flag P → Flag P) : R s (s.updflag i f) :=
  h.flags s _ s.holdspawns s.notgotflags

theorem updsend (h : Frame cn R) (i : Nat) (f : Flag P → Flag P) {m : FlagMsg}
    (hm : m.scored = none) : R s ((s.updflag i f).sendf m) :=
  h.trans (h.updflag i f) (h.sendf _ m hm)

theorem foldl {α : Type} (h : Frame cn R) {body : Ctf P → α → Ctf P} (hbody : ∀ s a, R s (body s a))
    (l : List α) : ∀ s, R s (l.foldl body s) := by
  induction l with
  | nil => exact h.refl
  | cons a l ih => exact fun s => h.trans (hbody s a) (ih _)

theorem drop1 {ci : Runner P} (h : Frame ci.cn R) (dropper : Int) (s : Ctf P) (i : Nat) :
    R s (drop1 near ci dropper s i) := by
  unfold Ctf.drop1
  split
  · exact h.refl s
  · split
    · exact h.refl s
    · split
      · exact h.updsend i _ rfl
      · exact h.trans (h.sendf s _ rfl) (h.trans (h.unmark _) (h.updflag i _))

theorem dropflag {ci : Runner P} (h : Frame ci.cn R) (dropper : Int) :
    R s (s.dropflag near ci dropper) := by
  unfold Ctf.dropflag
  split
  · exact h.refl s
  · exact h.foldl (h.drop1 dropper) _ s

theorem forget (h : Frame cn R) (dropper : Int) : R s (s.forget dropper) :=
  h.flags s _ s.holdspawns s.notgotflags

theorem leavegame {ci : Runner P} (h : Frame ci.cn R) : R s (s.leavegame near ci) :=
  h.trans (h.dropflag ci.cn) (h.forget ci.cn)

theorem deadflags (h : Frame cn R) (owner : Int) : R s (s.deadflags owner) := by
  unfold Ctf.deadflags
  split
  · exact h.flags s _ s.holdspawns s.notgotflags
  · exact h.refl s

theorem died {ci : Runner P} (h : Frame ci.cn R) (actor : Option (Runner P)) :
    R s (s.died near ci actor) := by
  unfold Ctf.died
  split
  · exact h.refl s
  · exact h.trans (h.deadflags ci.cn) (h.trans (h.dropflag _) (h.forget ci.cn))

theorem pickup {ci : Runner P} (h : Frame ci.cn R) (i : Nat) (f : Flag P) :
    R s (s.pickup ci i f) := by
  unfold Ctf.pickup
  generalize (if s.hold = true then ctfteamflag ci.team else -1) = ownteam
  simp only
  split
  · exact h.trans (h.updsend i _ rfl) (h.settake _ _)
  · exact h.updsend i _ rfl

theorem spawnflag (h : Frame cn R) (i draw : Nat) : R s (s.spawnflag i draw) := h.updflag i _

theorem scoreflags (h : Frame cn R) (goal : Nat) (relay : Option Nat) (draw : Nat) :
    R s (s.scoreflags goal relay draw) := by
  have hspawn : ∀ s : Ctf P, R s (if s.hold then s.spawnflag goal draw else s) := by
    intro s
    split
    · exact h.spawnflag goal draw
    · exact h.refl s
  unfold Ctf.scoreflags
  cases relay with
  | none =>
    refine h.trans ?_ (h.updflag goal _)
    exact h.trans (h.updflag goal _) (hspawn _)
  | some j =>
    refine h.trans (h.trans ?_ (h.updflag j _)) (h.updflag goal _)
    exact h.trans (h.updflag j _) (hspawn _)

theorem showflag (h : Frame cn R) (i : Nat) : R s (s.showflag i) := by
  unfold Ctf.showflag
  split
  · exact h.refl s
  · split
    · exact h.updsend i _ rfl
    · exact h.refl s

theorem setupholdspawns (h : Frame cn R) (draw : Nat) : R s (s.setupholdspawns draw) := by
  unfold Ctf.setupholdspawns
  split
  · exact h.refl s
  · simp only
    refine h.trans (h.trans ?_ (h.trans (h.spawnflag 0 draw) (h.updflag 0 _))) (h.sendf _ _ rfl)
    exact h.flags s _ s.holdspawns s.notgotflags

theorem setupflags (h : Frame cn R) (spots : List (P × Int)) (rnd : Nat → Nat) :
    R s (s.setupflags spots rnd) := by
  unfold Ctf.setupflags
  split
  · refine h.trans (h.trans ?_ (h.setupholdspawns _)) (h.flags _ _ _ false)
    exact h.flags s s.flags _ s.notgotflags
  · exact h.flags s _ s.holdspawns false

theorem parseflags (h : Frame cn R) (spots : List (P × Int)) (rnd : Nat → Nat) :
    R s (s.parseflags spots rnd) := by
  unfold Ctf.parseflags
  split
  · exact h.setupflags spots rnd
  · exact h.refl s

end Frame
end Ctf
end QServ
