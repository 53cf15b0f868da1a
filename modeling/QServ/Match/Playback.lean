import Mathlib.Data.List.Forall2
import Mathlib.Data.List.Induction
import QServ.Game.Protocol
import QServ.Shared.Numerals

/-!
# Demos that are recorded and played

The stream of a demo in `fpsgame/server.cpp`: a header, and for each packet the time, the channel,
the length and the data.  The compression is left out: a file holds what was written to the stream.

* `Recorder.next`: what is written while a game goes on.
* `Playback.readdemo`: what is read in a frame, and sent to all clients.
* `recorder_writes`: a recording is the demo of the packets since it began.
* `demo_played`: a demo that ends anywhere, played in frames at any times, brings the packets that
  are whole and whose time has come, and no other; it stops once there is nothing more to come.
-/

namespace QServ

/-! ## Numbers of four bytes -/

/-- The bytes of an `int` in the order of `lilswap`. -/
def lilbytes (n : BitVec 32) : List UInt8 :=
  [.ofNat n.toNat, .ofNat (n.toNat / 2 ^ 8), .ofNat (n.toNat / 2 ^ 16), .ofNat (n.toNat / 2 ^ 24)]

/-- The next four bytes of a stream. -/
def readlil : List UInt8 → Option (BitVec 32 × List UInt8)
  | a :: b :: c :: d :: l =>
    some (.ofNat 32 (a.toNat + 2 ^ 8 * b.toNat + 2 ^ 16 * c.toNat + 2 ^ 24 * d.toNat), l)
  | _ => none

@[simp] theorem length_lilbytes (n : BitVec 32) : (lilbytes n).length = 4 := rfl

theorem readlil_lilbytes (n : BitVec 32) (l : List UInt8) :
    readlil (lilbytes n ++ l) = some (n, l) := by
  have hlt : n.toNat < 2 ^ 32 := n.isLt
  have hsum : n.toNat % 2 ^ 8 + 2 ^ 8 * (n.toNat / 2 ^ 8 % 2 ^ 8) +
      2 ^ 16 * (n.toNat / 2 ^ 16 % 2 ^ 8) + 2 ^ 24 * (n.toNat / 2 ^ 24 % 2 ^ 8) = n.toNat := by
    omega
  have hbyte (m : Nat) : (UInt8.ofNat m).toNat = m % 2 ^ 8 := UInt8.toNat_ofNat'
  simp only [lilbytes, List.cons_append, List.nil_append, readlil, hbyte, hsum]
  rw [BitVec.ofNat_toNat, BitVec.setWidth_eq]

theorem take_lilbytes (n : BitVec 32) (l : List UInt8) {k : Nat} (h : 4 ≤ k) :
    (lilbytes n ++ l).take k = lilbytes n ++ l.take (k - 4) := by
  rw [List.take_append, List.take_of_length_le (by simpa using h), length_lilbytes]

theorem readlil_short {l : List UInt8} (h : l.length < 4) : readlil l = none := by
  match l, h with
  | [], _ | [_], _ | [_, _], _ | [_, _, _], _ => rfl
  | _ :: _ :: _ :: _ :: _, h => simp at h; omega

/-- A number at the front of a stream that ends somewhere. -/
theorem readlil_take (n : BitVec 32) (l : List UInt8) (k : Nat) :
    readlil ((lilbytes n ++ l).take k) = if k < 4 then none else some (n, l.take (k - 4)) := by
  split
  · next h => exact readlil_short (lt_of_le_of_lt (List.length_take_le k _) h)
  · next h => rw [take_lilbytes n l (Nat.not_lt.mp h), readlil_lilbytes]

theorem readlil_length {l l' : List UInt8} {n : BitVec 32} (h : readlil l = some (n, l')) :
    l'.length < l.length := by
  match l, h with
  | _ :: _ :: _ :: _ :: _, h =>
    obtain ⟨-, rfl⟩ := Prod.mk.inj (Option.some.inj h)
    simp only [List.length_cons]
    omega

/-! ## Recording -/

/-- A packet that is recorded: `gamemillis`, the channel and the data, whose length is that of a
packet of `enet`, well below that of an `int`. -/
structure DemoPacket where
  millis : BitVec 32
  chan : BitVec 32
  data : List UInt8
  short : data.length + 1 < 2 ^ 31

namespace DemoPacket

variable (q : DemoPacket)

/-- What `writedemo(chan, data, len)` writes. -/
def bytes : List UInt8 :=
  lilbytes q.millis ++ lilbytes q.chan ++ lilbytes (.ofNat 32 q.data.length) ++ q.data

/-- What is sent of it, on its channel. -/
def sent : BitVec 32 × List UInt8 := (q.chan, .ofNat MsgType.nDemopacket.code.toNat :: q.data)

end DemoPacket

/-- `DEMO_MAGIC`. -/
def DEMO_MAGIC : List UInt8 := word "SAUERBRATEN_DEMO"

/-- `DEMO_VERSION`. -/
def DEMO_VERSION : BitVec 32 := 1

/-- `PROTOCOL_VERSION`. -/
def PROTOCOL_VERSION : BitVec 32 := 260

/-- `demoheader`. -/
def demoheader : List UInt8 := DEMO_MAGIC ++ lilbytes DEMO_VERSION ++ lilbytes PROTOCOL_VERSION

/-- The stream of a demo. -/
def demobytes (qs : List DemoPacket) : List UInt8 := demoheader ++ qs.flatMap DemoPacket.bytes

/-- `demorecord`, and the files of the recordings that are over. -/
structure Recorder where
  demorecord : Option (List UInt8) := none
  demos : List (List UInt8) := []
  deriving DecidableEq, Repr

/-- What happens to a recording.  `setup` brings the welcome packet, if a demo is recorded in this
mode and there is a file for it; `packet` tells whether the file is full now; where a recording ends
it is kept, unless there may be no demos. -/
inductive DemorecordEvent
  | setup (welcome : Option DemoPacket) (full keep : Bool)
  | packet (q : DemoPacket) (full keep : Bool)
  | stop (keep : Bool)

namespace Recorder

variable (r : Recorder)

/-- `enddemorecord()`. -/
def enddemorecord (keep : Bool) : Recorder :=
  match r.demorecord with
  | none => r
  | some l => { demorecord := none, demos := if keep then r.demos ++ [l] else r.demos }

/-- `writedemo(chan, data, len)`. -/
def writedemo (q : DemoPacket) (full keep : Bool) : Recorder :=
  match r.demorecord with
  | none => r
  | some l =>
    let r := { r with demorecord := some (l ++ q.bytes) }
    if full then r.enddemorecord keep else r

/-- One event; `setupdemorecord()` lets go of a recording that is under way. -/
def next (r : Recorder) : DemorecordEvent → Recorder
  | .setup none _ _ => r
  | .setup (some welcome) full keep =>
    { r with demorecord := some demoheader }.writedemo welcome full keep
  | .packet q full keep => r.writedemo q full keep
  | .stop keep => r.enddemorecord keep

end Recorder

/-- The packets of the recording that is under way, and of those that are over. -/
structure Recording where
  packets : Option (List DemoPacket) := none
  demos : List (List DemoPacket) := []

namespace Recording

variable (r : Recording)

/-- The recording is over. -/
def stop (keep : Bool) : Recording :=
  match r.packets with
  | none => r
  | some qs => { packets := none, demos := if keep then r.demos ++ [qs] else r.demos }

/-- A packet is added. -/
def add (q : DemoPacket) (full keep : Bool) : Recording :=
  match r.packets with
  | none => r
  | some qs =>
    let r := { r with packets := some (qs ++ [q]) }
    if full then r.stop keep else r

/-- One event. -/
def next (r : Recording) : DemorecordEvent → Recording
  | .setup none _ _ => r
  | .setup (some welcome) full keep => { r with packets := some [] }.add welcome full keep
  | .packet q full keep => r.add q full keep
  | .stop keep => r.stop keep

/-- The bytes of the recordings. -/
def written : Recorder where
  demorecord := r.packets.map demobytes
  demos := r.demos.map demobytes

theorem written_stop (keep : Bool) : (r.stop keep).written = r.written.enddemorecord keep := by
  obtain ⟨packets, demos⟩ := r
  cases packets with
  | none => rfl
  | some qs => cases keep <;> simp [stop, written, Recorder.enddemorecord]

theorem written_add (q : DemoPacket) (full keep : Bool) :
    (r.add q full keep).written = r.written.writedemo q full keep := by
  obtain ⟨packets, demos⟩ := r
  cases packets with
  | none => rfl
  | some qs =>
    have hbytes : demobytes (qs ++ [q]) = demobytes qs ++ q.bytes := by
      simp [demobytes]
    cases full with
    | false => simp [add, written, Recorder.writedemo, hbytes]
    | true =>
      have hstop := written_stop { packets := some (qs ++ [q]), demos } keep
      simpa [add, written, Recorder.writedemo, hbytes] using hstop

end Recording

/-- **Recordings**: whatever happens, the files are the demos of the packets recorded since each
began. -/
theorem recorder_writes (es : List DemorecordEvent) :
    es.foldl Recorder.next {} = (es.foldl Recording.next {}).written := by
  have hrun : ∀ (es : List DemorecordEvent) (r : Recording),
      es.foldl Recorder.next r.written = (es.foldl Recording.next r).written := by
    intro es
    induction es with
    | nil => exact fun _ => rfl
    | cons e es ih =>
      intro r
      have hstep : r.written.next e = (r.next e).written := by
        cases e with
        | setup welcome full keep =>
          cases welcome with
          | none => rfl
          | some welcome =>
            have hstart : { r.written with demorecord := some demoheader } =
                ({ r with packets := some [] } : Recording).written := by
              simp [Recording.written, demobytes]
            exact (congrArg (Recorder.writedemo · welcome full keep) hstart).trans
              (Recording.written_add _ welcome full keep).symm
        | packet q full keep => exact (r.written_add q full keep).symm
        | stop keep => exact (r.written_stop keep).symm
      rw [List.foldl_cons, List.foldl_cons, hstep, ih]
  exact hrun es {}

/-! ## Playing -/

/-- `demoplayback` as what is left of the stream, `nextplayback`, and what was sent to all clients,
each with `gamemillis` at that time. -/
structure Playback where
  demoplayback : Option (List UInt8) := none
  nextplayback : BitVec 32 := 0
  sent : List (Int × BitVec 32 × List UInt8) := []
  deriving DecidableEq, Repr

/-- The channel, the length and the data of a packet; `read` may find less than it asks for. -/
def readpacket (l : List UInt8) : Option ((BitVec 32 × List UInt8) × List UInt8) :=
  match readlil l with
  | none => none
  | some (chan, l) =>
    match readlil l with
    | none => none
    | some (len, l) =>
      if 0 ≤ len.toInt ∧ len.toInt.toNat ≤ l.length then
        some ((chan, .ofNat MsgType.nDemopacket.code.toNat :: l.take len.toInt.toNat),
          l.drop len.toInt.toNat)
      else none

theorem readpacket_length {l l' : List UInt8} {m : BitVec 32 × List UInt8}
    (h : readpacket l = some (m, l')) : l'.length < l.length := by
  unfold readpacket at h
  split at h
  · cases h
  · next chan l₁ h₁ =>
    split at h
    · cases h
    · next len l₂ h₂ =>
      split at h
      · obtain ⟨-, rfl⟩ := Prod.mk.inj (Option.some.inj h)
        have hlt₁ := readlil_length h₁
        have hlt₂ := readlil_length h₂
        rw [List.length_drop]
        omega
      · cases h

namespace Playback

/-- `enddemoplayback()`. -/
def enddemoplayback (p : Playback) : Playback := { p with demoplayback := none }

/-- The loop of `readdemo` on a stream that is open. -/
def readloop (gamemillis : Int) (l : List UInt8) (nextplayback : BitVec 32)
    (sent : List (Int × BitVec 32 × List UInt8)) : Playback :=
  if gamemillis < nextplayback.toInt then { demoplayback := some l, nextplayback, sent }
  else
    match _hpacket : readpacket l with
    | none => { nextplayback, sent }
    | some (m, l') =>
      match _hnext : readlil l' with
      | none => { nextplayback, sent := sent ++ [(gamemillis, m)] }
      | some (n, l'') => readloop gamemillis l'' n (sent ++ [(gamemillis, m)])
termination_by l.length
decreasing_by
  have hlt := readpacket_length _hpacket
  have hlt' := readlil_length _hnext
  omega

/-- `readdemo()`. -/
def readdemo (p : Playback) (gamemillis : Int) : Playback :=
  match p.demoplayback with
  | none => p
  | some l => readloop gamemillis l p.nextplayback p.sent

/-- `setupdemoplayback()` of a file that could be opened. -/
def setupdemoplayback (l : List UInt8) : Playback :=
  if l.length < demoheader.length ∨ l.take DEMO_MAGIC.length ≠ DEMO_MAGIC then {}
  else
    match readlil (l.drop DEMO_MAGIC.length) with
    | none => {}
    | some (version, l) =>
      match readlil l with
      | none => {}
      | some (protocol, l) =>
        if version ≠ DEMO_VERSION ∨ protocol ≠ PROTOCOL_VERSION then {}
        else
          match readlil l with
          | none => {}
          | some (nextplayback, l) => { demoplayback := some l, nextplayback }

/-- A demo played in frames at these times. -/
def play (l : List UInt8) (frames : List Int) : Playback :=
  frames.foldl readdemo (setupdemoplayback l)

end Playback

/-! ## What is played -/

/-- The packets that are whole in a stream of so many bytes behind the header. -/
def wholepackets : Nat → List DemoPacket → List DemoPacket
  | _, [] => []
  | n, q :: qs => if q.bytes.length ≤ n then q :: wholepackets (n - q.bytes.length) qs else []

theorem wholepackets_length (qs : List DemoPacket) {n : Nat}
    (h : (qs.flatMap DemoPacket.bytes).length ≤ n) : wholepackets n qs = qs := by
  induction qs generalizing n with
  | nil => rfl
  | cons q qs ih =>
    rw [List.flatMap_cons, List.length_append] at h
    rw [wholepackets, if_pos (by omega), ih (by omega)]

/-- Its time has come in one of these frames. -/
def DemoPacket.Due (frames : List Int) (q : DemoPacket) : Prop :=
  ∃ g ∈ frames, q.millis.toInt ≤ g

instance (frames : List Int) : DecidablePred (DemoPacket.Due frames) := fun q =>
  inferInstanceAs (Decidable (∃ g ∈ frames, q.millis.toInt ≤ g))

namespace DemoPacket

variable (q : DemoPacket)

/-- What comes behind the time. -/
def body : List UInt8 := lilbytes q.chan ++ lilbytes (.ofNat 32 q.data.length) ++ q.data

theorem bytes_eq : q.bytes = lilbytes q.millis ++ q.body := by
  simp only [bytes, body, List.append_assoc]

theorem length_bytes : q.bytes.length = q.body.length + 4 := by
  rw [bytes_eq, List.length_append, length_lilbytes, Nat.add_comm]

theorem toInt_length : (BitVec.ofNat 32 q.data.length).toInt = q.data.length := by
  have hshort := q.short
  have hnat : (BitVec.ofNat 32 q.data.length).toNat = q.data.length := by
    rw [BitVec.toNat_ofNat, Nat.mod_eq_of_lt (by omega)]
  rw [BitVec.toInt_eq_toNat_of_lt (by omega), hnat]

theorem length_body : q.body.length = q.data.length + 8 := by
  simp only [body, List.length_append, length_lilbytes]
  omega

/-- **A packet is read** if and only if it is whole. -/
theorem readpacket_take (l : List UInt8) (k : Nat) : readpacket ((q.body ++ l).take k) =
    if q.body.length ≤ k then some (q.sent, l.take (k - q.body.length)) else none := by
  have hlen := q.length_body
  have hbody : q.body ++ l =
      lilbytes q.chan ++ (lilbytes (.ofNat 32 q.data.length) ++ (q.data ++ l)) := by
    simp only [body, List.append_assoc]
  unfold readpacket
  rw [hbody, readlil_take]
  by_cases h₄ : k < 4
  · rw [if_pos h₄, if_neg (by omega)]
  · rw [if_neg h₄]
    simp only [readlil_take]
    by_cases h₈ : k - 4 < 4
    · rw [if_pos h₈, if_neg (by omega)]
    · rw [if_neg h₈]
      simp only [toInt_length, Int.toNat_natCast]
      by_cases hk : q.body.length ≤ k
      · have hdata : q.data.length ≤ ((q.data ++ l).take (k - 4 - 4)).length := by
          rw [List.length_take, List.length_append]
          omega
        have hrest : k - 4 - 4 - q.data.length = k - q.body.length := by omega
        rw [if_pos hk, if_pos ⟨Int.natCast_nonneg _, hdata⟩, List.take_take, List.drop_take,
          List.drop_left, Nat.min_eq_left (by omega), List.take_left, hrest]
        rfl
      · rw [if_neg hk, if_neg]
        rintro ⟨-, hle⟩
        rw [List.length_take] at hle
        omega

end DemoPacket

namespace Playback

section Loop

variable {g : Int} {l l' l'' : List UInt8} {nextplayback n : BitVec 32} {m : BitVec 32 × List UInt8}
  (sent : List (Int × BitVec 32 × List UInt8))

theorem readloop_early (h : g < nextplayback.toInt) :
    readloop g l nextplayback sent = { demoplayback := some l, nextplayback, sent } := by
  rw [readloop, if_pos h]

theorem readloop_cut (h : ¬g < nextplayback.toInt) (hpacket : readpacket l = none) :
    readloop g l nextplayback sent = { nextplayback, sent } := by
  rw [readloop, if_neg h]
  split
  · rfl
  · next heq =>
    rw [hpacket] at heq
    cases heq

theorem readloop_packet (h : ¬g < nextplayback.toInt) (hpacket : readpacket l = some (m, l')) :
    readloop g l nextplayback sent =
      match readlil l' with
      | none => { nextplayback, sent := sent ++ [(g, m)] }
      | some (n, l'') => readloop g l'' n (sent ++ [(g, m)]) := by
  rw [readloop, if_neg h]
  split
  · next heq =>
    rw [hpacket] at heq
    cases heq
  · next heq =>
    rw [hpacket] at heq
    obtain ⟨rfl, rfl⟩ := Prod.mk.inj (Option.some.inj heq)
    split <;> simp [*]

end Loop

/-- What is left of a demo: the packet whose time was read, those behind it, and how many bytes of
them the stream has. -/
structure Left (p : Playback) (q : DemoPacket) (qs : List DemoPacket) (k : Nat) : Prop where
  stream : p.demoplayback = some ((q.body ++ qs.flatMap DemoPacket.bytes).take k)
  next : p.nextplayback = q.millis

/-- What is still to be sent of the whole packets: none once the stream is closed; otherwise those
that are left, of which the first is not due at any of these times. -/
def Waiting (qs : List DemoPacket) (p : Playback) (early : Int → Prop) (todo : List DemoPacket) :
    Prop :=
  p.demoplayback = none ∧ todo = [] ∨
    ∃ q l k, Left p q l k ∧ todo = wholepackets (k + 4) (q :: l) ∧ q :: l ⊆ qs ∧
      ∀ g, early g → g < q.millis.toInt

/-- What one frame at this time does to what is left: the packets that are due are sent, up to one
that is not. -/
structure Frame (g : Int) (q : DemoPacket) (qs : List DemoPacket) (k : Nat)
    (sent : List (Int × BitVec 32 × List UInt8)) (p : Playback) (done todo : List DemoPacket) :
    Prop where
  whole : wholepackets (k + 4) (q :: qs) = done ++ todo
  due : ∀ d ∈ done, d.millis.toInt ≤ g
  sent : p.sent = sent ++ done.map fun d => (g, d.sent)
  waiting : Waiting (q :: qs) p (fun g' => g' = g ∨ g' < q.millis.toInt) todo

section Frame

variable {g : Int} {q : DemoPacket} {qs : List DemoPacket} {k : Nat}
  {sent : List (Int × BitVec 32 × List UInt8)}

theorem frame_early (h : g < q.millis.toInt) :
    Frame g q qs k sent
      (readloop g ((q.body ++ qs.flatMap DemoPacket.bytes).take k) q.millis sent)
      [] (wholepackets (k + 4) (q :: qs)) := by
  rw [readloop_early sent h]
  refine ⟨rfl, by simp, by simp, .inr ⟨q, qs, k, ⟨rfl, rfl⟩, rfl, by simp, ?_⟩⟩
  rintro g' (rfl | hlt)
  · exact h
  · exact hlt

theorem frame_cut (h : ¬g < q.millis.toInt) (hk : ¬q.body.length ≤ k) :
    Frame g q qs k sent
      (readloop g ((q.body ++ qs.flatMap DemoPacket.bytes).take k) q.millis sent) [] [] := by
  have hpacket := q.readpacket_take (qs.flatMap DemoPacket.bytes) k
  rw [if_neg hk] at hpacket
  rw [readloop_cut sent h hpacket]
  have hwhole : wholepackets (k + 4) (q :: qs) = [] := by
    rw [wholepackets, if_neg (by rw [q.length_bytes]; omega)]
  exact ⟨hwhole, by simp, by simp, .inl ⟨rfl, rfl⟩⟩

/-- The last packet of which there is something. -/
theorem frame_last (h : ¬g < q.millis.toInt) (hk : q.body.length ≤ k)
    (hnext : readlil ((qs.flatMap DemoPacket.bytes).take (k - q.body.length)) = none)
    (hrest : wholepackets (k - q.body.length) qs = []) :
    Frame g q qs k sent
      (readloop g ((q.body ++ qs.flatMap DemoPacket.bytes).take k) q.millis sent) [q] [] := by
  have hpacket := q.readpacket_take (qs.flatMap DemoPacket.bytes) k
  rw [if_pos hk] at hpacket
  rw [readloop_packet sent h hpacket, hnext]
  have hwhole : wholepackets (k + 4) (q :: qs) = [q] := by
    have hsub : k + 4 - q.bytes.length = k - q.body.length := by
      rw [q.length_bytes]
      omega
    rw [wholepackets, if_pos (by rw [q.length_bytes]; omega), hsub, hrest]
  refine ⟨hwhole, ?_, by simp, .inl ⟨rfl, rfl⟩⟩
  intro d hd
  rw [List.mem_singleton.mp hd]
  exact Int.not_lt.mp h

/-- A packet behind which another one begins. -/
theorem frame_next {q₂ : DemoPacket} {done todo : List DemoPacket} (h : ¬g < q.millis.toInt)
    (hk : q.body.length + 4 ≤ k)
    (hrec : Frame g q₂ qs (k - q.body.length - 4) (sent ++ [(g, q.sent)])
      (readloop g ((q₂.body ++ qs.flatMap DemoPacket.bytes).take (k - q.body.length - 4)) q₂.millis
        (sent ++ [(g, q.sent)])) done todo) :
    Frame g q (q₂ :: qs) k sent
      (readloop g ((q.body ++ (q₂ :: qs).flatMap DemoPacket.bytes).take k) q.millis sent)
      (q :: done) todo := by
  have hpacket := q.readpacket_take ((q₂ :: qs).flatMap DemoPacket.bytes) k
  rw [if_pos (by omega)] at hpacket
  have hnext : readlil (((q₂ :: qs).flatMap DemoPacket.bytes).take (k - q.body.length)) =
      some (q₂.millis,
        (q₂.body ++ qs.flatMap DemoPacket.bytes).take (k - q.body.length - 4)) := by
    rw [List.flatMap_cons, q₂.bytes_eq, List.append_assoc, readlil_take, if_neg (by omega)]
  rw [readloop_packet sent h hpacket, hnext]
  have hdue : q.millis.toInt ≤ g := Int.not_lt.mp h
  refine ⟨?_, ?_, ?_, ?_⟩
  · have hsub : k + 4 - q.bytes.length = k - q.body.length - 4 + 4 := by
      rw [q.length_bytes]
      omega
    rw [wholepackets, if_pos (by rw [q.length_bytes]; omega), hsub, hrec.whole, List.cons_append]
  · simp only [List.mem_cons, forall_eq_or_imp]
    exact ⟨hdue, hrec.due⟩
  · simp only [hrec.sent, List.append_assoc, List.map_cons, List.singleton_append]
  · obtain hclosed | ⟨q', l, k', hleft, htodo, hmem, hearly⟩ := hrec.waiting
    · exact .inl hclosed
    · refine .inr ⟨q', l, k', hleft, htodo, List.subset_cons_of_subset q hmem, ?_⟩
      have hlt : g < q'.millis.toInt := hearly g (.inl rfl)
      rintro g' (rfl | hlt')
      · exact hlt
      · omega

end Frame

/-- **A frame** sends the packets that are due, up to one that is not. -/
theorem readloop_frame (g : Int) (qs : List DemoPacket) :
    ∀ (q : DemoPacket) (k : Nat) (sent : List (Int × BitVec 32 × List UInt8)), ∃ done todo,
      Frame g q qs k sent
        (readloop g ((q.body ++ qs.flatMap DemoPacket.bytes).take k) q.millis sent) done todo := by
  induction qs with
  | nil =>
    intro q k sent
    by_cases h : g < q.millis.toInt
    · exact ⟨_, _, frame_early h⟩
    · by_cases hk : q.body.length ≤ k
      · exact ⟨_, _, frame_last h hk (by simp [readlil]) rfl⟩
      · exact ⟨_, _, frame_cut h hk⟩
  | cons q₂ qs ih =>
    intro q k sent
    by_cases h : g < q.millis.toInt
    · exact ⟨_, _, frame_early h⟩
    · by_cases hk : q.body.length ≤ k
      · by_cases hk₄ : q.body.length + 4 ≤ k
        · obtain ⟨done, todo, hrec⟩ := ih q₂ (k - q.body.length - 4) (sent ++ [(g, q.sent)])
          exact ⟨_, _, frame_next h hk₄ hrec⟩
        · have hnext : readlil (((q₂ :: qs).flatMap DemoPacket.bytes).take (k - q.body.length)) =
              none := readlil_short (by rw [List.length_take]; omega)
          have hrest : wholepackets (k - q.body.length) (q₂ :: qs) = [] := by
            rw [wholepackets, if_neg (by rw [q₂.length_bytes]; omega)]
          exact ⟨_, _, frame_last h hk hnext hrest⟩
      · exact ⟨_, _, frame_cut h hk⟩

/-- After frames at these times, the whole packets are those that were sent and those that wait. -/
structure Played (qs whole : List DemoPacket) (frames : List Int) (p : Playback)
    (done todo : List DemoPacket) : Prop where
  whole : whole = done ++ todo
  sent : List.Forall₂ (fun q d => d.2 = q.sent ∧ q.millis.toInt ≤ d.1 ∧ d.1 ∈ frames) done p.sent
  waiting : Waiting qs p (· ∈ frames) todo

section Frames

variable {qs whole : List DemoPacket}

/-- **One frame more**. -/
theorem Played.readdemo {frames : List Int} {p : Playback} {done todo : List DemoPacket}
    (h : Played qs whole frames p done todo) (g : Int) :
    ∃ done todo, Played qs whole (frames ++ [g]) (p.readdemo g) done todo := by
  have hsent : List.Forall₂
      (fun q d => d.2 = q.sent ∧ q.millis.toInt ≤ d.1 ∧ d.1 ∈ frames ++ [g]) done p.sent :=
    h.sent.imp fun q d hd => ⟨hd.1, hd.2.1, List.mem_append_left [g] hd.2.2⟩
  obtain ⟨hclosed, htodo⟩ | ⟨q, l, k, hleft, htodo, hsub, hearly⟩ := h.waiting
  · have hstays : p.readdemo g = p := by
      rw [Playback.readdemo, hclosed]
    rw [hstays]
    exact ⟨done, todo, h.whole, hsent, .inl ⟨hclosed, htodo⟩⟩
  · obtain ⟨now, later, hframe⟩ := readloop_frame g l q k p.sent
    have hstep : p.readdemo g =
        readloop g ((q.body ++ l.flatMap DemoPacket.bytes).take k) q.millis p.sent := by
      rw [Playback.readdemo, hleft.stream, hleft.next]
    rw [hstep]
    refine ⟨done ++ now, later, ?_, ?_, ?_⟩
    · rw [h.whole, htodo, hframe.whole, List.append_assoc]
    · rw [hframe.sent]
      refine List.rel_append hsent (List.forall₂_map_right_iff.mpr ?_)
      refine List.forall₂_same.mpr ?_
      intro d hd
      exact ⟨rfl, hframe.due d hd, List.mem_append_right frames (List.mem_singleton_self g)⟩
    · obtain hclosed | ⟨q', l', k', hleft', htodo', hsub', hearly'⟩ := hframe.waiting
      · exact .inl hclosed
      · refine .inr ⟨q', l', k', hleft', htodo', List.Subset.trans hsub' hsub, ?_⟩
        intro g' hg'
        obtain hg' | hg' := List.mem_append.mp hg'
        · exact hearly' g' (.inr (hearly g' hg'))
        · exact hearly' g' (.inl (List.mem_singleton.mp hg'))

/-- **A demo is opened**, wherever it ends. -/
theorem played_setup (qs : List DemoPacket) (n : Nat) :
    ∃ todo, Played qs (wholepackets (n - demoheader.length) qs) []
      (setupdemoplayback ((demobytes qs).take n)) [] todo := by
  have hlen : demoheader.length = 24 := rfl
  by_cases hn : n < demoheader.length
  · have hshort : ((demobytes qs).take n).length < demoheader.length :=
      lt_of_le_of_lt (List.length_take_le n _) hn
    have hwhole : wholepackets (n - demoheader.length) qs = [] := by
      cases qs with
      | nil => rfl
      | cons q l => rw [wholepackets, if_neg (by rw [q.length_bytes, q.length_body]; omega)]
    rw [setupdemoplayback, if_pos (.inl hshort), hwhole]
    exact ⟨[], rfl, .nil, .inl ⟨rfl, rfl⟩⟩
  · have htake : (demobytes qs).take n = DEMO_MAGIC ++ (lilbytes DEMO_VERSION ++
        (lilbytes PROTOCOL_VERSION ++
          (qs.flatMap DemoPacket.bytes).take (n - demoheader.length))) := by
      rw [demobytes, List.take_append, List.take_of_length_le (Nat.not_lt.mp hn), demoheader]
      simp only [List.append_assoc]
    have hlong : ¬((demobytes qs).take n).length < demoheader.length := by
      rw [htake, demoheader]
      simp only [List.length_append]
      omega
    have hmagic : ((demobytes qs).take n).take DEMO_MAGIC.length = DEMO_MAGIC := by
      rw [htake, List.take_left]
    have hdrop : ((demobytes qs).take n).drop DEMO_MAGIC.length = lilbytes DEMO_VERSION ++
        (lilbytes PROTOCOL_VERSION ++
          (qs.flatMap DemoPacket.bytes).take (n - demoheader.length)) := by
      rw [htake, List.drop_left]
    rw [setupdemoplayback, if_neg (not_or.mpr ⟨hlong, not_not.mpr hmagic⟩), hdrop,
      readlil_lilbytes]
    simp only [readlil_lilbytes, ne_eq, not_true_eq_false, or_self, if_false]
    cases qs with
    | nil =>
      rw [List.flatMap_nil, List.take_nil]
      exact ⟨[], rfl, .nil, .inl ⟨rfl, rfl⟩⟩
    | cons q l =>
      rw [List.flatMap_cons, q.bytes_eq, List.append_assoc, readlil_take]
      by_cases h₄ : n - demoheader.length < 4
      · rw [if_pos h₄, wholepackets, if_neg (by rw [q.length_bytes]; omega)]
        exact ⟨[], rfl, .nil, .inl ⟨rfl, rfl⟩⟩
      · have hsub : n - demoheader.length = n - demoheader.length - 4 + 4 := by omega
        rw [if_neg h₄]
        refine ⟨_, rfl, .nil, .inr ⟨q, l, n - demoheader.length - 4, ⟨rfl, rfl⟩, ?_, ?_⟩⟩
        · exact congrArg (fun k => wholepackets k (q :: l)) hsub
        · exact ⟨List.Subset.refl _, by simp⟩

/-- **Frames**, at any times. -/
theorem played_frames {p : Playback} {todo : List DemoPacket} (h : Played qs whole [] p [] todo)
    (frames : List Int) :
    ∃ done todo, Played qs whole frames (frames.foldl Playback.readdemo p) done todo := by
  induction frames using List.reverseRecOn with
  | nil => exact ⟨[], todo, h⟩
  | append_singleton frames g ih =>
    obtain ⟨done, todo, hplayed⟩ := ih
    rw [List.foldl_append]
    exact hplayed.readdemo g

end Frames

section Played

variable {qs whole done todo : List DemoPacket} {frames : List Int} {p : Playback}

theorem Played.due (h : Played qs whole frames p done todo) : ∀ q ∈ done, q.Due frames :=
  ((List.forall₂_and_left done p.sent).mp
    (h.sent.imp fun _ d hd => ⟨⟨d.1, hd.2.2, hd.2.1⟩, hd⟩)).1

/-- What was sent are the packets before the first one whose time has not come. -/
theorem Played.takeWhile (h : Played qs whole frames p done todo) :
    whole.takeWhile (DemoPacket.Due frames ·) = done := by
  have htodo : todo.takeWhile (DemoPacket.Due frames ·) = [] := by
    obtain ⟨-, rfl⟩ | ⟨q, l, k, -, rfl, -, hearly⟩ := h.waiting
    · rfl
    · have hlate : ¬q.Due frames := by
        rintro ⟨g, hg, hle⟩
        have hlt := hearly g hg
        omega
      rw [wholepackets]
      split
      · simp [hlate]
      · rfl
  rw [h.whole, List.takeWhile_append_of_pos (by simpa using h.due), htodo, List.append_nil]

theorem Played.length_of_closed (h : Played qs whole frames p done todo)
    (hclosed : p.demoplayback = none) : p.sent.length = whole.length := by
  obtain ⟨-, rfl⟩ | ⟨q, l, k, hleft, -⟩ := h.waiting
  · rw [h.whole, List.append_nil]
    exact h.sent.length_eq.symm
  · rw [hleft.stream] at hclosed
    cases hclosed

theorem Played.closed_of_due (h : Played qs whole frames p done todo)
    (hall : ∀ q ∈ qs, q.Due frames) : p.demoplayback = none := by
  obtain ⟨hclosed, -⟩ | ⟨q, l, k, -, -, hsub, hearly⟩ := h.waiting
  · exact hclosed
  · obtain ⟨g, hg, hle⟩ := hall q (hsub (List.mem_cons_self ..))
    have hlt := hearly g hg
    omega

end Played

end Playback

/-- **Demos**: whatever is recorded, and wherever the file ends, and at whatever times there is a
frame, the clients get the packets that are whole, as they were recorded and in that order, up to
the first one whose time has not come, none before its time; there are no others.  The demo does not
stop before the last whole packet, and it stops once nothing has to wait.  A file that does not end
early has the packets that were recorded. -/
theorem demo_played (es : List DemorecordEvent) :
    List.Forall₂ (fun file qs => ∀ (n : Nat) (frames : List Int),
      let whole := wholepackets (n - demoheader.length) qs
      let p := Playback.play (file.take n) frames
      List.Forall₂ (fun q d => d.2 = q.sent ∧ q.millis.toInt ≤ d.1 ∧ d.1 ∈ frames)
        (whole.takeWhile (DemoPacket.Due frames ·)) p.sent ∧
      (p.demoplayback = none → p.sent.length = whole.length) ∧
      ((∀ q ∈ qs, q.Due frames) → p.demoplayback = none) ∧
      (file.length ≤ n → whole = qs))
    (es.foldl Recorder.next {}).demos (es.foldl Recording.next {}).demos := by
  rw [recorder_writes]
  refine List.forall₂_map_left_iff.mpr (List.forall₂_same.mpr ?_)
  intro qs _ n frames whole p
  obtain ⟨todo, hsetup⟩ := Playback.played_setup qs n
  obtain ⟨done, todo, hplayed⟩ := Playback.played_frames hsetup frames
  refine ⟨?_, hplayed.length_of_closed, hplayed.closed_of_due, ?_⟩
  · rw [hplayed.takeWhile]
    exact hplayed.sent
  · intro hlen
    apply wholepackets_length
    rw [demobytes, List.length_append] at hlen
    omega

end QServ
