import Mathlib.Algebra.BigOperators.Group.List.Basic
import QServ.Lib.Slices
import QServ.Server.Core
import QServ.Shared.DataBuf

/-!
# World state

`buildworldstate` collects the queued positions and messages of all clients in one buffer
and sends every client a piece of it.  The buffer is laid out twice, so that everything but
the blocks of a client and its bots is one piece, which wraps around into the second copy.
What does not fit in a packet of the mtu starts a new such round further on in the buffer.

Packets refer to the buffer and are read when they go out: what a client receives is what
the buffer holds in the end.
-/

namespace QServ

/-- The channels of the world state: positions on channel 0, messages on channel 1. -/
inductive Chan where
  | positions
  | messages
  deriving DecidableEq, Repr

/-- What stands in front of a queue: messages come under `N_CLIENT`, their client and their
length. -/
def Chan.header : Chan → Int → Nat → List UInt8
  | positions, _, _ => []
  | messages, cn, len => putint MsgType.nClient.code ++ putint cn ++ putuint len

/-- The room reserved for the header. -/
def Chan.slack : Chan → Nat
  | positions => 0
  | messages => 10

/-- The room reserved for a header is enough. -/
theorem Chan.header_length_le (ch : Chan) (cn : Int) (len : Nat) :
    (ch.header cn len).length ≤ ch.slack := by
  cases ch with
  | positions => exact le_refl 0
  | messages =>
    have h1 : (putint MsgType.nClient.code).length = 1 :=
      putint_length_small (by decide) (by decide)
    have h2 := putint_length_le cn
    have h3 := putuint_length_le len
    simp only [header, slack, List.length_append]
    omega

/-- A packet over a piece of the buffer (`ENET_PACKET_FLAG_NO_ALLOCATE`), handed to
`sendpacket`. -/
structure WsPacket where
  cn : Int
  chan : Chan
  reliable : Bool
  start : Nat
  size : Nat
  deriving DecidableEq, Repr

/-- A `worldstate` of `cap` bytes under construction.  `data` are the bytes written so far;
`wsbuf` begins at `base` and ends with them.  `wsdata` and `wslen` are the marks the clients
carry, `queue` their queues, `recorded` what goes into a demo. -/
structure WorldState where
  cap : Nat
  data : List UInt8 := []
  base : Nat := 0
  overwrote : Bool := false
  uses : Nat := 0
  wsdata : Int → Option Nat := fun _ => none
  wslen : Int → Nat := fun _ => 0
  queue : Chan → Int → List UInt8
  packets : List WsPacket := []
  recorded : List (Chan × List UInt8) := []

namespace WorldState

variable (w : WorldState)

/-- `wsbuf.length()`. -/
def length : Nat := w.data.length - w.base

/-- `wsbuf.put(vals, n)`: what does not fit is cut off. -/
def put (bs : List UInt8) : WorldState :=
  { w with
    data := w.data ++ bs.take (w.cap - w.data.length),
    overwrote := w.overwrote || decide (w.cap - w.data.length < bs.length) }

/-- `ci.wsdata >= wsbuf.buf`: the client has a block in this round. -/
def marked (cn : Int) : Bool := (w.wsdata cn).any fun p => decide (w.base ≤ p)

/-- The packet for one client, if there is anything to send. -/
def slice (ch : Chan) (reliable : Bool) (wslen : Nat) (cn : Int) : WsPacket :=
  { cn, chan := ch, reliable,
    start := if w.marked cn then (w.wsdata cn).getD 0 + w.wslen cn else w.base,
    size := if w.marked cn then wslen - w.wslen cn else wslen }

/-- `sendpacket`, with `taken` telling whether the packet is referred to from then on. -/
def send (taken : WsPacket → Bool) (p : WsPacket) : WorldState :=
  { w with
    packets := w.packets ++ [p],
    uses := if taken p then w.uses + 1 else w.uses }

/-- The header and the queue of `bi` go into the buffer, and the mark of `ci` with them. -/
def moveblock (ch : Chan) (ci bi : Int) : WorldState :=
  let offset := w.length
  let bytes := w.queue ch bi
  let w := (w.put (ch.header bi bytes.length)).put bytes
  let w := { w with queue := fun ch' n => if ch' = ch ∧ n = bi then [] else w.queue ch' n }
  let len := w.length - offset
  if w.marked ci then { w with wslen := Function.update w.wslen ci (w.wslen ci + len) }
  else
    { w with
      wsdata := Function.update w.wsdata ci (some (w.base + offset)),
      wslen := Function.update w.wslen ci len }

/-- What has been sent, as the receivers read it: client, channel, reliability and bytes. -/
def delivered : List (Int × Chan × Bool × List UInt8) :=
  w.packets.map fun p => (p.cn, p.chan, p.reliable, (w.data.drop p.start).take p.size)

/-- The payloads client `cn` receives on a channel, in order. -/
def received (cn : Int) (ch : Chan) : List (List UInt8) :=
  (w.delivered.filter fun d => decide (d.1 = cn ∧ d.2.1 = ch)).map fun d => d.2.2.2

end WorldState

namespace Server

open WorldState

variable (s : Server) (taken : WsPacket → Bool)

/-- The common part of `sendpositions` and `sendmessages`: the second copy, a packet for
every human client, and a new round. -/
def sendround (ch : Chan) (reliable : Bool) (w : WorldState) : WorldState :=
  if w.length = 0 then w
  else
    let wslen := w.length
    let w := { w with recorded := w.recorded ++ [(ch, w.data.drop w.base)] }
    let w := w.put (w.data.drop w.base)
    let w := s.cl.foldl (fun w c =>
      if c.aitype ≠ .human then w
      else
        let p := w.slice ch reliable wslen c.clientnum
        if p.size = 0 then w else w.send taken p) w
    { w with base := w.data.length }

/-- The common part of `addposition` and `addmessages`: the queue of `bi`, which is `ci` or
one of its bots, is moved into the buffer. -/
def addblock (ch : Chan) (reliable : Bool) (mtu : Int) (ci : Int) (w : WorldState) (bi : Int) :
    WorldState :=
  if w.queue ch bi = [] then w
  else
    let w := if mtu < (w.length + ch.slack + (w.queue ch bi).length : Nat) then
      s.sendround taken ch reliable w else w
    w.moveblock ch ci bi

/-- `sendpositions(ws, wsbuf)`. -/
def sendpositions (w : WorldState) : WorldState := s.sendround taken .positions false w

/-- `sendmessages(ws, wsbuf)`, with `reliablemessages`. -/
def sendmessages (reliable : Bool) (w : WorldState) : WorldState :=
  s.sendround taken .messages reliable w

/-- `addposition(ws, wsbuf, mtu, bi, ci)`. -/
def addposition (mtu : Int) (ci : Int) (w : WorldState) (bi : Int) : WorldState :=
  s.addblock taken .positions false mtu ci w bi

/-- `addmessages(ws, wsbuf, mtu, bi, ci)`. -/
def addmessages (reliable : Bool) (mtu : Int) (ci : Int) (w : WorldState) (bi : Int) :
    WorldState :=
  s.addblock taken .messages reliable mtu ci w bi

/-- The room one client's queues may take. -/
def queueroom (queue : Chan → Int → List UInt8) (c : ClientInfo) : Nat :=
  (queue .positions c.clientnum).length +
    if (queue .messages c.clientnum).length = 0 then 0
    else 10 + (queue .messages c.clientnum).length

/-- `buildworldstate`, for the queues of the clients, the mtu of the server's host and
`reliablemessages`. -/
def buildworldstate (queue : Chan → Int → List UInt8) (mtu : Int) (reliable : Bool) :
    Server × WorldState :=
  let s' := s.clients.foldl (fun s n => s.upd n fun c => { c with overflow := 0 }) s
  let wsmax := (s.cl.map (queueroom queue)).sum
  if wsmax = 0 then (s', { cap := 0, queue })
  else
    let w : WorldState := { cap := 2 * wsmax, queue }
    let mtu : Int := if mtu - 100 ≤ 0 then w.cap else mtu - 100
    let w := s.cl.foldl (fun w c =>
      if c.aitype ≠ .human then w
      else c.bots.foldl (s.addposition taken mtu c.clientnum)
        (s.addposition taken mtu c.clientnum w c.clientnum)) w
    let w := s.sendpositions taken w
    let w := s.cl.foldl (fun w c =>
      if c.aitype ≠ .human then w
      else c.bots.foldl (s.addmessages taken reliable mtu c.clientnum)
        (s.addmessages taken reliable mtu c.clientnum w c.clientnum)) w
    (s', s.sendmessages taken reliable w)

end Server
end QServ
