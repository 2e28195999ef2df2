import Proninx.Kern.Net.Adapter
import Proninx.Lib.RingBuffer

/-!
# TCP slots

One slot of the table in `lwip.c`, and what each call and each callback of
lwIP does to it under its lock. A slot has two rings: the segments that
lwIP delivered and nobody read yet, and for a listener the handles of the
connections that nobody accepted yet. A pcb is known by a number that is
never used again, so a pcb that lwIP allocates at the address of one it
freed is another pcb.
-/

namespace Proninx.Tcp

open Net RingBuffer

abbrev TCP_SLOTS : Nat := 8

def TCP_QUEUE_DEPTH : Nat := 4

def TCP_SEGMENT_MAX : Nat := 1536

inductive SlotState where
  | free
  | connecting
  | connected
  | listening
  | error
  | closed
  deriving DecidableEq, Repr

/-- `struct tcp_segment`; the length is that of the data. -/
structure Segment where
  data : List UInt8
  offset : Nat
  deriving DecidableEq, Repr

/-- The bytes of a segment that were not read yet. -/
def Segment.unread (g : Segment) : List UInt8 := g.data.drop g.offset

structure Slot where
  pcb : Option Nat
  owner : Nat
  state : SlotState
  boundPort : UInt16
  dropped : UInt32
  /-- `head`, `tail`, `count` and `queue`. -/
  ring : CountedRing Segment
  /-- `accept_head`, `accept_tail`, `accept_count` and `accepted`. -/
  accept : CountedRing Nat

def Slot.owned (slot : Slot) (pid : Nat) : Bool := slot.pcb.isSome && slot.owner == pid

/-! ## Callbacks -/

/-- The test of `proninx_tcp_received`; `ok` stands for `ERR_OK`. -/
def Slot.takes (slot : Slot) (p : List UInt8) (ok : Bool) : Bool :=
  ok && slot.state == .connected && slot.ring.count < TCP_QUEUE_DEPTH &&
    p.length ≤ TCP_SEGMENT_MAX

/-- `proninx_tcp_received` with the number of bytes it gives `tcp_recved`,
and with no packet at the end of the stream. -/
def Slot.received (slot : Slot) (p : Option (List UInt8)) (ok : Bool) : Slot × Nat :=
  match p with
  | none => ({ slot with state := if ok then .closed else .error }, 0)
  | some p =>
    if slot.takes p ok then ({ slot with ring := slot.ring.push TCP_QUEUE_DEPTH ⟨p, 0⟩ }, p.length)
    else ({ slot with dropped := slot.dropped + 1 }, p.length)

/-- `proninx_tcp_error` -/
def Slot.failed (slot : Slot) : Slot := { slot with pcb := none, state := .error }

def Slot.connected (slot : Slot) (ok : Bool) : Slot :=
  { slot with state := if ok then .connected else .error }

/-- What `proninx_tcp_accepted` makes of the slot of the new connection. -/
def Slot.adopted (slot : Slot) (pcb owner : Nat) : Slot :=
  { slot with
    pcb := some pcb
    owner := owner
    state := .connected
    ring := slot.ring.reset }

/-- What `proninx_tcp_accepted` makes of the listener, unless it refuses. -/
def Slot.queues (slot : Slot) (handle : Nat) : Option Slot :=
  if slot.state ≠ .listening ∨ slot.accept.count = TCP_QUEUE_DEPTH then none
  else some { slot with accept := slot.accept.push TCP_QUEUE_DEPTH handle }

/-! ## Calls -/

def Slot.opened (slot : Slot) (pcb pid : Nat) : Slot where
  pcb := some pcb
  owner := pid
  state := .closed
  boundPort := 0
  dropped := 0
  ring := slot.ring.reset
  accept := slot.accept.reset

/-- `proninx_tcp_bind` under the lock; `ok` is what lwIP's `tcp_bind` answers. -/
def Slot.bind (slot : Slot) (port : UInt16) (ok : Bool) : Option Slot :=
  if slot.state ≠ .closed ∨ slot.boundPort ≠ 0 ∨ ok = false then none
  else some { slot with boundPort := port }

/-- `proninx_tcp_listen` under the lock; `pcb` is what lwIP's `tcp_listen`
answers. -/
def Slot.listen (slot : Slot) (pcb : Option Nat) : Option Slot :=
  if slot.state ≠ .closed ∨ slot.boundPort = 0 ∨ pcb = none then none
  else some { slot with pcb := pcb, state := .listening }

/-- `proninx_tcp_connect` up to its loop; `ok` is what lwIP's `tcp_connect`
answers. -/
def Slot.connect (slot : Slot) (ok : Bool) : Slot :=
  { slot with state := if ok then .connecting else .error }

/-- The loop of `proninx_tcp_connect` and what follows it. -/
def Slot.awaitConnect (slot : Slot) (now deadline : UInt32) : Outcome Unit :=
  if slot.state = .connecting ∧ expired now deadline = false then .sleeps
  else if slot.state = .connected then .returns ()
  else .fails

/-- The loop of `proninx_tcp_accept` and what follows it. -/
def Slot.dequeue (slot : Slot) (timeout now deadline : UInt32) : Slot × Outcome Nat :=
  if slot.accept.count = 0 then
    (slot, if timeout = 0 ∨ expired now deadline then .fails else .sleeps)
  else
    ({ slot with accept := slot.accept.pop TCP_QUEUE_DEPTH },
      .returns (slot.accept.cells slot.accept.head))

/-- The loop of `proninx_tcp_recv` and what follows it. -/
def Slot.recv (slot : Slot) (length : Nat) (timeout now deadline : UInt32) :
    Slot × Outcome (List UInt8) :=
  if slot.ring.count = 0 then
    (slot, if slot.state ≠ .connected ∨ timeout = 0 ∨ expired now deadline then .fails else .sleeps)
  else
    let segment := slot.ring.cells slot.ring.head
    let available := segment.data.length - segment.offset
    let n := if length > available then available else length
    let ring :=
      { slot.ring with
        cells := Function.update slot.ring.cells slot.ring.head
          { segment with offset := segment.offset + n } }
    ({ slot with
        ring := if segment.offset + n = segment.data.length then ring.pop TCP_QUEUE_DEPTH else ring },
      .returns (segment.unread.take n))

/-- What `proninx_tcp_close` and `proninx_tcp_process_exit` make of a slot. -/
def Slot.freed (slot : Slot) : Slot :=
  { slot with
    pcb := none
    owner := 0
    state := .free
    boundPort := 0
    ring := { slot.ring with count := 0 }
    accept := { slot.accept with count := 0 } }

end Proninx.Tcp
