import Proninx.Kern.Net.Tcp
import Proninx.Lib.Runs

/-!
# The table of TCP slots

All the slots, the processes that call and the callbacks of lwIP. A
process makes one call at a time. `proninx_tcp_accepted` looks for a free
slot one lock at a time, and may be under way for several connections.

`announced` says for which listener lwIP announced a connection, and
`taken` which connections `proninx_tcp_accept` handed out: a connection
announced and not taken waits to be accepted.
-/

namespace Proninx.Tcp

open Function Net RingBuffer

inductive Call where
  | idle
  /-- `proninx_tcp_open` before the slot `i`. -/
  | opening (i : Nat)
  | connecting (i : Fin TCP_SLOTS) (deadline : UInt32)
  /-- Asleep in `proninx_tcp_accept`, with the pcb of the slot at its start. -/
  | accepting (i : Fin TCP_SLOTS) (listener : Nat) (timeout deadline : UInt32)
  | receiving (i : Fin TCP_SLOTS) (length : Nat) (timeout deadline : UInt32)
  /-- `proninx_tcp_process_exit` before the slot `i`. -/
  | exiting (i : Nat)
  /-- After `proninx_tcp_process_exit`. -/
  | gone
  deriving DecidableEq, Repr

/-- `proninx_tcp_accepted` for the listener of a slot, before the slot `i`. -/
structure Announcement where
  slot : Fin TCP_SLOTS
  listener : Nat
  i : Nat
  deriving DecidableEq, Repr

structure State where
  lwipReady : Bool
  slots : Fin TCP_SLOTS → Slot
  calls : Nat → Call
  /-- By the pcb of the connection. -/
  announcing : Nat → Option Announcement
  /-- No pcb has this number or a greater one yet. -/
  next : Nat
  announced : Nat → Option Nat
  taken : Nat → Bool

inductive Act where
  /-- lwIP has a connection for the listener of a slot. -/
  | announce (l : Fin TCP_SLOTS)
  /-- `proninx_tcp_accepted` goes on. -/
  | offer (conn : Nat)
  | error (i : Fin TCP_SLOTS)
  | connected (i : Fin TCP_SLOTS) (ok : Bool)
  | received (i : Fin TCP_SLOTS) (p : Option (List UInt8)) (ok : Bool)
  | tcpOpen (pid : Nat)
  | bind (pid : Nat) (handle : Int) (port : UInt16) (ok : Bool)
  | listen (pid : Nat) (handle : Int) (ok : Bool)
  /-- `endpoint`: an endpoint with a port was given. -/
  | connect (pid : Nat) (handle : Int) (endpoint ok : Bool) (timeout now : UInt32)
  | accept (pid : Nat) (handle : Int) (timeout now : UInt32)
  /-- `pointers`: the buffer was given. -/
  | recv (pid : Nat) (handle : Int) (pointers : Bool) (length : Nat) (timeout now : UInt32)
  | close (pid : Nat) (handle : Int)
  | exit (pid : Nat)
  /-- The call of a process goes on; `fresh` is whether `tcp_new` has a pcb
  to give. -/
  | resume (pid : Nat) (now : UInt32) (fresh : Bool)
  deriving DecidableEq

/-- What a step tells the process that takes it. -/
inductive Reply where
  | quiet
  | fails
  | done
  | opened (handle : Nat)
  /-- The handle returned to a process that accepts on a listener. -/
  | accepted (pid listener handle : Nat)
  | received (data : List UInt8)
  deriving DecidableEq

namespace State

def setCall (s : State) (pid : Nat) (c : Call) : State :=
  { s with calls := update s.calls pid c }

def setSlot (s : State) (i : Fin TCP_SLOTS) (slot : Slot) : State :=
  { s with slots := update s.slots i slot }

def setAnnouncing (s : State) (conn : Nat) (a : Option Announcement) : State :=
  { s with announcing := update s.announcing conn a }

@[simp]
lemma setCall_slots (s : State) (pid : Nat) (c : Call) : (s.setCall pid c).slots = s.slots := rfl

@[simp]
lemma setAnnouncing_slots (s : State) (conn : Nat) (a : Option Announcement) :
    (s.setAnnouncing conn a).slots = s.slots := rfl

@[simp]
lemma setAnnouncing_calls (s : State) (conn : Nat) (a : Option Announcement) :
    (s.setAnnouncing conn a).calls = s.calls := rfl

/-- lwIP calls back for the pcb of a slot that is not a listener. -/
def Calls (s : State) (i : Fin TCP_SLOTS) : Prop :=
  (s.slots i).pcb ≠ none ∧ (s.slots i).state ≠ .listening

instance (s : State) (i : Fin TCP_SLOTS) : Decidable (s.Calls i) :=
  inferInstanceAs (Decidable (_ ∧ _))

def announce (s : State) (l : Fin TCP_SLOTS) : Option State :=
  match (s.slots l).pcb with
  | none => none
  | some listener =>
    if (s.slots l).state = .listening then
      some { s.setAnnouncing s.next (some ⟨l, listener, 0⟩) with
        next := s.next + 1
        announced := update s.announced s.next (some listener) }
    else none

/-- One slot of the loop of `proninx_tcp_accepted`. With the lock of the
slot it found it takes the lock of the listener, which it cannot if the
two are the same. -/
def offer (s : State) (conn : Nat) : Option State :=
  match s.announcing conn with
  | none => none
  | some a =>
    if h : a.i < TCP_SLOTS then
      if (s.slots ⟨a.i, h⟩).pcb = none then
        if a.slot = ⟨a.i, h⟩ then none
        else
          match (s.slots a.slot).queues (a.i + 1) with
          | none => some (s.setAnnouncing conn none)
          | some listener =>
            some (((s.setSlot a.slot listener).setSlot ⟨a.i, h⟩
              ((s.slots ⟨a.i, h⟩).adopted conn listener.owner)).setAnnouncing conn none)
      else some (s.setAnnouncing conn (some { a with i := a.i + 1 }))
    else some (s.setAnnouncing conn none)

/-- One slot of the loop of `proninx_tcp_open`. -/
def scan (s : State) (pid i : Nat) (fresh : Bool) : State × Reply :=
  if h : i < TCP_SLOTS then
    if (s.slots ⟨i, h⟩).pcb = none ∧ fresh then
      ({ (s.setSlot ⟨i, h⟩ ((s.slots ⟨i, h⟩).opened s.next pid)).setCall pid .idle with
        next := s.next + 1 }, .opened (i + 1))
    else (s.setCall pid (.opening (i + 1)), .quiet)
  else (s.setCall pid .idle, .fails)

/-- lwIP does not listen on a pcb that is a connection. -/
def listen (s : State) (i : Fin TCP_SLOTS) (ok : Bool) : State × Reply :=
  let isConnection := ((s.slots i).pcb.bind s.announced).isSome
  match (s.slots i).listen (if ok ∧ isConnection = false then some s.next else none) with
  | none => (s, .fails)
  | some slot => ({ s.setSlot i slot with next := s.next + 1 }, .done)

def awaitConnect (s : State) (pid : Nat) (i : Fin TCP_SLOTS) (now deadline : UInt32) :
    State × Reply :=
  match (s.slots i).awaitConnect now deadline with
  | .sleeps => (s.setCall pid (.connecting i deadline), .quiet)
  | .fails => (s.setCall pid .idle, .fails)
  | .returns () => (s.setCall pid .idle, .done)

def dequeue (s : State) (pid : Nat) (i : Fin TCP_SLOTS) (listener : Nat)
    (timeout now deadline : UInt32) : State × Reply :=
  match (s.slots i).dequeue timeout now deadline with
  | (_, .sleeps) => (s.setCall pid (.accepting i listener timeout deadline), .quiet)
  | (_, .fails) => (s.setCall pid .idle, .fails)
  | (slot, .returns handle) =>
    let conn := (slotFor TCP_SLOTS handle).bind fun j => (s.slots j).pcb
    ({ (s.setSlot i slot).setCall pid .idle with
      taken := fun c => s.taken c || conn == some c }, .accepted pid listener handle)

def recv (s : State) (pid : Nat) (i : Fin TCP_SLOTS) (length : Nat)
    (timeout now deadline : UInt32) : State × Reply :=
  match (s.slots i).recv length timeout now deadline with
  | (_, .sleeps) => (s.setCall pid (.receiving i length timeout deadline), .quiet)
  | (_, .fails) => (s.setCall pid .idle, .fails)
  | (slot, .returns data) => ((s.setSlot i slot).setCall pid .idle, .received data)

/-- One slot of the loop of `proninx_tcp_process_exit`. -/
def sweep (s : State) (pid i : Nat) : State × Reply :=
  if h : i < TCP_SLOTS then
    let t := s.setCall pid (.exiting (i + 1))
    if (s.slots ⟨i, h⟩).owned pid then (t.setSlot ⟨i, h⟩ (s.slots ⟨i, h⟩).freed, .quiet)
    else (t, .quiet)
  else (s.setCall pid .gone, .done)

/-- A call on a slot that its process owns; `-1` on any other. -/
def onOwned (s : State) (pid : Nat) (handle : Int) (f : Fin TCP_SLOTS → State × Reply) :
    State × Reply :=
  match slotFor TCP_SLOTS handle with
  | none => (s, .fails)
  | some i => if (s.slots i).owned pid then f i else (s, .fails)

def goOn (s : State) (pid : Nat) (now : UInt32) (fresh : Bool) : Option (State × Reply) :=
  match s.calls pid with
  | .idle | .gone => none
  | .opening i => some (s.scan pid i fresh)
  | .connecting i deadline => some (s.awaitConnect pid i now deadline)
  | .accepting i listener timeout deadline => some (s.dequeue pid i listener timeout now deadline)
  | .receiving i length timeout deadline => some (s.recv pid i length timeout now deadline)
  | .exiting i => some (s.sweep pid i)

def call (s : State) : Act → State × Reply
  | .tcpOpen pid => if s.lwipReady then (s.setCall pid (.opening 0), .quiet) else (s, .fails)
  | .bind pid handle port ok =>
    s.onOwned pid handle fun i =>
      if port = 0 then (s, .fails)
      else
        match (s.slots i).bind port ok with
        | none => (s, .fails)
        | some slot => (s.setSlot i slot, .done)
  | .listen pid handle ok => s.onOwned pid handle fun i => s.listen i ok
  | .connect pid handle endpoint ok timeout now =>
    s.onOwned pid handle fun i =>
      if endpoint = false ∨ timeout = 0 ∨ (s.slots i).state ≠ .closed then (s, .fails)
      else if ok then
        (s.setSlot i ((s.slots i).connect ok)).awaitConnect pid i now (now + timeout)
      else (s.setSlot i ((s.slots i).connect ok), .fails)
  | .accept pid handle timeout now =>
    s.onOwned pid handle fun i =>
      match (s.slots i).pcb with
      | none => (s, .fails)
      | some listener =>
        if (s.slots i).state ≠ .listening then (s, .fails)
        else s.dequeue pid i listener timeout now (now + timeout)
  | .recv pid handle pointers length timeout now =>
    s.onOwned pid handle fun i =>
      if pointers = false ∨ length = 0 then (s, .fails)
      else s.recv pid i length timeout now (now + timeout)
  | .close pid handle =>
    s.onOwned pid handle fun i => (s.setSlot i (s.slots i).freed, .done)
  | .exit pid => (s.setCall pid (.exiting 0), .quiet)
  | _ => (s, .quiet)

end State

def Act.caller : Act → Option Nat
  | .tcpOpen pid | .bind pid _ _ _ | .listen pid _ _ | .connect pid _ _ _ _ _
  | .accept pid _ _ _ | .recv pid _ _ _ _ _ | .close pid _ | .exit pid => some pid
  | _ => none

def step (s : State) : Act → Option (State × Reply)
  | .announce l => (s.announce l).map (·, .quiet)
  | .offer conn => (s.offer conn).map (·, .quiet)
  | .error i => if s.Calls i then some (s.setSlot i (s.slots i).failed, .quiet) else none
  | .connected i ok => if s.Calls i then some (s.setSlot i ((s.slots i).connected ok), .quiet) else none
  | .received i p ok =>
    if s.Calls i then some (s.setSlot i ((s.slots i).received p ok).1, .quiet) else none
  | .resume pid now fresh => s.goOn pid now fresh
  | a =>
    match a.caller with
    | none => none
    | some pid => if s.calls pid = .idle then some (s.call a) else none

/-- No slot is open. -/
def boot (ready : Bool) : State where
  lwipReady := ready
  slots _ := ⟨none, 0, .free, 0, 0, ⟨0, 0, 0, fun _ => ⟨[], 0⟩⟩, ⟨0, 0, 0, fun _ => 0⟩⟩
  calls _ := .idle
  announcing _ := none
  next := 0
  announced _ := none
  taken _ := false

end Proninx.Tcp
