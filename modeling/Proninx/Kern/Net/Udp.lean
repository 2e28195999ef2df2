import Proninx.Kern.Net.Adapter
import Proninx.Lib.RingBuffer
import Proninx.Lib.Runs

/-!
# UDP slots

The datagram calls of `lwip.c` over a table of eight slots, with packets
that lwIP hands in between. Calls are told apart by a number of their own
and not by their process: that a process makes one call at a time plays
no part, so a call may sleep while its process closes the slot it waits
on and another process opens it.

`History` is what happened to a slot since it was last opened: the
packets lwIP handed in, those of them that were queued, and those that
were returned.
-/

namespace Proninx.Udp

open Function List Net Option RingBuffer

abbrev UDP_SLOTS : Nat := 8

def UDP_QUEUE_DEPTH : Nat := 4

def UDP_DATAGRAM_MAX : Nat := 1536

/-- `struct udp_datagram`; the length is that of the data. -/
structure Datagram where
  data : List UInt8
  peer : Endpoint
  deriving DecidableEq, Repr

/-- `struct udp_slot`; of `pcb` only whether there is one. -/
structure Slot where
  pcb : Bool
  owner : Nat
  boundPort : UInt16
  dropped : UInt32
  ring : CountedRing Datagram

def Slot.owned (slot : Slot) (pid : Nat) : Bool := slot.pcb && slot.owner == pid

/-- The test of `proninx_udp_input`. -/
def Slot.accepts (slot : Slot) (p : Datagram) : Bool :=
  slot.pcb && slot.ring.count < UDP_QUEUE_DEPTH && p.data.length ≤ UDP_DATAGRAM_MAX

def Slot.input (slot : Slot) (p : Datagram) : Slot :=
  if slot.accepts p then { slot with ring := slot.ring.push UDP_QUEUE_DEPTH p }
  else { slot with dropped := slot.dropped + 1 }

def Slot.opened (slot : Slot) (pid : Nat) : Slot where
  pcb := true
  owner := pid
  boundPort := 0
  dropped := 0
  ring := slot.ring.reset

/-- `proninx_udp_bind` under the lock; `ok` is what lwIP's `udp_bind` answers. -/
def Slot.bind (slot : Slot) (port : UInt16) (ok : Bool) : Slot × Outcome Unit :=
  if slot.boundPort ≠ 0 then (slot, .fails)
  else if ok then ({ slot with boundPort := port }, .returns ())
  else (slot, .fails)

/-- `proninx_udp_recvfrom` from its loop on. -/
def Slot.recvfrom (slot : Slot) (timeout now deadline : UInt32) : Slot × Outcome Datagram :=
  if slot.ring.count = 0 then
    (slot, if timeout = 0 ∨ expired now deadline then .fails else .sleeps)
  else
    ({ slot with ring := slot.ring.pop UDP_QUEUE_DEPTH },
      .returns (slot.ring.cells slot.ring.head))

/-- What `proninx_udp_close` and `proninx_udp_process_exit` make of a slot. -/
def Slot.closed (slot : Slot) : Slot :=
  { slot with
    pcb := false
    owner := 0
    boundPort := 0
    ring := slot.ring.reset }

structure History where
  arrived : List Datagram
  queued : List Datagram
  returned : List Datagram

/-! ## Calls -/

inductive Call where
  | idle
  /-- `proninx_udp_open` before the slot `i`. -/
  | opening (pid i : Nat)
  /-- Asleep in `proninx_udp_recvfrom`. -/
  | receiving (pid : Nat) (i : Fin UDP_SLOTS) (length : Nat) (timeout deadline : UInt32)
  /-- `proninx_udp_process_exit` before the slot `i`. -/
  | exiting (pid i : Nat)
  deriving DecidableEq, Repr

structure State where
  lwipReady : Bool
  slots : Fin UDP_SLOTS → Slot
  history : Fin UDP_SLOTS → History
  calls : Nat → Call

open State

inductive Act where
  | input (i : Fin UDP_SLOTS) (p : Datagram)
  | udpOpen (k pid : Nat)
  | bind (k pid : Nat) (handle : Int) (port : UInt16) (ok : Bool)
  /-- `pointers`: both the buffer and the endpoint were given. -/
  | recvfrom (k pid : Nat) (handle : Int) (pointers : Bool) (length : Nat) (timeout now : UInt32)
  | close (k pid : Nat) (handle : Int)
  | exit (k pid : Nat)
  /-- The call `k` goes on; `fresh` is whether `udp_new` has a pcb to give. -/
  | resume (k : Nat) (now : UInt32) (fresh : Bool)
  deriving DecidableEq

/-- What a step tells the call that takes it. -/
inductive Reply where
  | quiet
  | fails
  | done
  | opened (handle : Nat)
  /-- The bytes copied out and the sender. -/
  | received (pid : Nat) (i : Fin UDP_SLOTS) (length : Nat) (data : List UInt8) (peer : Endpoint)
  deriving DecidableEq

def State.setCall (s : State) (k : Nat) (c : Call) : State :=
  { s with calls := update s.calls k c }

def State.setSlot (s : State) (i : Fin UDP_SLOTS) (slot : Slot) : State :=
  { s with slots := update s.slots i slot }

def State.setHistory (s : State) (i : Fin UDP_SLOTS) (h : History) : State :=
  { s with history := update s.history i h }

def State.input (s : State) (i : Fin UDP_SLOTS) (p : Datagram) : State :=
  let h := s.history i
  (s.setSlot i ((s.slots i).input p)).setHistory i
    { h with
      arrived := h.arrived ++ [p]
      queued := if (s.slots i).accepts p then h.queued ++ [p] else h.queued }

/-- One slot of the loop of `proninx_udp_open`. -/
def State.scan (s : State) (k pid i : Nat) (fresh : Bool) : State × Reply :=
  if h : i < UDP_SLOTS then
    if (s.slots ⟨i, h⟩).pcb = false ∧ fresh then
      (((s.setSlot ⟨i, h⟩ ((s.slots ⟨i, h⟩).opened pid)).setHistory ⟨i, h⟩ ⟨[], [], []⟩).setCall
        k .idle, .opened (i + 1))
    else (s.setCall k (.opening pid (i + 1)), .quiet)
  else (s.setCall k .idle, .fails)

/-- `proninx_udp_recvfrom` each time it has the lock, with the test of the
owner before its loop and after each sleep. -/
def State.recvfrom (s : State) (k pid : Nat) (i : Fin UDP_SLOTS) (length : Nat)
    (timeout now deadline : UInt32) : State × Reply :=
  if (s.slots i).owned pid = false then (s.setCall k .idle, .fails)
  else
    match (s.slots i).recvfrom timeout now deadline with
    | (_, .sleeps) => (s.setCall k (.receiving pid i length timeout deadline), .quiet)
    | (_, .fails) => (s.setCall k .idle, .fails)
    | (slot, .returns p) =>
      let h := s.history i
      (((s.setSlot i slot).setHistory i { h with returned := h.returned ++ [p] }).setCall k .idle,
        .received pid i length (p.data.take length) p.peer)

/-- One slot of the loop of `proninx_udp_process_exit`. -/
def State.sweep (s : State) (k pid i : Nat) : State × Reply :=
  if h : i < UDP_SLOTS then
    let t := s.setCall k (.exiting pid (i + 1))
    if (s.slots ⟨i, h⟩).owned pid then (t.setSlot ⟨i, h⟩ (s.slots ⟨i, h⟩).closed, .quiet)
    else (t, .quiet)
  else (s.setCall k .idle, .done)

def State.bind (s : State) (pid : Nat) (handle : Int) (port : UInt16) (ok : Bool) :
    State × Reply :=
  match slotFor UDP_SLOTS handle with
  | none => (s, .fails)
  | some i =>
    if port = 0 ∨ (s.slots i).owned pid = false then (s, .fails)
    else
      match (s.slots i).bind port ok with
      | (slot, .returns ()) => (s.setSlot i slot, .done)
      | _ => (s, .fails)

def State.close (s : State) (pid : Nat) (handle : Int) : State × Reply :=
  match slotFor UDP_SLOTS handle with
  | none => (s, .fails)
  | some i =>
    if (s.slots i).owned pid then (s.setSlot i (s.slots i).closed, .done) else (s, .fails)

def State.begin (s : State) : Act → State × Reply
  | .input i p => (s.input i p, .quiet)
  | .udpOpen k pid =>
    if s.lwipReady then (s.setCall k (.opening pid 0), .quiet) else (s, .fails)
  | .bind _ pid handle port ok => s.bind pid handle port ok
  | .recvfrom k pid handle pointers length timeout now =>
    match slotFor UDP_SLOTS handle with
    | none => (s, .fails)
    | some i =>
      if pointers = false ∨ length = 0 then (s, .fails)
      else s.recvfrom k pid i length timeout now (now + timeout)
  | .close _ pid handle => s.close pid handle
  | .exit k pid => (s.setCall k (.exiting pid 0), .quiet)
  | .resume k now fresh =>
    match s.calls k with
    | .idle => (s, .quiet)
    | .opening pid i => s.scan k pid i fresh
    | .receiving pid i length timeout deadline =>
      s.recvfrom k pid i length timeout now deadline
    | .exiting pid i => s.sweep k pid i

/-- The call an action is a step of, and whether it is its first. -/
def Act.call : Act → Option (Nat × Bool)
  | .input _ _ => none
  | .udpOpen k _ | .bind k _ _ _ _ | .recvfrom k _ _ _ _ _ _ | .close k _ _ | .exit k _ =>
    some (k, true)
  | .resume k _ _ => some (k, false)

/-- A new call has a number that no call under way has. -/
def step (s : State) (a : Act) : Option (State × Reply) :=
  match a.call with
  | none => some (s.begin a)
  | some (k, first) => if decide (s.calls k = .idle) = first then some (s.begin a) else none

/-- No slot is open. -/
def boot (ready : Bool) : State where
  lwipReady := ready
  slots _ := ⟨false, 0, 0, 0, ⟨0, 0, 0, fun _ => ⟨[], ⟨(0, 0, 0, 0), 0⟩⟩⟩⟩
  history _ := ⟨[], [], []⟩
  calls _ := .idle

abbrev Steps (s : State) (as : List (Act × Reply)) (t : State) : Prop :=
  Runs.Run (fun s a t => step s a.1 = some (t, a.2)) s as t

/-! ## What a step can do to a slot -/

inductive Change (slot : Slot) (h : History) : Slot → History → Prop where
  | same : Change slot h slot h
  | input (p : Datagram) :
      Change slot h (slot.input p)
        { h with
          arrived := h.arrived ++ [p]
          queued := if slot.accepts p then h.queued ++ [p] else h.queued }
  | opened (pid : Nat) : Change slot h (slot.opened pid) ⟨[], [], []⟩
  | bound (port : UInt16) : Change slot h { slot with boundPort := port } h
  | returned (hcount : slot.ring.count ≠ 0) :
      Change slot h { slot with ring := slot.ring.pop UDP_QUEUE_DEPTH }
        { h with returned := h.returned ++ [slot.ring.cells slot.ring.head] }
  | closed : Change slot h slot.closed h

variable {s t : State}

lemma Change.of_update {i j : Fin UDP_SLOTS} {slot : Slot} {h : History}
    (hc : Change (s.slots i) (s.history i) slot h) :
    Change (s.slots j) (s.history j) (update s.slots i slot j) (update s.history i h j) := by
  by_cases hj : j = i
  · subst hj
    simpa using hc
  · simpa [hj] using Change.same

lemma Change.of_slot {i j : Fin UDP_SLOTS} {slot : Slot}
    (hc : Change (s.slots i) (s.history i) slot (s.history i)) :
    Change (s.slots j) (s.history j) (update s.slots i slot j) (s.history j) := by
  simpa using hc.of_update (j := j)

/-- `recvfrom` either leaves the slots alone or returns the datagram at
`head` to a process that owns the slot. -/
lemma recvfrom_cases (k pid : Nat) (i : Fin UDP_SLOTS) (length : Nat)
    (timeout now deadline : UInt32) :
    (∃ c r, s.recvfrom k pid i length timeout now deadline = (s.setCall k c, r) ∧
      (r = .quiet ∨ r = .fails)) ∨
    ((s.slots i).owned pid ∧ (s.slots i).ring.count ≠ 0 ∧
      let p := (s.slots i).ring.cells (s.slots i).ring.head
      s.recvfrom k pid i length timeout now deadline =
        (((s.setSlot i { s.slots i with ring := (s.slots i).ring.pop UDP_QUEUE_DEPTH }).setHistory i
            { s.history i with returned := (s.history i).returned ++ [p] }).setCall k .idle,
          .received pid i length (p.data.take length) p.peer)) := by
  rw [recvfrom]
  by_cases ho : (s.slots i).owned pid
  · rw [if_neg (by simp [ho])]
    by_cases hc : (s.slots i).ring.count = 0
    · refine .inl ?_
      rw [Slot.recvfrom, if_pos hc]
      split <;> rename_i heq <;> split at heq
      all_goals simp_all
    · refine .inr ⟨ho, hc, ?_⟩
      rw [Slot.recvfrom, if_neg hc]
  · exact .inl ⟨.idle, .fails, by rw [if_pos (by simpa using ho)], .inr rfl⟩

lemma begin_change (s : State) (a : Act) (j : Fin UDP_SLOTS) :
    Change (s.slots j) (s.history j) ((s.begin a).1.slots j) ((s.begin a).1.history j) := by
  have recvfrom : ∀ k pid i length timeout now deadline, Change (s.slots j) (s.history j)
        ((s.recvfrom k pid i length timeout now deadline).1.slots j)
        ((s.recvfrom k pid i length timeout now deadline).1.history j) := by
    intro k pid i length timeout now deadline
    obtain ⟨c, r, heq, -⟩ | ⟨-, hcount, heq⟩ :=
      recvfrom_cases (s := s) k pid i length timeout now deadline
    · rw [heq]
      exact .same
    rw [heq]
    exact (Change.returned hcount).of_update
  cases a with
  | input i p => exact (Change.input p).of_update
  | udpOpen k pid =>
    simp only [begin]
    split <;> exact .same
  | bind k pid handle port ok =>
    simp only [State.begin, State.bind]
    split
    · exact .same
    rename_i i _
    split
    · exact .same
    rw [Slot.bind]
    split_ifs
    · exact .same
    · exact (Change.bound port).of_slot
    · exact .same
  | recvfrom k pid handle pointers length timeout now =>
    simp only [begin]
    split
    · exact .same
    split
    · exact .same
    · exact recvfrom _ _ _ _ _ _ _
  | close k pid handle =>
    simp only [begin, close]
    split
    · exact .same
    split
    · exact Change.closed.of_slot
    · exact .same
  | exit k pid => exact .same
  | resume k now fresh => ?_
  simp only [begin]
  split
  · exact .same
  · simp only [scan]
    split_ifs
    · exact (Change.opened _).of_update
    · exact .same
    · exact .same
  · exact recvfrom _ _ _ _ _ _ _
  simp only [sweep]
  split_ifs
  · exact Change.closed.of_slot
  · exact .same
  · exact .same

lemma step_eq {a : Act} {r : Reply} (h : step s a = some (t, r)) : s.begin a = (t, r) := by
  rw [step] at h
  split at h
  · exact some.inj h
  · exact (ite_none_right_eq_some.mp h).2 |> some.inj

/-- The datagram at `head` is returned to the owner of the slot. -/
structure Takes (s t : State) (pid : Nat) (i : Fin UDP_SLOTS) (length : Nat) (data : List UInt8)
    (peer : Endpoint) (p : Datagram) : Prop where
  owned : (s.slots i).owned pid = true
  count : (s.slots i).ring.count ≠ 0
  head : (s.slots i).ring.cells (s.slots i).ring.head = p
  data : data = p.data.take length
  peer : peer = p.peer
  returned : (t.history i).returned = (s.history i).returned ++ [p]

variable {pid length : Nat} {i : Fin UDP_SLOTS} {data : List UInt8} {peer : Endpoint}

lemma recvfrom_takes {k pid' length' : Nat} {i' : Fin UDP_SLOTS} {timeout now deadline : UInt32}
    (h : s.recvfrom k pid' i' length' timeout now deadline =
      (t, .received pid i length data peer)) : ∃ p, Takes s t pid i length data peer p := by
  obtain ⟨c, r, heq, hr⟩ | ⟨howned, hcount, heq⟩ :=
    recvfrom_cases (s := s) k pid' i' length' timeout now deadline
  · rw [heq] at h
    obtain rfl | rfl := hr <;> simp at h
  rw [heq] at h
  obtain ⟨rfl, rfl, rfl, rfl, rfl, rfl⟩ := h
  exact ⟨_, howned, hcount, rfl, rfl, rfl, by simp [setCall, setHistory]⟩

lemma step_takes {a : Act} (h : step s a = some (t, .received pid i length data peer)) :
    ∃ p, Takes s t pid i length data peer p := by
  replace h := step_eq h
  cases a with
  | input i p => simp [begin] at h
  | udpOpen k pid => simp only [begin] at h; split at h <;> simp at h
  | bind k pid handle port ok =>
    simp only [State.begin, State.bind] at h
    repeat' split at h
    all_goals simp at h
  | recvfrom k pid handle pointers len timeout now =>
    simp only [begin] at h
    split at h
    · simp at h
    split at h
    · simp at h
    · exact recvfrom_takes h
  | close k pid handle =>
    simp only [begin, close] at h
    repeat' split at h
    all_goals simp at h
  | exit k pid => simp [begin] at h
  | resume k now fresh => ?_
  simp only [begin] at h
  split at h
  · simp at h
  · simp only [scan] at h
    split_ifs at h <;> simp at h
  · exact recvfrom_takes h
  simp only [sweep] at h
  split_ifs at h <;> simp at h

/-! ## A slot is a queue while it is open -/

/-- The ring holds `q`, and while the slot is open `q` is what was queued
and not yet returned, of what arrived and was not dropped. -/
structure Faithful (slot : Slot) (h : History) (q : List Datagram) : Prop where
  ring : slot.ring.Queued UDP_QUEUE_DEPTH q
  split : slot.pcb = true → h.queued = h.returned ++ q
  sublist : slot.pcb = true → h.queued.Sublist h.arrived
  dropped : slot.pcb = true → slot.dropped = UInt32.ofNat (h.arrived.length - h.queued.length)

variable {slot slot' : Slot} {h h' : History} {q : List Datagram}

lemma Faithful.input (hf : Faithful slot h q) (p : Datagram) : ∃ q', Faithful (slot.input p)
      { h with
        arrived := h.arrived ++ [p]
        queued := if slot.accepts p then h.queued ++ [p] else h.queued } q' := by
  rw [Slot.input]
  by_cases ha : slot.accepts p
  · have hlt : slot.ring.count < UDP_QUEUE_DEPTH := by
      simp only [Slot.accepts, Bool.and_eq_true, decide_eq_true_eq] at ha
      exact ha.1.2
    rw [if_pos ha, if_pos ha]
    refine ⟨q ++ [p], hf.ring.push hlt p, fun hp => ?_, fun hp => ?_, fun hp => ?_⟩
    · rw [← append_assoc, ← hf.split hp]
    · exact (hf.sublist hp).append (List.Sublist.refl [p])
    simp only [length_append, length_singleton, Nat.add_sub_add_right]
    exact hf.dropped hp
  · rw [if_neg ha, if_neg ha]
    refine ⟨q, hf.ring, hf.split, fun hp => ?_, fun hp => ?_⟩
    · exact (hf.sublist hp).trans (sublist_append_left _ _)
    have hle := (hf.sublist hp).length_le
    simp only [length_append, length_singleton]
    rw [Nat.sub_add_comm hle, UInt32.ofNat_add, ← hf.dropped hp]
    rfl

lemma Faithful.change (hf : Faithful slot h q) (hc : Change slot h slot' h') :
    ∃ q', Faithful slot' h' q' := by
  cases hc with
  | same => exact ⟨q, hf⟩
  | input p => exact hf.input p
  | opened pid =>
    exact ⟨[], CountedRing.queued_reset _ (by decide), fun _ => rfl, fun _ => .slnil, fun _ => rfl⟩
  | bound port => exact ⟨q, hf.ring, hf.split, hf.sublist, hf.dropped⟩
  | returned hcount =>
    obtain ⟨p, q', rfl⟩ := hf.ring.exists_cons hcount
    obtain ⟨hp, hpop⟩ := hf.ring.pop
    refine ⟨q', hpop, fun hpcb => ?_, hf.sublist, hf.dropped⟩
    rw [hp, append_assoc, singleton_append]
    exact hf.split hpcb
  | closed => exact ⟨[], CountedRing.queued_reset _ (by decide), nofun, nofun, nofun⟩

lemma run_faithful {ready : Bool} {as : List (Act × Reply)} (hrun : Steps (boot ready) as s) :
    ∀ i, ∃ q, Faithful (s.slots i) (s.history i) q := by
  refine hrun.invariant ?_ ?_
  · exact fun i => ⟨[], ⟨holds_nil _ (Nat.zero_lt_succ 3), rfl⟩, nofun, nofun, nofun⟩
  intro s a t hs hstep i
  obtain ⟨q, hq⟩ := hs i
  have hchange := begin_change s a.1 i
  rw [step_eq hstep] at hchange
  exact hq.change hchange

/-- In every state that any interleaving reaches, each slot's `tail` is
`head + count` around the ring. While a slot is open the datagrams
returned from it are the first of those queued since it was opened, these
are the ones that arrived since then, in order, without those counted as
dropped, and the next datagram a call returns goes to the owner and is the
next one queued. -/
theorem slots_are_queues {ready : Bool} {as : List (Act × Reply)} (hrun : Steps (boot ready) as s) :
    (∀ i, (s.slots i).ring.tail =
      ((s.slots i).ring.head + (s.slots i).ring.count) % UDP_QUEUE_DEPTH) ∧
    (∀ i, (s.slots i).pcb = true → (s.history i).returned <+: (s.history i).queued ∧
      (s.history i).queued.Sublist (s.history i).arrived ∧
      (s.slots i).dropped =
        UInt32.ofNat ((s.history i).arrived.length - (s.history i).queued.length)) ∧
    ∀ a t pid i length data peer, step s a = some (t, .received pid i length data peer) →
      (s.slots i).pcb = true ∧ (s.slots i).owner = pid ∧
      ∃ p, (s.history i).queued[(s.history i).returned.length]? = some p ∧
        data = p.data.take length ∧ peer = p.peer ∧
        (t.history i).returned = (s.history i).returned ++ [p] := by
  have hall := run_faithful hrun
  refine ⟨fun i => ?_, fun i hpcb => ?_, ?_⟩
  · obtain ⟨q, hq⟩ := hall i
    exact hq.ring.tail_eq
  · obtain ⟨q, hq⟩ := hall i
    exact ⟨⟨q, (hq.split hpcb).symm⟩, hq.sublist hpcb, hq.dropped hpcb⟩
  intro a t pid i length data peer hstep
  obtain ⟨p, htake⟩ := step_takes hstep
  have howned := htake.owned
  simp only [Slot.owned, Bool.and_eq_true, beq_iff_eq] at howned
  obtain ⟨q, hq⟩ := hall i
  obtain ⟨p', q', rfl⟩ := hq.ring.exists_cons htake.count
  obtain rfl : p = p' := htake.head.symm.trans hq.ring.pop.1
  refine ⟨howned.1, howned.2, p, ?_, htake.data, htake.peer, htake.returned⟩
  rw [hq.split howned.1]
  simp

/-- Process 7 opens the first slot, two packets arrive, and a read of ten
bytes gets the first. -/
theorem slots_are_queues_two_packets : ∃ as s t, Steps (boot true) as s ∧
      step s (.recvfrom 0 7 1 true 10 0 0) = some (t, .received 7 0 10 [1, 2] ⟨(10, 0, 0, 1), 53⟩) ∧
      (s.slots 0).owner = 7 ∧ (s.history 0).returned <+: (s.history 0).queued := by
  let p : Datagram := ⟨[1, 2], ⟨(10, 0, 0, 1), 53⟩⟩
  let p' : Datagram := ⟨[3], ⟨(10, 0, 0, 1), 53⟩⟩
  have hrun : Steps (boot true) [(.udpOpen 0 7, .quiet), (.resume 0 0 true, .opened 1),
      (.input 0 p, .quiet), (.input 0 p', .quiet)] _ :=
    .cons rfl (.cons rfl (.cons rfl (.cons rfl .nil)))
  obtain ⟨-, hopen, hnext⟩ := slots_are_queues hrun
  have hread := hnext (.recvfrom 0 7 1 true 10 0 0) _ 7 0 10 [1, 2] p.peer rfl
  exact ⟨_, _, _, hrun, rfl, hread.2.1, (hopen 0 rfl).1⟩

end Proninx.Udp
