import Proninx.Kern.Net.Tcp
import Proninx.Lib.Runs

/-!
# The byte stream of one connection

lwIP delivers the bytes of a connection in chunks, in order, and
`proninx_tcp_received` tells it at once that a chunk was consumed, before
it looks whether the ring has room. `consumed` is the stream lwIP was told
about and `returned` the stream `proninx_tcp_recv` handed out. The ring
holds what lies between the two as long as every chunk finds room; a chunk
that does not is missing from the middle of what is read later.
-/

namespace Proninx.Tcp

open Function List Net Option RingBuffer

/-- A call asleep in `proninx_tcp_recv`. -/
structure Reading where
  length : Nat
  timeout : UInt32
  deadline : UInt32

/-- The slot of a connection, the reads asleep on it and its history. -/
structure Stream where
  slot : Slot
  reads : Nat → Option Reading
  consumed : List UInt8
  returned : List UInt8

inductive Stream.Act where
  | received (p : Option (List UInt8)) (ok : Bool)
  /-- `pointers`: the buffer was given. -/
  | recv (k pid : Nat) (pointers : Bool) (length : Nat) (timeout now : UInt32)
  /-- The read `k` goes on. -/
  | resume (k : Nat) (now : UInt32)
  deriving DecidableEq

/-- `proninx_tcp_recv` each time it has the lock. -/
def Stream.recv (s : Stream) (k : Nat) (r : Reading) (now : UInt32) : Stream :=
  match s.slot.recv r.length r.timeout now r.deadline with
  | (_, .sleeps) => { s with reads := update s.reads k (some r) }
  | (_, .fails) => { s with reads := update s.reads k none }
  | (slot, .returns bytes) =>
    { s with
      slot := slot
      reads := update s.reads k none
      returned := s.returned ++ bytes }

def Stream.step (s : Stream) : Stream.Act → Option Stream
  | .received p ok =>
    let (slot, n) := s.slot.received p ok
    some { s with slot := slot, consumed := s.consumed ++ (p.getD []).take n }
  | .recv k pid pointers length timeout now =>
    match s.reads k with
    | some _ => none
    | none =>
      if pointers = false ∨ length = 0 ∨ s.slot.owned pid = false then some s
      else some (s.recv k ⟨length, timeout, now + timeout⟩ now)
  | .resume k now => (s.reads k).map fun r => s.recv k r now

/-- A chunk finds the slot connected and room in its ring. -/
def Stream.Room (s : Stream) : Stream.Act → Prop
  | .received (some p) ok => s.slot.takes p ok = true
  | _ => True

/-- A connection that was just made: nothing delivered, nothing read. -/
structure Stream.Fresh (s : Stream) : Prop where
  ring : s.slot.ring.Queued TCP_QUEUE_DEPTH []
  reads : ∀ k, s.reads k = none
  consumed : s.consumed = []
  returned : s.returned = []

/-- The ring holds what was consumed and not yet returned. -/
def Stream.Between (s : Stream) (q : List Segment) : Prop :=
  s.slot.ring.Queued TCP_QUEUE_DEPTH q ∧ s.consumed = s.returned ++ q.flatMap Segment.unread

variable {s t : Stream} {q : List Segment}

lemma Segment.unread_advance (g : Segment) (n : Nat) :
    g.unread.take n ++ Segment.unread { g with offset := g.offset + n } = g.unread := by
  rw [Segment.unread, Segment.unread, ← drop_drop, take_append_drop]

lemma Stream.Between.received {p : Option (List UInt8)} {ok : Bool} (h : s.Between q)
    (hroom : s.Room (.received p ok)) (hstep : s.step (.received p ok) = some t) :
    ∃ q', t.Between q' := by
  cases p with
  | none =>
    obtain rfl := some.inj hstep
    exact ⟨q, h.1, by simpa using h.2⟩
  | some p => ?_
  simp only [Stream.step, Slot.received, if_pos (show s.slot.takes p ok = true from hroom),
    some.injEq] at hstep
  have hlt : s.slot.ring.count < TCP_QUEUE_DEPTH := by
    simp only [Stream.Room, Slot.takes, Bool.and_eq_true, decide_eq_true_eq] at hroom
    exact hroom.1.2
  subst hstep
  refine ⟨q ++ [⟨p, 0⟩], h.1.push hlt _, ?_⟩
  simp [h.2, Segment.unread]

/-- Reading from the oldest segment keeps the stream together, whether the
segment is used up or not. -/
lemma Stream.Between.recv (h : s.Between q) (k : Nat) (r : Reading) (now : UInt32) :
    ∃ q', (s.recv k r now).Between q' := by
  rw [Stream.recv, Slot.recv]
  by_cases hcount : s.slot.ring.count = 0
  · rw [if_pos hcount]
    refine ⟨q, ?_⟩
    split <;> first | exact h | (rename_i heq; split at heq <;> simp at heq)
  rw [if_neg hcount]
  obtain ⟨g, q', rfl⟩ := h.1.exists_cons hcount
  obtain ⟨hg, -⟩ := h.1.pop
  simp only [hg]
  generalize (if r.length > g.data.length - g.offset then g.data.length - g.offset
    else r.length) = n
  have hset := h.1.holds.set { g with offset := g.offset + n }
  rw [Nat.mod_eq_of_lt h.1.holds.lt] at hset
  have hring : CountedRing.Queued TCP_QUEUE_DEPTH { s.slot.ring with
      cells := update s.slot.ring.cells s.slot.ring.head
        { g with offset := g.offset + n } } ({ g with offset := g.offset + n } :: q') :=
    ⟨hset, h.1.count⟩
  have hread := g.unread_advance n
  split_ifs with hused
  · -- Nothing is left of a segment that was used up.
    have hempty : Segment.unread { g with offset := g.offset + n } = [] :=
      drop_eq_nil_of_le (le_of_eq hused.symm)
    rw [hempty, append_nil] at hread
    refine ⟨q', hring.pop.2, ?_⟩
    rw [h.2, flatMap_cons, hread, append_assoc]
  · refine ⟨_, hring, ?_⟩
    rw [h.2, flatMap_cons, flatMap_cons, append_assoc, ← append_assoc (g.unread.take n), hread]

lemma Stream.Between.step {a : Stream.Act} (h : s.Between q) (hroom : s.Room a)
    (hstep : s.step a = some t) : ∃ q', t.Between q' := by
  cases a with
  | received p ok => exact h.received hroom hstep
  | recv k pid pointers length timeout now =>
    simp only [Stream.step] at hstep
    split at hstep
    · cases hstep
    split at hstep
    · cases hstep
      exact ⟨q, h⟩
    cases hstep
    exact h.recv k _ now
  | resume k now =>
    obtain ⟨r, -, rfl⟩ := map_eq_some_iff.mp hstep
    exact h.recv k r now

/-- As long as every chunk finds room, what reads returned is the start of
the stream lwIP was told was consumed, and all of it once the ring is
empty. -/
theorem returned_prefix_of_room {s₀ : Stream} {as : List Stream.Act} (h₀ : s₀.Fresh)
    (hrun : Runs.Run (fun s a t => s.Room a ∧ s.step a = some t) s₀ as s) :
    s.returned <+: s.consumed ∧ (s.slot.ring.count = 0 → s.returned = s.consumed) := by
  obtain ⟨q, hring, heq⟩ : ∃ q, s.Between q := by
    have hstart : s₀.Between [] := ⟨h₀.ring, by rw [h₀.consumed, h₀.returned]; rfl⟩
    refine hrun.invariant ⟨[], hstart⟩ ?_
    · intro s a t hs hstep
      obtain ⟨q, hq⟩ := hs
      exact hq.step hstep.1 hstep.2
  refine ⟨⟨_, heq.symm⟩, fun hcount => ?_⟩
  obtain rfl : q = [] := length_eq_zero_iff.mp (hring.count.symm.trans hcount)
  simpa using heq.symm

/-- A connection of process 7 in the first slot. -/
def justConnected : Stream where
  slot := ⟨some 0, 7, .connected, 0, 0, ⟨0, 0, 0, fun _ => ⟨[], 0⟩⟩, ⟨0, 0, 0, fun _ => 0⟩⟩
  reads _ := none
  consumed := []
  returned := []

lemma justConnected_fresh : justConnected.Fresh :=
  ⟨⟨holds_nil _ (by decide), rfl⟩, fun _ => rfl, rfl, rfl⟩

/-- Two chunks, and a read that ends inside the first. -/
theorem returned_prefix_of_room_two_chunks :
    ∃ s, Runs.Run (fun s a t => Stream.Room s a ∧ s.step a = some t) justConnected
        [.received (some [1, 2, 3]) true, .received (some [4]) true, .recv 0 7 true 2 0 0] s ∧
      s.returned = [1, 2] ∧ s.returned <+: s.consumed := by
  refine Exists.imp (p := fun s => _ ∧ _) (fun s h =>
    ⟨h.1, h.2, (returned_prefix_of_room justConnected_fresh h.1).1⟩) ?_
  exact ⟨_, .cons ⟨rfl, rfl⟩ (.cons ⟨rfl, rfl⟩ (.cons ⟨trivial, rfl⟩ .nil)), rfl⟩

/-- Five chunks before the first read: the fifth is told to lwIP as
consumed and dropped, and the sixth follows the fourth in what is read. -/
theorem fifth_chunk_lost : ∃ s, Runs.Run (fun s a t => s.step a = some t) justConnected
        [.received (some [1]) true, .received (some [2]) true, .received (some [3]) true,
          .received (some [4]) true, .received (some [5]) true, .recv 0 7 true 9 0 0,
          .received (some [6]) true, .recv 0 7 true 9 0 0, .recv 0 7 true 9 0 0,
          .recv 0 7 true 9 0 0, .recv 0 7 true 9 0 0] s ∧
      s.consumed = [1, 2, 3, 4, 5, 6] ∧ s.returned = [1, 2, 3, 4, 6] ∧
      ¬ s.returned <+: s.consumed := by
  refine ⟨_, .cons rfl (.cons rfl (.cons rfl (.cons rfl (.cons rfl (.cons rfl (.cons rfl (.cons rfl
    (.cons rfl (.cons rfl (.cons rfl .nil)))))))))), rfl, rfl, ?_⟩
  exact (show ¬ [1, 2, 3, 4, 6] <+: [1, 2, 3, 4, 5, (6 : UInt8)] by decide)

end Proninx.Tcp
