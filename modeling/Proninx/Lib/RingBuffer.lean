import Mathlib.Data.Nat.ModEq

/-!
# Ring buffers with wrapping counters

A buffer of `c` cells with two counters that only ever count up, modulo
some `M` that `c` divides: `r` counts the elements taken out, `w` those
put in, and an element sits in the cell of its number modulo `c`. `Holds`
says which queue such a buffer stands for. The counters tell the full and
the empty buffer apart as long as `c < M`, also after they wrapped.
-/

namespace RingBuffer

open Function List Nat

variable {α : Type} {c M : Nat} {data : Nat → α} {r w : Nat} {q : List α}

structure Holds (c M : Nat) (data : Nat → α) (r w : Nat) (q : List α) : Prop where
  bound : q.length ≤ c
  lt : r < M
  counter : w = (r + q.length) % M
  cells : ∀ i x, q[i]? = some x → data ((r + i) % c) = x

lemma holds_nil (data : Nat → α) (h : r < M) : Holds c M data r r [] where
  bound := zero_le _
  lt := h
  counter := (mod_eq_of_lt h).symm
  cells i x hx := by simp at hx

/-- Counting `k` on from `r` and taking `r` off again, modulo `M`. -/
lemma wrap_sub {k : Nat} (hr : r < M) (hk : k < M) : ((r + k) % M + M - r) % M = k := by
  by_cases h : r + k < M
  · rw [mod_eq_of_lt h, show r + k + M - r = k + M by omega, add_mod_right, mod_eq_of_lt hk]
  have hmod : (r + k) % M = r + k - M := by rw [mod_eq_sub_mod (by omega), mod_eq_of_lt (by omega)]
  rw [hmod, show r + k - M + M - r = k by omega, mod_eq_of_lt hk]

section

variable (h : Holds c M data r w q) (hc : c < M)
include h hc

lemma Holds.length_eq : (w + M - r) % M = q.length := by
  rw [h.counter, wrap_sub h.lt (lt_of_le_of_lt h.bound hc)]

lemma Holds.add_eq_iff {k : Nat} (hk : k ≤ c) : w = (r + k) % M ↔ q.length = k := by
  refine ⟨fun hw => ?_, fun hq => hq ▸ h.counter⟩
  rw [← h.length_eq hc, hw, wrap_sub h.lt (lt_of_le_of_lt hk hc)]

lemma Holds.full_iff : w = (r + c) % M ↔ q.length = c :=
  h.add_eq_iff hc (le_refl c)

lemma Holds.empty_iff : r = w ↔ q = [] := by
  rw [← List.length_eq_zero_iff, ← h.add_eq_iff hc (Nat.zero_le c), add_zero,
    mod_eq_of_lt h.lt, eq_comm]

end

lemma Holds.push (h : Holds c M data r w q) (hdvd : c ∣ M) (hq : q.length < c) (x : α) :
    Holds c M (update data (w % c) x) r ((w + 1) % M) (q ++ [x]) where
  bound := by rw [length_append, length_singleton]; omega
  lt := h.lt
  counter := by rw [h.counter, mod_add_mod, length_append, length_singleton, add_assoc]
  cells i y hy := by
    have hcell : w % c = (r + q.length) % c := by rw [h.counter, mod_mod_of_dvd _ hdvd]
    rw [hcell]
    by_cases hi : i < q.length
    · -- The numbers of two queued elements differ by less than `c`.
      have hne : (r + i) % c ≠ (r + q.length) % c := by
        intro heq
        have hmod : Nat.ModEq c i q.length := Nat.ModEq.add_left_cancel' r heq
        rw [Nat.ModEq, mod_eq_of_lt (by omega), mod_eq_of_lt hq] at hmod
        omega
      rw [update_of_ne hne]
      exact h.cells i y (by rwa [List.getElem?_append_left hi] at hy)
    · rw [List.getElem?_append_right (by omega)] at hy
      obtain ⟨hi', rfl⟩ : i - q.length = 0 ∧ x = y := by
        cases hk : i - q.length with
        | zero => exact ⟨rfl, by simpa [hk] using hy⟩
        | succ k => simp [hk] at hy
      rw [show i = q.length by omega, update_self]

lemma Holds.pop {x : α} (h : Holds c M data r w (x :: q)) (hdvd : c ∣ M) (hM : 0 < M) :
    data (r % c) = x ∧ Holds c M data ((r + 1) % M) w q := by
  have hb := h.bound
  rw [length_cons] at hb
  refine ⟨h.cells 0 x rfl, by omega, mod_lt _ hM, ?_, fun i y hy => ?_⟩
  · rw [h.counter, mod_add_mod, length_cons, add_assoc, add_comm 1]
  rw [add_mod, mod_mod_of_dvd _ hdvd, ← add_mod, add_assoc, add_comm 1]
  exact h.cells (i + 1) y (by simpa using hy)

lemma Holds.set {x : α} (h : Holds c M data r w (x :: q)) (y : α) :
    Holds c M (update data (r % c) y) r w (y :: q) := by
  refine { h with cells := fun i z hz => ?_ }
  cases i with
  | zero => simpa using hz
  | succ i => ?_
  have hb := h.bound
  have hi : i + 1 < (y :: q).length := (List.getElem?_eq_some_iff.mp hz).1
  rw [length_cons] at hb hi
  have hne : (r + (i + 1)) % c ≠ r % c := by
    intro heq
    have hmod : Nat.ModEq c (i + 1) 0 := Nat.ModEq.add_left_cancel' r heq
    rw [Nat.ModEq, mod_eq_of_lt (by omega), zero_mod] at hmod
    omega
  rw [update_of_ne hne]
  exact h.cells (i + 1) z hz

/-! ## Rings with a count

The full and the empty ring may also be told apart by a count, and then
the counters may be the places themselves. -/

structure CountedRing (α : Type) where
  head : Nat
  tail : Nat
  count : Nat
  cells : Nat → α

variable {ring : CountedRing α}

def CountedRing.push (c : Nat) (ring : CountedRing α) (x : α) : CountedRing α :=
  { ring with
    tail := (ring.tail + 1) % c
    count := ring.count + 1
    cells := update ring.cells ring.tail x }

def CountedRing.pop (c : Nat) (ring : CountedRing α) : CountedRing α :=
  { ring with
    head := (ring.head + 1) % c
    count := ring.count - 1 }

def CountedRing.reset (ring : CountedRing α) : CountedRing α := { ring with head := 0, tail := 0, count := 0 }

structure CountedRing.Queued (c : Nat) (ring : CountedRing α) (q : List α) : Prop where
  holds : Holds c c ring.cells ring.head ring.tail q
  count : ring.count = q.length

lemma CountedRing.queued_reset (ring : CountedRing α) (hc : 0 < c) : ring.reset.Queued c [] :=
  ⟨holds_nil _ hc, rfl⟩

lemma CountedRing.Queued.tail_eq (h : ring.Queued c q) :
    ring.tail = (ring.head + ring.count) % c := by
  rw [h.count]
  exact h.holds.counter

lemma CountedRing.Queued.tail_lt (h : ring.Queued c q) : ring.tail < c := by
  rw [h.tail_eq]
  exact mod_lt _ (zero_lt_of_lt h.holds.lt)

lemma CountedRing.Queued.push (h : ring.Queued c q) (hq : ring.count < c) (x : α) :
    (ring.push c x).Queued c (q ++ [x]) := by
  refine ⟨?_, by rw [CountedRing.push, h.count, length_append, length_singleton]⟩
  have hpush := h.holds.push (Nat.dvd_refl c) (h.count ▸ hq) x
  rwa [mod_eq_of_lt h.tail_lt] at hpush

lemma CountedRing.Queued.pop {x : α} (h : ring.Queued c (x :: q)) :
    ring.cells ring.head = x ∧ (ring.pop c).Queued c q := by
  obtain ⟨hx, hpop⟩ := h.holds.pop (Nat.dvd_refl c) (zero_lt_of_lt h.holds.lt)
  rw [mod_eq_of_lt h.holds.lt] at hx
  exact ⟨hx, hpop, by rw [CountedRing.pop, h.count, length_cons, Nat.add_sub_cancel]⟩

lemma CountedRing.Queued.exists_cons (h : ring.Queued c q) (hcount : ring.count ≠ 0) :
    ∃ x q', q = x :: q' := by
  cases q with
  | nil => exact absurd h.count hcount
  | cons x q => exact ⟨x, q, rfl⟩

end RingBuffer
