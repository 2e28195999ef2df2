import Mathlib.Data.List.Nodup

/-!
# Queues linked through their elements

A head pointer and a `next` pointer in every element, null at the end. An
element is appended by a walk from the head to the pointer that is null
and taken off at the head. `IsQueue l xs` says that `l` links the elements
`xs` in this order.
-/

namespace LinkedQueue

open Function List

variable {ν : Type}

structure Links (ν : Type) where
  head : Option ν
  next : ν → Option ν

/-- Following `next` from a pointer visits `xs` and ends. -/
def Chain (next : ν → Option ν) : Option ν → List ν → Prop
  | p, [] => p = none
  | p, x :: xs => p = some x ∧ Chain next (next x) xs

/-- The element whose `next` is null; `none` when the fuel runs out. -/
def last (next : ν → Option ν) : Nat → ν → Option ν
  | 0, _ => none
  | fuel + 1, x =>
    match next x with
    | none => some x
    | some y => last next fuel y

/-- `x->next = 0`, then `x` goes where the walk ends. -/
def append [DecidableEq ν] (fuel : Nat) (l : Links ν) (x : ν) : Option (Links ν) :=
  let next := update l.next x none
  match l.head with
  | none => some ⟨some x, next⟩
  | some y => (last next fuel y).map fun z => ⟨some y, update next z (some x)⟩

/-- Take the head off. -/
def pop (l : Links ν) (x : ν) : Links ν := { l with head := l.next x }

structure IsQueue (l : Links ν) (xs : List ν) : Prop where
  chain : Chain l.next l.head xs
  nodup : xs.Nodup

variable {next : ν → Option ν} {l : Links ν} {xs : List ν} {x y : ν}

lemma Chain.update [DecidableEq ν] (z : Option ν) (hx : x ∉ xs) : ∀ {p : Option ν}, Chain next p xs →
    Chain (update next x z) p xs := by
  induction xs with
  | nil => exact fun h => h
  | cons y xs ih => ?_
  rintro p ⟨hp, h⟩
  obtain ⟨hxy, hx⟩ := not_or.mp (mem_cons.not.mp hx)
  refine ⟨hp, ?_⟩
  rw [update_of_ne (Ne.symm hxy)]
  exact ih hx h

lemma Chain.last : ∀ {xs : List ν} {y : ν} {fuel : Nat}, Chain next (next y) xs →
    xs.length < fuel → last next fuel y = some ((y :: xs).getLast (cons_ne_nil y xs))
  | [], y, fuel + 1, h, _ => by
    simp only [LinkedQueue.last, show next y = none from h, getLast_singleton]
  | x :: xs, y, fuel + 1, h, hlen => by
    simp only [LinkedQueue.last, h.1]
    rw [h.2.last (Nat.lt_of_succ_lt_succ hlen), getLast_cons (cons_ne_nil x xs)]

/-- Where the last element points nowhere, the queue goes on. -/
lemma Chain.snoc [DecidableEq ν] (hx : x ∉ xs) (hnone : next x = none) (hnodup : xs.Nodup) : ∀ {p : Option ν},
    Chain next p xs → (hne : xs ≠ []) →
      Chain (Function.update next (xs.getLast hne) (some x)) p (xs ++ [x]) := by
  induction xs with
  | nil => exact fun _ hne => absurd rfl hne
  | cons y xs ih => ?_
  rintro p ⟨hp, h⟩ hne
  obtain ⟨hxy, hx⟩ := not_or.mp (mem_cons.not.mp hx)
  obtain ⟨hy, hnodup⟩ := nodup_cons.mp hnodup
  refine ⟨hp, ?_⟩
  cases xs with
  | nil =>
    simp only [getLast_singleton, update_self]
    exact ⟨rfl, by rw [update_of_ne hxy, hnone]; rfl⟩
  | cons z xs => ?_
  rw [getLast_cons (cons_ne_nil z xs)]
  have hlast : y ≠ (z :: xs).getLast (cons_ne_nil z xs) := fun heq =>
    hy (heq ▸ getLast_mem _)
  rw [update_of_ne hlast]
  exact ih hx hnodup h (cons_ne_nil z xs)

lemma IsQueue.append [DecidableEq ν] {fuel : Nat} (h : IsQueue l xs) (hx : x ∉ xs) (hfuel : xs.length ≤ fuel) :
    ∃ l', append fuel l x = some l' ∧ IsQueue l' (xs ++ [x]) ∧ l'.head = some (l.head.getD x) := by
  have hself : update l.next x none x = none := update_self ..
  cases xs with
  | nil =>
    have hhead : l.head = none := h.chain
    refine ⟨⟨some x, update l.next x none⟩, ?_, ⟨⟨rfl, hself⟩, nodup_singleton x⟩, ?_⟩
    · rw [LinkedQueue.append, hhead]
    rw [hhead]
    rfl
  | cons y xs => ?_
  have hhead : l.head = some y := h.chain.1
  have hchain : Chain (update l.next x none) (some y) (y :: xs) :=
    hhead ▸ h.chain.update none hx
  refine ⟨⟨some y, _⟩, ?_, ⟨hchain.snoc hx hself h.nodup (List.cons_ne_nil y xs), ?_⟩, ?_⟩
  · rw [LinkedQueue.append, hhead]
    dsimp only
    rw [hchain.2.last hfuel]
    rfl
  · rw [nodup_append]
    refine ⟨h.nodup, nodup_singleton x, ?_⟩
    rintro a ha b hb rfl
    exact hx (mem_singleton.mp hb ▸ ha)
  · rw [hhead]
    rfl

lemma IsQueue.pop (h : IsQueue l (x :: xs)) : IsQueue (LinkedQueue.pop l x) xs :=
  ⟨h.chain.2, (nodup_cons.mp h.nodup).2⟩

lemma IsQueue.head_eq (h : IsQueue l xs) : l.head = xs.head? := by
  cases xs with
  | nil => exact h.chain
  | cons x xs => exact h.chain.1

end LinkedQueue
