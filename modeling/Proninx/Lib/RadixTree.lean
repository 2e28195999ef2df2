import Mathlib.Algebra.Order.BigOperators.Group.Finset
import Mathlib.Data.Nat.ModEq
import Mathlib.Tactic.Abel

/-!
# Radix trees with tagged nodes

A tree of level `n` has up to `w ^ n` leaves; a key is a number, and the
node of level `m + 1` on its path branches on digit `m` of it in base `w`.
Every node carries a tag taken from a free list when the node is built, so
an insertion can run out of tags on the way down: the nodes it has built
by then stay. Page tables are such trees, with the frames of the tables as
tags.

`weight` collects the tags of the nodes and whatever the leaves stand for;
it is what the accounting of tags is stated with. `Dense p` is the tree
that an insertion of the keys below `p` in order leaves, and `cost` the
number of tags the next insertion takes.
-/

namespace Radix

open Finset Function List Multiset Nat Option

variable {w : Nat} {τ α : Type}

inductive Tree (w : Nat) (τ α : Type) : Nat → Type where
  | empty {n : Nat} : Tree w τ α n
  | leaf (a : α) : Tree w τ α 0
  | node {n : Nat} (tag : τ) (entry : Fin w → Tree w τ α n) : Tree w τ α (n + 1)

open Tree

inductive Outcome where
  | done
  /-- The free list is empty. -/
  | full
  /-- There is a leaf already. -/
  | occupied
  deriving DecidableEq, Repr

section Operations

variable [NeZero w]

def digit (w : Nat) [NeZero w] (n k : Nat) : Fin w := Fin.ofNat w (k / w ^ n)

def Tree.get : {n : Nat} → Tree w τ α n → Nat → Option α
  | _, .empty, _ => none
  | _, .leaf a, _ => some a
  | n + 1, .node _ e, k => (e (digit w n k)).get k

/-- The place of a leaf: `none` if a node on the way is missing, and
`some none` if only the leaf is. -/
def Tree.slot : {n : Nat} → Tree w τ α n → Nat → Option (Option α)
  | 0, .empty, _ => some none
  | _ + 1, .empty, _ => none
  | _, .leaf a, _ => some (some a)
  | n + 1, .node _ e, k => (e (digit w n k)).slot k

/-- Put a leaf in, with the tags for the nodes that are missing. -/
def Tree.insert (k : Nat) (a : α) : (n : Nat) → Tree w τ α n → List τ →
    Tree w τ α n × List τ × Outcome
  | 0, .empty, free => (.leaf a, free, .done)
  | 0, .leaf b, free => (.leaf b, free, .occupied)
  | _ + 1, .empty, [] => (.empty, [], .full)
  | n + 1, .empty, f :: free =>
    let r := insert k a n .empty free
    (.node f (update (fun _ => .empty) (digit w n k) r.1), r.2)
  | n + 1, .node f e, free =>
    let r := insert k a n (e (digit w n k)) free
    (.node f (update e (digit w n k) r.1), r.2)

/-- Change the leaf of a key; `none` takes it out. -/
def Tree.alter (k : Nat) (g : α → Option α) : {n : Nat} → Tree w τ α n → Tree w τ α n
  | _, .empty => .empty
  | _, .leaf a => match g a with
    | some b => .leaf b
    | none => .empty
  | n + 1, .node f e => .node f (update e (digit w n k) ((e (digit w n k)).alter k g))

/-- The tags of the nodes, each after those of the nodes below it. -/
def Tree.tags : {n : Nat} → Tree w τ α n → List τ
  | _, .node f e => ((finRange w).flatMap fun i => (e i).tags) ++ [f]
  | _, _ => []

/-- The tags of the nodes and what the leaves stand for. -/
def Tree.weight (g : α → Multiset τ) : {n : Nat} → Tree w τ α n → Multiset τ
  | _, .empty => 0
  | _, .leaf a => g a
  | _, .node f e => {f} + ∑ i, (e i).weight g

end Operations

variable {n : Nat} {t : Tree w τ α n}

/-- Induction along an insertion, down the path `d`. One below a node that is
missing is one below a new node. -/
lemma insert_induction {P : (n : Nat) → Tree w τ α n → List τ → Prop} (d : Nat → Fin w)
    (hempty : ∀ free, P 0 .empty free) (hleaf : ∀ b free, P 0 (.leaf b) free)
    (hfull : ∀ n, P (n + 1) .empty [])
    (hnew : ∀ n f free, P (n + 1) (.node f fun _ => .empty) free → P (n + 1) .empty (f :: free))
    (hnode : ∀ n f e free, P n (e (d n)) free → P (n + 1) (.node f e) free)
    (n : Nat) (t : Tree w τ α n) (free : List τ) : P n t free :=
  match n, t, free with
  | 0, .empty, free => hempty free
  | 0, .leaf b, free => hleaf b free
  | n + 1, .empty, [] => hfull n
  | n + 1, .empty, f :: free =>
    hnew n f free (hnode n f _ free (insert_induction d hempty hleaf hfull hnew hnode n _ free))
  | n + 1, .node f e, free =>
    hnode n f e free (insert_induction d hempty hleaf hfull hnew hnode n _ free)

lemma weight_update (g : α → Multiset τ) (f : τ) (e : Fin w → Tree w τ α n) (i : Fin w)
    (x : Tree w τ α n) :
    (node f (update e i x)).weight g + (e i).weight g = (node f e).weight g + x.weight g := by
  have hsum : ∑ j, (update e i x j).weight g =
      x.weight g + ∑ j ∈ Finset.univ.erase i, (e j).weight g := by
    rw [← add_sum_erase Finset.univ _ (mem_univ i), update_self]
    exact congrArg _ (sum_congr rfl fun j hj => by rw [update_of_ne (ne_of_mem_erase hj)])
  have hold := add_sum_erase Finset.univ (fun j => (e j).weight g) (mem_univ i)
  rw [weight, weight, hsum, ← hold]
  abel

lemma coe_tags (t : Tree w τ α n) : (t.tags : Multiset τ) = t.weight fun _ => 0 := by
  induction t with
  | empty => rfl
  | leaf a => rfl
  | node f e ih => ?_
  rw [tags, weight, ← coe_add, add_comm]
  refine congrArg _ ?_
  calc ((finRange w).flatMap fun i => (e i).tags : Multiset τ)
      = (finRange w : Multiset (Fin w)).bind fun i => ((e i).tags : Multiset τ) :=
        (coe_bind _ _).symm
    _ = ∑ i, ((e i).tags : Multiset τ) := rfl
    _ = ∑ i, (e i).weight fun _ => 0 := sum_congr rfl fun i _ => ih i

lemma weight_mono {g g' : α → Multiset τ} (h : ∀ a, g a ≤ g' a) (t : Tree w τ α n) :
    t.weight g ≤ t.weight g' := by
  induction t with
  | empty => exact le_rfl
  | leaf a => exact h a
  | node f e ih => exact add_le_add_right (Finset.sum_le_sum fun i _ => ih i) {f}

variable [NeZero w]

/-! ## Keys -/

variable {k k' : Nat}

lemma mod_pow_succ_ne (h : k % w ^ (n + 1) ≠ k' % w ^ (n + 1)) :
    digit w n k ≠ digit w n k' ∨ k % w ^ n ≠ k' % w ^ n := by
  by_contra hnot
  obtain ⟨hdigit, hmod⟩ := not_or.mp hnot
  rw [not_not] at hdigit hmod
  have hd : k / w ^ n % w = k' / w ^ n % w := congrArg Fin.val hdigit
  exact h (by rw [mod_pow_succ, mod_pow_succ, hd, hmod])

lemma digit_mod (k : Nat) : digit w n (k % w ^ (n + 1)) = digit w n k := by
  refine Fin.ext ?_
  change k % w ^ (n + 1) / w ^ n % w = k / w ^ n % w
  rw [pow_succ, mod_mul_right_div_self, mod_mod]

lemma Tree.get_congr (h : k % w ^ n = k' % w ^ n) : t.get k = t.get k' := by
  induction t with
  | empty => rfl
  | leaf a => rfl
  | @node n f e ih => ?_
  have hdigit : digit w n k = digit w n k' := by rw [← digit_mod k, h, digit_mod]
  have hmod : k % w ^ n = k' % w ^ n := by
    have hdvd : w ^ n ∣ w ^ (n + 1) := Nat.pow_dvd_pow w (le_succ n)
    rw [← mod_mod_of_dvd k hdvd, h, mod_mod_of_dvd k' hdvd]
  rw [get, get, hdigit]
  exact ih _ hmod

/-! ## Leaves -/

lemma Tree.slot_of_get {a : α} (h : t.get k = some a) : t.slot k = some (some a) := by
  induction t with
  | empty => exact absurd h nofun
  | leaf b => exact congrArg some h
  | node f e ih => exact ih _ h

lemma Tree.get_alter_self (k : Nat) (g : α → Option α) :
    (t.alter k g).get k = (t.get k).bind g := by
  induction t with
  | empty => rfl
  | leaf a =>
    rw [alter]
    cases hg : g a <;> simp [get, hg]
  | node f e ih => simp only [alter, get, update_self, ih]

lemma Tree.get_alter_ne (g : α → Option α) (h : k' % w ^ n ≠ k % w ^ n) :
    (t.alter k g).get k' = t.get k' := by
  induction t with
  | empty => rfl
  | leaf a => exact absurd (by rw [pow_zero, mod_one, mod_one]) h
  | @node n f e ih => ?_
  simp only [alter, get]
  rcases mod_pow_succ_ne h with hdigit | hmod
  · rw [update_of_ne hdigit]
  by_cases hdigit : digit w n k' = digit w n k
  · rw [hdigit, update_self]
    exact ih _ hmod
  · rw [update_of_ne hdigit]

lemma insert_node (k : Nat) (a : α) (n : Nat) (f : τ) (e : Fin w → Tree w τ α n) (free : List τ) :
    insert k a (n + 1) (.node f e) free =
      (.node f (update e (digit w n k) (insert k a n (e (digit w n k)) free).1),
        (insert k a n (e (digit w n k)) free).2) :=
  rfl

lemma insert_occupied_iff (k : Nat) (a : α) (n : Nat) (t : Tree w τ α n) (free : List τ) :
    (insert k a n t free).2.2 = .occupied ↔ (t.get k).isSome := by
  induction n, t, free using insert_induction (digit w · k) with
  | hempty free => simp [Tree.insert, Tree.get]
  | hleaf b free => simp [Tree.insert, Tree.get]
  | hfull n => simp [Tree.insert, Tree.get]
  | hnew n f free ih => exact ih
  | hnode n f e free ih => rwa [insert_node]

lemma get_insert_self (k : Nat) (a : α) (n : Nat) (t : Tree w τ α n) (free : List τ) :
    (insert k a n t free).1.get k =
      if (insert k a n t free).2.2 = .done then some a else t.get k := by
  induction n, t, free using insert_induction (digit w · k) with
  | hempty free => rfl
  | hleaf b free => rfl
  | hfull n => rfl
  | hnew n f free ih => exact ih
  | hnode n f e free ih => rwa [insert_node, Tree.get, update_self]

lemma get_insert_ne (a : α) (n : Nat) (t : Tree w τ α n) (free : List τ)
    (h : k' % w ^ n ≠ k % w ^ n) : (insert k a n t free).1.get k' = t.get k' := by
  induction n, t, free using insert_induction (digit w · k) with
  | hempty free => exact absurd (by rw [pow_zero, mod_one, mod_one]) h
  | hleaf b free => rfl
  | hfull n => rfl
  | hnew n f free ih => exact ih h
  | hnode n f e free ih => ?_
  rw [insert_node, Tree.get, Tree.get]
  by_cases hdigit : digit w n k' = digit w n k
  · rw [hdigit, update_self]
    exact ih ((mod_pow_succ_ne h).resolve_left (not_not.mpr hdigit))
  · rw [update_of_ne hdigit]

/-! ## Tags -/

lemma weight_insert (g : α → Multiset τ) (k : Nat) (a : α) (n : Nat) (t : Tree w τ α n)
    (free : List τ) :
    (insert k a n t free).1.weight g + ((insert k a n t free).2.1 : Multiset τ) =
      t.weight g + (free : Multiset τ) +
        if (insert k a n t free).2.2 = .done then g a else 0 := by
  induction n, t, free using insert_induction (digit w · k) with
  | hempty free => simp [Tree.insert, Tree.weight, add_comm]
  | hleaf b free => simp [Tree.insert, Tree.weight]
  | hfull n => simp [Tree.insert, Tree.weight]
  | hnew n f free ih =>
    refine Eq.trans ih ?_
    have hbare : (node f fun _ : Fin w => (.empty : Tree w τ α n)).weight g = {f} := by
      simp [weight]
    rw [hbare, weight, zero_add, ← cons_coe, ← singleton_add]
    rfl
  | hnode n f e free ih => ?_
  rw [insert_node]
  have hup := weight_update g f e (digit w n k) (insert k a n (e (digit w n k)) free).1
  refine add_right_cancel (b := (e (digit w n k)).weight g) ?_
  rw [add_right_comm, hup, add_assoc, ih]
  abel

lemma weight_alter (g : α → Multiset τ) (k : Nat) (h : α → Option α) :
    (t.alter k h).weight g + (t.get k).elim 0 g = t.weight g + ((t.get k).bind h).elim 0 g := by
  induction t with
  | empty => rfl
  | leaf a =>
    rw [Tree.alter]
    cases hh : h a <;> simp [Tree.get, Tree.weight, hh, add_comm]
  | @node n f e ih => ?_
  have hup := weight_update g f e (digit w n k) ((e (digit w n k)).alter k h)
  refine add_right_cancel (b := (e (digit w n k)).weight g) ?_
  rw [Tree.alter, Tree.get, add_right_comm, hup, add_assoc, ih]
  abel

lemma get_node (f : τ) (e : Fin w → Tree w τ α n) (i : Fin w) (k : Nat) :
    (Tree.node f e).get (k % w ^ n + w ^ n * i) = (e i).get k := by
  have hpos : 0 < w ^ n := Nat.pow_pos (pos_of_neZero w)
  have hdigit : digit w n (k % w ^ n + w ^ n * i) = i := by
    refine Fin.ext ?_
    change (k % w ^ n + w ^ n * i) / w ^ n % w = i
    rw [add_mul_div_left _ _ hpos, div_eq_of_lt (mod_lt k hpos), zero_add, mod_eq_of_lt i.isLt]
  rw [Tree.get, hdigit]
  exact Tree.get_congr (by rw [add_mul_mod_self_left, mod_mod])

lemma weight_of_get_none (g : α → Multiset τ) (h : ∀ k, t.get k = none) : t.weight g = t.tags := by
  rw [coe_tags]
  induction t with
  | empty => rfl
  | leaf a => exact absurd (h 0) (some_ne_none a)
  | node f e ih => ?_
  rw [weight, weight]
  exact congrArg _ (sum_congr rfl fun i _ => ih i fun k => by rw [← get_node, h])

lemma tags_add_le_weight (g : α → Multiset τ) {a : α} (h : t.get k = some a) :
    (t.tags : Multiset τ) + g a ≤ t.weight g := by
  rw [coe_tags]
  induction t with
  | empty => exact absurd h nofun
  | leaf b =>
    obtain rfl := some.inj h
    exact (zero_add (g b)).le
  | @node n f e ih => ?_
  have hrest : ∀ j ∈ Finset.univ.erase (digit w n k), (e j).weight (fun _ => 0) ≤ (e j).weight g :=
    fun j _ => weight_mono (fun a => zero_le (g a)) (e j)
  rw [weight, weight, add_assoc, ← add_sum_erase Finset.univ _ (mem_univ (digit w n k)),
    ← add_sum_erase Finset.univ (fun j => (e j).weight g)
      (Finset.mem_univ (digit w n k)), add_right_comm]
  exact add_le_add_right (add_le_add (ih _ h) (Finset.sum_le_sum hrest)) {f}

/-! ## Running out of tags -/

/-- The nodes missing on the path of a key. -/
def Tree.missing (k : Nat) : {n : Nat} → Tree w τ α n → Nat
  | n, .empty => n
  | _, .leaf _ => 0
  | n + 1, .node _ e => (e (digit w n k)).missing k

lemma free_insert (k : Nat) (a : α) (n : Nat) (t : Tree w τ α n) (free : List τ) :
    (insert k a n t free).2.1 = free.drop (t.missing k) := by
  induction n, t, free using insert_induction (digit w · k) with
  | hempty free => rfl
  | hleaf b free => rfl
  | hfull n => rfl
  | hnew n f free ih => exact ih
  | hnode n f e free ih => exact ih

lemma insert_full_iff (k : Nat) (a : α) (n : Nat) (t : Tree w τ α n) (free : List τ) :
    (insert k a n t free).2.2 = .full ↔ free.length < t.missing k := by
  induction n, t, free using insert_induction (digit w · k) with
  | hempty free => simp [Tree.insert, Tree.missing]
  | hleaf b free => simp [Tree.insert, Tree.missing]
  | hfull n => simp [Tree.insert, Tree.missing]
  | hnew n f free ih =>
    refine Iff.trans ih ?_
    rw [length_cons, missing, missing, missing]
    omega
  | hnode n f e free ih => exact ih

/-! ## Trees filled from the left -/

/-- The keys below `p` are in, and only the nodes they need. -/
def Tree.Dense : {n : Nat} → Tree w τ α n → Nat → Prop
  | _, .empty, p => p = 0
  | _, .leaf _, p => 0 < p
  | n + 1, .node _ e, p => 0 < p ∧ ∀ i : Fin w, (e i).Dense (min (w ^ n) (p - w ^ n * i))

/-- As `Dense`, with the root in place from the start. -/
def Tree.Grown : {n : Nat} → Tree w τ α n → Nat → Prop
  | _, .empty, p => p = 0
  | _, .leaf _, p => 0 < p
  | n + 1, .node _ e, p => ∀ i : Fin w, (e i).Dense (min (w ^ n) (p - w ^ n * i))

omit [NeZero w] in
lemma Tree.Dense.grown {p : Nat} (h : t.Dense p) : t.Grown p := by
  cases t with
  | empty => exact h
  | leaf a => exact h
  | node f e => exact h.2

/-- The part of the keys below `k` that is in subtree `i`. -/
lemma share_digit (k : Nat) :
    min (w ^ n) (k % w ^ (n + 1) - w ^ n * (digit w n k : Nat)) = k % w ^ n := by
  have hlt := mod_lt k (Nat.pow_pos (pos_of_neZero w) : 0 < w ^ n)
  change min (w ^ n) (k % w ^ (n + 1) - w ^ n * (k / w ^ n % w)) = _
  rw [mod_pow_succ, Nat.add_sub_cancel]
  omega

lemma share_succ (k : Nat) (i : Fin w) : min (w ^ n) (k % w ^ (n + 1) + 1 - w ^ n * (i : Nat)) =
      if i = digit w n k then k % w ^ n + 1
      else min (w ^ n) (k % w ^ (n + 1) - w ^ n * (i : Nat)) := by
  have hlt := mod_lt k (Nat.pow_pos (pos_of_neZero w) : 0 < w ^ n)
  have hsplit : k % w ^ (n + 1) = k % w ^ n + w ^ n * (digit w n k : Nat) := mod_pow_succ
  rw [hsplit]
  generalize w ^ n = m at hlt
  split
  · next hi =>
      rw [hi, Nat.add_right_comm, Nat.add_sub_cancel]
      exact Nat.min_eq_right hlt
  next hi =>
    rcases Nat.lt_or_gt_of_ne (Fin.val_ne_of_ne hi) with hbefore | hafter
    · have hle := Nat.mul_le_mul_left m (succ_le_of_lt hbefore)
      rw [mul_succ] at hle
      omega
    have hle := Nat.mul_le_mul_left m (succ_le_of_lt hafter)
    rw [mul_succ] at hle
    omega

lemma Tree.Grown.insert {a : α} (free : List τ) (hgrown : t.Grown (k % w ^ n))
    (hdone : (insert k a n t free).2.2 = .done) :
    (insert k a n t free).1.Dense (k % w ^ n + 1) := by
  induction n, t, free using insert_induction (digit w · k) with
  | hempty free => exact succ_pos _
  | hleaf b free => exact absurd hdone nofun
  | hfull n => exact absurd hdone nofun
  | hnew n f free ih =>
    refine ih (fun i => ?_) hdone
    have hzero : k % w ^ (n + 1) = 0 := hgrown
    change min (w ^ n) (k % w ^ (n + 1) - w ^ n * (i : Nat)) = 0
    rw [hzero, Nat.zero_sub, Nat.min_zero]
  | hnode n f e free ih => ?_
  refine ⟨succ_pos _, fun i => ?_⟩
  have hchild := hgrown (digit w n k)
  rw [share_digit] at hchild
  rw [share_succ]
  split
  · next hi =>
      rw [hi, update_self]
      exact ih hchild.grown hdone
  next hi =>
    rw [update_of_ne hi]
    exact hgrown i

/-- The levels at which a key starts a node. -/
def starts (w k : Nat) : Nat → Nat
  | 0 => 0
  | n + 1 => starts w k n + if w ^ (n + 1) ∣ k then 1 else 0

omit [NeZero w] in
lemma starts_of_dvd : ∀ {n : Nat}, w ^ n ∣ k → starts w k n = n
  | 0, _ => rfl
  | n + 1, h => by rw [starts, if_pos h, starts_of_dvd ((Nat.pow_dvd_pow w (le_succ n)).trans h)]

lemma Tree.Dense.missing (h : t.Dense (k % w ^ n)) : t.missing k = starts w k n := by
  induction t with
  | empty => exact (starts_of_dvd (dvd_of_mod_eq_zero h)).symm
  | leaf a => exact absurd (mod_one k) (ne_of_gt h)
  | @node n f e ih => ?_
  have hchild := h.2 (digit w n k)
  rw [share_digit] at hchild
  rw [Tree.missing, ih _ hchild, starts,
    if_neg fun hdvd => ne_of_gt h.1 (mod_eq_zero_of_dvd hdvd), add_zero]

lemma Tree.Grown.missing {f : τ} {e : Fin w → Tree w τ α n}
    (h : (node f e).Grown (k % w ^ (n + 1))) :
    (node f e).missing k = starts w k n := by
  have hchild := h (digit w n k)
  rw [share_digit] at hchild
  exact hchild.missing

/-- The nodes below the root of a tree filled up to `p`. -/
def nodes (w p : Nat) : Nat → Nat
  | 0 => 0
  | n + 1 => nodes w p n + (p + w ^ (n + 1) - 1) / w ^ (n + 1)

lemma nodes_succ (p : Nat) : ∀ n, nodes w (p + 1) n = nodes w p n + starts w p n
  | 0 => rfl
  | n + 1 => by
    have hpos : 0 < w ^ (n + 1) := Nat.pow_pos (pos_of_neZero w)
    have hdvd : w ^ (n + 1) ∣ p + w ^ (n + 1) - 1 + 1 ↔ w ^ (n + 1) ∣ p := by
      rw [Nat.sub_add_cancel (le_add_left_of_le hpos), Nat.dvd_add_left dvd_rfl]
    have hceil : p + 1 + w ^ (n + 1) - 1 = p + w ^ (n + 1) - 1 + 1 := by omega
    rw [nodes, nodes, starts, nodes_succ p n, hceil, Nat.succ_div]
    simp only [hdvd]
    omega

end Radix
