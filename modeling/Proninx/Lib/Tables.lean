import Mathlib.Data.List.Sort

/-!
# Sorting and merging a table in place

An insertion sort keeps the sorted part of the table from its end, where
its inner loop begins. A merge goes through the table with the last entry
that it wrote, and adds the next entry to that one if `join` allows it.
-/

namespace Tables

open List

variable {α : Type}

section

variable {β : Type} [LE β] [DecidableLE β] (f : α → β)

/-- Sort by the values of `f`. -/
def sort (t : List α) : List α :=
  (t.foldl (fun done x => done.orderedInsert (fun x y => f y ≤ f x) x) []).reverse

lemma sort_eq (t : List α) :
    sort f t = (t.reverse.insertionSort fun x y => f y ≤ f x).reverse := by
  rw [sort, foldl_eq_foldr_reverse]
  rfl

lemma sort_perm (t : List α) : sort f t ~ t := by
  rw [sort_eq]
  exact (reverse_perm _).trans ((perm_insertionSort _ _).trans (reverse_perm t))

lemma sort_pairwise (htotal : ∀ a b : β, a ≤ b ∨ b ≤ a)
    (htrans : ∀ {a b c : β}, a ≤ b → b ≤ c → a ≤ c) (t : List α) :
    (sort f t).Pairwise fun x y => f x ≤ f y := by
  have : Std.Total fun x y => f y ≤ f x := ⟨fun _ _ => htotal ..⟩
  have : IsTrans α fun x y => f y ≤ f x := ⟨fun _ _ _ h h' => htrans h' h⟩
  rw [sort_eq, pairwise_reverse]
  exact pairwise_insertionSort _ _

end

variable (join : α → α → Option α)

/-- The loop with `l` as the last entry that was written. -/
def mergeFrom (l : α) : List α → List α
  | [] => [l]
  | x :: t => (join l x).elim (l :: mergeFrom x t) fun m => mergeFrom m t

def merge : List α → List α
  | [] => []
  | x :: t => mergeFrom join x t

/-- Joining two entries of a table in which `R` holds between earlier and
later ones keeps what they cover, and `R`. -/
structure Joins {κ : Type} (R : α → α → Prop) (cov : α → κ → Prop) : Prop where
  cov {l x m k} : R l x → join l x = some m → (cov m k ↔ cov l k ∨ cov x k)
  before {l x m t} : R l x → join l x = some m → R t l → R t x → R t m
  behind {l x m t} : R l x → join l x = some m → R l t → R x t → R m t

variable {join} {κ : Type} {R : α → α → Prop} {cov : α → κ → Prop}

lemma Joins.mergeFrom_spec (h : Joins join R cov) {t : List α} : ∀ {l : α}, (l :: t).Pairwise R →
    (mergeFrom join l t).Pairwise R ∧
      (∀ q, (∀ x ∈ l :: t, R q x) → ∀ x ∈ mergeFrom join l t, R q x) ∧
      ∀ k, (∃ x ∈ mergeFrom join l t, cov x k) ↔ ∃ x ∈ l :: t, cov x k := by
  induction t with
  | nil => exact fun _ => ⟨pairwise_singleton .., fun _ => id, fun _ => .rfl⟩
  | cons x t ih => ?_
  intro l hp
  obtain ⟨hl, hxt⟩ := pairwise_cons.mp hp
  obtain ⟨hlx, hl⟩ := forall_mem_cons.mp hl
  obtain ⟨hx, ht⟩ := pairwise_cons.mp hxt
  rw [mergeFrom]
  cases hj : join l x with
  | none =>
    obtain ⟨hpair, hall, hcov⟩ := ih hxt
    refine ⟨pairwise_cons.mpr ⟨hall l (forall_mem_cons.mpr ⟨hlx, hl⟩), hpair⟩, fun q hq => ?_,
      fun k => ?_⟩
    · obtain ⟨hql, hq⟩ := forall_mem_cons.mp hq
      exact forall_mem_cons.mpr ⟨hql, hall q hq⟩
    · rw [Option.elim_none, exists_mem_cons_iff, hcov, exists_mem_cons_iff _ l]
  | some m =>
    obtain ⟨hpair, hall, hcov⟩ := ih (pairwise_cons.mpr
      ⟨fun y hy => h.behind hlx hj (hl y hy) (hx y hy), ht⟩)
    refine ⟨hpair, fun q hq => ?_, fun k => (hcov k).trans ?_⟩
    · obtain ⟨hql, hq⟩ := forall_mem_cons.mp hq
      obtain ⟨hqx, hq⟩ := forall_mem_cons.mp hq
      exact hall q (forall_mem_cons.mpr ⟨h.before hlx hj hql hqx, hq⟩)
    · simp only [exists_mem_cons_iff]
      rw [h.cov hlx hj, or_assoc]

/-- Merging keeps what the table covers. -/
lemma Joins.merge_spec (h : Joins join R cov) {t : List α} (hp : t.Pairwise R) :
    (merge join t).Pairwise R ∧ ∀ k, (∃ x ∈ merge join t, cov x k) ↔ ∃ x ∈ t, cov x k := by
  cases t with
  | nil => exact ⟨.nil, fun _ => .rfl⟩
  | cons x t =>
    obtain ⟨hpair, -, hcov⟩ := h.mergeFrom_spec hp
    exact ⟨hpair, hcov⟩

end Tables
