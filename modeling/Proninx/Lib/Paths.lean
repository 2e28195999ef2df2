import Mathlib.Tactic.Common

/-!
# Path strings and their components

A path is a list of symbols with a separator. Its components are the
stretches between separators, and empty ones do not count, so leading,
trailing and repeated separators mean nothing. `nextComponent` takes one
component off the front, the way a name lookup consumes a path.
-/

namespace Paths

open List

variable {α : Type} [DecidableEq α] (sep : α)

def components (path : List α) : List (List α) :=
  (path.splitOnP (· == sep)).filter (· ≠ [])

/-- The first component, and what comes after it and its separators. -/
def nextComponent (path : List α) : Option (List α × List α) :=
  match path.dropWhile (· == sep) with
  | [] => none
  | p :: ps => some ((p :: ps).takeWhile (· != sep),
      ((p :: ps).dropWhile (· != sep)).dropWhile (· == sep))

variable {sep}

lemma components_nil : components sep ([] : List α) = [] := rfl

lemma components_sep (path : List α) : components sep (sep :: path) = components sep path := by
  unfold components
  rw [splitOnP_cons_eq_if_modifyHead, if_pos (beq_self_eq_true sep)]
  exact filter_cons_of_neg (by simp)

lemma components_dropWhile (path : List α) :
    components sep (path.dropWhile (· == sep)) = components sep path := by
  induction path with
  | nil => rfl
  | cons p ps ih => ?_
  rw [dropWhile_cons]
  split
  · next hp =>
    rw [ih, beq_iff_eq.mp hp, components_sep]
  · rfl

lemma components_append {name rest : List α} (hname : ∀ a ∈ name, a ≠ sep) (hne : name ≠ [])
    (hrest : rest = [] ∨ ∃ tl, rest = sep :: tl) :
    components sep (name ++ rest) = name :: components sep rest := by
  have hno : ∀ a ∈ name, (a == sep) = false := fun a ha => beq_false_of_ne (hname a ha)
  obtain rfl | ⟨tl, rfl⟩ := hrest
  · unfold components
    rw [append_nil, splitOnP_eq_singleton hno]
    exact filter_cons_of_pos (by simpa using hne)
  rw [components_sep]
  unfold components
  rw [splitOnP_append_cons_of_forall_mem hno sep (beq_self_eq_true sep)]
  exact filter_cons_of_pos (by simpa using hne)

lemma components_of_none {path : List α} (h : nextComponent sep path = none) :
    components sep path = [] := by
  unfold nextComponent at h
  rw [← components_dropWhile]
  split at h
  · next hnil => rw [hnil, components_nil]
  · cases h

omit [DecidableEq α] in
lemma dropWhile_eq_nil_or {p : α → Bool} (l : List α) :
    l.dropWhile p = [] ∨ ∃ a tl, l.dropWhile p = a :: tl ∧ p a = false := by
  induction l with
  | nil => exact .inl rfl
  | cons a l ih => ?_
  rw [dropWhile_cons]
  split
  · exact ih
  · next h => exact .inr ⟨a, l, rfl, by simpa using h⟩

lemma takeWhile_plain (l : List α) : ∀ a ∈ l.takeWhile (· != sep), a ≠ sep := fun a ha => by
  simpa using all_eq_true.mp all_takeWhile a ha

lemma components_cons {a : α} (ha : a ≠ sep) (tl : List α) :
    (a :: tl).takeWhile (· != sep) ≠ [] ∧ components sep (a :: tl)
      = (a :: tl).takeWhile (· != sep) :: components sep ((a :: tl).dropWhile (· != sep)) := by
  have hne : (a :: tl).takeWhile (· != sep) ≠ [] := by
    rw [takeWhile_cons_of_pos (by simpa using ha)]
    exact nofun
  refine ⟨hne, ?_⟩
  rw [← components_append (takeWhile_plain _) hne, takeWhile_append_dropWhile]
  rcases dropWhile_eq_nil_or (p := (· != sep)) (a :: tl) with hnil | ⟨b, bs, heq, hb⟩
  · exact .inl hnil
  obtain rfl : b = sep := by simpa using hb
  exact .inr ⟨bs, heq⟩

/-- What `nextComponent` takes off a path. -/
structure Next (sep : α) (path name rest : List α) : Prop where
  split : components sep path = name :: components sep rest
  plain : ∀ a ∈ name, a ≠ sep
  shorter : rest.length < path.length
  last : components sep rest = [] → rest = []

lemma nextComponent_some {path name rest : List α}
    (h : nextComponent sep path = some (name, rest)) : Next sep path name rest := by
  unfold nextComponent at h
  rcases dropWhile_eq_nil_or (p := (· == sep)) path with hnil | ⟨p, ps, hdrop, hp⟩
  · rw [hnil] at h
    cases h
  rw [hdrop] at h
  cases h
  obtain ⟨hne, hsplit⟩ := components_cons (ne_of_beq_false hp) ps
  refine ⟨?_, takeWhile_plain _, ?_, fun hnil => ?_⟩
  · rw [← components_dropWhile path, hdrop, components_dropWhile, hsplit]
  · have h1 := (dropWhile_sublist (· == sep) (l := path)).length_le
    have h2 := (dropWhile_sublist (· == sep) (l := (p :: ps).dropWhile (· != sep))).length_le
    have h3 := congrArg List.length (takeWhile_append_dropWhile (p := (· != sep)) (l := p :: ps))
    have h4 := length_pos_iff.mpr hne
    rw [length_append] at h3
    rw [hdrop] at h1
    omega
  · rcases dropWhile_eq_nil_or (p := (· == sep)) ((p :: ps).dropWhile (· != sep)) with
      h0 | ⟨a, tl, h1, ha⟩
    · exact h0
    rw [h1, (components_cons (ne_of_beq_false ha) tl).2] at hnil
    cases hnil

end Paths
