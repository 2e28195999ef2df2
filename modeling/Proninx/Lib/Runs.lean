import Mathlib.Tactic.Common

/-!
# Runs of a labelled transition relation

`Run R s as t`: the labels `as`, taken in order, lead from `s` to `t`.
A partial step function is the relation `fun s a t => step s a = some t`,
and a side condition on the steps is a conjunct of the relation, so one
invariant rule serves total machines, partial machines and runs whose
steps all meet some condition.
-/

namespace Runs

variable {σ α : Type}

inductive Run (R : σ → α → σ → Prop) : σ → List α → σ → Prop where
  | nil {s : σ} : Run R s [] s
  | cons {s t u : σ} {a : α} {as : List α} (h : R s a t) (hs : Run R t as u) :
      Run R s (a :: as) u

variable {R : σ → α → σ → Prop} {s : σ} {as : List α}

/-- What holds at the start and is kept by every step holds at the end. -/
@[elab_as_elim]
lemma Run.invariant {I : σ → Prop} {t : σ} (h : Run R s as t) (hs : I s)
    (hstep : ∀ s a t, I s → R s a t → I t) : I t := by
  induction h with
  | nil => exact hs
  | cons hr _ ih => exact ih (hstep _ _ _ hs hr)

lemma Run.mono {R' : σ → α → σ → Prop} {t : σ} (h : Run R s as t)
    (hmono : ∀ s a t, R s a t → R' s a t) : Run R' s as t := by
  induction h with
  | nil => exact .nil
  | cons hr _ ih => exact .cons (hmono _ _ _ hr) ih

lemma Run.append_inv {u : σ} {bs : List α} (h : Run R s (as ++ bs) u) :
    ∃ t, Run R s as t ∧ Run R t bs u := by
  induction as generalizing s with
  | nil => exact ⟨s, .nil, h⟩
  | cons a as ih => ?_
  cases h with
  | cons hr h =>
    obtain ⟨t, has, hbs⟩ := ih h
    exact ⟨t, .cons hr has, hbs⟩

lemma Run.append {t u : σ} {bs : List α} (h : Run R s as t) (h' : Run R t bs u) :
    Run R s (as ++ bs) u := by
  induction h with
  | nil => exact h'
  | cons hr _ ih => exact .cons hr (ih h')

/-- What holds of the empty run and of a run with one more step holds of
every run: an invariant that speaks about the steps taken so far. -/
@[elab_as_elim]
lemma Run.history {P : List α → σ → Prop} {t : σ} (h : Run R s as t) (hnil : P [] s)
    (hstep : ∀ as u a t, Run R s as u → P as u → R u a t → P (as ++ [a]) t) : P as t := by
  suffices hsuff : ∀ {bs u}, Run R s bs u → P bs u → ∀ {as t}, Run R u as t → P (bs ++ as) t from
    hsuff .nil hnil h
  intro bs u hbs hP as t hrun
  induction hrun generalizing bs with
  | nil => simpa using hP
  | cons hr _ ih => ?_
  rw [List.append_cons]
  exact ih (hbs.append (.cons hr .nil)) (hstep _ _ _ _ hbs hP hr)

/-- Follow a partial step function along a list of labels. -/
def follow (step : σ → α → Option σ) (s : σ) : List α → Option σ
  | [] => some s
  | a :: as => (step s a).bind fun t => follow step t as

lemma run_of_follow {step : σ → α → Option σ} : ∀ {s t : σ},
    follow step s as = some t → Run (fun s a t => step s a = some t) s as t := by
  induction as with
  | nil => intro s t h; cases h; exact .nil
  | cons a as ih => ?_
  intro s t h
  obtain ⟨u, hu, ht⟩ := Option.bind_eq_some_iff.mp h
  exact .cons hu (ih ht)

end Runs
