import Mathlib.Tactic.Common

/-!
# Postconditions for stateful computations

A computation over a state `σ` may stop with an error `ε`. `Leads x s Q`
is partial correctness: whenever `x` returns from `s`, `Q` holds of the
result and of the state it leaves. The rules follow the shape of the
program: one for `pure`, one for `bind`, and one for each way to look at
the state.
-/

namespace Stateful

variable {σ ε α β : Type}

/-- Whenever `x` returns from `s`, `Q` holds of what it leaves. -/
def Leads (x : StateT σ (Except ε) α) (s : σ) (Q : α → σ → Prop) : Prop :=
  ∀ a t, x s = .ok (a, t) → Q a t

variable {s : σ} {Q : α → σ → Prop}

lemma Leads.pure {a : α} (h : Q a s) : Leads (Pure.pure a : StateT σ (Except ε) α) s Q := by
  intro b t hrun
  cases hrun
  exact h

variable {x : StateT σ (Except ε) α}

lemma Leads.mono {P : α → σ → Prop} (h : Leads x s P) (hpq : ∀ a t, P a t → Q a t) : Leads x s Q :=
  fun a t hrun => hpq a t (h a t hrun)

lemma Leads.trivial : Leads x s fun _ _ => True :=
  fun _ _ _ => True.intro

variable {f : α → StateT σ (Except ε) β}

lemma bind_ok {u : σ} {b : β} :
    (x >>= f) s = .ok (b, u) ↔ ∃ a t, x s = .ok (a, t) ∧ f a t = .ok (b, u) := by
  change (x s >>= fun p => f p.1 p.2) = _ ↔ _
  cases hx : x s with
  | error e => exact iff_of_false nofun nofun
  | ok p => exact ⟨fun h => ⟨p.1, p.2, rfl, h⟩, fun ⟨a, t, h, hf⟩ => by cases h; exact hf⟩

lemma bind_of_ok {t : σ} {a : α} (h : x s = .ok (a, t)) : (x >>= f) s = f a t := by
  change (x s >>= fun p => f p.1 p.2) = _
  rw [h]
  rfl

lemma get_bind {f : σ → StateT σ (Except ε) β} : ((get : StateT σ (Except ε) σ) >>= f) s = f s s :=
  rfl

lemma toOption_eq_some {x : Except ε α} {a : α} : x.toOption = some a ↔ x = .ok a := by
  cases x with
  | error e => exact iff_of_false nofun nofun
  | ok b => exact ⟨fun h => congrArg _ (Option.some.inj h), fun h => congrArg Except.toOption h⟩

lemma ok_of_view {β : Type} {x : Except ε (α × σ)} {view : σ → β} {a : α} {b : β}
    (h : x.map (fun p => (p.1, view p.2)) = .ok (a, b)) : ∃ t, x = .ok (a, t) ∧ view t = b := by
  cases x with
  | error e => cases h
  | ok p => ?_
  cases h
  exact ⟨p.2, rfl, rfl⟩

lemma Leads.bind {P : α → σ → Prop} {Q : β → σ → Prop} (hx : Leads x s P)
    (hf : ∀ a t, P a t → Leads (f a) t Q) : Leads (x >>= f) s Q := by
  intro b u hrun
  obtain ⟨a, t, hat, hbu⟩ := bind_ok.mp hrun
  exact hf a t (hx a t hat) b u hbu

lemma Leads.bind_ok {Q : β → σ → Prop} {a : α} {t : σ} (h : x s = .ok (a, t))
    (hf : Leads (f a) t Q) : Leads (x >>= f) s Q := by
  intro b u hrun
  rw [bind_of_ok h] at hrun
  exact hf b u hrun

lemma Leads.modify_bind {g : σ → σ} {f : Unit → StateT σ (Except ε) β} {Q : β → σ → Prop}
    (h : Leads (f ()) (g s) Q) : Leads (MonadState.modifyGet (fun s => ((), g s)) >>= f) s Q :=
  h

lemma Leads.get {f : σ → StateT σ (Except ε) β} {Q : β → σ → Prop} (h : Leads (f s) s Q) :
    Leads (MonadState.get >>= f) s Q :=
  h

lemma Leads.modify {f : σ → σ} {Q : Unit → σ → Prop} (h : Q () (f s)) :
    Leads (modify f : StateT σ (Except ε) Unit) s Q := by
  intro b t hrun
  cases hrun
  exact h

lemma Leads.throw {e : ε} : Leads (throw e : StateT σ (Except ε) α) s Q :=
  fun _ _ hrun => nomatch hrun

end Stateful
