import Mathlib.Data.Nat.ModEq

/-!
# Rings with a phase bit

A producer writes its entries round and round into `n` cells and marks
each with the phase of the lap, which changes from lap to lap. A consumer
that counts laps in the same way sees from the phase of the next cell
whether the entry is there, with no word from the producer. `Shows` says
what the cells hold after the entries `posted`.
-/

namespace PhaseRing

open Function List Nat

variable {α : Type}

/-- The phase of the lap of entry `i`; the first lap has phase `true`. -/
def lap (n i : Nat) : Bool := i / n % 2 = 0

/-- The last `n` entries are in their cells, and the cells of the next `n`
have the phase of the lap before. -/
structure Shows (n : Nat) (phase : α → Bool) (cells : Nat → α) (posted : List α) : Prop where
  old : ∀ i v, posted[i]? = some v → posted.length ≤ i + n → cells (i % n) = v ∧ phase v = lap n i
  new : ∀ i, posted.length ≤ i → i < posted.length + n → phase (cells (i % n)) ≠ lap n i

variable {n : Nat} {phase : α → Bool} {cells : Nat → α} {posted : List α}

lemma turn (k : Nat) : decide ((k + 1) % 2 = 0) = !decide (k % 2 = 0) := by
  rcases mod_two_eq_zero_or_one k with h | h
  · rw [h, decide_eq_false (show (k + 1) % 2 ≠ 0 by omega)]
    rfl
  rw [h, decide_eq_true (show (k + 1) % 2 = 0 by omega)]
  rfl

lemma lap_add (hn : 0 < n) (i : Nat) : lap n (i + n) = !lap n i := by
  rw [lap, add_div_right i hn]
  exact turn (i / n)

lemma lap_succ (i : Nat) : lap n (i + 1) = if (i + 1) % n = 0 then !lap n i else lap n i := by
  rw [lap, Nat.succ_div]
  by_cases h : n ∣ i + 1
  · rw [if_pos h, if_pos (dvd_iff_mod_eq_zero.mp h)]
    exact turn (i / n)
  rw [if_neg h, if_neg fun hmod => h (dvd_of_mod_eq_zero hmod)]
  rfl

lemma mod_ne {i j : Nat} (hlt : i < j) (hn : j < i + n) : i % n ≠ j % n := by
  intro heq
  have hdvd : n ∣ j - i := (modEq_iff_dvd' hlt.le).mp heq
  exact absurd (le_of_dvd (by omega) hdvd) (by omega)

lemma shows_nil (h : ∀ i, phase (cells i) = false) : Shows n phase cells [] where
  old := fun i v hv => nomatch hv
  new := fun i _ hi => by
    rw [h, lap, div_eq_of_lt (by simpa using hi)]
    decide

lemma Shows.post (h : Shows n phase cells posted) (hn : 0 < n) {v : α}
    (hv : phase v = lap n posted.length) :
    Shows n phase (update cells (posted.length % n) v) (posted ++ [v]) := by
  have hlen : (posted ++ [v]).length = posted.length + 1 := length_append
  constructor
  · intro i w hw hi
    rcases lt_or_ge i posted.length with hlt | hge
    · rw [List.getElem?_append_left hlt] at hw
      rw [update_of_ne (mod_ne hlt (by omega))]
      exact h.old i w hw (by omega)
    obtain rfl : i = posted.length := by
      have := (List.getElem?_eq_some_iff.mp hw).1
      omega
    obtain rfl : v = w := by simpa using hw
    exact ⟨update_self .., hv⟩
  · intro i hi hlt
    rw [hlen] at hi hlt
    rcases (show i ≤ posted.length + n by omega).lt_or_eq with hlt | rfl
    · rw [update_of_ne (mod_ne (by omega) hlt).symm]
      exact h.new i (by omega) (by omega)
    rw [add_mod_right, update_self, hv, lap_add hn]
    cases lap n posted.length <;> decide

/-- A consumer that has taken the first `i` entries, and is not a lap
behind, sees the right phase exactly when there is another one. -/
lemma Shows.ready_iff (h : Shows n phase cells posted) (hn : 0 < n) {i : Nat}
    (hi : i ≤ posted.length) (hlap : posted.length ≤ i + n) :
    phase (cells (i % n)) = lap n i ↔ i < posted.length := by
  rcases hi.lt_or_eq with hlt | rfl
  · obtain ⟨hcell, hphase⟩ := h.old i _ (List.getElem?_eq_getElem hlt) hlap
    rw [hcell]
    exact ⟨fun _ => hlt, fun _ => hphase⟩
  · exact ⟨fun heq => absurd heq (h.new _ le_rfl (by omega)), fun hlt => absurd hlt (lt_irrefl _)⟩

end PhaseRing
