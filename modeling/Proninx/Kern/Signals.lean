import Proninx.Kern.Killed

/-!
# Caught signals

`kill`, `sigcatch` and `sigwait` on one process, in any order. Which
signals are pending is read off what happened so far: those that were
raised after they were last returned.
-/

namespace Proninx.Ptable.Signals

open BitVec List

inductive Act where
  | kill (sig : Nat)
  | sigcatch (mask : BitVec 32)
  /-- One turn of the loop of `signal_take`, under the lock of the table. -/
  | sigwait (block : Bool)
  deriving DecidableEq, Repr

inductive Reply where
  | quiet
  | returned (sig : Nat)
  | failed
  | asleep
  deriving DecidableEq, Repr

/-- The search for the lowest bit: `NSIG` when there is none. -/
def lowest (ready : BitVec 32) : Nat :=
  ((range NSIG).find? fun sig => sig ≠ 0 ∧ ready &&& SIGMASK sig ≠ 0).getD NSIG

def signalTake (x : Proc) (block : Bool) : Reply × Proc :=
  if x.sigPending &&& x.sigCatch ≠ 0 then
    (.returned (lowest (x.sigPending &&& x.sigCatch)), x.take)
  else if !block || x.killed then (.failed, x)
  else (.asleep, { x with state := .sleeping })

def step (x : Proc) : Act → Reply × Proc
  | .kill sig => (.quiet, if NSIG ≤ sig then x else x.raise sig)
  | .sigcatch mask => (.quiet, { x with sigCatch := mask &&& ~~~SIGMASK SIGKILL })
  | .sigwait block => signalTake x block

abbrev Steps (x : Proc) (es : List (Act × Reply)) (y : Proc) : Prop :=
  Runs.Run (fun x e y => step x e.1 = (e.2, y)) x es y

/-- The signal was raised after it was last returned. -/
def raised (sig : Nat) (es : List (Act × Reply)) : Bool :=
  es.foldl (fun r e => e.1 = .kill sig || r && e.2 ≠ .returned sig) false

/-- The last mask that the process asked for. -/
def mask (es : List (Act × Reply)) : BitVec 32 :=
  es.foldl (fun m e => match e.1 with
    | .sigcatch mask => mask
    | _ => m) 0

/-- The signal is pending and caught. -/
structure Ready (es : List (Act × Reply)) (sig : Nat) : Prop where
  pos : 0 < sig
  lt : sig < NSIG
  raised : raised sig es
  caught : (mask es).getLsbD sig
  ne : sig ≠ SIGKILL

structure Holds (es : List (Act × Reply)) (x : Proc) : Prop where
  pending : ∀ sig, x.sigPending.getLsbD sig = (raised sig es && decide (0 < sig ∧ sig < NSIG))
  catches : x.sigCatch = mask es &&& ~~~SIGMASK SIGKILL

variable {es : List (Act × Reply)} {x y : Proc} {sig : Nat}

lemma getLsbD_SIGMASK (sig k : Nat) :
    (SIGMASK sig).getLsbD k = (decide (sig < NSIG) && decide (sig = k)) :=
  getLsbD_twoPow sig k

lemma and_SIGMASK_ne {m : BitVec 32} : m &&& SIGMASK sig ≠ 0 ↔ m.getLsbD sig := by
  change m &&& twoPow 32 sig ≠ 0 ↔ _
  rw [and_twoPow]
  by_cases hbit : m.getLsbD sig
  · rw [if_pos hbit]
    refine iff_of_true (fun hzero => ?_) hbit
    have hself : (twoPow 32 sig).getLsbD sig := by
      rw [getLsbD_twoPow]
      simpa using lt_of_getLsbD hbit
    rw [hzero] at hself
    simp at hself
  · rw [if_neg hbit]
    simp [hbit]

lemma Holds.ready_iff (h : Holds es x) :
    (x.sigPending &&& x.sigCatch).getLsbD sig ↔ Ready es sig := by
  rw [getLsbD_and, h.pending, h.catches, getLsbD_and, getLsbD_not, getLsbD_SIGMASK]
  simp only [Bool.and_eq_true, decide_eq_true_eq, Bool.not_eq_true']
  constructor
  · rintro ⟨⟨hr, h0, hlt⟩, hm, -, hk⟩
    exact ⟨h0, hlt, hr, hm, by rintro rfl; exact absurd hk (by decide)⟩
  rintro ⟨h0, hlt, hr, hm, hk⟩
  exact ⟨⟨hr, h0, hlt⟩, hm, hlt, by simp [hk.symm]⟩

section

variable {r : BitVec 32} (h0 : ¬ r.getLsbD 0 = true) (hne : r ≠ 0)
include h0 hne

lemma find_lowest : (range NSIG).find? (fun k => k ≠ 0 ∧ r &&& SIGMASK k ≠ 0) = some (lowest r) ∧
      r.getLsbD (lowest r) ∧ ∀ k < lowest r, ¬ r.getLsbD k := by
  have hp : ∀ k, (k ≠ 0 ∧ r &&& SIGMASK k ≠ 0) ↔ r.getLsbD k := fun k => by
    rw [and_SIGMASK_ne, and_iff_right_iff_imp]
    rintro hk rfl
    exact h0 hk
  cases hs : (range NSIG).find? fun k => k ≠ 0 ∧ r &&& SIGMASK k ≠ 0 with
  | none =>
    refine absurd (eq_of_getLsbD_eq fun k hk => ?_) hne
    have hnone := find?_eq_none.mp hs k (mem_range.mpr hk)
    rw [decide_eq_true_eq, hp] at hnone
    simpa using hnone
  | some s => ?_
  have hleast := find?_range_eq_some.mp hs
  simp only [hp, decide_eq_true_eq, Bool.not_eq_true', decide_eq_false_iff_not] at hleast
  rw [lowest, hs]
  exact ⟨rfl, hleast.1, hleast.2.2⟩

lemma lowest_iff : lowest r = sig ↔ r.getLsbD sig ∧ ∀ k < sig, ¬ r.getLsbD k := by
  obtain ⟨-, hbit, hbelow⟩ := find_lowest h0 hne
  constructor
  · rintro rfl
    exact ⟨hbit, hbelow⟩
  rintro ⟨hbit', hbelow'⟩
  exact le_antisymm (not_lt.mp fun hlt => hbelow _ hlt hbit')
    (not_lt.mp fun hlt => hbelow' _ hlt hbit)

end

lemma Holds.not_zero (h : Holds es x) : ¬ (x.sigPending &&& x.sigCatch).getLsbD 0 :=
  fun h0 => lt_irrefl _ (h.ready_iff.mp h0).pos

lemma Holds.returned_iff (h : Holds es x) (block : Bool) :
    (signalTake x block).1 = .returned sig ↔ Ready es sig ∧ ∀ k < sig, ¬ Ready es k := by
  simp only [← h.ready_iff]
  unfold signalTake
  by_cases hne : x.sigPending &&& x.sigCatch ≠ 0
  · rw [if_pos hne, Reply.returned.injEq]
    exact lowest_iff h.not_zero hne
  rw [if_neg hne, not_not.mp hne]
  split <;> simp

lemma raised_append (e : Act × Reply) :
    raised sig (es ++ [e]) = (e.1 = .kill sig || raised sig es && e.2 ≠ .returned sig) := by
  rw [raised, foldl_append]
  rfl

lemma mask_append (e : Act × Reply) : mask (es ++ [e]) = match e.1 with
    | .sigcatch mask => mask
    | _ => mask es := by
  rw [mask, foldl_append]
  rfl

lemma raise_pending (x : Proc) {k : Nat} (hk : k < NSIG) : (x.raise k).sigPending.getLsbD sig
      = (x.sigPending.getLsbD sig || decide (k = sig ∧ 0 < sig)) := by
  unfold Proc.raise
  by_cases h0 : k = 0
  · simp [h0]
    omega
  by_cases hks : k = sig
  · subst hks
    simp [h0, getLsbD_SIGMASK, hk, Nat.pos_of_ne_zero h0]
  · simp [h0, getLsbD_SIGMASK, hks]

lemma Holds.step (h : Holds es x) {e : Act × Reply} (hstep : step x e.1 = (e.2, y)) :
    Holds (es ++ [e]) y := by
  obtain ⟨act, reply⟩ := e
  cases act with
  | kill k =>
    obtain ⟨rfl, rfl⟩ := Prod.mk.inj hstep
    refine ⟨fun sig => ?_, by rw [mask_append]; split <;> exact h.catches⟩
    rw [raised_append]
    by_cases hks : k = sig
    · subst hks
      by_cases hk : NSIG ≤ k
      · simp [hk, h.pending]
      · simp [hk, raise_pending x (not_le.mp hk), h.pending, not_le.mp hk]
    · split
      · simp [hks, h.pending]
      · next hk => simp [hks, raise_pending x (not_le.mp hk), h.pending]
  | sigcatch m =>
    obtain ⟨rfl, rfl⟩ := Prod.mk.inj hstep
    refine ⟨fun sig => ?_, by rw [mask_append]⟩
    rw [raised_append]
    simpa using h.pending sig
  | sigwait block => ?_
  simp only [Signals.step, signalTake] at hstep
  split at hstep
  · next hne =>
    obtain ⟨rfl, rfl⟩ := Prod.mk.inj hstep
    rw [Proc.take, (find_lowest h.not_zero hne).1]
    refine ⟨fun sig => ?_, by rw [mask_append]; exact h.catches⟩
    rw [raised_append]
    have hlt : lowest (x.sigPending &&& x.sigCatch) < NSIG :=
      lt_of_getLsbD (find_lowest h.not_zero hne).2.1
    by_cases hs : lowest (x.sigPending &&& x.sigCatch) = sig
    · simp [hs, getLsbD_SIGMASK]
      omega
    simp only [hs, getLsbD_and, getLsbD_not, getLsbD_SIGMASK, h.pending]
    simp [hs]
    exact fun _ _ hsig => hsig
  · have hsame : y.sigPending = x.sigPending ∧ y.sigCatch = x.sigCatch ∧
        ∀ sig, reply ≠ .returned sig := by
      split at hstep <;> obtain ⟨rfl, rfl⟩ := Prod.mk.inj hstep <;> simp
    refine ⟨fun sig => ?_, by rw [mask_append, hsame.2.1]; exact h.catches⟩
    rw [raised_append, hsame.1, h.pending]
    simp [hsame.2.2]

theorem signals_delivered {x₀ : Proc} (hpending : x₀.sigPending = 0) (hcatch : x₀.sigCatch = 0)
    (h : Steps x₀ es x) :
    (∀ block sig, (signalTake x block).1 = .returned sig ↔ Ready es sig ∧ ∀ k < sig, ¬ Ready es k) ∧
    ∀ a, (step x a).2.killed → x.killed ∨
      ∃ sig, a = .kill sig ∧ (sig = SIGKILL ∨ ¬ (mask es).getLsbD sig) := by
  have hholds : Holds es x := h.history
    ⟨fun sig => by rw [hpending]; simp [raised], by rw [hcatch]; rfl⟩
    fun as u e t _ hu hstep => hu.step hstep
  refine ⟨fun block sig => hholds.returned_iff block, fun a hkilled => ?_⟩
  cases a with
  | kill sig =>
    rw [or_iff_not_imp_left]
    intro halive
    refine ⟨sig, rfl, ?_⟩
    by_contra! hnot
    have hbit : x.sigCatch.getLsbD sig = true := by
      rw [hholds.catches, getLsbD_and, hnot.2, getLsbD_not, getLsbD_SIGMASK]
      simpa [hnot.1.symm] using lt_of_getLsbD hnot.2
    have hcaught := and_SIGMASK_ne.mpr hbit
    rw [BitVec.and_comm] at hcaught
    have hraise : (x.raise sig).killed = x.killed :=
      if_neg fun hor => hor.elim hnot.1 fun hk => hcaught hk.2.1
    simp only [Signals.step] at hkilled
    split at hkilled
    · exact halive hkilled
    · exact halive (hraise ▸ hkilled)
  | sigcatch m => exact .inl hkilled
  | sigwait block =>
    refine .inl ?_
    simp only [Signals.step, signalTake] at hkilled
    split at hkilled
    · exact take_killed x ▸ hkilled
    · split at hkilled <;> exact hkilled

theorem signals_delivered_interrupt :
    ∃ x, Steps emptyProc [(.sigcatch 4, .quiet), (.kill 2, .quiet)] x ∧
      (signalTake x true).1 = .returned 2 :=
  have hrun : Steps emptyProc [(.sigcatch 4, .quiet), (.kill 2, .quiet)] _ :=
    .cons rfl (.cons rfl .nil)
  ⟨_, hrun, ((signals_delivered rfl rfl hrun).1 true 2).mpr
    ⟨⟨by decide, by decide, by decide, by decide, by decide⟩, fun k hk hready => by
      obtain rfl : k = 1 := Nat.le_antisymm (Nat.le_of_lt_succ hk) hready.pos
      exact absurd hready.raised (by decide)⟩⟩

end Proninx.Ptable.Signals
