import Proninx.Kern.Proc
import Proninx.Lib.Runs

/-!
# Sleep locks

`acquiresleep`, `releasesleep` and `holdingsleep` (`sleeplock.c`) with
`sleep`, `wakeup`, `yield`, `kill` and the scheduler (`proc.c`) under them,
for any number of processors and of processes that use one sleep lock. A
step ends where a spin lock is given up, or before one is taken, so that
others come in between wherever the spin locks let them.
-/

namespace Proninx.Sleeplock

open Function Runs
open Ptable (ProcState)

/-- Where a process is in `acquiresleep` and `releasesleep`. -/
inductive Pc where
  | idle
  /-- In `sleep`, with `lk` and still without `ptable.lock`. -/
  | sleep
  /-- In `sleep`, with `ptable.lock`, and `lk` is given up. -/
  | doze
  /-- Between the two calls. -/
  | owner
  | wakeup
  | woke
  deriving DecidableEq

/-- `sleeping` is on this lock: a process that waits for something else is
like one that the scheduler does not pick. -/
structure State (P : Type) where
  /-- Who has the spin lock `lk` of the sleep lock. -/
  lk : Option P
  ptable : Option P
  state : P → ProcState
  pc : P → Pc
  locked : Bool
  pid : Option P

variable {P : Type}

/-- `acquire` spins while somebody has the lock. -/
def acquire (lock : Option P) (t : State P) : Option (State P) :=
  if lock = none then some t else none

namespace State

variable [DecidableEq P] (s : State P) (p : P)

def goto (pc : Pc) : State P := { s with pc := update s.pc p pc }

def switch (st : ProcState) : State P := { s with state := update s.state p st }

def wakeup1 : State P :=
  { s with state := fun q => if s.state q = .sleeping then .runnable else s.state q }

end State

/-- What `p` does next, with a timer interrupt or without one. While it
sleeps `kill` may wake it, and while it is runnable it may be picked. -/
def step [DecidableEq P] (s : State P) : P × Bool → Option (State P)
  | (p, tick) =>
    match s.state p, s.pc p, tick with
    | .sleeping, _, _ => acquire s.ptable (s.switch p .runnable)
    | .runnable, _, _ => acquire s.ptable (s.switch p .running)
    | .running, .idle, true | .running, .owner, true => acquire s.ptable (s.switch p .runnable)
    | .running, .idle, false =>
      acquire s.lk (if s.locked then { s.goto p .sleep with lk := some p }
        else { s.goto p .owner with locked := true, pid := some p })
    -- `ptable.lock` is taken before `lk` is given up, so no wakeup comes in between
    | .running, .sleep, _ => acquire s.ptable { s.goto p .doze with lk := none, ptable := some p }
    | .running, .doze, _ => some { (s.switch p .sleeping).goto p .idle with ptable := none }
    | .running, .owner, false =>
      acquire s.lk { s.goto p .wakeup with lk := some p, locked := false, pid := none }
    | .running, .wakeup, _ => acquire s.ptable (s.wakeup1.goto p .woke)
    | .running, .woke, _ => some { s.goto p .idle with lk := none }
    | _, _, _ => none

def holdingsleep [DecidableEq P] (s : State P) (p : P) : Bool := s.locked && s.pid == some p

def boot : State P := ⟨none, none, fun _ => .runnable, fun _ => .idle, false, none⟩

structure Inv (s : State P) : Prop where
  lk p : s.lk = some p ↔ s.pc p = .sleep ∨ s.pc p = .wakeup ∨ s.pc p = .woke
  ptable p : s.ptable = some p ↔ s.pc p = .doze
  state p : s.state p = .running ∨ s.state p = .runnable ∧ (s.pc p = .idle ∨ s.pc p = .owner) ∨
    s.state p = .sleeping ∧ s.pc p = .idle
  owner p : s.pc p = .owner ↔ s.pid = some p
  locked : s.locked ↔ s.pid ≠ none
  waits p : s.pc p = .sleep → s.locked
  /-- Who sleeps or is about to has somebody to wake it. -/
  dozes p : s.pc p = .doze ∨ s.state p = .sleeping → s.locked ∨ ∃ q, s.pc q = .wakeup

variable [DecidableEq P] {s t : State P} {p : P}

lemma step_inv {a : P × Bool} (h : Inv s) (ht : step s a = some t) : Inv t := by
  obtain ⟨p, tick⟩ := a
  obtain ⟨h1, h2, h3, h4, h5, h6, h7⟩ := h
  unfold step at ht
  dsimp only at ht
  split at ht
  all_goals
    simp only [acquire, Option.ite_none_right_eq_some, Option.some.injEq, reduceCtorEq] at ht
  all_goals
    first
    | subst ht
    | obtain ⟨hfree, rfl⟩ := ht
  case' h_5 => split
  -- one goal for each field after each step
  all_goals
    constructor <;> simp only [State.goto, State.switch, State.wakeup1, update_apply] <;> grind

/-- The order of the spin locks is `lk`, `ptable.lock`. -/
lemma Inv.goes_on (h : Inv s) (hp : s.state p ≠ .sleeping) :
    ∃ q, (q = p ∨ s.lk = some q ∨ s.ptable = some q) ∧ step s (q, false) ≠ none := by
  obtain ⟨h1, h2, h3, -, -, -, -⟩ := h
  cases hpt : s.ptable with
  | some q => exact ⟨q, by grind [step]⟩
  | none =>
    cases hlk : s.lk with
    | some q => exact ⟨q, by grind [step, acquire]⟩
    | none =>
      refine ⟨p, .inl rfl, ?_⟩
      cases hpc : s.pc p <;> grind [step, acquire]

lemma Inv.pid_step (h : Inv s) {tick : Bool} (ht : step s (p, tick) = some t) :
    t.pid = s.pid ∨ s.pid = none ∧ t.pid = some p ∨ s.pid = some p ∧ t.pid = none := by
  obtain ⟨-, -, -, h4, h5, -, -⟩ := h
  unfold step at ht
  dsimp only at ht
  split at ht <;> grind [acquire, State.goto, State.switch, State.wakeup1]

/-- At most one process has the sleep lock, `holdingsleep` knows which, and
the lock is taken and given back like an atomic one. No wakeup is lost: a
process that sleeps waits for one that does not, and has the lock or is
about to wake it. The spin locks never deadlock: any other process can go
on, or one that has a spin lock can. -/
theorem sleeplock_run {as : List (P × Bool)} (h : Run (fun s a t => step s a = some t) boot as s) :
    (∀ p q, s.pc p = .owner → s.pc q = .owner → p = q) ∧
      (∀ p, holdingsleep s p ↔ s.pc p = .owner) ∧
      (∀ p tick t, step s (p, tick) = some t →
        t.pid = s.pid ∨ s.pid = none ∧ t.pid = some p ∨ s.pid = some p ∧ t.pid = none) ∧
      (∀ p, s.state p = .sleeping →
        ∃ q, s.state q ≠ .sleeping ∧ (s.pc q = .owner ∨ s.pc q = .wakeup)) ∧
      (∀ p, s.state p ≠ .sleeping →
        ∃ q, (q = p ∨ s.lk = some q ∨ s.ptable = some q) ∧ step s (q, false) ≠ none) := by
  have hinv : Inv s := by
    refine h.invariant ?_ fun _ _ _ h ht => step_inv h ht
    constructor <;> simp [boot]
  refine ⟨fun p q hp hq => ?_, fun p => ?_, fun p tick t => hinv.pid_step, fun p hp => ?_,
    fun p => hinv.goes_on⟩
  · exact Option.some.inj (((hinv.owner p).mp hp).symm.trans ((hinv.owner q).mp hq))
  · have := hinv.locked
    rw [hinv.owner p]
    grind [holdingsleep]
  · have hawake : ∀ q, s.pc q ≠ .idle → s.state q ≠ .sleeping := by grind [hinv.state]
    have hq : ∃ q, s.pc q = .owner ∨ s.pc q = .wakeup := by
      rcases hinv.dozes p (.inr hp) with hlocked | ⟨q, hq⟩
      · obtain ⟨q, hq⟩ := Option.ne_none_iff_exists'.mp (hinv.locked.mp hlocked)
        exact ⟨q, .inl ((hinv.owner q).mpr hq)⟩
      · exact ⟨q, .inr hq⟩
    grind

/-- `false` takes the lock, and `true` goes to sleep. -/
def contention : List (Bool × Bool) :=
  [(false, false), (false, false)] ++ List.replicate 4 (true, false)

theorem sleeplock_run_two : ∃ s, follow step boot contention = some s ∧
    ∃ q, s.state q ≠ .sleeping ∧ (s.pc q = .owner ∨ s.pc q = .wakeup) := by
  have hs : follow step boot contention = some _ := rfl
  exact ⟨_, hs, (sleeplock_run (run_of_follow hs)).2.2.2.1 true rfl⟩

end Proninx.Sleeplock
