import Proninx.Kern.Lineage
import Proninx.Lib.Ledger

/-!
# Waiting for processes

The process table of `Kern.Proc` with what `waitpid` and `fork` do besides
changing it: the results of `waitpid`, and the kernel stack and the page
table of every process. Pages are numbered in the order they are taken and
`freed` counts how often each went back. `waitpid` sleeps in a loop around
its scan of the table, so a call that sleeps is several steps.
-/

namespace Proninx.Ptable

open Function List Option Proc Runs State

structure World where
  table : State
  kstack : Slot → Option Nat
  pgdir : Slot → Option Nat
  /-- Pages taken so far. -/
  pages : Nat
  freed : Nat → Nat

/-- How far the memory goes in `fork`. -/
inductive Memory where
  | noStack
  | noCopy
  | enough
  deriving DecidableEq, Repr

inductive Move where
  /-- A step that is neither of the following two. -/
  | act (a : Act)
  | forkCopy (p : Slot) (m : Memory)
  | waitpid (p : Slot) (target : Int) (nohang : Bool)
  deriving DecidableEq, Repr

/-- What `waitpid` tells its caller. -/
inductive Reply where
  | quiet
  | child (pid : Int)
  /-- `-1` because of the argument. -/
  | badTarget
  /-- `-1` because `havekids` is 0. -/
  | noChildren
  /-- `-1` because of a signal. -/
  | interrupted
  | zero
  | sleeps
  deriving DecidableEq, Repr

/-- Steps that the other moves stand for, and `exec`, which has a page
table of its own. -/
def Act.special : Act → Bool
  | .forkCopy _ _ | .call _ (.waitpid _) | .call _ .exec => true
  | _ => false

/-- `kfree`, or `freevm` of a page table. -/
def World.free (w : World) (page : Option Nat) : World :=
  match page with
  | none => w
  | some k => { w with freed := update w.freed k (w.freed k + 1) }

/-- A child of `p` that `waitpid` is asked for. -/
def State.wanted (s : State) (p : Slot) (target : Int) (q : Slot) : Bool :=
  (s.proc q).parent = some p && (target = -1 || (s.proc q).pid = target)

def State.exited (s : State) (p : Slot) (target : Int) : Option Slot :=
  (finRange NPROC).find? fun q => s.wanted p target q && (s.proc q).state = .zombie

def State.havekids (s : State) (p : Slot) (target : Int) : Bool :=
  (finRange NPROC).any fun q => s.wanted p target q

/-- What `waitpid` does with the child it found. -/
def World.reap (w : World) (q : Slot) : World :=
  let w' := w.free (w.kstack q)
  let w' := { w' with kstack := update w.kstack q none }
  let w' := w'.free (w.pgdir q)
  { w' with table := w.table.reap q }

/-- `waitpid` from taking the lock to giving it up. -/
def World.waitpid (w : World) (p : Slot) (target : Int) (nohang : Bool) : World × Reply :=
  if target = 0 ∨ target < -1 then (w, .badTarget)
  else
    match w.table.exited p target with
    | some q => (w.reap q, .child (w.table.proc q).pid)
    | none =>
      if w.table.havekids p target = false then (w, .noChildren)
      else if (w.table.proc p).killed = true ∨
          (w.table.proc p).sigPending &&& (w.table.proc p).sigCatch ≠ 0 then (w, .interrupted)
      else if nohang then (w, .zero)
      else ({ w with table := w.table.put p { w.table.proc p with state := .sleeping } }, .sleeps)

/-- The rest of `fork` for the new process `np`. -/
def World.forkCopy (w : World) (p np : Slot) : Memory → World
  | .noStack =>
    { w with table := w.table.forkCopy p np false, kstack := update w.kstack np none }
  | .noCopy =>
    let w' := { w with pages := w.pages + 1 }
    let w' := w'.free (some w.pages)
    { w' with
      table := w.table.forkCopy p np false
      kstack := update w.kstack np none
      pgdir := update w.pgdir np none }
  | .enough =>
    { w with
      table := w.table.forkCopy p np true
      kstack := update w.kstack np (some w.pages)
      pgdir := update w.pgdir np (some (w.pages + 1))
      pages := w.pages + 2 }

variable (sha256 : List UInt8 → List UInt8)

def World.step (w : World) : Move → Option (World × Reply)
  | .act a =>
    if a.special then none
    else (Ptable.step sha256 w.table a).map fun s => ({ w with table := s }, .quiet)
  | .forkCopy p m =>
    if (w.table.proc p).state = .running then
      (w.table.forking p).map fun np => (w.forkCopy p np m, .quiet)
    else none
  | .waitpid p target nohang =>
    if (w.table.proc p).state = .running ∧ w.table.forking p = none then
      some (w.waitpid p target nohang)
    else none

/-- The first process has the first two pages. -/
def World.boot (table : Auth.Table) : World where
  table := Ptable.boot table
  kstack := update (fun _ => none) initproc (some 0)
  pgdir := update (fun _ => none) initproc (some 1)
  pages := 2
  freed := fun _ => 0

/-- A step after which the pid counter has not wrapped. -/
def WorldStep (w : World) (m : Move × Reply) (w' : World) : Prop :=
  w.step sha256 m.1 = some (w', m.2) ∧ 0 < w'.table.nextpid

def Reply.pids : Reply → List Int
  | .child pid => [pid]
  | _ => []

variable {sha256} {w w' : World}

/-! ## Tables -/

/-- What a step does to the processes and their pages. -/
inductive Change (sha256 : List UInt8 → List UInt8) (w : World) : Move → World → Reply → Prop where
  /-- The processes that were made runnable stay the same. -/
  | table {m : Move} {s : State} {r : Reply} (hpids : r.pids = [])
      (htable : Calm w.table s ∨ ∃ a, Ptable.step sha256 w.table a = some s)
      (hmade : ∀ q, (s.proc q).Made ↔ (w.table.proc q).Made) :
      Change sha256 w m { w with table := s } r
  | copied {p np : Slot} (m : Memory) (hrun : (w.table.proc p).state = .running)
      (hnp : w.table.forking p = some np) :
      Change sha256 w (.forkCopy p m) (w.forkCopy p np m) .quiet
  | reaped {p q : Slot} {target : Int} {nohang : Bool} (hrun : (w.table.proc p).state = .running)
      (hfork : w.table.forking p = none) (hwanted : w.table.wanted p target q = true)
      (hzombie : (w.table.proc q).state = .zombie) :
      Change sha256 w (.waitpid p target nohang) (w.reap q) (.child (w.table.proc q).pid)

variable {s : State} {p q : Slot} {target : Int}

lemma wanted_iff : s.wanted p target q ↔
    (s.proc q).parent = some p ∧ (target = -1 ∨ (s.proc q).pid = target) := by
  simp [wanted]

lemma Calm.made_iff {t : State} (h : Calm s t) (q : Slot) : (t.proc q).Made ↔ (s.proc q).Made :=
  (h.proc q).made_iff

lemma exit_made (hrun : (s.proc p).state = .running) (q : Slot) :
    ((s.exit p).proc q).Made ↔ (s.proc q).Made := by
  by_cases hq : q = p
  · subst hq
    refine iff_of_true ?_ (by simp [Made, hrun])
    simp [Made, exit]
  · rw [Made, Made, exit_state hq]

lemma waitpid_change {nohang : Bool}
    (hrun : (w.table.proc p).state = .running) (hfork : w.table.forking p = none) :
    Change sha256 w (.waitpid p target nohang) (w.waitpid p target nohang).1
      (w.waitpid p target nohang).2 := by
  rw [World.waitpid]
  split
  · exact .table rfl (.inl (.refl _)) fun _ => .rfl
  cases hq : w.table.exited p target with
  | some q =>
    have hfound : w.table.wanted p target q ∧ (w.table.proc q).state = .zombie := by
      simpa using find?_some hq
    exact .reaped hrun hfork hfound.1 hfound.2
  | none => ?_
  dsimp only
  split
  · exact .table rfl (.inl (.refl _)) fun _ => .rfl
  split
  · exact .table rfl (.inl (.refl _)) fun _ => .rfl
  split
  · exact .table rfl (.inl (.refl _)) fun _ => .rfl
  have hcalm : Calm w.table (w.table.put p { w.table.proc p with state := .sleeping }) :=
    .put ⟨rfl, rfl, rfl, .inr ⟨.inr (.inr hrun), .inl rfl⟩⟩
  exact .table rfl (.inl hcalm) hcalm.made_iff

variable {m : Move} {r : Reply}

lemma step_change (h : w.step sha256 m = some (w', r)) : Change sha256 w m w' r := by
  cases m with
  | act a =>
    obtain ⟨hspecial, hs⟩ := ite_none_left_eq_some.mp h
    obtain ⟨s, hstep, heq⟩ := map_eq_some_iff.mp hs
    obtain ⟨rfl, rfl⟩ := Prod.mk.inj heq
    refine .table rfl (.inr ⟨a, hstep⟩) ?_
    cases lineage hstep with
    | calm hc => exact hc.made_iff
    | @alloc p np _ _ hnp =>
      intro q
      rw [allocproc]
      rw [put_proc]
      split
      case isTrue heq => subst heq; simp [Made, hnp]
      case isFalse => rfl
    | copied _ _ _ => exact absurd rfl hspecial
    | exited hrun _ _ => exact exit_made hrun
    | reaped _ _ _ _ => exact absurd rfl hspecial
  | forkCopy p m =>
    obtain ⟨hrun, hs⟩ := ite_none_right_eq_some.mp h
    obtain ⟨np, hnp, heq⟩ := map_eq_some_iff.mp hs
    obtain ⟨rfl, rfl⟩ := Prod.mk.inj heq
    exact .copied m hrun hnp
  | waitpid p target nohang =>
    obtain ⟨⟨hrun, hfork⟩, hs⟩ := ite_none_right_eq_some.mp h
    obtain ⟨rfl, rfl⟩ := Prod.mk.inj (some.inj hs)
    exact waitpid_change hrun hfork

lemma forkCopy_table (w : World) (p np : Slot) (m : Memory) :
    (w.forkCopy p np m).table = w.table.forkCopy p np (m = .enough) := by
  cases m <;> rfl

lemma reap_table (w : World) (q : Slot) : (w.reap q).table = w.table.reap q := rfl

lemma Change.refines (h : Change sha256 w m w' r) :
    Calm w.table w'.table ∨ ∃ a, Ptable.step sha256 w.table a = some w'.table := by
  cases h with
  | table _ htable _ => exact htable
  | @copied p np m hrun hnp =>
    refine .inr ⟨.forkCopy p (m = .enough), ?_⟩
    rw [forkCopy_table, Ptable.step, if_pos hrun, hnp, map_some]
  | @reaped p q _ _ hrun hfork hwanted hzombie => ?_
  refine .inr ⟨.call p (.waitpid q), ?_⟩
  rw [step_call hrun hfork, reap_table]
  exact congrArg some (if_pos ⟨(wanted_iff.mp hwanted).1, hzombie⟩)

lemma Change.family (h : Change sha256 w m w' r) (hf : Family w.table) : Family w'.table := by
  rcases h.refines with hcalm | ⟨a, ha⟩
  · exact hf.calm hcalm
  · exact hf.step ha

lemma Change.pids (h : Change sha256 w m w' r) (hf : Family w.table)
    (hp : Pids w.table) (hpos : 0 < w'.table.nextpid) : Pids w'.table := by
  rcases h.refines with hcalm | ⟨a, ha⟩
  · refine hp.keep hcalm.created hcalm.nextpid fun q hq =>
      ⟨?_, (hcalm.proc q).born, (hcalm.proc q).pid⟩
    rwa [Ne, (hcalm.proc q).state_iff (by simp)] at hq
  · exact hp.step hf ha hpos

/-! ## Pages -/

/-- A process that was made runnable has its kernel stack and its page
table. -/
def World.Holds (w : World) : Slot × Bool → Nat → Prop
  | (q, true), k => (w.table.proc q).Made ∧ w.kstack q = some k
  | (q, false), k => (w.table.proc q).Made ∧ w.pgdir q = some k

def World.Out (w : World) (k : Nat) : Prop := k < w.pages ∧ w.freed k = 0

/-- The pages that are out are those of the processes made runnable and
not reaped. -/
structure Paged (w : World) : Prop where
  balanced : Ledger.Balanced (· < w.pages) (fun _ => False) w.Out w.Holds
  stack : ∀ q, (w.table.proc q).Made → ∃ k d, w.kstack q = some k ∧ w.pgdir q = some d
  once : ∀ k, w.freed k ≤ 1
  ahead : ∀ k, w.pages ≤ k → w.freed k = 0

lemma boot_made (table : Auth.Table) (q : Slot) :
    ((Ptable.boot table).proc q).Made ↔ q = initproc := by
  rw [boot_proc]
  by_cases hq : q = initproc
  · simp [hq, Made]
  · simp [hq, Made, emptyProc]

lemma Paged.boot (table : Auth.Table) : Paged (World.boot table) := by
  have hholds : ∀ r k, (World.boot table).Holds r k ↔
      r = (initproc, true) ∧ k = 0 ∨ r = (initproc, false) ∧ k = 1 := by
    rintro ⟨q, b⟩ k
    have hmade := boot_made table q
    by_cases hq : q = initproc
    · subst hq
      cases b <;> simp [World.Holds, World.boot, hmade, eq_comm]
    · cases b <;> simp [World.Holds, World.boot, hmade, hq]
  refine ⟨⟨fun r r' k hr hr' => ?_, fun r k hr => ⟨?_, not_false⟩, fun k hk => ?_⟩, fun q hq => ?_,
    fun _ => Nat.zero_le 1, fun _ _ => rfl⟩
  · rcases (hholds r k).mp hr with ⟨rfl, rfl⟩ | ⟨rfl, rfl⟩ <;>
      rcases (hholds r' _).mp hr' with ⟨rfl, hk⟩ | ⟨rfl, hk⟩ <;> first | rfl | cases hk
  · change k < 2
    rcases (hholds r k).mp hr with ⟨-, rfl⟩ | ⟨-, rfl⟩ <;> omega
  · refine iff_of_true ⟨hk, rfl⟩ (.inr ?_)
    have hcases : k = 0 ∨ k = 1 := by
      have hlt : k < 2 := hk
      omega
    rcases hcases with rfl | rfl
    · exact ⟨(initproc, true), (hholds _ _).mpr (.inl ⟨rfl, rfl⟩)⟩
    · exact ⟨(initproc, false), (hholds _ _).mpr (.inr ⟨rfl, rfl⟩)⟩
  · obtain rfl := (boot_made table q).mp hq
    exact ⟨0, 1, by simp [World.boot], by simp [World.boot]⟩

lemma holds_congr (hmade : ∀ q, (w'.table.proc q).Made ↔ (w.table.proc q).Made)
    (hkept : ∀ q, (w.table.proc q).Made → w'.kstack q = w.kstack q ∧ w'.pgdir q = w.pgdir q)
    (r : Slot × Bool) (k : Nat) : w'.Holds r k ↔ w.Holds r k := by
  obtain ⟨q, b⟩ := r
  cases b <;> simp only [World.Holds, hmade] <;> refine and_congr_right fun hq => ?_
  · rw [(hkept q hq).2]
  · rw [(hkept q hq).1]

lemma Paged.stack_congr (h : Paged w) (hmade : ∀ q, (w'.table.proc q).Made ↔ (w.table.proc q).Made)
    (hkept : ∀ q, (w.table.proc q).Made → w'.kstack q = w.kstack q ∧ w'.pgdir q = w.pgdir q)
    (hq : (w'.table.proc q).Made) : ∃ k d, w'.kstack q = some k ∧ w'.pgdir q = some d := by
  have hq := (hmade q).mp hq
  rw [(hkept q hq).1, (hkept q hq).2]
  exact h.stack q hq

/-- The pages stay where they are when the processes made runnable keep
theirs. -/
lemma Paged.congr (h : Paged w) (hpages : w'.pages = w.pages) (hfreed : w'.freed = w.freed)
    (hmade : ∀ q, (w'.table.proc q).Made ↔ (w.table.proc q).Made)
    (hkept : ∀ q, (w.table.proc q).Made → w'.kstack q = w.kstack q ∧ w'.pgdir q = w.pgdir q) :
    Paged w' := by
  refine ⟨?_, fun q hq => h.stack_congr hmade hkept hq, hfreed ▸ h.once, fun k hk => ?_⟩
  · rw [hpages]
    exact h.balanced.congr (fun k _ => by rw [World.Out, World.Out, hpages, hfreed])
      (holds_congr hmade hkept)
  · rw [hfreed]
    exact h.ahead k (hpages ▸ hk)

lemma forkCopy_proc (s : State) (p np q : Slot) (ok : Bool) (hq : q ≠ np) :
    (s.forkCopy p np ok).proc q = s.proc q := by
  cases ok <;> exact update_of_ne hq ..

lemma forkCopy_state (s : State) (p np : Slot) (ok : Bool) :
    ((s.forkCopy p np ok).proc np).state = if ok then .runnable else .unused := by
  cases ok <;> simp [forkCopy, put]

lemma made_forkCopy_false {np : Slot} (hemb : (w.table.proc np).state = .embryo) (q : Slot) :
    ((w.table.forkCopy p np false).proc q).Made ↔ (w.table.proc q).Made := by
  by_cases hq : q = np
  · subst hq
    refine iff_of_false (fun hm => hm.1 ?_) fun hm => hm.2 hemb
    rw [forkCopy_state]
    rfl
  · rw [forkCopy_proc _ _ _ _ _ hq]

/-- The stack of a child whose copy failed goes back. -/
lemma Paged.noCopy (h : Paged w) {np : Slot} (hemb : (w.table.proc np).state = .embryo) :
    Paged (w.forkCopy p np .noCopy) := by
  have hfail := @made_forkCopy_false w p np hemb
  have hzero := h.ahead w.pages le_rfl
  have hfreed : ∀ k, (w.forkCopy p np .noCopy).freed k =
      if k = w.pages then 1 else w.freed k := by
    intro k
    simp only [World.forkCopy, World.free, update_apply, hzero]
  have hkept : ∀ q, (w.table.proc q).Made → (w.forkCopy p np .noCopy).kstack q = w.kstack q ∧
      (w.forkCopy p np .noCopy).pgdir q = w.pgdir q := by
    intro q hq
    have hne : q ≠ np := fun heq => hq.2 (heq ▸ hemb)
    exact ⟨update_of_ne hne .., update_of_ne hne ..⟩
  refine ⟨?_, fun q hq => h.stack_congr hfail hkept hq, fun k => ?_, fun k hk => ?_⟩
  · have hwide : Ledger.Balanced (· < w.pages + 1) (fun _ => False) w.Out w.Holds :=
      h.balanced.widen (fun k hk => Nat.lt_succ_of_lt hk) fun k _ hk => ⟨fun ho => hk ho.1, not_false⟩
    refine hwide.congr (fun k hk => ?_) (holds_congr hfail hkept)
    rw [World.Out, World.Out, hfreed]
    by_cases hlast : k = w.pages
    · simp [hlast]
    have hlt : k < w.pages := by omega
    simp [hlast, hlt, show k < (w.forkCopy p np .noCopy).pages from hk]
  · rw [hfreed]
    split
    · exact le_refl 1
    · exact h.once k
  · have hk : w.pages + 1 ≤ k := hk
    rw [hfreed, if_neg (by omega)]
    exact h.ahead k (by omega)

/-- A child that is made runnable has two new pages. -/
lemma Paged.enough (h : Paged w) {np : Slot} (hemb : (w.table.proc np).state = .embryo) :
    Paged (w.forkCopy p np .enough) := by
  have hnot : ¬ (w.table.proc np).Made := fun hm => hm.2 hemb
  have hproc : ∀ q ≠ np, (w.table.forkCopy p np true).proc q = w.table.proc q := fun q hq =>
    forkCopy_proc _ _ _ _ _ hq
  have hmade : ((w.table.forkCopy p np true).proc np).Made := by
    rw [Made, forkCopy_state]
    decide
  refine ⟨?_, fun q hq => ?_, h.once, fun k hk => ?_⟩
  · have hwide : Ledger.Balanced (· < w.pages + 2) (fun _ => False) w.Out w.Holds :=
      h.balanced.widen (fun k hk => by omega) fun k _ hk => ⟨fun ho => hk ho.1, not_false⟩
    have htake : Ledger.Balanced (· < w.pages + 2) (fun _ => False) (fun k => w.Out k ∨ k = w.pages)
        (fun r k => w.Holds r k ∨ r = (np, true) ∧ k = w.pages) :=
      hwide.take (by omega) (fun ho => lt_irrefl _ ho.1) (fun _ _ => .rfl) fun _ _ => .rfl
    refine htake.take (p := (np, false)) (b := w.pages + 1) (by omega) ?_ (fun k hk => ?_)
      fun r k => ?_
    · rintro (ho | heq)
      · exact absurd ho.1 (by omega)
      · omega
    · have hk : k < w.pages + 2 := hk
      by_cases hlt : k < w.pages
      · have hne0 : k ≠ w.pages := by omega
        have hne1 : k ≠ w.pages + 1 := by omega
        simp [World.Out, World.forkCopy, hlt, hk, hne0, hne1]
      have hor : k = w.pages ∨ k = w.pages + 1 := by omega
      have hfree : w.freed k = 0 := h.ahead k (by omega)
      simp only [World.Out, World.forkCopy, hlt, false_and, false_or, hor, iff_true]
      exact ⟨hk, hfree⟩
    · obtain ⟨q, b⟩ := r
      by_cases hq : q = np
      · subst hq
        cases b <;> simp [World.Holds, World.forkCopy, hmade, hnot, eq_comm]
      · cases b <;> simp [World.Holds, World.forkCopy, hproc q hq, hq]
  · by_cases hqn : q = np
    · subst hqn
      exact ⟨_, _, update_self .., update_self ..⟩
    have hq : (w.table.proc q).Made := by rwa [← hproc q hqn]
    obtain ⟨k, d, hk, hd⟩ := h.stack q hq
    exact ⟨k, d, (update_of_ne hqn ..).trans hk, (update_of_ne hqn ..).trans hd⟩
  · have hk : w.pages + 2 ≤ k := hk
    exact h.ahead k (by omega)

lemma Paged.copied (h : Paged w) {np : Slot} (hemb : (w.table.proc np).state = .embryo)
    (m : Memory) : Paged (w.forkCopy p np m) := by
  cases m with
  | noStack =>
    refine h.congr rfl rfl (made_forkCopy_false hemb) fun q hq => ⟨update_of_ne ?_ .., rfl⟩
    rintro rfl
    exact hq.2 hemb
  | noCopy => exact h.noCopy hemb
  | enough => exact h.enough hemb

lemma Paged.reaped (h : Paged w) (hz : (w.table.proc q).state = .zombie) :
    Paged (w.reap q) ∧ ∃ k d, w.kstack q = some k ∧ w.pgdir q = some d ∧
      (w.reap q).freed k = 1 ∧ (w.reap q).freed d = 1 := by
  have hmade : (w.table.proc q).Made := by simp [Made, hz]
  obtain ⟨k, d, hk, hd⟩ := h.stack q hmade
  have hkout : w.Out k := h.balanced.mark (p := (q, true)) ⟨hmade, hk⟩
  have hdout : w.Out d := h.balanced.mark (p := (q, false)) ⟨hmade, hd⟩
  have hkd : d ≠ k := by
    rintro rfl
    have heq := h.balanced.once (q, true) (q, false) d ⟨hmade, hk⟩ ⟨hmade, hd⟩
    simp at heq
  have hfreed : ∀ c, (w.reap q).freed c = if c = k ∨ c = d then 1 else w.freed c := by
    intro c
    simp only [World.reap, World.free, hk, hd, update_apply, hkd, if_false, hkout.2, hdout.2]
    by_cases hck : c = k
    · simp [hck, hkd.symm]
    · by_cases hcd : c = d <;> simp [hck, hcd]
  have hproc : ∀ r ≠ q, (w.reap q).table.proc r = w.table.proc r := fun r hr =>
    update_of_ne hr ..
  have hgone : ¬ ((w.reap q).table.proc q).Made := fun hm => hm.1 (by
    rw [reap_table, reap, put_proc, if_pos rfl])
  have hpages : (w.reap q).pages = w.pages := by simp only [World.reap, World.free, hk, hd]
  have hkstack : ∀ r ≠ q, (w.reap q).kstack r = w.kstack r := by
    intro r hr
    simp [World.reap, World.free, hk, hd, hr]
  have hpgdir : (w.reap q).pgdir = w.pgdir := by simp only [World.reap, World.free, hk, hd]
  have hholds : ∀ r c, (w.reap q).Holds r c ↔ (w.Holds r c ∧ r ≠ (q, true)) ∧ r ≠ (q, false) := by
    rintro ⟨r, b⟩ c
    by_cases hr : r = q
    · subst hr
      cases b <;> simp [World.Holds, hgone]
    · cases b <;> simp [World.Holds, hproc r hr, hkstack r hr, hpgdir, hr]
  refine ⟨⟨?_, fun r hr => ?_, fun c => ?_, fun c hc => ?_⟩, k, d, hk, hd, ?_, ?_⟩
  · rw [hpages]
    have hdrop : Ledger.Balanced (· < w.pages) (fun _ => False) (fun c => w.Out c ∧ c ≠ k)
        (fun r c => w.Holds r c ∧ r ≠ (q, true)) :=
      h.balanced.drop (p := (q, true)) ⟨hmade, hk⟩
        (fun c hc => some.inj (hc.2.symm.trans hk)) (fun _ _ => .rfl) fun _ _ => .rfl
    refine hdrop.drop (p := (q, false)) (b := d) ⟨⟨hmade, hd⟩, by simp⟩
      (fun c hc => some.inj (hc.1.2.symm.trans hd)) (fun c hc => ?_) hholds
    rw [World.Out, World.Out, hfreed, hpages]
    split
    case isTrue hor => rcases hor with rfl | rfl <;> simp
    case isFalse hnot => simp [not_or.mp hnot]
  · have hrq : r ≠ q := by
      rintro rfl
      exact hgone hr
    rw [hproc r hrq] at hr
    rw [hkstack r hrq, hpgdir]
    exact h.stack r hr
  · rw [hfreed]
    split
    · exact le_refl 1
    · exact h.once c
  · rw [hpages] at hc
    rw [hfreed, if_neg]
    · exact h.ahead c hc
    rintro (rfl | rfl)
    · exact absurd hkout.1 (by omega)
    · exact absurd hdout.1 (by omega)
  · rw [hfreed, if_pos (.inl rfl)]
  · rw [hfreed, if_pos (.inr rfl)]

lemma Paged.change (h : Paged w) (hf : Family w.table)
    (hc : Change sha256 w m w' r) : Paged w' := by
  cases hc with
  | table _ _ hmade => exact h.congr rfl rfl hmade fun _ _ => ⟨rfl, rfl⟩
  | @copied p np m _ hnp => exact h.copied (hf.forking p np hnp).2 m
  | reaped _ _ _ hz => exact (h.reaped hz).1

/-! ## What is returned -/

lemma Change.used (h : Change sha256 w m w' r) (hf : Family w.table)
    (hq : (w'.table.proc q).state ≠ .unused) :
    ((w.table.proc q).state ≠ .unused ∧ (w'.table.proc q).pid = (w.table.proc q).pid) ∨
      (w'.table.proc q).pid = w.table.nextpid := by
  rcases h.refines with hcalm | ⟨a, ha⟩
  · refine .inl ⟨?_, (hcalm.proc q).pid⟩
    rwa [Ne, (hcalm.proc q).state_iff (by simp)] at hq
  · exact step_used ha hf hq

/-- The pids returned so far were given out, and to processes that are
gone. -/
structure Collected (w : World) (pids : List Int) : Prop where
  nodup : pids.Nodup
  gone : ∀ pid ∈ pids, pid < w.table.nextpid ∧
    ∀ q, (w.table.proc q).state ≠ .unused → (w.table.proc q).pid ≠ pid

lemma Collected.change {pids : List Int} (h : Collected w pids)
    (hf : Family w.table) (hp : Pids w.table) (hp' : Pids w'.table)
    (hc : Change sha256 w m w' r) : Collected w' (pids ++ r.pids) := by
  have hnext : w.table.nextpid ≤ w'.table.nextpid := by
    have hle : w.table.created ≤ w'.table.created := by
      rcases hc.refines with hcalm | ⟨a, ha⟩
      · exact le_of_eq hcalm.created.symm
      · exact step_created ha hf
    rw [hp.counter, hp'.counter]
    omega
  -- A pid that is given out and in no slot is not given out again.
  have hkeep : ∀ pid < w.table.nextpid,
      (∀ q, (w.table.proc q).state ≠ .unused → (w.table.proc q).pid ≠ pid) →
      pid < w'.table.nextpid ∧ ∀ q, (w'.table.proc q).state ≠ .unused → (w'.table.proc q).pid ≠ pid := by
    intro pid hlt hno
    refine ⟨by omega, fun q hq => ?_⟩
    rcases hc.used hf hq with ⟨hused, hpid⟩ | hpid
    · rw [hpid]
      exact hno q hused
    · omega
  cases hc with
  | table hpids _ _ =>
    rw [hpids, append_nil]
    exact ⟨h.nodup, fun pid hpid => hkeep pid (h.gone pid hpid).1 (h.gone pid hpid).2⟩
  | copied m _ _ =>
    rw [show Reply.quiet.pids = [] from rfl, append_nil]
    exact ⟨h.nodup, fun pid hpid => hkeep pid (h.gone pid hpid).1 (h.gone pid hpid).2⟩
  | @reaped p q _ _ _ _ _ hz => ?_
  have hused : (w.table.proc q).state ≠ .unused := by simp [hz]
  refine ⟨?_, fun pid hpid => ?_⟩
  · rw [Reply.pids, nodup_append]
    refine ⟨h.nodup, nodup_singleton _, fun pid hpid pid' hpid' heq => ?_⟩
    rw [mem_singleton] at hpid'
    exact (h.gone pid hpid).2 q hused (heq.trans hpid').symm
  rcases mem_append.mp hpid with hpid | hpid
  · exact hkeep pid (h.gone pid hpid).1 (h.gone pid hpid).2
  -- The slot of the process is unused now, and nobody else had its pid.
  rw [Reply.pids, mem_singleton] at hpid
  subst hpid
  obtain ⟨hborn, hpid⟩ := hp.pid q hused
  have hcounter := hp.counter
  refine ⟨by omega, fun r hr heq => ?_⟩
  have hrq : r ≠ q := by
    rintro rfl
    rw [reap_table, reap, put_proc, if_pos rfl] at hr
    exact hr rfl
  rw [reap_table, reap, put_proc, if_neg hrq] at hr heq
  exact hrq (hp.inj_pid hr hused heq)

lemma world_history {table : Auth.Table} {ms : List (Move × Reply)}
    (h : Run (WorldStep sha256) (World.boot table) ms w) :
    Family w.table ∧ Pids w.table ∧ Paged w ∧ Collected w (ms.flatMap (·.2.pids)) := by
  refine h.history ?_ ?_
  · exact ⟨.boot table, .boot table, .boot table, nodup_nil, nofun⟩
  rintro ms w ⟨m, r⟩ w' - ⟨hf, hp, hpaged, hcol⟩ ⟨hs, hpos⟩
  have hc := step_change hs
  have hp' := hc.pids hf hp hpos
  refine ⟨hc.family hf, hp', hpaged.change hf hc, ?_⟩
  rw [flatMap_append, flatMap_singleton]
  exact hcol.change hf hp hp' hc

lemma waitpid_noChildren {nohang : Bool}
    (h : (w.waitpid p target nohang).2 = .noChildren) : w.table.havekids p target = false := by
  rw [World.waitpid] at h
  split at h
  · cases h
  split at h
  · cases h
  split at h
  case isTrue hkids => exact hkids
  case isFalse =>
    split at h
    · cases h
    · split at h <;> cases h

/-- `waitpid` complains about a lack of children only to a process that has
none it asked for. -/
lemma noChildren_spec (h : w.step sha256 m = some (w', .noChildren)) :
    ∃ p target nohang, m = .waitpid p target nohang ∧
      ∀ q, (w.table.proc q).parent = some p → target ≠ -1 ∧ (w.table.proc q).pid ≠ target := by
  cases m with
  | act a =>
    obtain ⟨-, hs⟩ := ite_none_left_eq_some.mp h
    obtain ⟨s, -, heq⟩ := map_eq_some_iff.mp hs
    exact nomatch congrArg Prod.snd heq
  | forkCopy p m =>
    obtain ⟨-, hs⟩ := ite_none_right_eq_some.mp h
    obtain ⟨np, -, heq⟩ := map_eq_some_iff.mp hs
    exact nomatch congrArg Prod.snd heq
  | waitpid p target nohang => ?_
  obtain ⟨-, hs⟩ := ite_none_right_eq_some.mp h
  refine ⟨p, target, nohang, rfl, fun q hq => ?_⟩
  have hkids := waitpid_noChildren (congrArg Prod.snd (some.inj hs))
  rw [havekids, List.any_eq_false] at hkids
  have hnot := hkids q (List.mem_finRange q)
  rw [wanted_iff] at hnot
  simpa [hq] using hnot

/-- `waitpid` returns the pid of an exited child of its caller, and its
stack and page table go back with it. -/
lemma child_spec {pid : Int} (hp : Paged w) (h : w.step sha256 m = some (w', .child pid)) :
    ∃ p target nohang q k d, m = .waitpid p target nohang ∧ (w.table.proc q).parent = some p ∧
      (w.table.proc q).state = .zombie ∧ (w.table.proc q).pid = pid ∧ (target = -1 ∨ pid = target) ∧
      (w'.table.proc q).state = .unused ∧ w.kstack q = some k ∧ w.pgdir q = some d ∧
      w'.freed k = 1 ∧ w'.freed d = 1 := by
  cases step_change h with
  | table hpids _ _ => simp [Reply.pids] at hpids
  | @reaped p q target nohang _ _ hwanted hz => ?_
  obtain ⟨-, k, d, hk, hd, hfk, hfd⟩ := hp.reaped hz
  obtain ⟨hparent, htarget⟩ := wanted_iff.mp hwanted
  refine ⟨p, target, nohang, q, k, d, rfl, hparent, hz, rfl, htarget, ?_, hk, hd, hfk, hfd⟩
  rw [reap_table, reap, put_proc, if_pos rfl]

/-- The life cycle of the process table, in every run in which the pid
counter does not wrap. -/
theorem process_lifecycle {table : Auth.Table} {ms : List (Move × Reply)}
    (h : Run (WorldStep sha256) (World.boot table) ms w) :
    (∀ q r, (w.table.proc q).state ≠ .unused → (w.table.proc r).state ≠ .unused →
      (w.table.proc q).pid = (w.table.proc r).pid → q = r) ∧
    (∀ q, q ≠ initproc → (w.table.proc q).Made →
      ∃ p, (w.table.proc q).parent = some p ∧ (w.table.proc p).Live) ∧
    (∀ q, (w.table.proc q).state = .embryo →
      ∃ p, w.table.forking p = some q ∧ (w.table.proc p).Live) ∧
    (ms.flatMap (·.2.pids)).Nodup ∧
    (∀ q, (w.table.proc q).Made → ∃ k d, w.kstack q = some k ∧ w.pgdir q = some d) ∧
    (∀ k, k < w.pages → w.freed k ≤ 1 ∧ (w.freed k = 0 ↔
      ∃ q, (w.table.proc q).Made ∧ (w.kstack q = some k ∨ w.pgdir q = some k))) ∧
    ∀ m w' r, w.step sha256 m = some (w', r) →
      (∀ pid, r = .child pid → ∃ p target nohang q k d, m = .waitpid p target nohang ∧
        (w.table.proc q).parent = some p ∧ (w.table.proc q).state = .zombie ∧
        (w.table.proc q).pid = pid ∧ (target = -1 ∨ pid = target) ∧
        (w'.table.proc q).state = .unused ∧ w.kstack q = some k ∧ w.pgdir q = some d ∧
        w'.freed k = 1 ∧ w'.freed d = 1) ∧
      (r = .noChildren → ∃ p target nohang, m = .waitpid p target nohang ∧
        ∀ q, (w.table.proc q).parent = some p → target ≠ -1 ∧ (w.table.proc q).pid ≠ target) := by
  obtain ⟨hf, hp, hpaged, hcol⟩ := world_history h
  refine ⟨fun q r => hp.inj_pid, hf.parent, fun q hq => ?_, hcol.nodup, hpaged.stack,
    fun k hk => ⟨hpaged.once k, ?_⟩, fun m w' r hs => ⟨?_, ?_⟩⟩
  · obtain ⟨p, hforking⟩ := hf.embryo q hq
    exact ⟨p, hforking, (hf.forking p q hforking).1⟩
  · have hout : w.freed k = 0 ↔ w.Out k := ⟨fun h0 => ⟨hk, h0⟩, And.right⟩
    rw [hout, hpaged.balanced.marked_iff k hk, false_or]
    constructor
    · rintro ⟨⟨q, b⟩, hq⟩
      cases b
      · exact ⟨q, hq.1, .inr hq.2⟩
      · exact ⟨q, hq.1, .inl hq.2⟩
    · rintro ⟨q, hmade, hstack | hdir⟩
      · exact ⟨(q, true), hmade, hstack⟩
      · exact ⟨(q, false), hmade, hdir⟩
  · rintro pid rfl
    exact child_spec hpaged hs
  · rintro rfl
    exact noChildren_spec hs

/-- `init` forks, the child exits, and `init` collects it. -/
def forkAndWait : List (Move × Reply) :=
  [(.act (.schedule initproc), .quiet), (.act (.call initproc .fork), .quiet),
    (.forkCopy initproc .enough, .quiet), (.act (.schedule childproc), .quiet),
    (.waitpid initproc (-1) true, .zero), (.act (.exit childproc), .quiet),
    (.waitpid initproc (-1) false, .child 2), (.waitpid initproc 2 false, .noChildren)]

theorem process_lifecycle_forkAndWait :
    ∃ w, Run (WorldStep Sha256.digest) (World.boot Auth.bootTable) forkAndWait w ∧
      w.freed 2 = 1 ∧ w.freed 3 = 1 ∧ (forkAndWait.flatMap (·.2.pids)).Nodup := by
  refine Exists.imp (p := fun w => _ ∧ _ ∧ _) (fun w h =>
    ⟨h.1, h.2.1, h.2.2, (process_lifecycle h.1).2.2.2.1⟩) ?_
  exact ⟨_, .cons ⟨rfl, by decide⟩ (.cons ⟨rfl, by decide⟩ (.cons ⟨rfl, by decide⟩
    (.cons ⟨rfl, by decide⟩ (.cons ⟨rfl, by decide⟩ (.cons ⟨rfl, by decide⟩
      (.cons ⟨rfl, by decide⟩ (.cons ⟨rfl, by decide⟩ .nil))))))), rfl, rfl⟩

end Proninx.Ptable
