import Mathlib.Data.Finset.Card
import Proninx.Kern.Prog
import Proninx.Lib.Runs

/-!
# Group commit (`begin_op`, `end_op`, `log_write`, `commit`)

The shared log state and any number of processes, interleaved at the
grain of the code: each critical section of `_log.lock` is one step, and
so is each unlocked piece - the tests at the top of `log_write`, and
every block write of a `commit`, which runs without the lock.

A process calls `log_write` and `end_op` only inside an operation it has
begun. Operations are numbered as they begin; `events` and `pending` are
history: all `log_write`s so far, and those since the log was last
cleared. `committed` records what each header write committed.
-/

namespace Proninx.LogOps

open Finset Function List

/-- Where a process is inside `commit` and the tail of `end_op`. -/
inductive Stage where
  | writeLog (tail : Nat)
  | writeHead
  | install (tail : Nat)
  | clear
  | finish
  deriving DecidableEq, Repr

inductive Pc where
  | idle
  /-- In the loop of `begin_op`, about to take the lock and test. -/
  | waiting
  /-- Asleep in `begin_op` on `&_log`. -/
  | asleep
  | inOp (op : Nat)
  /-- In `log_write`, past the unlocked tests. -/
  | logging (op b : Nat)
  | commit (st : Stage)
  deriving DecidableEq, Repr

/-- What one header write committed. -/
structure Txn where
  blocks : List Nat
  /-- The `log_write`s behind them, as (operation, block) pairs. -/
  events : List (Nat × Nat)
  deriving DecidableEq, Repr

structure State where
  size : Nat
  readonly : Bool
  outstanding : Nat
  committing : Bool
  lh : List Nat
  halted : Bool
  pc : Nat → Pc
  nextOp : Nat
  events : List (Nat × Nat)
  pending : List (Nat × Nat)
  committed : List Txn

open State

inductive Act where
  | beginOp (p : Nat)
  | tryBegin (p : Nat)
  | logCheck (p b : Nat)
  | logStore (p : Nat)
  | endOp (p : Nat)
  | commitStep (p : Nat)
  deriving DecidableEq, Repr

def init (size : Nat) (readonly : Bool) : State where
  size := size
  readonly := readonly
  outstanding := 0
  committing := false
  lh := []
  halted := false
  pc := fun _ => .idle
  nextOp := 0
  events := []
  pending := []
  committed := []

def State.goto (s : State) (p : Nat) (pc : Pc) : State :=
  { s with pc := update s.pc p pc }

/-- `wakeup(&_log)`: the sleepers of `begin_op` run their loop again. -/
def State.wakeup (s : State) : State :=
  { s with pc := fun p => if s.pc p = .asleep then .waiting else s.pc p }

/-- One pass of the loop of `begin_op` under the lock. -/
def State.tryBegin (s : State) (p : Nat) : State :=
  if s.readonly then
    { s.goto p (.inOp s.nextOp) with nextOp := s.nextOp + 1 }
  else if s.committing then
    s.goto p .asleep
  else if LOGSIZE < s.lh.length + (s.outstanding + 1) * MAXOPBLOCKS then
    s.goto p .asleep
  else
    { s.goto p (.inOp s.nextOp) with
      outstanding := s.outstanding + 1
      nextOp := s.nextOp + 1 }

/-- The unlocked tests at the top of `log_write`. -/
def State.logCheck (s : State) (p op b : Nat) : State :=
  if s.readonly then { s with halted := true }
  else if LOGSIZE ≤ s.lh.length ∨ s.size - 1 ≤ s.lh.length then { s with halted := true }
  else if s.outstanding < 1 then { s with halted := true }
  else s.goto p (.logging op b)

/-- The locked part of `log_write`: absorb the block or append it. An
append at index `LOGSIZE` leaves the header array. -/
def State.logStore (s : State) (p op b : Nat) : State :=
  if b ∈ s.lh then
    { s.goto p (.inOp op) with
      events := (op, b) :: s.events
      pending := (op, b) :: s.pending }
  else if LOGSIZE ≤ s.lh.length then { s with halted := true }
  else
    { s.goto p (.inOp op) with
      lh := s.lh ++ [b]
      events := (op, b) :: s.events
      pending := (op, b) :: s.pending }

/-- Take the counters `outstanding` and `committing` and go to `pc`. -/
def State.leave (s : State) (p : Nat) (pc : Pc) (outstanding : Nat) (committing : Bool) :
    State :=
  { s.goto p pc with outstanding := outstanding, committing := committing }

/-- The first critical section of `end_op`, and the way into `commit`. -/
def State.endOp (s : State) (p : Nat) : State :=
  if s.readonly then s.goto p .idle
  else if s.committing then { s with halted := true }
  else if s.outstanding - 1 = 0 then
    s.leave p (.commit (if 0 < s.lh.length then .writeLog 0 else .finish))
      (s.outstanding - 1) true
  else
    (s.leave p .idle (s.outstanding - 1) s.committing).wakeup

/-- One block write of `commit`, or the second critical section of `end_op`. -/
def State.commitStep (s : State) (p : Nat) : Stage → State
  | .writeLog tail =>
    if tail < s.lh.length then s.goto p (.commit (.writeLog (tail + 1)))
    else s.goto p (.commit .writeHead)
  | .writeHead =>
    { s.goto p (.commit (.install 0)) with
      committed := ⟨s.lh, s.pending⟩ :: s.committed }
  | .install tail =>
    if tail < s.lh.length then s.goto p (.commit (.install (tail + 1)))
    else s.goto p (.commit .clear)
  | .clear =>
    { s.goto p (.commit .finish) with lh := [], pending := [] }
  | .finish =>
    { (s.goto p .idle).wakeup with committing := false }

/-- One step; `none` when the process is not at that point of the code. -/
def step (s : State) (a : Act) : Option State :=
  if s.halted then none
  else match a with
  | .beginOp p => match s.pc p with
      | .idle => some (s.goto p .waiting)
      | _ => none
  | .tryBegin p => match s.pc p with
      | .waiting => some (s.tryBegin p)
      | _ => none
  | .logCheck p b => match s.pc p with
      | .inOp op => some (s.logCheck p op b)
      | _ => none
  | .logStore p => match s.pc p with
      | .logging op b => some (s.logStore p op b)
      | _ => none
  | .endOp p => match s.pc p with
      | .inOp _ => some (s.endOp p)
      | _ => none
  | .commitStep p => match s.pc p with
      | .commit st => some (s.commitStep p st)
      | _ => none

variable {s : State}

lemma step_cases {t : State} {a : Act} (h : step s a = some t) :
    (∃ p, a = .beginOp p ∧ s.pc p = .idle ∧ t = s.goto p .waiting) ∨
    (∃ p, a = .tryBegin p ∧ s.pc p = .waiting ∧ t = s.tryBegin p) ∨
    (∃ p op b, a = .logCheck p b ∧ s.pc p = .inOp op ∧ t = s.logCheck p op b) ∨
    (∃ p op b, a = .logStore p ∧ s.pc p = .logging op b ∧ t = s.logStore p op b) ∨
    (∃ p op, a = .endOp p ∧ s.pc p = .inOp op ∧ t = s.endOp p) ∨
    (∃ p st, a = .commitStep p ∧ s.pc p = .commit st ∧ t = s.commitStep p st) := by
  unfold step at h
  split at h
  · cases h
  · cases a <;> simp only at h <;> split at h <;> simp_all

/-! ## Invariant -/

def Pc.op : Pc → Option Nat
  | .inOp op => some op
  | .logging op _ => some op
  | _ => none

def Pc.isCommit : Pc → Bool
  | .commit _ => true
  | _ => false

def State.op (s : State) (p : Nat) : Option Nat := (s.pc p).op

def State.isCommit (s : State) (p : Nat) : Bool := (s.pc p).isCommit

@[simp] lemma goto_op (s : State) (p q : Nat) (pc : Pc) :
    (s.goto p pc).op q = if q = p then pc.op else s.op q := by
  by_cases h : q = p <;> simp [goto, op, h]

@[simp] lemma goto_isCommit (s : State) (p q : Nat) (pc : Pc) :
    (s.goto p pc).isCommit q = if q = p then pc.isCommit else s.isCommit q := by
  by_cases h : q = p <;> simp [goto, isCommit, h]

@[simp] lemma wakeup_op (s : State) (q : Nat) : s.wakeup.op q = s.op q := by
  by_cases h : s.pc q = .asleep <;> simp [wakeup, op, h, Pc.op]

@[simp] lemma wakeup_isCommit (s : State) (q : Nat) : s.wakeup.isCommit q = s.isCommit q := by
  by_cases h : s.pc q = .asleep <;> simp [wakeup, isCommit, h, Pc.isCommit]

/-- The part of the invariant about counters and program points. -/
structure Counted (s : State) : Prop where
  /-- `outstanding` counts the processes inside an operation. -/
  ops : s.readonly = false →
    ∃ S : Finset Nat, (∀ p, p ∈ S ↔ (s.op p).isSome) ∧ S.card = s.outstanding
  commit : ∀ p, s.isCommit p → s.readonly = false ∧ s.committing ∧ s.outstanding = 0
  unique : ∀ p q, s.isCommit p → s.isCommit q → p = q

/-- The part of the invariant about the history. -/
structure Grouped (s : State) : Prop where
  op_lt : ∀ p op, s.op p = some op → op < s.nextOp
  op_inj : ∀ p q op, s.op p = some op → s.op q = some op → p = q
  event_lt : ∀ op b, (op, b) ∈ s.events → op < s.nextOp
  pending_sub : ∀ e, e ∈ s.pending → e ∈ s.events
  /-- All of an operation is pending while it runs. -/
  active : ∀ p op b, s.op p = some op → (op, b) ∈ s.events → (op, b) ∈ s.pending
  /-- What is pending of an operation is all of it. -/
  whole : ∀ op b b', (op, b') ∈ s.pending → (op, b) ∈ s.events → (op, b) ∈ s.pending
  header : ∀ b, b ∈ s.lh ↔ ∃ op, (op, b) ∈ s.pending
  txn_over : ∀ T ∈ s.committed, ∀ op b, (op, b) ∈ T.events → ∀ p, s.op p ≠ some op
  txn_sub : ∀ T ∈ s.committed, ∀ e ∈ T.events, e ∈ s.events
  txn_whole : ∀ T ∈ s.committed, ∀ op b b', (op, b') ∈ T.events → (op, b) ∈ s.events →
    (op, b) ∈ T.events
  txn_blocks : ∀ T ∈ s.committed, ∀ b, b ∈ T.blocks ↔ ∃ op, (op, b) ∈ T.events

structure Inv (s : State) : Prop extends Counted s, Grouped s

lemma init_inv (size : Nat) (readonly : Bool) : Inv (init size readonly) where
  ops _ := ⟨∅, by simp [init, op, Pc.op], rfl⟩
  commit p h := by simp [init, isCommit, Pc.isCommit] at h
  unique p q h := by simp [init, State.isCommit, Pc.isCommit] at h
  op_lt p op h := by simp [init, State.op, Pc.op] at h
  op_inj p q op h := by simp [init, State.op, Pc.op] at h
  event_lt _ _ h := by simp [init] at h
  pending_sub _ h := by simp [init] at h
  active _ _ _ _ h := by simp [init] at h
  whole _ _ _ h := by simp [init] at h
  header b := by simp [init]
  txn_over _ h := by simp [init] at h
  txn_sub _ h := by simp [init] at h
  txn_whole _ h := by simp [init] at h
  txn_blocks _ h := by simp [init] at h

variable {p : Nat}

/-- While a process commits, no process is inside an operation. -/
lemma Counted.quiet (h : Counted s) (hp : s.isCommit p) (q : Nat) : s.op q = none := by
  obtain ⟨hro, -, hout⟩ := h.commit p hp
  obtain ⟨S, hS, hcard⟩ := h.ops hro
  have hempty : S = ∅ := card_eq_zero.mp (hcard.trans hout)
  have hq := hS q
  simpa [hempty] using hq.symm

variable {op : Nat}

/-- The outstanding count is positive while a process is inside an operation. -/
lemma Counted.outstanding_pos (h : Counted s) (hro : s.readonly = false)
    (hp : s.op p = some op) : 0 < s.outstanding := by
  obtain ⟨S, hS, hcard⟩ := h.ops hro
  rw [← hcard]
  exact card_pos.mpr ⟨p, (hS p).mpr (by simp [hp])⟩

section

variable (h : Inv s)
include h

/-- The invariant sees program points only through `op` and `isCommit`. -/
lemma Inv.congr (pc : Nat → Pc) (halted : Bool)
    (hop : ∀ q, (pc q).op = s.op q) (hc : ∀ q, (pc q).isCommit = s.isCommit q) :
    Inv { s with pc := pc, halted := halted } := by
  have hop' : ∀ q, op { s with pc := pc, halted := halted } q = s.op q := hop
  have hc' : ∀ q, isCommit { s with pc := pc, halted := halted } q = s.isCommit q := hc
  refine { h with
    ops := ?_, commit := ?_, unique := ?_, op_lt := ?_, op_inj := ?_, active := ?_, txn_over := ?_ }
  · simpa only [hop'] using h.ops
  · simpa only [hc'] using h.commit
  · simpa only [hc'] using h.unique
  · simpa only [hop'] using h.op_lt
  · simpa only [hop'] using h.op_inj
  · simpa only [hop'] using h.active
  · simpa only [hop'] using h.txn_over

lemma Inv.halt : Inv { s with halted := true } :=
  h.congr s.pc true (fun _ => rfl) (fun _ => rfl)

lemma Inv.wakeup : Inv s.wakeup :=
  h.congr _ s.halted (fun q => wakeup_op s q) (fun q => wakeup_isCommit s q)

lemma Inv.goto {pc : Pc} (hop : pc.op = s.op p)
    (hc : pc.isCommit = s.isCommit p) : Inv (s.goto p pc) := by
  refine h.congr _ s.halted (fun q => ?_) (fun q => ?_)
  · have := goto_op s p q pc
    by_cases hq : q = p <;> simp_all [op]
  have := goto_isCommit s p q pc
  by_cases hq : q = p <;> simp_all [isCommit]

/-! ### One step -/

/-- Entering an operation: a fresh number, and one more outstanding
unless the volume has no log. -/
lemma Inv.enter {n : Nat} (hp : s.op p = none)
    (hn : s.readonly = false → s.committing = false ∧ n = s.outstanding + 1) :
    Inv { s.goto p (.inOp s.nextOp) with outstanding := n, nextOp := s.nextOp + 1 } := by
  have hop := fun q => goto_op s p q (.inOp s.nextOp)
  -- an operation after the step is the new one or one from before
  have hcase : ∀ q o, (s.goto p (.inOp s.nextOp)).op q = some o →
      q = p ∧ o = s.nextOp ∨ s.op q = some o := by
    intro q o hq
    rw [hop] at hq
    split_ifs at hq with hqp
    · exact .inl ⟨hqp, (Option.some.inj hq).symm⟩
    · exact .inr hq
  have hcm : ∀ q, (s.goto p (.inOp s.nextOp)).isCommit q → s.isCommit q := by
    intro q hq
    rw [goto_isCommit] at hq
    split_ifs at hq
    · cases hq
    · exact hq
  refine { h with
    ops := fun hro => ?_, commit := fun q hq => ?_, unique := fun q r hq hr => ?_
    op_lt := fun q op hq => ?_, op_inj := fun q r op hq hr => ?_
    active := fun q op b hq he => ?_, txn_over := fun T hT op b he q hq => ?_
    event_lt := fun op b he => Nat.lt_succ_of_lt (h.event_lt op b he) }
  · obtain ⟨S, hS, hcard⟩ := h.ops hro
    have hpS : p ∉ S := by simp [hS, hp]
    refine ⟨insert p S, fun q => ?_, ?_⟩
    · change _ ↔ ((s.goto p (.inOp s.nextOp)).op q).isSome
      rw [hop]
      by_cases hq : q = p <;> simp [hq, hS, Pc.op]
    rw [card_insert_of_notMem hpS, hcard]
    exact (hn hro).2.symm
  · obtain ⟨hro, hcom, -⟩ := h.commit q (hcm q hq)
    rw [(hn hro).1] at hcom
    cases hcom
  · exact h.unique q r (hcm q hq) (hcm r hr)
  · rcases hcase q op hq with ⟨-, rfl⟩ | hq
    · exact Nat.lt_succ_self _
    · exact Nat.lt_succ_of_lt (h.op_lt q op hq)
  · rcases hcase q op hq with ⟨rfl, rfl⟩ | hq' <;> rcases hcase r _ hr with ⟨rfl, heq⟩ | hr'
    · rfl
    · exact absurd (h.op_lt r _ hr') (lt_irrefl _)
    · exact absurd (heq ▸ h.op_lt q op hq') (lt_irrefl _)
    · exact h.op_inj q r op hq' hr'
  · rcases hcase q op hq with ⟨-, rfl⟩ | hq
    · exact absurd (h.event_lt _ b he) (lt_irrefl _)
    · exact h.active q op b hq he
  · rcases hcase q op hq with ⟨-, rfl⟩ | hq
    · exact absurd (h.event_lt _ b (h.txn_sub T hT _ he)) (lt_irrefl _)
    · exact h.txn_over T hT op b he q hq

lemma tryBegin_inv (hp : s.pc p = .waiting) : Inv (s.tryBegin p) := by
  have hop : s.op p = none := by simp [op, hp, Pc.op]
  have hcm : s.isCommit p = false := by simp [isCommit, hp, Pc.isCommit]
  have hsleep : Inv (s.goto p .asleep) := h.goto hop.symm hcm.symm
  unfold tryBegin
  split_ifs with hro hcom hfull
  · exact h.enter hop (fun hf => by simp [hro] at hf)
  · exact hsleep
  · exact hsleep
  · exact h.enter hop (fun _ => ⟨by simpa using hcom, rfl⟩)

variable {b : Nat}

lemma logCheck_inv (hp : s.pc p = .inOp op) : Inv (s.logCheck p op b) := by
  unfold logCheck
  split_ifs
  · exact h.halt
  · exact h.halt
  · exact h.halt
  · exact h.goto (by simp [State.op, hp, Pc.op]) (by simp [State.isCommit, hp, Pc.isCommit])

lemma Inv.record {lh : List Nat}
    (hp : s.op p = some op) (hlh : ∀ c, c ∈ lh ↔ c = b ∨ c ∈ s.lh) :
    Inv { s with lh := lh, events := (op, b) :: s.events, pending := (op, b) :: s.pending } := by
  refine { h with
    event_lt := fun o c he => ?_, pending_sub := fun e he => ?_
    active := fun q o c hq he => ?_, whole := fun o c c' hpend he => ?_
    header := fun c => ?_, txn_sub := fun T hT e he => ?_
    txn_whole := fun T hT o c c' hev he => ?_ }
  · rcases mem_cons.mp he with heq | he
    · cases heq
      exact h.op_lt p op hp
    · exact h.event_lt o c he
  · exact (mem_cons.mp he).elim (fun heq => heq ▸ mem_cons_self)
      (fun he => mem_cons_of_mem _ (h.pending_sub e he))
  · rcases mem_cons.mp he with heq | he
    · exact heq ▸ mem_cons_self
    · exact mem_cons_of_mem _ (h.active q o c hq he)
  · rcases mem_cons.mp he with heq | he
    · exact heq ▸ mem_cons_self
    refine mem_cons_of_mem _ ?_
    -- an operation is pending because it runs, or was pending before
    rcases mem_cons.mp hpend with heq | hpend
    · cases heq
      exact h.active p op c hp he
    · exact h.whole o c c' hpend he
  · show c ∈ lh ↔ ∃ o, (o, c) ∈ (op, b) :: s.pending
    rw [hlh, h.header]
    constructor
    · rintro (rfl | ⟨o, ho⟩)
      · exact ⟨op, mem_cons_self⟩
      · exact ⟨o, mem_cons_of_mem _ ho⟩
    rintro ⟨o, ho⟩
    rcases mem_cons.mp ho with heq | ho
    · cases heq
      exact .inl rfl
    · exact .inr ⟨o, ho⟩
  · exact mem_cons_of_mem _ (h.txn_sub T hT e he)
  · rcases mem_cons.mp he with heq | he
    · cases heq
      exact absurd hp (h.txn_over T hT op c' hev p)
    · exact h.txn_whole T hT o c c' hev he

lemma logStore_inv (hp : s.pc p = .logging op b) : Inv (s.logStore p op b) := by
  have hg : Inv (s.goto p (.inOp op)) :=
    h.goto (by simp [State.op, hp, Pc.op]) (by simp [State.isCommit, hp, Pc.isCommit])
  have hop : (s.goto p (.inOp op)).op p = some op := by simp [Pc.op]
  unfold logStore
  split_ifs with hmem
  · refine hg.record hop (fun c => ?_)
    exact ⟨.inr, fun hc => hc.elim (fun heq => heq ▸ hmem) id⟩
  · exact h.halt
  refine hg.record hop (fun c => ?_)
  rw [List.mem_append, List.mem_singleton]
  exact or_comm

/-- Leaving an operation for a program point `pc` outside operations,
which is one of `commit` only when no operation is left. -/
lemma Inv.leave {n : Nat} {pc : Pc} {committing : Bool}
    (hp : s.op p = some op) (hcom : s.readonly = false → s.committing = false)
    (hn : s.readonly = false → n = s.outstanding - 1) (hpc : pc.op = none)
    (hlast : pc.isCommit → s.readonly = false ∧ committing ∧ n = 0) :
    Inv (s.leave p pc n committing) := by
  have hcm : ∀ q, (s.leave p pc n committing).isCommit q → q = p ∧ pc.isCommit := by
    intro q hq
    have hq : (if q = p then pc.isCommit else s.isCommit q) = true :=
      (goto_isCommit s p q pc).symm.trans hq
    by_cases hqp : q = p
    · exact ⟨hqp, by simpa [hqp] using hq⟩
    rw [if_neg hqp] at hq
    obtain ⟨hro, hcommitting, -⟩ := h.commit q hq
    rw [hcom hro] at hcommitting
    cases hcommitting
  have hop : ∀ q, (s.leave p pc n committing).op q = if q = p then none else s.op q :=
    fun q => (goto_op s p q pc).trans (by rw [hpc])
  have hop_some : ∀ q o, (s.leave p pc n committing).op q = some o → s.op q = some o := by
    intro q o hq
    rw [hop] at hq
    by_cases hqp : q = p <;> simp_all
  refine { h with
    ops := fun hro => ?_
    commit := fun q hq => hlast (hcm q hq).2
    unique := fun q r hq hr => (hcm q hq).1.trans (hcm r hr).1.symm
    op_lt := fun q o hq => h.op_lt q o (hop_some q o hq)
    op_inj := fun q r o hq hr => h.op_inj q r o (hop_some q o hq) (hop_some r o hr)
    active := fun q o b hq he => h.active q o b (hop_some q o hq) he
    txn_over := fun T hT o b he q hq => h.txn_over T hT o b he q (hop_some q o hq) }
  obtain ⟨S, hS, hcard⟩ := h.ops hro
  refine ⟨S.erase p, fun q => ?_, ?_⟩
  · rw [hop, mem_erase, hS]
    by_cases hqp : q = p <;> simp [hqp]
  rw [card_erase_of_mem ((hS p).mpr (by simp [hp])), hcard]
  exact (hn hro).symm

lemma endOp_inv (hp : s.pc p = .inOp op) : Inv (s.endOp p) := by
  have hop : s.op p = some op := by simp [State.op, hp, Pc.op]
  unfold State.endOp
  split
  · next hro =>
    have hf : ¬ s.readonly = false := by simp [hro]
    exact h.leave hop (fun hro' => absurd hro' hf) (fun hro' => absurd hro' hf) rfl nofun
  next hro =>
  split
  · exact h.halt
  next hcom =>
  split
  · next hlast =>
    exact h.leave hop (fun _ => by simpa using hcom) (fun _ => rfl) rfl
      (fun _ => ⟨by simpa using hro, rfl, hlast⟩)
  have hidle : Inv (s.leave p .idle (s.outstanding - 1) s.committing) :=
    h.leave hop (fun _ => by simpa using hcom) (fun _ => rfl) rfl nofun
  exact hidle.wakeup

lemma Inv.commit_goto (hp : s.isCommit p) (st : Stage) : Inv (s.goto p (.commit st)) :=
  h.goto (h.quiet hp p).symm hp.symm

lemma Inv.commit_head (hquiet : ∀ q, s.op q = none) :
    Inv { s with committed := ⟨s.lh, s.pending⟩ :: s.committed } := by
  refine { h with
    txn_over := fun T hT op b he q hq => ?_, txn_sub := fun T hT e he => ?_,
    txn_whole := fun T hT op b b' he' he => ?_, txn_blocks := fun T hT b => ?_ }
  · have hq : s.op q = some op := hq
    rw [hquiet q] at hq
    cases hq
  · rcases mem_cons.mp hT with rfl | hT
    · exact h.pending_sub e he
    · exact h.txn_sub T hT e he
  · rcases mem_cons.mp hT with rfl | hT
    · exact h.whole op b b' he' he
    · exact h.txn_whole T hT op b b' he' he
  rcases mem_cons.mp hT with rfl | hT
  · exact h.header b
  · exact h.txn_blocks T hT b

lemma Inv.commit_clear (hquiet : ∀ q, s.op q = none) :
    Inv { s with lh := [], pending := [] } := by
  refine { h with
    pending_sub := nofun, whole := nofun, header := fun b => by simp,
    active := fun q op b hq he => ?_ }
  have hq : s.op q = some op := hq
  rw [hquiet q] at hq
  cases hq

lemma Inv.commit_finish (hp : s.isCommit p) :
    Inv { s.goto p .idle with committing := false } := by
  have hop : ∀ q, op { s.goto p .idle with committing := false } q = s.op q := by
    intro q
    refine (goto_op s p q .idle).trans ?_
    by_cases hqp : q = p
    · simp [hqp, Pc.op, h.quiet hp p]
    · simp [hqp]
  have hcm : ∀ q, ¬ isCommit { s.goto p .idle with committing := false } q := by
    intro q hq
    have hq : (if q = p then false else s.isCommit q) = true :=
      (goto_isCommit s p q .idle).symm.trans hq
    by_cases hqp : q = p
    · simp [hqp] at hq
    rw [if_neg hqp] at hq
    exact hqp (h.unique q p hq hp)
  refine { h with
    ops := fun hro => (h.ops hro).imp fun S hS => ⟨fun q => hop q ▸ hS.1 q, hS.2⟩
    commit := fun q hq => absurd hq (hcm q)
    unique := fun q _ hq => absurd hq (hcm q)
    op_lt := fun q op hq => h.op_lt q op (hop q ▸ hq)
    op_inj := fun q r op hq hr => h.op_inj q r op (hop q ▸ hq) (hop r ▸ hr)
    active := fun q op b hq => h.active q op b (hop q ▸ hq)
    txn_over := fun T hT op b he q => hop q ▸ h.txn_over T hT op b he q }

lemma commitStep_inv {st : Stage}
    (hp : s.pc p = .commit st) : Inv (s.commitStep p st) := by
  have hcm : s.isCommit p := by simp [isCommit, hp, Pc.isCommit]
  have hgo : ∀ st', Inv (s.goto p (.commit st')) := h.commit_goto hcm
  have hquiet : ∀ st' q, (s.goto p (.commit st')).op q = none := by
    intro st' q
    rw [goto_op]
    split_ifs
    · rfl
    · exact h.quiet hcm q
  cases st with
  | writeLog tail =>
    simp only [commitStep]
    split_ifs
    · exact hgo _
    · exact hgo _
  | writeHead => exact (hgo _).commit_head (hquiet _)
  | install tail =>
    simp only [commitStep]
    split_ifs
    · exact hgo _
    · exact hgo _
  | clear => exact (hgo _).commit_clear (hquiet _)
  | finish => exact (h.commit_finish hcm).wakeup

lemma step_inv {t : State} {a : Act} (hs : step s a = some t) : Inv t := by
  rcases step_cases hs with ⟨p, -, hp, rfl⟩ | ⟨p, -, hp, rfl⟩ | ⟨p, op, b, -, hp, rfl⟩ |
    ⟨p, op, b, -, hp, rfl⟩ | ⟨p, op, -, hp, rfl⟩ | ⟨p, st, -, hp, rfl⟩
  · exact h.goto (by simp [op, hp, Pc.op]) (by simp [isCommit, hp, Pc.isCommit])
  · exact tryBegin_inv h hp
  · exact logCheck_inv h hp
  · exact logStore_inv h hp
  · exact endOp_inv h hp
  · exact commitStep_inv h hp

/-! ## Runs -/

end

/-- The system takes the actions `as`, in that order, from `s` to `t`. -/
abbrev Steps (s : State) (as : List Act) (t : State) : Prop :=
  Runs.Run (fun s a t => step s a = some t) s as t

lemma steps_inv {size : Nat} {readonly : Bool} {as : List Act}
    (h : Steps (init size readonly) as s) : Inv s :=
  h.invariant (init_inv size readonly) fun _ _ _ h => step_inv h

/-- In every state any interleaving reaches: while a process is in
`commit`, no operation is outstanding and every other process is outside
`log_write` and outside any operation; a transaction's blocks are those
its `log_write`s name; and of the `log_write`s an operation ever makes, a
committed transaction holds all or none. -/
theorem group_commit {size : Nat} {readonly : Bool} {as : List Act} {s : State}
    (h : Steps (init size readonly) as s) :
    (∀ p st, s.pc p = .commit st → s.outstanding = 0 ∧
      ∀ q, (∀ op, s.pc q ≠ .inOp op) ∧ (∀ op b, s.pc q ≠ .logging op b)) ∧
    (∀ p st b, s.pc p = .commit st →
      ∀ q, step s (.logCheck q b) = none ∧ step s (.logStore q) = none) ∧
    ∀ T ∈ s.committed, (∀ b, b ∈ T.blocks ↔ ∃ op, (op, b) ∈ T.events) ∧
      ∀ op, (∀ b, (op, b) ∈ s.events → (op, b) ∈ T.events) ∨ (∀ b, (op, b) ∉ T.events) := by
  have hinv := steps_inv h
  have hcm : ∀ p st, s.pc p = .commit st → s.isCommit p := fun p st hp => by
    simp [isCommit, hp, Pc.isCommit]
  have hquiet : ∀ p st, s.pc p = .commit st → ∀ q, s.op q = none := fun p st hp =>
    hinv.quiet (hcm p st hp)
  refine ⟨fun p st hp => ⟨?_, fun q => ?_⟩, fun p st b hp q => ?_, fun T hT => ⟨?_, ?_⟩⟩
  · exact (hinv.commit p (hcm p st hp)).2.2
  · have hq := hquiet p st hp q
    exact ⟨fun op hpc => by simp [State.op, hpc, Pc.op] at hq,
      fun op b hpc => by simp [State.op, hpc, Pc.op] at hq⟩
  · have hq := hquiet p st hp q
    constructor
    all_goals
      unfold step
      split_ifs
      · rfl
      simp only
      split
      · next hpc => simp [op, hpc, Pc.op] at hq
      · rfl
  · exact hinv.txn_blocks T hT
  · intro op
    by_cases hsome : ∃ b', (op, b') ∈ T.events
    · obtain ⟨b', hb'⟩ := hsome
      exact .inl fun b he => hinv.txn_whole T hT op b b' hb' he
    · exact .inr fun b hb => hsome ⟨b, hb⟩

/-- Two overlapping operations, up to the header write that commits both. -/
def sampleActs : List Act :=
  [.beginOp 0, .tryBegin 0, .beginOp 1, .logCheck 0 50, .tryBegin 1, .logCheck 1 60,
   .logStore 1, .logStore 0, .endOp 0, .logCheck 1 50, .logStore 1, .endOp 1,
   .commitStep 1, .commitStep 1, .commitStep 1, .commitStep 1]

def sampleState : State := (Runs.follow step (init 31 false) sampleActs).getD (init 31 false)

lemma sampleState_steps : Steps (init 31 false) sampleActs sampleState :=
  Runs.run_of_follow rfl

theorem group_commit_sample : sampleState.committed = [⟨[60, 50], [(1, 50), (0, 50), (1, 60)]⟩] ∧
    ∀ T ∈ sampleState.committed, ∀ op,
      (∀ b, (op, b) ∈ sampleState.events → (op, b) ∈ T.events) ∨ (∀ b, (op, b) ∉ T.events) :=
  ⟨rfl, fun T hT => ((group_commit sampleState_steps).2.2 T hT).2⟩

end Proninx.LogOps
