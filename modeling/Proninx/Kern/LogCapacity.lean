import Mathlib.Algebra.Order.BigOperators.Group.Finset
import Proninx.Kern.LogOps

/-!
# Admission and capacity of the log

`begin_op` admits an operation only when the logged blocks and
`MAXOPBLOCKS` for every outstanding operation fit into `LOGSIZE`. So as
long as no operation logs more than `k` distinct blocks, what is logged
plus what the running operations may still log stays bounded
(`Reserved`). `log_write` however panics at `_log.size - 1` logged
blocks, and `mkfs` makes `_log.size` equal to `LOGSIZE`, the header
included: the log holds one block less than `begin_op` reserves.
-/

namespace Proninx.LogOps

open Finset List Option State

/-- The number of log blocks `mkfs` stores in the superblock (`nlog`). -/
def mkfsLogSize : Nat := LOGSIZE

def opBlocks (s : State) (op : Nat) : Finset Nat :=
  ((s.events.filter fun e => e.1 = op).map Prod.snd).toFinset

variable {op b : Nat}

lemma mem_opBlocks {s : State} : b ∈ opBlocks s op ↔ (op, b) ∈ s.events := by
  simp [opBlocks]

/-- A `log_write` keeps its operation within `k` distinct blocks. -/
def Within (k : Nat) (s : State) : Act → Prop
  | .logCheck p b => ∀ op ∈ (s.pc p).op, (insert b (opBlocks s op)).card ≤ k
  | _ => True

instance (k : Nat) (s : State) : (a : Act) → Decidable (Within k s a)
  | .logCheck p b =>
    inferInstanceAs (Decidable (∀ op ∈ (s.pc p).op, (insert b (opBlocks s op)).card ≤ k))
  | .beginOp _ | .tryBegin _ | .logStore _ | .endOp _ | .commitStep _ =>
    inferInstanceAs (Decidable True)

/-- A step of a system whose operations log at most `k` distinct blocks each. -/
def stepWithin (k : Nat) (s : State) (a : Act) : Option State :=
  if Within k s a then step s a else none

variable {a : Act}

lemma stepWithin_some {k : Nat} {s t : State} (h : stepWithin k s a = some t) :
    Within k s a ∧ step s a = some t := by
  unfold stepWithin at h
  split at h
  · next hw => exact ⟨hw, h⟩
  · cases h

/-- What the operation of process `p` may still log. -/
def unused (k : Nat) (s : State) (p : Nat) : Nat :=
  match s.op p with
  | some op => k - (opBlocks s op).card
  | none => 0

/-- The admission test leaves room for `k` blocks per operation in `c` blocks. -/
def Admits (k c : Nat) : Prop :=
  ∀ n out, n + (out + 1) * MAXOPBLOCKS ≤ LOGSIZE → (out = 0 → n = 0) → n + (out + 1) * k ≤ c

/-- Logged blocks and reservations together stay within `c`. -/
structure Reserved (k c : Nat) (s : State) : Prop where
  sum : ∃ S : Finset Nat, (∀ p, p ∈ S ↔ (s.op p).isSome) ∧ S.card = s.outstanding ∧
    s.lh.length + ∑ p ∈ S, unused k s p ≤ c
  flight : ∀ p op b, s.pc p = .logging op b → (insert b (opBlocks s op)).card ≤ k
  /-- The log is empty between a commit and the next operation. -/
  empty : s.committing = false → s.outstanding = 0 → s.lh = []
  finish : ∀ p, s.pc p = .commit .finish → s.lh = []

variable {k c : Nat} {s t : State}

lemma Reserved.lh_le (h : Reserved k c s) : s.lh.length ≤ c := by
  obtain ⟨S, -, -, hle⟩ := h.sum
  omega

lemma init_reserved (k c size : Nat) : Reserved k c (init size false) where
  sum := ⟨∅, by simp [init, op, Pc.op], rfl, by simp [init]⟩
  flight p op b h := by simp [init] at h
  empty _ _ := rfl
  finish p h := by simp [init] at h

variable {p : Nat}

lemma unused_congr (hop : t.op p = s.op p) (hev : t.events = s.events) :
    unused k t p = unused k s p := by
  unfold unused opBlocks
  rw [hop, hev]

/-- Program points outside `log_write` and the end of `commit` do not matter. -/
lemma Reserved.move (h : Reserved k c s) (hop : ∀ p, t.op p = s.op p)
    (hev : t.events = s.events) (hlh : t.lh = s.lh) (hout : t.outstanding = s.outstanding)
    (hcom : t.committing = s.committing)
    (hlog : ∀ p op b, t.pc p = .logging op b → (insert b (opBlocks s op)).card ≤ k)
    (hfin : ∀ p, t.pc p = .commit .finish → s.lh = []) : Reserved k c t where
  sum := by
    obtain ⟨S, hS, hcard, hle⟩ := h.sum
    refine ⟨S, fun p => hop p ▸ hS p, hout ▸ hcard, ?_⟩
    rw [hlh, sum_congr rfl fun p _ => unused_congr (hop p) hev]
    exact hle
  flight p op b hp := by
    rw [opBlocks, hev]
    exact hlog p op b hp
  empty hc ho := hlh ▸ h.empty (hcom ▸ hc) (hout ▸ ho)
  finish p hp := hlh ▸ hfin p hp

lemma goto_pc (s : State) (p q : Nat) (pc : Pc) :
    (s.goto p pc).pc q = if q = p then pc else s.pc q := by
  by_cases h : q = p <;> simp [goto, h]

section

variable (h : Reserved k c s)
include h

lemma Reserved.goto {pc : Pc} (hop : pc.op = s.op p)
    (hlog : ∀ op b, pc = .logging op b → (insert b (opBlocks s op)).card ≤ k)
    (hfin : pc = .commit .finish → s.lh = []) : Reserved k c (s.goto p pc) := by
  refine h.move (fun q => ?_) rfl rfl rfl rfl (fun q op b hq => ?_) fun q hq => ?_
  · rw [goto_op]
    split
    · next heq => rw [heq, hop]
    · rfl
  · rw [goto_pc] at hq
    split at hq
    · exact hlog op b hq
    · exact h.flight q op b hq
  rw [goto_pc] at hq
  split at hq
  · exact hfin hq
  · exact h.finish q hq

lemma Reserved.halt : Reserved k c { s with halted := true } :=
  h.move (fun _ => rfl) rfl rfl rfl rfl h.flight h.finish

lemma Reserved.wakeup : Reserved k c s.wakeup := by
  have hpc : ∀ p pc, pc ≠ .waiting → s.wakeup.pc p = pc → s.pc p = pc := by
    intro p pc hne hp
    simp only [State.wakeup] at hp
    split at hp
    · exact absurd hp.symm hne
    · exact hp
  exact h.move (wakeup_op s) rfl rfl rfl rfl
    (fun p op b hp => h.flight p op b (hpc p _ (by simp) hp)) fun p hp => h.finish p (hpc p _ (by simp) hp)

/-! ## One step -/

omit h in
lemma unused_le (k : Nat) (s : State) (p : Nat) : unused k s p ≤ k := by
  unfold unused
  split
  · exact Nat.sub_le _ _
  · exact Nat.zero_le _

omit h in
lemma Reserved.enter (hk : Admits k c) (h : Reserved k c s) (hp : s.op p = none)
    (hcom : s.committing = false)
    (hroom : s.lh.length + (s.outstanding + 1) * MAXOPBLOCKS ≤ LOGSIZE) :
    Reserved k c { s.goto p (.inOp s.nextOp) with
      outstanding := s.outstanding + 1, nextOp := s.nextOp + 1 } := by
  have hop : ∀ q, op { s.goto p (.inOp s.nextOp) with
      outstanding := s.outstanding + 1, nextOp := s.nextOp + 1 } q
        = if q = p then some s.nextOp else s.op q := fun q => goto_op s p q _
  have hpc : ∀ q pc, (∀ op, pc ≠ .inOp op) →
      (s.goto p (.inOp s.nextOp)).pc q = pc → s.pc q = pc := by
    intro q pc hne hq
    rw [goto_pc] at hq
    split at hq
    · exact absurd hq.symm (hne _)
    · exact hq
  refine ⟨?_, fun q op b hq => h.flight q op b (hpc q _ nofun hq),
    fun _ hzero => absurd hzero (Nat.succ_ne_zero _), fun q hq => h.finish q (hpc q _ nofun hq)⟩
  obtain ⟨S, hS, hcard, -⟩ := h.sum
  have hpS : p ∉ S := by simp [hS, hp]
  refine ⟨insert p S, fun q => ?_, by rw [card_insert_of_notMem hpS, hcard], ?_⟩
  · rw [hop]
    by_cases hq : q = p <;> simp [hq, hS]
  have hempty : s.outstanding = 0 → s.lh.length = 0 := fun hz => by rw [h.empty hcom hz, length_nil]
  have hfit := hk _ _ hroom hempty
  have hsum : ∀ t : State, ∑ q ∈ insert p S, unused k t q ≤ (insert p S).card * k := fun t =>
    sum_le_card_nsmul _ _ _ fun q _ => unused_le k t q
  rw [card_insert_of_notMem hpS, hcard] at hsum
  exact le_trans (Nat.add_le_add_left (hsum _) _) hfit

omit h in
lemma opBlocks_record (s : State) (op b : Nat) {t : State} (hev : t.events = (op, b) :: s.events)
    (op' : Nat) :
    opBlocks t op' = if op' = op then insert b (opBlocks s op) else opBlocks s op' := by
  ext x
  rw [mem_opBlocks, hev, List.mem_cons, Prod.mk.injEq]
  split
  · next heq => simp [heq, mem_opBlocks]
  · next hne => simp [hne, mem_opBlocks]

/-- A `log_write` of a running operation: a block that is new in the
header is new to its operation, so one reserved block pays for it. -/
lemma Reserved.record (hinv : Inv s) {lh : List Nat}
    (hp : s.pc p = .logging op b)
    (hlh : lh.length = s.lh.length ∨ (lh.length = s.lh.length + 1 ∧ b ∉ s.lh)) :
    Reserved k c { s.goto p (.inOp op) with
      lh := lh, events := (op, b) :: s.events, pending := (op, b) :: s.pending } := by
  have hflight := h.flight p op b hp
  have hopp : s.op p = some op := by simp [State.op, hp, Pc.op]
  generalize ht : ({ s.goto p (.inOp op) with
    lh := lh, events := (op, b) :: s.events, pending := (op, b) :: s.pending } : State) = t
  have hop : ∀ q, t.op q = s.op q := fun q => by
    rw [← ht]
    refine (goto_op s p q _).trans ?_
    split
    · next heq => rw [heq, hopp]; rfl
    · rfl
  have hblocks := opBlocks_record s op b (t := t) (by rw [← ht])
  have hpc : ∀ q pc, (∀ op, pc ≠ .inOp op) → t.pc q = pc → q ≠ p ∧ s.pc q = pc := by
    intro q pc hne hq
    rw [← ht] at hq
    have hq : (s.goto p (.inOp op)).pc q = pc := hq
    rw [goto_pc] at hq
    split at hq
    · exact absurd hq.symm (hne _)
    · next hqp => exact ⟨hqp, hq⟩
  have hother : ∀ q op', q ≠ p → s.op q = some op' → op' ≠ op := fun q op' hqp hq heq =>
    hqp (hinv.op_inj q p op (heq ▸ hq) hopp)
  obtain ⟨S, hS, hcard, hle⟩ := h.sum
  have hpS : p ∈ S := (hS p).mpr (by simp [hopp])
  have hpos : s.outstanding ≠ 0 := fun hz => by
    rw [← hcard, card_eq_zero] at hz
    simp [hz] at hpS
  refine ⟨⟨S, fun q => hop q ▸ hS q, by rw [← ht]; exact hcard, ?_⟩, fun q op' b' hq => ?_,
    fun _ hz => absurd (by rw [← ht] at hz; exact hz) hpos, fun q hq => ?_⟩
  · -- only the reservation of `p` shrinks, by one if the header grew
    have hrest : ∑ q ∈ S.erase p, unused k t q = ∑ q ∈ S.erase p, unused k s q := by
      refine sum_congr rfl fun q hq => ?_
      obtain ⟨hqp, hqS⟩ := mem_erase.mp hq
      obtain ⟨op', hop'⟩ := isSome_iff_exists.mp ((hS q).mp hqS)
      unfold unused
      rw [hop, hop']
      dsimp only
      rw [hblocks, if_neg (hother q op' hqp hop')]
    have hnew : unused k t p = k - (insert b (opBlocks s op)).card := by
      unfold unused
      rw [hop, hopp]
      dsimp only
      rw [hblocks, if_pos rfl]
    have hold : unused k s p = k - (opBlocks s op).card := by
      unfold unused
      rw [hopp]
    rw [← add_sum_erase S _ hpS, hold] at hle
    rw [← add_sum_erase S _ hpS, hrest, hnew]
    have hlen : t.lh.length = lh.length := by rw [← ht]
    have hsub := card_le_card (subset_insert b (opBlocks s op))
    rcases hlh with heq | ⟨heq, hnotin⟩
    · omega
    have hfresh : b ∉ opBlocks s op := fun hmem =>
      hnotin ((hinv.header b).mpr ⟨op, hinv.active p op b hopp (mem_opBlocks.mp hmem)⟩)
    rw [card_insert_of_notMem hfresh] at hflight ⊢
    omega
  · obtain ⟨hqp, hq'⟩ := hpc q (.logging op' b') (by simp) hq
    rw [hblocks, if_neg (hother q op' hqp (by simp [State.op, hq', Pc.op]))]
    exact h.flight q op' b' hq'
  · -- nobody is at the end of `commit` while `p` is inside an operation
    obtain ⟨-, hq'⟩ := hpc q (.commit .finish) (by simp) hq
    exact absurd (hinv.commit q (by simp [isCommit, hq', Pc.isCommit])).2.2 hpos

lemma Reserved.leave {pc : Pc} {committing : Bool}
    (hp : s.op p = some op) (hpc : pc.op = none)
    (hcom : committing = false → s.outstanding - 1 ≠ 0)
    (hfin : pc = .commit .finish → s.lh = []) :
    Reserved k c (s.leave p pc (s.outstanding - 1) committing) := by
  have hop : ∀ q, (s.leave p pc (s.outstanding - 1) committing).op q
      = if q = p then none else s.op q := fun q => (goto_op s p q pc).trans (by rw [hpc])
  have hpc' : ∀ q pc', (s.leave p pc (s.outstanding - 1) committing).pc q = pc' →
      q = p ∧ pc = pc' ∨ s.pc q = pc' := by
    intro q pc' hq
    have hq : (s.goto p pc).pc q = pc' := hq
    rw [goto_pc] at hq
    split at hq
    · next heq => exact .inl ⟨heq, hq⟩
    · exact .inr hq
  obtain ⟨S, hS, hcard, hle⟩ := h.sum
  have hpS : p ∈ S := (hS p).mpr (by simp [hp])
  refine ⟨⟨S.erase p, fun q => ?_, ?_, ?_⟩, fun q op' b hq => ?_, fun hc hz => absurd hz (hcom hc),
    fun q hq => ?_⟩
  · rw [hop, mem_erase, hS]
    by_cases hqp : q = p <;> simp [hqp]
  · rw [card_erase_of_mem hpS, hcard]
    rfl
  · have hrest : ∑ q ∈ S.erase p, unused k (s.leave p pc (s.outstanding - 1) committing) q
        = ∑ q ∈ S.erase p, unused k s q := by
      refine sum_congr rfl fun q hq => unused_congr ?_ rfl
      rw [hop, if_neg (mem_erase.mp hq).1]
    rw [hrest]
    rw [← add_sum_erase S _ hpS] at hle
    have hlen : (s.leave p pc (s.outstanding - 1) committing).lh = s.lh := rfl
    rw [hlen]
    omega
  · rcases hpc' q _ hq with ⟨-, heq⟩ | hq'
    · rw [heq] at hpc
      cases hpc
    · exact h.flight q op' b hq'
  · rcases hpc' q _ hq with ⟨-, heq⟩ | hq'
    · exact hfin heq
    · exact h.finish q hq'

omit h in
lemma tryBegin_reserved (hk : Admits k c) (h : Reserved k c s) (hro : s.readonly = false)
    (hp : s.pc p = .waiting) : Reserved k c (s.tryBegin p) := by
  have hop : s.op p = none := by simp [op, hp, Pc.op]
  have hsleep : Reserved k c (s.goto p .asleep) := h.goto hop.symm (by simp) (by simp)
  unfold tryBegin
  rw [if_neg (by simp [hro])]
  split
  · exact hsleep
  next hcom =>
  split
  · exact hsleep
  · next hroom => exact h.enter hk hop (by simpa using hcom) (not_lt.mp hroom)

lemma logCheck_reserved (hp : s.pc p = .inOp op)
    (hw : (insert b (opBlocks s op)).card ≤ k) : Reserved k c (s.logCheck p op b) := by
  unfold logCheck
  split
  · exact h.halt
  split
  · exact h.halt
  split
  · exact h.halt
  refine h.goto (by simp [State.op, hp, Pc.op]) (fun op' b' heq => ?_) nofun
  cases heq
  exact hw

lemma logStore_reserved (hinv : Inv s)
    (hp : s.pc p = .logging op b) : Reserved k c (s.logStore p op b) := by
  unfold logStore
  split
  · exact h.record hinv hp (.inl rfl)
  next hnew =>
  split
  · exact h.halt
  · exact h.record hinv hp (.inr ⟨by simp, hnew⟩)

lemma endOp_reserved (hro : s.readonly = false)
    (hp : s.pc p = .inOp op) : Reserved k c (s.endOp p) := by
  have hop : s.op p = some op := by simp [State.op, hp, Pc.op]
  unfold State.endOp
  rw [if_neg (by simp [hro])]
  split
  · exact h.halt
  next hcom =>
  split
  · refine h.leave hop ?_ (by simp) fun hfin => ?_
    · split <;> rfl
    split at hfin
    · cases hfin
    · next hzero => exact eq_nil_of_length_eq_zero (by omega)
  · next hmore =>
    have hleft : Reserved k c (s.leave p .idle (s.outstanding - 1) s.committing) :=
      h.leave hop rfl (fun _ => hmore) (by simp)
    exact hleft.wakeup

lemma Reserved.clear {pending : List (Nat × Nat)} :
    Reserved k c { s with lh := [], pending := pending } := by
  obtain ⟨S, hS, hcard, hle⟩ := h.sum
  exact ⟨⟨S, hS, hcard, le_trans (Nat.add_le_add_right (Nat.zero_le _) _) hle⟩, h.flight,
    fun _ _ => rfl, fun _ _ => rfl⟩

lemma commitStep_reserved (hinv : Inv s) {st : Stage}
    (hp : s.pc p = .commit st) : Reserved k c (s.commitStep p st) := by
  have hcm : s.isCommit p := by simp [isCommit, hp, Pc.isCommit]
  have hop : s.op p = none := hinv.quiet hcm p
  have hgo : ∀ {st'}, st' ≠ .finish → Reserved k c (s.goto p (.commit st')) := fun hne =>
    h.goto hop.symm (by simp) fun heq => absurd (Pc.commit.inj heq) hne
  cases st with
  | writeLog tail =>
    simp only [commitStep]
    split <;> exact hgo (by simp)
  | writeHead =>
    have hmoved : Reserved k c (s.goto p (.commit (.install 0))) := hgo (by simp)
    exact hmoved.move (fun _ => rfl) rfl rfl rfl rfl hmoved.flight hmoved.finish
  | install tail =>
    simp only [commitStep]
    split <;> exact hgo (by simp)
  | clear =>
    have hcleared : Reserved k c { s with lh := [], pending := [] } := h.clear
    have hdone : Reserved k c (goto { s with lh := [], pending := [] } p
        (.commit .finish)) := hcleared.goto hop.symm (by simp) fun _ => rfl
    exact hdone
  | finish => ?_
  have hlh := h.finish p hp
  have hidle : Reserved k c (s.goto p .idle) := h.goto hop.symm (by simp) (by simp)
  have hwoken := hidle.wakeup
  exact ⟨hwoken.sum, hwoken.flight, fun _ _ => hlh, hwoken.finish⟩

omit h in
lemma step_reserved (hk : Admits k c) (h : Reserved k c s) (hinv : Inv s)
    (hro : s.readonly = false) (hs : stepWithin k s a = some t) : Reserved k c t := by
  obtain ⟨hw, hs⟩ := stepWithin_some hs
  rcases step_cases hs with ⟨p, -, hp, rfl⟩ | ⟨p, -, hp, rfl⟩ | ⟨p, op, b, rfl, hp, rfl⟩ |
    ⟨p, op, b, -, hp, rfl⟩ | ⟨p, op, -, hp, rfl⟩ | ⟨p, st, -, hp, rfl⟩
  · exact h.goto (by simp [op, hp, Pc.op]) nofun nofun
  · exact tryBegin_reserved hk h hro hp
  · exact logCheck_reserved h hp (hw op (by simp [hp, Pc.op]))
  · exact logStore_reserved h hinv hp
  · exact endOp_reserved h hro hp
  · exact commitStep_reserved h hinv hp

/-! ## Whole runs -/

end

lemma step_fixed (hs : step s a = some t) : t.size = s.size ∧ t.readonly = s.readonly := by
  rcases step_cases hs with ⟨p, -, hp, rfl⟩ | ⟨p, -, hp, rfl⟩ | ⟨p, op, b, rfl, hp, rfl⟩ |
    ⟨p, op, b, -, hp, rfl⟩ | ⟨p, op, -, hp, rfl⟩ | ⟨p, st, -, hp, rfl⟩
  · exact ⟨rfl, rfl⟩
  · unfold tryBegin
    split_ifs <;> exact ⟨rfl, rfl⟩
  · unfold logCheck
    split_ifs <;> exact ⟨rfl, rfl⟩
  · unfold logStore
    split_ifs <;> exact ⟨rfl, rfl⟩
  · unfold endOp
    split_ifs <;> exact ⟨rfl, rfl⟩
  unfold commitStep
  split
  · split_ifs <;> exact ⟨rfl, rfl⟩
  · exact ⟨rfl, rfl⟩
  · split_ifs <;> exact ⟨rfl, rfl⟩
  · exact ⟨rfl, rfl⟩
  · exact ⟨rfl, rfl⟩

/-- A run of operations that log at most `k` distinct blocks each. -/
abbrev StepsWithin (k : Nat) (s : State) (as : List Act) (t : State) : Prop :=
  Runs.Run (fun s a t => stepWithin k s a = some t) s as t

lemma stepsWithin_reserved (hk : Admits k c) {size : Nat} {as : List Act}
    (h : StepsWithin k (init size false) as s) :
    Reserved k c s ∧ Inv s ∧ s.size = size ∧ s.readonly = false := by
  refine h.invariant
    ⟨init_reserved k c size, init_inv size false, rfl, rfl⟩ fun s a t hs hstep => ?_
  obtain ⟨hres, hinv, hsize, hro⟩ := hs
  have hst := (stepWithin_some hstep).2
  obtain ⟨hsize', hro'⟩ := step_fixed hst
  exact ⟨step_reserved hk hres hinv hro hstep, step_inv hinv hst, hsize'.trans hsize,
    hro'.trans hro⟩

lemma admits_nine : Admits (MAXOPBLOCKS - 1) (LOGSIZE - 2) := by
  intro n out h hzero
  unfold MAXOPBLOCKS LOGSIZE MAXOPBLOCKS at *
  omega

/-- On a log of the size `mkfs` writes, when no operation logs more than
nine distinct blocks: the logged blocks fit the log's data blocks, and no
`log_write` panics. -/
theorem log_capacity {as : List Act}
    (h : StepsWithin (MAXOPBLOCKS - 1) (init mkfsLogSize false) as s) :
    s.size = mkfsLogSize ∧ s.lh.length ≤ s.size - 1 ∧
    (∀ p op b, s.pc p = .inOp op → s.logCheck p op b = s.goto p (.logging op b)) ∧
    ∀ p op b, s.pc p = .logging op b →
      (s.logStore p op b).halted = s.halted ∧ (s.logStore p op b).lh.length ≤ s.size - 1 := by
  obtain ⟨hres, hinv, hsize, hro⟩ := stepsWithin_reserved admits_nine h
  have hlh := hres.lh_le
  unfold mkfsLogSize at hsize
  have hlog : LOGSIZE = 30 := rfl
  refine ⟨hsize, by omega, fun p op b hp => ?_, fun p op b hp => ?_⟩
  · have hpos := hinv.outstanding_pos hro (show s.op p = some op by simp [State.op, hp, Pc.op])
    rw [State.logCheck, if_neg (by simp [hro]), if_neg (by omega), if_neg (by omega)]
  have hstored := (logStore_reserved hres hinv hp).lh_le
  refine ⟨?_, by omega⟩
  unfold logStore
  split
  · rfl
  rw [if_neg (by omega)]
  rfl

/-- Two operations in one transaction, both of which log. -/
def pairActs : List Act :=
  [.beginOp 0, .tryBegin 0, .beginOp 1, .tryBegin 1, .logCheck 0 50, .logStore 0, .logCheck 1 51]

def pairState : State :=
  (Runs.follow (stepWithin (MAXOPBLOCKS - 1)) (init mkfsLogSize false) pairActs).getD
    (init mkfsLogSize false)

theorem log_capacity_pair : pairState.pc 1 = .logging 1 51 ∧ pairState.lh.length = 1 ∧
    (pairState.logStore 1 1 51).lh.length ≤ pairState.size - 1 := by
  have hrun : StepsWithin (MAXOPBLOCKS - 1) (init mkfsLogSize false) pairActs pairState :=
    Runs.run_of_follow rfl
  have hpc : pairState.pc 1 = .logging 1 51 := rfl
  exact ⟨hpc, rfl, ((log_capacity hrun).2.2.2 1 1 51 hpc).2⟩

/-- Three operations, of which two have logged ten blocks and one nine. -/
def fullActs : List Act :=
  (List.range 3).flatMap (fun p => [.beginOp p, .tryBegin p]) ++
    (List.range 29).flatMap fun i => [.logCheck (i / 10) (100 + i), .logStore (i / 10)]

def fullState : State :=
  (Runs.follow (stepWithin MAXOPBLOCKS) (init mkfsLogSize false) fullActs).getD
    (init mkfsLogSize false)

/-- The tenth block of the third operation is within its reservation and panics. -/
theorem log_write_panics : StepsWithin MAXOPBLOCKS (init mkfsLogSize false) fullActs fullState ∧
    fullState.halted = false ∧ fullState.pc 2 = .inOp 2 ∧
    Within MAXOPBLOCKS fullState (.logCheck 2 129) ∧
    (fullState.logCheck 2 2 129).halted = true := by
  refine ⟨Runs.run_of_follow ?_, ?_⟩
  · have hsome : (Runs.follow (stepWithin MAXOPBLOCKS) (init mkfsLogSize false)
        fullActs).isSome := by decide +kernel
    obtain ⟨t, ht⟩ := isSome_iff_exists.mp hsome
    rw [fullState, ht, getD_some]
  · decide +kernel

end Proninx.LogOps
