import Mathlib.Algebra.Order.BigOperators.Group.Finset
import Proninx.Kern.Bio

/-!
# When the buffer cache runs out

`bget` recycles a buffer that nobody references and that the log has not
pinned. The cache has `NBUF` buffers, as many as the log may have blocks,
and nothing bounds the number of processes that hold a buffer: `readi`
takes no transaction. This module says exactly when `bget` finds nothing.
-/

namespace Proninx.Bio

open Finset Function List Nat Option State

variable {disk₀ : Label → Block} {s : State}

/-- The buffers that `log_write` or `bwrite` marked and no transfer has
cleaned since. -/
def pinned (s : State) : Finset Nat := (Finset.range NBUF).filter fun x => (s.buf x).dirty

/-- The clean buffers with a reference. -/
def inUse (s : State) : Finset Nat :=
  (Finset.range NBUF).filter fun x => (s.buf x).dirty = false ∧ (s.buf x).refcnt ≠ 0

/-- The clean buffers that process `p` holds or waits for. -/
def cleanUses (s : State) (p : Nat) : Finset Nat :=
  (Finset.range NBUF).filter fun x => (s.buf x).dirty = false ∧
    ((s.buf x).lock = some p ∨ (s.pc p).waits = some x)

/-- No buffer carries the label. -/
def Absent (s : State) (k : Label) : Prop := ∀ x, x < NBUF → (s.buf x).label ≠ k

lemma Inv.used_of_refcnt (h : Inv disk₀ s) {x : Nat} (hx : (s.buf x).refcnt ≠ 0) :
    ∃ p, Uses s p x := by
  obtain ⟨S, hS, hcount⟩ := (h.buf x).counted
  cases hl : (s.buf x).lock with
  | some p => exact ⟨p, .inl hl⟩
  | none => ?_
  rw [hl] at hcount
  rw [if_neg nofun] at hcount
  have hpos : 0 < S.card := by omega
  obtain ⟨p, hp⟩ := card_pos.mp hpos
  exact ⟨p, .inr ((hS p).mp hp)⟩

lemma Inv.bget_eq_none (h : Inv disk₀ s) (k : Label) :
    s.bget k = none ↔ Absent s k ∧ ∀ x < NBUF, (s.buf x).refcnt ≠ 0 ∨ (s.buf x).dirty := by
  obtain ⟨xs, hring, hperm, -⟩ := h.ring
  have hlen : xs.length < NBUF + 1 := by simp [hperm.length_eq]
  have hmem : ∀ y, y ∈ xs ↔ y < NBUF := fun y => hperm.mem_iff.trans List.mem_range
  have hhit : (xs.find? fun x => decide ((s.buf x).label = k)) = none ↔ Absent s k := by
    simp [List.find?_eq_none, hmem, Absent]
  have hfree : (xs.reverse.find? fun x => decide ((s.buf x).refcnt = 0) && !(s.buf x).dirty) = none
      ↔ ∀ x < NBUF, (s.buf x).refcnt ≠ 0 ∨ (s.buf x).dirty := by
    simp [List.find?_eq_none, hmem, ← imp_iff_not_or]
  unfold bget
  rw [hring.scan_next _ hlen, hring.scan_prev _ hlen, ← hhit, ← hfree]
  cases xs.find? fun x => decide ((s.buf x).label = k) with
  | some y => simp
  | none => ?_
  cases xs.reverse.find? fun x => decide ((s.buf x).refcnt = 0) && !(s.buf x).dirty with
  | some y => simp
  | none => simp

lemma all_busy_iff (s : State) : (∀ x < NBUF, (s.buf x).refcnt ≠ 0 ∨ (s.buf x).dirty) ↔
      (pinned s).card + (inUse s).card = NBUF := by
  have hdisjoint : Disjoint (pinned s) (inUse s) := by
    refine Finset.disjoint_left.mpr fun x hx hy => ?_
    have hd := (Finset.mem_filter.mp hx).2
    rw [(Finset.mem_filter.mp hy).2.1] at hd
    cases hd
  have hsub : pinned s ∪ inUse s ⊆ Finset.range NBUF :=
    union_subset (filter_subset ..) (filter_subset ..)
  rw [← card_union_of_disjoint hdisjoint]
  constructor
  · intro hall
    have heq : pinned s ∪ inUse s = Finset.range NBUF := by
      refine hsub.antisymm fun x hx => ?_
      have hlt := Finset.mem_range.mp hx
      cases hd : (s.buf x).dirty with
      | true => exact mem_union_left _ (mem_filter.mpr ⟨hx, hd⟩)
      | false => ?_
      refine Finset.mem_union_right _ (Finset.mem_filter.mpr ⟨hx, hd, ?_⟩)
      exact (hall x hlt).resolve_right (by simp [hd])
    rw [heq, Finset.card_range]
  · intro hcard x hx
    have heq := Finset.eq_of_subset_of_card_le hsub (by rw [hcard, Finset.card_range])
    have hmem : x ∈ pinned s ∪ inUse s := heq ▸ Finset.mem_range.mpr hx
    rcases Finset.mem_union.mp hmem with hp | hu
    · exact .inr (Finset.mem_filter.mp hp).2
    · exact .inl (Finset.mem_filter.mp hu).2.2

lemma Inv.cleanUses_subset (h : Inv disk₀ s) (p : Nat) : cleanUses s p ⊆ inUse s := by
  intro x hx
  obtain ⟨hlt, hclean, hl | hw⟩ := Finset.mem_filter.mp hx
  · have hpos := (h.buf x).counted.pos_of_lock (by simp [hl])
    exact mem_filter.mpr ⟨hlt, hclean, ne_of_gt hpos⟩
  have hpos := (h.buf x).counted.pos_of_waits hw
  exact mem_filter.mpr ⟨hlt, hclean, ne_of_gt hpos⟩

lemma Inv.inUse_card_le (h : Inv disk₀ s) {S : Finset Nat} {b : Nat}
    (hS : ∀ p x, Uses s p x → p ∈ S) (hb : ∀ p ∈ S, (cleanUses s p).card ≤ b) :
    (inUse s).card ≤ S.card * b := by
  have hsub : inUse s ⊆ S.biUnion (cleanUses s) := by
    intro x hx
    obtain ⟨hlt, hclean, href⟩ := Finset.mem_filter.mp hx
    obtain ⟨p, hp⟩ := h.used_of_refcnt href
    exact mem_biUnion.mpr ⟨p, hS p x hp, mem_filter.mpr ⟨hlt, hclean, hp⟩⟩
  calc (inUse s).card ≤ (S.biUnion (cleanUses s)).card := card_le_card hsub
    _ ≤ S.card * b := card_biUnion_le_card_mul S _ b hb

def ROOTDEV : Nat := 28
def NPROC : Nat := 64

/-- `readi` by process `p`, up to the point where it holds the buffer of
block `k` and copies from it. -/
def readiActs (p : Nat) (k : Label) : List Act := [.bread p k, .acquiresleep p, .blockdevRw p]

lemma reader_steps (h : Inv disk₀ s) {p : Nat} {k : Label} (hp : s.pc p = .ready)
    (hk : Absent s k) (hroom : (pinned s).card + (inUse s).card ≠ NBUF) :
    ∃ t x b, Steps s (readiActs p k) t ∧ t.pc = s.pc ∧ t.buf = update s.buf x b ∧
      x < NBUF ∧ (s.buf x).refcnt = 0 ∧ (s.buf x).dirty = false ∧
      b.label = k ∧ b.dirty = false ∧ b.refcnt = 1 ∧ b.lock = some p := by
  have hsome : s.bget k ≠ none := fun hnone =>
    hroom ((all_busy_iff s).mp ((h.bget_eq_none k).mp hnone).2)
  obtain ⟨⟨x, t⟩, hbget⟩ := ne_none_iff_exists'.mp hsome
  obtain ⟨hx, ⟨as, bs, -, -, -, -, hlabel, -⟩ | ⟨-, href, hdirty, rfl⟩⟩ := bget_cases h hbget
  · exact absurd hlabel (hk x hx)
  have hlock : (s.buf x).lock = none := by
    cases hl : (s.buf x).lock with
    | none => rfl
    | some q => ?_
    have hpos := (h.buf x).counted.pos_of_lock (by simp [hl])
    omega
  -- the buffer after `bget`, after `acquiresleep` and after the transfer
  let b1 : Buf := { s.buf x with label := k, valid := false, dirty := false, refcnt := 1 }
  let b2 : Buf := { b1 with lock := some p }
  let b3 : Buf := { b2 with data := s.disk k, valid := true, dirty := false }
  let s1 : State := (s.setBuf x b1).goto p (.locking x k)
  let s2 : State := (s1.setBuf x b2).goto p (.reading x k)
  let s3 : State := (s2.setBuf x b3).goto p .ready
  have hb1 : s1.buf x = b1 := update_self ..
  have hp1 : s1.pc p = .locking x k := update_self ..
  have hb2 : s2.buf x = b2 := update_self ..
  have hp2 : s2.pc p = .reading x k := update_self ..
  have h1 : step s (.bread p k) = some s1 := by
    simp only [step, hp, hbget, map_some]
    rfl
  have h2 : step s1 (.acquiresleep p) = some s2 := by
    simp only [step, hp1, hb1]
    rw [if_pos hlock]
    rfl
  have h3 : step s2 (.blockdevRw p) = some s3 := by
    simp only [step, hp2, blockdevRw, hb2]
    rfl
  refine ⟨s3, x, b3, .cons h1 (.cons h2 (.cons h3 .nil)), ?_, ?_, hx, href, hdirty, rfl, rfl, rfl,
    rfl⟩
  · have hpc : s3.pc = update s.pc p .ready := by simp only [s3, s2, s1, goto, setBuf, update_idem]
    rw [hpc, ← hp, update_eq_self]
  · simp only [s3, s2, s1, goto, setBuf, update_idem]

/-- Each of the first `n` processes reads a block of its own of the root
disk, and is preempted while it copies. -/
def readers (n : Nat) : List Act := (List.range n).flatMap fun p => readiActs p (ROOTDEV, 100 + p)

/-- `n` readers hold `n` buffers. -/
structure Holding (n : Nat) (s : State) : Prop where
  ready : ∀ p, s.pc p = .ready
  pinned : pinned s = ∅
  inUse : (inUse s).card = n
  label : ∀ x, (s.buf x).label = (0, 0) ∨ ∃ i, i < n ∧ (s.buf x).label = (ROOTDEV, 100 + i)
  users : ∀ p x, Uses s p x → p < n

lemma Holding.absent {n : Nat} (h : Holding n s) : Absent s (ROOTDEV, 100 + n) := by
  intro x _ hx
  rcases h.label x with hzero | ⟨i, hi, hlabel⟩
  · rw [hzero] at hx
    cases hx
  rw [hlabel] at hx
  have := (Prod.mk.inj hx).2
  omega

lemma readers_hold (disk₀ : Label → Block) (n : Nat) (hn : n ≤ NBUF) :
    ∃ s, Steps (binit disk₀) (readers n) s ∧ Holding n s := by
  induction n with
  | zero =>
    refine ⟨_, .nil, fun _ => rfl, ?_, ?_, fun _ => .inl rfl, ?_⟩
    · exact filter_false_of_mem fun _ _ => nofun
    · exact card_eq_zero.mpr (filter_false_of_mem fun _ _ hx => hx.2 rfl)
    rintro p x (hl | hw)
    · cases hl
    · cases hw
  | succ n ih => ?_
  obtain ⟨s, hs, h⟩ := ih (by omega)
  have hinv := steps_inv hs
  have hroom : (Bio.pinned s).card + (Bio.inUse s).card ≠ NBUF := by
    rw [h.pinned, h.inUse, card_empty]
    omega
  obtain ⟨t, x, b, ht, hpc, hbuf, hx, href, hdirty, hlabel, hclean, hone, hlock⟩ :=
    reader_steps hinv (h.ready n) h.absent hroom
  have hself : t.buf x = b := by rw [hbuf, update_self]
  have hother : ∀ y ≠ x, t.buf y = s.buf y := fun y hy => by rw [hbuf, update_of_ne hy]
  have hnext : Bio.inUse t = insert x (Bio.inUse s) := by
    ext y
    simp only [Bio.inUse, Finset.mem_insert, Finset.mem_filter, Finset.mem_range]
    by_cases hy : y = x
    · subst hy
      rw [hself, hclean, hone]
      simp [hx]
    · rw [hother y hy]
      simp [hy]
  have hnew : x ∉ Bio.inUse s := fun hmem => (Finset.mem_filter.mp hmem).2.2 href
  refine ⟨t, ?_, fun p => by rw [hpc, h.ready], ?_, ?_, fun y => ?_, fun p y hu => ?_⟩
  · rw [readers, range_succ, flatMap_append, flatMap_singleton]
    exact hs.append ht
  · refine filter_false_of_mem fun y hy hd => ?_
    by_cases hyx : y = x
    · rw [hyx, hself, hclean] at hd
      cases hd
    rw [hother y hyx] at hd
    have hmem : y ∈ Bio.pinned s := mem_filter.mpr ⟨hy, hd⟩
    rw [h.pinned] at hmem
    cases hmem
  · rw [hnext, card_insert_of_notMem hnew, h.inUse]
  · by_cases hyx : y = x
    · exact .inr ⟨n, lt_succ_self n, by rw [hyx, hself, hlabel]⟩
    rw [hother y hyx]
    exact (h.label y).imp_right fun ⟨i, hi, hl⟩ => ⟨i, lt_succ_of_lt hi, hl⟩
  rcases hu with hl | hw
  · by_cases hyx : y = x
    · rw [hyx, hself, hlock] at hl
      cases hl
      exact lt_succ_self n
    · rw [hother y hyx] at hl
      exact lt_succ_of_lt (h.users p y (.inl hl))
  · rw [hpc] at hw
    exact lt_succ_of_lt (h.users p y (.inr hw))

end Proninx.Bio
