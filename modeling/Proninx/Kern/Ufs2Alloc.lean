import Proninx.Kern.Ufs2Flat

/-!
# Allocation in the bytes of a volume

A fragment is free when its bit in its group's map is set. Allocating a
block takes a run of free fragments and clears their bits; nothing else
changes, and no bit is ever set, so what is free afterwards was free
before.
-/

namespace Proninx.Ufs2

open BitVec Blockdev ByteMem Nat Option Prog Tiling UInt8

/-! ## Bits -/

variable {k : Nat}

lemma one_shift_bit (hk : k < 8) (j : Nat) :
    (1 <<< ofNat k : UInt8).toBitVec.getLsbD j = decide (j = k) := by
  have hpow : ∀ k < 8, (1 <<< ofNat k : UInt8).toBitVec = twoPow 8 k := by decide
  rw [hpow k hk, getLsbD_twoPow]
  simp only [hk, decide_true, Bool.true_and]
  exact decide_eq_decide.mpr eq_comm

lemma testBit_eq (b : UInt8) (hk : k < 8) : testBit b k = b.toBitVec.getLsbD k := by
  have hand : b &&& 1 <<< ofNat k = 0 ↔ b.toBitVec.getLsbD k = false := by
    rw [← UInt8.toBitVec_inj, UInt8.toBitVec_and]
    constructor
    · intro h
      have hbit := congrArg (fun x => x.getLsbD k) h
      rw [getLsbD_and, one_shift_bit hk] at hbit
      simpa using hbit
    intro h
    refine eq_of_getLsbD_eq fun i _ => ?_
    rw [getLsbD_and, one_shift_bit hk]
    by_cases hik : i = k
    · simp [hik, h]
    · simp [hik]
  unfold testBit
  cases hb : b.toBitVec.getLsbD k with
  | false => simp [hand.mpr hb]
  | true => ?_
  rw [bne_iff_ne]
  intro h0
  rw [hand.mp h0] at hb
  cases hb

variable {j : Nat}

lemma testBit_clearBit (b : UInt8) (hk : k < 8) (hj : j < 8) :
    testBit (clearBit b k) j = (testBit b j && !decide (j = k)) := by
  rw [testBit_eq _ hj, testBit_eq _ hj, clearBit, UInt8.toBitVec_and, UInt8.toBitVec_not,
    getLsbD_and, getLsbD_not, one_shift_bit hk]
  simp [hj]

lemma testBit_setBit (b : UInt8) (hk : k < 8) (hj : j < 8) :
    testBit (setBit b k) j = (testBit b j || decide (j = k)) := by
  rw [testBit_eq _ hj, testBit_eq _ hj, setBit, UInt8.toBitVec_or, getLsbD_or,
    one_shift_bit hk]

lemma byte_ext {a b : UInt8} (h : ∀ k < 8, testBit a k = testBit b k) : a = b := by
  rw [← UInt8.toBitVec_inj]
  refine eq_of_getLsbD_eq fun i hi => ?_
  rw [← testBit_eq a hi, ← testBit_eq b hi]
  exact h i hi

lemma testBit_clearBit_self (b : UInt8) (k : Nat) : testBit (clearBit b k) k = false := by
  unfold testBit clearBit
  rw [UInt8.and_assoc, UInt8.and_comm (~~~_), UInt8.and_not_self]
  simp

lemma testBit_of_clearBit {b : UInt8} (h : testBit (clearBit b k) j) : testBit b j := by
  unfold testBit clearBit at *
  rw [bne_iff_ne] at *
  intro h0
  refine h ?_
  rw [UInt8.and_assoc, UInt8.and_comm (~~~_), ← UInt8.and_assoc, h0, UInt8.zero_and]

variable (v : Volume)

/-- Bit `k` of the map at `mapOffset` can be read and is set. -/
def FreeBit (m : Mem) (mapOffset k : Nat) : Prop :=
  v.device.Fits (mapByte mapOffset k) 1 ∧ testBit (m (mapByte mapOffset k)) (k % 8)

instance (m : Mem) (mapOffset k : Nat) : Decidable (FreeBit v m mapOffset k) :=
  inferInstanceAs (Decidable (_ ∧ _))

def FreeFragment (m : Mem) (g k : Nat) : Prop :=
  ∃ mapOffset entries, freeMapAt v m g = some (mapOffset, entries) ∧ k < entries ∧
    FreeBit v m mapOffset k

/-- `m'` is `m` with the bits `[bit, bit + n)` of a map cleared. -/
structure Cleared (m m' : Mem) (mapOffset bit n : Nat) : Prop where
  frame : ∀ i, (∀ j, j < n → i ≠ mapByte mapOffset (bit + j)) → m' i = m i
  mono : ∀ i k, testBit (m' i) k → testBit (m i) k
  clear : ∀ j, j < n → testBit (m' (mapByte mapOffset (bit + j))) ((bit + j) % 8) = false

variable {v}

lemma Cleared.refl (m : Mem) (mapOffset bit : Nat) : Cleared m m mapOffset bit 0 :=
  ⟨fun _ _ => rfl, fun _ _ h => h, nofun⟩

variable {m m' : Mem} {mapOffset bit n : Nat}

lemma Cleared.poke (h : Cleared m m' mapOffset bit n) :
    Cleared m (ByteMem.poke m' (mapByte mapOffset (bit + n))
      (clearBit (m' (mapByte mapOffset (bit + n))) ((bit + n) % 8))) mapOffset bit (n + 1) := by
  refine ⟨fun i hi => ?_, fun i k hk => ?_, fun j hj => ?_⟩
  · rw [poke_ne (hi n (by omega))]
    exact h.frame i fun j hj => hi j (by omega)
  · by_cases hi : i = mapByte mapOffset (bit + n)
    · subst hi
      rw [poke_self] at hk
      exact h.mono _ _ (testBit_of_clearBit hk)
    · rw [poke_ne hi] at hk
      exact h.mono i k hk
  by_cases hb : mapByte mapOffset (bit + j) = mapByte mapOffset (bit + n)
  · rw [hb, poke_self]
    by_cases hjn : j = n
    · rw [hjn]
      exact testBit_clearBit_self ..
    have hold := h.clear j (by omega)
    rw [hb] at hold
    cases hbit : testBit (clearBit (m' (mapByte mapOffset (bit + n))) ((bit + n) % 8))
        ((bit + j) % 8) with
    | false => rfl
    | true => rw [testBit_of_clearBit hbit] at hold; cases hold
  · rw [poke_ne hb]
    refine h.clear j ?_
    rcases lt_or_ge j n with hlt | hge
    · exact hlt
    · exact absurd (by rw [show j = n by omega]) hb

/-- `m'` is `m` with the bits `[bit, bit + n)` of a map all `free`, and no
other bit changed. -/
structure Written (m m' : Mem) (mapOffset bit n : Nat) (free : Bool) : Prop where
  keep : ∀ i k, k < 8 → (∀ j, j < n → ¬ (i = mapByte mapOffset (bit + j) ∧ k = (bit + j) % 8)) →
    testBit (m' i) k = testBit (m i) k
  value : ∀ j, j < n → testBit (m' (mapByte mapOffset (bit + j))) ((bit + j) % 8) = free

lemma Written.refl (m : Mem) (mapOffset bit : Nat) (free : Bool) :
    Written m m mapOffset bit 0 free :=
  ⟨fun _ _ _ _ => rfl, nofun⟩

/-- The byte `ufs2_set_fragment` stores. -/
def putBit (free : Bool) (b : UInt8) (k : Nat) : UInt8 :=
  if free then setBit b k else clearBit b k

lemma testBit_putBit (free : Bool) (b : UInt8) (hk : k < 8) (hj : j < 8) :
    testBit (putBit free b k) j = if j = k then free else testBit b j := by
  cases free with
  | false =>
    rw [putBit, if_neg (by decide), testBit_clearBit b hk hj]
    by_cases h : j = k <;> simp [h]
  | true => ?_
  rw [putBit, if_pos rfl, testBit_setBit b hk hj]
  by_cases h : j = k <;> simp [h]

lemma Written.poke {free : Bool} (h : Written m m' mapOffset bit n free) :
    Written m (ByteMem.poke m' (mapByte mapOffset (bit + n))
      (putBit free (m' (mapByte mapOffset (bit + n))) ((bit + n) % 8))) mapOffset bit (n + 1)
      free := by
  have h8 : (bit + n) % 8 < 8 := mod_lt _ (by decide)
  refine ⟨fun i k hk hi => ?_, fun j hj => ?_⟩
  · have hold := h.keep i k hk fun j hj => hi j (by omega)
    by_cases hin : i = mapByte mapOffset (bit + n)
    · subst hin
      rw [poke_self, testBit_putBit free _ h8 hk, if_neg fun hkn => hi n (by omega) ⟨rfl, hkn⟩, hold]
    · rw [poke_ne hin, hold]
  have hj8 : (bit + j) % 8 < 8 := mod_lt _ (by decide)
  by_cases hin : mapByte mapOffset (bit + j) = mapByte mapOffset (bit + n)
  · rw [hin, poke_self, testBit_putBit free _ h8 hj8]
    split
    · rfl
    next hne =>
    have hjn : j ≠ n := fun heq => hne (by rw [heq])
    rw [← hin]
    exact h.value j (by omega)
  · rw [poke_ne hin]
    refine h.value j ?_
    rcases lt_or_ge j n with hlt | hge
    · exact hlt
    · exact absurd (by rw [show j = n by omega]) hin

variable {i : Nat}

lemma Written.frame {free : Bool} (h : Written m m' mapOffset bit n free)
    (hi : ∀ j < n, i ≠ mapByte mapOffset (bit + j)) : m' i = m i :=
  byte_ext fun k hk => h.keep i k hk fun j hj heq => hi j hj heq.1

/-! ## Reading and clearing bits -/

variable {offset : Nat}

lemma read_byte (h : v.device.Fits offset 1) (d : Disk) :
    (v.device.read offset 1).run d = .ok (some (window (v.bytes d) offset 1), d) := by
  have hp : v.device.peek (v.bytes d) offset 1 = some (window (v.bytes d) offset 1) := if_pos h
  exact hp ▸ read_run v.device offset 1 d

lemma write_byte (h : v.device.Fits offset 1) (value : UInt8) (d : Disk) :
    ∃ d', (v.device.write offset (fun _ => value) 1).run d = .ok (some (), d') ∧
      v.bytes d' = ByteMem.poke (v.bytes d) offset value := by
  obtain ⟨d', hrun, hflat⟩ := write_run h (fun _ => value) d
  refine ⟨d', hrun, hflat.trans ?_⟩
  funext i
  by_cases hi : i = offset
  · rw [hi, blit_in (by omega) (by omega), poke_self]
  · rw [blit_out (by omega), poke_ne hi]

lemma setFragment_run (h : v.device.Fits (mapByte mapOffset k) 1) (allocated : Bool) (d : Disk) :
    ∃ d', (setFragment v mapOffset k allocated).run d = .ok (some (), d') ∧
      v.bytes d' = ByteMem.poke (v.bytes d) (mapByte mapOffset k)
        (putBit (!allocated) (v.bytes d (mapByte mapOffset k)) (k % 8)) := by
  unfold setFragment
  rw [run_andThen_some (read_byte h d)]
  rw [window_apply (by omega)]
  cases allocated <;> exact write_byte h _ d

lemma setFragment_bad (h : ¬ v.device.Fits (mapByte mapOffset k) 1)
    (allocated : Bool) (d : Disk) : (setFragment v mapOffset k allocated).run d = .ok (none, d) := by
  have hpeek : v.device.peek (v.bytes d) (mapByte mapOffset k) 1 = none := if_neg h
  exact Prog.run_andThen_none (hpeek ▸ read_run v.device _ 1 d)

variable {d : Disk}

lemma countFree_run (n : Nat) : ∀ i, ∃ r, (countFree v mapOffset bit n i).run d = .ok (r, d) ∧
      (r = i + n ↔ ∀ j, i ≤ j → j < i + n → FreeBit v (v.bytes d) mapOffset (bit + j)) := by
  induction n with
  | zero => exact fun i => ⟨i, rfl, by simp; omega⟩
  | succ n ih => ?_
  intro i
  by_cases hf : FreeBit v (v.bytes d) mapOffset (bit + i)
  · obtain ⟨r, hrun, hr⟩ := ih (i + 1)
    refine ⟨r, ?_, ?_⟩
    · rw [countFree, run_bind_ok (read_byte hf.1 d)]
      dsimp only
      rw [window_apply (by omega), add_zero, if_neg (by simp [hf.2])]
      exact hrun
    rw [show i + (n + 1) = i + 1 + n by omega, hr]
    constructor
    · intro h j hi hj
      rcases eq_or_lt_of_le hi with rfl | hlt
      · exact hf
      · exact h j hlt hj
    · exact fun h j hi hj => h j (by omega) hj
  refine ⟨i, ?_, iff_of_false (by omega) fun h => hf (h i (by omega) (by omega))⟩
  by_cases hfit : v.device.Fits (mapByte mapOffset (bit + i)) 1
  · rw [countFree, run_bind_ok (read_byte hfit d)]
    dsimp only
    have hclear : testBit (v.bytes d (mapByte mapOffset (bit + i))) ((bit + i) % 8) = false := by
      cases hb : testBit (v.bytes d (mapByte mapOffset (bit + i))) ((bit + i) % 8) with
      | false => rfl
      | true => exact absurd ⟨hfit, hb⟩ hf
    rw [window_apply (by omega), add_zero, if_pos hclear]
    rfl
  · have hpeek : v.device.peek (v.bytes d) (mapByte mapOffset (bit + i)) 1 = none :=
      if_neg hfit
    rw [countFree, run_bind_ok (hpeek ▸ read_run v.device _ 1 d)]
    rfl

lemma allocFragments_run (n : Nat) : ∀ (i : Nat) (d : Disk),
    (∀ j < i + n, v.device.Fits (mapByte mapOffset (bit + j)) 1) →
      Cleared m (v.bytes d) mapOffset bit i → Written m (v.bytes d) mapOffset bit i false →
        ∃ d', (allocFragments v mapOffset bit n i).run d = .ok (some (), d') ∧
          Cleared m (v.bytes d') mapOffset bit (i + n) ∧
          Written m (v.bytes d') mapOffset bit (i + n) false := by
  induction n with
  | zero => exact fun i d _ hc hw => ⟨d, rfl, hc, hw⟩
  | succ n ih => ?_
  intro i d hfit hc hw
  obtain ⟨d1, hrun1, hbytes1⟩ := setFragment_run (hfit i (by omega)) true d
  have hc1 : Cleared m (v.bytes d1) mapOffset bit (i + 1) := hbytes1 ▸ hc.poke
  have hw1 : Written m (v.bytes d1) mapOffset bit (i + 1) false := hbytes1 ▸ hw.poke
  obtain ⟨d', hrun, hdone⟩ := ih (i + 1) d1 (fun j hj => hfit j (by omega)) hc1 hw1
  refine ⟨d', ?_, ?_⟩
  · rw [allocFragments, run_bind_ok hrun1]
    exact hrun
  rw [show i + (n + 1) = i + 1 + n by omega]
  exact hdone

lemma releaseFragments_run (n : Nat) : ∀ (i : Nat) (d : Disk),
    Written m (v.bytes d) mapOffset bit i true →
      ∃ r d' k, (releaseFragments v mapOffset bit n i).run d = .ok (r, d') ∧ k ≤ i + n ∧
        Written m (v.bytes d') mapOffset bit k true ∧
        ((∀ j < i + n, v.device.Fits (mapByte mapOffset (bit + j)) 1) →
          r = some () ∧ k = i + n) := by
  induction n with
  | zero => exact fun i d hw => ⟨some (), d, i, rfl, le_rfl, hw, fun _ => ⟨rfl, rfl⟩⟩
  | succ n ih => ?_
  intro i d hw
  by_cases hfit : v.device.Fits (mapByte mapOffset (bit + i)) 1
  · obtain ⟨d1, hrun1, hbytes1⟩ := setFragment_run hfit false d
    have hw1 : Written m (v.bytes d1) mapOffset bit (i + 1) true := hbytes1 ▸ hw.poke
    obtain ⟨r, d', k, hrun, hk, hdone, hall⟩ := ih (i + 1) d1 hw1
    rw [show i + (n + 1) = i + 1 + n by omega]
    refine ⟨r, d', k, ?_, hk, hdone, hall⟩
    rw [releaseFragments, run_bind_ok hrun1]
    exact hrun
  · refine ⟨none, d, i, ?_, by omega, hw, fun hall => absurd (hall i (by omega)) hfit⟩
    rw [releaseFragments, run_bind_ok (setFragment_bad hfit false d)]
    rfl

/-! ## `ufs2_alloc_block` -/

variable (v) in
/-- Block `f` was free in `m`, and `m'` is `m` with it allocated. -/
def Allocated (m m' : Mem) (f : Nat) : Prop :=
  ∃ g bit mapOffset entries, freeMapAt v m g = some (mapOffset, entries) ∧
    g < v.cylinderGroups ∧ bit % v.fragmentsPerBlock = 0 ∧ bit + v.fragmentsPerBlock ≤ entries ∧
    (∀ j, j < v.fragmentsPerBlock → FreeBit v m mapOffset (bit + j)) ∧
    f = g * v.fragmentsPerGroup + bit ∧ Cleared m m' mapOffset bit v.fragmentsPerBlock

variable (v) in
/-- The block at `bit` of group `g` was free in `m`, and `m'` is `m` with
just its bits cleared. -/
def Taken (m m' : Mem) (g bit : Nat) : Prop :=
  ∃ mapOffset entries, freeMapAt v m g = some (mapOffset, entries) ∧
    bit % v.fragmentsPerBlock = 0 ∧ bit + v.fragmentsPerBlock ≤ entries ∧
    (∀ j, j < v.fragmentsPerBlock → FreeBit v m mapOffset (bit + j)) ∧
    Cleared m m' mapOffset bit v.fragmentsPerBlock ∧
    Written m m' mapOffset bit v.fragmentsPerBlock false

variable (v) in
/-- Block counts stay clear of 32-bit wrap-around. -/
structure Geometry : Prop where
  pos : 0 < v.fragmentsPerBlock
  small : v.fragmentsPerGroup + v.fragmentsPerBlock + 8 ≤ 2 ^ 32

lemma cgOffset_some {g o : Nat} (h : cgOffset v g = some o) : g < v.cylinderGroups ∧
      o = (g * v.fragmentsPerGroup + v.cylinderGroupBlock) * v.fragmentSize := by
  unfold cgOffset at h
  split at h
  · cases h
  next hg =>
  dsimp only at h
  split at h
  · cases h
  split at h
  · cases h
  cases h
  exact ⟨by omega, rfl⟩

lemma freeMapAt_le {g entries : Nat} (h : freeMapAt v m g = some (mapOffset, entries)) :
    g < v.cylinderGroups ∧ entries ≤ v.fragmentsPerGroup := by
  obtain ⟨⟨offset, header⟩, hhead, h⟩ := bind_eq_some_iff.mp h
  obtain ⟨offset', hoff, -⟩ := bind_eq_some_iff.mp hhead
  refine ⟨(cgOffset_some hoff).1, ?_⟩
  dsimp only at h
  split at h
  · cases h
  split at h
  · cases h
  cases h
  omega

lemma allocBlockBits_run (hgeo : Geometry v) {g entries : Nat}
    (hmap : freeMapAt v (v.bytes d) g = some (mapOffset, entries)) (fuel : Nat) : ∀ bit,
    bit % v.fragmentsPerBlock = 0 → bit ≤ entries → entries < bit + fuel →
      (allocBlockBits v g mapOffset entries fuel bit).run d = .ok (none, d) ∨
      ∃ bit' d', (allocBlockBits v g mapOffset entries fuel bit).run d
          = .ok (some (some (g * v.fragmentsPerGroup + bit')), d') ∧
        Taken v (v.bytes d) (v.bytes d') g bit' := by
  have hsmall := hgeo.small
  have hpos := hgeo.pos
  have hle := (freeMapAt_le hmap).2
  induction fuel with
  | zero => intro bit _ _ _; omega
  | succ fuel ih => ?_
  intro bit hmod hbit hfuel
  have hwrap : (bit + v.fragmentsPerBlock) % 2 ^ 32 = bit + v.fragmentsPerBlock :=
    mod_eq_of_lt (by omega)
  rw [allocBlockBits, hwrap]
  split
  · next hend =>
    obtain ⟨r, hcount, hr⟩ := @countFree_run v mapOffset bit d v.fragmentsPerBlock 0
    rw [run_bind_ok hcount]
    rw [zero_add] at hr
    by_cases hall : r = v.fragmentsPerBlock
    · rw [if_neg (by simp [hall])]
      have hfree : ∀ j < v.fragmentsPerBlock, FreeBit v (v.bytes d) mapOffset (bit + j) :=
        fun j hj => hr.mp hall j (by omega) hj
      obtain ⟨d', halloc, hc, hw⟩ := allocFragments_run v.fragmentsPerBlock 0 d
        (fun j hj => (hfree j (by omega)).1) (Cleared.refl (v.bytes d) mapOffset bit)
        (Written.refl (v.bytes d) mapOffset bit false)
      rw [zero_add] at hc hw
      refine .inr ⟨bit, d', ?_, mapOffset, entries, hmap, hmod, hend, hfree, hc, hw⟩
      rw [run_bind_ok halloc]
      rfl
    · rw [if_pos hall]
      refine ih _ ?_ hend (by omega)
      rw [add_mod_right]
      exact hmod
  · exact .inl rfl

lemma allocBlockGroups_run (hgeo : Geometry v) (n : Nat) : ∀ g,
    (allocBlockGroups v n g).run d = .ok (none, d) ∨
    ∃ g' bit d', (allocBlockGroups v n g).run d = .ok (some (g' * v.fragmentsPerGroup + bit), d') ∧
      Taken v (v.bytes d) (v.bytes d') g' bit := by
  induction n with
  | zero => exact fun g => .inl rfl
  | succ n ih => ?_
  intro g
  rw [allocBlockGroups, run_bind_ok (cgFreeMap_run v g d)]
  cases hmap : freeMapAt v (v.bytes d) g with
  | none => exact ih (g + 1)
  | some p => ?_
  obtain ⟨mapOffset, entries⟩ := p
  have hle := (freeMapAt_le hmap).2
  have hsmall := hgeo.small
  rcases allocBlockBits_run hgeo hmap (2 ^ 32) 0 (zero_mod _)
      (zero_le _) (by omega) with hnone | ⟨bit, d', hrun, htaken⟩
  · rw [Prog.run_bind_ok hnone]
    exact ih (g + 1)
  refine .inr ⟨g, bit, d', ?_, htaken⟩
  rw [run_bind_ok hrun]
  rfl

lemma allocBlock_taken (hgeo : Geometry v) (d : Disk) : (allocBlock v).run d = .ok (none, d) ∨
    ∃ g bit d', (allocBlock v).run d = .ok (some (g * v.fragmentsPerGroup + bit), d') ∧
      Taken v (v.bytes d) (v.bytes d') g bit := by
  have hpos := hgeo.pos
  rw [allocBlock, if_neg (by omega), run_acquire_bind]
  exact allocBlockGroups_run hgeo _ 0

lemma allocBlock_run (hgeo : Geometry v) (d : Disk) : (allocBlock v).run d = .ok (none, d) ∨
    ∃ f d', (allocBlock v).run d = .ok (some f, d') ∧ Allocated v (v.bytes d) (v.bytes d') f := by
  rcases allocBlock_taken hgeo d with hnone |
    ⟨g, bit, d', hrun, mapOffset, entries, hmap, hmod, hend, hfree, hc, -⟩
  · exact .inl hnone
  exact .inr ⟨_, d', hrun, g, bit, mapOffset, entries, hmap, (freeMapAt_le hmap).1, hmod, hend,
    hfree, rfl, hc⟩

/-! ## Filling a block -/

/-- Either every sector of the block is written, or the call fails and at
most sectors of the block were. -/
lemma fillBlock_run {f : Nat} {sector : Mem} (hbs : v.blockSize % BSIZE = 0) (fuel : Nat) :
    ∀ (offset : Nat) (d : Disk), offset % BSIZE = 0 → offset ≤ v.blockSize →
      f * v.fragmentSize + offset ≤ U64MAX → v.blockSize ≤ offset + fuel →
      (∃ d', (fillBlock v f sector fuel offset).run d = .ok (some (), d') ∧ (offset < v.blockSize →
          v.device.Fits (f * v.fragmentSize + offset) (v.blockSize - offset)) ∧
        (∀ i, i < f * v.fragmentSize + offset ∨ f * v.fragmentSize + v.blockSize ≤ i →
          v.bytes d' i = v.bytes d i) ∧
        ∀ i, offset ≤ i → i < v.blockSize →
          v.bytes d' (f * v.fragmentSize + i) = sector (i % BSIZE)) ∨
      ∃ d', (fillBlock v f sector fuel offset).run d = .ok (none, d') ∧
        ∀ i, i < f * v.fragmentSize + offset ∨ f * v.fragmentSize + v.blockSize ≤ i →
          v.bytes d' i = v.bytes d i := by
  induction fuel with
  | zero =>
    intro offset d _ _ _ hf
    exact .inl ⟨d, rfl, fun h => by omega, fun _ _ => rfl, fun i _ _ => by omega⟩
  | succ fuel ih => ?_
  intro offset d hmod hle hwrap hfuel
  rw [fillBlock, mod_eq_of_lt (by unfold U64MAX at hwrap; omega)]
  split
  · next hlt =>
    have hnext : offset + BSIZE ≤ v.blockSize := by unfold BSIZE at *; omega
    by_cases hfit : v.device.Fits (f * v.fragmentSize + offset) BSIZE
    · obtain ⟨d1, hrun1, hbytes1⟩ := write_run hfit sector d
      rw [run_andThen_some hrun1]
      have hsize := hfit.le_size
      have hmax := size_le (not_refuses_iff.mp hfit.1).1
      have hbytes1 : v.bytes d1
          = blit (v.bytes d) (f * v.fragmentSize + offset) sector BSIZE := hbytes1
      rcases ih (offset + BSIZE) d1 (by unfold BSIZE at *; omega) hnext (by omega)
          (by unfold BSIZE at *; omega) with ⟨d', hrun, hfits, hout, hin⟩ | ⟨d', hrun, hout⟩
      · refine .inl ⟨d', hrun, fun _ => ?_, fun i hi => ?_, fun i hi hj => ?_⟩
        · by_cases hlast : offset + BSIZE < v.blockSize
          · have := hfit.append (by rw [add_assoc]; exact hfits hlast)
            rwa [show BSIZE + (v.blockSize - (offset + BSIZE)) = v.blockSize - offset by
              omega] at this
          · rwa [show v.blockSize - offset = BSIZE by omega]
        · rw [hout i (by omega), hbytes1, blit_out (by omega)]
        by_cases hlo : i < offset + BSIZE
        · rw [hout _ (by omega), hbytes1, blit_in (by omega) (by omega)]
          congr 1
          unfold BSIZE at *
          omega
        · exact hin i (by omega) hj
      · refine .inr ⟨d', hrun, fun i hi => ?_⟩
        rw [hout i (by omega), hbytes1, blit_out (by omega)]
    · obtain ⟨d', hrun, hout⟩ := write_bad hfit sector d
      exact .inr ⟨d', Prog.run_andThen_none hrun, fun i hi => hout i (by omega)⟩
  · next hge =>
    exact .inl ⟨d, rfl, fun h => absurd h hge, fun _ _ => rfl, fun i _ _ => by omega⟩

/-! ## Writing an inode -/

variable {raw : Mem}

lemma putWords_out {base : Nat} {word : Nat → Nat}
    (h : i < base ∨ base + n * 8 ≤ i) : putWords raw base word n i = raw i := by
  induction n with
  | zero => rfl
  | succ n ih => rw [putWords, writeLe_out (by omega), ih (by omega)]

lemma readLe_putWords {base : Nat} {word : Nat → Nat} (h : i < n) :
    readLe 8 (putWords raw base word n) (base + i * 8) = word i % 2 ^ 64 := by
  induction n with
  | zero => omega
  | succ n ih => ?_
  rw [putWords]
  rcases lt_or_ge i n with hlt | hge
  · rw [readLe_writeLe_disjoint (by omega), ih hlt]
  obtain rfl : i = n := by omega
  exact readLe_writeLe 8 _ _ _

lemma decode_encode {inode : Inode} (h : Agree (encodeInode raw inode) m 0 DINODE_SIZE) :
    (decodeInode m).mode = inode.mode % 2 ^ 16 ∧ (decodeInode m).size = inode.size % 2 ^ 64 ∧
      (∀ i < DIRECT_BLOCKS, (decodeInode m).direct i = inode.direct i % 2 ^ 64) ∧
      (∀ i < 3, (decodeInode m).indirect i = inode.indirect i % 2 ^ 64) ∧
      (decodeInode m).nlink = inode.nlink % 2 ^ 16 ∧ (decodeInode m).uid = inode.uid % 2 ^ 32 ∧
      (decodeInode m).gid = inode.gid % 2 ^ 32 := by
  unfold DINODE_SIZE at h
  have hraw : ∀ {w a : Nat}, a + w ≤ 256 → readLe w m a = readLe w (encodeInode raw inode) a :=
    fun hle => (readLe_congr (h.mono (zero_le _) (by omega))).symm
  -- the stores after the one that is read back do not overlap it
  have hlow : ∀ j < 112, encodeInode raw inode j
      = writeLe 8 (writeLe 4 (writeLe 4 (writeLe 2 (writeLe 2 raw 0 inode.mode) 2 inode.nlink) 4
          inode.uid) 8 inode.gid) 16 inode.size j := fun j hj => by
    rw [encodeInode, putWords_out (by omega), putWords_out (by omega)]
  have hfield : ∀ {w a : Nat} (below : Mem) (x : Nat), a + w ≤ 112 →
      (∀ j, a ≤ j → j < a + w → encodeInode raw inode j = writeLe w below a x j) →
      readLe w m a = x % 256 ^ w := fun below x hle hstore =>
    (hraw (by omega)).trans ((readLe_congr hstore).trans (readLe_writeLe _ below _ x))
  refine ⟨hfield raw inode.mode (by decide) fun j hj hk => ?_,
    hfield _ inode.size (by decide) fun j hj hk => hlow j (by omega), fun i hi => ?_, fun i hi => ?_,
    hfield (writeLe 2 raw 0 inode.mode) inode.nlink (by decide) fun j hj hk => ?_,
    hfield (writeLe 2 (writeLe 2 raw 0 inode.mode) 2 inode.nlink) inode.uid (by decide)
      fun j hj hk => ?_,
    hfield (writeLe 4 (writeLe 2 (writeLe 2 raw 0 inode.mode) 2 inode.nlink) 4 inode.uid)
      inode.gid (by decide) fun j hj hk => ?_⟩
  · rw [hlow j (by omega), writeLe_out (by omega), writeLe_out (by omega),
      writeLe_out (by omega), writeLe_out (by omega)]
  · unfold DIRECT_BLOCKS at hi
    have hword : readLe 8 (encodeInode raw inode) (112 + i * 8) = _ :=
      readLe_congr fun j hj hk => putWords_out (by omega)
    exact (hraw (by omega)).trans (hword.trans (readLe_putWords hi))
  · exact (hraw (by omega)).trans (readLe_putWords hi)
  · rw [hlow j (by omega), writeLe_out (by omega), writeLe_out (by omega), writeLe_out (by omega)]
  · rw [hlow j (by omega), writeLe_out (by omega), writeLe_out (by omega)]
  · rw [hlow j (by omega), writeLe_out (by omega)]

lemma writeInode_run (hoff : inodeOffset v n = some offset)
    (hfit : v.device.Fits offset DINODE_SIZE) (inode : Inode) (d : Disk) :
    ∃ d', (writeInode v n inode).run d = .ok (some (), d') ∧ v.bytes d'
      = blit (v.bytes d) offset (encodeInode (window (v.bytes d) offset DINODE_SIZE) inode)
          DINODE_SIZE := by
  have hpeek : v.device.peek (v.bytes d) offset DINODE_SIZE
      = some (window (v.bytes d) offset DINODE_SIZE) := if_pos hfit
  unfold writeInode
  rw [hoff]
  rw [run_andThen_some (hpeek ▸ read_run v.device offset DINODE_SIZE d)]
  exact write_run hfit _ d

end Proninx.Ufs2
