import Proninx.Kern.Ufs2Inode
import Proninx.Lib.Runs

/-!
# The block allocator

`ufs2_alloc_block` and `ufs2_free_block` as operations on the set of free
fragments. `ufs2_alloc_block` looks for a block at multiples of the block
length within a group and hands out `group * fpg + bit`;
`ufs2_free_block` wants a multiple of the block length counted from the
start of the volume. The two agree when the group length is a multiple of
the block length (`Regular`), which `ufs2_probe` does not check.
-/

namespace Proninx.Ufs2

open Blockdev ByteMem List Nat Prog

/-- The areas of the cylinder groups do not overlap, and no count or
offset in them wraps around. -/
structure Separate (v : Volume) : Prop where
  small : v.fragmentsPerGroup + v.fragmentsPerBlock + 8 ≤ 2 ^ 32
  apart : v.cylinderGroups = 1 ∨ v.cylinderGroupSize ≤ v.fragmentsPerGroup * v.fragmentSize
  ends : ∀ g o, cgOffset v g = some o → o + v.cylinderGroupSize ≤ U64MAX

def InGroups (v : Volume) (i : Nat) : Prop :=
  ∃ g o, cgOffset v g = some o ∧ o ≤ i ∧ i < o + v.cylinderGroupSize

/-- Groups hold whole blocks. -/
structure Regular (v : Volume) : Prop extends Separate v where
  aligned : v.fragmentsPerGroup % v.fragmentsPerBlock = 0

variable {v : Volume} {m m' : Mem}

lemma Volume.Probed.fragmentsPerBlock_pos (h : v.Probed) : 0 < v.fragmentsPerBlock := by
  have hs := h.sizes
  have hpos := hs.blockPos
  rw [hs.block] at hpos
  exact Nat.pos_of_mul_pos_right hpos

lemma Separate.geometry (h : Separate v) (hp : v.Probed) : Geometry v :=
  ⟨hp.fragmentsPerBlock_pos, h.small⟩

variable {g : Nat}

lemma Separate.groups_apart (hs : Separate v) {h o p : Nat} (hne : g ≠ h)
    (hg : cgOffset v g = some o) (hh : cgOffset v h = some p) :
    Apart o v.cylinderGroupSize p v.cylinderGroupSize := by
  obtain ⟨hglt, rfl⟩ := cgOffset_some hg
  obtain ⟨hhlt, rfl⟩ := cgOffset_some hh
  rcases hs.apart with h1 | hfit
  · omega
  -- a later group starts at least a group length further on
  have hstep : ∀ {a b : Nat}, a < b →
      (a * v.fragmentsPerGroup + v.cylinderGroupBlock) * v.fragmentSize + v.cylinderGroupSize
        ≤ (b * v.fragmentsPerGroup + v.cylinderGroupBlock) * v.fragmentSize := by
    intro a b hab
    have hmul := Nat.mul_le_mul_right v.fragmentsPerGroup (succ_le_of_lt hab)
    rw [succ_mul] at hmul
    have hscaled := Nat.mul_le_mul_right v.fragmentSize
      (Nat.add_le_add_right hmul v.cylinderGroupBlock)
    rw [Nat.add_right_comm, Nat.add_mul] at hscaled
    omega
  rcases Nat.lt_or_gt_of_ne hne with hlt | hgt
  · exact .inl (hstep hlt)
  · exact .inr (hstep hgt)

/-! ## Fragments by number -/

variable (v) in
/-- Fragment `n` of the volume is free. -/
def FreeAt (m : Mem) (n : Nat) : Prop :=
  FreeFragment v m (n / v.fragmentsPerGroup) (n % v.fragmentsPerGroup)

lemma freeAt_iff {k : Nat} (hk : k < v.fragmentsPerGroup) :
    FreeAt v m (g * v.fragmentsPerGroup + k) ↔ FreeFragment v m g k := by
  have hpos : 0 < v.fragmentsPerGroup := by omega
  unfold FreeAt
  rw [mul_comm g, mul_add_div hpos, div_eq_of_lt hk, add_zero, mul_add_mod, mod_eq_of_lt hk]

variable {bit n : Nat}

lemma in_block_iff (hfit : bit + v.fragmentsPerBlock ≤ v.fragmentsPerGroup)
    (hpos : 0 < v.fragmentsPerBlock) :
    (g * v.fragmentsPerGroup + bit ≤ n ∧ n < g * v.fragmentsPerGroup + bit + v.fragmentsPerBlock) ↔
    (n / v.fragmentsPerGroup = g ∧ bit ≤ n % v.fragmentsPerGroup ∧
      n % v.fragmentsPerGroup < bit + v.fragmentsPerBlock) := by
  have hdm := div_add_mod n v.fragmentsPerGroup
  rw [mul_comm] at hdm
  constructor
  · rintro ⟨hlo, hhi⟩
    obtain ⟨k, rfl⟩ := Nat.exists_eq_add_of_le hlo
    have hk : bit + k < v.fragmentsPerGroup := by omega
    rw [add_assoc, mul_comm g, mul_add_div (by omega), div_eq_of_lt hk,
      mul_add_mod, mod_eq_of_lt hk]
    omega
  · rintro ⟨rfl, hlo, hhi⟩
    omega

/-! ## What a change of bits does to the free fragments -/

variable {entries : Nat}

section

variable (hs : Separate v) (hp : v.Probed)
include hs hp

/-- Bits of one map were written: the headers stay as they are, and the
free fragments change by those bits. -/
lemma Written.fragments {mapOffset : Nat}
    {free : Bool} (hmap : freeMapAt v m g = some (mapOffset, entries)) (hend : bit + n ≤ entries)
    (hw : Written m m' mapOffset bit n free) :
    (∀ h, headerAt v m' h = headerAt v m h) ∧
    (∀ h k, ¬ (h = g ∧ bit ≤ k ∧ k < bit + n) → (FreeFragment v m' h k ↔ FreeFragment v m h k)) ∧
    ∀ j < n, (FreeFragment v m' g (bit + j) ↔
      v.device.Fits (mapByte mapOffset (bit + j)) 1 ∧ free) := by
  have hgeo := hs.geometry hp
  have hgs := hp.groupSize
  have hbyte : ∀ {k}, k < entries → ∃ o, cgOffset v g = some o ∧
      o + CG_HEADER_SIZE ≤ mapByte mapOffset k ∧ mapByte mapOffset k < o + v.cylinderGroupSize :=
    fun hk => mapByte_in_group hgeo hs.ends hmap hk
  have hhead : ∀ h, headerAt v m' h = headerAt v m h := by
    refine fun h => headerAt_congr fun p hpo i hi hj => (hw.frame fun j hj' heq => ?_).symm
    obtain ⟨o, ho, hlo, hhi⟩ := hbyte (show bit + j < entries by omega)
    by_cases hgh : g = h
    · subst hgh
      rw [ho] at hpo
      cases hpo
      omega
    · have := hs.groups_apart hgh ho hpo
      unfold Apart at this
      omega
  have hmaps : ∀ h, freeMapAt v m' h = freeMapAt v m h := fun h => freeMapAt_of_header (hhead h)
  refine ⟨hhead, fun h k hk => ?_, fun j hj => ?_⟩
  · -- a bit of another fragment is another bit
    unfold FreeFragment
    rw [hmaps h]
    refine exists_congr fun mo' => exists_congr fun n' => and_congr_right fun hmap' =>
      and_congr_right fun hkn => and_congr_right fun _ => ?_
    rw [hw.keep _ _ (mod_lt _ (by decide)) fun j hj heq => ?_]
    obtain ⟨o, ho, hlo, hhi⟩ := hbyte (show bit + j < entries by omega)
    obtain ⟨p, hpo, hplo, hphi⟩ := mapByte_in_group hgeo hs.ends hmap' hkn
    by_cases hgh : g = h
    · subst hgh
      rw [hmap] at hmap'
      cases hmap'
      have hbytes := heq.1
      rw [mapByte_eq hgeo hs.ends hmap hkn,
        mapByte_eq hgeo hs.ends hmap (show bit + j < entries by omega)] at hbytes
      exact hk ⟨rfl, by omega, by omega⟩
    · have := hs.groups_apart hgh ho hpo
      unfold Apart at this
      omega
  · unfold FreeFragment
    rw [hmaps g, hmap]
    constructor
    · rintro ⟨mo', n', heq, -, hfit, hbit⟩
      cases heq
      exact ⟨hfit, (hw.value j hj).symm.trans hbit⟩
    · rintro ⟨hfit, hfree⟩
      exact ⟨mapOffset, entries, rfl, by omega, hfit, (hw.value j hj).trans hfree⟩

lemma Written.within {mapOffset : Nat}
    {free : Bool} (hmap : freeMapAt v m g = some (mapOffset, entries)) (hend : bit + n ≤ entries)
    (hw : Written m m' mapOffset bit n free) {i : Nat} (hi : ¬ InGroups v i) : m' i = m i := by
  refine hw.frame fun j hj heq => hi ?_
  obtain ⟨o, ho, hlo, hhi⟩ := mapByte_in_group (hs.geometry hp) hs.ends hmap
    (show bit + j < entries by omega)
  exact ⟨g, o, ho, by omega, by omega⟩

/-! ## `ufs2_alloc_block` and `ufs2_free_block` -/

/-- What an allocation does to the free fragments. -/
def AllocSpec (v : Volume) (m m' : Mem) : Option Nat → Prop
  | none => m' = m
  | some f => (∀ n, f ≤ n → n < f + v.fragmentsPerBlock → FreeAt v m n) ∧
      ∀ n, FreeAt v m' n ↔ FreeAt v m n ∧ ¬ (f ≤ n ∧ n < f + v.fragmentsPerBlock)

omit hs hp in
lemma AllocSpec.mono {r : Option Nat} (h : AllocSpec v m m' r) :
    ∀ k, FreeAt v m' k → FreeAt v m k := by
  cases r with
  | none =>
    have heq : m' = m := h
    exact fun k hk => heq ▸ hk
  | some f => exact fun k hk => ((h.2 k).mp hk).1

lemma Taken.spec (h : Taken v m m' g bit) :
    AllocSpec v m m' (some (g * v.fragmentsPerGroup + bit)) := by
  obtain ⟨mo, entries, hmap, -, hend, hfree, -, hw⟩ := h
  have hpos := hp.fragmentsPerBlock_pos
  have hle := (freeMapAt_le hmap).2
  obtain ⟨-, hother, hthese⟩ := hw.fragments hs hp hmap hend
  have hold : ∀ j < v.fragmentsPerBlock, FreeFragment v m g (bit + j) := fun j hj =>
    ⟨mo, entries, hmap, by omega, hfree j hj⟩
  refine ⟨fun n hlo hhi => ?_, fun n => ?_⟩
  · obtain ⟨k, rfl⟩ := Nat.exists_eq_add_of_le hlo
    rw [add_assoc, freeAt_iff (by omega)]
    exact hold k (by omega)
  rw [in_block_iff (by omega) hpos]
  by_cases hin : n / v.fragmentsPerGroup = g ∧ bit ≤ n % v.fragmentsPerGroup ∧
      n % v.fragmentsPerGroup < bit + v.fragmentsPerBlock
  · refine iff_of_false (fun hf => ?_) fun hf => hf.2 hin
    obtain ⟨hg, hlo, hhi⟩ := hin
    obtain ⟨j, hj⟩ := Nat.exists_eq_add_of_le hlo
    unfold FreeAt at hf
    rw [hg, hj, hthese j (by omega)] at hf
    exact absurd hf.2 (by decide)
  · unfold FreeAt
    rw [hother _ _ hin]
    exact (and_iff_left hin).symm

lemma allocBlock_spec (d : Disk) :
    (allocBlock v).Ensures d fun r d' => AllocSpec v (v.bytes d) (v.bytes d') r ∧
      (∀ h, headerAt v (v.bytes d') h = headerAt v (v.bytes d) h) ∧
      ∀ i, ¬ InGroups v i → v.bytes d' i = v.bytes d i := by
  rcases allocBlock_taken (hs.geometry hp) d with hnone | ⟨g, bit, d', hrun, htaken⟩
  · exact .of_run hnone ⟨rfl, fun _ => rfl, fun _ _ => rfl⟩
  refine .of_run hrun ⟨htaken.spec hs hp, ?_⟩
  obtain ⟨mo, entries, hmap, -, hend, -, -, hw⟩ := htaken
  exact ⟨(hw.fragments hs hp hmap hend).1, fun i hi => hw.within hs hp hmap hend hi⟩

/-- The fragments from `f` on are a block of some group's map, on the
device and all allocated. -/
def AllocatedBlock (v : Volume) (m : Mem) (f : Nat) : Prop :=
  ∃ g bit mapOffset entries, f = g * v.fragmentsPerGroup + bit ∧
    freeMapAt v m g = some (mapOffset, entries) ∧ bit + v.fragmentsPerBlock ≤ entries ∧
    ∀ j, j < v.fragmentsPerBlock → v.device.Fits (mapByte mapOffset (bit + j)) 1 ∧
      ¬ FreeAt v m (f + j)

/-- What a successful release does to the free fragments. -/
def FreeSpec (v : Volume) (m m' : Mem) (f : Nat) : Prop :=
  ∀ n, FreeAt v m' n ↔ FreeAt v m n ∨ (f ≤ n ∧ n < f + v.fragmentsPerBlock)

variable {f : Nat}

omit hs hp in
lemma freeBlock_misaligned (h : f % v.fragmentsPerBlock ≠ 0) (d : Disk) :
    (freeBlock v f).run d = .ok (none, d) := by
  rw [freeBlock, if_pos (.inr (.inr h))]
  rfl

variable {mo : Nat} {d : Disk}

/-- `ufs2_free_block` of an aligned number finds its map and writes there. -/
lemma freeBlock_written
    (hal : f % v.fragmentsPerBlock = 0) (hgroup : f / v.fragmentsPerGroup < 2 ^ 32)
    (hmap : freeMapAt v (v.bytes d) (f / v.fragmentsPerGroup) = some (mo, entries))
    (hend : f % v.fragmentsPerGroup + v.fragmentsPerBlock ≤ entries) :
    ∃ r d' k, (freeBlock v f).run d = .ok (r, d') ∧ k ≤ v.fragmentsPerBlock ∧
      Written (v.bytes d) (v.bytes d') mo (f % v.fragmentsPerGroup) k true ∧
      ((∀ j < v.fragmentsPerBlock, v.device.Fits (mapByte mo (f % v.fragmentsPerGroup + j)) 1) →
          r = some () ∧ k = v.fragmentsPerBlock) := by
  have hpos := hp.fragmentsPerBlock_pos
  have hsmall := hs.small
  obtain ⟨hg, hle⟩ := freeMapAt_le hmap
  obtain ⟨r, d', k, hrun, hk, hw, hall⟩ := releaseFragments_run v.fragmentsPerBlock 0 d
    (Written.refl (v.bytes d) mo (f % v.fragmentsPerGroup) true)
  rw [zero_add] at hk hall
  refine ⟨r, d', k, ?_, hk, hw, hall⟩
  rw [freeBlock, if_neg (by omega)]
  dsimp only
  rw [mod_eq_of_lt hgroup, run_acquire_bind, if_neg (not_le.mpr hg),
    Prog.run_bind_ok (hmap ▸ cgFreeMap_run v _ d)]
  dsimp only
  rw [mod_eq_of_lt (show f % v.fragmentsPerGroup + v.fragmentsPerBlock < 2 ^ 32 by omega),
    if_neg (by omega), Prog.run_bind_ok hrun]
  rfl

/-- The number `f` names a block that the map of its group covers. -/
def Freeable (v : Volume) (m : Mem) (f : Nat) : Prop :=
  f % v.fragmentsPerBlock = 0 ∧ ∃ mo entries,
    freeMapAt v m (f / v.fragmentsPerGroup) = some (mo, entries) ∧
      f % v.fragmentsPerGroup + v.fragmentsPerBlock ≤ entries

lemma freeBlock_refused
    (hgroup : f / v.fragmentsPerGroup < 2 ^ 32) (h : ¬ Freeable v (v.bytes d) f) :
    (freeBlock v f).run d = .ok (none, d) := by
  have hpos := hp.fragmentsPerBlock_pos
  have hfpg := hp.fragmentsPerGroup
  have hsmall := hs.small
  by_cases hal : f % v.fragmentsPerBlock = 0
  · rw [freeBlock, if_neg (by omega)]
    dsimp only
    rw [mod_eq_of_lt hgroup, run_acquire_bind]
    split
    · rfl
    rw [run_bind_ok (cgFreeMap_run v _ d)]
    cases hmap : freeMapAt v (v.bytes d) (f / v.fragmentsPerGroup) with
    | none => rfl
    | some p => ?_
    have hlt := mod_lt f (Nat.pos_of_ne_zero hfpg)
    have hno : p.2 < f % v.fragmentsPerGroup + v.fragmentsPerBlock :=
      not_le.mp fun hle => h ⟨hal, p.1, p.2, hmap, hle⟩
    dsimp only
    rw [mod_eq_of_lt (show f % v.fragmentsPerGroup + v.fragmentsPerBlock < 2 ^ 32 by
      omega), if_pos hno]
    rfl
  · exact freeBlock_misaligned hal d

/-- Whatever number it is given, `ufs2_free_block` leaves the headers alone
and frees fragments of that block only. -/
lemma freeBlock_any (hgroup : f / v.fragmentsPerGroup < 2 ^ 32) (d : Disk) :
    (freeBlock v f).Ensures d fun _ d' =>
      (∀ h, headerAt v (v.bytes d') h = headerAt v (v.bytes d) h) ∧
      (∀ n, FreeAt v (v.bytes d') n → FreeAt v (v.bytes d) n ∨
        (f % v.fragmentsPerBlock = 0 ∧ f ≤ n ∧ n < f + v.fragmentsPerBlock)) ∧
      ∀ i, ¬ InGroups v i → v.bytes d' i = v.bytes d i := by
  by_cases hfit : Freeable v (v.bytes d) f
  · obtain ⟨hal, mo, entries, hmap, hend⟩ := hfit
    obtain ⟨r, d', k, hrun, hk, hw, -⟩ := freeBlock_written hs hp hal hgroup hmap hend
    obtain ⟨hmaps, hother, -⟩ := hw.fragments hs hp hmap (by omega)
    refine .of_run hrun ⟨hmaps, fun n hn => ?_, fun i hi => hw.within hs hp hmap (by omega) hi⟩
    by_cases hin : n / v.fragmentsPerGroup = f / v.fragmentsPerGroup ∧
        f % v.fragmentsPerGroup ≤ n % v.fragmentsPerGroup ∧
        n % v.fragmentsPerGroup < f % v.fragmentsPerGroup + k
    · have hndm := div_add_mod n v.fragmentsPerGroup
      have hfdm := div_add_mod f v.fragmentsPerGroup
      rw [hin.1] at hndm
      exact .inr ⟨hal, by omega, by omega⟩
    · exact .inl ((hother _ _ hin).mp hn)
  · exact .of_run (freeBlock_refused hs hp hgroup hfit)
      ⟨fun _ => rfl, fun n hn => .inl hn, fun _ _ => rfl⟩

omit hs hp in
lemma group_bit (hbit : bit < v.fragmentsPerGroup) :
    (g * v.fragmentsPerGroup + bit) / v.fragmentsPerGroup = g ∧
      (g * v.fragmentsPerGroup + bit) % v.fragmentsPerGroup = bit := by
  rw [mul_comm, mul_add_div (by omega), div_eq_of_lt hbit, add_zero, mul_add_mod, mod_eq_of_lt hbit]
  exact ⟨rfl, rfl⟩

section

variable (hncg : v.cylinderGroups < 2 ^ 32)
  (hal : (g * v.fragmentsPerGroup + bit) % v.fragmentsPerBlock = 0)
  (hmap : freeMapAt v (v.bytes d) g = some (mo, entries))
  (hend : bit + v.fragmentsPerBlock ≤ entries)
  (hfit : ∀ j, j < v.fragmentsPerBlock → v.device.Fits (mapByte mo (bit + j)) 1)
include hncg hal hmap hend hfit

lemma freeBlock_all :
    ∃ d', (freeBlock v (g * v.fragmentsPerGroup + bit)).run d = .ok (some (), d') ∧
      Written (v.bytes d) (v.bytes d') mo bit v.fragmentsPerBlock true := by
  have hpos := hp.fragmentsPerBlock_pos
  obtain ⟨hg, hle⟩ := freeMapAt_le hmap
  obtain ⟨hdiv, hmod⟩ := group_bit (v := v) (g := g) (show bit < v.fragmentsPerGroup by omega)
  obtain ⟨r, d', k, hrun, -, hw, hall⟩ := freeBlock_written hs hp hal (by omega)
    (by rwa [hdiv]) (by rwa [hmod])
  rw [hmod] at hw hall
  obtain ⟨rfl, rfl⟩ := hall hfit
  exact ⟨d', hrun, hw⟩

lemma freeBlock_fragments :
    ∃ d', (freeBlock v (g * v.fragmentsPerGroup + bit)).run d = .ok (some (), d') ∧
      FreeSpec v (v.bytes d) (v.bytes d') (g * v.fragmentsPerGroup + bit) := by
  have hpos := hp.fragmentsPerBlock_pos
  have hle := (freeMapAt_le hmap).2
  obtain ⟨d', hrun, hw⟩ := freeBlock_all hs hp hncg hal hmap hend hfit
  obtain ⟨-, hother, hthese⟩ := hw.fragments hs hp hmap hend
  refine ⟨d', hrun, fun n => ?_⟩
  rw [in_block_iff (by omega) hpos]
  by_cases hin : n / v.fragmentsPerGroup = g ∧ bit ≤ n % v.fragmentsPerGroup ∧
      n % v.fragmentsPerGroup < bit + v.fragmentsPerBlock
  · refine iff_of_true ?_ (.inr hin)
    obtain ⟨hng, hlo, hhi⟩ := hin
    obtain ⟨j, hj⟩ := Nat.exists_eq_add_of_le hlo
    unfold FreeAt
    rw [hng, hj, hthese j (by omega)]
    exact ⟨hfit j (by omega), rfl⟩
  · unfold FreeAt
    rw [hother _ _ hin]
    exact (or_iff_left hin).symm

end

lemma freeBlock_allocated (hncg : v.cylinderGroups < 2 ^ 32)
    (h : AllocatedBlock v (v.bytes d) f)
    (hal : f % v.fragmentsPerBlock = 0) :
    ∃ d', (freeBlock v f).run d = .ok (some (), d') ∧ FreeSpec v (v.bytes d) (v.bytes d') f := by
  obtain ⟨g, bit, mo, entries, rfl, hmap, hend, hfit⟩ := h
  exact freeBlock_fragments hs hp hncg hal hmap hend fun j hj => (hfit j hj).1

lemma Taken.allocatedBlock
    (h : Taken v m m' g bit) : AllocatedBlock v m' (g * v.fragmentsPerGroup + bit) := by
  have hspec := h.spec hs hp
  obtain ⟨mo, entries, hmap, -, hend, hfree, -, hw⟩ := h
  obtain ⟨hhead, -, -⟩ := hw.fragments hs hp hmap hend
  refine ⟨g, bit, mo, entries, rfl, (freeMapAt_of_header (hhead g)).trans hmap, hend, fun j hj => ⟨(hfree j hj).1, ?_⟩⟩
  rw [hspec.2]
  exact fun hf => hf.2 ⟨by omega, by omega⟩

variable {d' : Disk}

/-- Taking a block and giving it back restores every byte of the volume. -/
lemma Taken.restored (hncg : v.cylinderGroups < 2 ^ 32)
    (h : Taken v (v.bytes d) (v.bytes d') g bit)
    (hal : (g * v.fragmentsPerGroup + bit) % v.fragmentsPerBlock = 0) :
    ∃ d'', (freeBlock v (g * v.fragmentsPerGroup + bit)).run d' = .ok (some (), d'') ∧
      v.bytes d'' = v.bytes d := by
  obtain ⟨mo, entries, hmap, -, hend, hfree, -, hw⟩ := h
  obtain ⟨hhead, -, -⟩ := hw.fragments hs hp hmap hend
  obtain ⟨d'', hrun, hw'⟩ := freeBlock_all hs hp hncg hal
    ((freeMapAt_of_header (hhead g)).trans hmap) hend fun j hj => (hfree j hj).1
  refine ⟨d'', hrun, funext fun i => byte_ext fun k hk => ?_⟩
  by_cases hin : ∃ j < v.fragmentsPerBlock, i = mapByte mo (bit + j) ∧ k = (bit + j) % 8
  · obtain ⟨j, hj, rfl, rfl⟩ := hin
    rw [hw'.value j hj, (hfree j hj).2]
  rw [hw'.keep i k hk fun j hj heq => hin ⟨j, hj, heq⟩,
    hw.keep i k hk fun j hj heq => hin ⟨j, hj, heq⟩]

/-! ## Sequences of calls -/

inductive BlockCall where
  | alloc (result : Option Nat)
  | free (f : Nat) (result : Option Unit)
  deriving DecidableEq, Repr

/-- One call. The number given to `ufs2_free_block` names a group that
fits the 32 bits the code keeps of it. -/
def BlockStep (v : Volume) (d : Disk) : BlockCall → Disk → Prop
  | .alloc result, d' => (allocBlock v).run d = .ok (result, d')
  | .free f result, d' => (freeBlock v f).run d = .ok (result, d') ∧
      f / v.fragmentsPerGroup < 2 ^ 32

omit hs hp in
lemma aligned_block_eq {b f' : Nat} (h : f % b = 0) (h' : f' % b = 0)
    (hlt : f < f' + b) (hlt' : f' < f + b) : f = f' := by
  obtain ⟨q, rfl⟩ := dvd_of_mod_eq_zero h
  obtain ⟨q', rfl⟩ := dvd_of_mod_eq_zero h'
  rw [← mul_succ] at hlt hlt'
  have hle := le_of_lt_succ (Nat.lt_of_mul_lt_mul_left hlt)
  have hle' := le_of_lt_succ (Nat.lt_of_mul_lt_mul_left hlt')
  rw [le_antisymm hle hle']

lemma BlockStep.keeps (hncg : v.cylinderGroups < 2 ^ 32)
    {call : BlockCall} (hstep : BlockStep v d call d')
    (hal : f % v.fragmentsPerBlock = 0) (hf : AllocatedBlock v (v.bytes d) f)
    (hcall : call ≠ .free f (some ())) : AllocatedBlock v (v.bytes d') f := by
  -- enough: the headers stay, and no fragment of the block becomes free
  suffices h : (∀ g, headerAt v (v.bytes d') g = headerAt v (v.bytes d) g) ∧
      ∀ j < v.fragmentsPerBlock, FreeAt v (v.bytes d') (f + j) → FreeAt v (v.bytes d) (f + j) by
    obtain ⟨g, bit, mo, entries, rfl, hmap, hend, hfit⟩ := hf
    exact ⟨g, bit, mo, entries, rfl, (freeMapAt_of_header (h.1 g)).trans hmap, hend,
      fun j hj => ⟨(hfit j hj).1, fun hnew => (hfit j hj).2 (h.2 j hj hnew)⟩⟩
  cases call with
  | alloc result =>
    obtain ⟨r, d1, hrun, hspec, hmaps, -⟩ := allocBlock_spec hs hp d
    have hstep : (allocBlock v).run d = .ok (result, d') := hstep
    rw [hrun] at hstep
    cases hstep
    refine ⟨hmaps, fun j _ hnew => ?_⟩
    cases result with
    | none =>
      have hsame : v.bytes d' = v.bytes d := hspec
      exact hsame ▸ hnew
    | some f' => exact ((hspec.2 _).mp hnew).1
  | free f' result => ?_
  obtain ⟨hfree, hgroup⟩ : (freeBlock v f').run d = .ok (result, d') ∧ _ := hstep
  obtain ⟨r, d1, hrun, hmaps, hspec, -⟩ := freeBlock_any hs hp hgroup d
  rw [hfree] at hrun
  cases hrun
  refine ⟨hmaps, fun j hj hnew => (hspec _ hnew).resolve_right ?_⟩
  rintro ⟨hal', hlo, hhi⟩
  obtain rfl := aligned_block_eq hal hal' (by omega) (by omega)
  obtain ⟨d2, hdone, -⟩ := freeBlock_allocated hs hp hncg hf hal
  rw [hfree] at hdone
  cases hdone
  exact hcall rfl

lemma run_keeps (hncg : v.cylinderGroups < 2 ^ 32)
    {calls : List BlockCall}
    (hrun : Runs.Run (BlockStep v) d calls d') (hal : f % v.fragmentsPerBlock = 0)
    (hf : AllocatedBlock v (v.bytes d) f) (hcalls : .free f (some ()) ∉ calls) :
    AllocatedBlock v (v.bytes d') f := by
  induction hrun with
  | nil => exact hf
  | cons hstep _ ih => ?_
  refine ih (BlockStep.keeps hs hp hncg hstep hal hf fun heq => ?_)
    fun hmem => hcalls (mem_cons_of_mem _ hmem)
  exact hcalls (heq ▸ mem_cons_self)

/-- A number `ufs2_alloc_block` hands out is where its group starts plus a
multiple of the block length. -/
lemma allocBlock_some (h : (allocBlock v).run d = .ok (some f, d')) :
    ∃ g bit, f = g * v.fragmentsPerGroup + bit ∧ bit % v.fragmentsPerBlock = 0 ∧
      Taken v (v.bytes d) (v.bytes d') g bit := by
  rcases allocBlock_taken (hs.geometry hp) d with hnone | ⟨g, bit, d1, hrun, htaken⟩
  · rw [h] at hnone
    cases hnone
  rw [h] at hrun
  cases hrun
  exact ⟨g, bit, rfl, htaken.choose_spec.choose_spec.2.1, htaken⟩

omit hs hp in
lemma Regular.alloc_aligned (hr : Regular v) (hp : v.Probed)
    (h : (allocBlock v).run d = .ok (some f, d')) : f % v.fragmentsPerBlock = 0 := by
  obtain ⟨g, bit, rfl, hbit, -⟩ := allocBlock_some hr.toSeparate hp h
  rw [add_mod, mul_mod, hr.aligned, hbit, mul_zero, zero_mod, zero_mod]

end

/-- The block allocator on a volume the probe accepts and whose groups do
not overlap. An allocation takes a free block and marks exactly its
fragments, or changes nothing. A block can be given back, with the bitmap
as it was before, exactly when its number is a multiple of the block
length. When groups hold whole blocks every block handed out is such a
block, and none is handed out again before it is given back. -/
theorem block_allocator (ha : Accepted v) (hs : Separate v) :
    (∀ d, ∃ r d', (allocBlock v).run d = .ok (r, d') ∧ AllocSpec v (v.bytes d) (v.bytes d') r) ∧
    (∀ d f, AllocatedBlock v (v.bytes d) f → ((∃ d', (freeBlock v f).run d = .ok (some (), d') ∧
        FreeSpec v (v.bytes d) (v.bytes d') f) ↔ f % v.fragmentsPerBlock = 0)) ∧
    (∀ d d' f, (allocBlock v).run d = .ok (some f, d') →
      ((∃ d'', (freeBlock v f).run d' = .ok (some (), d'') ∧ v.bytes d'' = v.bytes d) ↔
        f % v.fragmentsPerBlock = 0)) ∧
    (v.fragmentsPerGroup % v.fragmentsPerBlock = 0 →
      (∀ d d' f, (allocBlock v).run d = .ok (some f, d') → f % v.fragmentsPerBlock = 0) ∧
      ∀ d d' calls calls' f,
        Runs.Run (BlockStep v) d (calls ++ .alloc (some f) :: (calls' ++ [.alloc (some f)])) d' →
          .free f (some ()) ∈ calls') := by
  have hp := ha.probed
  have hncg := ha.groups_lt
  refine ⟨fun d => ?_, fun d f hf => ⟨?_, freeBlock_allocated hs hp hncg hf⟩,
    fun d d' f hrun => ⟨?_, fun hal => ?_⟩,
    fun haligned => ⟨fun d d' f hrun => Regular.alloc_aligned ⟨hs, haligned⟩ hp hrun, ?_⟩⟩
  · obtain ⟨r, d', hrun, hspec, -⟩ := allocBlock_spec hs hp d
    exact ⟨r, d', hrun, hspec⟩
  · rintro ⟨d', hrun, -⟩
    by_contra hal
    rw [freeBlock_misaligned hal] at hrun
    cases hrun
  · rintro ⟨d'', hfree, -⟩
    by_contra hal
    rw [freeBlock_misaligned hal] at hfree
    cases hfree
  · obtain ⟨g, bit, rfl, -, htaken⟩ := allocBlock_some hs hp hrun
    exact htaken.restored hs hp hncg hal
  intro d d' calls calls' f hrun
  obtain ⟨d1, -, hrun⟩ := hrun.append_inv
  cases hrun with
  | @cons _ d2 _ _ _ hfirst hrun =>
    obtain ⟨d3, hbetween, hrun⟩ := hrun.append_inv
    cases hrun with
    | @cons _ d4 _ _ _ hsecond _ =>
      -- still allocated before the second call, which finds it free
      by_contra hnone
      obtain ⟨g, bit, rfl, -, htaken⟩ := allocBlock_some hs hp hfirst
      have hkept := run_keeps hs hp hncg hbetween
        (Regular.alloc_aligned ⟨hs, haligned⟩ hp hfirst) (htaken.allocatedBlock hs hp) hnone
      obtain ⟨r, d5, hagain, hspec, -⟩ := allocBlock_spec hs hp d3
      have hsecond : (allocBlock v).run d3 = .ok (_, d4) := hsecond
      rw [hsecond] at hagain
      cases hagain
      obtain ⟨_, _, _, _, _, _, _, hkept⟩ := hkept
      have hpos := hp.fragmentsPerBlock_pos
      exact (hkept 0 hpos).2 (hspec.1 _ (le_refl _) (by omega))

/-- Two groups of `fpg` fragments, eight to a block. -/
def pairVolume (fpg : Nat) : Volume where
  device := ⟨0, 256⟩
  blockSize := 4096
  fragmentSize := 512
  fragmentsPerBlock := 8
  cylinderGroups := 2
  inodesPerGroup := 16
  fragmentsPerGroup := fpg
  inodesPerBlock := 16
  inodeTableFragment := 200
  cylinderGroupBlock := 150
  cylinderGroupSize := 512

def groupHeader (v : Volume) (g : Nat) : Mem :=
  [(4, CG_MAGIC), (12, g), (20, v.fragmentsPerGroup), (92, 128), (96, 256)].foldl
    (fun m p => writeLe 4 m p.1 p.2) fun _ => 0

/-- The first group is full, and the second has its first eight fragments free. -/
def pairImage (fpg : Nat) : Mem :=
  let v := pairVolume fpg
  let m := blit (fun _ => 0) SUPERBLOCK_OFFSET (superblockOf v) SUPERBLOCK_SIZE
  let m := blit m 76800 (groupHeader v 0) 512
  blit m (76800 + fpg * 512) (poke (groupHeader v 1) 256 0xff) 512

variable {fpg : Nat}

lemma pairVolume_accepted (h : fpg = 12 ∨ fpg = 16) : Accepted (pairVolume fpg) := by
  rcases h with rfl | rfl <;>
    exact accepted_image rfl (by decide) (by decide) (by decide) (by decide) (by decide)

lemma pairVolume_separate (h : fpg = 12 ∨ fpg = 16) : Separate (pairVolume fpg) where
  small := by rcases h with rfl | rfl <;> decide
  apart := .inr (by rcases h with rfl | rfl <;> decide)
  ends g o ho := by
    obtain ⟨hg, rfl⟩ := cgOffset_some ho
    change g < 2 at hg
    show (g * fpg + 150) * 512 + 512 ≤ U64MAX
    unfold U64MAX
    rcases h with rfl | rfl <;> omega

lemma pairImage_alloc (h : fpg = 12 ∨ fpg = 16) : ∃ d,
    (allocBlock (pairVolume fpg)).run (imageDisk (pairImage fpg)) = .ok (some fpg, d) :=
  Prog.ok_of_fst (by rcases h with rfl | rfl <;> decide +kernel)

/-- In groups of two blocks the block taken is given back. -/
theorem block_allocator_pair : Accepted (pairVolume 16) ∧ Separate (pairVolume 16) ∧ ∃ d d',
    (allocBlock (pairVolume 16)).run (imageDisk (pairImage 16)) = .ok (some 16, d) ∧
    (freeBlock (pairVolume 16) 16).run d = .ok (some (), d') ∧
    (pairVolume 16).bytes d' = (pairVolume 16).bytes (imageDisk (pairImage 16)) := by
  have ha := pairVolume_accepted (.inr (rfl : 16 = 16))
  have hs := pairVolume_separate (.inr (rfl : 16 = 16))
  obtain ⟨d, hrun⟩ := pairImage_alloc (.inr (rfl : 16 = 16))
  obtain ⟨-, -, hback, -⟩ := block_allocator ha hs
  obtain ⟨d', hfree, hbytes⟩ := (hback _ _ _ hrun).mpr (by decide)
  exact ⟨ha, hs, d, d', hrun, hfree, hbytes⟩

/-- In groups of a block and a half the block taken cannot be given back. -/
theorem free_block_refused : Accepted (pairVolume 12) ∧ Separate (pairVolume 12) ∧ ∃ d,
    (allocBlock (pairVolume 12)).run (imageDisk (pairImage 12)) = .ok (some 12, d) ∧
    AllocatedBlock (pairVolume 12) ((pairVolume 12).bytes d) 12 ∧
    (freeBlock (pairVolume 12) 12).run d = .ok (none, d) := by
  have ha := pairVolume_accepted (.inl (rfl : 12 = 12))
  have hs := pairVolume_separate (.inl (rfl : 12 = 12))
  obtain ⟨d, hrun⟩ := pairImage_alloc (.inl (rfl : 12 = 12))
  obtain ⟨g, bit, heq, -, htaken⟩ := allocBlock_some hs ha.probed hrun
  have hblock := htaken.allocatedBlock hs ha.probed
  rw [← heq] at hblock
  exact ⟨ha, hs, d, hrun, hblock, freeBlock_misaligned (by decide) d⟩

end Proninx.Ufs2
