import Proninx.Kern.Ufs2Blocks

/-!
# What the file operations touch

`ufs2_write_growing` and `ufs2_truncate` on one inode, seen from outside.
`mine` is a set of fragments that holds the blocks of the file and every
free fragment, apart from the cylinder groups and from the dinode. Both
functions change bytes of the groups, of the dinode and of `mine` only,
and only fragments of `mine` become free. Nothing is assumed about the
data, the offset, the free space or the device, so the calls may fail
anywhere.
-/

namespace Proninx.Ufs2

open Blockdev ByteMem Function Nat Prog

variable (v : Volume)

/-- Byte `i` lies in the dinode of `n`. -/
def InSlot (n i : Nat) : Prop :=
  ∃ o, inodeOffset v n = some o ∧ o ≤ i ∧ i < o + DINODE_SIZE

def InFragment (n i : Nat) : Prop := n * v.fragmentSize ≤ i ∧ i < (n + 1) * v.fragmentSize

/-- The fragments of `mine` have numbers and addresses that do not wrap,
and lie apart from the groups and from the dinode of `ino`. -/
structure Room (ino : Nat) (mine : Nat → Prop) : Prop where
  probed : v.Probed
  separate : Separate v
  slot_apart : ∀ i, InSlot v ino i → ¬ InGroups v i
  number : ∀ n, mine n → n / v.fragmentsPerGroup < 2 ^ 32
  address : ∀ n, mine n → (n + 1) * v.fragmentSize ≤ U64MAX
  apart : ∀ n i, mine n → InFragment v n i → ¬ InGroups v i ∧ ¬ InSlot v ino i

/-- The free fragments and the blocks of the file are in `mine`. -/
structure Keeps (mine : Nat → Prop) (m : Mem) (inode : Inode) : Prop where
  free : ∀ n, FreeAt v m n → mine n
  direct : ∀ b, b < DIRECT_BLOCKS → inode.direct b ≠ 0 →
    ∀ k, k < v.fragmentsPerBlock → mine (inode.direct b + k)

/-- Only bytes of the groups, of the dinode and of `mine` differ. -/
def Confined (ino : Nat) (mine : Nat → Prop) (m m' : Mem) : Prop :=
  ∀ i, ¬ InGroups v i → ¬ InSlot v ino i → (∀ n, mine n → ¬ InFragment v n i) → m' i = m i

/-- Only bytes of the dinode and of `mine` differ. -/
def Quiet (ino : Nat) (mine : Nat → Prop) (m m' : Mem) : Prop :=
  ∀ i, ¬ InSlot v ino i → (∀ n, mine n → ¬ InFragment v n i) → m' i = m i

variable {v} {ino : Nat} {mine : Nat → Prop} {m m' m'' : Mem} {inode : Inode}

lemma Confined.refl (m : Mem) : Confined v ino mine m m := fun _ _ _ _ => rfl

lemma Confined.trans (h : Confined v ino mine m m') (h' : Confined v ino mine m' m'') :
    Confined v ino mine m m'' :=
  fun i hg hs hm => (h' i hg hs hm).trans (h i hg hs hm)

lemma Quiet.confined (h : Quiet v ino mine m m') : Confined v ino mine m m' :=
  fun i _ hs hm => h i hs hm

lemma Quiet.refl (m : Mem) : Quiet v ino mine m m := fun _ _ _ => rfl

lemma Quiet.trans (h : Quiet v ino mine m m') (h' : Quiet v ino mine m' m'') :
    Quiet v ino mine m m'' :=
  fun i hs hm => (h' i hs hm).trans (h i hs hm)

lemma freeAt_congr (hs : Separate v) (hp : v.Probed) (h : ∀ i, InGroups v i → m' i = m i)
    (n : Nat) : FreeAt v m' n ↔ FreeAt v m n := by
  have hgs := hp.groupSize
  have hgeo := hs.geometry hp
  have hmap : ∀ g, freeMapAt v m' g = freeMapAt v m g := fun g =>
    freeMapAt_congr fun o ho i hi hj => (h i ⟨g, o, ho, hi, by omega⟩).symm
  unfold FreeAt FreeFragment
  rw [hmap]
  refine exists_congr fun mo => exists_congr fun entries => and_congr_right fun hat =>
    and_congr_right fun hk => and_congr_right fun _ => ?_
  obtain ⟨o, ho, hlo, hhi⟩ := mapByte_in_group hgeo hs.ends hat hk
  rw [h _ ⟨_, o, ho, by omega, hhi⟩]

lemma Quiet.freeAt (hr : Room v ino mine) (h : Quiet v ino mine m m') (n : Nat) :
    FreeAt v m' n ↔ FreeAt v m n :=
  freeAt_congr hr.separate hr.probed (fun i hi => h i (fun hs => hr.slot_apart i hs hi)
    fun k hk hin => (hr.apart k i hk hin).1 hi) n

variable {f : Nat}

lemma in_block_fragment (hp : v.Probed) {i : Nat} (hlo : f * v.fragmentSize ≤ i)
    (hhi : i < f * v.fragmentSize + v.blockSize) :
    ∃ k < v.fragmentsPerBlock, InFragment v (f + k) i := by
  have hs := hp.sizes
  have hpos := hs.pos
  obtain ⟨j, rfl⟩ := Nat.exists_eq_add_of_le hlo
  have hj : j < v.fragmentsPerBlock * v.fragmentSize := by
    rw [← hs.block]
    omega
  have hdm := div_add_mod j v.fragmentSize
  have hmod := mod_lt j hpos
  rw [mul_comm] at hdm
  refine ⟨j / v.fragmentSize, (Nat.div_lt_iff_lt_mul hpos).mpr hj, ?_, ?_⟩
  · rw [add_mul]
    omega
  rw [add_mul, add_mul]
  omega

lemma Room.block_end (hr : Room v ino mine) (hf : ∀ k < v.fragmentsPerBlock, mine (f + k)) :
    f * v.fragmentSize + v.blockSize ≤ U64MAX := by
  have hpos := hr.probed.fragmentsPerBlock_pos
  have hlast := hr.address _ (hf (v.fragmentsPerBlock - 1) (by omega))
  have heq : f + (v.fragmentsPerBlock - 1) + 1 = f + v.fragmentsPerBlock := by omega
  rwa [heq, add_mul, ← hr.probed.sizes.block] at hlast

/-! ## Steps -/

variable (mine) in
lemma writeInode_quiet (n : Nat) (x : Inode) (d : Disk) :
    (writeInode v n x).Ensures d fun _ d' => Quiet v n mine (v.bytes d) (v.bytes d') := by
  unfold writeInode
  cases hoff : inodeOffset v n with
  | none => exact .pure (.refl _)
  | some o => ?_
  refine Ensures.andThen (P := fun _ d' => d' = d) (.of_run (read_run _ _ _ d) rfl)
    (fun d' hd => hd ▸ .refl _) ?_
  rintro raw d' rfl
  refine (write_within v.device o _ DINODE_SIZE d').mono fun r d'' hw i hs _ => hw.2 i ?_
  by_contra hin
  exact hs ⟨o, hoff, by omega, by omega⟩

section

variable (hr : Room v ino mine) (hf : ∀ k, k < v.fragmentsPerBlock → mine (f + k))
include hr hf

lemma quiet_of_block
    (h : ∀ i, i < f * v.fragmentSize ∨ f * v.fragmentSize + v.blockSize ≤ i → m' i = m i) :
    Quiet v ino mine m m' := by
  intro i _ hm
  refine h i ?_
  by_contra hin
  obtain ⟨k, hk, hfrag⟩ := in_block_fragment (f := f) hr.probed (i := i) (by omega) (by omega)
  exact hm _ (hf k hk) hfrag

lemma fillBlock_quiet (sector : Mem) (d : Disk) :
    (fillBlock v f sector v.blockSize 0).Ensures d fun _ d' =>
      Quiet v ino mine (v.bytes d) (v.bytes d') := by
  have hs := hr.probed.sizes
  have hend := hr.block_end hf
  rcases @fillBlock_run v f sector hs.region v.blockSize 0 d (by decide) (by omega)
    (by omega) (by omega) with ⟨d', hrun, -, hout, -⟩ | ⟨d', hrun, hout⟩
  · exact .of_run hrun (quiet_of_block hr hf hout)
  · exact .of_run hrun (quiet_of_block hr hf hout)

lemma zeroBlock_quiet (d : Disk) :
    (zeroBlock v f).Ensures d fun _ d' => Quiet v ino mine (v.bytes d) (v.bytes d') := by
  unfold zeroBlock
  split
  · exact .pure (.refl _)
  · exact fillBlock_quiet hr hf _ d

lemma fillDirectory_quiet (first : Mem) (fuel : Nat) :
    ∀ (offset : Nat) (d : Disk), offset % DIR_BLOCK_SIZE = 0 →
      (fillDirectory v f first fuel offset).Ensures d fun _ d' =>
        Quiet v ino mine (v.bytes d) (v.bytes d') := by
  have hregion := hr.probed.sizes.region
  have hend := hr.block_end hf
  induction fuel with
  | zero => exact fun _ _ _ => .pure (.refl _)
  | succ fuel ih => ?_
  intro offset d hmod
  unfold fillDirectory
  split
  · have hnext : offset + DIR_BLOCK_SIZE ≤ v.blockSize := by unfold DIR_BLOCK_SIZE at *; omega
    rw [mod_eq_of_lt (by unfold U64MAX at hend; omega)]
    refine Ensures.andThen ((write_within v.device _ _ _ d).mono
      fun r d1 hw => quiet_of_block hr hf fun i hi => hw.2 i (by omega))
      (fun _ hq => hq) fun _ d1 hq => ?_
    exact (ih _ d1 (by unfold DIR_BLOCK_SIZE at *; omega)).mono fun _ _ hq' => hq.trans hq'
  · exact .pure (.refl _)

end

variable {x : Inode} {d : Disk}

lemma writeBlocks_turn (hp : v.Probed) {fuel offset length b : Nat} {src : Mem}
    (h0 : length ≠ 0) (hb : offset / v.blockSize = b) (h12 : b < DIRECT_BLOCKS)
    (hne : x.direct b ≠ 0) (hend : x.direct b * v.fragmentSize + v.blockSize ≤ U64MAX) :
    (writeBlocks v x (fuel + 1) offset src length).run d =
      ((v.device.write (x.direct b * v.fragmentSize + offset % v.blockSize) src
        (min (v.blockSize - offset % v.blockSize) length)).andThen fun _ =>
          writeBlocks v x fuel (offset + min (v.blockSize - offset % v.blockSize) length)
            (shift src (min (v.blockSize - offset % v.blockSize) length))
            (length - min (v.blockSize - offset % v.blockSize) length)).run d := by
  have hs := hp.sizes
  have hin := mod_lt offset hs.blockPos
  have hle : x.direct b ≤ U64MAX / v.fragmentSize :=
    (Nat.le_div_iff_mul_le hs.pos).mpr (by omega)
  have hat : byteAt v (v.bytes d) x offset
      = some (x.direct b * v.fragmentSize + offset % v.blockSize) := by
    rw [byteAt_direct hb h12, if_neg (by omega), mod_eq_of_lt (by unfold U64MAX at hend; omega)]
  rw [writeBlocks, if_neg h0]
  exact run_andThen_some (hat ▸ byteAddress_run v x offset d)

section

variable (hr : Room v ino mine)
  (hx : ∀ b, b < DIRECT_BLOCKS → x.direct b ≠ 0 → ∀ k, k < v.fragmentsPerBlock → mine (x.direct b + k))
include hr hx

lemma writeBlocks_quiet (fuel : Nat) : ∀ (offset : Nat) (src : Mem) (length : Nat) (d : Disk),
      offset + length ≤ DIRECT_BLOCKS * v.blockSize →
      (writeBlocks v x fuel offset src length).Ensures d fun _ d' =>
        Quiet v ino mine (v.bytes d) (v.bytes d') := by
  have hbs := hr.probed.sizes.blockPos
  induction fuel with
  | zero => exact fun _ _ _ _ _ => .pure (.refl _)
  | succ fuel ih => ?_
  intro offset src length d hlen
  by_cases h0 : length = 0
  · rw [writeBlocks, if_pos h0]
    exact .pure (.refl _)
  have hb : offset / v.blockSize < DIRECT_BLOCKS :=
    (Nat.div_lt_iff_lt_mul hbs).mpr (by omega)
  have hin := mod_lt offset hbs
  by_cases hne : x.direct (offset / v.blockSize) = 0
  · -- a hole ends the call
    have hat : byteAt v (v.bytes d) x offset = none := by
      rw [byteAt_direct rfl hb, if_pos (.inl hne)]
    rw [writeBlocks, if_neg h0]
    exact .andThen_none (hat ▸ byteAddress_run v x offset d) (.refl _)
  have hf := hx _ hb hne
  refine .of_run_eq (writeBlocks_turn hr.probed h0 rfl hb hne (hr.block_end hf)) ?_
  refine Ensures.andThen ((write_within v.device _ _ _ d).mono
    fun r d1 hw => quiet_of_block hr hf fun i hi => hw.2 i (by omega))
    (fun _ hq => hq) fun _ d1 hq => ?_
  exact (ih _ _ _ d1 (by omega)).mono fun _ _ hq' => hq.trans hq'

lemma zeroGap_quiet {offset : Nat} (hoff : offset ≤ DIRECT_BLOCKS * v.blockSize) (fuel : Nat) :
    ∀ (oldSize : Nat) (d : Disk), (zeroGap v x offset fuel oldSize).Ensures d fun _ d' =>
      Quiet v ino mine (v.bytes d) (v.bytes d') := by
  induction fuel with
  | zero => exact fun _ _ => .pure (.refl _)
  | succ fuel ih => ?_
  intro oldSize d
  unfold zeroGap
  split
  · refine Ensures.andThen (writeBlocks_quiet hr hx _ _ _ _ d (by omega))
      (fun _ hq => hq) fun _ d' hq => ?_
    exact (ih _ d').mono fun _ _ hq' => hq.trans hq'
  · exact .pure (.refl _)

end

/-! ## `ufs2_write_growing` and `ufs2_truncate` -/

lemma Keeps.quiet (hr : Room v ino mine) (h : Keeps v mine m inode)
    (hq : Quiet v ino mine m m') : Keeps v mine m' inode :=
  ⟨fun n hn => h.free n ((hq.freeAt hr n).mp hn), h.direct⟩

lemma Keeps.setDirect (h : Keeps v mine m inode) {b : Nat}
    (hf : f ≠ 0 → ∀ k < v.fragmentsPerBlock, mine (f + k)) :
    Keeps v mine m (inode.setDirect b f) := by
  refine ⟨h.free, fun c hc hne => ?_⟩
  by_cases hcb : c = b
  · subst hcb
    have heq : (inode.setDirect c f).direct c = f := update_self ..
    rw [heq] at hne ⊢
    exact hf hne
  · have heq : (inode.setDirect b f).direct c = inode.direct c := update_of_ne hcb ..
    rw [heq] at hne ⊢
    exact h.direct c hc hne

/-- What the two functions leave behind. -/
def Stays (v : Volume) (ino : Nat) (mine : Nat → Prop) (d : Disk)
    (p : Option Unit × Inode) (d' : Disk) : Prop :=
  Confined v ino mine (v.bytes d) (v.bytes d') ∧ Keeps v mine (v.bytes d') p.2

lemma Stays.trans {d' d'' : Disk} {p : Option Unit × Inode}
    (h : Confined v ino mine (v.bytes d) (v.bytes d')) (h' : Stays v ino mine d' p d'') :
    Stays v ino mine d p d'' :=
  ⟨h.trans h'.1, h'.2⟩

section

variable (hr : Room v ino mine)
include hr

lemma freeBlock_keeps (hf : ∀ k < v.fragmentsPerBlock, mine (f + k))
    (h : Keeps v mine (v.bytes d) inode) :
    (freeBlock v f).Ensures d fun _ d' => Confined v ino mine (v.bytes d) (v.bytes d') ∧
      Keeps v mine (v.bytes d') inode := by
  have hnum := hr.number _ (hf 0 hr.probed.fragmentsPerBlock_pos)
  refine (freeBlock_any hr.separate hr.probed hnum d).mono fun _ d' ⟨_, hfree, hout⟩ =>
    ⟨fun i hg _ _ => hout i hg, fun n hn => ?_, h.direct⟩
  rcases hfree n hn with hold | ⟨-, hlo, hhi⟩
  · exact h.free n hold
  obtain ⟨k, rfl⟩ := Nat.exists_eq_add_of_le hlo
  exact hf k (by omega)

lemma allocBlock_keeps (h : Keeps v mine (v.bytes d) inode) :
    (allocBlock v).Ensures d fun r d' => Confined v ino mine (v.bytes d) (v.bytes d') ∧
      Keeps v mine (v.bytes d') inode ∧
      ∀ f, r = some f → ∀ k < v.fragmentsPerBlock, mine (f + k) := by
  refine (allocBlock_spec hr.separate hr.probed d).mono fun r d' ⟨hspec, _, hout⟩ =>
    ⟨fun i hg _ _ => hout i hg, ⟨fun n hn => ?_, h.direct⟩, ?_⟩
  · cases r with
    | none =>
      have hsame : v.bytes d' = v.bytes d := hspec
      exact h.free n (hsame ▸ hn)
    | some f => exact h.free n ((hspec.2 n).mp hn).1
  · rintro f rfl k hk
    exact h.free _ (hspec.1 _ (by omega) (by omega))

lemma growBlocks_stays (n : Nat) :
    ∀ (block : Nat) (x : Inode) (d : Disk), Keeps v mine (v.bytes d) x →
      (growBlocks v ino n block x).Ensures d (Stays v ino mine d) := by
  induction n with
  | zero => exact fun _ _ _ h => .pure ⟨.refl _, h⟩
  | succ n ih => ?_
  intro block x d h
  unfold growBlocks
  split
  · exact ih _ x d h
  refine (allocBlock_keeps hr h).bind fun r d1 ⟨hc1, hk1, hnew⟩ => ?_
  cases r with
  | none => exact .pure ⟨hc1, hk1⟩
  | some f => ?_
  have hf := hnew f rfl
  refine (zeroBlock_quiet hr hf d1).bind fun r2 d2 hq2 => ?_
  have hc2 := hc1.trans hq2.confined
  have hk2 := hk1.quiet hr hq2
  cases r2 with
  | none =>
    dsimp only
    split
    · refine ((freeBlock_keeps hr hf hk2).bind fun _ d3 ⟨hc3, hk3⟩ => ?_)
      exact .pure ⟨hc2.trans hc3, hk3⟩
    · exact .pure ⟨hc2, hk2⟩
  | some _ => ?_
  refine (writeInode_quiet mine ino _ d2).bind fun r3 d3 hq3 => ?_
  have hc3 := hc2.trans hq3.confined
  have hk3 := (hk2.quiet hr hq3).setDirect (b := block) fun _ => hf
  cases r3 with
  | none => exact .pure ⟨hc3, hk3⟩
  | some _ => exact (ih _ _ d3 hk3).mono fun p d' hs => .trans hc3 hs

lemma writeGrowing_stays (h : Keeps v mine (v.bytes d) x) (offset : Nat) (src : Mem)
    (length : Nat) :
    (writeGrowing v ino x offset src length).Ensures d (Stays v ino mine d) := by
  unfold writeGrowing
  split
  · exact .pure ⟨.refl _, h⟩
  split
  · exact .pure ⟨.refl _, h⟩
  next hlen =>
  refine (growBlocks_stays hr _ _ x d h).bind fun p d1 ⟨hc1, hk1⟩ => ?_
  obtain ⟨r, y⟩ := p
  cases r with
  | none => exact .pure ⟨hc1, hk1⟩
  | some _ => ?_
  dsimp only at hk1 ⊢
  split
  · refine (writeBlocks_quiet hr hk1.direct _ _ _ _ d1 (by omega)).bind fun r d2 hq => ?_
    exact .pure ⟨hc1.trans hq.confined, hk1.quiet hr hq⟩
  have hk : Keeps v mine (v.bytes d1) { y with size := offset + length } :=
    ⟨hk1.free, hk1.direct⟩
  refine Ensures.bind (P := fun _ d2 => Quiet v ino mine (v.bytes d1) (v.bytes d2))
    ?_ fun r d2 hq => .pure ⟨hc1.trans hq.confined, hk.quiet hr hq⟩
  refine Ensures.andThen (writeInode_quiet mine ino _ d1) (fun _ hq => hq) fun _ d2 hq2 => ?_
  refine Ensures.andThen (zeroGap_quiet hr hk.direct (by omega) _ _ d2)
    (fun _ hq => hq2.trans hq) fun _ d3 hq3 => ?_
  exact (writeBlocks_quiet hr hk.direct _ _ _ _ d3 (by omega)).mono
    fun _ _ hq => (hq2.trans hq3).trans hq

lemma truncateBlocks_stays (n : Nat) :
    ∀ (block : Nat) (x : Inode) (d : Disk), block + n = DIRECT_BLOCKS → Keeps v mine (v.bytes d) x →
        (truncateBlocks v ino n block x).Ensures d (Stays v ino mine d) := by
  induction n with
  | zero => exact fun _ _ _ _ h => .pure ⟨.refl _, h⟩
  | succ n ih => ?_
  intro block x d hn h
  unfold truncateBlocks
  split
  · exact ih _ x d (by omega) h
  next hne =>
  have hf := h.direct block (by omega) hne
  have h0 : Keeps v mine (v.bytes d) (x.setDirect block 0) :=
    h.setDirect fun hne => absurd rfl hne
  refine Ensures.bind (P := fun _ d1 => Confined v ino mine (v.bytes d) (v.bytes d1) ∧
    Keeps v mine (v.bytes d1) (x.setDirect block 0)) ?_ fun r d1 ⟨hc1, hk1⟩ => ?_
  · refine Ensures.andThen (writeInode_quiet mine ino _ d)
      (fun _ hq => ⟨hq.confined, h0.quiet hr hq⟩) fun _ d1 hq => ?_
    exact (freeBlock_keeps hr hf (h0.quiet hr hq)).mono
      fun _ _ ⟨hc, hk⟩ => ⟨hq.confined.trans hc, hk⟩
  · cases r with
    | none => exact .pure ⟨hc1, hk1⟩
    | some _ => exact (ih _ _ d1 (by omega) hk1).mono fun p d' hs => .trans hc1 hs

lemma truncate_stays (h : Keeps v mine (v.bytes d) x) :
    (truncate v ino x).Ensures d (Stays v ino mine d) := by
  unfold truncate
  split
  · exact .pure ⟨.refl _, h⟩
  refine (writeInode_quiet mine ino _ d).bind fun r d1 hq => ?_
  have hk : Keeps v mine (v.bytes d1) { x with size := 0 } :=
    ⟨(h.quiet hr hq).free, h.direct⟩
  cases r with
  | none => exact .pure ⟨hq.confined, hk⟩
  | some _ => ?_
  exact (truncateBlocks_stays hr DIRECT_BLOCKS 0 _ d1 rfl hk).mono
    fun p d' hs => .trans hq.confined hs

end

end Proninx.Ufs2
