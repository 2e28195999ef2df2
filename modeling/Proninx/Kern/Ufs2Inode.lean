import Proninx.Kern.Ufs2Sound

/-!
# The dinode codec

`ufs2_write_inode` followed by `ufs2_read_inode` is the identity on the
fields, and touches no other byte of the volume. Which other inode
numbers it touches is a matter of geometry: on a volume that
`ufs2_probe` accepts a number stands for the byte offset
`(group * fpg + iblkno) * fsize + index * 256`, and nothing checked there
keeps the table of one group apart from that of the next (`SameSlot`).
-/

namespace Proninx.Ufs2

open Blockdev ByteMem Nat Prog

/-- `ufs2_probe` accepts `v`. -/
def Accepted (v : Volume) : Prop := ∃ d, (probe v.device).run d = .ok (some v, d)

variable {v : Volume}

lemma Accepted.superblock (h : Accepted v) :
    v.Probed ∧ ∃ superblock, v = superblockVolume v.device superblock := by
  obtain ⟨d, h⟩ := h
  unfold probe at h
  cases hpeek : v.device.peek (v.device.flat d) SUPERBLOCK_OFFSET SUPERBLOCK_SIZE with
  | none =>
    rw [run_andThen_none (hpeek ▸ read_run v.device _ _ d)] at h
    cases h
  | some superblock => ?_
  rw [run_andThen_some (hpeek ▸ read_run v.device _ _ d)] at h
  split at h
  · cases h
  split at h
  · next hprobed =>
    simp only [run_pure, Except.ok.injEq, Prod.mk.injEq, Option.some.injEq, and_true] at h
    exact ⟨h ▸ hprobed, superblock, h.symm⟩
  · cases h

lemma Accepted.probed (h : Accepted v) : v.Probed := h.superblock.1

lemma Accepted.groups_lt (h : Accepted v) : v.cylinderGroups < 2 ^ 32 := by
  obtain ⟨-, superblock, hv⟩ := h.superblock
  rw [hv]
  exact readLe_lt 4 _ _

/-- Every field has the value the other has; beyond the words of the
on-disk format the pointer functions are arbitrary. -/
structure Inode.Same (x y : Inode) : Prop where
  mode : x.mode = y.mode
  nlink : x.nlink = y.nlink
  uid : x.uid = y.uid
  gid : x.gid = y.gid
  size : x.size = y.size
  direct : ∀ i, i < DIRECT_BLOCKS → x.direct i = y.direct i
  indirect : ∀ i, i < 3 → x.indirect i = y.indirect i

lemma Inode.Same.refl (x : Inode) : x.Same x :=
  ⟨rfl, rfl, rfl, rfl, rfl, fun _ _ => rfl, fun _ _ => rfl⟩

variable {x : Inode}

lemma Inode.Same.symm {y : Inode} (h : x.Same y) : y.Same x :=
  ⟨h.mode.symm, h.nlink.symm, h.uid.symm, h.gid.symm, h.size.symm,
    fun i hi => (h.direct i hi).symm, fun i hi => (h.indirect i hi).symm⟩

lemma Inode.Same.trans {y z : Inode} (h : x.Same y) (h' : y.Same z) : x.Same z :=
  ⟨h.mode.trans h'.mode, h.nlink.trans h'.nlink, h.uid.trans h'.uid, h.gid.trans h'.gid,
    h.size.trans h'.size, fun i hi => (h.direct i hi).trans (h'.direct i hi),
    fun i hi => (h.indirect i hi).trans (h'.indirect i hi)⟩

/-- The values of the C types of the fields. -/
structure Inode.Typed (x : Inode) : Prop where
  mode : x.mode < 2 ^ 16
  nlink : x.nlink < 2 ^ 16
  uid : x.uid < 2 ^ 32
  gid : x.gid < 2 ^ 32
  size : x.size < 2 ^ 64
  direct : ∀ i, i < DIRECT_BLOCKS → x.direct i < 2 ^ 64
  indirect : ∀ i, i < 3 → x.indirect i < 2 ^ 64

/-! ## The raw dinode -/

/-- Byte `k` of a raw dinode is part of a field the codec knows. -/
def FieldByte (k : Nat) : Prop := k < 12 ∨ (16 ≤ k ∧ k < 24) ∨ (112 ≤ k ∧ k < 232)

variable {raw : Mem}

lemma encodeInode_out {k : Nat} (h : ¬ FieldByte k) : encodeInode raw x k = raw k := by
  unfold FieldByte at h
  rw [encodeInode, putWords_out (by omega), putWords_out (by unfold DIRECT_BLOCKS; omega),
    writeLe_out (by omega), writeLe_out (by omega), writeLe_out (by omega),
    writeLe_out (by omega), writeLe_out (by omega)]

variable {m : Mem}

lemma decode_encode_same (hx : x.Typed)
    (h : Agree (encodeInode raw x) m 0 DINODE_SIZE) : (decodeInode m).Same x := by
  obtain ⟨hmode, hsize, hdirect, hindirect, hnlink, huid, hgid⟩ := decode_encode h
  exact {
    mode := hmode.trans (mod_eq_of_lt hx.mode)
    nlink := hnlink.trans (mod_eq_of_lt hx.nlink)
    uid := huid.trans (mod_eq_of_lt hx.uid)
    gid := hgid.trans (mod_eq_of_lt hx.gid)
    size := hsize.trans (mod_eq_of_lt hx.size)
    direct := fun i hi => (hdirect i hi).trans (mod_eq_of_lt (hx.direct i hi))
    indirect := fun i hi => (hindirect i hi).trans (mod_eq_of_lt (hx.indirect i hi)) }

/-! ## Where the geometry puts a number -/

/-- The offset of dinode `n` in its cylinder group's stretch of the volume. -/
def slot (v : Volume) (n : Nat) : Nat :=
  n / v.inodesPerGroup * v.fragmentsPerGroup * v.fragmentSize
    + n % v.inodesPerGroup * DINODE_SIZE

/-- Two numbers stand for the same dinode. -/
def SameSlot (v : Volume) (i j : Nat) : Prop := slot v i = slot v j

instance (v : Volume) (i j : Nat) : Decidable (SameSlot v i j) :=
  inferInstanceAs (Decidable (_ = _))

def Numbered (v : Volume) (n : Nat) : Prop := n / v.inodesPerGroup < v.cylinderGroups

lemma index_split (h : v.Probed) (n : Nat) :
    n / v.inodesPerBlock * v.fragmentsPerBlock * v.fragmentSize
      + n % v.inodesPerBlock * DINODE_SIZE = n * DINODE_SIZE := by
  have hs := h.sizes
  have hdvd : DINODE_SIZE ∣ v.blockSize := by
    have := (dvd_of_mod_eq_zero hs.region)
    exact Nat.dvd_trans (by decide) this
  have hblock : v.fragmentsPerBlock * v.fragmentSize = v.inodesPerBlock * DINODE_SIZE := by
    rw [← hs.block, h.inodesPerBlock, Nat.div_mul_cancel hdvd]
  rw [mul_assoc, hblock, ← mul_assoc, ← add_mul, mul_comm _ v.inodesPerBlock, div_add_mod]

variable {n off : Nat}

lemma inodeOffset_iff (h : v.Probed) : inodeOffset v n = some off ↔ Numbered v n ∧
      off = slot v n + v.inodeTableFragment * v.fragmentSize ∧ off ≤ U64MAX := by
  have hs := h.sizes
  have hsplit := index_split h (n % v.inodesPerGroup)
  have hipb : ¬ (v.inodesPerBlock = 0 ∨ v.fragmentSize = 0) := by
    have hpos := hs.pos
    have hmin := h.blockMin
    have hdef := h.inodesPerBlock
    unfold DINODE_SIZE at hdef
    omega
  have hexpand : (n / v.inodesPerGroup * v.fragmentsPerGroup + (v.inodeTableFragment
      + n % v.inodesPerGroup / v.inodesPerBlock * v.fragmentsPerBlock)) * v.fragmentSize
      + n % v.inodesPerGroup % v.inodesPerBlock * DINODE_SIZE
        = slot v n + v.inodeTableFragment * v.fragmentSize := by
    unfold slot
    rw [add_mul, add_mul]
    omega
  have hle := Nat.le_mul_of_pos_right (n / v.inodesPerGroup * v.fragmentsPerGroup
    + (v.inodeTableFragment + n % v.inodesPerGroup / v.inodesPerBlock * v.fragmentsPerBlock)) hs.pos
  unfold inodeOffset Numbered
  rw [if_neg h.inodesPerGroup]
  dsimp only
  rw [hexpand]
  generalize hF : n / v.inodesPerGroup * v.fragmentsPerGroup + (v.inodeTableFragment
    + n % v.inodesPerGroup / v.inodesPerBlock * v.fragmentsPerBlock) = F at *
  generalize slot v n + v.inodeTableFragment * v.fragmentSize = total at *
  by_cases hg : n / v.inodesPerGroup < v.cylinderGroups
  · rw [if_neg (not_le.mpr hg), if_neg hipb]
    by_cases hfit : total ≤ U64MAX
    · have hdiv : ¬ U64MAX / v.fragmentSize < F :=
        not_lt.mpr ((Nat.le_div_iff_mul_le hs.pos).mpr (by omega))
      rw [if_neg (by omega), if_neg (by omega), Option.some.injEq]
      exact ⟨fun heq => ⟨hg, heq.symm, heq ▸ hfit⟩, fun heq => heq.2.1.symm⟩
    refine iff_of_false (fun heq => ?_) fun heq => hfit (heq.2.1 ▸ heq.2.2)
    split at heq
    · cases heq
    split at heq
    · cases heq
    next hover =>
    have hmul : F * v.fragmentSize ≤ U64MAX :=
      (Nat.le_div_iff_mul_le hs.pos).mp (not_lt.mp fun hlt => hover (.inl hlt))
    omega
  · rw [if_pos (not_lt.mp hg)]
    exact iff_of_false nofun fun heq => hg heq.1

lemma slot_dvd (h : v.Probed) (n : Nat) : DINODE_SIZE ∣ slot v n := by
  have hfs : DINODE_SIZE ∣ v.fragmentSize :=
    Nat.dvd_trans (by decide) (dvd_of_mod_eq_zero h.sizes.sector)
  exact Nat.dvd_add (Nat.dvd_mul_left_of_dvd hfs _) (Nat.dvd_mul_left _ _)

/-! ## Writing an inode -/

lemma writeInode_inv {d d' : Disk} (h : (writeInode v n x).run d = .ok (some (), d')) : ∃ off,
      inodeOffset v n = some off ∧ v.device.Fits off DINODE_SIZE ∧ v.bytes d'
        = blit (v.bytes d) off (encodeInode (window (v.bytes d) off DINODE_SIZE) x)
            DINODE_SIZE := by
  cases hoff : inodeOffset v n with
  | none =>
    unfold writeInode at h
    rw [hoff] at h
    cases h
  | some off => ?_
  by_cases hfit : v.device.Fits off DINODE_SIZE
  · obtain ⟨d1, hrun, hbytes⟩ := writeInode_run hoff hfit x d
    rw [hrun] at h
    cases h
    exact ⟨off, rfl, hfit, hbytes⟩
  have hpeek : v.device.peek (v.bytes d) off DINODE_SIZE = none := if_neg hfit
  unfold writeInode at h
  rw [hoff] at h
  rw [run_andThen_none (hpeek ▸ read_run v.device off DINODE_SIZE d)] at h
  cases h

lemma inodeAt_written {m' : Mem}
    (hoff : inodeOffset v n = some off) (hfit : v.device.Fits off DINODE_SIZE) (hx : x.Typed)
    (hm' : m' = blit m off (encodeInode raw x) DINODE_SIZE) :
    ∃ y, inodeAt v m' n = some y ∧ y.Same x := by
  have hread : Agree (encodeInode raw x) (window m' off DINODE_SIZE) 0 DINODE_SIZE := by
    intro k _ hk
    rw [window_apply (by omega), hm', blit_in (by omega) (by omega)]
    congr 1
    omega
  exact ⟨_, inodeAt_eq hoff hfit m', decode_encode_same hx hread⟩

lemma inodeAt_sameSlot (h : v.Probed) {i j : Nat} (m : Mem)
    (hi : inodeOffset v i = some off) (hj : Numbered v j) (hs : SameSlot v i j) :
    inodeAt v m j = inodeAt v m i := by
  obtain ⟨-, hoff, hle⟩ := (inodeOffset_iff h).mp hi
  have hj' : inodeOffset v j = some off := (inodeOffset_iff h).mpr ⟨hj, hs ▸ hoff, hle⟩
  rw [inodeAt, inodeAt, hi, hj']

lemma inodeAt_otherSlot (h : v.Probed) {i j : Nat} {m' src : Mem}
    (hi : inodeOffset v i = some off) (hs : ¬ SameSlot v i j)
    (hm' : m' = blit m off src DINODE_SIZE) : inodeAt v m' j = inodeAt v m j := by
  cases hj : inodeOffset v j with
  | none => rw [inodeAt, inodeAt, hj]; rfl
  | some off' => ?_
  obtain ⟨-, hoff, -⟩ := (inodeOffset_iff h).mp hi
  obtain ⟨-, hoff', -⟩ := (inodeOffset_iff h).mp hj
  obtain ⟨a, ha⟩ := slot_dvd h i
  obtain ⟨b, hb⟩ := slot_dvd h j
  refine inodeAt_congr hj ?_
  rw [hm']
  refine agree_blit_of_apart ?_
  unfold SameSlot at hs
  rw [ha, hb] at hs
  rw [hoff, hoff', ha, hb]
  unfold Apart DINODE_SIZE at *
  omega

/-- After a successful `ufs2_write_inode` of `x` as number `i`: number `i`
reads as `x`, no byte changes but those of its fields, and another number
reads as before exactly when it has a slot of its own, or the slot held
`x` already. -/
theorem inode_codec {v : Volume} (hv : Accepted v) {i j : Nat} {x : Inode} {d d' : Disk}
    (hx : x.Typed) (hj : Numbered v j)
    (hw : (writeInode v i x).run d = .ok (some (), d')) :
    (∃ y, (readInode v i).run d' = .ok (some y, d') ∧ y.Same x) ∧
    (∃ off, inodeOffset v i = some off ∧
      ∀ k, ¬ (off ≤ k ∧ k < off + DINODE_SIZE ∧ FieldByte (k - off)) → v.bytes d' k = v.bytes d k) ∧
    ∃ r r', (readInode v j).run d = .ok (r, d) ∧ (readInode v j).run d' = .ok (r', d') ∧
      (Option.Rel Inode.Same r r' ↔ ¬ SameSlot v i j ∨ ∃ y, r = some y ∧ y.Same x) := by
  have hp := hv.probed
  obtain ⟨off, hoff, hfit, hbytes⟩ := writeInode_inv hw
  obtain ⟨y, hy, hsame⟩ := inodeAt_written hoff hfit hx hbytes
  refine ⟨⟨y, hy ▸ readInode_run v i d', hsame⟩, ⟨off, hoff, fun k hk => ?_⟩,
    _, _, readInode_run v j d, readInode_run v j d', ?_⟩
  · rw [hbytes]
    by_cases hin : off ≤ k ∧ k < off + DINODE_SIZE
    · rw [blit_in hin.1 hin.2, encodeInode_out fun hf => hk ⟨hin.1, hin.2, hf⟩,
        window_apply (by omega)]
      congr 1
      omega
    · rw [blit_out (by omega)]
  by_cases hs : SameSlot v i j
  · rw [inodeAt_sameSlot hp _ hoff hj hs, inodeAt_sameSlot hp _ hoff hj hs, hy,
      inodeAt_eq hoff hfit]
    constructor
    · intro hrel
      cases hrel with
      | some hrel => exact .inr ⟨_, rfl, hrel.trans hsame⟩
    rintro (hno | ⟨z, hz, hzx⟩)
    · exact absurd hs hno
    cases hz
    exact .some (hzx.trans hsame.symm)
  · rw [inodeAt_otherSlot hp hoff hs hbytes]
    refine iff_of_true ?_ (.inl hs)
    cases inodeAt v (v.bytes d) j with
    | none => exact .none
    | some z => exact .some (.refl z)

/-- Two groups of one block each, with room for 32 dinodes in the table of
each: `ufs2_probe` does not notice that the tables overlap. -/
def overlapVolume : Volume where
  device := ⟨0, 256⟩
  blockSize := 4096
  fragmentSize := 4096
  fragmentsPerBlock := 1
  cylinderGroups := 2
  inodesPerGroup := 32
  fragmentsPerGroup := 1
  inodesPerBlock := 16
  inodeTableFragment := 20
  cylinderGroupBlock := 24
  cylinderGroupSize := 4096

def superblockOf (v : Volume) : Mem :=
  [(8, v.inodeTableFragment), (12, v.cylinderGroupBlock), (44, v.cylinderGroups),
    (48, v.blockSize), (52, v.fragmentSize), (56, v.fragmentsPerBlock), (120, v.inodesPerBlock),
    (160, v.cylinderGroupSize), (184, v.inodesPerGroup), (188, v.fragmentsPerGroup),
    (1372, MAGIC)].foldl (fun m p => writeLe 4 m p.1 p.2) fun _ => 0

lemma accepted_image (hdev : v.device = ⟨0, n⟩)
    (hn : n ≤ 2 ^ 32) (hlen : SUPERBLOCK_OFFSET + SUPERBLOCK_SIZE ≤ n * BSIZE)
    (hmagic : readLe 4 (window (superblockOf v) 0 SUPERBLOCK_SIZE) 1372 = MAGIC)
    (hsb : superblockVolume v.device (window (superblockOf v) 0 SUPERBLOCK_SIZE) = v)
    (hp : v.Probed) : Accepted v := by
  let m : Mem := fun i => superblockOf v (i - SUPERBLOCK_OFFSET)
  have hpeek : v.device.peek (v.device.flat (imageDisk m)) SUPERBLOCK_OFFSET SUPERBLOCK_SIZE
      = some (window (superblockOf v) 0 SUPERBLOCK_SIZE) := by
    have hfit : v.device.Fits SUPERBLOCK_OFFSET SUPERBLOCK_SIZE := hdev ▸ fits_image hn hlen
    rw [peek, if_pos hfit]
    refine congrArg some (window_eq_of_agree fun i hi => ?_)
    rw [hdev, flat_image hn m (by omega), zero_add]
    exact congrArg (superblockOf v) (Nat.add_sub_cancel_left ..)
  refine ⟨imageDisk m, ?_⟩
  rw [probe, run_andThen_some (hpeek ▸ read_run _ _ _ _), hsb, if_neg (by rw [hmagic]; simp),
    if_pos hp]
  rfl

def overlapDisk : Disk :=
  imageDisk (blit (fun _ => 0) SUPERBLOCK_OFFSET (superblockOf overlapVolume) SUPERBLOCK_SIZE)

lemma overlapVolume_accepted : Accepted overlapVolume :=
  accepted_image rfl (by decide) (by decide) (by decide) (by decide) (by decide)

def sampleFile : Inode := ⟨IFREG, 1, 0, 0, 0, fun _ => 0, fun _ => 0⟩

lemma sampleFile_typed : sampleFile.Typed :=
  ⟨by decide, by decide, by decide, by decide, by decide, fun _ _ => Nat.two_pow_pos 64,
    fun _ _ => Nat.two_pow_pos 64⟩

lemma overlapDisk_write : ∃ d,
    (writeInode overlapVolume 16 sampleFile).run overlapDisk = .ok (some (), d) := by
  have hoff : inodeOffset overlapVolume 16 = some 86016 := by decide
  obtain ⟨d, hrun, -⟩ := writeInode_run hoff (fits_image (by decide) (by decide)) sampleFile
    overlapDisk
  exact ⟨d, hrun⟩

theorem inode_codec_neighbour : ¬ SameSlot overlapVolume 16 17 ∧ ∃ d,
    (writeInode overlapVolume 16 sampleFile).run overlapDisk = .ok (some (), d) ∧
    ∃ r r', (readInode overlapVolume 17).run overlapDisk = .ok (r, overlapDisk) ∧
      (readInode overlapVolume 17).run d = .ok (r', d) ∧ Option.Rel Inode.Same r r' := by
  have hslot : ¬ SameSlot overlapVolume 16 17 := by decide
  obtain ⟨d, hrun⟩ := overlapDisk_write
  obtain ⟨-, -, r, r', hr, hr', hiff⟩ := inode_codec (j := 17) overlapVolume_accepted
    sampleFile_typed (show (17 : Nat) / 32 < 2 by decide) hrun
  exact ⟨hslot, d, hrun, r, r', hr, hr', hiff.mpr (.inl hslot)⟩

/-- Number 32 is in range, is not 16, was free, and reads as the file
that was written as number 16. -/
theorem inode_overlap : Accepted overlapVolume ∧ Numbered overlapVolume 32 ∧ ∃ d y z,
    (writeInode overlapVolume 16 sampleFile).run overlapDisk = .ok (some (), d) ∧
    (readInode overlapVolume 32).run overlapDisk = .ok (some y, overlapDisk) ∧
    (readInode overlapVolume 32).run d = .ok (some z, d) ∧ y.mode = 0 ∧ z.mode = IFREG := by
  have hnum : Numbered overlapVolume 32 := by
    show (32 : Nat) / 32 < 2
    decide
  have hoff : inodeOffset overlapVolume 16 = some 86016 := by decide
  have hoff' : inodeOffset overlapVolume 32 = some 86016 := by decide
  have hfit : overlapVolume.device.Fits 86016 DINODE_SIZE := fits_image (by decide) (by decide)
  obtain ⟨d, hrun, hbytes⟩ := writeInode_run hoff hfit sampleFile overlapDisk
  obtain ⟨z, hz, hsame⟩ := inodeAt_written hoff' hfit sampleFile_typed hbytes
  refine ⟨overlapVolume_accepted, hnum, d, _, z, hrun,
    inodeAt_eq hoff' hfit _ ▸ readInode_run overlapVolume 32 overlapDisk,
    hz ▸ readInode_run overlapVolume 32 d, ?_, hsame.mode⟩
  -- before the write that part of the image is zero
  refine readLe_eq_zero.mpr fun k _ hk => ?_
  rw [window_apply (by unfold DINODE_SIZE; omega)]
  refine (flat_image (by decide) _ (by unfold BSIZE; omega)).trans (blit_out ?_)
  unfold SUPERBLOCK_OFFSET SUPERBLOCK_SIZE
  omega

end Proninx.Ufs2
