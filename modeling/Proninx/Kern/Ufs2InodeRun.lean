import Proninx.Kern.VfsRun

/-!
# Sequences of inode allocations

`ufs2_alloc_inode` and `ufs2_free_inode` called one after the other, in
any order, on any inode maps. On a volume whose cylinder groups and
dinodes have bytes of their own and whose inode numbers fit in 32 bits,
a call flips the bit of one number and writes the dinode of that number,
and nothing else (`inode_allocator`). `ufs2_probe` asks for neither: when
group times inodes per group wraps, the allocator finds a clear bit in a
late group and hands out, and initialises, the number of an inode of the
first group (`wrapped_number_taken`).
-/

namespace Proninx.Ufs2

open Blockdev ByteMem List Prog Runs

/-- Cylinder groups and dinodes lie apart, and inode numbers do not wrap. -/
structure Layout (v : Volume) : Prop where
  separate : Separate v
  numbers : Numbers v
  slot_group : ∀ n i, InSlot v n i → ¬ InGroups v i
  slots_apart : ∀ n k i, n ≠ k → InSlot v n i → ¬ InSlot v k i

inductive InodeCall where
  | alloc (mode : Nat) (result : Option Nat)
  | free (n : Nat) (result : Option Unit)
  deriving DecidableEq, Repr

variable (v : Volume)

def InodeStep (d : Disk) : InodeCall → Disk → Prop
  | .alloc mode r, d' => (allocInode v mode).run d = .ok (r, d')
  | .free n r, d' => (freeInode v n).run d = .ok (r, d')

/-- The bit of `n` becomes `used` and its dinode becomes `dinode`; no other
bit of the volume changes. -/
structure Flips (m m' : Mem) (n : Nat) (used : Bool) (dinode : Mem) : Prop where
  before : Marked v m n !used
  after : Marked v m' n used
  others : ∀ k u, k ≠ n → (Marked v m' k u ↔ Marked v m k u)
  dinode : ∃ off, inodeOffset v n = some off ∧ ∀ i, i < DINODE_SIZE → m' (off + i) = dinode i
  frame : ∃ io, inodeMapAt v m (n / v.inodesPerGroup) = some io ∧ ∀ i k, k < 8 →
    ¬ InSlot v n i → ¬ (i = inodeByte v io n ∧ k = n % v.inodesPerGroup % 8) →
    testBit (m' i) k = testBit (m i) k

/-- No mark changes, and no dinode but those of the numbers in `spared`. -/
structure Leaves (m m' : Mem) (spared : Nat → Prop) : Prop where
  marks : ∀ k u, Marked v m' k u ↔ Marked v m k u
  dinodes : ∀ k i, ¬ spared k → InSlot v k i → m' i = m i

/-- What a call does to the bytes of the volume. A failed `ufs2_free_inode`
may have cleared the dinode in part. -/
def InodeCall.Meets (m m' : Mem) : InodeCall → Prop
  | .alloc mode (some n) => ROOT_INO ≤ n ∧ Flips v m m' n true (freshDinode mode)
  | .alloc _ none => Leaves v m m' fun k => Marked v m k false
  | .free n (some ()) => Flips v m m' n false fun _ => 0
  | .free n none => Leaves v m m' fun k => k = n

variable {v} {m m' : Mem}

lemma Layout.leaves (hl : Layout v) (hp : v.Probed) {n : Nat} {spared : Nat → Prop}
    (hn : ∀ k, ¬ spared k → k ≠ n) (h : ∀ i, ¬ InSlot v n i → m' i = m i) :
    Leaves v m m' spared where
  marks := marked_congr hl.separate hp hl.numbers fun i hi => h i fun hs => hl.slot_group n i hs hi
  dinodes k i hk hi := h i fun hs => hl.slots_apart k n i (hn k hk) hi hs

lemma TookInode.flips (hl : Layout v) (hp : v.Probed) {mode n : Nat}
    (h : TookInode v m m' mode n) : Flips v m m' n true (freshDinode mode) := by
  obtain ⟨-, -, -, hothers, hafter, -⟩ := h.remarked (hl.slot_group n) hl.separate hp hl.numbers
  obtain ⟨off, io, m1, hoff, -, hio, -, hw, rfl⟩ := h.bytes
  refine ⟨h.marked, hafter, hothers, ⟨off, hoff, fun i hi => ?_⟩, io, hio, fun i k hk hi hne => ?_⟩
  · rw [blit_in (by omega) (by omega), Nat.add_sub_cancel_left]
  rw [blit_out (slot_out hoff hi), hw.keep i k hk fun j hj heq => ?_]
  obtain rfl : j = 0 := by omega
  exact hne heq

lemma FreedInode.flips (hl : Layout v) (hp : v.Probed) {n : Nat} (h : FreedInode v m m' n) :
    Flips v m m' n false fun _ => 0 := by
  obtain ⟨-, -, -, hothers, hafter, -⟩ := h.remarked (hl.slot_group n) hl.separate hp hl.numbers
  obtain ⟨off, io, hoff, -, hio, hfit, hw⟩ := h.bytes
  have hin := (inodeByte_eq hl.separate hp hl.numbers hio).2.2
  have hkeep : ∀ i, InSlot v n i → m' i = blit m off (fun _ => 0) DINODE_SIZE i := by
    intro i hi
    refine hw.frame fun j hj heq => ?_
    obtain rfl : j = 0 := by omega
    exact hl.slot_group n i hi (heq ▸ hin)
  refine ⟨h.marked, hafter, hothers, ⟨off, hoff, fun i hi => ?_⟩, io, hio, fun i k hk hi hne => ?_⟩
  · rw [hkeep _ ⟨off, hoff, by omega, by omega⟩, blit_in (by omega) (by omega)]
  rw [hw.keep i k hk fun j hj heq => ?_, blit_out (slot_out hoff hi)]
  obtain rfl : j = 0 := by omega
  exact hne heq

lemma inodeStep_meets (hl : Layout v) (hp : v.Probed) {d d' : Disk} {c : InodeCall}
    (h : InodeStep v d c d') : c.Meets v (v.bytes d) (v.bytes d') := by
  cases c with
  | alloc mode r =>
    have hspec := (allocInode_spec hl.numbers mode d).of_eq h
    cases r with
    | some n => exact ⟨hspec.root, hspec.flips hl hp⟩
    | none => ?_
    rcases hspec with heq | ⟨n, -, hn, hout⟩
    · rw [heq]
      exact ⟨fun _ _ => .rfl, fun _ _ _ _ => rfl⟩
    · exact hl.leaves hp (fun k hk heq => hk (heq ▸ hn)) hout
  | free n r =>
    obtain ⟨hnone, hsome, -⟩ := (freeInode_spec (hl.slot_group n) hl.separate hp hl.numbers d).of_eq h
    cases r with
    | some u => exact (hsome rfl).flips hl hp
    | none => exact hl.leaves hp (fun k hk => hk) (hnone rfl)

/-! ## Runs -/

/-- The mark of `k` is set, and its dinode is the one of `m`. -/
def Undisturbed (v : Volume) (m m' : Mem) (k : Nat) : Prop :=
  Marked v m' k true ∧ ∀ i, InSlot v k i → m' i = m i

lemma Flips.undisturbed (hl : Layout v) (hp : v.Probed) {n k : Nat} {used : Bool} {dinode : Mem}
    (h : Flips v m m' n used dinode) (hk : Marked v m k true) (hne : k ≠ n) :
    Undisturbed v m m' k := by
  obtain ⟨io, hio, hframe⟩ := h.frame
  have hin := (inodeByte_eq hl.separate hp hl.numbers hio).2.2
  refine ⟨(h.others k true hne).mpr hk, fun i hi => byte_ext fun j hj => ?_⟩
  refine hframe i j hj (hl.slots_apart k n i hne hi) fun heq => ?_
  exact hl.slot_group k i hi (heq.1 ▸ hin)

lemma meets_undisturbed (hl : Layout v) (hp : v.Probed) {c : InodeCall} {k : Nat}
    (h : c.Meets v m m') (hk : Marked v m k true) (hfree : ∀ r, c ≠ .free k r) :
    Undisturbed v m m' k := by
  cases c with
  | alloc mode r =>
    cases r with
    | some n =>
      refine h.2.undisturbed hl hp hk fun heq => ?_
      cases (heq ▸ hk).unique h.2.before
    | none => exact ⟨(h.marks k true).mpr hk, fun i => h.dinodes k i fun hf => nomatch hk.unique hf⟩
  | free n r =>
    have hne : k ≠ n := fun heq => hfree r (by rw [heq])
    cases r with
    | some u => exact Flips.undisturbed hl hp h hk hne
    | none => exact ⟨(h.marks k true).mpr hk, fun i => h.dinodes k i hne⟩

/-- On an accepted volume with room for its inodes: over every sequence of
allocations and frees, a number that is in use stays in use with the same
dinode until it is freed; and every single call flips the bit of its own
number and writes the dinode of that number only. -/
theorem inode_allocator (hv : Accepted v) (hl : Layout v) {cs : List InodeCall} {d d' : Disk}
    (h : Run (InodeStep v) d cs d') :
    (∀ k, Marked v (v.bytes d) k true → (∀ r, .free k r ∉ cs) →
      Undisturbed v (v.bytes d) (v.bytes d') k) ∧
    ∀ c d'', InodeStep v d' c d'' → c.Meets v (v.bytes d') (v.bytes d'') := by
  refine ⟨fun k hk hfree => ?_, fun c d'' => inodeStep_meets hl hv.probed⟩
  induction h with
  | nil => exact ⟨hk, fun _ _ => rfl⟩
  | cons hstep _ ih => ?_
  obtain ⟨hmark, hkeep⟩ := meets_undisturbed hl hv.probed (inodeStep_meets hl hv.probed hstep) hk
    fun r heq => hfree r (heq ▸ mem_cons_self)
  obtain ⟨hlast, hrest⟩ := ih hmark fun r hr => hfree r (mem_cons_of_mem _ hr)
  exact ⟨hlast, fun i hi => (hrest i hi).trans (hkeep i hi)⟩

/-! ## A small volume -/

lemma Ground.layout {mine : Nat → Prop} (h : Ground v mine) : Layout v :=
  ⟨h.separate, h.numbers, h.slot_group, h.slots_apart⟩

lemma homeDisk_alloc : ∃ d,
    InodeStep homeVolume (homeDisk 1 tightRegion) (.alloc 0o100644 (some 3)) d :=
  Prog.ok_of_fst (by decide +kernel)

/-- The root directory of a volume keeps its dinode when a file is made. -/
theorem inode_allocator_home : ∃ d,
    InodeStep homeVolume (homeDisk 1 tightRegion) (.alloc 0o100644 (some 3)) d ∧
      Undisturbed homeVolume (homeVolume.bytes (homeDisk 1 tightRegion)) (homeVolume.bytes d) 2 := by
  have hroot : Marked homeVolume (homeVolume.bytes (homeDisk 1 tightRegion)) 2 true :=
    ⟨76928, by decide +kernel, homeVolume_fits (by decide), by decide +kernel⟩
  obtain ⟨d, hd⟩ := homeDisk_alloc
  exact ⟨d, hd, (inode_allocator homeVolume_accepted Vfs.homeVolume_ground.layout (.cons hd .nil)).1 2
    hroot (by simp)⟩

/-! ## Numbers that wrap -/

/-- Three groups of `2 ^ 31` inodes, each with room for its maps and its
dinodes: the numbers of the third group are those of the first. -/
def wrapVolume : Volume where
  device := ⟨0, 2 ^ 32⟩
  blockSize := 65536
  fragmentSize := 65536
  fragmentsPerBlock := 1
  cylinderGroups := 3
  inodesPerGroup := 2 ^ 31
  fragmentsPerGroup := 8400000
  inodesPerBlock := 256
  inodeTableFragment := 5000
  cylinderGroupBlock := 2
  cylinderGroupSize := 2 ^ 28 + 128

/-- All inodes of the first group are in use, the second group has no
header, and no inode of the third is in use. Inode 2 has three links. -/
def wrapImage : Mem :=
  let m := blit (fun _ => 0) SUPERBLOCK_OFFSET (superblockOf wrapVolume) SUPERBLOCK_SIZE
  let m := blit m 131072 (groupHeader wrapVolume 0) 128
  let m := fill m 131200 0xff (2 ^ 28)
  let m := poke m 327680514 3
  blit m 1101004931072 (groupHeader wrapVolume 2) 128

def wrapDisk : Disk := imageDisk wrapImage

lemma wrapVolume_accepted : Accepted wrapVolume :=
  accepted_image rfl (by decide) (by decide) (by decide) (by decide) (by decide)

lemma wrapDisk_bytes {i : Nat} (h : i < 2 ^ 41) : wrapVolume.bytes wrapDisk i = wrapImage i :=
  flat_image (by decide) _ h

lemma wrapVolume_fits {a n : Nat} (h : a + n ≤ 2 ^ 41) : wrapVolume.device.Fits a n :=
  fits_image (by decide) h

lemma wrapDisk_map {g o : Nat} {m : Mem} {r : Option Nat} (ho : cgOffset wrapVolume g = some o)
    (hlt : o + 128 ≤ 2 ^ 41) (hm : ∀ i, o ≤ i → i < o + 128 → wrapImage i = m i)
    (h : inodeMapAt wrapVolume m g = r) :
    inodeMapAt wrapVolume (wrapVolume.bytes wrapDisk) g = r := by
  refine (inodeMapAt_congr fun o' ho' i hi hj => ?_).trans h
  rw [ho] at ho'
  cases ho'
  unfold CG_HEADER_SIZE at hj
  exact ((wrapDisk_bytes (by omega)).trans (hm i hi hj)).symm

lemma wrapDisk_first : inodeMapAt wrapVolume (wrapVolume.bytes wrapDisk) 0 = some 131200 := by
  refine wrapDisk_map (o := 131072) (m := blit (fun _ => 0) 131072 (groupHeader wrapVolume 0) 128)
    (by decide) (by decide) (fun i hi hj => ?_) (by decide +kernel)
  unfold wrapImage
  rw [blit_out (by omega), poke_ne (by omega), fill_out (by omega), blit_in hi hj, blit_in hi hj]

lemma wrapDisk_second : inodeMapAt wrapVolume (wrapVolume.bytes wrapDisk) 1 = none := by
  refine wrapDisk_map (o := 550502531072) (m := fun _ => 0) (by decide) (by decide)
    (fun i hi hj => ?_) (by decide +kernel)
  unfold wrapImage
  rw [blit_out (by omega), poke_ne (by omega), fill_out (by omega), blit_out (by omega),
    show SUPERBLOCK_OFFSET = 65536 from rfl, blit_out (by unfold SUPERBLOCK_SIZE; omega)]

lemma wrapDisk_third :
    inodeMapAt wrapVolume (wrapVolume.bytes wrapDisk) 2 = some 1101004931200 := by
  refine wrapDisk_map (o := 1101004931072)
    (m := blit (fun _ => 0) 1101004931072 (groupHeader wrapVolume 2) 128) (by decide) (by decide)
    (fun i hi hj => ?_) (by decide +kernel)
  unfold wrapImage
  rw [blit_in hi hj, blit_in hi hj]

lemma allocInodeBits_full {mode g io : Nat} {d : Disk} (n : Nat) : ∀ bit,
    (∀ k, bit ≤ k → k < bit + n → v.device.Fits (mapByte io k) 1 ∧
      testBit (v.bytes d (mapByte io k)) (k % 8)) →
    (allocInodeBits v mode g io n bit).run d = .ok (none, d) := by
  induction n with
  | zero => exact fun _ _ => rfl
  | succ n ih => ?_
  intro bit hfull
  have hrest := ih (bit + 1) fun k hlo hhi => hfull k (by omega) (by omega)
  obtain ⟨hfit, hset⟩ := hfull bit (by omega) (by omega)
  rw [allocInodeBits_succ]
  split
  · exact hrest
  rw [run_bind_ok (read_byte hfit d)]
  dsimp only
  rw [window_apply (by omega), add_zero, if_pos hset]
  exact hrest

variable {Q : Option Nat → Disk → Prop}

lemma allocInodeGroups_skip {mode g n : Nat} {d : Disk} (hio : inodeMapAt v (v.bytes d) g = none)
    (h : (allocInodeGroups v mode n (g + 1)).Ensures d Q) :
    (allocInodeGroups v mode (n + 1) g).Ensures d Q := by
  refine .step (hio ▸ cgInodeMap_run v g d) ?_
  exact h

lemma allocInodeGroups_full {mode g n io : Nat} {d : Disk}
    (hio : inodeMapAt v (v.bytes d) g = some io)
    (hbits : (allocInodeBits v mode g io v.inodesPerGroup 0).run d = .ok (none, d))
    (h : (allocInodeGroups v mode n (g + 1)).Ensures d Q) :
    (allocInodeGroups v mode (n + 1) g).Ensures d Q := by
  refine .step (hio ▸ cgInodeMap_run v g d) (.step hbits ?_)
  exact h

lemma allocInodeGroups_take {mode g n io : Nat} {d : Disk}
    (hio : inodeMapAt v (v.bytes d) g = some io)
    (hbits : (allocInodeBits v mode g io v.inodesPerGroup 0).Ensures d fun r d' =>
      ∃ q, r = some q ∧ Q q d') :
    (allocInodeGroups v mode (n + 1) g).Ensures d Q := by
  refine .step (hio ▸ cgInodeMap_run v g d) (hbits.bind fun r d' h => ?_)
  obtain ⟨q, rfl, hq⟩ := h
  exact .pure hq

/-- The mark and the dinode are written wherever the two addresses are. -/
lemma takeInode_run {mode number p k off : Nat} {value : UInt8} (hp : v.device.Fits p 1)
    (hoff : inodeOffset v number = some off) (hfit : v.device.Fits off DINODE_SIZE) (d : Disk) :
    (takeInode v mode number p k value).Ensures d fun r d' => r = some (some number) ∧
      v.bytes d' = blit (poke (v.bytes d) p (setBit value k)) off (freshDinode mode)
        DINODE_SIZE := by
  unfold takeInode
  obtain ⟨d1, hrun1, hbytes1⟩ := write_byte hp (setBit value k) d
  obtain ⟨d2, hrun2, hbytes2⟩ := write_run hfit (freshDinode mode) d1
  have hinit : (initializeInode v number mode).run d1 = .ok (some (), d2) := by
    unfold initializeInode
    rw [hoff]
    exact hrun2
  refine .step hrun1 (.step hinit (.step (Prog.run_release _ _) (.pure ⟨rfl, ?_⟩)))
  exact hbytes1 ▸ hbytes2

lemma wrapDisk_full {k : Nat} (hk : k < 2 ^ 31) : wrapVolume.device.Fits (mapByte 131200 k) 1 ∧
      testBit (wrapVolume.bytes wrapDisk (mapByte 131200 k)) (k % 8) := by
  have hbyte : mapByte 131200 k = 131200 + k / 8 := Nat.mod_eq_of_lt (by omega)
  have hones : ∀ j < 8, testBit 0xff j := by decide
  rw [hbyte]
  refine ⟨wrapVolume_fits (by omega), ?_⟩
  rw [wrapDisk_bytes (by omega)]
  unfold wrapImage
  rw [blit_out (by omega), poke_ne (by omega), fill_in (by omega) (by omega)]
  exact hones _ (Nat.mod_lt _ (by decide))

lemma wrapDisk_root : Marked wrapVolume (wrapVolume.bytes wrapDisk) 2 true :=
  ⟨131200, wrapDisk_first, wrapDisk_full (by decide)⟩

lemma wrapDisk_alloc : (allocInode wrapVolume 0o100644).Ensures wrapDisk fun r d' =>
    r = some 2 ∧ wrapVolume.bytes d' 327680514 = 1 := by
  have hfirst := @allocInodeBits_full wrapVolume 0o100644 0 131200 wrapDisk (2 ^ 31) 0
    fun k _ hk => wrapDisk_full (by omega)
  have hoff : inodeOffset wrapVolume 2 = some 327680512 := by decide
  have hzero : wrapVolume.bytes wrapDisk 1101004931200 = 0 := by
    rw [wrapDisk_bytes (by decide)]
    unfold wrapImage
    rw [blit_out (by decide), poke_ne (by decide), fill_out (by decide), blit_out (by decide),
      blit_out (by decide)]
  unfold allocInode
  rw [if_neg (by decide)]
  refine .step (Prog.run_acquire _ _) ?_
  refine allocInodeGroups_full wrapDisk_first hfirst (allocInodeGroups_skip wrapDisk_second
    (allocInodeGroups_take wrapDisk_third ?_))
  have hfuel : wrapVolume.inodesPerGroup = 2147483645 + 1 + 1 + 1 := by decide
  have hbyte : mapByte 1101004931200 2 = 1101004931200 := by decide
  -- numbers 0 and 1 are passed over, and bit 2 of the third group is clear
  rw [hfuel, allocInodeBits_succ, if_pos (by decide), allocInodeBits_succ, if_pos (by decide),
    allocInodeBits_succ, if_neg (by decide), hbyte]
  refine .step (read_byte (wrapVolume_fits (by decide)) wrapDisk) ?_
  dsimp only
  rw [window_apply (by omega), add_zero, hzero, if_neg (by decide),
    show (2 * wrapVolume.inodesPerGroup + (0 + 1 + 1)) % 2 ^ 32 = 2 by decide]
  refine (takeInode_run (wrapVolume_fits (by decide)) hoff (wrapVolume_fits (by decide))
    wrapDisk).mono fun r d' ⟨hr, hbytes⟩ => ⟨some 2, hr, rfl, ?_⟩
  rw [hbytes, blit_in (by decide) (by decide)]
  decide

/-- The number of an inode in use is handed out again, and its dinode is
initialised: three links become one. -/
theorem wrapped_number_taken : Accepted wrapVolume ∧
    Marked wrapVolume (wrapVolume.bytes wrapDisk) 2 true ∧
    ∃ d, InodeStep wrapVolume wrapDisk (.alloc 0o100644 (some 2)) d ∧
      InSlot wrapVolume 2 327680514 ∧ wrapVolume.bytes wrapDisk 327680514 = 3 ∧
      wrapVolume.bytes d 327680514 = 1 := by
  obtain ⟨r, d, hrun, rfl, hlinks⟩ := wrapDisk_alloc
  refine ⟨wrapVolume_accepted, wrapDisk_root, d, hrun,
    ⟨327680512, by decide, by decide, by decide⟩, ?_, hlinks⟩
  rw [wrapDisk_bytes (by decide)]
  unfold wrapImage
  rw [blit_out (by decide), poke_self]

end Proninx.Ufs2
