import Proninx.Kern.Ufs2Region

/-!
# The driver over the bytes of a volume

What each reader of `ufs2.c` returns is a function of the bytes of the
partition, stated here next to the lemma that says so (`..._run`). The
writers are described by how those bytes change. Every later module
reasons about the bytes and never looks at a `Prog` of the readers again.
-/

namespace Proninx.Ufs2

open Blockdev ByteMem Prog Tiling

variable (v : Volume)

abbrev Volume.bytes (d : Disk) : Mem := v.device.flat d

/-! ## Readers -/

/-- The dinode with number `n`. -/
def inodeAt (m : Mem) (n : Nat) : Option Inode :=
  (inodeOffset v n).bind fun offset =>
    (v.device.peek m offset DINODE_SIZE).bind fun raw => some (decodeInode raw)

lemma readInode_run (n : Nat) (d : Disk) :
    (readInode v n).run d = .ok (inodeAt v (v.bytes d) n, d) := by
  unfold readInode inodeAt
  cases inodeOffset v n with
  | none => rfl
  | some offset => exact run_andThen_reads (read_run ..) fun _ _ => rfl

def headerAt (m : Mem) (group : Nat) : Option (Nat × Mem) :=
  (cgOffset v group).bind fun offset =>
    (v.device.peek m offset CG_HEADER_SIZE).bind fun header =>
      if readLe 4 header 4 ≠ CG_MAGIC ∨ readLe 4 header 12 ≠ group then none
      else some (offset, header)

lemma cgHeader_run (group : Nat) (d : Disk) :
    (cgHeader v group).run d = .ok (headerAt v (v.bytes d) group, d) := by
  unfold cgHeader headerAt
  split
  · next hg => rw [cgOffset, if_pos (.inr hg)]; rfl
  cases cgOffset v group with
  | none => rfl
  | some offset => ?_
  refine run_andThen_reads (read_run ..) fun header _ => ?_
  split <;> rfl

def freeMapAt (m : Mem) (group : Nat) : Option (Nat × Nat) :=
  (headerAt v m group).bind fun (offset, header) =>
    let entries := readLe 4 header 20
    let freeoff := readLe 4 header 96
    if entries = 0 ∨ v.fragmentsPerGroup < entries ∨ freeoff < CG_HEADER_SIZE ∨
        v.cylinderGroupSize < freeoff ∨
        v.cylinderGroupSize - freeoff < (entries + 7) % 2 ^ 32 / 8 then none
    else if U64MAX - freeoff < offset then none
    else some (offset + freeoff, entries)

lemma cgFreeMap_run (group : Nat) (d : Disk) :
    (cgFreeMap v group).run d = .ok (freeMapAt v (v.bytes d) group, d) := by
  unfold cgFreeMap freeMapAt
  refine run_andThen_reads (cgHeader_run v group d) fun h _ => ?_
  dsimp only
  split
  · rfl
  · split <;> rfl

/-- The fragment address of a logical block. -/
def addressAt (m : Mem) (inode : Inode) (logicalBlock : Nat) : Option Nat :=
  if logicalBlock < DIRECT_BLOCKS then
    if inode.direct logicalBlock = 0 then none else some (inode.direct logicalBlock)
  else
    let logicalBlock := logicalBlock - DIRECT_BLOCKS
    if v.blockSize / 8 ≤ logicalBlock ∨ inode.indirect 0 = 0 ∨
        U64MAX / v.fragmentSize < inode.indirect 0 then none
    else
      (v.device.peek m ((inode.indirect 0 * v.fragmentSize + logicalBlock * 8) % 2 ^ 64) 8).bind
        fun raw => if readLe 8 raw 0 = 0 then none else some (readLe 8 raw 0)

lemma blockAddress_run (inode : Inode) (logicalBlock : Nat) (d : Disk) :
    (blockAddress v inode logicalBlock).run d
      = .ok (addressAt v (v.bytes d) inode logicalBlock, d) := by
  unfold blockAddress addressAt
  split
  · rfl
  dsimp only
  split
  · rfl
  · exact run_andThen_reads (read_run ..) fun _ _ => rfl

/-- The device offset of byte `i` of a file. -/
def byteAt (m : Mem) (inode : Inode) (i : Nat) : Option Nat :=
  (addressAt v m inode (i / v.blockSize % 2 ^ 32)).bind fun address =>
    if U64MAX / v.fragmentSize < address then none
    else some ((address * v.fragmentSize + i % v.blockSize) % 2 ^ 64)

lemma byteAddress_run (inode : Inode) (i : Nat) (d : Disk) :
    (byteAddress v inode i).run d = .ok (byteAt v (v.bytes d) inode i, d) := by
  unfold byteAddress byteAt
  refine run_andThen_reads (blockAddress_run v inode _ d) fun address _ => ?_
  split <;> rfl

/-! ## Regions of a file

A transfer that stays inside one block is a single transfer of the
device. -/

variable {v}

lemma read_inside {inode : Inode} {offset length a : Nat} {d : Disk} (h0 : 0 < length)
    (hsize : offset + length ≤ inode.size) (hin : offset % v.blockSize + length ≤ v.blockSize)
    (ha : byteAt v (v.bytes d) inode offset = some a) (hfit : v.device.Fits a length) :
    (read v inode offset length).run d = .ok (some (window (v.bytes d) a length), d) := by
  obtain ⟨n, rfl⟩ : ∃ n, length = n + 1 := ⟨length - 1, by omega⟩
  have hmin : min (v.blockSize - offset % v.blockSize) (n + 1) = n + 1 := by omega
  have hpeek : v.device.peek (v.bytes d) a (n + 1) = some (window (v.bytes d) a (n + 1)) :=
    if_pos hfit
  have hread : (v.device.read a (n + 1)).run d = .ok (some (window (v.bytes d) a (n + 1)), d) :=
    hpeek ▸ read_run v.device a (n + 1) d
  rw [read, if_neg (by omega), readBlocks, if_neg (by omega)]
  dsimp only
  rw [run_andThen_some (ha ▸ byteAddress_run v inode offset d), hmin,
    run_andThen_some hread, Nat.sub_self]
  have hblit : blit (fun _ => 0) 0 (window (v.bytes d) a (n + 1)) (n + 1)
      = window (v.bytes d) a (n + 1) :=
    blit_congr fun i _ hi => by rw [window_apply (by omega), shift_apply]
  rw [hblit]
  cases n <;> simp [readBlocks]

lemma writeExisting_inside {inode : Inode} {offset length a : Nat} {src : Mem} {d : Disk}
    (h0 : 0 < length) (hsize : offset + length ≤ inode.size)
    (hin : offset % v.blockSize + length ≤ v.blockSize)
    (ha : byteAt v (v.bytes d) inode offset = some a) (hfit : v.device.Fits a length) :
    ∃ d', (writeExisting v inode offset src length).run d = .ok (some (), d') ∧
      v.bytes d' = blit (v.bytes d) a src length := by
  obtain ⟨n, rfl⟩ : ∃ n, length = n + 1 := ⟨length - 1, by omega⟩
  have hmin : min (v.blockSize - offset % v.blockSize) (n + 1) = n + 1 := by omega
  obtain ⟨d', hrun, hflat⟩ := write_run hfit src d
  refine ⟨d', ?_, hflat⟩
  rw [writeExisting, if_neg (by omega), writeBlocks, if_neg (by omega)]
  dsimp only
  rw [run_andThen_some (ha ▸ byteAddress_run v inode offset d), hmin,
    run_andThen_some hrun, Nat.sub_self]
  cases n <;> simp [writeBlocks]

end Proninx.Ufs2
