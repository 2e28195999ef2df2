import Proninx.Kern.Blockdev

/-!
# The UFS2 driver (`ufs2.c`)

Volumes, inodes, the cylinder-group maps and directories, function by
function. All on-disk numbers are little-endian words read from byte
buffers; 32- and 64-bit arithmetic that the code does not check is
reduced explicitly.

The three directory loops (`ufs2_lookup`, `ufs2_dirunlink` and
`ufs2_dirlink`) walk the records of each 512-byte region with the same
validity test and differ in the record they stop at and in what they do
then, so the walk is one definition (`scanRecords`, `scanDirectory`) and
each function is written as that walk with its own test.
-/

namespace Proninx.Ufs2

open Blockdev ByteMem Function

/-! ## Constants (`ufs2.h`, `ufs2.c`) -/

def ROOT_INO : Nat := 2
def DIRECT_BLOCKS : Nat := 12
def MAX_NAME : Nat := 255
def DIRTYPE_DIR : UInt8 := 4
def DIRTYPE_REG : UInt8 := 8
def DINODE_SIZE : Nat := 256
def IFDIR : Nat := 0o040000
def IFREG : Nat := 0o100000
def IFMT : Nat := 0o170000
def DIR_HEADER_SIZE : Nat := 8
def DIR_BLOCK_SIZE : Nat := 512
def CG_MAGIC : Nat := 0x00090255
def CG_HEADER_SIZE : Nat := 128
def SUPERBLOCK_OFFSET : Nat := 65536
def SUPERBLOCK_SIZE : Nat := 8192
def MAGIC : Nat := 0x19540119

structure Volume where
  device : Blockdev
  blockSize : Nat
  fragmentSize : Nat
  fragmentsPerBlock : Nat
  cylinderGroups : Nat
  inodesPerGroup : Nat
  fragmentsPerGroup : Nat
  inodesPerBlock : Nat
  inodeTableFragment : Nat
  cylinderGroupBlock : Nat
  cylinderGroupSize : Nat
  deriving DecidableEq, Repr

structure Inode where
  mode : Nat
  nlink : Nat
  uid : Nat
  gid : Nat
  size : Nat
  /-- The first `DIRECT_BLOCKS` entries. -/
  direct : Nat → Nat
  /-- The first three entries. -/
  indirect : Nat → Nat

/-! ## Mounting -/

def powerOfTwo (value : Nat) : Bool := value != 0 && (value &&& (value - 1)) == 0

/-- What `ufs2_probe` checks of the superblock fields it stores. -/
structure Volume.Probed (v : Volume) : Prop where
  blockPow : powerOfTwo v.blockSize
  blockMin : 4096 ≤ v.blockSize
  blockMax : v.blockSize ≤ 65536
  fragmentPow : powerOfTwo v.fragmentSize
  fragmentMin : BSIZE ≤ v.fragmentSize
  fragmentMax : v.fragmentSize ≤ v.blockSize
  fragments : v.fragmentsPerBlock = v.blockSize / v.fragmentSize
  fragmentsPow : powerOfTwo v.fragmentsPerBlock
  inodesPerBlock : v.inodesPerBlock = v.blockSize / DINODE_SIZE
  groups : v.cylinderGroups ≠ 0
  inodesPerGroup : v.inodesPerGroup ≠ 0
  fragmentsPerGroup : v.fragmentsPerGroup ≠ 0
  groupSize : CG_HEADER_SIZE ≤ v.cylinderGroupSize
  inodeTable : v.inodeTableFragment < 2 ^ 31
  groupBlock : v.cylinderGroupBlock < 2 ^ 31

instance (v : Volume) : Decidable v.Probed :=
  decidable_of_iff
    (powerOfTwo v.blockSize ∧ 4096 ≤ v.blockSize ∧ v.blockSize ≤ 65536 ∧
      powerOfTwo v.fragmentSize ∧ BSIZE ≤ v.fragmentSize ∧ v.fragmentSize ≤ v.blockSize ∧
      v.fragmentsPerBlock = v.blockSize / v.fragmentSize ∧ powerOfTwo v.fragmentsPerBlock ∧
      v.inodesPerBlock = v.blockSize / DINODE_SIZE ∧ v.cylinderGroups ≠ 0 ∧
      v.inodesPerGroup ≠ 0 ∧ v.fragmentsPerGroup ≠ 0 ∧ CG_HEADER_SIZE ≤ v.cylinderGroupSize ∧
      v.inodeTableFragment < 2 ^ 31 ∧ v.cylinderGroupBlock < 2 ^ 31)
    ⟨fun ⟨a, b, c, d, e, f, g, h, i, j, k, l, m, n, o⟩ =>
        ⟨a, b, c, d, e, f, g, h, i, j, k, l, m, n, o⟩,
      fun ⟨a, b, c, d, e, f, g, h, i, j, k, l, m, n, o⟩ =>
        ⟨a, b, c, d, e, f, g, h, i, j, k, l, m, n, o⟩⟩

def superblockVolume (device : Blockdev) (superblock : Mem) : Volume where
  device := device
  blockSize := readLe 4 superblock 48
  fragmentSize := readLe 4 superblock 52
  fragmentsPerBlock := readLe 4 superblock 56
  cylinderGroups := readLe 4 superblock 44
  inodesPerGroup := readLe 4 superblock 184
  fragmentsPerGroup := readLe 4 superblock 188
  inodesPerBlock := readLe 4 superblock 120
  inodeTableFragment := readLe 4 superblock 8
  cylinderGroupBlock := readLe 4 superblock 12
  cylinderGroupSize := readLe 4 superblock 160

def probe (device : Blockdev) : Prog (Option Volume) :=
  (device.read SUPERBLOCK_OFFSET SUPERBLOCK_SIZE).andThen fun superblock =>
    if readLe 4 superblock 1372 ≠ MAGIC then pure none
    else if (superblockVolume device superblock).Probed then
      pure (some (superblockVolume device superblock))
    else pure none

variable (v : Volume)

/-! ## Inodes -/

def inodeOffset (inodeNumber : Nat) : Option Nat :=
  if v.inodesPerGroup = 0 then none
  else
    let group := inodeNumber / v.inodesPerGroup
    let index := inodeNumber % v.inodesPerGroup
    if v.cylinderGroups ≤ group then none
    else if v.inodesPerBlock = 0 ∨ v.fragmentSize = 0 then none
    else
      let fragment := group * v.fragmentsPerGroup
      if U64MAX - v.inodeTableFragment < fragment ∨
          U64MAX - fragment - v.inodeTableFragment
            < index / v.inodesPerBlock * v.fragmentsPerBlock then none
      else
        let fragment :=
          fragment + (v.inodeTableFragment + index / v.inodesPerBlock * v.fragmentsPerBlock)
        if U64MAX / v.fragmentSize < fragment ∨
            U64MAX - fragment * v.fragmentSize
              < index % v.inodesPerBlock * DINODE_SIZE then none
        else some (fragment * v.fragmentSize + index % v.inodesPerBlock * DINODE_SIZE)

/-- The fields `ufs2_read_inode` takes from a raw dinode. -/
def decodeInode (raw : Mem) : Inode where
  mode := readLe 2 raw 0
  nlink := readLe 2 raw 2
  uid := readLe 4 raw 4
  gid := readLe 4 raw 8
  size := readLe 8 raw 16
  direct := fun i => readLe 8 raw (112 + i * 8)
  indirect := fun i => readLe 8 raw (208 + i * 8)

def readInode (inodeNumber : Nat) : Prog (Option Inode) :=
  match inodeOffset v inodeNumber with
  | none => pure none
  | some offset => (v.device.read offset DINODE_SIZE).andThen fun raw =>
    pure (some (decodeInode raw))

/-- Store `word 0`, ..., `word (n - 1)` as 64-bit words at `base`. -/
def putWords (raw : Mem) (base : Nat) (word : Nat → Nat) : Nat → Mem
  | 0 => raw
  | n + 1 => writeLe 8 (putWords raw base word n) (base + n * 8) (word n)

/-- The stores of `ufs2_write_inode` into a raw dinode. -/
def encodeInode (raw : Mem) (inode : Inode) : Mem :=
  let raw := writeLe 2 raw 0 inode.mode
  let raw := writeLe 2 raw 2 inode.nlink
  let raw := writeLe 4 raw 4 inode.uid
  let raw := writeLe 4 raw 8 inode.gid
  let raw := writeLe 8 raw 16 inode.size
  let raw := putWords raw 112 inode.direct DIRECT_BLOCKS
  putWords raw 208 inode.indirect 3

def writeInode (inodeNumber : Nat) (inode : Inode) : Prog (Option Unit) :=
  match inodeOffset v inodeNumber with
  | none => pure none
  | some offset => (v.device.read offset DINODE_SIZE).andThen fun raw =>
    v.device.write offset (encodeInode raw inode) DINODE_SIZE

def initializeInode (inodeNumber mode : Nat) : Prog (Option Unit) :=
  match inodeOffset v inodeNumber with
  | none => pure none
  | some offset =>
    let raw := writeLe 2 (fun _ => 0) 0 mode
    let raw := writeLe 2 raw 2 1
    let raw := writeLe 4 raw 4 0
    let raw := writeLe 4 raw 8 0
    v.device.write offset raw DINODE_SIZE

/-! ## Cylinder groups -/

def cgOffset (group : Nat) : Option Nat :=
  if v.fragmentSize = 0 ∨ v.cylinderGroups ≤ group then none
  else
    let fragment := group * v.fragmentsPerGroup
    if U64MAX - v.cylinderGroupBlock < fragment then none
    else
      let fragment := fragment + v.cylinderGroupBlock
      if U64MAX / v.fragmentSize < fragment then none
      else some (fragment * v.fragmentSize)

/-- Read the header of a cylinder group and check that it is one. -/
def cgHeader (group : Nat) : Prog (Option (Nat × Mem)) :=
  if v.cylinderGroups ≤ group then pure none
  else match cgOffset v group with
    | none => pure none
    | some offset => (v.device.read offset CG_HEADER_SIZE).andThen fun header =>
      if readLe 4 header 4 ≠ CG_MAGIC ∨ readLe 4 header 12 ≠ group then pure none
      else pure (some (offset, header))

/-- `ufs2_cg_free_map`: the byte offset and the length of the free map. -/
def cgFreeMap (group : Nat) : Prog (Option (Nat × Nat)) :=
  (cgHeader v group).andThen fun (offset, header) =>
    let entries := readLe 4 header 20
    let freeoff := readLe 4 header 96
    if entries = 0 ∨ v.fragmentsPerGroup < entries ∨ freeoff < CG_HEADER_SIZE ∨
        v.cylinderGroupSize < freeoff ∨
        v.cylinderGroupSize - freeoff < (entries + 7) % 2 ^ 32 / 8 then pure none
    else if U64MAX - freeoff < offset then pure none
    else pure (some (offset + freeoff, entries))

/-- `ufs2_cg_inode_map`: the byte offset of the inode map. -/
def cgInodeMap (group : Nat) : Prog (Option Nat) :=
  (cgHeader v group).andThen fun (offset, header) =>
    let iusedoff := readLe 4 header 92
    if iusedoff < CG_HEADER_SIZE ∨ v.cylinderGroupSize < iusedoff ∨
        v.cylinderGroupSize - iusedoff < (v.inodesPerGroup + 7) % 2 ^ 32 / 8 then pure none
    else if U64MAX - iusedoff < offset then pure none
    else pure (some (offset + iusedoff))

/-! ### Bits of a map -/

/-- `value & (1 << k)` -/
def testBit (value : UInt8) (k : Nat) : Bool := value &&& 1 <<< UInt8.ofNat k != 0

/-- `value | 1 << k` -/
def setBit (value : UInt8) (k : Nat) : UInt8 := value ||| 1 <<< UInt8.ofNat k

/-- `value & ~(1 << k)` -/
def clearBit (value : UInt8) (k : Nat) : UInt8 := value &&& ~~~(1 <<< UInt8.ofNat k)

/-- The byte of a map that holds bit `bit`, with unsigned wrap-around. -/
def mapByte (mapOffset bit : Nat) : Nat := (mapOffset + bit / 8) % 2 ^ 64

def setFragment (mapOffset bit : Nat) (allocated : Bool) : Prog (Option Unit) :=
  (v.device.read (mapByte mapOffset bit) 1).andThen fun value =>
    let value := if allocated then clearBit (value 0) (bit % 8) else setBit (value 0) (bit % 8)
    v.device.write (mapByte mapOffset bit) (fun _ => value) 1

/-! ### Blocks -/

/-- The free fragments from `bit + i` on, up to `n` of them. -/
def countFree (mapOffset bit : Nat) : (n i : Nat) → Prog Nat
  | 0, i => pure i
  | n + 1, i => do
    match ← v.device.read (mapByte mapOffset (bit + i)) 1 with
    | none => pure i
    | some value =>
      if testBit (value 0) ((bit + i) % 8) = false then pure i
      else countFree mapOffset bit n (i + 1)

/-- Undo the first `i` steps of `allocFragments`. -/
def freeFragments (mapOffset bit : Nat) : (i : Nat) → Prog Unit
  | 0 => pure ()
  | i + 1 => do
    let _ ← setFragment v mapOffset (bit + i) false
    freeFragments mapOffset bit i

def allocFragments (mapOffset bit : Nat) : (n i : Nat) → Prog (Option Unit)
  | 0, _ => pure (some ())
  | n + 1, i => do
    match ← setFragment v mapOffset (bit + i) true with
    | none => do
      freeFragments v mapOffset bit i
      pure none
    | some () => allocFragments mapOffset bit n (i + 1)

/-- The loop over one group of `ufs2_alloc_block`; the outer `Option`
says whether the function returned. `bit` is 32 bits wide and comes back
to zero after at most `2 ^ 32` turns. -/
def allocBlockBits (group mapOffset entries : Nat) : (fuel bit : Nat) → Prog (Option (Option Nat))
  | 0, _ => Prog.panic .hang
  | fuel + 1, bit =>
    if (bit + v.fragmentsPerBlock) % 2 ^ 32 ≤ entries then do
      let i ← countFree v mapOffset bit v.fragmentsPerBlock 0
      if i ≠ v.fragmentsPerBlock then
        allocBlockBits group mapOffset entries fuel ((bit + v.fragmentsPerBlock) % 2 ^ 32)
      else do
        let r ← allocFragments v mapOffset bit v.fragmentsPerBlock 0
        release .ufs2Allocation
        pure (some (r.map fun _ => group * v.fragmentsPerGroup + bit))
    else pure none

def allocBlockGroups : (n group : Nat) → Prog (Option Nat)
  | 0, _ => do
    release .ufs2Allocation
    pure none
  | n + 1, group => do
    match ← cgFreeMap v group with
    | none => allocBlockGroups n (group + 1)
    | some (mapOffset, entries) => do
      match ← allocBlockBits v group mapOffset entries (2 ^ 32) 0 with
      | none => allocBlockGroups n (group + 1)
      | some r => pure r

def allocBlock : Prog (Option Nat) :=
  if v.fragmentsPerBlock = 0 then pure none
  else do
    acquire .ufs2Allocation
    allocBlockGroups v v.cylinderGroups 0

/-- Mark `n` fragments from `bit + i` on as free. -/
def releaseFragments (mapOffset bit : Nat) : (n i : Nat) → Prog (Option Unit)
  | 0, _ => pure (some ())
  | n + 1, i => do
    match ← setFragment v mapOffset (bit + i) false with
    | none => pure none
    | some () => releaseFragments mapOffset bit n (i + 1)

def freeBlock (fragment : Nat) : Prog (Option Unit) :=
  if v.fragmentsPerGroup = 0 ∨ v.fragmentsPerBlock = 0 ∨
      fragment % v.fragmentsPerBlock ≠ 0 then pure none
  else do
    let group := fragment / v.fragmentsPerGroup % 2 ^ 32
    let bit := fragment % v.fragmentsPerGroup
    acquire .ufs2Allocation
    if v.cylinderGroups ≤ group then do
      release .ufs2Allocation
      pure none
    else match ← cgFreeMap v group with
      | none => do
        release .ufs2Allocation
        pure none
      | some (mapOffset, entries) =>
        if entries < (bit + v.fragmentsPerBlock) % 2 ^ 32 then do
          release .ufs2Allocation
          pure none
        else do
          let r ← releaseFragments v mapOffset bit v.fragmentsPerBlock 0
          release .ufs2Allocation
          pure r

/-- The loop of `ufs2_zero_block` and of the directory code that fills a
new block: one 512-byte write after the other. -/
def fillBlock (fragment : Nat) (sector : Mem) : (fuel offset : Nat) → Prog (Option Unit)
  | 0, _ => pure (some ())
  | fuel + 1, offset =>
    if offset < v.blockSize then
      (v.device.write ((fragment * v.fragmentSize + offset) % 2 ^ 64) sector BSIZE).andThen
        fun _ => fillBlock fragment sector fuel (offset + BSIZE)
    else pure (some ())

def zeroBlock (fragment : Nat) : Prog (Option Unit) :=
  if U64MAX / v.fragmentSize < fragment then pure none
  else fillBlock v fragment (fun _ => 0) v.blockSize 0

/-! ### Inode allocation -/

/-- The loop over one group of `ufs2_alloc_inode`; the outer `Option`
says whether the function returned. -/
def allocInodeBits (mode group mapOffset : Nat) : (n bit : Nat) → Prog (Option (Option Nat))
  | 0, _ => pure none
  | n + 1, bit =>
    let number := (group * v.inodesPerGroup + bit) % 2 ^ 32
    if number < ROOT_INO then allocInodeBits mode group mapOffset n (bit + 1)
    else do
      match ← v.device.read (mapByte mapOffset bit) 1 with
      | none => do
        release .ufs2Allocation
        pure (some none)
      | some value =>
        if testBit (value 0) (bit % 8) then
          allocInodeBits mode group mapOffset n (bit + 1)
        else do
          let value := setBit (value 0) (bit % 8)
          match ← v.device.write (mapByte mapOffset bit) (fun _ => value) 1 with
          | none => do
            release .ufs2Allocation
            pure (some none)
          | some () => do
            match ← initializeInode v number mode with
            | some () => do
              release .ufs2Allocation
              pure (some (some number))
            | none => do
              let value := clearBit value (bit % 8)
              let _ ← v.device.write (mapByte mapOffset bit) (fun _ => value) 1
              release .ufs2Allocation
              pure (some none)

def allocInodeGroups (mode : Nat) : (n group : Nat) → Prog (Option Nat)
  | 0, _ => do
    release .ufs2Allocation
    pure none
  | n + 1, group => do
    match ← cgInodeMap v group with
    | none => allocInodeGroups mode n (group + 1)
    | some mapOffset => do
      match ← allocInodeBits v mode group mapOffset v.inodesPerGroup 0 with
      | none => allocInodeGroups mode n (group + 1)
      | some r => pure r

def allocInode (mode : Nat) : Prog (Option Nat) :=
  if mode &&& IFMT ≠ IFREG ∧ mode &&& IFMT ≠ IFDIR then pure none
  else do
    acquire .ufs2Allocation
    allocInodeGroups v mode v.cylinderGroups 0

def freeInode (inodeNumber : Nat) : Prog (Option Unit) :=
  if inodeNumber < ROOT_INO ∨ v.inodesPerGroup = 0 then pure none
  else
    let group := inodeNumber / v.inodesPerGroup
    let bit := inodeNumber % v.inodesPerGroup
    match inodeOffset v inodeNumber with
    | none => pure none
    | some offset => (cgInodeMap v group).andThen fun mapOffset => do
      acquire .ufs2Allocation
      match ← v.device.read (mapByte mapOffset bit) 1 with
      | none => do
        release .ufs2Allocation
        pure none
      | some value =>
        if testBit (value 0) (bit % 8) = false then do
          release .ufs2Allocation
          pure none
        else do
          match ← v.device.write offset (fun _ => 0) DINODE_SIZE with
          | none => do
            release .ufs2Allocation
            pure none
          | some () => do
            let value := clearBit (value 0) (bit % 8)
            let r ← v.device.write (mapByte mapOffset bit) (fun _ => value) 1
            release .ufs2Allocation
            pure r

/-! ## File contents -/

def blockAddress (inode : Inode) (logicalBlock : Nat) : Prog (Option Nat) :=
  if logicalBlock < DIRECT_BLOCKS then
    pure (if inode.direct logicalBlock = 0 then none else some (inode.direct logicalBlock))
  else
    let logicalBlock := logicalBlock - DIRECT_BLOCKS
    if v.blockSize / 8 ≤ logicalBlock ∨ inode.indirect 0 = 0 ∨
        U64MAX / v.fragmentSize < inode.indirect 0 then pure none
    else
      let indirectOffset := (inode.indirect 0 * v.fragmentSize + logicalBlock * 8) % 2 ^ 64
      (v.device.read indirectOffset 8).andThen fun raw =>
        pure (if readLe 8 raw 0 = 0 then none else some (readLe 8 raw 0))

/-- The device offset of file byte `offset`, as both loops below compute it. -/
def byteAddress (inode : Inode) (offset : Nat) : Prog (Option Nat) :=
  (blockAddress v inode (offset / v.blockSize % 2 ^ 32)).andThen fun address =>
    if U64MAX / v.fragmentSize < address then pure none
    else pure (some ((address * v.fragmentSize + offset % v.blockSize) % 2 ^ 64))

def readBlocks (inode : Inode) : (fuel offset length : Nat) → (out : Mem) → (pos : Nat) →
    Prog (Option Mem)
  | 0, _, _, out, _ => pure (some out)
  | fuel + 1, offset, length, out, pos =>
    if length = 0 then pure (some out)
    else
      let count := min (v.blockSize - offset % v.blockSize) length
      (byteAddress v inode offset).andThen fun diskOffset =>
        (v.device.read diskOffset count).andThen fun piece =>
          readBlocks inode fuel (offset + count) (length - count) (blit out pos piece count)
            (pos + count)

/-- `ufs2_read`. Every turn of the loop moves at least one byte. -/
def read (inode : Inode) (offset length : Nat) : Prog (Option Mem) :=
  if inode.size < offset ∨ inode.size - offset < length then pure none
  else readBlocks v inode length offset length (fun _ => 0) 0

def writeBlocks (inode : Inode) : (fuel offset : Nat) → (src : Mem) → (length : Nat) →
    Prog (Option Unit)
  | 0, _, _, _ => pure (some ())
  | fuel + 1, offset, src, length =>
    if length = 0 then pure (some ())
    else
      let count := min (v.blockSize - offset % v.blockSize) length
      (byteAddress v inode offset).andThen fun diskOffset =>
        (v.device.write diskOffset src count).andThen fun _ =>
          writeBlocks inode fuel (offset + count) (shift src count) (length - count)

def writeExisting (inode : Inode) (offset : Nat) (src : Mem) (length : Nat) :
    Prog (Option Unit) :=
  if inode.size < offset ∨ inode.size - offset < length then pure none
  else writeBlocks v inode length offset src length

/-! ## Growing and truncating

Both functions change the caller's copy of the inode as they go, also
when they fail, so they return it beside the result. -/

def writeRange (inode : Inode) (offset : Nat) (src : Mem) (length : Nat) : Prog (Option Unit) :=
  writeBlocks v inode length offset src length

def Inode.setDirect (inode : Inode) (block fragment : Nat) : Inode :=
  { inode with direct := update inode.direct block fragment }

/-- The allocation loop of `ufs2_write_growing`. A failed
`ufs2_alloc_block` leaves `fragment` zero. -/
def growBlocks (inodeNumber : Nat) : (n block : Nat) → Inode → Prog (Option Unit × Inode)
  | 0, _, inode => pure (some (), inode)
  | n + 1, block, inode =>
    if inode.direct block ≠ 0 then growBlocks inodeNumber n (block + 1) inode
    else do
      match ← allocBlock v with
      | none => pure (none, inode)
      | some fragment =>
        match ← zeroBlock v fragment with
        | none => do
          if fragment ≠ 0 then
            let _ ← freeBlock v fragment
          pure (none, inode)
        | some () => do
          match ← writeInode v inodeNumber (inode.setDirect block fragment) with
          | none => pure (none, inode.setDirect block fragment)
          | some () =>
            growBlocks inodeNumber n (block + 1) (inode.setDirect block fragment)

/-- The loop of `ufs2_write_growing` that clears the bytes between the old
end of the file and `offset`. -/
def zeroGap (inode : Inode) (offset : Nat) : (fuel oldSize : Nat) → Prog (Option Unit)
  | 0, _ => pure (some ())
  | fuel + 1, oldSize =>
    if oldSize < offset then
      let count := min (offset - oldSize) BSIZE
      (writeRange v inode oldSize (fun _ => 0) count).andThen fun _ =>
        zeroGap inode offset fuel (oldSize + count)
    else pure (some ())

def writeGrowing (inodeNumber : Nat) (inode : Inode) (offset : Nat) (src : Mem) (length : Nat) :
    Prog (Option Unit × Inode) :=
  if inode.mode &&& IFMT ≠ IFREG ∨ U64MAX - length < offset then pure (none, inode)
  else if DIRECT_BLOCKS * v.blockSize < offset + length then pure (none, inode)
  else do
    let oldSize := inode.size
    match ← growBlocks v inodeNumber ((offset + length + v.blockSize - 1) / v.blockSize) 0
        inode with
    | (none, inode) => pure (none, inode)
    | (some (), inode) =>
      if offset + length ≤ oldSize then do
        let r ← writeRange v inode offset src length
        pure (r, inode)
      else do
        let inode := { inode with size := offset + length }
        let r ← (writeInode v inodeNumber inode).andThen fun _ =>
          (zeroGap v inode offset offset oldSize).andThen fun _ =>
            writeRange v inode offset src length
        pure (r, inode)

def truncateBlocks (inodeNumber : Nat) : (n block : Nat) → Inode → Prog (Option Unit × Inode)
  | 0, _, inode => pure (some (), inode)
  | n + 1, block, inode =>
    if inode.direct block = 0 then truncateBlocks inodeNumber n (block + 1) inode
    else do
      let r ← (writeInode v inodeNumber (inode.setDirect block 0)).andThen fun _ =>
        freeBlock v (inode.direct block)
      match r with
      | none => pure (none, inode.setDirect block 0)
      | some () => truncateBlocks inodeNumber n (block + 1) (inode.setDirect block 0)

def truncate (inodeNumber : Nat) (inode : Inode) : Prog (Option Unit × Inode) :=
  if inode.mode &&& IFMT ≠ IFREG ∧ inode.mode &&& IFMT ≠ IFDIR then pure (none, inode)
  else do
    let inode := { inode with size := 0 }
    match ← writeInode v inodeNumber inode with
    | none => pure (none, inode)
    | some () => truncateBlocks v inodeNumber DIRECT_BLOCKS 0 inode

/-! ## Directories -/

def dirRecordSize (nameLength : Nat) : Nat := (DIR_HEADER_SIZE + nameLength + 3) / 4 * 4

/-- `ufs2_name_length` of a C string: -1 unless it has 1 to 255 bytes. -/
def nameLength (name : List UInt8) : Option Nat :=
  if name.length = 0 ∨ MAX_NAME < name.length then none else some name.length

/-! ### Fields of the record at `o` of a region -/

def recInode (m : Mem) (o : Nat) : Nat := readLe 4 m o
def recLength (m : Mem) (o : Nat) : Nat := readLe 2 m (o + 4)
def recNameLength (m : Mem) (o : Nat) : Nat := (m (o + 7)).toNat
def recName (m : Mem) (o : Nat) : List UInt8 := toList m (o + 8) (recNameLength m o)

/-- The test every directory loop makes before it looks at a record. -/
def BadRecord (m : Mem) (toRead o : Nat) : Prop :=
  recLength m o < DIR_HEADER_SIZE ∨ recLength m o % 4 ≠ 0 ∨ toRead - o < recLength m o ∨
    MAX_NAME < recNameLength m o ∨ recLength m o < recNameLength m o + DIR_HEADER_SIZE

instance (m : Mem) (toRead o : Nat) : Decidable (BadRecord m toRead o) :=
  inferInstanceAs (Decidable (_ ∨ _ ∨ _ ∨ _ ∨ _))

inductive Scan where
  /-- A bad record ends the whole call with -1. -/
  | bad
  /-- No record of the region passes the test. -/
  | next
  | found (o : Nat)
  deriving DecidableEq, Repr

/-- Walk the records of a region up to the first one that passes `test`.
A record has at least eight bytes. -/
def scanRecords (m : Mem) (toRead : Nat) (test : Nat → Bool) : (fuel o : Nat) → Scan
  | 0, _ => .bad
  | fuel + 1, o =>
    if o + DIR_HEADER_SIZE ≤ toRead then
      if BadRecord m toRead o then .bad
      else if test o then .found o
      else scanRecords m toRead test fuel (o + recLength m o)
    else .next

/-- Walk the regions of a directory up to the first record that passes
`test`, then continue with `found`, or with `rest` when there is none. -/
def scanDirectory {α : Type} (dir : Inode) (test : Mem → Nat → Bool)
    (found : (fileOffset toRead : Nat) → Mem → Nat → Prog (Option α)) (rest : Prog (Option α)) :
    (fuel fileOffset : Nat) → Prog (Option α)
  | 0, _ => rest
  | fuel + 1, fileOffset =>
    if fileOffset < dir.size then
      let toRead := min (dir.size - fileOffset) DIR_BLOCK_SIZE
      (read v dir fileOffset toRead).andThen fun block =>
        match scanRecords block toRead (test block) (DIR_BLOCK_SIZE / DIR_HEADER_SIZE + 1) 0 with
        | .bad => pure none
        | .found o => found fileOffset toRead block o
        | .next => scanDirectory dir test found rest fuel (fileOffset + DIR_BLOCK_SIZE)
    else rest

/-- One turn for each region, and one to see the end. -/
def scanFuel (dir : Inode) : Nat := dir.size / DIR_BLOCK_SIZE + 2

/-- A live record with the given name. -/
def hasName (name : List UInt8) (m : Mem) (o : Nat) : Bool :=
  recInode m o != 0 && recNameLength m o == name.length && recName m o == name

def lookup (directoryInode : Nat) (name : List UInt8) : Prog (Option Nat) :=
  if nameLength name = none then pure none
  else (readInode v directoryInode).andThen fun directory =>
    if directory.mode &&& IFMT ≠ IFDIR then pure none
    else scanDirectory v directory (hasName name)
      (fun _ _ block o => pure (some (recInode block o))) (pure none) (scanFuel directory) 0

def dirunlink (directoryInode : Nat) (name : List UInt8) : Prog (Option Nat) :=
  if nameLength name = none then pure none
  else (readInode v directoryInode).andThen fun directory =>
    if directory.mode &&& IFMT ≠ IFDIR then pure none
    else scanDirectory v directory (hasName name)
      (fun fileOffset toRead block o =>
        (writeExisting v directory fileOffset (writeLe 4 block o 0) toRead).andThen fun _ =>
          pure (some (recInode block o)))
      (pure none) (scanFuel directory) 0

/-- The record has room for `needed` more bytes: all of a free record, or
what a live one does not use for its own name. -/
def hasRoom (needed : Nat) (m : Mem) (o : Nat) : Bool :=
  if recInode m o = 0 then decide (needed ≤ recLength m o)
  else decide (dirRecordSize (recNameLength m o) ≤ recLength m o ∧
    needed ≤ recLength m o - dirRecordSize (recNameLength m o))

def newOffset (m : Mem) (o : Nat) : Nat :=
  if recInode m o = 0 then o else o + dirRecordSize (recNameLength m o)

/-- The bytes the new record may use. -/
def available (m : Mem) (o : Nat) : Nat := recLength m o - (newOffset m o - o)

def cutRecord (m : Mem) (o : Nat) : Mem :=
  if recInode m o = 0 then m else writeLe 2 m (o + 4) (dirRecordSize (recNameLength m o))

/-- A free record of `length` bytes. -/
def putFree (m : Mem) (o length : Nat) : Mem := writeLe 2 (fill m o 0 length) (o + 4) length

/-- A live record for `name`, `length` bytes long. -/
def putRecord (m : Mem) (o length : Nat) (name : List UInt8) (inodeNumber : Nat) (type : UInt8) :
    Mem :=
  let m := fill m o 0 (dirRecordSize name.length)
  let m := writeLe 4 m o inodeNumber
  let m := writeLe 2 m (o + 4) length
  let m := poke m (o + 6) type
  let m := poke m (o + 7) (UInt8.ofNat name.length)
  blit m (o + DIR_HEADER_SIZE) (ofList name) name.length

/-- The stores of `ufs2_dirlink` into the region, at the record `o`: cut
it down, make what the new record does not need a free record, and put
the new record in between. -/
def insertRecord (m : Mem) (o : Nat) (name : List UInt8) (inodeNumber : Nat) (type : UInt8) :
    Mem :=
  let needed := dirRecordSize name.length
  let new := newOffset m o
  let avail := available m o
  if needed < avail then
    putRecord (putFree (cutRecord m o) (new + needed) (avail - needed)) new needed name
      inodeNumber type
  else putRecord (cutRecord m o) new avail name inodeNumber type

/-- The length of the free record is stored past the end of the buffer. -/
def Overruns (m : Mem) (o : Nat) (name : List UInt8) : Prop :=
  dirRecordSize name.length < available m o ∧
    DIR_BLOCK_SIZE < newOffset m o + dirRecordSize name.length + 6

instance (m : Mem) (o : Nat) (name : List UInt8) : Decidable (Overruns m o name) :=
  inferInstanceAs (Decidable (_ ∧ _))

/-- The block of free records a directory grows by, one per region. -/
def freeRegion : Mem := writeLe 2 (fun _ => 0) 4 DIR_BLOCK_SIZE

/-- The growth step of `ufs2_dirlink`. -/
def growDirectory (directoryInode : Nat) (directory : Inode) : Prog (Option Unit) :=
  if directory.size % v.blockSize ≠ 0 ∨ DIRECT_BLOCKS ≤ directory.size / v.blockSize then
    pure none
  else
    (allocBlock v).andThen fun fragment =>
      (zeroBlock v fragment).andThen fun _ =>
        (fillBlock v fragment freeRegion v.blockSize 0).andThen fun _ =>
          writeInode v directoryInode
            { directory with
              direct := update directory.direct (directory.size / v.blockSize) fragment
              size := (directory.size + v.blockSize) % 2 ^ 64 }

/-- The body of `ufs2_dirlink`; `fuel` bounds the depth of its recursion,
since each retry comes after a growth step and there are twelve at most. -/
def dirlinkLoop (directoryInode : Nat) (name : List UInt8) (inodeNumber : Nat) (type : UInt8) :
    (fuel : Nat) → Prog (Option Unit)
  | 0 => Prog.panic .hang
  | fuel + 1 =>
    if inodeNumber < ROOT_INO ∨ nameLength name = none then pure none
    else (readInode v directoryInode).andThen fun directory =>
      if directory.mode &&& IFMT ≠ IFDIR ∨ (type ≠ DIRTYPE_REG ∧ type ≠ DIRTYPE_DIR) then
        pure none
      else do
        match ← lookup v directoryInode name with
        | some _ => pure none
        | none =>
          scanDirectory v directory (hasRoom (dirRecordSize name.length))
            (fun fileOffset toRead block o =>
              if Overruns block o name then Prog.panic .overrun
              else writeExisting v directory fileOffset
                (insertRecord block o name inodeNumber type) toRead)
            ((growDirectory v directoryInode directory).andThen fun _ =>
              dirlinkLoop directoryInode name inodeNumber type fuel)
            (scanFuel directory) 0

def dirlink (directoryInode : Nat) (name : List UInt8) (inodeNumber : Nat) (type : UInt8) :
    Prog (Option Unit) :=
  dirlinkLoop v directoryInode name inodeNumber type (DIRECT_BLOCKS + 2)

/-! ### New directories -/

/-- The first region of a new directory: `.` and `..`. -/
def dotRegion (inodeNumber parentInode : Nat) : Mem :=
  let m := writeLe 4 (fun _ => 0) 0 inodeNumber
  let m := writeLe 2 m 4 (dirRecordSize 1)
  let m := poke m 6 DIRTYPE_DIR
  let m := poke m 7 1
  let m := poke m 8 46
  let m := writeLe 4 m (dirRecordSize 1) parentInode
  let m := writeLe 2 m (dirRecordSize 1 + 4) (DIR_BLOCK_SIZE - dirRecordSize 1)
  let m := poke m (dirRecordSize 1 + 6) DIRTYPE_DIR
  let m := poke m (dirRecordSize 1 + 7) 2
  let m := poke m (dirRecordSize 1 + 8) 46
  poke m (dirRecordSize 1 + 9) 46

/-- The loop of `ufs2_make_directory`: the first region, then free ones. -/
def fillDirectory (fragment : Nat) (first : Mem) : (fuel offset : Nat) → Prog (Option Unit)
  | 0, _ => pure (some ())
  | fuel + 1, offset =>
    if offset < v.blockSize then
      (v.device.write ((fragment * v.fragmentSize + offset) % 2 ^ 64)
        (if offset = 0 then first else freeRegion) DIR_BLOCK_SIZE).andThen fun _ =>
          fillDirectory fragment first fuel (offset + DIR_BLOCK_SIZE)
    else pure (some ())

def makeDirectory (inodeNumber parentInode : Nat) : Prog (Option Unit) :=
  (readInode v inodeNumber).andThen fun inode =>
    if inode.mode &&& IFMT ≠ IFDIR then pure none
    else
      (allocBlock v).andThen fun fragment =>
        (zeroBlock v fragment).andThen fun _ =>
          (writeInode v inodeNumber
            { inode.setDirect 0 fragment with size := v.blockSize, nlink := 2 }).andThen fun _ =>
              fillDirectory v fragment (dotRegion inodeNumber parentInode) v.blockSize 0

end Proninx.Ufs2
