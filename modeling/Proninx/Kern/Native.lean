import Proninx.Kern.Prog
import Proninx.Lib.CString

/-!
# The native file system

The block, inode and directory functions of `fs.c` for a native volume:
the boot file system, with four 128-byte inodes and one bitmap bit per
block of 512 bytes. They are programs over the disk of one device; the
in-memory inode they work on is passed along, and `bmap`, `writei` and
`itrunc` return it with the fields they changed.
-/

namespace Proninx.Native

open ByteMem

/-! ## Layout (`fs.h`, `inc/dir.h`) -/

def NDIRECT : Nat := 11
def NINDIRECT : Nat := BSIZE / 4
def MAXFILE : Nat := NDIRECT + NINDIRECT + NINDIRECT * NINDIRECT
def IPB : Nat := 4
def BPB : Nat := BSIZE * 8
def DIRSIZ : Nat := 14
def DINODE_SIZE : Nat := 128
def DIRENT_SIZE : Nat := 16

/-- The fields of `struct superblock` the kernel uses. -/
structure Superblock where
  size : Nat
  ninodes : Nat
  inodestart : Nat
  bmapstart : Nat

/-- The fields of `struct dinode`, as the in-memory inode holds them. The
shorts are kept as 16-bit words. -/
structure Dinode where
  type : Nat
  major : Nat
  minor : Nat
  nlink : Nat
  size : Nat
  uid : Nat
  gid : Nat
  mode : Nat
  addrs : Nat → Nat

def decodeDinode (data : Block) (o : Nat) : Dinode where
  type := readLe 2 data o
  major := readLe 2 data (o + 2)
  minor := readLe 2 data (o + 4)
  nlink := readLe 2 data (o + 6)
  size := readLe 4 data (o + 8)
  uid := readLe 4 data (o + 12)
  gid := readLe 4 data (o + 16)
  mode := readLe 2 data (o + 20)
  addrs := fun i => if i < NDIRECT + 2 then readLe 4 data (o + 24 + i * 4) else 0

def putAddrs (data : Block) (o : Nat) (addrs : Nat → Nat) : Nat → Block
  | 0 => data
  | n + 1 => writeLe 4 (putAddrs data o addrs n) (o + n * 4) (addrs n)

/-- The stores of `iupdate`. -/
def encodeDinode (data : Block) (o : Nat) (x : Dinode) : Block :=
  let data := writeLe 2 data o x.type
  let data := writeLe 2 data (o + 2) x.major
  let data := writeLe 2 data (o + 4) x.minor
  let data := writeLe 2 data (o + 6) x.nlink
  let data := writeLe 4 data (o + 8) x.size
  let data := writeLe 4 data (o + 12) x.uid
  let data := writeLe 4 data (o + 16) x.gid
  let data := writeLe 2 data (o + 20) x.mode
  putAddrs data (o + 24) x.addrs (NDIRECT + 2)

variable (sb : Superblock)

def iblock (inum : Nat) : Nat := inum / IPB + sb.inodestart

def dinodeOffset (inum : Nat) : Nat := inum % IPB * DINODE_SIZE

def dinodeAt (d : Disk) (inum : Nat) : Dinode := decodeDinode (d (iblock sb inum)) (dinodeOffset inum)

def bblock (b : Nat) : Nat := b / BPB + sb.bmapstart

/-! ## Blocks -/

def bitSet (data : Block) (bi : Nat) : Bool := data (bi / 8) &&& (1 <<< UInt8.ofNat (bi % 8)) != 0

def setBit (data : Block) (bi : Nat) : Block :=
  poke data (bi / 8) (data (bi / 8) ||| (1 <<< UInt8.ofNat (bi % 8)))

def clearBit (data : Block) (bi : Nat) : Block :=
  poke data (bi / 8) (data (bi / 8) &&& ~~~(1 <<< UInt8.ofNat (bi % 8)))

def bzero (bno : Nat) : Prog Unit := do
  let data ← bread bno
  logWrite bno (fill data 0 0 BSIZE)
  brelse bno

/-- The inner loop of `balloc`: the first free bit from `bi` on. -/
def firstFree (data : Block) (b : Nat) : (n bi : Nat) → Option Nat
  | 0, _ => none
  | n + 1, bi =>
    if b + bi < sb.size then
      if bitSet data bi then firstFree data b n (bi + 1) else some bi
    else none

/-- The outer loop of `balloc`; each turn covers one bitmap block. -/
def ballocFrom : (fuel b : Nat) → Prog Nat
  | 0, _ => .panic .ballocOutOfBlocks
  | fuel + 1, b =>
    if b < sb.size then do
      let data ← bread (bblock sb b)
      match firstFree sb data b BPB 0 with
      | some bi => do
        logWrite (bblock sb b) (setBit data bi)
        brelse (bblock sb b)
        bzero (b + bi)
        pure (b + bi)
      | none => do
        brelse (bblock sb b)
        ballocFrom fuel (b + BPB)
    else .panic .ballocOutOfBlocks

def balloc : Prog Nat := ballocFrom sb (sb.size / BPB + 1) 0

def bfree (b : Nat) : Prog Unit := do
  let data ← bread (bblock sb b)
  if bitSet data (b % BPB) then do
    logWrite (bblock sb b) (clearBit data (b % BPB))
    brelse (bblock sb b)
  else .panic .freeingFreeBlock

/-! ## Inodes -/

/-- The loop of `ialloc`, from inode `inum` on. -/
def iallocFrom (type : Nat) : (n inum : Nat) → Prog Nat
  | 0, _ => .panic .iallocNoInodes
  | n + 1, inum => do
    let data ← bread (iblock sb inum)
    if readLe 2 data (dinodeOffset inum) = 0 then do
      logWrite (iblock sb inum)
        (writeLe 2 (fill data (dinodeOffset inum) 0 DINODE_SIZE) (dinodeOffset inum) type)
      brelse (iblock sb inum)
      pure inum
    else do
      brelse (iblock sb inum)
      iallocFrom type n (inum + 1)

/-- `ialloc`, up to its `iget`. -/
def ialloc (type : Nat) : Prog Nat := iallocFrom sb type (sb.ninodes - 1) 1

def iupdate (inum : Nat) (x : Dinode) : Prog Unit := do
  let data ← bread (iblock sb inum)
  logWrite (iblock sb inum) (encodeDinode data (dinodeOffset inum) x)
  brelse (iblock sb inum)

/-- The native branch of `ilock`, up to its panic. -/
def readDinode (inum : Nat) : Prog Dinode := do
  let data ← bread (iblock sb inum)
  brelse (iblock sb inum)
  pure (decodeDinode data (dinodeOffset inum))

def Dinode.setAddr (x : Dinode) (i a : Nat) : Dinode :=
  { x with addrs := Function.update x.addrs i a }

/-- `addrs[i]`, allocated if it is zero. -/
def directAddr (x : Dinode) (i : Nat) : Prog (Nat × Dinode) :=
  if x.addrs i = 0 then do
    let addr ← balloc sb
    pure (addr, x.setAddr i addr)
  else pure (x.addrs i, x)

/-- Entry `i` of the indirect block `b`, allocated if it is zero. -/
def indirectAddr (b i : Nat) : Prog Nat := do
  let data ← bread b
  if readLe 4 data (i * 4) = 0 then do
    let addr ← balloc sb
    logWrite b (writeLe 4 data (i * 4) addr)
    brelse b
    pure addr
  else do
    brelse b
    pure (readLe 4 data (i * 4))

def bmap (x : Dinode) (bn : Nat) : Prog (Nat × Dinode) :=
  if bn < NDIRECT then directAddr sb x bn
  else
    let bn := bn - NDIRECT
    if bn < NINDIRECT then do
      let (b, x) ← directAddr sb x NDIRECT
      let addr ← indirectAddr sb b bn
      pure (addr, x)
    else
      let bn := bn - NINDIRECT
      if bn < NINDIRECT * NINDIRECT then do
        let (b, x) ← directAddr sb x (NDIRECT + 1)
        let b ← indirectAddr sb b (bn / NINDIRECT)
        let addr ← indirectAddr sb b (bn % NINDIRECT)
        pure (addr, x)
      else .panic .bmapOutOfRange

def freeEntries (free : Nat → Prog Unit) (data : Block) : (n i : Nat) → Prog Unit
  | 0, _ => pure ()
  | n + 1, i => do
    if readLe 4 data (i * 4) ≠ 0 then free (readLe 4 data (i * 4))
    freeEntries free data n (i + 1)

def freeIndirect (free : Nat → Prog Unit) (b : Nat) : Prog Unit := do
  let data ← bread b
  freeEntries free data NINDIRECT 0
  brelse b
  bfree sb b

def freeAddr (free : Nat → Prog Unit) (x : Dinode) (i : Nat) : Prog Dinode :=
  if x.addrs i = 0 then pure x
  else do
    free (x.addrs i)
    pure (x.setAddr i 0)

def freeDirect : (n i : Nat) → Dinode → Prog Dinode
  | 0, _, x => pure x
  | n + 1, i, x => do
    let x ← freeAddr (bfree sb) x i
    freeDirect n (i + 1) x

/-- The native branch of `itrunc`, up to its `iupdate`. -/
def itrunc (x : Dinode) : Prog Dinode := do
  let x ← freeDirect sb NDIRECT 0 x
  let x ← freeAddr (freeIndirect sb (bfree sb)) x NDIRECT
  let x ← freeAddr (freeIndirect sb (freeIndirect sb (bfree sb))) x (NDIRECT + 1)
  pure { x with size := 0 }

/-! ## Contents -/

def readBlocks : (fuel off n : Nat) → (dst : Mem) → (tot : Nat) → Dinode → Prog (Mem × Dinode)
  | 0, _, _, dst, _, x => pure (dst, x)
  | fuel + 1, off, n, dst, tot, x =>
    if tot < n then do
      let (b, x) ← bmap sb x (off / BSIZE)
      let data ← bread b
      let m := min (n - tot) (BSIZE - off % BSIZE)
      let dst := blit dst tot (shift data (off % BSIZE)) m
      brelse b
      readBlocks fuel (off + m) n dst (tot + m) x
    else pure (dst, x)

/-- The native branch of `readi`: the count and the bytes it returns, or
`none` for -1. -/
def readi (x : Dinode) (off n : Nat) : Prog (Option (Nat × Mem) × Dinode) :=
  if x.size < off ∨ 2 ^ 32 ≤ off + n then pure (none, x)
  else do
    let n := if x.size < off + n then x.size - off else n
    let (dst, x) ← readBlocks sb n off n (fun _ => 0) 0 x
    pure (some (n, dst), x)

def writeBlocks : (fuel off n : Nat) → (src : Mem) → (tot : Nat) → Dinode → Prog Dinode
  | 0, _, _, _, _, x => pure x
  | fuel + 1, off, n, src, tot, x =>
    if tot < n then do
      let (b, x) ← bmap sb x (off / BSIZE)
      let data ← bread b
      let m := min (n - tot) (BSIZE - off % BSIZE)
      logWrite b (blit data (off % BSIZE) (shift src tot) m)
      brelse b
      writeBlocks fuel (off + m) n src (tot + m) x
    else pure x

/-- The native branch of `writei`; `none` for -1. -/
def writei (inum : Nat) (x : Dinode) (src : Mem) (off n : Nat) : Prog (Option Nat × Dinode) :=
  if x.size < off ∨ 2 ^ 32 ≤ off + n then pure (none, x)
  else if MAXFILE * BSIZE < off + n then pure (none, x)
  else do
    let x ← writeBlocks sb n off n src 0 x
    if 0 < n ∧ x.size < off + n then do
      let x := { x with size := off + n }
      iupdate sb inum x
      pure (some n, x)
    else pure (some n, x)

/-! ## Directories -/

/-- `namecmp(name, de.name) == 0` for the entry `de`. -/
def namecmp (name : List UInt8) (de : Mem) : Bool := strncmpEq (ofList name) (shift de 2) DIRSIZ 0

def entryInum (de : Mem) : Nat := readLe 2 de 0

/-- The loop of the native branch of `dirlookup`: the inode number and the
offset of the entry. -/
def scanName (name : List UInt8) : (fuel off : Nat) → Dinode → Prog (Option (Nat × Nat) × Dinode)
  | 0, _, x => pure (none, x)
  | fuel + 1, off, x =>
    if off < x.size then do
      match ← readi sb x off DIRENT_SIZE with
      | (some (16, de), x) =>
        if entryInum de = 0 then scanName name fuel (off + DIRENT_SIZE) x
        else if namecmp name de then pure (some (entryInum de, off), x)
        else scanName name fuel (off + DIRENT_SIZE) x
      | _ => .panic .dirlookupRead
    else pure (none, x)

/-- The native branch of `dirlookup`, up to its `iget`. -/
def dirlookup (x : Dinode) (name : List UInt8) : Prog (Option (Nat × Nat) × Dinode) :=
  scanName sb name (x.size / DIRENT_SIZE + 1) 0 x

/-- The loop of `dirlink`: the offset of the first empty entry, or the end. -/
def scanEmpty : (fuel off : Nat) → Dinode → Prog (Nat × Dinode)
  | 0, off, x => pure (off, x)
  | fuel + 1, off, x =>
    if off < x.size then do
      match ← readi sb x off DIRENT_SIZE with
      | (some (16, de), x) =>
        if entryInum de = 0 then pure (off, x)
        else scanEmpty fuel (off + DIRENT_SIZE) x
      | _ => .panic .dirlinkRead
    else pure (off, x)

/-- The entry `dirlink` writes. Of a name of `DIRSIZ` bytes `strncpy` finds
no terminator, and the count it pads by wraps around. -/
def newEntry (name : List UInt8) (inum : Nat) : Option Mem :=
  if DIRSIZ ≤ name.length then none
  else some (blit (writeLe 2 (fun _ => 0) 0 inum) 2 (ofList name) DIRSIZ)

/-- `dirlink` after its test that the name is not present. -/
def addEntry (dp : Nat) (x : Dinode) (name : List UInt8) (inum : Nat) : Prog Dinode := do
  let (off, x) ← scanEmpty sb (x.size / DIRENT_SIZE + 1) 0 x
  match newEntry name inum with
  | none => .panic .overrun
  | some de =>
    match ← writei sb dp x de off DIRENT_SIZE with
    | (some 16, x) => pure x
    | _ => .panic .dirlink

end Proninx.Native
