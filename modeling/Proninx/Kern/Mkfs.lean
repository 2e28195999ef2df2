import Proninx.Kern.Icache

/-!
# `mkfs`

`mkfs.c` builds the image of the boot file system in memory and writes it
out at the end. It has its own versions of `ialloc`, `bmap` and `writei`:
inodes and blocks are handed out in order, from two counters, and the
bitmap is filled in when everything else is there.

The program works on `struct dinode` and `struct dirent` as they lie in
memory; here both are byte memories that start at address 0.
-/

namespace Proninx.Mkfs

open ByteMem Native

/-! ## Layout -/

def FSSIZE : Nat := 4096
def NINODES : Nat := 200

def nbitmap : Nat := FSSIZE / (BSIZE * 8) + 1
def ninodeblocks : Nat := NINODES / IPB + 1
def nlog : Nat := LOGSIZE
def nmeta : Nat := 2 + nlog + ninodeblocks + nbitmap

/-- The fields of `sb` that the kernel uses. -/
def sb : Superblock := ⟨FSSIZE, NINODES, 2 + nlog, 2 + nlog + ninodeblocks⟩

/-- Block 1 of the image. -/
def superblock : Block :=
  let buf := writeLe 4 (fun _ => 0) 0 FSSIZE
  let buf := writeLe 4 buf 4 (FSSIZE - nmeta)
  let buf := writeLe 4 buf 8 NINODES
  let buf := writeLe 4 buf 12 nlog
  let buf := writeLe 4 buf 16 2
  let buf := writeLe 4 buf 20 (2 + nlog)
  writeLe 4 buf 24 (2 + nlog + ninodeblocks)

/-- `readsb` of the kernel, of block 1. -/
def readsb (data : Block) : Superblock :=
  ⟨readLe 4 data 0, readLe 4 data 8, readLe 4 data 20, readLe 4 data 24⟩

/-! ## State -/

/-- How the program ends early: a sector out of range, an assertion, or a
file that cannot be opened. -/
inductive Exit
  | sector
  | assertion
  | openFailed
  deriving DecidableEq, Repr

/-- The counters do not wrap: a block past the image is refused by `rsect`
when it is first used, and so is the block of an inode. -/
structure State where
  image : Disk
  freeinode : Nat
  freeblock : Nat

abbrev Make := StateT State (Except Exit)

def rsect (sec : Nat) : Make Block := do
  let s ← get
  if FSSIZE ≤ sec then throw .sector else pure (s.image sec)

def wsect (sec : Nat) (buf : Block) : Make Unit := do
  let s ← get
  if FSSIZE ≤ sec then throw .sector else set { s with image := s.image.set sec buf }

/-! ## Inodes -/

def rinode (inum : Nat) : Make Mem := do
  let buf ← rsect (iblock sb inum)
  pure (shift buf (dinodeOffset inum))

def winode (inum : Nat) (din : Mem) : Make Unit := do
  let buf ← rsect (iblock sb inum)
  wsect (iblock sb inum) (blit buf (dinodeOffset inum) din DINODE_SIZE)

def newDinode (type : Nat) : Mem :=
  let din := writeLe 2 (fun _ => 0) 0 type
  let din := writeLe 2 din 6 1
  writeLe 2 din 20 (if type = Fs.T_DIR then 0o755 else 0o555)

def ialloc (type : Nat) : Make Nat := do
  let s ← get
  let inum := s.freeinode
  set { s with freeinode := inum + 1 }
  winode inum (newDinode type)
  pure inum

/-! ## `iappend` -/

/-- `freeblock++` -/
def nextBlock : Make Nat := do
  let s ← get
  set { s with freeblock := s.freeblock + 1 }
  pure s.freeblock

/-- `addrs[i]`, filled in if it is zero. -/
def direct (din : Mem) (i : Nat) : Make (Nat × Mem) :=
  if readLe 4 din (24 + i * 4) = 0 then do
    let x ← nextBlock
    pure (x, writeLe 4 din (24 + i * 4) x)
  else pure (readLe 4 din (24 + i * 4), din)

/-- Entry `i` of the indirect block `b`, filled in if it is zero. -/
def indirect (b i : Nat) : Make Nat := do
  let data ← rsect b
  if readLe 4 data (i * 4) = 0 then do
    let x ← nextBlock
    wsect b (writeLe 4 data (i * 4) x)
    pure x
  else pure (readLe 4 data (i * 4))

def blockOf (din : Mem) (fbn : Nat) : Make (Nat × Mem) :=
  if fbn < NDIRECT then direct din fbn
  else if fbn < NDIRECT + NINDIRECT then do
    let (b, din) ← direct din NDIRECT
    let x ← indirect b (fbn - NDIRECT)
    pure (x, din)
  else do
    let dfbn := fbn - NDIRECT - NINDIRECT
    let (b, din) ← direct din (NDIRECT + 1)
    let b ← indirect b (dfbn / NINDIRECT)
    let x ← indirect b (dfbn % NINDIRECT)
    pure (x, din)

/-- The loop of `iappend`; a turn takes a byte at least. -/
def appendBlocks : (fuel n off : Nat) → (p din : Mem) → Make (Nat × Mem)
  | 0, _, off, _, din => pure (off, din)
  | fuel + 1, n, off, p, din =>
    if 0 < n then
      if MAXFILE ≤ off / BSIZE then throw .assertion
      else do
        let (x, din) ← blockOf din (off / BSIZE)
        let n1 := min n ((off / BSIZE + 1) * BSIZE - off)
        let buf ← rsect x
        wsect x (blit buf (off - off / BSIZE * BSIZE) p n1)
        appendBlocks fuel (n - n1) (off + n1) (shift p n1) din
    else pure (off, din)

def iappend (inum : Nat) (xp : Mem) (n : Nat) : Make Unit := do
  let din ← rinode inum
  let (off, din) ← appendBlocks n n (readLe 4 din 8) xp din
  winode inum (writeLe 4 din 8 off)

/-! ## Directories -/

/-- A `struct dirent`, of the first `DIRSIZ` bytes of the name. -/
def dirent (inum : Nat) (name : List UInt8) : Mem :=
  blit (writeLe 2 (fun _ => 0) 0 inum) 2 (ofList name) DIRSIZ

def enter (dir inum : Nat) (name : List UInt8) : Make Unit :=
  iappend dir (dirent inum name) DIRENT_SIZE

def mkdirInode (parent : Nat) (name : List UInt8) : Make Nat := do
  let inum ← ialloc Fs.T_DIR
  enter inum inum (ascii ".")
  enter inum parent (ascii "..")
  enter parent inum name
  pure inum

/-! ## `main` -/

def bitmap : Nat → Block
  | 0 => fun _ => 0
  | n + 1 => setBit (bitmap n) n

def balloc (used : Nat) : Make Unit :=
  if used < BSIZE * 8 then wsect sb.bmapstart (bitmap used) else throw .assertion

/-- A file on the command line, with what each `read` returns. -/
structure Input where
  path : List UInt8
  reads : Option (List (List UInt8))

/-- What follows the last slash. -/
def Input.name (f : Input) : List UInt8 := (f.path.reverse.takeWhile (· ≠ 47)).reverse

def appendAll (inum : Nat) : List (List UInt8) → Make Unit
  | [] => pure ()
  | c :: cs => do
    iappend inum (ofList c) c.length
    appendAll inum cs

def addFile (binino : Nat) (f : Input) : Make Unit :=
  match f.reads with
  | none => throw .openFailed
  | some reads => do
    let inum ← ialloc Fs.T_FILE
    enter binino inum f.name
    appendAll inum reads

def addFiles (binino : Nat) : List Input → Make Unit
  | [] => pure ()
  | f :: fs => do
    addFile binino f
    addFiles binino fs

/-- The directories and the empty password file; the inode of `/usr/bin`. -/
def skeleton : Make Nat := do
  wsect 1 superblock
  let rootino ← ialloc Fs.T_DIR
  if rootino ≠ Fs.ROOTINO then throw .assertion
  else do
    enter rootino rootino (ascii ".")
    enter rootino rootino (ascii "..")
    let usrino ← mkdirInode rootino (ascii "usr")
    let binino ← mkdirInode usrino (ascii "bin")
    let etcino ← mkdirInode rootino (ascii "etc")
    let inum ← ialloc Fs.T_FILE
    enter etcino inum (ascii "passwd")
    pure binino

/-- The size of the root directory is rounded up. -/
def fixRoot : Make Unit := do
  let din ← rinode Fs.ROOTINO
  winode Fs.ROOTINO (writeLe 4 din 8 ((readLe 4 din 8 / BSIZE + 1) * BSIZE))

def main (files : List Input) : Make Unit := do
  let binino ← skeleton
  addFiles binino files
  fixRoot
  let s ← get
  balloc s.freeblock

/-- The image, if the program exits with status 0. -/
def mkfs (files : List Input) : Except Exit State :=
  ((main files).run ⟨fun _ _ => 0, 1, nmeta⟩).map Prod.snd

end Proninx.Mkfs
