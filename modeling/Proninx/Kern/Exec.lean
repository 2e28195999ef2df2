import Proninx.Kern.VmSpace

/-!
# exec

`exec` (`exec.c`) on the memory of one process. The file is what the reads
of `exec` return: each read is made at most once, so a read that fails at
any point is a value of `Image.readi`. The calls of the file system around
them change nothing here.
-/

namespace Proninx.Vm

open ByteMem

def ELF_MAGIC : Nat := 0x464C457F

def ELF_PROG_LOAD : Nat := 1

def MAXARG : Nat := 32

/-- The reads that `exec` makes: the ELF header, program header `i`, and the
piece at offset `j` of segment `i`. -/
inductive Read where
  | elfhdr
  | proghdr (i : Nat)
  | segment (i j : Nat)
  deriving DecidableEq, Repr

structure Image where
  /-- `namei` finds the file. -/
  found : Bool
  /-- `inode_access` lets the user execute it. -/
  executable : Bool
  /-- What `readi` puts in place of `n` bytes at `off`, `n` bytes at most. It
  has failed if they are fewer. -/
  readi : Read → (off n : Nat) → List UInt8

/-- `readi` with an offset that is a `uint`. -/
def Image.bytes (img : Image) (r : Read) (off n : Nat) : List UInt8 :=
  (img.readi r (off % 2 ^ 32) n).take n

def Image.fetch (img : Image) (r : Read) (off n : Nat) : Option Mem :=
  if (img.bytes r off n).length = n then some (ofList (img.bytes r off n)) else none

structure Elfhdr where
  magic : Nat
  entry : Nat
  phoff : Nat
  phnum : Nat

structure Proghdr where
  type : Nat
  off : Nat
  vaddr : Nat
  filesz : Nat
  memsz : Nat

def Image.elfhdr (img : Image) : Option Elfhdr :=
  (img.fetch .elfhdr 0 64).map fun b =>
    { magic := readLe 4 b 0
      entry := readLe 8 b 24
      phoff := readLe 8 b 32
      phnum := readLe 2 b 56 }

/-- Program header `i`, at `off = phoff + i * sizeof(ph)` in 64 bits. -/
def Image.proghdr (img : Image) (elf : Elfhdr) (i : Nat) : Option Proghdr :=
  (img.fetch (.proghdr i) ((elf.phoff + i * 56) % 2 ^ 64) 56).map fun b =>
    { type := readLe 4 b 0
      off := readLe 8 b 8
      vaddr := readLe 8 b 16
      filesz := readLe 8 b 32
      memsz := readLe 8 b 40 }

/-! ## Loading a segment -/

/-- The size of the piece at offset `i` of a segment. -/
def piece (vaddr filesz i : Nat) : Nat := min (PGSIZE - (vaddr + i) % PGSIZE) (filesz - i)

/-- The loop of `loaduvm`. Every turn reads a byte or more, so there are no
more turns than bytes. -/
def Space.loadPieces (img : Image) (seg : Nat) (ph : Proghdr) :
    Nat → Nat → Space → Except Panic (Space × Bool)
  | 0, _, s => .ok (s, true)
  | turns + 1, i, s =>
    if i < ph.filesz then
      let va := (ph.vaddr + i) % 2 ^ 64
      let n := piece ph.vaddr ph.filesz i
      if userHalf (va / PGSIZE) then
        match s.pgdir.slot (va / PGSIZE) with
        | none => .error .loaduvmNoAddress
        | some none => .error .pageZero
        | some (some pte) =>
          let b := img.bytes (.segment seg i) (ph.off % 2 ^ 32 + i) n
          let s := { s with kmem := s.kmem.store pte.frame (va % PGSIZE) b }
          if b.length = n then loadPieces img seg ph turns (i + n) s else .ok (s, false)
      else .error .kernelHalf
    else .ok (s, true)

/-- `loaduvm`; `false` is -1. -/
def Space.loaduvm (img : Image) (seg : Nat) (ph : Proghdr) (s : Space) :
    Except Panic (Space × Bool) :=
  Space.loadPieces img seg ph ph.filesz 0 s

/-- An `int` as a `size_t`. -/
def signExtend (r : Nat) : Nat := if r < 2 ^ 31 then r else r + (2 ^ 64 - 2 ^ 32)

/-- The loop of `exec` over the program headers from `i` on: the size it ends
with, and `false` for `goto bad`. -/
def loadSegments (img : Image) (elf : Elfhdr) :
    Nat → Nat → Space → Nat → Except Panic (Space × Nat × Bool)
  | 0, _, s, sz => .ok (s, sz, true)
  | n + 1, i, s, sz =>
    match img.proghdr elf i with
    | none => .ok (s, sz, false)
    | some ph =>
      if ph.type ≠ ELF_PROG_LOAD then loadSegments img elf n (i + 1) s sz
      else if ph.memsz < ph.filesz then .ok (s, sz, false)
      else if (ph.vaddr + ph.memsz) % 2 ^ 64 < ph.vaddr then .ok (s, sz, false)
      else do
        let r ← s.allocuvm sz ((ph.vaddr + ph.memsz) % 2 ^ 64)
        let sz := signExtend r.2
        if sz = 0 then return (r.1, 0, false)
        let r ← r.1.loaduvm img i ph
        if r.2 then loadSegments img elf n (i + 1) r.1 sz else return (r.1, sz, false)

/-! ## The stack -/

/-- A `uint64_t` in memory. -/
def le64 (v : Nat) : List UInt8 := (List.range 8).map fun i => UInt8.ofNat (v / 256 ^ i)

/-- `x - y` on a `uintptr_t`. -/
def minus (x y : Nat) : Nat := (2 ^ 64 - y % 2 ^ 64 + x) % 2 ^ 64

/-- The loop over `argv`: `sp` and the pointers of the strings pushed so far. -/
def pushArgs : List (List UInt8) → Nat → List Nat → Space → Space × Option (Nat × List Nat)
  | [], sp, ustack, s => (s, some (sp, ustack))
  | arg :: argv, sp, ustack, s =>
    if MAXARG ≤ ustack.length then (s, none)
    else
      let sp := minus sp (arg.length + 1) / 8 * 8
      let r := s.copyout sp (arg ++ [0])
      if r.2 then pushArgs argv sp (ustack ++ [sp]) r.1 else (r.1, none)

/-- `ustack`, with a fake return address. -/
def stackWords (sp : Nat) (ustack : List Nat) : List Nat :=
  [0xffffffffffffffff, ustack.length, minus sp ((ustack.length + 1) * 8)] ++ ustack ++ [0]

/-- The strings, then the words under them; `none` for `goto bad`. -/
def pushStack (argv : List (List UInt8)) (sz : Nat) (s : Space) : Space × Option Nat :=
  match pushArgs argv sz [] s with
  | (s, none) => (s, none)
  | (s, some (sp, ustack)) =>
    let words := stackWords sp ustack
    let sp := minus sp (words.length * 8)
    let r := s.copyout sp (words.flatMap le64)
    (r.1, if r.2 then some sp else none)

/-! ## The call -/

/-- The parts of `struct proc` that `exec`, `fork` and `sbrk` use. -/
structure Proc where
  pgdir : Pgdir
  sz : Nat
  kstack : Frame
  rip : Nat
  rsp : Nat
  rax : Nat
  name : List UInt8

def lastName : List UInt8 → List UInt8 → List UInt8
  | last, [] => last
  | last, c :: path => if c = 47 then lastName path path else lastName last path

/-- `bad:` with a page table. -/
def bad (p : Proc) (s : Space) (sz : Nat) : Except Panic (Kmem × Proc × Bool) := do
  let m ← s.freevm sz
  return (m, p, false)

/-- The contents of the stack, then the new image. -/
def commit (path : List UInt8) (argv : List (List UInt8)) (elf : Elfhdr) (p : Proc) (s : Space)
    (sz : Nat) : Except Panic (Kmem × Proc × Bool) :=
  match pushStack argv sz s with
  | (s, none) => bad p s sz
  | (s, some sp) => do
    let m ← (⟨s.kmem, p.pgdir⟩ : Space).freevm p.sz
    return (m, { p with
      pgdir := s.pgdir
      sz := sz
      rip := elf.entry
      rsp := sp
      name := (lastName path path).take 15 }, true)

/-- From the loaded segments on: the two pages of the stack, the lower of
which the user cannot use. -/
def growStack (path : List UInt8) (argv : List (List UInt8)) (elf : Elfhdr) (p : Proc) (s : Space)
    (sz : Nat) : Except Panic (Kmem × Proc × Bool) := do
  let r ← s.allocuvm (pgroundup sz) ((pgroundup sz + 2 * PGSIZE) % 2 ^ 64)
  let sz := signExtend r.2
  if sz = 0 then bad p r.1 0
  else
    let s ← r.1.clearpteu (minus sz (2 * PGSIZE))
    commit path argv elf p s sz

/-- `exec`; `true` is 0 and `false` is -1. -/
def exec (img : Image) (path : List UInt8) (argv : List (List UInt8)) (m : Kmem) (p : Proc) :
    Except Panic (Kmem × Proc × Bool) :=
  if !img.found then .ok (m, p, false)
  else if !img.executable then .ok (m, p, false)
  else
    match img.elfhdr with
    | none => .ok (m, p, false)
    | some elf =>
      if elf.magic ≠ ELF_MAGIC then .ok (m, p, false)
      else
        match setupkvm m with
        | none => .ok (m, p, false)
        | some s => do
          let r ← loadSegments img elf elf.phnum 0 s 0
          if r.2.2 then growStack path argv elf p r.1 r.2.1 else bad p r.1 r.2.1

end Proninx.Vm
