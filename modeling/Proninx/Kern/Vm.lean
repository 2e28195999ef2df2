import Proninx.Lib.Bytes
import Proninx.Lib.RadixTree

/-!
# User address spaces

The page allocator (`kalloc.c`) and the part of `vm.c` that builds, grows,
shrinks, copies and frees the user half of a page table. A page table is a
radix tree of four levels: the frames of its tables are the tags of its
nodes, and a leaf is an entry of the lowest level with `PTE_P` set. The
kernel half is shared by all page tables and never changes; it is not in
the tree, and a loop that reaches it ends in `kernelHalf`, which says
nothing about the code.

Addresses are numbers below `2 ^ 64`, page number `a` is the address
`a * PGSIZE`, and an `int` result is its 32 bits.
-/

namespace Proninx.Vm

def PGSIZE : Nat := 4096

def NPTENTRIES : Nat := 512

instance : NeZero NPTENTRIES := ⟨by decide⟩

def DMAP_BASE : Nat := 0xffff800000000000

def KERNBASE : Nat := 0xffffffff80000000

/-- The pages of the user half. -/
def UPAGES : Nat := NPTENTRIES ^ 4 / 2

def pgroundup (x : Nat) : Nat := (x + PGSIZE - 1) % 2 ^ 64 / PGSIZE * PGSIZE

/-- The number of pages that start below an address. -/
def pages (x : Nat) : Nat := (x + PGSIZE - 1) / PGSIZE

/-- A physical page that `kfree` takes. It lies above the kernel image, so
it is not page 0. -/
structure Frame where
  number : Nat
  pos : 0 < number
  deriving DecidableEq, Repr

structure Pte where
  frame : Frame
  writable : Bool
  user : Bool
  deriving DecidableEq, Repr

/-- A page table. `empty` is the null pointer. -/
abbrev Pgdir := Radix.Tree NPTENTRIES Frame Pte 4

inductive Panic where
  | remap
  | freevmNoPgdir
  | loaduvmNoAddress
  | copyuvmNoPte
  | copyuvmNotPresent
  | clearpteu
  | inituvmTooBig
  | inituvmNoMemory
  | userinitNoMemory
  | kernelHalf
  /-- The code writes physical page 0. -/
  | pageZero
  deriving DecidableEq, Repr

/-! ## The page allocator -/

/-- `kmem` and the contents of the pages that are not tables. -/
structure Kmem where
  freelist : List Frame
  page : Frame → ByteMem.Mem

def Frame.addr (f : Frame) : Nat := DMAP_BASE + f.number * PGSIZE

def Kmem.write (m : Kmem) (f : Frame) (bytes : ByteMem.Mem) : Kmem :=
  { m with page := Function.update m.page f bytes }

def Kmem.kfree (m : Kmem) (f : Frame) : Kmem :=
  let link := (m.freelist.head?.map Frame.addr).getD 0
  { m.write f (ByteMem.writeLe 8 (m.page f) 0 link) with freelist := f :: m.freelist }

def Kmem.kalloc (m : Kmem) : Option (Frame × Kmem) :=
  match m.freelist with
  | [] => none
  | f :: rest => some (f, { m with freelist := rest })

/-- `memset(mem, 0, PGSIZE)` -/
def Kmem.clear (m : Kmem) (f : Frame) : Kmem :=
  m.write f (ByteMem.fill (m.page f) 0 0 PGSIZE)

/-! ## Page tables -/

/-- A page table with the memory that its pages come from. -/
structure Space where
  kmem : Kmem
  pgdir : Pgdir

def userHalf (a : Nat) : Bool := a % NPTENTRIES ^ 4 < UPAGES

def setupkvm (m : Kmem) : Option Space :=
  m.kalloc.map fun r => ⟨r.2, .node r.1 fun _ => .empty⟩

/-- `mappages` for the one page that its callers map; `false` is -1. -/
def Space.mappages (s : Space) (a : Nat) (pte : Pte) : Except Panic (Space × Bool) :=
  if userHalf a then
    match s.pgdir.insert a pte 4 s.kmem.freelist with
    | (_, _, .occupied) => .error .remap
    | (t, free, out) => .ok (⟨{ s.kmem with freelist := free }, t⟩, out == .done)
  else .error .kernelHalf

/-- One turn of the loop of `deallocuvm`. A frame is never page 0, so the
panic of the loop is not one of these. -/
def Space.freePage (s : Space) (a : Nat) : Space :=
  match s.pgdir.get a with
  | none => s
  | some pte => ⟨s.kmem.kfree pte.frame, s.pgdir.alter a fun _ => none⟩

/-- The loop of `deallocuvm` over `n` pages from `a` on. -/
def Space.freePages : Nat → Nat → Space → Except Panic Space
  | 0, _, s => .ok s
  | n + 1, a, s => if userHalf a then freePages n (a + 1) (s.freePage a) else .error .kernelHalf

def Space.deallocuvm (s : Space) (oldsz newsz : Nat) : Except Panic (Space × Nat) :=
  if oldsz ≤ newsz then .ok (s, oldsz % 2 ^ 32)
  else do
    let a := pgroundup newsz / PGSIZE
    let s ← s.freePages (pages oldsz - a) a
    return (s, newsz % 2 ^ 32)

/-- The loop of `allocuvm` over `n` pages from `a` on. On failure it gives
back what lies between `oldsz` and `newsz`. -/
def Space.allocPages (oldsz newsz : Nat) : Nat → Nat → Space → Except Panic (Space × Bool)
  | 0, _, s => .ok (s, true)
  | n + 1, a, s =>
    match s.kmem.kalloc with
    | none => do
      let r ← s.deallocuvm newsz oldsz
      return (r.1, false)
    | some (mem, kmem) => do
      let r ← ({ s with kmem := kmem.clear mem } : Space).mappages a ⟨mem, true, true⟩
      if r.2 then allocPages oldsz newsz n (a + 1) r.1
      else
        let r ← r.1.deallocuvm newsz oldsz
        return ({ r.1 with kmem := r.1.kmem.kfree mem }, false)

def Space.allocuvm (s : Space) (oldsz newsz : Nat) : Except Panic (Space × Nat) :=
  if KERNBASE ≤ newsz then .ok (s, 0)
  else if newsz < oldsz then .ok (s, oldsz % 2 ^ 32)
  else do
    let a := pgroundup oldsz / PGSIZE
    let r ← s.allocPages oldsz newsz (pages newsz - a) a
    return (r.1, if r.2 then newsz % 2 ^ 32 else 0)

/-- The tables of the user half, each after those below it, then the top. -/
def Space.freeTables (s : Space) : Kmem := s.pgdir.tags.foldl Kmem.kfree s.kmem

def Space.freevm (s : Space) (utop : Nat) : Except Panic Kmem :=
  match s.pgdir with
  | .empty => .error .freevmNoPgdir
  | _ => do
    let r ← s.deallocuvm utop 0
    return r.1.freeTables

/-- The loop of `copyuvm` over `n` pages from `a` on; `s` has the copy. -/
def copyPages (parent : Pgdir) : Nat → Nat → Space → Except Panic (Space × Bool)
  | 0, _, s => .ok (s, true)
  | n + 1, a, s =>
    if userHalf a then
      match parent.slot a with
      | none => .error .copyuvmNoPte
      | some none => .error .copyuvmNotPresent
      | some (some pte) =>
        match s.kmem.kalloc with
        | none => .ok (s, false)
        | some (mem, kmem) => do
          let kmem := kmem.write mem (kmem.page pte.frame)
          let r ← ({ s with kmem := kmem } : Space).mappages a { pte with frame := mem }
          if r.2 then copyPages parent n (a + 1) r.1
          else return ({ r.1 with kmem := r.1.kmem.kfree mem }, false)
    else .error .kernelHalf

/-- `copyuvm` with the page table it returns, `empty` being the null pointer. -/
def copyuvm (m : Kmem) (parent : Pgdir) (sz : Nat) : Except Panic (Kmem × Pgdir) :=
  match setupkvm m with
  | none => .ok (m, .empty)
  | some s => do
    let r ← copyPages parent (pages sz) 0 s
    if r.2 then return (r.1.kmem, r.1.pgdir)
    else
      let m ← r.1.freevm sz
      return (m, .empty)

def Space.clearpteu (s : Space) (uva : Nat) : Except Panic Space :=
  if userHalf (uva / PGSIZE) then
    match s.pgdir.slot (uva / PGSIZE) with
    | none => .error .clearpteu
    | some _ => .ok { s with
        pgdir := s.pgdir.alter (uva / PGSIZE) fun pte => some { pte with user := false } }
  else .error .kernelHalf

/-- `uva2ka`, as the page. No page of the kernel half has `PTE_U`. -/
def Space.uva2ka (s : Space) (uva : Nat) : Option Frame :=
  if userHalf (uva / PGSIZE) then
    match s.pgdir.get (uva / PGSIZE) with
    | none => none
    | some pte => if pte.user then some pte.frame else none
  else none

/-- `memmove` of bytes into a page at `off`. -/
def Kmem.store (m : Kmem) (f : Frame) (off : Nat) (bytes : List UInt8) : Kmem :=
  m.write f (ByteMem.blit (m.page f) off (ByteMem.ofList bytes) bytes.length)

/-- The loop of `copyout`, a turn for each page. Every turn copies a byte, so
there are no more turns than bytes. -/
def Space.copyParts : Nat → Nat → List UInt8 → Space → Space × Bool
  | 0, _, _, s => (s, true)
  | turns + 1, va, bytes, s =>
    if bytes = [] then (s, true)
    else
      match s.uva2ka va with
      | none => (s, false)
      | some f =>
        let n := PGSIZE - va % PGSIZE
        copyParts turns ((va / PGSIZE * PGSIZE + PGSIZE) % 2 ^ 64) (bytes.drop n)
          { s with kmem := s.kmem.store f (va % PGSIZE) (bytes.take n) }

/-- `copyout`; `false` is -1. -/
def Space.copyout (s : Space) (va : Nat) (bytes : List UInt8) : Space × Bool :=
  Space.copyParts bytes.length va bytes s

end Proninx.Vm
