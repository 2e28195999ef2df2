import Proninx.Kern.Memlayout
import Proninx.Kern.Prog
import Proninx.Kern.Storage.Buf

/-!
# NVMe block transfers

What `nvmerw` asks of the device, what the device then moves where, and
what `nvme_size` says of it. The device counts in logical blocks of the
size that the identify data give, and finds the memory by its PRP rules:
from the first entry to the end of the page, then, where two pages are
enough, from the second entry on, otherwise through the list of pages
there.
-/

namespace Proninx.Storage

open Function List Option Vm

def NVME_SECTOR_SIZE : Nat := 512

def NVME_MAX_NAMESPACES : Nat := 8

/-- What `nvme_attach_device` reads of the identify data: the size of the
namespace in logical blocks, the format in use, and the exponent of the
block size of each format. -/
structure Identify where
  nsze : UInt64
  flbas : UInt8
  lbads : Nat → UInt8

/-- The exponent of the block size in use, 9 where none is given. -/
def Identify.shift (id : Identify) : Nat :=
  let lbads := (id.lbads (id.flbas.toNat % 16)).toNat
  if lbads = 0 then 9 else lbads

def Identify.blockBytes (id : Identify) : Nat := 2 ^ id.shift

structure Namespace where
  sectorCount : Nat
  sectorSize : Nat
  present : Bool
  nsid : Nat
  deriving DecidableEq, Repr

structure Nvme where
  namespaces : Nat → Namespace
  initialized : Bool

def nvmeAttach (id : Identify) : Nvme where
  namespaces := update (fun _ => ⟨0, 0, false, 0⟩) 0
    ⟨id.nsze.toNat, id.blockBytes % 2 ^ 32, 0 < id.nsze.toNat, 1⟩
  initialized := true

def nvmeSize (s : Nvme) (ns : Nat) : Nat :=
  if s.initialized = false ∨ ns ≥ NVME_MAX_NAMESPACES then 0
  else if (s.namespaces ns).present then (s.namespaces ns).sectorCount else 0

/-- The fields of `struct nvme_sqe` that are not zero. -/
structure NvmeCommand where
  write : Bool
  nsid : Nat
  prp1 : Nat
  prp2 : Nat
  cdw10 : Nat
  cdw11 : Nat
  cdw12 : Nat
  deriving DecidableEq, Repr

def nvmeCommand (s : Nvme) (write : Bool) (ns lba count va : Nat) : Option NvmeCommand :=
  if s.initialized = false ∨ ns ≥ NVME_MAX_NAMESPACES ∨ (s.namespaces ns).present = false then none
  else some
    { write := write
      nsid := (s.namespaces ns).nsid
      prp1 := v2p va
      prp2 := 0
      cdw10 := lba % 2 ^ 32
      cdw11 := lba / 2 ^ 32 % 2 ^ 32
      cdw12 := count - 1 }

def nsFor (dev : UInt32) : Nat := if dev.toNat ≥ 20 then dev.toNat - 20 else dev.toNat

/-- The command that `nvmerw` submits for a buffer with its data at `va`;
`none` is a panic. -/
def nvmerwCommand (s : Nvme) (b : Hdr) (va : Nat) : Option NvmeCommand :=
  let ns := nsFor b.dev
  if ns ≥ NVME_MAX_NAMESPACES ∨ (s.namespaces ns).present = false then none
  else
    let sectorsPerBlock := BSIZE / NVME_SECTOR_SIZE
    nvmeCommand s b.dirty ns (b.blockno.toNat * sectorsPerBlock) sectorsPerBlock va

/-- `nvmerw`; the command succeeds or not, and a failure is a panic. -/
def nvmerw (s : Nvme) (submit : NvmeCommand → Bool) (b : Hdr) (va : Nat) : Option Hdr :=
  match nvmerwCommand s b va with
  | none => none
  | some cmd =>
    if submit cmd then some (if b.dirty then { b with dirty := false } else { b with valid := true })
    else none

/-! ## What the device moves -/

/-- The bytes of a command's data. -/
def transferBytes (id : Identify) (c : NvmeCommand) : Nat := (c.cdw12 + 1) * id.blockBytes

/-- Where byte `i` of the data is in memory; `entry list k` is the page in
entry `k` of a PRP list. -/
def prpAddr (entry : Nat → Nat → Nat) (c : NvmeCommand) (bytes i : Nat) : Nat :=
  let j := c.prp1 % PGSIZE + i
  if j < PGSIZE then c.prp1 + i
  else if c.prp1 % PGSIZE + bytes ≤ 2 * PGSIZE then c.prp2 + (j - PGSIZE)
  else entry c.prp2 (j / PGSIZE - 1) + j % PGSIZE

/-- The device's bytes that are moved, each with its place in memory. -/
def moved (id : Identify) (entry : Nat → Nat → Nat) (c : NvmeCommand) : List (Nat × Nat) :=
  let lba := c.cdw10 + 2 ^ 32 * c.cdw11
  let bytes := transferBytes id c
  (List.range bytes).map fun i => (lba * id.blockBytes + i, prpAddr entry c bytes i)

/-- The bytes of a block, each with its place in a buffer at `va`. -/
def blockMoved (block va : Nat) : List (Nat × Nat) :=
  (List.range BSIZE).map fun i => (BSIZE * block + i, v2p (va + i))

lemma nvmerwCommand_attach {id : Identify} (hnsze : id.nsze ≠ 0) {b : Hdr}
    (hdev : nsFor b.dev = 0) (va : Nat) :
    nvmerwCommand (nvmeAttach id) b va = some ⟨b.dirty, 1, v2p va, 0, b.blockno.toNat, 0, 0⟩ := by
  have hpos : 0 < id.nsze.toNat := by
    rw [Nat.pos_iff_ne_zero]
    exact fun hzero => hnsze (UInt64.toNat_inj.mp hzero)
  have hlt := b.blockno.toNat_lt
  simp only [nvmerwCommand, nvmeCommand, nvmeAttach, hdev, update_self, hpos, decide_true,
    Bool.true_eq_false, or_false]
  rw [if_neg (by decide), if_neg (by decide), show BSIZE / NVME_SECTOR_SIZE = 1 from rfl,
    mul_one, Nat.mod_eq_of_lt hlt, Nat.div_eq_of_lt hlt]
  rfl

lemma nvmeSize_attach {id : Identify} : nvmeSize (nvmeAttach id) 0 = id.nsze.toNat := by
  simp only [nvmeSize, nvmeAttach, update_self]
  rw [if_neg (by decide)]
  split_ifs with hpos
  · rfl
  · simpa [eq_comm] using hpos

section

variable {id : Identify} {entry : Nat → Nat → Nat} {write : Bool} {block va : Nat}

lemma moved_eq (hbytes : id.blockBytes = BSIZE) (hva : InKernel va BSIZE)
    (hpage : v2p va % PGSIZE + BSIZE ≤ PGSIZE) :
    moved id entry ⟨write, 1, v2p va, 0, block, 0, 0⟩ = blockMoved block va := by
  simp only [moved, transferBytes, hbytes, mul_zero, add_zero, zero_add, one_mul]
  refine map_congr_left fun i hi => ?_
  have hi : i < BSIZE := mem_range.mp hi
  rw [prpAddr, if_pos (by dsimp only; omega), hva.v2p_add hi, mul_comm]

lemma blockBytes_of_moved
    (h : moved id entry ⟨write, 1, v2p va, 0, block, 0, 0⟩ = blockMoved block va) :
    id.blockBytes = BSIZE := by
  have hlen := congrArg List.length h
  simpa only [moved, blockMoved, transferBytes, length_map, length_range, zero_add,
    one_mul] using hlen

/-- What does not fit into the page goes to the second PRP entry, which is
zero. -/
lemma onePage_of_moved (hva : InKernel va BSIZE)
    (h : moved id entry ⟨write, 1, v2p va, 0, block, 0, 0⟩ = blockMoved block va) :
    v2p va % PGSIZE + BSIZE ≤ PGSIZE := by
  have hbytes := blockBytes_of_moved h
  by_contra hcross
  have hmod := Nat.mod_lt (v2p va) (show 0 < PGSIZE by decide)
  obtain ⟨i, hi⟩ : ∃ i, v2p va % PGSIZE + i = PGSIZE := ⟨_, Nat.add_sub_cancel' hmod.le⟩
  have hlt : i < BSIZE := by omega
  have hget := congrArg (fun l => l[i]?) h
  simp only [moved, blockMoved, transferBytes, hbytes, List.getElem?_map, zero_add, one_mul,
    List.getElem?_range hlt, map_some, some.injEq, Prod.mk.injEq] at hget
  have hpage : prpAddr entry ⟨write, 1, v2p va, 0, block, 0, 0⟩ BSIZE i = 0 := by
    rw [prpAddr, if_neg (by dsimp only; omega),
      if_pos (by dsimp only; unfold PGSIZE BSIZE at *; omega)]
    dsimp only
    omega
  rw [hpage, hva.v2p_add hlt] at hget
  omega

end

lemma blockBytes_eq_iff {id : Identify} : id.blockBytes = BSIZE ↔ id.shift = 9 :=
  ⟨fun h => Nat.pow_right_injective le_rfl h, fun h => by rw [Identify.blockBytes, h]; rfl⟩

/-- `nvmerw` moves the block to or from its buffer, and `nvme_size` counts
in blocks of 512 bytes, exactly when the device's own blocks have 512 bytes
and the buffer's data do not cross a page. -/
theorem transfer_exact_iff (id : Identify) (hnsze : id.nsze ≠ 0) (b : Hdr) (hdev : nsFor b.dev = 0)
    (va : Nat) (hva : InKernel va BSIZE) (entry : Nat → Nat → Nat) :
    ((∃ c, nvmerwCommand (nvmeAttach id) b va = some c ∧ c.write = b.dirty ∧
        moved id entry c = blockMoved b.blockno.toNat va) ∧
      nvmeSize (nvmeAttach id) 0 = id.nsze.toNat * id.blockBytes / BSIZE) ↔
      id.shift = 9 ∧ v2p va % PGSIZE + BSIZE ≤ PGSIZE := by
  rw [nvmerwCommand_attach hnsze hdev, nvmeSize_attach, ← blockBytes_eq_iff]
  constructor
  · rintro ⟨⟨c, hc, -, hmoved⟩, -⟩
    obtain rfl := some.inj hc
    exact ⟨blockBytes_of_moved hmoved, onePage_of_moved hva hmoved⟩
  rintro ⟨hbytes, hpage⟩
  refine ⟨⟨_, rfl, rfl, moved_eq hbytes hva hpage⟩, ?_⟩
  rw [hbytes, Nat.mul_div_cancel _ (show 0 < BSIZE by decide)]

/-- A device with blocks of 512 bytes, and a buffer in one page. -/
theorem transfer_exact_one :
    ((∃ c, nvmerwCommand (nvmeAttach ⟨1000, 0, fun _ => 9⟩) ⟨false, false, 20, 5⟩
          (KERNBASE + 2 ^ 20) = some c ∧ c.write = false ∧
        moved ⟨1000, 0, fun _ => 9⟩ (fun _ _ => 0) c = blockMoved 5 (KERNBASE + 2 ^ 20)) ∧
      nvmeSize (nvmeAttach ⟨1000, 0, fun _ => 9⟩) 0 =
        1000 * Identify.blockBytes ⟨1000, 0, fun _ => 9⟩ / BSIZE) :=
  (transfer_exact_iff ⟨1000, 0, fun _ => 9⟩ (by decide) ⟨false, false, 20, 5⟩ rfl
    (KERNBASE + 2 ^ 20) (inKernel_image (by decide)) fun _ _ => 0).mpr ⟨by decide, by decide⟩

/-- A device with blocks of 4096 bytes and a buffer in one page, and one
with blocks of 512 bytes and a buffer across two. -/
theorem transfer_inexact :
    (¬ ∃ c, nvmerwCommand (nvmeAttach ⟨1000, 0, fun _ => 12⟩) ⟨false, false, 20, 5⟩
          (KERNBASE + 2 ^ 20) = some c ∧
        moved ⟨1000, 0, fun _ => 12⟩ (fun _ _ => 0) c = blockMoved 5 (KERNBASE + 2 ^ 20)) ∧
      nvmeSize (nvmeAttach ⟨1000, 0, fun _ => 12⟩) 0 ≠
        1000 * Identify.blockBytes ⟨1000, 0, fun _ => 12⟩ / BSIZE ∧
      ¬ ∃ c, nvmerwCommand (nvmeAttach ⟨1000, 0, fun _ => 9⟩) ⟨false, false, 20, 5⟩
          (KERNBASE + 4000) = some c ∧
        moved ⟨1000, 0, fun _ => 9⟩ (fun _ _ => 0) c = blockMoved 5 (KERNBASE + 4000) := by
  refine ⟨?_, by decide, ?_⟩
  · rintro ⟨c, hc, hmoved⟩
    rw [nvmerwCommand_attach (by decide) rfl] at hc
    obtain rfl := some.inj hc
    exact absurd (blockBytes_of_moved hmoved) (by decide)
  rintro ⟨c, hc, hmoved⟩
  rw [nvmerwCommand_attach (by decide) rfl] at hc
  obtain rfl := some.inj hc
  exact absurd (onePage_of_moved (inKernel_image (by decide)) hmoved) (by decide)

end Proninx.Storage
