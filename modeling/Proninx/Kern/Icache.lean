import Mathlib.Data.List.FinRange
import Proninx.Kern.Native
import Proninx.Kern.Ufs2File
import Proninx.Lib.Stateful

/-!
# The inode cache, slot by slot

`iget`, `ilock` and `iput` of `fs.c` with their fifty slots. A slot that
`iget` recycles keeps what its last tenant left in it until `ilock` fills
it, and each of the branches of `ilock` fills in a different set of
fields: the device branches leave the owner and the mode alone, and so
does a UFS2 inode that cannot be used.

`major` and `minor` share their storage with the UFS2 inode: the slot
holds the member of the union that was written last.
-/

namespace Proninx.Fs

open Function ByteMem Ufs2 Native

/-! ## Parameters (`param.h`, `fs.h`, `file.h`, `inc/stat.h`) -/

def NINODE : Nat := 50
def ROOTDEV : Nat := 28
def ROOTINO : Nat := 1
def T_DIR : Nat := 1
def T_FILE : Nat := 2
def T_DEVICE : Nat := 3
def CONSOLE : Nat := 1
def FNU_STATE : Nat := 2
def FNU_STATE_COMMAND : Nat := 1
def FNU_DATA_DEVICE : Nat := 2
def DEVFS_DEVICE : Nat := 0xfffffff0
def DEVFS_CONSOLE_INO : Nat := 1
def DEVFS_FNU_COMMAND_INO : Nat := 2
def DEVFS_FNU_SERVICES_INO : Nat := 3
def DEVFS_FNU_HEALTH_INO : Nat := 4
def DEVFS_TTY_INO : Nat := 8
def DEVFS_TTY_COUNT : Nat := 4

/-! ## Slots -/

/-- `fs_type`; a FAT32 root is not modelled. -/
inductive FsType where
  | native
  | ufs2
  | devfs
  deriving DecidableEq, Repr

/-- The union of `struct inode`, by the member written last. -/
inductive Payload where
  | native (major minor : Nat) (addrs : Nat → Nat)
  | ufs2 (info : Ufs2.Inode)

namespace Payload

/-- The words of a UFS2 inode where the native member has `addrs`; the
padding before its size reads as zero. -/
def words (x : Ufs2.Inode) : Nat → Nat
  | 0 => x.uid
  | 1 => x.gid
  | 2 => 0
  | 3 => x.size % 2 ^ 32
  | 4 => x.size / 2 ^ 32
  | i + 5 => if i % 2 = 0 then x.direct (i / 2) % 2 ^ 32 else x.direct (i / 2) / 2 ^ 32

def major : Payload → Nat
  | .native major _ _ => major
  | .ufs2 info => info.mode

def minor : Payload → Nat
  | .native _ minor _ => minor
  | .ufs2 info => info.nlink

def addrs : Payload → Nat → Nat
  | .native _ _ addrs => addrs
  | .ufs2 info => words info

def info : Payload → Ufs2.Inode
  | .native _ _ _ => ⟨0, 0, 0, 0, 0, fun _ => 0, fun _ => 0⟩
  | .ufs2 info => info

end Payload

/-- `struct inode`, less its sleep lock. -/
structure Slot where
  dev : Nat
  inum : Nat
  ref : Nat
  valid : Bool
  type : Nat
  size : Nat
  nlink : Nat
  uid : Nat
  gid : Nat
  mode : Nat
  fs : FsType
  data : Payload

def Slot.zero : Slot := ⟨0, 0, 0, false, 0, 0, 0, 0, 0, 0, .native, .native 0 0 fun _ => 0⟩

/-- What `storage_ufs2_volume` and `sb` hold after start-up. -/
structure Mount where
  volume : Nat → Option Volume
  sb : Superblock

structure State where
  slot : Fin NINODE → Slot
  disk : Nat → Disk

def State.boot (disk : Nat → Disk) : State := ⟨fun _ => .zero, disk⟩

inductive Stop where
  /-- A panic of the code below the cache. -/
  | panic (p : Panic)
  | igetNoInodes
  | ilock
  | createIalloc
  | createDots
  | createDirlink
  deriving DecidableEq, Repr

abbrev Sys := StateT State (Except Stop)

def State.setDisk (s : State) (dev : Nat) (d : Disk) : State :=
  { s with disk := update s.disk dev d }

/-- Run a program on the disk of `dev`. -/
def onDisk {α : Type} (dev : Nat) (p : Prog α) : Sys α := fun s =>
  match p.run (s.disk dev) with
  | .ok (a, d) => .ok (a, s.setDisk dev d)
  | .error e => .error (.panic e)

def State.set (s : State) (i : Fin NINODE) (e : Slot) : State :=
  { s with slot := update s.slot i e }

def setSlot (i : Fin NINODE) (e : Slot) : Sys Unit := modify fun s => s.set i e

/-- The slot of an inode that is in use. -/
def State.cached (s : State) (dev inum : Nat) : Option (Fin NINODE) :=
  (List.finRange NINODE).find? fun i =>
    decide (0 < (s.slot i).ref ∧ (s.slot i).dev = dev ∧ (s.slot i).inum = inum)

/-- The first slot nobody uses. -/
def State.empty (s : State) : Option (Fin NINODE) :=
  (List.finRange NINODE).find? fun i => decide ((s.slot i).ref = 0)

/-! ## `iget`, `ilock` and `iput` -/

def Slot.recycle (e : Slot) (dev inum : Nat) : Slot :=
  { e with dev := dev, inum := inum, ref := 1, valid := false, fs := .native }

def iget (dev inum : Nat) : Sys (Fin NINODE) := do
  let s ← get
  match s.cached dev inum with
  | some i => do
    setSlot i { s.slot i with ref := (s.slot i).ref + 1 }
    pure i
  | none =>
    match s.empty with
    | some i => do
      setSlot i ((s.slot i).recycle dev inum)
      pure i
    | none => throw .igetNoInodes

def idup (i : Fin NINODE) : Sys (Fin NINODE) := do
  let s ← get
  setSlot i { s.slot i with ref := (s.slot i).ref + 1 }
  pure i

/-- The three device branches of `ilock`. -/
def Slot.loadDevice (e : Slot) (major minor : Nat) : Slot :=
  { e with
    type := T_DEVICE
    nlink := 1
    size := 0
    fs := .devfs
    valid := true
    data := .native major minor e.data.addrs }

def Slot.loadUfs2 (e : Slot) (x : Ufs2.Inode) : Slot :=
  { e with
    type := if x.mode &&& IFMT = IFDIR then T_DIR else T_FILE
    size := x.size
    nlink := x.nlink
    uid := x.uid
    gid := x.gid
    mode := x.mode &&& 0o7777
    fs := .ufs2
    valid := true
    data := .ufs2 x }

/-- `invalid_ufs2_inode`. The last stores to the union are to `major` and
`minor`, of an inode that is zero. -/
def Slot.loadInvalid (e : Slot) : Slot :=
  { e with
    type := 0
    size := 0
    nlink := 1
    fs := .ufs2
    valid := true
    data := .ufs2 ⟨0, 0, 0, 0, 0, fun _ => 0, fun _ => 0⟩ }

def Slot.loadNative (e : Slot) (x : Dinode) : Slot :=
  { e with
    type := x.type
    nlink := x.nlink
    size := x.size
    uid := x.uid
    gid := x.gid
    mode := x.mode
    fs := .native
    valid := true
    data := .native x.major x.minor x.addrs }

/-- The UFS2 inodes the kernel accepts. -/
def Usable (x : Ufs2.Inode) : Prop :=
  (x.mode &&& IFMT = IFDIR ∨ x.mode &&& IFMT = IFREG) ∧ x.size ≤ 0xffffffff

instance (x : Ufs2.Inode) : Decidable (Usable x) := inferInstanceAs (Decidable (_ ∧ _))

/-- The branches of `ilock`. -/
inductive Kind where
  | device (major minor : Nat)
  | ufs2 (v : Volume)
  | native

variable (mnt : Mount)

def kind (dev inum : Nat) : Kind :=
  if dev = DEVFS_DEVICE ∧ inum = DEVFS_CONSOLE_INO then .device CONSOLE 0xffff
  else if dev = DEVFS_DEVICE ∧ DEVFS_TTY_INO ≤ inum ∧ inum < DEVFS_TTY_INO + DEVFS_TTY_COUNT then
    .device CONSOLE (inum - DEVFS_TTY_INO)
  else if dev = DEVFS_DEVICE ∧ DEVFS_FNU_COMMAND_INO ≤ inum ∧ inum ≤ DEVFS_FNU_HEALTH_INO then
    .device FNU_STATE (inum - DEVFS_FNU_COMMAND_INO + FNU_STATE_COMMAND)
  else
    match mnt.volume dev with
    | some v => .ufs2 v
    | none => .native

def ilock (i : Fin NINODE) : Sys Unit := do
  let s ← get
  let e := s.slot i
  if e.ref < 1 then throw .ilock
  else if e.valid then pure ()
  else
    match kind mnt e.dev e.inum with
    | .device major minor => setSlot i (e.loadDevice major minor)
    | .ufs2 v => do
      match ← onDisk e.dev (readInode v e.inum) with
      | some x => setSlot i (if Usable x then e.loadUfs2 x else e.loadInvalid)
      | none => setSlot i e.loadInvalid
    | .native => do
      let x ← onDisk e.dev (readDinode mnt.sb e.inum)
      if x.type = 0 then throw (.panic .ilockNoType)
      else setSlot i (e.loadNative x)

def Slot.dinode (e : Slot) : Dinode :=
  ⟨e.type, e.data.major, e.data.minor, e.nlink, e.size, e.uid, e.gid, e.mode, e.data.addrs⟩

/-- What `bmap`, `writei` and `itrunc` leave in the slot. -/
def Slot.withDinode (e : Slot) (x : Dinode) : Slot :=
  { e with size := x.size, data := .native x.major x.minor x.addrs }

def iupdate (i : Fin NINODE) : Sys Unit := do
  let s ← get
  let e := s.slot i
  if e.fs = .native then onDisk e.dev (Native.iupdate mnt.sb e.inum e.dinode)
  else pure ()

def itrunc (i : Fin NINODE) : Sys Unit := do
  let s ← get
  let e := s.slot i
  if e.fs = .ufs2 then
    match mnt.volume e.dev with
    | none => pure ()
    | some v => do
      let x ← onDisk e.dev (Ufs2.itrunc v e.inum e.data.info)
      setSlot i { e with data := .ufs2 x }
  else do
    let x ← onDisk e.dev (Native.itrunc mnt.sb e.dinode)
    setSlot i (e.withDinode x)
    iupdate mnt i

def iput (i : Fin NINODE) : Sys Unit := do
  let s ← get
  let e := s.slot i
  if e.ref = 1 ∧ e.valid ∧ e.nlink = 0 then do
    itrunc mnt i
    modify fun s => s.set i { s.slot i with type := 0 }
    iupdate mnt i
    modify fun s => s.set i { s.slot i with valid := false }
  modify fun s => s.set i { s.slot i with ref := (s.slot i).ref - 1 }

/-! ## Access -/

/-- `uid` and `gid` of the process. -/
structure Cred where
  uid : Nat
  gid : Nat

/-- The fields of a slot that the system calls consult. -/
structure Fields where
  type : Nat
  major : Nat
  minor : Nat
  size : Nat
  uid : Nat
  gid : Nat
  mode : Nat
  nlink : Nat
  deriving DecidableEq, Repr

def Slot.fields (e : Slot) : Fields :=
  ⟨e.type, e.data.major, e.data.minor, e.size, e.uid, e.gid, e.mode, e.nlink⟩

def inodeAccess (cred : Cred) (f : Fields) (mask : Nat) : Bool :=
  if f.type = 0 then false
  else if cred.uid = 0 then true
  else
    let bits :=
      if cred.uid = f.uid then f.mode >>> 6 &&& 7
      else if cred.gid = f.gid then f.mode >>> 3 &&& 7
      else f.mode &&& 7
    bits &&& mask == mask

/-! ## What `ilock` leaves -/

section Lock

variable {mnt} {s : State} {i : Fin NINODE}

variable (mnt) in
/-- A slot after `ilock` has read inode `inum` of `dev` from the disk. -/
def load (d : Disk) (dev inum : Nat) (e : Slot) : Except Stop Slot :=
  match kind mnt dev inum with
  | .device major minor => .ok (e.loadDevice major minor)
  | .ufs2 v =>
    match inodeAt v (v.bytes d) inum with
    | some x => .ok (if Usable x then e.loadUfs2 x else e.loadInvalid)
    | none => .ok e.loadInvalid
  | .native =>
    if (dinodeAt mnt.sb d inum).type = 0 then .error (.panic .ilockNoType)
    else .ok (e.loadNative (dinodeAt mnt.sb d inum))

variable (mnt) in
/-- A slot after `ilock`. -/
def fill (disk : Nat → Disk) (e : Slot) : Except Stop Slot :=
  if e.valid then .ok e else load mnt (disk e.dev) e.dev e.inum e

lemma readDinode_run (sb : Superblock) (inum : Nat) (d : Disk) :
    (readDinode sb inum).run d = .ok (dinodeAt sb d inum, d) := rfl

@[simp] lemma State.setDisk_self (s : State) (dev : Nat) : s.setDisk dev (s.disk dev) = s := by
  unfold State.setDisk
  rw [update_eq_self]

lemma onDisk_reads {α : Type} {dev : Nat} {p : Prog α} {a : α}
    (h : p.run (s.disk dev) = .ok (a, s.disk dev)) : onDisk dev p s = .ok (a, s) := by
  unfold onDisk
  rw [h]
  dsimp only
  rw [State.setDisk_self]

@[simp] lemma State.set_slot (s : State) (i : Fin NINODE) (e : Slot) :
    (s.set i e).slot i = e := update_self ..

lemma State.set_slot_ne {j : Fin NINODE} (h : j ≠ i) (e : Slot) :
    (s.set i e).slot j = s.slot j := update_of_ne h ..

@[simp] lemma State.set_disk (s : State) (i : Fin NINODE) (e : Slot) :
    (s.set i e).disk = s.disk := rfl

@[simp] lemma State.set_same (s : State) (i : Fin NINODE) : s.set i (s.slot i) = s := by
  unfold State.set
  rw [update_eq_self]

lemma ilock_eq (h : 0 < (s.slot i).ref) : ilock mnt i s =
    match fill mnt s.disk (s.slot i) with
    | .ok e => .ok ((), s.set i e)
    | .error x => .error x := by
  unfold ilock fill
  rw [Stateful.get_bind, if_neg (by omega)]
  split
  · dsimp only
    rw [State.set_same]
    rfl
  unfold load
  cases hkind : kind mnt (s.slot i).dev (s.slot i).inum with
  | device major minor => rfl
  | ufs2 v =>
    dsimp only
    rw [Stateful.bind_of_ok (onDisk_reads (readInode_run v _ _))]
    cases inodeAt v (v.bytes (s.disk (s.slot i).dev)) (s.slot i).inum <;> rfl
  | native => ?_
  dsimp only
  rw [Stateful.bind_of_ok (onDisk_reads (readDinode_run _ _ _))]
  split <;> rfl

lemma iput_kept (h : ¬ ((s.slot i).ref = 1 ∧ (s.slot i).valid ∧ (s.slot i).nlink = 0)) :
    iput mnt i s = .ok ((), s.set i { s.slot i with ref := (s.slot i).ref - 1 }) := by
  unfold iput
  rw [Stateful.get_bind, if_neg h]
  rfl

end Lock

end Proninx.Fs
