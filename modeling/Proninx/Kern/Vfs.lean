import Proninx.Kern.Ufs2File
import Proninx.Lib.Stateful

/-!
# The inode cache and the system calls on a UFS2 volume

The UFS2 branches of `fs.c`, `file.c` and `sysfile.c`. A system call is a
computation over the disk and the cached inodes, one call after the
other. Path names are resolved before: a call takes the inode numbers
`namei` and `nameiparent` returned, and the references they took are taken
by the call.

`struct inode` keeps the link count, the size and the permissions twice,
in fields of its own and in `ufs2_info`; so does `Cached`.
-/

namespace Proninx.Vfs

open Blockdev ByteMem Function Ufs2

/-- `type` of a cached UFS2 inode: zero, `T_DIR` or `T_FILE`. -/
inductive FileType where
  | none
  | dir
  | file
  deriving DecidableEq, Repr

/-- `struct inode` -/
structure Cached where
  ref : Nat
  valid : Bool
  info : Inode
  type : FileType
  size : Nat
  nlink : Nat
  uid : Nat
  gid : Nat
  mode : Nat

def zeroInode : Inode := ⟨0, 0, 0, 0, 0, fun _ => 0, fun _ => 0⟩

/-- A slot of the cache as `iget` hands it out. -/
def blank : Cached := ⟨0, false, zeroInode, .none, 0, 0, 0, 0, 0⟩

/-- `cache` holds the inodes with a reference, by number. -/
structure State where
  disk : Disk
  cache : Nat → Option Cached

abbrev Sys := StateT State (Except Panic)

def State.entry (s : State) (n : Nat) : Cached := (s.cache n).getD blank

def State.put (s : State) (n : Nat) (e : Option Cached) : State :=
  { s with cache := update s.cache n e }

/-- Run a program of the file system. -/
def onDisk {α : Type} (p : Prog α) : Sys α := fun s =>
  match p.run s.disk with
  | .ok (a, d) => .ok (a, { s with disk := d })
  | .error e => .error e

def setEntry (n : Nat) (e : Cached) : Sys Unit := modify fun s => s.put n (some e)

/-! ## The inode cache (`fs.c`) -/

def iget (n : Nat) : Sys Unit := modify fun s =>
  s.put n (some { s.entry n with ref := (s.entry n).ref + 1 })

/-- What `ilock` makes of the dinode it reads. -/
def load (e : Cached) : Option Inode → Cached
  | some x =>
    if (x.mode &&& IFMT = IFDIR ∨ x.mode &&& IFMT = IFREG) ∧ x.size ≤ 0xffffffff then
      { e with
        valid := true
        info := x
        type := if x.mode &&& IFMT = IFDIR then .dir else .file
        size := x.size
        nlink := x.nlink
        uid := x.uid
        gid := x.gid
        mode := x.mode &&& 0o7777 }
    else { e with valid := true, info := zeroInode, type := .none, size := 0, nlink := 1 }
  | none => { e with valid := true, info := zeroInode, type := .none, size := 0, nlink := 1 }

variable (v : Volume)

def ilock (n : Nat) : Sys Unit := do
  let s ← get
  if (s.entry n).valid then pure ()
  else do
    let x ← onDisk (readInode v n)
    setEntry n (load (s.entry n) x)

/-- `iput`. An entry that is truncated and freed has no reference left. -/
def iput (n : Nat) : Sys Unit := do
  let s ← get
  let e := s.entry n
  if e.ref = 1 ∧ e.valid ∧ e.nlink = 0 then do
    let _ ← onDisk (itrunc v n e.info)
    modify fun s => s.put n none
  else modify fun s => s.put n (if e.ref ≤ 1 then none else some { e with ref := e.ref - 1 })

/-- `uid` and `gid` of the process. -/
structure Cred where
  uid : Nat
  gid : Nat

def inodeAccess (cred : Cred) (e : Cached) (mask : Nat) : Bool :=
  if e.type = .none then false
  else if cred.uid = 0 then true
  else
    let bits :=
      if cred.uid = e.uid then e.mode / 64 % 8
      else if cred.gid = e.gid then e.mode / 8 % 8
      else e.mode % 8
    bits &&& mask == mask

/-- `dirlookup`; the inode it finds has a reference. -/
def dirlookup (dp : Nat) (name : List UInt8) : Sys (Option Nat) := do
  let s ← get
  if (s.entry dp).type ≠ .dir then throw .dirlookupNotDir
  else do
    match ← onDisk (lookup v dp name) with
    | none => pure none
    | some n => do
      iget n
      pure (some n)

/-! ## System calls (`sysfile.c`) -/

inductive NewType where
  | file
  | dir
  | device
  deriving DecidableEq, Repr

def NewType.mode : NewType → Nat
  | .dir => 0o040755
  | _ => 0o100644

def NewType.directoryType : NewType → UInt8
  | .dir => DIRTYPE_DIR
  | _ => DIRTYPE_REG

/-- The disk part of `create`: allocate, initialise, link, and give the
inode back when one of these fails. -/
def createNode (dp : Nat) (name : List UInt8) (type : NewType) : Prog (Option Nat) := do
  match ← allocInode v type.mode with
  | none => pure none
  | some inum => do
    let r ← (if type = .dir then makeDirectory v inum dp else pure (some ())).andThen fun _ =>
      dirlink v dp name inum type.directoryType
    match r with
    | some () => pure (some inum)
    | none => do
      if ROOT_INO ≤ inum then
        let _ ← freeInode v inum
      pure none

/-- The parent of a new directory gets a link more. -/
def countSubdirectory (dp : Nat) : Sys Unit := do
  match ← onDisk (readInode v dp) with
  | none => pure ()
  | some parent => do
    let parent := { parent with nlink := (parent.nlink + 1) % 2 ^ 16 }
    let s ← get
    setEntry dp { s.entry dp with info := parent, nlink := parent.nlink }
    let _ ← onDisk (writeInode v dp parent)
    pure ()

/-- `create`; the inode it returns has a reference. -/
def create (cred : Cred) (dp : Nat) (name : List UInt8) (type : NewType) : Sys (Option Nat) := do
  ilock v dp
  let s ← get
  if inodeAccess cred (s.entry dp) 3 = false then do
    iput v dp
    pure none
  else do
    match ← dirlookup v dp name with
    | some n => do
      iput v dp
      ilock v n
      let s ← get
      if type = .file ∧ (s.entry n).type = .file then pure (some n)
      else do
        iput v n
        pure none
    | none =>
      if type = .device then do
        iput v dp
        pure none
      else do
        match ← onDisk (createNode v dp name type) with
        | none => do
          iput v dp
          pure none
        | some inum => do
          if type = .dir then countSubdirectory v dp
          iget inum
          iput v dp
          ilock v inum
          pure (some inum)

/-- A live record with a name other than `.` and `..`, which `namecmp`
reads up to the first zero byte. -/
def otherName (m : Mem) (o : Nat) : Bool :=
  recInode m o != 0 && (recName m o).takeWhile (· != 0) != [46] &&
    (recName m o).takeWhile (· != 0) != [46, 46]

/-- `isdirempty`. The calls of `ufs2_readdir` for the entries 0, 1, ... are
one walk over the live records; a directory that cannot be read on ends
it like one that has no more entries. -/
def isDirEmpty (n : Nat) : Prog Bool := do
  let r ← (readInode v n).andThen fun directory =>
    if directory.mode &&& IFMT ≠ IFDIR then pure none
    else scanDirectory v directory otherName (fun _ _ _ _ => pure (some ())) (pure none)
      (scanFuel directory) 0
  pure r.isNone

/-- The UFS2 part of `sys_unlink` after both inodes are locked: remove the
entry, and take a link from the parent of a directory and from the inode.
False stands for -1. -/
def unlinkNode (dp n : Nat) (name : List UInt8) : Sys Bool := do
  let s ← get
  let isDir := decide ((s.entry n).type = .dir)
  if isDir && !(← onDisk (isDirEmpty v n)) then pure false
  else do
    match ← onDisk (dirunlink v dp name) with
    | none => pure false
    | some removed => do
      let s ← get
      if removed ≠ n ∨ (s.entry n).info.nlink = 0 then pure false
      else do
        let ok ← if isDir then do
            match ← onDisk (readInode v dp) with
            | none => pure false
            | some parent =>
              if parent.nlink < 1 then pure false
              else do
                let parent := { parent with nlink := parent.nlink - 1 }
                let s ← get
                setEntry dp { s.entry dp with info := parent, nlink := parent.nlink }
                let r ← onDisk (writeInode v dp parent)
                pure r.isSome
          else pure true
        if ok then do
          let s ← get
          let info := { (s.entry n).info with nlink := (s.entry n).info.nlink - 1 }
          setEntry n { s.entry n with info := info, nlink := info.nlink }
          let r ← onDisk (writeInode v n info)
          pure r.isSome
        else pure false

/-- `sys_unlink`. A directory that is removed through a name of its own
would be locked twice; `namecmp` keeps `.` and `..` out. -/
def sysUnlink (cred : Cred) (dp : Nat) (name : List UInt8) : Sys Bool := do
  iget dp
  ilock v dp
  let s ← get
  if inodeAccess cred (s.entry dp) 3 = false ∨ name = [46] ∨ name = [46, 46] then do
    iput v dp
    pure false
  else do
    match ← dirlookup v dp name with
    | none => do
      iput v dp
      pure false
    | some n => do
      ilock v n
      if ← unlinkNode v dp n name then do
        iput v dp
        iput v n
        pure true
      else do
        iput v n
        iput v dp
        pure false

def sysMkdir (cred : Cred) (dp : Nat) (name : List UInt8) : Sys Bool := do
  iget dp
  match ← create v cred dp name .dir with
  | none => pure false
  | some n => do
    iput v n
    pure true

/-- `sys_link`, to the inode `n` that `namei` found. -/
def sysLink (cred : Cred) (n dp : Nat) (name : List UInt8) : Sys Bool := do
  iget n
  ilock v n
  let s ← get
  if (s.entry n).type = .dir then do
    iput v n
    pure false
  else do
    iget dp
    ilock v dp
    let s ← get
    if inodeAccess cred (s.entry dp) 3 = false ∨ (s.entry n).info.nlink = 0 ∨
        (s.entry n).info.nlink = 0xffff then do
      iput v dp
      iput v n
      pure false
    else do
      let info := { (s.entry n).info with nlink := (s.entry n).info.nlink + 1 }
      setEntry n { s.entry n with info := info, nlink := info.nlink }
      let r ← onDisk ((writeInode v n info).andThen fun _ => dirlink v dp name n DIRTYPE_REG)
      if r.isNone then do
        let s ← get
        let info := { (s.entry n).info with nlink := (s.entry n).info.nlink - 1 }
        setEntry n { s.entry n with info := info, nlink := info.nlink }
        let _ ← onDisk (writeInode v n info)
        pure ()
      iput v dp
      iput v n
      pure r.isSome

/-- `sys_chmod`, with a mode of twelve bits. -/
def sysChmod (cred : Cred) (n mode : Nat) : Sys Bool := do
  iget n
  ilock v n
  let s ← get
  if cred.uid ≠ 0 ∧ cred.uid ≠ (s.entry n).uid then do
    iput v n
    pure false
  else do
    let mode := mode &&& 0o7777
    let info := { (s.entry n).info with mode := (s.entry n).info.mode &&& IFMT ||| mode }
    setEntry n { s.entry n with info := info, mode := mode }
    let r ← onDisk (writeInode v n info)
    iput v n
    pure r.isSome

/-- `sys_chown`, by the superuser. -/
def sysChown (n uid gid : Nat) : Sys Bool := do
  iget n
  ilock v n
  let s ← get
  let info := { (s.entry n).info with uid := uid, gid := gid }
  setEntry n { s.entry n with info := info, uid := uid, gid := gid }
  let r ← onDisk (writeInode v n info)
  iput v n
  pure r.isSome

/-- The end of `sys_open` for an inode that is locked: truncate it for
`O_TRUNC` and keep the reference for the file. -/
def openNode (n : Nat) (trunc : Bool) : Sys Bool := do
  if trunc then do
    let s ← get
    let (r, info) ← onDisk (truncate v n (s.entry n).info)
    setEntry n { s.entry n with info := info, size := if r.isSome then 0 else (s.entry n).size }
    if r.isNone then do
      iput v n
      pure false
    else pure true
  else pure true

/-- `sys_open` without `O_CREATE`, for reading or for writing. -/
def sysOpen (cred : Cred) (n : Nat) (write trunc : Bool) : Sys Bool := do
  iget n
  ilock v n
  let s ← get
  if inodeAccess cred (s.entry n) (if write then 2 else 4) = false ∨
      (s.entry n).type = .none ∨ ((s.entry n).type = .dir ∧ (write ∨ trunc)) then do
    iput v n
    pure false
  else openNode v n trunc

def sysCreate (cred : Cred) (dp : Nat) (name : List UInt8) (trunc : Bool) : Sys Bool := do
  iget dp
  match ← create v cred dp name .file with
  | none => pure false
  | some n => openNode v n trunc

/-- The UFS2 branch of `filewrite`, for the inode `n` at `offset`. -/
def sysWrite (n offset : Nat) (src : Mem) (length : Nat) : Sys Bool := do
  if 2 ^ 31 ≤ length ∨ 2 ^ 32 ≤ offset + length then pure false
  else do
    ilock v n
    let s ← get
    let (r, info) ← onDisk (writeGrowing v n (s.entry n).info offset src length)
    setEntry n { s.entry n with
      info := info
      size := if r.isSome then info.size % 2 ^ 32 else (s.entry n).size }
    pure r.isSome

/-- `sys_close`, or any other end of a reference. -/
def sysClose (n : Nat) : Sys Unit := iput v n

/-! ## Locking and releasing -/

section Cache

open Stateful

variable {v} {s : State} {n k : Nat}

lemma State.entry_put (s : State) (n k : Nat) (e : Option Cached) :
    (s.put n e).entry k = if k = n then e.getD blank else s.entry k := by
  unfold State.entry State.put
  dsimp only
  rw [update_apply]
  split <;> rfl

lemma Leads.onDisk {α : Type} {p : Prog α} {Q : α → State → Prop}
    (h : ∀ a d, p.run s.disk = .ok (a, d) → Q a { s with disk := d }) :
    Leads (onDisk p) s Q := by
  intro a t hrun
  unfold Vfs.onDisk at hrun
  cases hp : p.run s.disk with
  | error e =>
    rw [hp] at hrun
    cases hrun
  | ok r => ?_
  rw [hp] at hrun
  cases hrun
  exact h _ _ hp

lemma onDisk_inode {x : Option Inode} (h : inodeAt v (v.bytes s.disk) n = x) :
    onDisk (readInode v n) s = .ok (x, s) := by
  rw [onDisk, readInode_run, h]

variable (v) in
/-- The entry of `n` as `ilock` leaves it. -/
def held (s : State) (n : Nat) : Cached :=
  if (s.entry n).valid then s.entry n
  else load (s.entry n) (inodeAt v (v.bytes s.disk) n)

lemma ilock_leads : Leads (ilock v n) s fun _ t =>
    t.disk = s.disk ∧ ∀ k, t.entry k = if k = n then held v s n else s.entry k := by
  unfold ilock held
  refine .get ?_
  split
  · refine .pure ⟨rfl, fun k => ?_⟩
    split
    · next hk => rw [hk]
    · rfl
  exact .bind_ok (onDisk_inode rfl) (.modify ⟨rfl, fun k => State.entry_put ..⟩)

variable (v) in
/-- The link count of `n` is not zero, neither in the cache nor on disk:
`iput` will not free it. -/
structure Linked (s : State) (n : Nat) : Prop where
  cached : (s.entry n).valid → (s.entry n).nlink ≠ 0
  stored : ∀ x, inodeAt v (v.bytes s.disk) n = some x → x.nlink ≠ 0

lemma load_nlink (e : Cached) (x : Option Inode) (h : ∀ y, x = some y → y.nlink ≠ 0) :
    (load e x).nlink ≠ 0 := by
  unfold load
  cases x with
  | none => exact one_ne_zero
  | some y => ?_
  dsimp only
  split
  · exact h y rfl
  · exact one_ne_zero

lemma Linked.held (h : Linked v s n) : (held v s n).nlink ≠ 0 := by
  unfold Vfs.held
  split
  · next hv => exact h.cached hv
  · exact load_nlink _ _ h.stored

/-- What `ilock`, `iget` and `iput` of linked inodes leave: the disk, and
the links of every inode. -/
def Calm (v : Volume) (s t : State) : Prop :=
  t.disk = s.disk ∧ ∀ k, Linked v s k → Linked v t k

lemma Calm.trans {t u : State} (h : Calm v s t) (h' : Calm v t u) : Calm v s u :=
  ⟨h'.1.trans h.1, fun k hk => h'.2 k (h.2 k hk)⟩

lemma ilock_calm : Leads (ilock v n) s fun _ t => Calm v s t := by
  refine ilock_leads.mono fun _ t ⟨hdisk, hentry⟩ => ⟨hdisk, fun k hk => ⟨?_, ?_⟩⟩
  · rw [hentry k]
    split
    · next heq =>
      subst heq
      exact fun _ => hk.held
    · exact hk.cached
  · rw [hdisk]
    exact hk.stored

lemma iget_calm : Leads (iget n) s fun _ t => Calm v s t := by
  refine .modify ⟨rfl, fun k hk => ⟨?_, hk.stored⟩⟩
  rw [State.entry_put]
  split
  · next heq =>
    subst heq
    exact hk.cached
  · exact hk.cached

lemma iput_calm (h : Linked v s n) : Leads (iput v n) s fun _ t => Calm v s t := by
  unfold iput
  refine .get ?_
  dsimp only
  split
  · next hfree => exact absurd hfree.2.2 (h.cached hfree.2.1)
  refine .modify ⟨rfl, fun k hk => ⟨?_, hk.stored⟩⟩
  rw [State.entry_put]
  split
  · next heq =>
    subst heq
    split
    · exact nofun
    · exact hk.cached
  · exact hk.cached

lemma iput_shared (h : 1 < (s.entry n).ref) : Leads (iput v n) s fun _ t => t.disk = s.disk := by
  unfold iput
  refine .get ?_
  dsimp only
  rw [if_neg (by omega)]
  exact .modify rfl

end Cache

end Proninx.Vfs
