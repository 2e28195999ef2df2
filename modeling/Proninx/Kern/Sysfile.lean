import Proninx.Kern.Path
import Proninx.Kern.Vfs

/-!
# Opening and creating files

`create`, `sys_open`, `sys_mkdir` and `sys_mknod` of `sysfile.c` over the
inode cache, for native and UFS2 directories, with the table of open files
and the descriptors of the calling process. A system call finds its path
at an address of the process: `fetchstr` asks for a terminator below the
size of the process, and what lies behind the terminator is the caller's
as well.
-/

namespace Proninx.Fs

open ByteMem Function Native Ufs2

/-! ## `dirlink` and `create` -/

variable (mnt : Mount)

/-- `dirlink`; false stands for -1. -/
def dirlink (dp : Fin NINODE) (name : List UInt8) (inum : Nat) : Sys Bool := do
  let s ← get
  if (s.slot dp).fs = .ufs2 then pure false
  else do
    match ← dirlookup mnt dp name with
    | some ip => do
      iput mnt ip
      pure false
    | none => do
      let s ← get
      let e := s.slot dp
      let x ← onDisk e.dev (addEntry mnt.sb e.inum e.dinode name inum)
      setSlot dp (e.withDinode x)
      pure true

/-- `create` when the name is there: only a file that was asked for is
returned, and nothing is asked of its permissions. -/
def createExisting (dp ip : Fin NINODE) (type : Nat) : Sys (Option (Fin NINODE)) := do
  iput mnt dp
  ilock mnt ip
  let s ← get
  if type = T_FILE ∧ (s.slot ip).type = T_FILE then pure (some ip)
  else do
    iput mnt ip
    pure none

/-- The parent of a new UFS2 directory gets a link more. -/
def countSubdirectory (v : Volume) (dp : Fin NINODE) : Sys Unit := do
  let s ← get
  let e := s.slot dp
  match ← onDisk e.dev (readInode v e.inum) with
  | none => pure ()
  | some parent => do
    let parent := { parent with nlink := (parent.nlink + 1) % 2 ^ 16 }
    setSlot dp { e with data := .ufs2 parent, nlink := parent.nlink }
    let _ ← onDisk e.dev (writeInode v e.inum parent)
    pure ()

/-- The type of a UFS2 inode that `create` can make. -/
def newType (type : Nat) : Option Vfs.NewType :=
  if type = T_FILE then some .file else if type = T_DIR then some .dir else none

def createUfs2 (dp : Fin NINODE) (name : List UInt8) (type : Nat) :
    Sys (Option (Fin NINODE)) := do
  let s ← get
  let e := s.slot dp
  match newType type, mnt.volume e.dev with
  | some new, some v => do
    match ← onDisk e.dev (Vfs.createNode v e.inum name new) with
    | none => do
      iput mnt dp
      pure none
    | some inum => do
      if type = T_DIR then countSubdirectory v dp
      let ip ← iget e.dev inum
      iput mnt dp
      ilock mnt ip
      pure (some ip)
  | _, _ => do
    iput mnt dp
    pure none

/-- The permissions of a new native inode. -/
def newMode (type : Nat) : Nat :=
  if type = T_DIR then 0o755 else if type = T_DEVICE then 0o600 else 0o644

def ialloc (dev type : Nat) : Sys (Option (Fin NINODE)) :=
  if (mnt.volume dev).isSome then pure none
  else do
    let inum ← onDisk dev (Native.ialloc mnt.sb type)
    let ip ← iget dev inum
    pure (some ip)

/-- The entries `.` and `..` of a new native directory. -/
def createDots (dp ip : Fin NINODE) : Sys Unit := do
  let s ← get
  setSlot dp { s.slot dp with nlink := ((s.slot dp).nlink + 1) % 2 ^ 16 }
  iupdate mnt dp
  let s ← get
  if !(← dirlink mnt ip dot (s.slot ip).inum) then throw .createDots
  if !(← dirlink mnt ip (dot ++ dot) (s.slot dp).inum) then throw .createDots

def createNative (cred : Cred) (dp : Fin NINODE) (name : List UInt8) (type major minor : Nat) :
    Sys (Option (Fin NINODE)) := do
  let s ← get
  match ← ialloc mnt (s.slot dp).dev type with
  | none => throw .createIalloc
  | some ip => do
    ilock mnt ip
    let s ← get
    let e := s.slot ip
    setSlot ip { e with
      nlink := 1
      uid := cred.uid
      gid := cred.gid
      mode := newMode type
      data := .native major minor e.data.addrs }
    iupdate mnt ip
    if type = T_DIR then createDots mnt dp ip
    let s ← get
    if !(← dirlink mnt dp name (s.slot ip).inum) then throw .createDirlink
    iput mnt dp
    pure (some ip)

def create (task : Task) (path : List UInt8) (type major minor : Nat) :
    Sys (Option (Fin NINODE)) := do
  match ← nameiparent mnt task path with
  | none => pure none
  | some (dp, name) => do
    ilock mnt dp
    let s ← get
    if inodeAccess task.cred (s.slot dp).fields 3 = false then do
      iput mnt dp
      pure none
    else do
      match ← dirlookup mnt dp name with
      | some ip => createExisting mnt dp ip type
      | none =>
        if (s.slot dp).fs = .ufs2 then createUfs2 mnt dp name type
        else createNative mnt task.cred dp name type major minor

/-- `sys_mkdir` and `sys_mknod`, after their arguments; false stands for -1. -/
def sysMake (task : Task) (path : List UInt8) (type major minor : Nat) : Sys Bool := do
  match ← create mnt task path type major minor with
  | none => pure false
  | some ip => do
    iput mnt ip
    pure true

def sysMkdir (task : Task) (path : List UInt8) : Sys Bool := sysMake mnt task path T_DIR 0 0

def sysMknod (task : Task) (path : List UInt8) (major minor : Nat) : Sys Bool :=
  sysMake mnt task path T_DEVICE (major % 2 ^ 16) (minor % 2 ^ 16)

/-! ## Open files (`file.h`, `param.h`, `inc/fcntl.h`) -/

def NFILE : Nat := 100
def NOFILE : Nat := 16
def O_WRONLY : Nat := 0x001
def O_RDWR : Nat := 0x002
def O_CREATE : Nat := 0x200
def O_TRUNC : Nat := 0x400
def O_APPEND : Nat := 0x2000

inductive FdType where
  | none
  | pipe
  | inode
  deriving DecidableEq, Repr

/-- `struct file`, less its pipe. -/
structure File where
  type : FdType
  ref : Nat
  readable : Bool
  writable : Bool
  ip : Fin NINODE
  off : Nat

/-- The file system, the open files, and the descriptors of the process
that makes the call. -/
structure Kernel where
  fs : State
  file : Fin NFILE → File
  ofile : Fin NOFILE → Option (Fin NFILE)

abbrev Call := StateT Kernel (Except Stop)

/-- Run a part of a system call that looks at the file system only. -/
def onFs {α : Type} (x : Sys α) : Call α := fun k =>
  match x k.fs with
  | .ok (a, s) => .ok (a, { k with fs := s })
  | .error e => .error e

def setFile (f : Fin NFILE) (x : File) : Call Unit :=
  modify fun k => { k with file := update k.file f x }

def filealloc : Call (Option (Fin NFILE)) := do
  let k ← get
  match (List.finRange NFILE).find? fun f => decide ((k.file f).ref = 0) with
  | none => pure none
  | some f => do
    setFile f { k.file f with ref := 1 }
    pure (some f)

def fdalloc (f : Fin NFILE) : Call (Option (Fin NOFILE)) := do
  let k ← get
  match (List.finRange NOFILE).find? fun fd => (k.ofile fd).isNone with
  | none => pure none
  | some fd => do
    set { k with ofile := update k.ofile fd (some f) }
    pure (some fd)

/-- `fileclose` of a file with one reference; pipes are not modelled. -/
def fileclose (f : Fin NFILE) : Call Unit := do
  let k ← get
  let ff := k.file f
  setFile f { ff with ref := 0, type := .none }
  if ff.type = .inode then onFs (iput mnt ff.ip)

/-! ## `sys_open` -/

def has (omode flag : Nat) : Bool := omode &&& flag != 0

def wantsWrite (omode : Nat) : Bool := has omode O_WRONLY || has omode O_RDWR

def argstr (m : Mem) (addr sz : Nat) : Option (List UInt8) :=
  if sz ≤ addr then none else cstring m addr (sz - addr)

/-- The test of `sys_open` for the name of the supervisor's command device.
It looks at the byte behind the terminator. -/
def isCommandPath (m : Mem) (addr : Nat) : Bool :=
  (strncmpEq (shift m addr) (ofList (ascii "/fnusvc.command")) 16 0 && m (addr + 16) == 0) ||
    (strncmpEq (shift m addr) (ofList (ascii "fnusvc.command")) 15 0 && m (addr + 15) == 0)

/-- `sys_open` without `O_CREATE`, up to the tests of what the path names. -/
def openNamed (task : Task) (path : List UInt8) (omode : Nat) : Sys (Option (Fin NINODE)) := do
  match ← namei mnt task path with
  | none => pure none
  | some ip => do
    ilock mnt ip
    let s ← get
    let e := s.slot ip
    if (wantsWrite omode ∧ inodeAccess task.cred e.fields 2 = false) ∨
        (wantsWrite omode = false ∧ inodeAccess task.cred e.fields 4 = false) ∨
        (e.type ≠ T_FILE ∧ e.type ≠ T_DIR ∧ e.type ≠ T_DEVICE) ∨
        (e.type = T_DIR ∧ omode ≠ 0) then do
      iput mnt ip
      pure none
    else pure (some ip)

/-- `O_TRUNC`, which only UFS2 files look at; false stands for -1. -/
def openTruncate (ip : Fin NINODE) (omode : Nat) : Sys Bool := do
  let s ← get
  let e := s.slot ip
  if has omode O_TRUNC ∧ e.fs = .ufs2 then
    match mnt.volume e.dev with
    | none => pure false
    | some v => do
      match ← onDisk e.dev (truncate v e.inum e.data.info) with
      | (none, x) => do
        setSlot ip { e with data := .ufs2 x }
        pure false
      | (some (), x) => do
        setSlot ip { e with data := .ufs2 x, size := 0 }
        pure true
  else pure true

def openInode (ip : Fin NINODE) (omode : Nat) : Call (Option (Fin NOFILE)) := do
  if !(← onFs (openTruncate mnt ip omode)) then do
    onFs (iput mnt ip)
    pure none
  else do
    let k ← get
    let sz := (k.fs.slot ip).size
    match ← filealloc with
    | none => do
      onFs (iput mnt ip)
      pure none
    | some f => do
      match ← fdalloc f with
      | none => do
        fileclose mnt f
        onFs (iput mnt ip)
        pure none
      | some fd => do
        let k ← get
        setFile f { k.file f with
          type := .inode
          ip := ip
          off := if has omode O_APPEND then sz else 0
          readable := !has omode O_WRONLY
          writable := wantsWrite omode }
        pure (some fd)

/-- `sys_open`, of the path at `addr` in a process of size `sz`. -/
def sysOpen (task : Task) (m : Mem) (addr sz omode : Nat) : Call (Option (Fin NOFILE)) :=
  match argstr m addr sz with
  | none => pure none
  | some path =>
    if wantsWrite omode && task.cred.uid != 0 && isCommandPath m addr then pure none
    else do
      match ← onFs (if has omode O_CREATE then create mnt task path T_FILE 0 0
          else openNamed mnt task path omode) with
      | none => pure none
      | some ip => openInode mnt ip omode

end Proninx.Fs
