import Proninx.Kern.Icache
import Proninx.Kern.NativeDir
import Proninx.Lib.Paths

/-!
# Path names

`skipelem`, the virtual names and `namex` of `fs.c`. A path is the list of
the bytes of the string, without its terminator. None of these functions
looks at a byte behind the terminator, so nothing else of the caller's
memory matters to them.

`skipelem` returns 0 for the end of the path and for a component that is
too long alike; `namex` takes both for the end.
-/

namespace Proninx.Fs

open ByteMem Ufs2 Native Paths

def MAXNAMLEN : Nat := 255
def slash : UInt8 := 47
def dot : List UInt8 := [46]

/-- `skipelem`: the component, and the path after it. -/
def skipelem (path : List UInt8) : Option (List UInt8 × List UInt8) :=
  let path := path.dropWhile (· == slash)
  if path = [] then none
  else
    let name := path.takeWhile (· != slash)
    if MAXNAMLEN < name.length then none
    else some (name, (path.dropWhile (· != slash)).dropWhile (· == slash))

/-- `strncmp(path, text, n) == 0` -/
def startsWith (path : List UInt8) (text : String) (n : Nat) : Bool :=
  strncmpEq (ofList path) (ofList (ascii text)) n 0

/-- One leading slash is skipped. -/
def unslash (path : List UInt8) : List UInt8 :=
  if ofList path 0 = slash then path.drop 1 else path

def isConsolePath (path : List UInt8) : Bool :=
  let path := unslash path
  (startsWith path "dev/console" 12 && ofList path 11 == 0) ||
    ((List.range 7).all (fun i => ofList path i == ofList (ascii "console") i) &&
      ofList path 7 == 0)

/-- What follows the prefix of a terminal's name. -/
def ttySuffix (path : List UInt8) : Option (List UInt8) :=
  if startsWith path "dev/tty" 7 then some (path.drop 7)
  else if startsWith path "tty" 3 then some (path.drop 3)
  else none

def devfsPath (path : List UInt8) : Nat :=
  if isConsolePath path then DEVFS_CONSOLE_INO
  else
    let path := unslash path
    let tty := (ttySuffix path).bind fun p =>
      if 49 ≤ (ofList p 0).toNat ∧ (ofList p 0).toNat < 49 + DEVFS_TTY_COUNT ∧ ofList p 1 = 0 then
        some (DEVFS_TTY_INO + ((ofList p 0).toNat - 49))
      else none
    match tty with
    | some inum => inum
    | none =>
      if startsWith path "fnusvc.command" 14 ∧ ofList path 14 = 0 then DEVFS_FNU_COMMAND_INO
      else if startsWith path "fnusvc.status" 13 ∧ ofList path 13 = 0 then DEVFS_FNU_SERVICES_INO
      else if startsWith path ".fnuhealth" 10 ∧ ofList path 10 = 0 then DEVFS_FNU_HEALTH_INO
      else 0

variable (mnt : Mount)

def dataNamespace (path : List UInt8) : Option (List UInt8) :=
  let path := path.dropWhile (· == slash)
  if (List.range 4).all (fun i => ofList path i == ofList (ascii "data") i) ∧
      (ofList path 4 = slash ∨ ofList path 4 = 0) ∧ (mnt.volume FNU_DATA_DEVICE).isSome then
    some ((path.drop 4).dropWhile (· == slash))
  else none

/-- What a process brings to a path lookup. -/
structure Task where
  cred : Cred
  cwd : Fin NINODE

/-- `dirlookup`; the slot it returns has a reference. -/
def dirlookup (i : Fin NINODE) (name : List UInt8) : Sys (Option (Fin NINODE)) := do
  let s ← get
  let e := s.slot i
  if e.type ≠ T_DIR then throw (.panic .dirlookupNotDir)
  else if e.fs = .ufs2 then
    match mnt.volume e.dev with
    | none => pure none
    | some v => do
      match ← onDisk e.dev (lookup v e.inum name) with
      | none => pure none
      | some inum => do
        let j ← iget e.dev inum
        pure (some j)
  else do
    let (r, x) ← onDisk e.dev (Native.dirlookup mnt.sb e.dinode name)
    setSlot i (e.withDinode x)
    match r with
    | none => pure none
    | some (inum, _) => do
      let j ← iget e.dev inum
      pure (some j)

/-- The loop of `namex`. -/
def walk (cred : Cred) (parent : Bool) : (fuel : Nat) → (ip : Fin NINODE) →
    (path name : List UInt8) → Sys (Option (Fin NINODE × List UInt8))
  | 0, ip, _, name => pure (some (ip, name))
  | fuel + 1, ip, path, name =>
    match skipelem path with
    | none =>
      if parent then do
        iput mnt ip
        pure none
      else pure (some (ip, name))
    | some (name, path) => do
      ilock mnt ip
      let s ← get
      let e := s.slot ip
      if e.type ≠ T_DIR ∨ inodeAccess cred e.fields 1 = false ∨
          (e.fs ≠ .ufs2 ∧ DIRSIZ < name.length) then do
        iput mnt ip
        pure none
      else if !parent && name == dot then walk cred parent fuel ip path name
      else if parent && path == [] then pure (some (ip, name))
      else do
        match ← dirlookup mnt ip name with
        | none => do
          iput mnt ip
          pure none
        | some next => do
          iput mnt ip
          walk cred parent fuel next path name

/-- Where `namex` starts, and the path it follows from there. -/
def startOf (task : Task) (path : List UInt8) : Sys (Fin NINODE × List UInt8) :=
  if ofList path 0 = slash then
    match dataNamespace mnt path with
    | some path => do
      let ip ← iget FNU_DATA_DEVICE ROOT_INO
      pure (ip, path)
    | none => do
      let ip ← iget ROOTDEV ROOTINO
      pure (ip, path)
  else do
    let ip ← idup task.cwd
    pure (ip, path)

def namex (task : Task) (path : List UInt8) (parent : Bool) :
    Sys (Option (Fin NINODE × List UInt8)) := do
  if !parent && devfsPath path != 0 then do
    let ip ← iget DEVFS_DEVICE (devfsPath path)
    pure (some (ip, []))
  else do
    let (ip, path) ← startOf mnt task path
    walk mnt task.cred parent (path.length + 1) ip path []

def namei (task : Task) (path : List UInt8) : Sys (Option (Fin NINODE)) := do
  let r ← namex mnt task path false
  pure (r.map Prod.fst)

def nameiparent (task : Task) (path : List UInt8) : Sys (Option (Fin NINODE × List UInt8)) :=
  namex mnt task path true

end Proninx.Fs
