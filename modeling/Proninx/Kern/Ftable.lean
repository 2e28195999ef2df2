import Proninx.Kern.Pipe
import Proninx.Lib.Ledger
import Proninx.Lib.RefCount

/-!
# Open files

The table of open files (`file.c`), the descriptor tables of the
processes, and the calls that change them: `open`, `pipe`, `dup` and
`close` (`sysfile.c`, `pipe.c`), `fork` and `exit` (`proc.c`). What a
call does under `ftable.lock` or the lock of a pipe is one step, and so
is what it does to its own descriptor table; `Pc` says where in a call a
process is, so calls of different processes interleave at every lock.

`open` starts here at `filealloc`, with the inode found and checked.
Pages of pipes are numbered in the order they are taken, and `frees`
counts for each how often it went back.
-/

namespace Proninx.Ftable

open Function

open Pipes (End)

def NFILE : Nat := 100
def NOFILE : Nat := 16

abbrev FileId := Fin NFILE

abbrev Fd := Fin NOFILE

/-- `type`, with the pipe that an entry of type `FD_PIPE` points to. -/
inductive Kind where
  | none
  | pipe (page : Nat)
  | inode
  deriving DecidableEq, Repr

structure File where
  kind : Kind
  ref : Nat
  readable : Bool
  writable : Bool
  deriving DecidableEq, Repr

inductive Status where
  | unused
  | embryo
  | live
  | zombie
  deriving DecidableEq, Repr

variable {π : Type}

/-- Where in a call a process is. -/
inductive Pc (π : Type) where
  | idle
  | dup (f : FileId)
  /-- `fileclose` of these, then the call returns. -/
  | close (fs : List FileId)
  | openFd (f : FileId) (readable writable : Bool)
  | openSet (f : FileId) (readable writable : Bool)
  | pipeSecond (f0 : FileId)
  | pipePage (f0 f1 : FileId)
  | pipeFds (f0 f1 : FileId)
  /-- The loop of `fork` over these descriptors. -/
  | fork (np : π) (fds : List Fd)
  /-- The same, between `filedup` and the store into `np->ofile[fd]`. -/
  | forkStore (np : π) (f : FileId) (fd : Fd) (fds : List Fd)
  /-- The loop of `exit` over these descriptors. -/
  | exit (fds : List Fd)
  /-- The same, between `fileclose` and `ofile[fd] = 0`. -/
  | exitClear (fd : Fd) (fds : List Fd)

/-- What `struct proc` says about files. -/
structure Proc (π : Type) where
  status : Status
  ofile : Fd → Option FileId
  pc : Pc π
  /-- `pipeclose(page, writable)` is still to be done by `fileclose`. -/
  closing : Option (Nat × Bool)

inductive Panic where
  | filedup
  | fileclose
  | freedPipe
  deriving DecidableEq, Repr

structure State (π : Type) where
  file : FileId → File
  proc : π → Proc π
  /-- The pages of the pipes; `none` before and after. -/
  pipe : Nat → Option Pipes.Pipe
  created : Nat
  frees : Nat → Nat
  panic : Option Panic

variable [DecidableEq π]

def State.put (s : State π) (p : π) (x : Proc π) : State π :=
  { s with proc := update s.proc p x }

def State.setPc (s : State π) (p : π) (pc : Pc π) : State π := s.put p { s.proc p with pc := pc }

def State.setSlot (s : State π) (p : π) (fd : Fd) (v : Option FileId) : State π :=
  s.put p { s.proc p with ofile := update (s.proc p).ofile fd v }

def State.setFile (s : State π) (f : FileId) (x : File) : State π :=
  { s with file := update s.file f x }

/-! ## `file.c` and `pipe.c` -/

def State.findFile (s : State π) : Option FileId :=
  (List.finRange NFILE).find? fun f => (s.file f).ref = 0

def State.filedup (s : State π) (f : FileId) : State π :=
  if (s.file f).ref < 1 then { s with panic := some .filedup }
  else s.setFile f { s.file f with ref := (s.file f).ref + 1 }

/-- `fileclose` under `ftable.lock`, called by `p`. -/
def State.fileclose (s : State π) (p : π) (f : FileId) : State π :=
  if (s.file f).ref < 1 then { s with panic := some .fileclose }
  else if 0 < (s.file f).ref - 1 then s.setFile f { s.file f with ref := (s.file f).ref - 1 }
  else
    let ff := s.file f
    let s := s.setFile f { ff with ref := 0, kind := .none }
    match ff.kind with
    | .pipe k => s.put p { s.proc p with closing := some (k, ff.writable) }
    | _ => s

def endOf (writable : Bool) : End := if writable then .write else .read

def State.pipeclose (s : State π) (k : Nat) (writable : Bool) : State π :=
  match s.pipe k with
  | none => { s with panic := some .freedPipe }
  | some x =>
    let y := x.pipeclose (endOf writable)
    { s with
      pipe := update s.pipe k y
      frees := update s.frees k (s.frees k + if y.isNone then 1 else 0) }

def fdalloc (o : Fd → Option FileId) : Option Fd :=
  (List.finRange NOFILE).find? fun fd => (o fd).isNone

/-- The end of `pipealloc`: the entries get their pipe. -/
def State.pipealloc (s : State π) (f0 f1 : FileId) (page : Nat → UInt8) : State π :=
  let s := s.setFile f0
    { s.file f0 with kind := .pipe s.created, readable := true, writable := false }
  let s := s.setFile f1
    { s.file f1 with kind := .pipe s.created, readable := false, writable := true }
  { s with
    pipe := update s.pipe s.created (some (Pipes.pipealloc page))
    created := s.created + 1 }

/-- `sys_pipe` from its first `fdalloc` on. -/
def State.pipeFds (s : State π) (p : π) (f0 f1 : FileId) : State π :=
  match fdalloc (s.proc p).ofile with
  | none => s.setPc p (.close [f0, f1])
  | some fd0 =>
    match fdalloc (update (s.proc p).ofile fd0 (some f0)) with
    | none => s.setPc p (.close [f0, f1])
    | some fd1 => ((s.setSlot p fd0 (some f0)).setSlot p fd1 (some f1)).setPc p .idle

/-! ## Steps -/

/-- `p` goes on with its call; `page` is what a `kalloc` gives it. -/
def State.go (s : State π) (p : π) (page : Option (Nat → UInt8)) : Option (State π) :=
  match (s.proc p).closing with
  | some (k, writable) =>
    some ((s.put p { s.proc p with closing := none }).pipeclose k writable)
  | none =>
    match (s.proc p).pc with
    | .idle => none
    | .dup f => some ((s.filedup f).setPc p .idle)
    | .close [] => some (s.setPc p .idle)
    | .close (f :: fs) => some ((s.fileclose p f).setPc p (.close fs))
    | .openFd f r w =>
      match fdalloc (s.proc p).ofile with
      | none => some (s.setPc p (.close [f]))
      | some fd => some ((s.setSlot p fd (some f)).setPc p (.openSet f r w))
    | .openSet f r w =>
      some ((s.setFile f { s.file f with
        kind := .inode, readable := r, writable := w }).setPc p .idle)
    | .pipeSecond f0 =>
      match s.findFile with
      | none => some (s.setPc p (.close [f0]))
      | some f1 => some ((s.setFile f1 { s.file f1 with ref := 1 }).setPc p (.pipePage f0 f1))
    | .pipePage f0 f1 =>
      match page with
      | none => some (s.setPc p (.close [f0, f1]))
      | some page => some ((s.pipealloc f0 f1 page).setPc p (.pipeFds f0 f1))
    | .pipeFds f0 f1 => some (s.pipeFds p f0 f1)
    | .fork np [] =>
      some ((s.put np { s.proc np with status := .live }).setPc p .idle)
    | .fork np (fd :: fds) =>
      match (s.proc p).ofile fd with
      | none => some (s.setPc p (.fork np fds))
      | some f => some ((s.filedup f).setPc p (.forkStore np f fd fds))
    | .forkStore np f fd fds => some ((s.setSlot np fd (some f)).setPc p (.fork np fds))
    | .exit [] =>
      some (s.put p { s.proc p with status := .zombie, pc := .idle })
    | .exit (fd :: fds) =>
      match (s.proc p).ofile fd with
      | none => some (s.setPc p (.exit fds))
      | some f => some ((s.fileclose p f).setPc p (.exitClear fd fds))
    | .exitClear fd fds => some ((s.setSlot p fd none).setPc p (.exit fds))

inductive Act (π : Type) where
  | dup (p : π) (fd : Fd)
  | close (p : π) (fd : Fd)
  | open (p : π) (readable writable : Bool)
  | pipe (p : π)
  /-- `ok` is false when there was no memory for the new process. -/
  | fork (p np : π) (ok : Bool)
  | exit (p : π)
  /-- `waitpid` of the parent of `q`. -/
  | reap (q : π)
  | go (p : π) (page : Option (Nat → UInt8))

/-- A process that is between two calls. -/
def Proc.Ready (x : Proc π) : Prop := x.status = .live ∧ x.pc matches .idle

instance (x : Proc π) : Decidable x.Ready := inferInstanceAs (Decidable (_ ∧ _))

/-- A process starts a call, or goes on with one. -/
def State.act (s : State π) : Act π → Option (State π)
  | .dup p fd =>
    match (s.proc p).ofile fd with
    | none => some s
    | some f =>
      match fdalloc (s.proc p).ofile with
      | none => some s
      | some fd' => some ((s.setSlot p fd' (some f)).setPc p (.dup f))
  | .close p fd =>
    match (s.proc p).ofile fd with
    | none => some s
    | some f => some ((s.setSlot p fd none).setPc p (.close [f]))
  | .open p r w =>
    match s.findFile with
    | none => some s
    | some f => some ((s.setFile f { s.file f with ref := 1 }).setPc p (.openFd f r w))
  | .pipe p =>
    match s.findFile with
    | none => some s
    | some f => some ((s.setFile f { s.file f with ref := 1 }).setPc p (.pipeSecond f))
  | .fork p np ok =>
    if (s.proc np).status = .unused then
      if ok then
        some ((s.put np { s.proc np with status := .embryo }).setPc p
          (.fork np (List.finRange NOFILE)))
      else some s
    else none
  | .exit p => some (s.setPc p (.exit (List.finRange NOFILE)))
  | .reap q =>
    if (s.proc q).status = .zombie then some (s.put q { s.proc q with status := .unused }) else none
  | .go p page => s.go p page

/-- The process that must be between two calls to start this one. -/
def Act.caller : Act π → Option π
  | .dup p _ | .close p _ | .open p _ _ | .pipe p | .fork p _ _ | .exit p => some p
  | .reap _ | .go _ _ => none

def step (s : State π) (a : Act π) : Option (State π) :=
  if s.panic = none ∧ ∀ p ∈ a.caller, (s.proc p).Ready then s.act a else none

/-- The first process, without descriptors. -/
def boot (init : π) : State π where
  file _ := { kind := .none, ref := 0, readable := false, writable := false }
  proc p :=
    { status := if p = init then .live else .unused, ofile := fun _ => none, pc := .idle,
      closing := none }
  pipe _ := none
  created := 0
  frees _ := 0
  panic := none

abbrev Steps (s : State π) (as : List (Act π)) (t : State π) : Prop :=
  Runs.Run (fun s a t => step s a = some t) s as t

end Proninx.Ftable
