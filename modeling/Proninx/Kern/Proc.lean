import Mathlib.Data.Fintype.Basic
import Proninx.Kern.Auth
import Proninx.Lib.Runs

/-!
# Processes, credentials, signals and terminals

The process table (`proc.c`), the system calls on credentials and signals
(`sysproc.c`) and the keyboard side of the console (`console.c`), for any
number of processes in any order. A process that runs takes its system
calls; `fork` is cut where it releases the lock of the table, so the new
process is an `EMBRYO` that others can see before its fields are filled
in. Sleeping and waking are steps of their own: every channel may be
woken at any time.

`born`, `created`, `checks`, `elevations` and `setting` are history.
-/

namespace Proninx.Ptable

open Function

def NPROC : Nat := 64
def NVT : Nat := 4
def NSIG : Nat := 32
def SIGINT : Nat := 2
def SIGKILL : Nat := 9
def KBD_VT_BASE : Nat := 0x200

abbrev Slot := Fin NPROC

/-- A terminal. -/
abbrev Tty := Fin NVT

inductive ProcState where
  | unused
  | embryo
  | sleeping
  | runnable
  | running
  | zombie
  deriving DecidableEq, Repr

structure Proc where
  state : ProcState
  pid : Int
  parent : Option Slot
  killed : Bool
  sigPending : BitVec 32
  sigCatch : BitVec 32
  uid : Nat
  gid : Nat
  doasGrant : Bool
  /-- `minor` of the console device that is descriptor 0, if one is. -/
  stdin : Option Int
  /-- The number of its `allocproc`. -/
  born : Nat
  deriving DecidableEq, Repr

/-- A call of `setforeground`: the pid, who made it, and whom the pid
named then. -/
structure Setting where
  pid : Int
  uid : Nat
  wheel : Bool
  /-- `born` and uid of the process with that pid. -/
  target : Option (Nat × Nat)
  deriving DecidableEq, Repr

structure State where
  proc : Slot → Proc
  nextpid : Int
  /-- The slot that `allocproc` gave to a process inside `fork`. -/
  forking : Slot → Option Slot
  table : Auth.Table
  /-- The terminal on the screen. -/
  active : Tty
  /-- Whether a terminal has its cell buffer. -/
  cells : Tty → Bool
  fgpid : Tty → Int
  /-- `ICANON` in `term.c_lflag` -/
  canonical : Bool
  /-- Calls of `allocproc` that found a slot. -/
  created : Nat
  /-- Calls of `doas_auth` that returned 0. -/
  checks : Nat
  /-- Calls of `setuid(0)` that returned 0 to a process with another uid. -/
  elevations : Nat
  /-- The last `setforeground` of each terminal. -/
  setting : Tty → Option Setting

open State

def State.put (s : State) (p : Slot) (x : Proc) : State :=
  { s with proc := update s.proc p x }

lemma State.put_proc (s : State) (p q : Slot) (x : Proc) :
    (s.put p x).proc q = if q = p then x else s.proc q :=
  update_apply ..

/-! ## Creating and reaping -/

def initproc : Slot := ⟨0, by decide⟩

/-- The slot of the second process. -/
def childproc : Slot := ⟨1, by decide⟩

def State.findUnused (s : State) : Option Slot :=
  (List.finRange NPROC).find? fun p => (s.proc p).state = .unused

/-- `nextpid++` on an `int`. -/
def incPid (n : Int) : Int := if n = 2 ^ 31 - 1 then -2 ^ 31 else n + 1

/-- The part of `allocproc` under the lock. -/
def State.allocproc (s : State) (np : Slot) : State :=
  { s.put np { s.proc np with
      state := .embryo
      pid := s.nextpid
      uid := 0
      gid := 0
      doasGrant := false
      sigPending := 0
      sigCatch := 0
      born := s.created } with
    nextpid := incPid s.nextpid
    created := s.created + 1 }

def State.forkAlloc (s : State) (p : Slot) : State :=
  match s.findUnused with
  | none => s
  | some np => { s.allocproc np with forking := update s.forking p (some np) }

/-- The rest of `fork`: `ok` is false when a page for the stack or for a
copy of the memory could not be had. -/
def State.forkCopy (s : State) (p np : Slot) (ok : Bool) : State :=
  let s := { s with forking := update s.forking p none }
  if ok then
    s.put np { s.proc np with
      state := .runnable
      parent := some p
      uid := (s.proc p).uid
      gid := (s.proc p).gid
      doasGrant := (s.proc p).doasGrant
      stdin := (s.proc p).stdin }
  else s.put np { s.proc np with state := .unused }

/-- `exit`: the children go to `initproc`. -/
def State.exit (s : State) (p : Slot) : State :=
  { s with proc := fun q =>
      let x := if (s.proc q).parent = some p then { s.proc q with parent := some initproc }
        else s.proc q
      if q = p then { x with state := .zombie, stdin := none } else x }

/-- `waitpid` when it finds the zombie `q`. -/
def State.reap (s : State) (q : Slot) : State :=
  s.put q { s.proc q with
    state := .unused
    pid := 0
    parent := none
    killed := false
    sigPending := 0
    sigCatch := 0 }

/-! ## Signals -/

def SIGMASK (sig : Nat) : BitVec 32 := 1#32 <<< sig

def Proc.raise (x : Proc) (sig : Nat) : Proc :=
  { x with
    sigPending := if sig ≠ 0 then x.sigPending ||| SIGMASK sig else x.sigPending
    killed := if sig = SIGKILL ∨ (sig ≠ 0 ∧ SIGMASK sig &&& x.sigCatch = 0 ∧ x.pid ≠ 1) then true
      else x.killed
    state := if x.state = .sleeping then .runnable else x.state }

def State.findPid (s : State) (pid : Int) : Option Slot :=
  (List.finRange NPROC).find? fun p => (s.proc p).state ≠ .unused ∧ (s.proc p).pid = pid

/-- `kill`; `self` is the process that runs, if one does. -/
def State.kill (s : State) (self : Option Slot) (pid : Int) (sig : Nat) : State :=
  if NSIG ≤ sig then s
  else if pid = -1 then
    { s with proc := fun q =>
        if (s.proc q).state = .unused ∨ (s.proc q).pid ≤ 1 ∨ some q = self then s.proc q
        else (s.proc q).raise sig }
  else
    match s.findPid pid with
    | none => s
    | some q => s.put q ((s.proc q).raise sig)

def State.maySignal (s : State) (p : Slot) (pid : Int) : Bool :=
  (s.proc p).uid == 0 || s.table.isWheel (s.proc p).uid ||
    (decide (0 ≤ pid) && match s.findPid pid with
      | some q => (s.proc q).uid == (s.proc p).uid
      | none => false)

/-- `signal_take`: the lowest signal that is pending and claimed. -/
def Proc.take (x : Proc) : Proc :=
  let ready := x.sigPending &&& x.sigCatch
  match (List.range NSIG).find? fun sig => sig ≠ 0 ∧ ready &&& SIGMASK sig ≠ 0 with
  | none => x
  | some sig => { x with sigPending := x.sigPending &&& ~~~SIGMASK sig }

/-! ## Terminals -/

def State.ttyOf (s : State) (tty : Int) : Tty :=
  if h : 0 ≤ tty ∧ tty < NVT then ⟨tty.toNat, (Int.toNat_lt h.1).mpr h.2⟩ else s.active

/-- The terminal `sys_setforeground` writes for `p`. -/
def State.ttyFor (s : State) (p : Slot) : Tty := s.ttyOf ((s.proc p).stdin.getD (-1))

def State.setforeground (s : State) (p : Slot) (pid : Int) : State :=
  if pid < 0 then s
  else { s with
    fgpid := update s.fgpid (s.ttyFor p) pid
    setting := update s.setting (s.ttyFor p) (some {
      pid := pid
      uid := (s.proc p).uid
      wheel := s.table.isWheel (s.proc p).uid
      target := (s.findPid pid).map fun q => ((s.proc q).born, (s.proc q).uid) }) }

def State.vtSwitch (s : State) (n : Nat) : State :=
  if h : n < NVT then if s.cells ⟨n, h⟩ then { s with active := ⟨n, h⟩ } else s else s

def State.ctrlC (s : State) : Option Slot :=
  if 0 < s.fgpid s.active then s.findPid (s.fgpid s.active) else none

/-- `consoleintr` for one character. The line editing it does is left out. -/
def State.key (s : State) (c : Nat) : State :=
  if KBD_VT_BASE ≤ c ∧ c < KBD_VT_BASE + NVT then s.vtSwitch (c - KBD_VT_BASE)
  else if s.canonical ∧ c = 3 ∧ 0 < s.fgpid s.active then s.kill none (s.fgpid s.active) SIGINT
  else s

/-! ## System calls -/

inductive Call where
  | fork
  | exec
  | waitpid (q : Slot)
  | login (name password : List UInt8)
  | doasAuth (password : List UInt8)
  | setuid (uid : Int)
  | useradd (name password : List UInt8) (wheel stored : Bool)
  | passwd (name password : List UInt8) (stored : Bool)
  | signal (pid : Int) (sig : Nat)
  | sigcatch (mask : BitVec 32)
  | sigwait
  | setforeground (pid : Int)
  /-- Descriptor 0 becomes another file. -/
  | reopen (tty : Option Int)
  /-- `ICANON` is set or cleared. -/
  | ioctl (canonical : Bool)
  deriving DecidableEq, Repr

variable (sha256 : List UInt8 → List UInt8)

def State.login (s : State) (p : Slot) (name password : List UInt8) : State :=
  match s.table.login sha256 name password with
  | none => s
  | some (uid, gid) => s.put p { s.proc p with uid := uid, gid := gid, doasGrant := false }

def State.doasAuth (s : State) (p : Slot) (password : List UInt8) : State :=
  if s.table.doas sha256 (s.proc p).uid password then
    { s.put p { s.proc p with doasGrant := true } with checks := s.checks + 1 }
  else s

def State.setuid (s : State) (p : Slot) (uid : Int) : State :=
  if uid ≠ 0 then s
  else if (s.proc p).uid ≠ 0 ∧ (s.proc p).doasGrant = false then s
  else { s.put p { s.proc p with uid := 0, gid := 0, doasGrant := false } with
    elevations := if (s.proc p).uid ≠ 0 then s.elevations + 1 else s.elevations }

/-- A system call of the process `p`. `exec` keeps the credentials, and
replaces only what is not modelled here. -/
def State.call (s : State) (p : Slot) : Call → State
  | .fork => s.forkAlloc p
  | .exec => s
  | .waitpid q =>
    if (s.proc q).parent = some p ∧ (s.proc q).state = .zombie then s.reap q else s
  | .login name password => s.login sha256 p name password
  | .doasAuth password => s.doasAuth sha256 p password
  | .setuid uid => s.setuid p uid
  | .useradd name password wheel stored =>
    if (s.proc p).uid ≠ 0 then s
    else { s with table := s.table.addUser sha256 name password wheel stored }
  | .passwd name password stored =>
    { s with table := s.table.setPassword sha256 (s.proc p).uid name password stored }
  | .signal pid sig => if s.maySignal p pid then s.kill (some p) pid sig else s
  | .sigcatch mask => s.put p { s.proc p with sigCatch := mask &&& ~~~SIGMASK SIGKILL }
  | .sigwait => s.put p (s.proc p).take
  | .setforeground pid => s.setforeground p pid
  | .reopen tty => s.put p { s.proc p with stdin := tty }
  | .ioctl canonical => { s with canonical := canonical }

inductive Act where
  | schedule (p : Slot)
  | yield (p : Slot)
  | sleep (p : Slot)
  | wakeup (p : Slot)
  | call (p : Slot) (c : Call)
  | forkCopy (p : Slot) (ok : Bool)
  | exit (p : Slot)
  | key (c : Nat)
  deriving DecidableEq, Repr

/-- Move a process from one state to another. -/
def State.switch (s : State) (p : Slot) (before after : ProcState) : Option State :=
  if (s.proc p).state = before then some (s.put p { s.proc p with state := after }) else none

/-- A step of the machine; `exit` of `initproc` is a panic. -/
def step (s : State) : Act → Option State
  | .schedule p => s.switch p .runnable .running
  | .yield p => s.switch p .running .runnable
  | .sleep p => s.switch p .running .sleeping
  | .wakeup p => s.switch p .sleeping .runnable
  | .call p c =>
    if (s.proc p).state = .running ∧ s.forking p = none then some (s.call sha256 p c) else none
  | .forkCopy p ok =>
    if (s.proc p).state = .running then (s.forking p).map fun np => s.forkCopy p np ok else none
  | .exit p =>
    if (s.proc p).state = .running ∧ s.forking p = none ∧ p ≠ initproc then some (s.exit p)
    else none
  | .key c => some (s.key c)

/-- An unused slot as the kernel starts with it. -/
def emptyProc : Proc := ⟨.unused, 0, none, false, 0, 0, 0, 0, false, none, 0⟩

/-- After `userinit`: one process, with pid 1 and uid 0. -/
def boot (table : Auth.Table) : State where
  proc := update (fun _ => emptyProc) initproc { emptyProc with state := .runnable, pid := 1 }
  nextpid := 2
  forking := fun _ => none
  table := table
  active := ⟨0, by decide⟩
  cells := fun _ => true
  fgpid := fun _ => 0
  canonical := true
  created := 1
  checks := 0
  elevations := 0
  setting := fun _ => none

lemma boot_proc (table : Auth.Table) (q : Slot) : (boot table).proc q =
    if q = initproc then { emptyProc with state := .runnable, pid := 1 } else emptyProc :=
  update_apply (fun _ => emptyProc) initproc _ q

/-! ## What a step can do

`step_cases` says it once: a step is quiet, or it is one of the few that
make a process, change credentials or set a foreground. -/

section Steps

variable {sha256} {s t : State}

/-- A process that runs or can run. -/
def Proc.Live (x : Proc) : Prop :=
  x.state = .sleeping ∨ x.state = .runnable ∨ x.state = .running

/-- The same process with the same credentials, or a slot that was reaped. -/
structure Proc.Kept (x y : Proc) : Prop where
  uid : y.uid = x.uid
  grant : y.doasGrant = x.doasGrant
  live : y.Live → x.Live
  number : y.pid = 0 ∨ y.pid = x.pid ∧ y.born = x.born

lemma Proc.Kept.refl (x : Proc) : x.Kept x := ⟨rfl, rfl, id, .inr ⟨rfl, rfl⟩⟩

/-- What is counted and what the terminals remember. -/
def State.record (s : State) : (Int × Nat × Nat × Nat) × (Tty → Int) × (Tty → Option Setting) :=
  ((s.nextpid, s.created, s.checks, s.elevations), s.fgpid, s.setting)

/-- A step that changes neither. -/
structure Quiet (s t : State) : Prop where
  proc : ∀ q, (s.proc q).Kept (t.proc q)
  record : t.record = s.record

lemma Quiet.of_proc (hproc : t.proc = s.proc) (hrec : t.record = s.record) : Quiet s t :=
  ⟨fun _ => hproc ▸ .refl _, hrec⟩

lemma Quiet.refl (s : State) : Quiet s s := .of_proc rfl rfl

variable {p : Slot}

lemma Quiet.put {x : Proc} (h : (s.proc p).Kept x) : Quiet s (s.put p x) := by
  refine ⟨fun q => ?_, rfl⟩
  rw [put_proc]
  split
  · next hq => exact hq ▸ h
  · exact .refl _

lemma Proc.raise_kept (x : Proc) (sig : Nat) : x.Kept (x.raise sig) := by
  refine ⟨rfl, rfl, fun h => ?_, .inr ⟨rfl, rfl⟩⟩
  unfold Proc.raise at h
  by_cases hx : x.state = .sleeping
  · exact .inl hx
  · simpa [Proc.Live, hx] using h

lemma kill_quiet (self : Option Slot) (pid : Int) (sig : Nat) : Quiet s (s.kill self pid sig) := by
  unfold kill
  split
  · exact .refl s
  split
  · refine ⟨fun q => ?_, rfl⟩
    dsimp only
    split
    · exact .refl (s.proc q)
    · exact (s.proc q).raise_kept sig
  · split
    · exact .refl s
    · exact .put (Proc.raise_kept ..)

lemma Proc.take_kept (x : Proc) : x.Kept x.take := by
  unfold Proc.take
  dsimp only
  split
  · exact .refl x
  · exact ⟨rfl, rfl, id, .inr ⟨rfl, rfl⟩⟩

lemma vtSwitch_quiet (n : Nat) : Quiet s (s.vtSwitch n) := by
  unfold vtSwitch
  split
  · split
    · exact .of_proc rfl rfl
    · exact .refl s
  · exact .refl s

lemma key_quiet (c : Nat) : Quiet s (s.key c) := by
  unfold key
  split
  · exact vtSwitch_quiet _
  split
  · exact kill_quiet ..
  · exact .refl s

lemma exit_quiet (h : (s.proc p).state = .running) : Quiet s (s.exit p) := by
  refine ⟨fun q => ?_, rfl⟩
  unfold exit
  dsimp only
  split
  · next hq =>
    have hlive : (s.proc q).Live := hq ▸ .inr (.inr h)
    split <;> exact ⟨rfl, rfl, fun _ => hlive, .inr ⟨rfl, rfl⟩⟩
  · split <;> exact ⟨rfl, rfl, id, .inr ⟨rfl, rfl⟩⟩

lemma switch_quiet {before after : ProcState}
    (hbefore : before = .sleeping ∨ before = .runnable ∨ before = .running)
    (h : s.switch p before after = some t) : Quiet s t := by
  unfold switch at h
  split at h
  · next hst =>
    cases h
    refine .put ⟨rfl, rfl, fun _ => ?_, .inr ⟨rfl, rfl⟩⟩
    unfold Proc.Live
    rwa [hst]
  · cases h

/-- What a step can do. -/
inductive Effect (sha256 : List UInt8 → List UInt8) (s : State) : Act → State → Prop where
  | quiet {a : Act} {t : State} (h : Quiet s t) : Effect sha256 s a t
  | alloc {p np : Slot} :
      Effect sha256 s (.call p .fork)
        { s.allocproc np with forking := update s.forking p (some np) }
  | child {p np : Slot} (hnp : s.forking p = some np) :
      Effect sha256 s (.forkCopy p true) (s.forkCopy p np true)
  | login {p : Slot} {name password : List UInt8} {uid gid : Nat}
      (h : s.table.login sha256 name password = some (uid, gid)) :
      Effect sha256 s (.call p (.login name password))
        (s.put p { s.proc p with uid := uid, gid := gid, doasGrant := false })
  | check {p : Slot} {password : List UInt8}
      (h : s.table.doas sha256 (s.proc p).uid password) :
      Effect sha256 s (.call p (.doasAuth password))
        { s.put p { s.proc p with doasGrant := true } with checks := s.checks + 1 }
  | elevate {p : Slot} (hrun : (s.proc p).state = .running) (hne : (s.proc p).uid ≠ 0)
      (h : (s.proc p).doasGrant = true) :
      Effect sha256 s (.call p (.setuid 0))
        { s.put p { s.proc p with uid := 0, gid := 0, doasGrant := false } with
          elevations := s.elevations + 1 }
  | remain {p : Slot} (hrun : (s.proc p).state = .running) (h : (s.proc p).uid = 0) :
      Effect sha256 s (.call p (.setuid 0))
        (s.put p { s.proc p with uid := 0, gid := 0, doasGrant := false })
  | foreground {p : Slot} {pid : Int} (h : 0 ≤ pid) :
      Effect sha256 s (.call p (.setforeground pid)) (s.setforeground p pid)

lemma call_cases (hrun : (s.proc p).state = .running) (c : Call) :
    Effect sha256 s (.call p c) (s.call sha256 p c) := by
  cases c with
  | fork =>
    unfold call forkAlloc
    dsimp only
    split
    · exact .quiet (.refl s)
    · exact .alloc
  | exec => exact .quiet (.refl s)
  | waitpid q =>
    unfold call
    dsimp only
    split
    · exact .quiet (.put ⟨rfl, rfl, fun h => by simp [Proc.Live] at h, .inl rfl⟩)
    · exact .quiet (.refl s)
  | login name password =>
    unfold call login
    dsimp only
    split
    · exact .quiet (.refl s)
    · next h => exact .login h
  | doasAuth password =>
    unfold call doasAuth
    dsimp only
    split
    · next h => exact .check h
    · exact .quiet (.refl s)
  | setuid uid =>
    unfold call setuid
    dsimp only
    split
    · exact .quiet (.refl s)
    next huid =>
    obtain rfl : uid = 0 := not_not.mp huid
    split
    · exact .quiet (.refl s)
    next hgrant =>
    by_cases hne : (s.proc p).uid = 0
    · rw [if_neg (not_not.mpr hne)]
      exact .remain hrun hne
    rw [if_pos hne]
    exact .elevate hrun hne (by simpa [hne] using hgrant)
  | useradd name password wheel stored =>
    unfold call
    dsimp only
    split
    · exact .quiet (.refl s)
    · exact .quiet (.of_proc rfl rfl)
  | passwd name password stored => exact .quiet (.of_proc rfl rfl)
  | signal pid sig =>
    unfold call
    dsimp only
    split
    · exact .quiet (kill_quiet ..)
    · exact .quiet (.refl s)
  | sigcatch mask => exact .quiet (.put ⟨rfl, rfl, id, .inr ⟨rfl, rfl⟩⟩)
  | sigwait => exact .quiet (.put (Proc.take_kept _))
  | setforeground pid =>
    by_cases hpid : 0 ≤ pid
    · exact .foreground hpid
    have hsame : s.call sha256 p (.setforeground pid) = s := if_pos (not_le.mp hpid)
    rw [hsame]
    exact .quiet (.refl s)
  | reopen tty => exact .quiet (.put ⟨rfl, rfl, id, .inr ⟨rfl, rfl⟩⟩)
  | ioctl canonical => exact .quiet (.of_proc rfl rfl)

lemma step_cases {a : Act} (h : step sha256 s a = some t) : Effect sha256 s a t := by
  cases a with
  | schedule p => exact .quiet (switch_quiet (by simp) h)
  | yield p => exact .quiet (switch_quiet (by simp) h)
  | sleep p => exact .quiet (switch_quiet (by simp) h)
  | wakeup p => exact .quiet (switch_quiet (by simp) h)
  | call p c =>
    unfold step at h
    dsimp only at h
    split at h
    · next hrun =>
      cases h
      exact call_cases hrun.1 c
    · cases h
  | forkCopy p ok =>
    unfold step at h
    dsimp only at h
    split at h
    · obtain ⟨np, hnp, rfl⟩ := Option.map_eq_some_iff.mp h
      cases ok with
      | true => exact .child hnp
      | false => ?_
      refine .quiet ?_
      have hput : Quiet s (s.put np { s.proc np with state := .unused }) :=
        .put ⟨rfl, rfl, fun h => by simp [Proc.Live] at h, .inr ⟨rfl, rfl⟩⟩
      exact ⟨hput.proc, rfl⟩
    · cases h
  | exit p =>
    unfold step at h
    dsimp only at h
    split at h
    · next hrun =>
      cases h
      exact .quiet (exit_quiet hrun.1)
    · cases h
  | key c =>
    cases h
    exact .quiet (key_quiet c)

lemma step_call {c : Call} (hrun : (s.proc p).state = .running) (hfork : s.forking p = none) :
    step sha256 s (.call p c) = some (s.call sha256 p c) :=
  if_pos ⟨hrun, hfork⟩

lemma login_eq {name password : List UInt8} {uid gid : Nat}
    (h : s.table.login sha256 name password = some (uid, gid)) :
    s.call sha256 p (.login name password) =
      s.put p { s.proc p with uid := uid, gid := gid, doasGrant := false } := by
  unfold call login
  dsimp only
  rw [h]

end Steps

end Proninx.Ptable
