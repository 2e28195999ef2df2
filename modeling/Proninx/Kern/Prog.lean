import Proninx.Lib.Bytes

/-!
# Kernel programs over the buffer cache

The file-system code of the kernel talks to the disk through a narrow
interface: `bread`, `bwrite`, `log_write`, `brelse`, the spinlocks it
takes and `panic`. A `Prog` is a computation over exactly that interface; the functions of `fs.c`,
`ufs2.c`, `blockdev.c`, `log.c` and `auth.c` are written once as `Prog`s
and read by several interpreters:

- `Prog.run`: the functional meaning on a plain disk (the buffer cache
  is transparent; `Kern.Bio` is where that is earned),
- the write trace and its crash points (`Kern.LogCrash`).

Every call tree modelled this way stays on one block device, so blocks
are named by number alone.
-/

namespace Proninx

open ByteMem Function

/-- The contents of one disk block. Bytes 0 to `BSIZE - 1` are the block;
no program reads a block buffer past them. -/
abbrev Block := Mem

/-- A disk, block by block. -/
abbrev Disk := Nat → Block

def Disk.set (d : Disk) (b : Nat) (data : Block) : Disk := update d b data

@[simp] lemma Disk.set_same (d : Disk) (b : Nat) (data : Block) : d.set b data b = data :=
  update_self ..

variable {d : Disk}

lemma Disk.set_ne {b c : Nat} {data : Block} (h : c ≠ b) : d.set b data c = d c := update_of_ne h ..

@[simp] lemma Disk.set_self (d : Disk) (b : Nat) : d.set b (d b) = d :=
  update_eq_self ..

/-! ## Parameters (`param.h`, `fs.h`) -/

def BSIZE : Nat := 512
def MAXOPBLOCKS : Nat := 10
def LOGSIZE : Nat := MAXOPBLOCKS * 3
def NBUF : Nat := MAXOPBLOCKS * 3

/-! ## Effects -/

/-- The panics of the modelled code, by their place. -/
inductive Panic where
  | ballocOutOfBlocks
  | freeingFreeBlock
  | bmapOutOfRange
  | iallocNoInodes
  | ilockNoType
  | dirlookupNotDir
  | dirlookupRead
  | dirlinkRead
  | dirlink
  | loaduvmAddress
  /-- Not a `panic` call: a store ran past the object it was meant for. -/
  | overrun
  /-- Not a `panic` call: a loop that never ends. -/
  | hang
  deriving DecidableEq, Repr

/-- The named spinlocks a file-system call takes for itself. -/
inductive SpinLock where
  | ufs2Allocation
  | auth
  deriving DecidableEq, Repr

/-- Effects that return nothing to their caller. -/
inductive Op where
  | bwrite (b : Nat) (data : Block)
  | logWrite (b : Nat) (data : Block)
  | brelse (b : Nat)
  | acquire (l : SpinLock)
  | release (l : SpinLock)

/-- A kernel computation over the buffer-cache interface. -/
inductive Prog (α : Type) where
  | ret (a : α)
  | panic (p : Panic)
  | bread (b : Nat) (k : Block → Prog α)
  | act (o : Op) (k : Prog α)

namespace Prog

variable {α β : Type}

def bind : Prog α → (α → Prog β) → Prog β
  | .ret a, f => f a
  | .panic p, _ => .panic p
  | .bread b k, f => .bread b fun data => (k data).bind f
  | .act o k, f => .act o (k.bind f)

instance : Monad Prog where
  pure := .ret
  bind := Prog.bind

end Prog

/-! ## The interface under the source's names -/

def bread (b : Nat) : Prog Block := .bread b .ret
def bwrite (b : Nat) (data : Block) : Prog Unit := .act (.bwrite b data) (.ret ())
def logWrite (b : Nat) (data : Block) : Prog Unit := .act (.logWrite b data) (.ret ())
def brelse (b : Nat) : Prog Unit := .act (.brelse b) (.ret ())
def acquire (l : SpinLock) : Prog Unit := .act (.acquire l) (.ret ())
def release (l : SpinLock) : Prog Unit := .act (.release l) (.ret ())

/-! ## The functional meaning -/

/-- What an effect does to the contents of the disk as the cache shows it. -/
def Op.store : Op → Disk → Disk
  | .bwrite b data, d => d.set b data
  | .logWrite b data, d => d.set b data
  | _, d => d

namespace Prog

variable {α β : Type}

/-- Run a program on a disk: a result and the new disk, or a panic. -/
def run : Prog α → Disk → Except Panic (α × Disk)
  | .ret a, d => .ok (a, d)
  | .panic p, _ => .error p
  | .bread b k, d => (k (d b)).run d
  | .act o k, d => k.run (o.store d)

@[simp] lemma run_pure (a : α) (d : Disk) : (pure a : Prog α).run d = .ok (a, d) := rfl

lemma run_bind (x : Prog α) (f : α → Prog β) (d : Disk) : (x >>= f).run d = match x.run d with
      | .ok (a, d') => (f a).run d'
      | .error p => .error p := by
  change (x.bind f).run d = _
  induction x generalizing d with
  | ret a => rfl
  | panic p => rfl
  | bread b k ih => exact ih (d b) d
  | act o k ih => exact ih (o.store d)

variable {d' : Disk} {f : α → Prog β} {x : Prog α} {a : α}

lemma run_bind_ok (h : x.run d = .ok (a, d')) : (x >>= f).run d = (f a).run d' := by
  rw [run_bind, h]

lemma run_bind_error {p : Panic} (h : x.run d = .error p) : (x >>= f).run d = .error p := by
  rw [run_bind, h]

lemma run_bind_inv {d'' : Disk} {r : β} (h : (x >>= f).run d = .ok (r, d'')) :
    ∃ a d', x.run d = .ok (a, d') ∧ (f a).run d' = .ok (r, d'') := by
  rw [run_bind] at h
  cases hx : x.run d with
  | ok v => rw [hx] at h; exact ⟨v.1, v.2, rfl, h⟩
  | error p => rw [hx] at h; cases h

@[simp] lemma run_bread_bind (b : Nat) (f : Block → Prog β) (d : Disk) :
    (Proninx.bread b >>= f).run d = (f (d b)).run d := rfl

@[simp] lemma run_bwrite_bind (b : Nat) (data : Block) (f : Unit → Prog β) (d : Disk) :
    (Proninx.bwrite b data >>= f).run d = (f ()).run (d.set b data) := rfl

@[simp] lemma run_logWrite_bind (b : Nat) (data : Block) (f : Unit → Prog β) (d : Disk) :
    (Proninx.logWrite b data >>= f).run d = (f ()).run (d.set b data) := rfl

@[simp] lemma run_brelse_bind (b : Nat) (f : Unit → Prog β) (d : Disk) :
    (Proninx.brelse b >>= f).run d = (f ()).run d := rfl

@[simp] lemma run_acquire_bind (l : SpinLock) (f : Unit → Prog β) (d : Disk) :
    (Proninx.acquire l >>= f).run d = (f ()).run d := rfl

lemma run_acquire (l : SpinLock) (d : Disk) : (Proninx.acquire l).run d = .ok ((), d) := rfl

lemma run_release (l : SpinLock) (d : Disk) : (Proninx.release l).run d = .ok ((), d) := rfl

/-! ### Postconditions -/

/-- On disk `d` the program returns, and `Q` holds of its result and of the
disk it leaves. -/
def Ensures (p : Prog α) (d : Disk) (Q : α → Disk → Prop) : Prop :=
  ∃ a d', p.run d = .ok (a, d') ∧ Q a d'

variable {Q : α → Disk → Prop} {p : Prog α}

lemma Ensures.of_run (h : p.run d = .ok (a, d')) (hq : Q a d') : p.Ensures d Q :=
  ⟨a, d', h, hq⟩

lemma Ensures.pure (h : Q a d) : (Pure.pure a : Prog α).Ensures d Q :=
  ⟨a, d, rfl, h⟩

variable {P : α → Disk → Prop}

lemma Ensures.mono (h : p.Ensures d P) (hpq : ∀ a d', P a d' → Q a d') : p.Ensures d Q := by
  obtain ⟨a, d', hrun, hp⟩ := h
  exact ⟨a, d', hrun, hpq a d' hp⟩

lemma Ensures.bind {Q : β → Disk → Prop} (hx : x.Ensures d P)
    (hf : ∀ a d', P a d' → (f a).Ensures d' Q) : (x >>= f).Ensures d Q := by
  obtain ⟨a, d', hrun, hp⟩ := hx
  obtain ⟨b, d'', hrun', hq⟩ := hf a d' hp
  exact ⟨b, d'', (run_bind_ok hrun).trans hrun', hq⟩

lemma Ensures.step {Q : β → Disk → Prop} (hx : x.run d = .ok (a, d')) (hf : (f a).Ensures d' Q) :
    (x >>= f).Ensures d Q := by
  obtain ⟨b, d'', hrun, hq⟩ := hf
  exact ⟨b, d'', (run_bind_ok hx).trans hrun, hq⟩

lemma Ensures.of_run_eq {q : Prog α} (h : p.run d = q.run d) (hq : q.Ensures d Q) :
    p.Ensures d Q := by
  obtain ⟨a, d', hrun, hq⟩ := hq
  exact ⟨a, d', h.trans hrun, hq⟩

lemma Ensures.of_eq (h : p.Ensures d Q) (hrun : p.run d = .ok (a, d')) : Q a d' := by
  obtain ⟨b, d'', hrun', hq⟩ := h
  rw [hrun] at hrun'
  cases hrun'
  exact hq

lemma ok_of_fst {r : Except Panic (α × Disk)} (h : r.toOption.map (·.1) = some a) :
    ∃ d, r = .ok (a, d) := by
  cases r with
  | error e => cases h
  | ok q => ?_
  cases h
  exact ⟨q.2, rfl⟩

/-- Partial correctness: whenever the program returns, `Q` holds. -/
def Leads (p : Prog α) (d : Disk) (Q : α → Disk → Prop) : Prop :=
  ∀ a d', p.run d = .ok (a, d') → Q a d'

lemma Ensures.leads (h : p.Ensures d Q) : p.Leads d Q :=
  fun _ _ hrun => h.of_eq hrun

lemma Leads.pure (h : Q a d) : (Pure.pure a : Prog α).Leads d Q :=
  (Ensures.pure h).leads

lemma Leads.panic {e : Panic} : (Prog.panic e : Prog α).Leads d Q :=
  fun _ _ hrun => nomatch hrun

lemma Leads.mono (h : p.Leads d P) (hpq : ∀ a d', P a d' → Q a d') : p.Leads d Q :=
  fun a d' hrun => hpq a d' (h a d' hrun)

lemma Leads.bind {Q : β → Disk → Prop} (hx : x.Leads d P) (hf : ∀ a d', P a d' → (f a).Leads d' Q)
    : (x >>= f).Leads d Q := by
  intro b d'' hrun
  obtain ⟨a, d', hrun1, hrun2⟩ := run_bind_inv hrun
  exact hf a d' (hx a d' hrun1) b d'' hrun2

/-- The program returns and `Q` holds, or it panics in one of the ways `E`. -/
def Yields (p : Prog α) (E : Panic → Prop) (d : Disk) (Q : α → Disk → Prop) : Prop :=
  match p.run d with
  | .ok (a, d') => Q a d'
  | .error e => E e

variable {E : Panic → Prop}

lemma Yields.of_run (h : p.run d = .ok (a, d')) (hq : Q a d') : p.Yields E d Q := by
  rw [Yields, h]
  exact hq

lemma Yields.leads (h : p.Yields E d Q) : p.Leads d Q := by
  intro a d' hrun
  rwa [Yields, hrun] at h

lemma Yields.of_isOk (h : p.Yields E d Q) (hok : (p.run d).isOk) :
    ∃ a d', p.run d = .ok (a, d') ∧ Q a d' := by
  unfold Yields at h
  cases hrun : p.run d with
  | error e =>
    rw [hrun] at hok
    cases hok
  | ok r => ?_
  rw [hrun] at h
  exact ⟨r.1, r.2, rfl, h⟩

lemma Yields.mono (h : p.Yields E d P) (hpq : ∀ a d', P a d' → Q a d') : p.Yields E d Q := by
  unfold Yields at *
  cases hrun : p.run d with
  | error e => rwa [hrun] at h
  | ok r => ?_
  rw [hrun] at h
  exact hpq _ _ h

lemma Yields.and (hp : p.Yields E d P) (hq : p.Yields E d Q) :
    p.Yields E d fun a d' => P a d' ∧ Q a d' := by
  unfold Yields at *
  cases hrun : p.run d with
  | error e => rwa [hrun] at hp
  | ok r => ?_
  rw [hrun] at hp hq
  exact ⟨hp, hq⟩

lemma Yields.bind {Q : β → Disk → Prop} (hx : x.Yields E d P)
    (hf : ∀ a d', P a d' → (f a).Yields E d' Q) : (x >>= f).Yields E d Q := by
  unfold Yields at hx
  rw [Yields, run_bind]
  cases hrun : x.run d with
  | error e => rwa [hrun] at hx
  | ok r => ?_
  rw [hrun] at hx
  exact hf _ _ hx

end Prog

end Proninx
