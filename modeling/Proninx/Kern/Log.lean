import Proninx.Kern.Prog
import Proninx.Lib.Writes

/-!
# The redo log (`log.c`)

`commit` and `recover_from_log` as programs over the buffer cache, and
the trace of disk writes a program issues. The trace is what a power cut
can interrupt: the disk after a cut is the disk with some prefix of the
trace applied.

The on-disk header holds a count and that many block numbers. The count
is a C `int`: a negative one makes every loop over the header run zero
times, a count past `LOGSIZE` makes `read_head` write past the in-memory
header.
-/

namespace Proninx

open ByteMem List Prog

/-- Where the log lives: `_log.start` and `_log.size`, from the superblock. -/
structure Log where
  start : Nat
  size : Nat
  deriving DecidableEq, Repr

/-- `b` is a block of the log itself: the header or one of the data blocks. -/
def Log.Owns (lg : Log) (b : Nat) : Prop :=
  b = lg.start ∨ lg.start < b ∧ b < lg.start + lg.size

instance (lg : Log) (b : Nat) : Decidable (lg.Owns b) := by
  unfold Log.Owns; infer_instance

/-- A 32-bit word read as a C `int`. -/
def int32 (w : Nat) : Int := if w < 2 ^ 31 then w else (w : Int) - 2 ^ 32

/-! ## The header block -/

def headerN (data : Block) : Int := int32 (readLe 4 data 0)

def headerBlock (data : Block) (i : Nat) : Nat := readLe 4 data (4 + 4 * i)

def headerBlocks (data : Block) : List Nat :=
  (List.range (headerN data).toNat).map (headerBlock data)

/-- Store block numbers into a header block from slot `i` on. -/
def putBlocks : Nat → List Nat → Block → Block
  | _, [], data => data
  | i, b :: lh, data => putBlocks (i + 1) lh (writeLe 4 data (4 + 4 * i) b)

/-- The header block `write_head` writes over `data`. -/
def putHeader (lh : List Nat) (data : Block) : Block :=
  putBlocks 0 lh (writeLe 4 data 0 lh.length)

/-! ## The programs -/

namespace Log

variable (lg : Log)

/-- `install_trans`, from slot `tail` on. -/
def installTrans : Nat → List Nat → Prog Unit
  | _, [] => pure ()
  | tail, b :: lh => do
    let lbuf ← bread (lg.start + tail + 1)
    let _ ← bread b
    bwrite b lbuf
    brelse (lg.start + tail + 1)
    brelse b
    installTrans (tail + 1) lh

def readHead : Prog (List Nat) := do
  let buf ← bread lg.start
  -- the loop stores into `_log.lh.block[LOGSIZE]`
  if (LOGSIZE : Int) < headerN buf then
    .panic .overrun
  else
    brelse lg.start
    pure (headerBlocks buf)

def writeHead (lh : List Nat) : Prog Unit := do
  let buf ← bread lg.start
  bwrite lg.start (putHeader lh buf)
  brelse lg.start

def recoverFromLog : Prog Unit := do
  let lh ← lg.readHead
  lg.installTrans 0 lh
  lg.writeHead []

/-- `write_log`, from slot `tail` on. -/
def writeLog : Nat → List Nat → Prog Unit
  | _, [] => pure ()
  | tail, b :: lh => do
    let _ ← bread (lg.start + tail + 1)
    let src ← bread b
    bwrite (lg.start + tail + 1) src
    brelse b
    brelse (lg.start + tail + 1)
    writeLog (tail + 1) lh

def commit (lh : List Nat) : Prog Unit :=
  if 0 < lh.length then do
    lg.writeLog 0 lh
    lg.writeHead lh
    lg.installTrans 0 lh
    lg.writeHead []
  else
    pure ()

end Log

/-! ## Traces of disk writes -/

/-- The disk writes a program issues when the cache shows it `v`. A
`log_write` only pins its buffer, so it is not one of them. -/
def Prog.writes {α : Type} : Prog α → Disk → List (Nat × Block)
  | .ret _, _ => []
  | .panic _, _ => []
  | .bread b k, v => (k (v b)).writes v
  | .act (.bwrite b data) k, v => (b, data) :: k.writes (v.set b data)
  | .act o k, v => k.writes (o.store v)

variable {β : Type}

lemma Prog.writes_bind {α : Type} (x : Prog α) (f : α → Prog β) (v : Disk) :
    (x >>= f).writes v = x.writes v ++ match x.run v with
      | .ok (a, v') => (f a).writes v'
      | .error _ => [] := by
  change (x.bind f).writes v = _
  induction x generalizing v with
  | ret a => rfl
  | panic p => rfl
  | bread b k ih => exact ih (v b) v
  | act o k ih => cases o <;> simp [bind, writes, run, Op.store, ih]

lemma Prog.writes_bind_ok {α : Type} {x : Prog α} {f : α → Prog β} {v v' : Disk} {a : α}
    (h : x.run v = .ok (a, v')) : (x >>= f).writes v = x.writes v ++ (f a).writes v' := by
  rw [writes_bind, h]

@[simp] lemma Prog.writes_bread_bind (b : Nat) (f : Block → Prog β) (v : Disk) :
    (Proninx.bread b >>= f).writes v = (f (v b)).writes v := rfl

@[simp] lemma Prog.writes_bwrite_bind (b : Nat) (data : Block) (f : Unit → Prog β) (v : Disk) :
    (Proninx.bwrite b data >>= f).writes v = (b, data) :: (f ()).writes (v.set b data) := rfl

@[simp] lemma Prog.writes_brelse_bind (b : Nat) (f : Unit → Prog β) (v : Disk) :
    (Proninx.brelse b >>= f).writes v = (f ()).writes v := rfl

/-! ## Header round trip -/

lemma putBlocks_out {i : Nat} : ∀ {lh : List Nat} {data : Block} {a : Nat},
    a < 4 + 4 * i → putBlocks i lh data a = data a := by
  intro lh
  induction lh generalizing i with
  | nil => intros; rfl
  | cons b lh ih => ?_
  intro data a h
  rw [putBlocks, ih (by omega), writeLe_out (by omega)]

lemma headerN_putHeader {lh : List Nat} (data : Block) (h : lh.length < 2 ^ 31) :
    headerN (putHeader lh data) = lh.length := by
  have hcount : Agree (putHeader lh data) (writeLe 4 data 0 lh.length) 0 4 :=
    fun i _ hi => putBlocks_out (by omega)
  have hread : readLe 4 (putHeader lh data) 0 = lh.length := by
    rw [readLe_congr hcount, readLe_writeLe_of_lt (by omega)]
  rw [headerN, hread, int32, if_pos h]

lemma headerBlock_putBlocks {lh : List Nat} : ∀ (i j : Nat) (data : Block),
    (∀ b ∈ lh, b < 2 ^ 32) → (hj : j < lh.length) →
      headerBlock (putBlocks i lh data) (i + j) = lh[j] := by
  induction lh with
  | nil => intro i j data _ hj; simp at hj
  | cons b lh ih => ?_
  intro i j data hlt hj
  cases j with
  | zero =>
    have hb : b < 256 ^ 4 := hlt b (mem_cons_self ..)
    have hslot : Agree (putBlocks (i + 1) lh (writeLe 4 data (4 + 4 * i) b))
        (writeLe 4 data (4 + 4 * i) b) (4 + 4 * i) 4 :=
      fun k _ hk => putBlocks_out (by omega)
    simp only [add_zero, putBlocks, headerBlock, getElem_cons_zero]
    rw [readLe_congr hslot, readLe_writeLe_of_lt hb]
  | succ j =>
    have hrest := ih (i + 1) j (writeLe 4 data (4 + 4 * i) b)
      (fun c hc => hlt c (mem_cons_of_mem _ hc)) (by simpa using hj)
    rw [putBlocks, show i + (j + 1) = i + 1 + j by omega, hrest]
    rfl

lemma headerBlocks_putHeader {lh : List Nat} (data : Block) (hlen : lh.length < 2 ^ 31)
    (hlt : ∀ b ∈ lh, b < 2 ^ 32) : headerBlocks (putHeader lh data) = lh := by
  rw [headerBlocks, headerN_putHeader data hlen, Int.toNat_natCast]
  refine ext_getElem (by simp) fun j hj hj' => ?_
  have := headerBlock_putBlocks 0 j (writeLe 4 data 0 lh.length) hlt hj'
  simpa [putHeader] using this

end Proninx
