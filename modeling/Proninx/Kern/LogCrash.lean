import Proninx.Kern.Log

/-!
# Crash atomicity of the log

A machine is a disk, what its buffer cache shows (`view`: the disk plus
the pinned buffers of the running transaction) and the in-memory log
header. A power cut during `commit` leaves the disk with a prefix of the
trace of `commit` applied; the next boot runs `recover_from_log` on that
disk with a cold cache, and may be cut as well.

Recovery only ever meets two kinds of disk: `Clean` ones, whose header
is empty and whose home blocks are final, and `Pending` ones, whose
header lists a transaction that sits complete in the log. Cutting a
recovery leads from these to these; completing it leads to a clean one
with the same target.
-/

namespace Proninx

open ByteMem Disk Function List Prod Prog Writes

/-! ## Machines -/

structure Machine where
  disk : Disk
  view : Disk
  /-- `_log.lh`: the block numbers logged so far. -/
  lh : List Nat

/-- `log_write` of a modified buffer: pin its contents and record the
block once (log absorption). -/
def Machine.logWrite (m : Machine) (b : Nat) (data : Block) : Machine where
  disk := m.disk
  view := m.view.set b data
  lh := if b ∈ m.lh then m.lh else m.lh ++ [b]

namespace Log

variable (lg : Log)

/-- The disk after a program of trace `ws` was cut after `k` writes. -/
def cut (d : Disk) (ws : List (Nat × Block)) (k : Nat) : Disk := apply d (ws.take k)

/-- Machine states between system calls: `initlog` recovers from any disk
it can read the header of, then transactions are logged and committed.
Callers log 32-bit block numbers outside the log; the two length bounds
are the tests `log_write` makes. -/
inductive Running : Machine → Prop where
  | initlog {d v : Disk} (h : lg.recoverFromLog.run d = .ok ((), v)) :
      Running ⟨apply d (lg.recoverFromLog.writes d), v, []⟩
  | logWrite {m : Machine} {b : Nat} {data : Block} (hm : Running m)
      (hlog : m.lh.length < LOGSIZE) (hsize : m.lh.length < lg.size - 1)
      (hb : b < 2 ^ 32) (hout : ¬ lg.Owns b) : Running (m.logWrite b data)
  | commit {m : Machine} {v : Disk} (hm : Running m)
      (h : (lg.commit m.lh).run m.view = .ok ((), v)) :
      Running ⟨apply m.disk ((lg.commit m.lh).writes m.view), v, []⟩

/-- The disk after `commit` was cut after `k` disk writes. -/
def crashDisk (m : Machine) (k : Nat) : Disk :=
  cut m.disk ((lg.commit m.lh).writes m.view) k

/-- One recovery cut after some number of disk writes. -/
def Interrupted (d d' : Disk) : Prop := ∃ j, d' = cut d (lg.recoverFromLog.writes d) j

/-! ## The traces of the two loops -/

/-- The writes of `install_trans` when the log blocks are as `v` has them. -/
def installs (v : Disk) : Nat → List Nat → List (Nat × Block)
  | _, [] => []
  | tail, b :: lh => (b, v (lg.start + tail + 1)) :: installs v (tail + 1) lh

/-- The writes of `write_log` when the home blocks are as `v` has them. -/
def copies (v : Disk) : Nat → List Nat → List (Nat × Block)
  | _, [] => []
  | tail, b :: lh => (lg.start + tail + 1, v b) :: copies v (tail + 1) lh

/-- The shape of a logged block list: it fits the header and the log, and
names no block of the log itself. -/
structure Fits (lh : List Nat) : Prop where
  count : lh.length ≤ LOGSIZE
  room : lh.length < lg.size ∨ lh = []
  width : ∀ b ∈ lh, b < 2 ^ 32
  home : ∀ b ∈ lh, ¬ lg.Owns b

variable {lg} {v : Disk} {lh : List Nat}

lemma installs_congr {v' : Disk} : ∀ {tail : Nat},
    (∀ i, tail ≤ i → i < tail + lh.length → v (lg.start + i + 1) = v' (lg.start + i + 1)) →
      lg.installs v tail lh = lg.installs v' tail lh := by
  induction lh with
  | nil => intros; rfl
  | cons b lh ih => ?_
  intro tail h
  rw [installs, installs, h tail (by omega) (by simp),
    ih fun i hi hj => h i (by omega) (by simp; omega)]

lemma copies_congr {v' : Disk} : ∀ {tail : Nat},
    (∀ b ∈ lh, v b = v' b) → lg.copies v tail lh = lg.copies v' tail lh := by
  induction lh with
  | nil => intros; rfl
  | cons b lh ih => ?_
  intro tail h
  rw [copies, copies, h b (mem_cons_self ..), ih fun c hc => h c (mem_cons_of_mem _ hc)]

/-- `install_trans` always runs through, whatever the header lists, and
on a cold cache the disk ends up as its trace says. -/
lemma installTrans_run (lh : List Nat) : ∀ (tail : Nat) (v : Disk),
    (lg.installTrans tail lh).run v = .ok ((), apply v ((lg.installTrans tail lh).writes v)) := by
  induction lh with
  | nil => intro tail v; rfl
  | cons b lh ih => intro tail v; exact ih _ _

lemma installTrans_trace : ∀ {tail : Nat} {v : Disk},
    (∀ b ∈ lh, ¬ lg.Owns b) → tail + lh.length < lg.size ∨ lh = [] →
      (lg.installTrans tail lh).writes v = lg.installs v tail lh
        ∧ (lg.installTrans tail lh).run v = .ok ((), apply v (lg.installs v tail lh)) := by
  induction lh with
  | nil => intros; exact ⟨rfl, rfl⟩
  | cons b lh ih => ?_
  intro tail v hout hroom
  have hlen : tail + (lh.length + 1) < lg.size := by simpa using hroom
  have hb := hout b (mem_cons_self ..)
  -- the home block just written is not one of the log blocks still to be read
  have hlog : lg.installs (v.set b (v (lg.start + tail + 1))) (tail + 1) lh
      = lg.installs v (tail + 1) lh := by
    refine installs_congr fun i hi hj => set_ne ?_
    rintro rfl
    exact hb (.inr ⟨by omega, by omega⟩)
  obtain ⟨hw, hr⟩ := @ih (tail + 1) (v.set b (v (lg.start + tail + 1)))
    (fun c hc => hout c (mem_cons_of_mem _ hc)) (.inl (by omega))
  rw [hlog] at hw hr
  exact ⟨congrArg (List.cons _) hw, hr⟩

lemma writeLog_trace : ∀ {tail : Nat} {v : Disk},
    (∀ b ∈ lh, ¬ lg.Owns b) → tail + lh.length < lg.size ∨ lh = [] →
      (lg.writeLog tail lh).writes v = lg.copies v tail lh
        ∧ (lg.writeLog tail lh).run v = .ok ((), apply v (lg.copies v tail lh)) := by
  induction lh with
  | nil => intros; exact ⟨rfl, rfl⟩
  | cons b lh ih => ?_
  intro tail v hout hroom
  have hlen : tail + (lh.length + 1) < lg.size := by simpa using hroom
  have hhome : lg.copies (v.set (lg.start + tail + 1) (v b)) (tail + 1) lh
      = lg.copies v (tail + 1) lh := by
    refine copies_congr fun c hc => set_ne ?_
    rintro rfl
    exact hout _ (mem_cons_of_mem _ hc) (.inr ⟨by omega, by omega⟩)
  obtain ⟨hw, hr⟩ := @ih (tail + 1) (v.set (lg.start + tail + 1) (v b))
    (fun c hc => hout c (mem_cons_of_mem _ hc)) (.inl (by omega))
  rw [hhome] at hw hr
  exact ⟨congrArg (List.cons _) hw, hr⟩

lemma writeHead_run (lh : List Nat) (v : Disk) :
    (lg.writeHead lh).run v = .ok ((), v.set lg.start (putHeader lh (v lg.start))) := rfl

lemma writeHead_trace (lh : List Nat) (v : Disk) :
    (lg.writeHead lh).writes v = [(lg.start, putHeader lh (v lg.start))] := rfl

lemma copies_fst : ∀ {tail : Nat}, ∀ w ∈ lg.copies v tail lh,
    lg.start + tail + 1 ≤ w.1 ∧ w.1 < lg.start + tail + 1 + lh.length := by
  induction lh with
  | nil => intro tail w hw; simp [copies] at hw
  | cons b lh ih => ?_
  intro tail w hw
  rcases mem_cons.mp hw with rfl | hw
  · simp
  have := ih w hw
  simp only [length_cons]
  omega

lemma length_copies : ∀ {tail : Nat}, (lg.copies v tail lh).length = lh.length := by
  induction lh with
  | nil => intro tail; rfl
  | cons b lh ih => intro tail; rw [copies, length_cons, ih, length_cons]

/-- After the copies, log block `tail + i` holds the `i`-th logged block. -/
lemma apply_copies : ∀ {tail : Nat} {d : Disk} {i : Nat} (hi : i < lh.length),
    apply d (lg.copies v tail lh) (lg.start + tail + i + 1) = v lh[i] := by
  induction lh with
  | nil => intro tail d i hi; simp at hi
  | cons b lh ih => ?_
  intro tail d i hi
  cases i with
  | zero =>
    rw [copies, apply_cons, apply_of_not_mem]
    · simp
    intro w hw
    have := copies_fst w hw
    omega
  | succ i =>
    have := @ih (tail + 1) (update d (lg.start + tail + 1) (v b)) i (by simpa using hi)
    rw [copies, apply_cons,
      show lg.start + tail + (i + 1) + 1 = lg.start + (tail + 1) + i + 1 by omega, this]
    rfl

/-! ## Clean and pending disks -/

/-- The log is empty and every home block is as `tgt` has it. -/
structure Clean (lg : Log) (tgt d : Disk) : Prop where
  header : headerN (d lg.start) = 0
  home : ∀ b, ¬ lg.Owns b → d b = tgt b

/-- The header lists `lh`, whose blocks sit in the log as `tgt` has them;
the other home blocks are as `tgt` has them already. -/
structure Pending (lg : Log) (lh : List Nat) (tgt d : Disk) : Prop where
  count : headerN (d lg.start) = lh.length
  header : headerBlocks (d lg.start) = lh
  logged : ∀ i (hi : i < lh.length), d (lg.start + i + 1) = tgt lh[i]
  home : ∀ b, ¬ lg.Owns b → b ∉ lh → d b = tgt b

/-- What recovery may find on the disk. -/
def Recoverable (lg : Log) (lh : List Nat) (tgt d : Disk) : Prop :=
  Clean lg tgt d ∨ Pending lg lh tgt d

def homes (tgt : Disk) (lh : List Nat) : List (Nat × Block) := lh.map fun b => (b, tgt b)

lemma start_owned (lg : Log) : lg.Owns lg.start := .inl rfl

lemma Fits.data_owned (hf : lg.Fits lh) {i : Nat} (hi : i < lh.length) :
    lg.Owns (lg.start + i + 1) := by
  rcases hf.room with h | rfl
  · exact .inr ⟨by omega, by omega⟩
  · simp at hi

variable {tgt d : Disk}

lemma installs_eq_homes : ∀ {tail : Nat},
    (∀ i (hi : i < lh.length), d (lg.start + tail + i + 1) = tgt lh[i]) →
      lg.installs d tail lh = homes tgt lh := by
  induction lh with
  | nil => intros; rfl
  | cons b lh ih => ?_
  intro tail h
  have hb : d (lg.start + tail + 1) = tgt b := h 0 (by simp)
  have hrest : lg.installs d (tail + 1) lh = homes tgt lh := by
    refine ih fun i hi => ?_
    have := h (i + 1) (by simpa using hi)
    rwa [show lg.start + tail + (i + 1) + 1 = lg.start + (tail + 1) + i + 1 by omega] at this
  rw [installs, hb, hrest]
  rfl

lemma Pending.installs_eq (hp : Pending lg lh tgt d) : lg.installs d 0 lh = homes tgt lh :=
  installs_eq_homes fun i hi => hp.logged i hi

lemma Pending.apply_sublist (hp : Pending lg lh tgt d)
    (hf : lg.Fits lh) {ws : List (Nat × Block)} (hws : ∀ w ∈ ws, w ∈ homes tgt lh) :
    Pending lg lh tgt (apply d ws) := by
  have hmem : ∀ w ∈ ws, w.1 ∈ lh := fun w hw => by
    obtain ⟨b, hb, rfl⟩ := mem_map.mp (hws w hw)
    exact hb
  have howned : ∀ c, lg.Owns c → apply d ws c = d c := fun c hc =>
    apply_of_not_mem fun w hw h => hf.home _ (hmem w hw) (h ▸ hc)
  refine ⟨?_, ?_, fun i hi => ?_, fun b hb hbl => ?_⟩
  · rw [howned _ (start_owned lg), hp.count]
  · rw [howned _ (start_owned lg), hp.header]
  · rw [howned _ (hf.data_owned hi), hp.logged i hi]
  have hnot : ∀ w ∈ ws, w.1 ≠ b := fun w hw h => hbl (h ▸ hmem w hw)
  rw [apply_of_not_mem hnot, hp.home b hb hbl]

variable {h0 : Block}

lemma Pending.apply_all (hp : Pending lg lh tgt d) (hh : headerN h0 = 0) :
    Clean lg tgt (apply d (homes tgt lh ++ [(lg.start, h0)])) := by
  rw [apply_append, apply_cons, apply_nil]
  refine ⟨by simpa using hh, fun b hb => ?_⟩
  have hne : b ≠ lg.start := fun h => hb (h ▸ start_owned lg)
  rw [update_of_ne hne]
  refine apply_of_mem (fun w hw hwb => ?_) ?_
  · obtain ⟨c, -, rfl⟩ := mem_map.mp hw
    exact congrArg tgt hwb
  by_cases hbl : b ∈ lh
  · exact .inr ⟨(b, tgt b), mem_map.mpr ⟨b, hbl, rfl⟩, rfl⟩
  · exact .inl (hp.home b hb hbl)

/-- Cutting the home writes and the final header write anywhere leaves a
recoverable disk. -/
lemma Pending.cut (hp : Pending lg lh tgt d) (hf : lg.Fits lh) (hh : headerN h0 = 0) (j : Nat) :
    Recoverable lg lh tgt (cut d (homes tgt lh ++ [(lg.start, h0)]) j) := by
  rcases lt_or_ge (homes tgt lh).length j with hj | hj
  · have hall : (homes tgt lh ++ [(lg.start, h0)]).take j
        = homes tgt lh ++ [(lg.start, h0)] := take_of_length_le (by simp; omega)
    exact .inl (by rw [Log.cut, hall]; exact hp.apply_all hh)
  have hpre : (homes tgt lh ++ [(lg.start, h0)]).take j = (homes tgt lh).take j :=
    take_append_of_le_length hj
  exact .inr (by
    rw [Log.cut, hpre]
    exact hp.apply_sublist hf fun w hw => mem_of_mem_take hw)

lemma Clean.set_header (hc : Clean lg tgt d)
    (hh : headerN h0 = 0) : Clean lg tgt (apply d [(lg.start, h0)]) := by
  refine ⟨by simpa using hh, fun b hb => ?_⟩
  have hne : b ≠ lg.start := fun h => hb (h ▸ start_owned lg)
  rw [apply_cons, apply_nil, update_of_ne hne, hc.home b hb]

/-! ## Recovery -/

lemma headerN_empty (data : Block) : headerN (putHeader [] data) = 0 :=
  headerN_putHeader data (by decide)

lemma readHead_run (h : headerN (d lg.start) ≤ LOGSIZE) :
    lg.readHead.run d = .ok (headerBlocks (d lg.start), d) := by
  simp only [readHead, run_bread_bind]
  rw [if_neg (by omega)]
  rfl

lemma readHead_writes (d : Disk) : lg.readHead.writes d = [] := by
  simp only [readHead, writes_bread_bind]
  split <;> rfl

lemma recover_trace
    (hread : lg.readHead.run d = .ok (lh, d)) (hinst : (lg.installTrans 0 lh).run d = .ok ((), v)) :
    lg.recoverFromLog.writes d
        = (lg.installTrans 0 lh).writes d ++ [(lg.start, putHeader [] (v lg.start))]
      ∧ lg.recoverFromLog.run d = .ok ((), v.set lg.start (putHeader [] (v lg.start))) := by
  constructor
  · rw [recoverFromLog, writes_bind_ok hread, readHead_writes, nil_append, writes_bind_ok hinst]
    rfl
  rw [recoverFromLog, run_bind_ok hread, run_bind_ok hinst]
  rfl

lemma recover_clean (hc : Clean lg tgt d) :
    lg.recoverFromLog.writes d = [(lg.start, putHeader [] (d lg.start))]
      ∧ ∃ v, lg.recoverFromLog.run d = .ok ((), v) := by
  have hnil : headerBlocks (d lg.start) = [] := by simp [headerBlocks, hc.header]
  have hread : lg.readHead.run d = .ok ([], d) := by
    rw [readHead_run (by rw [hc.header]; decide), hnil]
  obtain ⟨hw, hr⟩ := recover_trace hread (v := d) rfl
  exact ⟨hw, _, hr⟩

lemma recover_pending (hp : Pending lg lh tgt d) (hf : lg.Fits lh) :
    (∃ h0, headerN h0 = 0 ∧ lg.recoverFromLog.writes d = homes tgt lh ++ [(lg.start, h0)])
      ∧ ∃ v, lg.recoverFromLog.run d = .ok ((), v) := by
  have hread : lg.readHead.run d = .ok (lh, d) := by
    rw [readHead_run (by rw [hp.count]; exact_mod_cast hf.count), hp.header]
  obtain ⟨htr, hrun⟩ := @installTrans_trace lg _ 0 d hf.home (by simpa using hf.room)
  obtain ⟨hw, hr⟩ := recover_trace hread hrun
  rw [htr, hp.installs_eq] at hw
  exact ⟨⟨_, headerN_empty _, hw⟩, _, hr⟩

/-- A cut recovery leads from recoverable disks to recoverable disks. -/
lemma Recoverable.interrupted {d' : Disk}
    (h : Recoverable lg lh tgt d) (hf : lg.Fits lh) (hi : lg.Interrupted d d') :
    Recoverable lg lh tgt d' := by
  obtain ⟨j, rfl⟩ := hi
  rcases h with hc | hp
  · rw [(recover_clean hc).1]
    cases j with
    | zero => exact .inl hc
    | succ j => exact .inl (by simpa [Log.cut] using hc.set_header (headerN_empty _))
  · obtain ⟨⟨h0, hh, hw⟩, -⟩ := recover_pending hp hf
    rw [hw]
    exact hp.cut hf hh j

lemma Recoverable.complete (h : Recoverable lg lh tgt d) (hf : lg.Fits lh) :
    (∃ v, lg.recoverFromLog.run d = .ok ((), v))
      ∧ Clean lg tgt (apply d (lg.recoverFromLog.writes d)) := by
  rcases h with hc | hp
  · obtain ⟨hw, hr⟩ := recover_clean hc
    exact ⟨hr, by rw [hw]; exact hc.set_header (headerN_empty _)⟩
  obtain ⟨⟨h0, hh, hw⟩, hr⟩ := recover_pending hp hf
  exact ⟨hr, by rw [hw]; exact hp.apply_all hh⟩

/-! ## The machine invariant -/

/-- What holds between system calls: the on-disk header is empty, the
logged list fits, and the cache shows the disk outside it. -/
structure Ready (lg : Log) (m : Machine) : Prop where
  header : headerN (m.disk lg.start) = 0
  fits : lg.Fits m.lh
  home : ∀ b, ¬ lg.Owns b → b ∉ m.lh → m.view b = m.disk b

lemma Fits.nil (lg : Log) : lg.Fits [] where
  count := Nat.zero_le _
  room := .inr rfl
  width := by simp
  home := by simp

lemma Fits.append {b : Nat} (hf : lg.Fits lh)
    (hlog : lh.length < LOGSIZE) (hsize : lh.length < lg.size - 1)
    (hb : b < 2 ^ 32) (hout : ¬ lg.Owns b) : lg.Fits (lh ++ [b]) where
  count := by simp; omega
  room := .inl (by simp; omega)
  width := fun c hc => by
    rcases mem_append.mp hc with hc | hc
    · exact hf.width c hc
    · exact mem_singleton.mp hc ▸ hb
  home := fun c hc => by
    rcases mem_append.mp hc with hc | hc
    · exact hf.home c hc
    · exact mem_singleton.mp hc ▸ hout

/-- The trace of `commit`: copies to the log, the header that commits,
the home writes, the header that clears. -/
lemma commit_trace (hf : lg.Fits lh) (hne : lh ≠ []) (v : Disk) :
    ∃ h1 h0, headerN h0 = 0 ∧ headerN h1 = lh.length ∧ headerBlocks h1 = lh ∧
      (lg.commit lh).writes v
        = lg.copies v 0 lh ++ (lg.start, h1) :: (homes v lh ++ [(lg.start, h0)]) ∧
      ∃ v', (lg.commit lh).run v = .ok ((), v') ∧ ∀ b, ¬ lg.Owns b → v' b = v b := by
  have hpos : 0 < lh.length := length_pos_iff.mpr hne
  have hlen : lh.length < 2 ^ 31 := lt_of_le_of_lt hf.count (by decide)
  obtain ⟨hcw, hcr⟩ := @writeLog_trace lg _ 0 v hf.home (by simpa using hf.room)
  let v1 : Disk := apply v (lg.copies v 0 lh)
  let v2 := v1.set lg.start (putHeader lh (v1 lg.start))
  obtain ⟨hiw, hir⟩ := @installTrans_trace lg _ 0 v2 hf.home (by simpa using hf.room)
  -- the log blocks read back by `install_trans` are the ones just written
  have hinst : lg.installs v2 0 lh = homes v lh := by
    refine installs_eq_homes fun i hi => ?_
    have hi' : lg.start + 0 + i + 1 ≠ lg.start := by omega
    rw [show v2 (lg.start + 0 + i + 1) = v1 (lg.start + 0 + i + 1) from set_ne hi']
    exact apply_copies hi
  rw [hinst] at hiw hir
  let v3 : Disk := apply v2 (homes v lh)
  have hwrites : (lg.commit lh).writes v
      = lg.copies v 0 lh ++ (lg.start, putHeader lh (v1 lg.start)) ::
          (homes v lh ++ [(lg.start, putHeader [] (v3 lg.start))]) := by
    rw [commit, if_pos hpos, writes_bind_ok hcr, hcw,
      writes_bind_ok (writeHead_run lh _), writeHead_trace, writes_bind_ok hir, hiw]
    rfl
  have hrun : (lg.commit lh).run v = .ok ((), v3.set lg.start (putHeader [] (v3 lg.start))) := by
    rw [commit, if_pos hpos, run_bind_ok hcr, run_bind_ok (writeHead_run lh _), run_bind_ok hir]
    rfl
  refine ⟨_, _, headerN_empty _, headerN_putHeader _ hlen,
    headerBlocks_putHeader _ hlen hf.width, hwrites, _, hrun, fun b hb => ?_⟩
  have hbs : b ≠ lg.start := fun h => hb (h ▸ start_owned lg)
  have hv2 : v2 b = v b := by
    rw [show v2 b = v1 b from set_ne hbs]
    refine apply_of_not_mem fun w hw h => hb ?_
    have := copies_fst w hw
    have hown := hf.data_owned (i := w.1 - lg.start - 1) (by omega)
    rwa [show lg.start + (w.1 - lg.start - 1) + 1 = b by omega] at hown
  rw [set_ne hbs]
  refine apply_of_mem (fun w hw hwb => ?_) (.inl hv2)
  obtain ⟨c, -, rfl⟩ := mem_map.mp hw
  exact congrArg v hwb

variable {m : Machine}

/-- The disk once the commit header is written: the transaction is
pending with the cache's contents as its target. -/
lemma Ready.pending (hr : lg.Ready m) {h1 : Block}
    (hn : headerN h1 = m.lh.length) (hb : headerBlocks h1 = m.lh) :
    Pending lg m.lh m.view (apply m.disk (lg.copies m.view 0 m.lh ++ [(lg.start, h1)])) := by
  rw [apply_append, apply_cons, apply_nil]
  refine ⟨by simpa using hn, by simpa using hb, fun i hi => ?_, fun b hbo hbl => ?_⟩
  · rw [update_of_ne (by omega)]
    simpa using @apply_copies lg _ _ 0 _ _ hi
  have hbs : b ≠ lg.start := fun h => hbo (h ▸ start_owned lg)
  rw [update_of_ne hbs, hr.home b hbo hbl]
  refine apply_of_not_mem fun w hw h => hbo ?_
  have := copies_fst w hw
  have hown := hr.fits.data_owned (i := w.1 - lg.start - 1) (by omega)
  rwa [show lg.start + (w.1 - lg.start - 1) + 1 = b by omega] at hown

lemma Ready.clean_before (hr : lg.Ready m) (k : Nat) :
    Clean lg m.disk (cut m.disk (lg.copies m.view 0 m.lh) k) := by
  have hlog : ∀ w ∈ (lg.copies m.view 0 m.lh).take k, lg.Owns w.1 ∧ w.1 ≠ lg.start := by
    intro w hw
    have := copies_fst w (mem_of_mem_take hw)
    have hown := hr.fits.data_owned (i := w.1 - lg.start - 1) (by omega)
    rw [show lg.start + (w.1 - lg.start - 1) + 1 = w.1 by omega] at hown
    exact ⟨hown, by omega⟩
  refine ⟨?_, fun b hb => apply_of_not_mem fun w hw h => hb (h ▸ (hlog w hw).1)⟩
  rw [Log.cut, apply_of_not_mem fun w hw => (hlog w hw).2, hr.header]

/-- A cut of `commit` leaves the old contents until the commit header is
written, and a transaction recovery will finish from then on. -/
lemma Ready.crash (hr : lg.Ready m) (k : Nat) :
    (k ≤ m.lh.length → Clean lg m.disk (lg.crashDisk m k))
      ∧ (m.lh.length < k → Recoverable lg m.lh m.view (lg.crashDisk m k)) := by
  by_cases hne : m.lh = []
  · -- nothing logged: `commit` writes nothing and the view is the disk
    have hnil : (lg.commit m.lh).writes m.view = [] := by simp [hne, commit]; rfl
    have hcrash : lg.crashDisk m k = m.disk := by simp [crashDisk, hnil, Log.cut]
    rw [hcrash]
    exact ⟨fun _ => ⟨hr.header, fun _ _ => rfl⟩, fun _ => .inl
      ⟨hr.header, fun b hb => (hr.home b hb (by simp [hne])).symm⟩⟩
  obtain ⟨h1, h0, hh0, hn, hb, hw, -⟩ := commit_trace hr.fits hne m.view
  have hlen : (lg.copies m.view 0 m.lh).length = m.lh.length := length_copies
  constructor
  · intro hk
    rw [crashDisk, hw, Log.cut, take_append_of_le_length (by omega)]
    exact hr.clean_before k
  intro hk
  have hsplit : (lg.copies m.view 0 m.lh ++ (lg.start, h1) ::
        (homes m.view m.lh ++ [(lg.start, h0)])).take k
      = (lg.copies m.view 0 m.lh ++ [(lg.start, h1)])
        ++ (homes m.view m.lh ++ [(lg.start, h0)]).take (k - m.lh.length - 1) := by
    obtain ⟨k', rfl⟩ : ∃ k', k = m.lh.length + (k' + 1) := ⟨k - m.lh.length - 1, by omega⟩
    rw [take_append, take_of_length_le (by omega), hlen,
      Nat.add_sub_cancel_left, take_succ_cons, append_cons]
    rfl
  rw [crashDisk, hw, Log.cut, hsplit, apply_append]
  exact (hr.pending hn hb).cut hr.fits hh0 _

/-! ## Runs -/

lemma ready_initlog (h : lg.recoverFromLog.run d = .ok ((), v)) :
    lg.Ready ⟨apply d (lg.recoverFromLog.writes d), v, []⟩ := by
  obtain ⟨lh, d', hread, -⟩ := run_bind_inv h
  have hd' : d' = d := by
    simp only [readHead, run_bread_bind] at hread
    split at hread
    · cases hread
    · exact (congrArg snd (Except.ok.inj hread)).symm
  subst hd'
  obtain ⟨hw, hr⟩ := recover_trace hread (installTrans_run lh 0 d')
  have hv := congrArg snd (Except.ok.inj (h.symm.trans hr))
  refine ⟨?_, Fits.nil lg, fun b _ _ => ?_⟩
  · rw [hw, apply_append]
    simp [headerN_empty]
  rw [hw, apply_append]
  exact congrFun hv b

lemma Ready.logWrite (hr : lg.Ready m) {b : Nat} (data : Block)
    (hlog : m.lh.length < LOGSIZE) (hsize : m.lh.length < lg.size - 1)
    (hb : b < 2 ^ 32) (hout : ¬ lg.Owns b) : lg.Ready (m.logWrite b data) := by
  refine ⟨hr.header, ?_, fun c hc hcl => ?_⟩
  · simp only [Machine.logWrite]
    split
    · exact hr.fits
    · exact hr.fits.append hlog hsize hb hout
  simp only [Machine.logWrite] at hcl ⊢
  split at hcl
  · rename_i hmem
    have hne : c ≠ b := fun h => hcl (h ▸ hmem)
    rw [set_ne hne, hr.home c hc hcl]
  · simp only [mem_append, mem_singleton, not_or] at hcl
    rw [set_ne hcl.2, hr.home c hc hcl.1]

lemma Ready.commit (hr : lg.Ready m) (h : (lg.commit m.lh).run m.view = .ok ((), v)) :
    lg.Ready ⟨apply m.disk ((lg.commit m.lh).writes m.view), v, []⟩ := by
  by_cases hne : m.lh = []
  · have hprog : lg.commit m.lh = pure () := by simp [hne, Log.commit]
    rw [hprog] at h ⊢
    obtain rfl : m.view = v := congrArg snd (Except.ok.inj h)
    exact ⟨hr.header, Fits.nil lg, fun b hb _ => hr.home b hb (by simp [hne])⟩
  obtain ⟨h1, h0, hh0, hn, hb, hw, v', hrun, hhome⟩ := commit_trace hr.fits hne m.view
  obtain rfl : v = v' := congrArg snd (Except.ok.inj (h.symm.trans hrun))
  have hclean := (hr.pending hn hb).apply_all hh0
  rw [← apply_append, append_assoc, singleton_append, ← hw] at hclean
  exact ⟨hclean.header, Fits.nil lg, fun b hbo _ =>
    (hhome b hbo).trans (hclean.home b hbo).symm⟩

lemma Running.ready (h : lg.Running m) : lg.Ready m := by
  induction h with
  | initlog h => exact ready_initlog h
  | logWrite _ hlog hsize hb hout ih => exact ih.logWrite _ hlog hsize hb hout
  | commit _ h ih => exact ih.commit h

/-- **Crash atomicity.** Cut `commit` after any number `k` of disk writes
and then any number of recoveries anywhere: the next recovery completes,
and afterwards every home block holds its contents from before the
transaction, or every home block holds what was logged (`view` is the
disk outside the logged blocks). Once the header write has happened
(`k` past the copies to the log) it is always the latter. -/
theorem commit_crash_atomic {m : Machine} (hm : lg.Running m) (k : Nat) {d : Disk}
    (hd : Relation.ReflTransGen lg.Interrupted (lg.crashDisk m k) d) :
    (∃ v, lg.recoverFromLog.run d = .ok ((), v)) ∧
    ((∀ b, ¬ lg.Owns b → apply d (lg.recoverFromLog.writes d) b = m.disk b)
      ∨ (∀ b, ¬ lg.Owns b → apply d (lg.recoverFromLog.writes d) b = m.view b)) ∧
    (m.lh.length < k → ∀ b, ¬ lg.Owns b → apply d (lg.recoverFromLog.writes d) b = m.view b) ∧
    (∀ b, ¬ lg.Owns b → b ∉ m.lh → m.view b = m.disk b) := by
  have hr := hm.ready
  -- whichever target the cut left, all later cuts keep it
  have hkeep : ∀ tgt, Recoverable lg m.lh tgt (lg.crashDisk m k) → Recoverable lg m.lh tgt d := by
    intro tgt h0
    induction hd with
    | refl => exact h0
    | tail _ hstep ih => exact ih.interrupted hr.fits hstep
  obtain ⟨hbefore, hafter⟩ := hr.crash k
  rcases lt_or_ge m.lh.length k with hk | hk
  · obtain ⟨hrun, hclean⟩ := (hkeep _ (hafter hk)).complete hr.fits
    exact ⟨hrun, Or.inr hclean.home, fun _ => hclean.home, hr.home⟩
  obtain ⟨hrun, hclean⟩ := (hkeep _ (Or.inl (hbefore hk))).complete hr.fits
  exact ⟨hrun, Or.inl hclean.home, fun h => absurd h (by omega), hr.home⟩

/-- A machine booted from an all-zero disk with the log `mkfs` lays out,
with one block of ones logged. -/
def sampleMachine : Machine :=
  let d : Disk := fun _ _ => 0
  Machine.logWrite ⟨apply d ((Log.mk 2 30).recoverFromLog.writes d),
    d.set 2 (putHeader [] (d 2)), []⟩ 71 (fun _ => 1)

lemma sampleMachine_running : (Log.mk 2 30).Running sampleMachine :=
  Running.logWrite (Running.initlog rfl) (by decide) (by decide) (by decide) (by decide)

/-- Cut right after the header write: recovery installs the logged block. -/
theorem commit_crash_atomic_sample : (Log.mk 2 30).Running sampleMachine ∧
    ∀ b, ¬ (Log.mk 2 30).Owns b →
      apply ((Log.mk 2 30).crashDisk sampleMachine 2)
        ((Log.mk 2 30).recoverFromLog.writes ((Log.mk 2 30).crashDisk sampleMachine 2)) b
      = sampleMachine.view b :=
  ⟨sampleMachine_running,
    (commit_crash_atomic sampleMachine_running 2 Relation.ReflTransGen.refl).2.2.1 (by decide)⟩

end Log

end Proninx
