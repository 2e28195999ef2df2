import Mathlib.Data.Nat.ModEq
import Proninx.Kern.Storage.Buf

/-!
# The IDE driver

One channel of `ide.c` with its drives. `iderw` links a buffer into the
queue and sleeps until the buffer is valid and clean; the buffer at the
head of the queue is the one whose command the drive has; `ideintr` takes
it off, marks it and starts the next. Code under the channel's lock is one
step. A buffer is changed by others only while no request for it is under
way, since the caller of `iderw` holds its lock.

`asked` has the requests under way and whether they are writes, and
`report` is history: what the drive had said of a buffer's command when
`ideintr` took the buffer off.
-/

namespace Proninx.Storage

open Function LinkedQueue List Option

def IDE_DEVICES : Nat := 4

/-- The registers of a channel after `idestart`, and the sector written to
the data register. -/
structure Taskfile (β : Type) where
  seccount : Nat
  lba0 : Nat
  lba1 : Nat
  lba2 : Nat
  hddevsel : Nat
  write : Bool
  data : β
  deriving DecidableEq, Repr

variable {ν β : Type}

/-- The sector the drive reads from the registers. -/
def Taskfile.sector (t : Taskfile β) : Nat :=
  t.lba0 + 2 ^ 8 * t.lba1 + 2 ^ 16 * t.lba2 + 2 ^ 24 * (t.hddevsel % 2 ^ 4)

/-- The drive that the registers select. -/
def Taskfile.unit (t : Taskfile β) : Nat := t.hddevsel / 2 ^ 4 % 2

def channelFor (device : UInt32) : Nat := device.toNat / 2

def unitFor (device : UInt32) : Nat := device.toNat % 2

/-- `idestart` with blocks of one sector; `none` is its panic. The bits of
`hddevsel` do not overlap. -/
def idestart (b : Buf β) : Option (Taskfile β) :=
  let sector := b.blockno.toNat
  if sector > 0x0fffffff then none
  else some
    { seccount := 1
      lba0 := sector % 2 ^ 8
      lba1 := sector / 2 ^ 8 % 2 ^ 8
      lba2 := sector / 2 ^ 16 % 2 ^ 8
      hddevsel := 0xe0 + unitFor b.dev * 2 ^ 4 + sector / 2 ^ 24 % 2 ^ 4
      write := b.dirty
      data := b.data }

/-- What the status register says when `ideintr` runs. -/
inductive Status where
  | ok
  /-- `SR_DWF` or `SR_ERR` -/
  | error
  /-- `SR_BSY`, or not yet `SR_DRDY` -/
  | busy
  deriving DecidableEq, Repr

structure Ide (ν β : Type) where
  channel : Nat
  sectors : UInt32 → Nat
  bufs : ν → Buf β
  /-- `queue` and the `qnext` of the buffers. -/
  links : Links ν
  /-- The command the drive was given last. -/
  task : Option (Taskfile β)
  /-- By drive and sector. -/
  disk : Nat → Nat → β
  asked : ν → Option Bool
  report : ν → Option (Report β)

namespace Ide

inductive Act (ν β : Type) where
  /-- Whoever holds its lock changes a buffer. -/
  | touch (b : ν) (buf : Buf β)
  | iderw (b : ν)
  | intr (status : Status)
  /-- `iderw` returns. -/
  | finish (b : ν)

/-- What the drive has to say of its command. -/
def answer (s : Ide ν β) (status : Status) : Option (Report β) :=
  s.task.map fun t =>
    if status = .ok then
      .success t.unit t.sector t.write (if t.write then t.data else s.disk t.unit t.sector)
    else .failed

/-- What `insl` reads. -/
def transferred (s : Ide ν β) : Option β := s.task.map fun t => s.disk t.unit t.sector

/-- The disks after the command. -/
def written (s : Ide ν β) (status : Status) : Nat → Nat → β :=
  match s.task with
  | none => s.disk
  | some t =>
    if t.write ∧ status = .ok then
      update s.disk t.unit (update (s.disk t.unit) t.sector t.data)
    else s.disk

/-- `idestart` on the head of the queue. -/
def start (s : Ide ν β) : Option (Ide ν β) :=
  match s.links.head with
  | none => some s
  | some b => (idestart (s.bufs b)).map fun t => { s with task := some t }

section

variable [DecidableEq ν]

/-- `ideintr`; `none` while `idewait` still waits. -/
def ideintr (s : Ide ν β) (status : Status) : Option (Ide ν β) :=
  match s.links.head with
  | none => some s
  | some b =>
    let buf := s.bufs b
    if buf.dirty = false ∧ status = .busy then none
    else
      let data :=
        if buf.dirty = false ∧ status ≠ .error then s.transferred.getD buf.data else buf.data
      start { s with
        links := pop s.links b
        bufs := update s.bufs b ⟨buf.complete, data⟩
        task := none
        disk := s.written status
        report := update s.report b (s.answer status) }

/-- `iderw` up to its loop; `none` is a panic. -/
def iderw [Fintype ν] (s : Ide ν β) (b : ν) : Option (Ide ν β) :=
  let buf := s.bufs b
  if buf.settled then none
  else if buf.dev.toNat ≥ IDE_DEVICES ∨ s.sectors buf.dev = 0 then none
  else if buf.blockno.toNat ≥ s.sectors buf.dev then none
  else
    match append (Fintype.card ν) s.links b with
    | none => none
    | some links =>
      let t : Ide ν β :=
        { s with
          links := links
          asked := update s.asked b (some buf.dirty)
          report := update s.report b none }
      if links.head = some b then t.start else some t

def step [Fintype ν] (s : Ide ν β) : Act ν β → Option (Ide ν β)
  | .touch b buf =>
    if s.asked b = none then some { s with bufs := update s.bufs b buf } else none
  | .iderw b =>
    if s.asked b = none ∧ channelFor (s.bufs b).dev = s.channel then s.iderw b else none
  | .intr status => s.ideintr status
  | .finish b =>
    if (s.asked b).isSome ∧ (s.bufs b).settled then
      some { s with asked := update s.asked b none }
    else none

end

/-- An interrupt that finds a request finds it done without an error. -/
def Fine (s : Ide ν β) : Act ν β → Prop
  | .intr status => s.links.head ≠ none → status = .ok
  | _ => True

/-- No request is under way. -/
structure Idle (s : Ide ν β) : Prop where
  queue : s.links.head = none
  asked : ∀ b, s.asked b = none

/-- The queue links the buffers of the requests that are not done, the
drive has the command of the first, and every other request was served. -/
structure Sound (s : Ide ν β) (q : List ν) : Prop where
  queue : IsQueue s.links q
  asked : ∀ b ∈ q, s.asked b = some (s.bufs b).dirty ∧ (s.bufs b).settled = false
  task : ∀ b, q.head? = some b → ∃ t, idestart (s.bufs b) = some t ∧ s.task = some t
  served : ∀ b w, b ∉ q → s.asked b = some w →
    Served (s.bufs b) (unitFor (s.bufs b).dev) w (s.report b)

variable {s t : Ide ν β} {q : List ν} {b : ν}

lemma idestart_reads {b : Buf β} {t : Taskfile β} (h : idestart b = some t) :
    t.sector = b.blockno.toNat ∧ t.unit = unitFor b.dev ∧ t.write = b.dirty ∧ t.data = b.data := by
  obtain ⟨hlt, heq⟩ := ite_none_left_eq_some.mp h
  obtain rfl := some.inj heq
  refine ⟨?_, ?_, rfl, rfl⟩
  · simp only [Taskfile.sector]
    omega
  simp only [Taskfile.unit, unitFor]
  omega

lemma start_inv {s t : Ide ν β} (h : s.start = some t) : t = { s with task := t.task } ∧
      ∀ b, s.links.head = some b → ∃ c, idestart (s.bufs b) = some c ∧ t.task = some c := by
  rw [start] at h
  split at h
  · rename_i hnone
    cases h
    exact ⟨rfl, fun b hb => nomatch hnone.symm.trans hb⟩
  rename_i b hb
  obtain ⟨c, hc, rfl⟩ := map_eq_some_iff.mp h
  refine ⟨rfl, fun b' hb' => ?_⟩
  obtain rfl : b = b' := some.inj (hb.symm.trans hb')
  exact ⟨c, hc, rfl⟩

lemma answer_ok {b : Buf β} {c : Taskfile β} (hc : idestart b = some c) (htask : s.task = some c) :
    s.answer .ok = some (.success (unitFor b.dev) b.blockno.toNat b.dirty
      (if b.dirty then b.data else s.transferred.getD b.data)) := by
  obtain ⟨hsector, hunit, hwrite, hdata⟩ := idestart_reads hc
  rw [answer, transferred, htask, map_some, if_pos rfl, hsector, hunit, hwrite, hdata,
    map_some, getD_some, hsector, hunit]

lemma Idle.sound (h : s.Idle) : s.Sound [] :=
  ⟨⟨h.queue, .nil⟩, nofun, nofun, fun b _ _ hw => nomatch (h.asked b).symm.trans hw⟩

variable [DecidableEq ν]

lemma Sound.touch (h : s.Sound q) (hb : s.asked b = none) (buf : Buf β) :
    Sound { s with bufs := update s.bufs b buf } q := by
  have hne : ∀ {c}, s.asked c ≠ none → c ≠ b := by
    rintro c hc rfl
    exact hc hb
  have hq : ∀ {c}, c ∈ q → update s.bufs b buf c = s.bufs c := fun {c} hc =>
    update_of_ne (hne (by simp [(h.asked c hc).1])) ..
  refine ⟨h.queue, fun c hc => ?_, fun c hc => ?_, fun c w hc hw => ?_⟩
  · simpa only [hq hc] using h.asked c hc
  · simpa only [hq (mem_of_mem_head? hc)] using h.task c hc
  have hcb : c ≠ b := hne (by simp [show s.asked c = some w from hw])
  simpa only [update_of_ne hcb] using h.served c w hc hw

lemma iderw_inv [Fintype ν] (h : s.iderw b = some t) {links : Links ν}
    (happend : append (Fintype.card ν) s.links b = some links) :
    (s.bufs b).settled = false ∧
      t = { s with
        links := links
        task := t.task
        asked := update s.asked b (some (s.bufs b).dirty)
        report := update s.report b none } ∧
      (links.head = some b → ∃ c, idestart (s.bufs b) = some c ∧ t.task = some c) ∧
      (links.head ≠ some b → t.task = s.task) := by
  simp only [Ide.iderw, happend] at h
  split_ifs at h with hsettled hdev hblock hfirst
  · obtain ⟨heq, htask⟩ := start_inv h
    exact ⟨by simpa using hsettled, heq, fun _ => htask b hfirst, fun hne => absurd hfirst hne⟩
  cases h
  exact ⟨by simpa using hsettled, rfl, fun heq => absurd heq hfirst, fun _ => rfl⟩

lemma Sound.iderw [Fintype ν] (h : s.Sound q) (hb : s.asked b = none) (hstep : s.iderw b = some t) :
    t.Sound (q ++ [b]) := by
  have hmem : b ∉ q := fun hmem => nomatch hb.symm.trans (h.asked b hmem).1
  obtain ⟨links, happend, hqueue, hhead⟩ := h.queue.append hmem h.queue.nodup.length_le_card
  obtain ⟨hsettled, heq, hfirst, hlater⟩ := iderw_inv hstep happend
  have hne : ∀ {c}, c ∈ q → c ≠ b := fun hc heq => hmem (heq ▸ hc)
  rw [heq]
  refine ⟨hqueue, fun c hc => ?_, fun c hc => ?_, fun c w hc hw => ?_⟩
  · rcases mem_append.mp hc with hc | hc
    · simpa only [update_of_ne (hne hc)] using h.asked c hc
    obtain rfl := mem_singleton.mp hc
    exact ⟨update_self .., hsettled⟩
  · cases q with
    | nil =>
      obtain rfl : b = c := some.inj hc
      exact hfirst (by rw [hhead, show s.links.head = none from h.queue.chain]; rfl)
    | cons y q => ?_
    obtain rfl : y = c := some.inj hc
    have hy : links.head = some y := by rw [hhead, h.queue.chain.1]; rfl
    have hyb : y ≠ b := hne mem_cons_self
    rw [hlater (by rw [hy]; exact fun heq => hyb (some.inj heq))]
    exact h.task y rfl
  · obtain ⟨hcq, hcb⟩ := not_or.mp (mem_append.not.mp hc)
    have hcb : c ≠ b := fun heq => hcb (mem_singleton.mpr heq)
    simp only [update_of_ne hcb] at hw ⊢
    exact h.served c w hcq hw

/-- An interrupt with an empty queue does nothing; otherwise the head is
taken off and marked, and the next one is started. -/
lemma ideintr_inv {status : Status} (h : s.ideintr status = some t) :
    (s.links.head = none ∧ t = s) ∨ ∃ b data, s.links.head = some b ∧ (status = .ok → data =
          if (s.bufs b).dirty then (s.bufs b).data
          else s.transferred.getD (s.bufs b).data) ∧
        t = { s with
          links := pop s.links b
          bufs := update s.bufs b ⟨(s.bufs b).complete, data⟩
          task := t.task
          disk := s.written status
          report := update s.report b (s.answer status) } ∧
        ∀ c, (pop s.links b).head = some c → ∃ k,
          idestart (update s.bufs b ⟨(s.bufs b).complete, data⟩ c) = some k ∧ t.task = some k := by
  rw [Ide.ideintr] at h
  split at h
  · rename_i hnone
    cases h
    exact .inl ⟨hnone, rfl⟩
  rename_i b hb
  dsimp only at h
  obtain ⟨-, h⟩ := ite_none_left_eq_some.mp h
  obtain ⟨heq, htask⟩ := start_inv h
  refine .inr ⟨b, _, hb, ?_, heq, htask⟩
  rintro rfl
  cases (s.bufs b).dirty <;> rfl

lemma Sound.ideintr (h : s.Sound q) {status : Status} (hfine : s.links.head ≠ none → status = .ok)
    (hstep : s.ideintr status = some t) : t.Sound q.tail := by
  have hhead : s.links.head = q.head? := h.queue.head_eq
  obtain ⟨hnone, rfl⟩ | ⟨b, data, hb, hdata, heq, htask⟩ := ideintr_inv hstep
  · obtain rfl : q = [] := List.head?_eq_none_iff.mp (hhead.symm.trans hnone)
    exact h
  obtain ⟨q, rfl⟩ : ∃ q', q = b :: q' := List.head?_eq_some_iff.mp (hhead.symm.trans hb)
  obtain rfl : status = .ok := hfine (hb ▸ nofun)
  obtain ⟨c, hc, hcmd⟩ := h.task b rfl
  have hanswer := answer_ok (s := s) hc hcmd
  have hqueue : IsQueue (pop s.links b) q := h.queue.pop
  have hne : ∀ {c}, c ∈ q → c ≠ b := fun hc heq =>
    (nodup_cons.mp h.queue.nodup).1 (heq ▸ hc)
  rw [heq]
  refine ⟨hqueue, fun c hc => ?_, fun c hc => ?_, fun c w hc hw => ?_⟩
  · simpa only [update_of_ne (hne hc)] using h.asked c (mem_cons_of_mem b hc)
  · exact htask c (hqueue.head_eq.trans hc)
  by_cases hcb : c = b
  · obtain rfl := hcb
    obtain rfl : (s.bufs c).dirty = w :=
      some.inj ((h.asked c mem_cons_self).1.symm.trans hw)
    simp only [update_self]
    rw [Served, hdata rfl]
    exact hanswer
  · simp only [update_of_ne hcb]
    exact h.served c w (mem_cons.not.mpr (not_or.mpr ⟨hcb, hc⟩)) hw

lemma Sound.finish (h : s.Sound q) (hb : (s.bufs b).settled) :
    Sound { s with asked := update s.asked b none } q := by
  have hne : ∀ {c}, c ∈ q → c ≠ b := by
    rintro c hc rfl
    exact nomatch hb.symm.trans (h.asked c hc).2
  refine ⟨h.queue, fun c hc => ?_, h.task, fun c w hc hw => ?_⟩
  · simpa only [update_of_ne (hne hc)] using h.asked c hc
  have hcb : c ≠ b := by
    rintro rfl
    exact nomatch (update_self ..).symm.trans hw
  exact h.served c w hc (by simpa only [update_of_ne hcb] using hw)

lemma Sound.step [Fintype ν] (h : s.Sound q) {a : Act ν β} (hfine : s.Fine a)
    (hstep : s.step a = some t) : ∃ q', t.Sound q' := by
  cases a with
  | touch b buf =>
    obtain ⟨hb, heq⟩ := ite_none_right_eq_some.mp hstep
    cases heq
    exact ⟨q, h.touch hb buf⟩
  | iderw b =>
    obtain ⟨hb, hstep⟩ := ite_none_right_eq_some.mp hstep
    exact ⟨q ++ [b], h.iderw hb.1 hstep⟩
  | intr status => exact ⟨q.tail, h.ideintr hfine hstep⟩
  | finish b => ?_
  obtain ⟨hb, heq⟩ := ite_none_right_eq_some.mp hstep
  cases heq
  exact ⟨q, h.finish hb.2⟩

/-- Where every interrupt for a request comes with success, a buffer that
`iderw` can return was served by the drive. -/
lemma Idle.served [Fintype ν] (hidle : s.Idle) {as : List (Act ν β)}
    (hrun : Runs.Run (fun s a t => Fine s a ∧ step s a = some t) s as t) {w : Bool}
    (hb : t.asked b = some w) (hsettled : (t.bufs b).settled) :
    Served (t.bufs b) (unitFor (t.bufs b).dev) w (t.report b) := by
  obtain ⟨q, h⟩ : ∃ q, t.Sound q :=
    hrun.invariant ⟨[], hidle.sound⟩
      fun _ _ _ h hst => h.elim fun _ h => h.step hst.1 hst.2
  exact h.served b w (fun hmem => nomatch hsettled.symm.trans (h.asked b hmem).2) hb

end Ide

end Proninx.Storage
