import Proninx.Kern.Memlayout
import Proninx.Kern.Prog
import Proninx.Kern.Storage.Buf

/-!
# The AHCI driver

One port of `ahci.c`. `ahcirw` queues a buffer and gives the drive the
command of the buffer at the head in slot 0; `ahci_intr` and `ahci_poll`
look whether the drive has cleared the slot's bit in `ci`, take the head
off and start the next. The drive reaches memory by itself, through the
physical addresses in the command's PRDT, at any time until it clears the
bit. Code under the port's lock is one step.

`asked` has the requests under way. Before the scheduler runs, `ahcirw`
only looks so many times and returns in any case: `lost` has the buffers
whose request was given up and is still in the queue. `served` is what the
drive has said of the command it was given last, and `report`, as for IDE,
what it had said of a buffer's command when the buffer was taken off.
-/

namespace Proninx.Storage

open ByteMem Function LinkedQueue List Option Vm

def AHCI_PRDT_PER_CMD : Nat := 8

def AHCI_MAX_PORTS : Nat := 32

def DEV_SATA_START : Nat := 4

abbrev Block : Type := { bytes : List UInt8 // bytes.length = BSIZE }

/-! ## Commands -/

structure PrdtEntry where
  dba : Nat
  dbau : Nat
  /-- One less than the number of bytes. -/
  dbc : Nat
  i : Bool
  deriving DecidableEq, Repr

def PrdtEntry.addrs (e : PrdtEntry) : List Nat := List.range' (e.dba + 2 ^ 32 * e.dbau) (e.dbc + 1)

def ahciDmaAddr (wideDma : Bool) (va : Nat) : Option (Nat × Nat) :=
  let pa := v2p va
  if wideDma = false ∧ pa / 2 ^ 32 ≠ 0 then none else some (pa % 2 ^ 32, pa / 2 ^ 32 % 2 ^ 32)

def ahciSetupPrdt (wideDma : Bool) : (n vaddr bytes : Nat) → Option (List PrdtEntry)
  | _, _, 0 => some []
  | 0, _, _ + 1 => none
  | n + 1, vaddr, bytes + 1 =>
    let chunk := min (bytes + 1) (PGSIZE - vaddr % PGSIZE)
    match ahciDmaAddr wideDma vaddr with
    | none => none
    | some (lo, hi) =>
      (ahciSetupPrdt wideDma n (vaddr + chunk) (bytes + 1 - chunk)).map fun rest =>
        ⟨lo, hi, chunk - 1, chunk = bytes + 1⟩ :: rest

/-- What the drive finds in a slot. -/
structure Command where
  write : Bool
  lba0 : Nat
  lba1 : Nat
  lba2 : Nat
  lba3 : Nat
  lba4 : Nat
  lba5 : Nat
  countl : Nat
  counth : Nat
  prdt : List PrdtEntry
  deriving DecidableEq, Repr

def Command.sector (c : Command) : Nat :=
  c.lba0 + 2 ^ 8 * c.lba1 + 2 ^ 16 * c.lba2 + 2 ^ 24 * c.lba3 + 2 ^ 32 * c.lba4 + 2 ^ 40 * c.lba5

def Command.addrs (c : Command) : List Nat := c.prdt.flatMap PrdtEntry.addrs

/-- The command that `ahci_start_buf` makes for a buffer with its data at
`va`. -/
def commandFor (wideDma : Bool) (b : Hdr) (va : Nat) : Option Command :=
  let lba := b.blockno.toNat
  (ahciSetupPrdt wideDma AHCI_PRDT_PER_CMD va BSIZE).map fun prdt =>
    { write := b.dirty
      lba0 := lba % 2 ^ 8
      lba1 := lba / 2 ^ 8 % 2 ^ 8
      lba2 := lba / 2 ^ 16 % 2 ^ 8
      lba3 := lba / 2 ^ 24 % 2 ^ 8
      lba4 := lba / 2 ^ 32 % 2 ^ 8
      lba5 := lba / 2 ^ 40 % 2 ^ 8
      countl := 1
      counth := 0
      prdt := prdt }

variable {wideDma : Bool}

lemma ahciDmaAddr_addr {va : Nat} (hva : va < 2 ^ 64) {lo hi : Nat}
    (h : ahciDmaAddr wideDma va = some (lo, hi)) : lo + 2 ^ 32 * hi = v2p va := by
  obtain ⟨-, heq⟩ := ite_none_left_eq_some.mp h
  obtain ⟨rfl, rfl⟩ := Prod.mk.inj (some.inj heq)
  have hlt := v2p_lt hva
  omega

/-- Whatever page boundaries the data crosses, the entries have its
physical addresses in order. -/
lemma ahciSetupPrdt_addrs {n va bytes : Nat} {prdt : List PrdtEntry} (hkern : InKernel va bytes)
    (h : ahciSetupPrdt wideDma n va bytes = some prdt) :
    prdt.flatMap PrdtEntry.addrs = List.range' (v2p va) bytes := by
  fun_induction ahciSetupPrdt wideDma n va bytes generalizing prdt with
  | case1 => cases h; rfl
  | case2 => cases h
  | case3 => cases h
  | case4 n va bytes chunk lo hi haddr =>
    rename_i ih
    obtain ⟨rest, hrest, rfl⟩ := map_eq_some_iff.mp h
    have hchunk : 0 < chunk ∧ chunk ≤ bytes + 1 := by
      have := Nat.mod_lt va (show 0 < PGSIZE by decide)
      omega
    have hva : va < 2 ^ 64 := by
      unfold InKernel KERNBASE at hkern
      omega
    rw [flatMap_cons, ih (hkern.drop hchunk.2) hrest, PrdtEntry.addrs,
      ahciDmaAddr_addr hva haddr, Nat.sub_add_cancel hchunk.1]
    rcases hchunk.2.lt_or_eq with hlt | heq
    · rw [hkern.v2p_add hlt, range'_append_1, Nat.add_sub_cancel' hchunk.2]
    · rw [heq, Nat.sub_self, range'_zero, append_nil]

/-- Eight entries are enough for a block, and the only other way to fail is
memory that the controller cannot reach. -/
lemma ahciSetupPrdt_some {n va bytes : Nat} (hkern : InKernel va bytes)
    (hroom : va % PGSIZE + bytes ≤ n * PGSIZE) (hreach : wideDma ∨ v2p va + bytes ≤ 2 ^ 32) :
    ∃ prdt, ahciSetupPrdt wideDma n va bytes = some prdt := by
  fun_induction ahciSetupPrdt wideDma n va bytes with
  | case1 => exact ⟨[], rfl⟩
  | case2 => omega
  | case3 n va bytes haddr =>
    rw [ahciDmaAddr] at haddr
    split_ifs at haddr with hfar
    rcases hreach with hwide | hlow
    · exact nomatch hfar.1.symm.trans hwide
    · omega
  | case4 n va bytes chunk lo hi haddr =>
    rename_i ih
    have hmod := Nat.mod_lt va (show 0 < PGSIZE by decide)
    have hchunk : chunk ≤ bytes + 1 := min_le_left ..
    obtain ⟨rest, hrest⟩ : ∃ rest,
        ahciSetupPrdt wideDma n (va + chunk) (bytes + 1 - chunk) = some rest := by
      rcases hchunk.lt_or_eq with hlt | heq
      · have hpage : chunk = PGSIZE - va % PGSIZE := by omega
        have hstart : (va + chunk) % PGSIZE = 0 := by
          unfold PGSIZE at *
          omega
        refine ih (hkern.drop hchunk) ?_ ?_
        · rw [hstart]
          rw [Nat.succ_mul] at hroom
          omega
        · rw [hkern.v2p_add hlt]
          exact hreach.imp_right fun hlow => by omega
      · rw [heq, Nat.sub_self]
        exact ⟨[], by unfold ahciSetupPrdt; rfl⟩
    exact ⟨_, by rw [hrest]; rfl⟩

/-- The command for a buffer names its block, and the bytes of its data in
order. -/
lemma commandFor_spec {b : Hdr} {va : Nat} (hkern : InKernel va BSIZE)
    (hreach : wideDma ∨ v2p va + BSIZE ≤ 2 ^ 32) :
    ∃ c, commandFor wideDma b va = some c ∧ c.write = b.dirty ∧ c.sector = b.blockno.toNat ∧
      c.addrs = List.range' (v2p va) BSIZE := by
  have hroom : va % PGSIZE + BSIZE ≤ AHCI_PRDT_PER_CMD * PGSIZE := by
    unfold AHCI_PRDT_PER_CMD PGSIZE BSIZE
    omega
  obtain ⟨prdt, hprdt⟩ := ahciSetupPrdt_some hkern hroom hreach
  refine ⟨_, by rw [commandFor, hprdt]; rfl, rfl, ?_, ahciSetupPrdt_addrs hkern hprdt⟩
  have hlt := b.blockno.toNat_lt
  simp only [Command.sector]
  omega

/-! ## The port -/

/-- Where the buffers have their data. -/
structure Layout (ν : Type) where
  addr : ν → Nat
  kernel : ∀ b, InKernel (addr b) BSIZE
  apart : ∀ b c, b ≠ c → v2p (addr b) + BSIZE ≤ v2p (addr c) ∨ v2p (addr c) + BSIZE ≤ v2p (addr b)

variable {ν : Type}

def Layout.addrs (l : Layout ν) (b : ν) : List Nat := List.range' (v2p (l.addr b)) BSIZE

variable {b : ν}

lemma Layout.notMem_addrs (l : Layout ν) {c : ν} (hne : b ≠ c) {p : Nat} (hp : p ∈ l.addrs b) :
    p ∉ l.addrs c := by
  intro hp'
  have hb := mem_range'_1.mp hp
  have hc := mem_range'_1.mp hp'
  rcases l.apart b c hne with h | h
  · omega
  · omega

structure Request where
  write : Bool
  /-- `myproc() == 0` -/
  early : Bool
  deriving DecidableEq, Repr

structure Port (ν : Type) where
  port : Nat
  wideDma : Bool
  layout : Layout ν
  hdrs : ν → Hdr
  mem : Mem
  /-- `queue` and the `qnext` of the buffers. -/
  links : Links ν
  busy : Bool
  /-- `HBA_PxCMD_ST`: the drive takes commands. -/
  st : Bool
  ci : Bool
  /-- `is & HBA_PxIS_ERRORS` -/
  is : Bool
  tfd : Bool
  /-- Slot 0. -/
  command : Option Command
  disk : Nat → Block
  served : Option (Report Block)
  asked : ν → Option Request
  lost : ν → Bool
  report : ν → Option (Report Block)

namespace Port

inductive Act (ν : Type) where
  /-- Whoever holds its lock changes a buffer. -/
  | touch (b : ν) (hdr : Hdr) (data : Block)
  | ahcirw (b : ν) (early : Bool)
  /-- The drive is done with its command. -/
  | serve (ok : Bool)
  | intr
  | poll
  /-- `ahci_shutdown` stops the port, and with it the command. -/
  | stop
  /-- `ahcirw` returns. -/
  | finish (b : ν)
  /-- `ahcirw` returns after its last look. -/
  | giveUp (b : ν)

def data (s : Port ν) (b : ν) : Block :=
  ⟨(s.layout.addrs b).map s.mem, by rw [length_map, Layout.addrs, length_range']⟩

def buf (s : Port ν) (b : ν) : Buf Block := ⟨s.hdrs b, s.data b⟩

/-- `ahci_start_buf`, whose result nobody looks at. -/
def startBuf (s : Port ν) (b : ν) : Port ν :=
  match commandFor s.wideDma (s.hdrs b) (s.layout.addr b) with
  | none => { s with command := none }
  | some c => { s with command := some c, busy := true, ci := s.st, served := none }

/-- The drive carries out its command through the addresses it was given. -/
def carryOut (s : Port ν) (c : Command) : Option (Port ν) :=
  if h : c.addrs.length = BSIZE then
    if c.write then
      let data : Block := ⟨c.addrs.map s.mem, (length_map ..).trans h⟩
      some { s with
        disk := update s.disk c.sector data
        served := some (.success s.port c.sector true data) }
    else
      let data := s.disk c.sector
      some { s with
        mem := scatter c.addrs data.1 s.mem
        served := some (.success s.port c.sector false data) }
  else none

def serve (s : Port ν) (ok : Bool) : Option (Port ν) :=
  if s.ci = false then none
  else if ok then
    (s.command.bind s.carryOut).map fun t => { t with ci := false, tfd := false }
  else some { s with ci := false, is := true, tfd := true, served := some .failed }

section

variable [DecidableEq ν]

/-- The head is marked and taken off, whatever the error bits say. -/
def retire (s : Port ν) (b : ν) : Port ν :=
  { s with
    is := if s.is || s.tfd then false else s.is
    links := pop s.links b
    busy := false
    hdrs := update s.hdrs b (s.hdrs b).complete
    lost := update s.lost b false
    report := update s.report b s.served }

def checkPortCompletion (s : Port ν) : Port ν :=
  match s.links.head with
  | none => s
  | some b =>
    if s.ci then s
    else
      let t := s.retire b
      match t.links.head with
      | none => t
      | some c => t.startBuf c

def portFor (dev : UInt32) : Nat :=
  if dev.toNat ≥ DEV_SATA_START then dev.toNat - DEV_SATA_START else dev.toNat

/-- `ahcirw` up to its wait; `none` is a panic. -/
def ahcirw [Fintype ν] (s : Port ν) (b : ν) (early : Bool) : Option (Port ν) :=
  if portFor (s.hdrs b).dev ≥ AHCI_MAX_PORTS then none
  else if (s.hdrs b).settled then none
  else
    (append (Fintype.card ν) s.links b).map fun links =>
      let t : Port ν :=
        { s with
          links := links
          asked := update s.asked b (some ⟨(s.hdrs b).dirty, early⟩)
          report := update s.report b none }
      if links.head = some b then t.startBuf b else t

def step [Fintype ν] (s : Port ν) : Act ν → Option (Port ν)
  | .touch b hdr data =>
    if s.asked b = none then
      some { s with
        hdrs := update s.hdrs b hdr
        mem := scatter (s.layout.addrs b) data.1 s.mem }
    else none
  | .ahcirw b early =>
    if s.asked b = none ∧ portFor (s.hdrs b).dev = s.port then s.ahcirw b early else none
  | .serve ok => s.serve ok
  | .intr => some { s with is := false }.checkPortCompletion
  | .poll => some s.checkPortCompletion
  | .stop => some { s with st := false, ci := false }
  | .finish b =>
    if (s.asked b).isSome ∧ (s.hdrs b).settled then
      some { s with asked := update s.asked b none }
    else none
  | .giveUp b =>
    if (s.asked b).any (·.early) ∧ (s.hdrs b).settled = false then
      some { s with
        asked := update s.asked b none
        lost := update s.lost b true }
    else none

end

/-- The drive can reach the buffer's data. -/
def Reaches (s : Port ν) (b : ν) : Prop := s.wideDma ∨ v2p (s.layout.addr b) + BSIZE ≤ 2 ^ 32

/-- Commands succeed, and reach the drive: the port is not stopped under a
request, and the data of a buffer are where the drive can reach them. A
buffer whose request was given up is not used again before it is done. -/
def Fine (s : Port ν) : Act ν → Prop
  | .touch b _ _ => s.lost b = false
  | .ahcirw b _ => s.lost b = false ∧ s.st = true ∧ s.Reaches b
  | .serve ok => ok = true
  | .stop => s.links.head = none
  | _ => True

/-- No request is under way. -/
structure Idle (s : Port ν) : Prop where
  queue : s.links.head = none
  ci : s.ci = false
  asked : ∀ b, s.asked b = none
  lost : ∀ b, s.lost b = false

/-- The drive has the command of the buffer, or has served it. -/
def Active (s : Port ν) (b : ν) : Prop :=
  s.ci = true ∧ (∃ c, commandFor s.wideDma (s.hdrs b) (s.layout.addr b) = some c ∧
      s.command = some c) ∨
    s.ci = false ∧ Served (s.buf b) s.port (s.hdrs b).dirty s.served

/-- The queue links the buffers of the requests that are not done, given up
or not, the first one is active, and every other request was served. -/
structure Sound (s : Port ν) (q : List ν) : Prop where
  queue : IsQueue s.links q
  ci : s.ci = true → q ≠ []
  unsettled : ∀ b ∈ q, (s.hdrs b).settled = false
  reaches : ∀ b ∈ q, s.st = true ∧ s.Reaches b
  asked : ∀ b ∈ q, ∀ r, s.asked b = some r → r.write = (s.hdrs b).dirty
  unlost : ∀ b ∈ q, s.lost b = false → s.asked b ≠ none
  lost : ∀ b, s.lost b = true → b ∈ q
  active : ∀ b, q.head? = some b → s.Active b
  served : ∀ b r, b ∉ q → s.asked b = some r →
    (s.hdrs b).settled = true ∧ Served (s.buf b) s.port r.write (s.report b)

variable {s t : Port ν} {q : List ν}

/-- Where the drive takes commands and can reach the data, it is given the
command of the buffer. -/
lemma startBuf_spec (hst : s.st) (hreach : s.Reaches b) :
    ∃ c, commandFor s.wideDma (s.hdrs b) (s.layout.addr b) = some c ∧
      s.startBuf b = { s with command := some c, busy := true, ci := true, served := none } := by
  obtain ⟨c, hc, -⟩ := commandFor_spec (b := s.hdrs b) (s.layout.kernel b) hreach
  refine ⟨c, hc, ?_⟩
  rw [startBuf, hc, hst]

lemma map_scatter_ne (l : Layout ν) {c : ν} (hne : c ≠ b) (vs : List UInt8) (m : Mem) :
    (l.addrs c).map (scatter (l.addrs b) vs m) = (l.addrs c).map m :=
  map_congr_left fun _ hp => scatter_of_notMem (l.notMem_addrs hne hp)

/-- The drive carries out the command of a buffer: only its data and the
disk change, and the buffer is served. -/
lemma carryOut_served {c : Command}
    (hc : commandFor s.wideDma (s.hdrs b) (s.layout.addr b) = some c) (hreach : s.Reaches b)
    (h : s.carryOut c = some t) :
    t = { s with mem := t.mem, disk := t.disk, served := t.served } ∧
      (∀ d ≠ b, t.data d = s.data d) ∧ Served (t.buf b) s.port (s.hdrs b).dirty t.served := by
  obtain ⟨c', hc', hwrite, hsector, haddrs⟩ :=
    commandFor_spec (b := s.hdrs b) (s.layout.kernel b) hreach
  obtain rfl : c = c' := some.inj (hc.symm.trans hc')
  have haddrs : c.addrs = s.layout.addrs b := haddrs
  have hlen : c.addrs.length = BSIZE := by rw [haddrs, Layout.addrs, length_range']
  rw [carryOut, dif_pos hlen] at h
  split_ifs at h with hw
  · cases h
    refine ⟨rfl, fun _ _ => rfl, ?_⟩
    rw [← hwrite, hw]
    exact served_of hsector (Subtype.ext (congrArg (List.map s.mem) haddrs))
  cases h
  refine ⟨rfl, fun d hd => Subtype.ext ?_, ?_⟩
  · rw [haddrs]
    exact map_scatter_ne s.layout hd _ _
  rw [← hwrite, Bool.eq_false_of_not_eq_true hw]
  refine served_of hsector (Subtype.ext (Eq.symm ?_))
  rw [haddrs]
  exact map_scatter nodup_range' (by rw [← haddrs, hlen, (s.disk c.sector).2])

lemma serve_inv {ok : Bool} (h : s.serve ok = some t) (hok : ok) :
    s.ci ∧ ∃ c u, s.command = some c ∧ s.carryOut c = some u ∧
      t = { u with ci := false, tfd := false } := by
  subst hok
  obtain ⟨hci, h⟩ := ite_none_left_eq_some.mp h
  obtain ⟨u, hu, rfl⟩ := map_eq_some_iff.mp (show Option.map _ _ = some t from h)
  obtain ⟨c, hc, hu⟩ := bind_eq_some_iff.mp hu
  exact ⟨Bool.eq_true_of_not_eq_false hci, c, u, hc, hu, rfl⟩

lemma Sound.serve (h : s.Sound q) {ok : Bool} (hok : ok) (hstep : s.serve ok = some t) :
    t.Sound q := by
  obtain ⟨hci, c, u, hcmd, hu, ht⟩ := serve_inv hstep hok
  obtain ⟨b, q, rfl⟩ := exists_cons_of_ne_nil (h.ci hci)
  have hb : b ∈ b :: q := mem_cons_self
  obtain ⟨c', hc', hcmd'⟩ : ∃ c, commandFor s.wideDma (s.hdrs b) (s.layout.addr b) = some c ∧
      s.command = some c := by
    rcases h.active b rfl with hactive | hactive
    · exact hactive.2
    · exact nomatch hci.symm.trans hactive.1
  obtain rfl : c = c' := some.inj (hcmd.symm.trans hcmd')
  obtain ⟨heq, hdata, hserved⟩ := carryOut_served hc' (h.reaches b hb).2 hu
  have hbuf : ∀ {d}, d ≠ b → t.buf d = s.buf d := fun {d} hd => by
    rw [buf, buf, show t.data d = s.data d from ht ▸ hdata d hd, ht, heq]
  have hactive : t.Active b := by
    refine .inr ⟨by rw [ht], ?_⟩
    rw [show t.port = s.port by rw [ht, heq], show t.hdrs = s.hdrs by rw [ht, heq]]
    exact ht ▸ hserved
  rw [heq] at ht
  refine ⟨ht ▸ h.queue, fun _ => cons_ne_nil b q, ht ▸ h.unsettled, ht ▸ h.reaches,
    ht ▸ h.asked, ht ▸ h.unlost, ht ▸ h.lost, fun d hd => ?_, fun d r hd hr => ?_⟩
  · obtain rfl : b = d := some.inj hd
    exact hactive
  have hr : s.asked d = some r := by rw [← hr, ht]
  have hdb : d ≠ b := fun heq => hd (heq ▸ hb)
  rw [hbuf hdb]
  exact ht ▸ h.served d r hd hr

lemma Sound.acknowledge (h : s.Sound q) : Sound { s with is := false } q :=
  { h with }

lemma Sound.stop (h : s.Sound q) (hempty : s.links.head = none) :
    Sound { s with st := false, ci := false } q := by
  obtain rfl : q = [] := List.head?_eq_none_iff.mp (h.queue.head_eq.symm.trans hempty)
  exact ⟨h.queue, nofun, nofun, nofun, nofun, nofun, h.lost, nofun, h.served⟩

lemma Idle.sound (h : s.Idle) : s.Sound [] :=
  ⟨⟨h.queue, .nil⟩, fun hci => (nomatch h.ci.symm.trans hci), nofun, nofun, nofun, nofun,
    fun b hb => (nomatch (h.lost b).symm.trans hb), nofun,
    fun b _ _ hr => nomatch (h.asked b).symm.trans hr⟩

variable [DecidableEq ν]

lemma Sound.touch (h : s.Sound q) (hasked : s.asked b = none) (hlost : s.lost b = false)
    (hdr : Hdr) (data : Block) :
    Sound { s with
      hdrs := update s.hdrs b hdr
      mem := scatter (s.layout.addrs b) data.1 s.mem } q := by
  generalize ht : ({ s with hdrs := _, mem := _ } : Port ν) = t
  have hmem : b ∉ q := fun hmem => h.unlost b hmem hlost hasked
  have hhdr : ∀ {c}, c ≠ b → t.hdrs c = s.hdrs c := fun hne =>
    ht ▸ update_of_ne hne ..
  have hbuf : ∀ {c}, c ≠ b → t.buf c = s.buf c := fun {c} hne => by
    rw [buf, buf, hhdr hne, show t.data c = s.data c from
      ht ▸ Subtype.ext (map_scatter_ne s.layout hne data.1 s.mem)]
  have hne : ∀ {c}, c ∈ q → c ≠ b := fun hc heq => hmem (heq ▸ hc)
  refine ⟨ht ▸ h.queue, ht ▸ h.ci, fun c hc => ?_, ht ▸ h.reaches, fun c hc => ?_, ht ▸ h.unlost,
    ht ▸ h.lost, fun c hc => ?_, fun c r hc hr => ?_⟩
  · rw [hhdr (hne hc)]
    exact h.unsettled c hc
  · rw [hhdr (hne hc)]
    exact ht ▸ h.asked c hc
  · have hcb := hne (mem_of_mem_head? hc)
    rw [Active, hhdr hcb, hbuf hcb]
    exact ht ▸ h.active c hc
  have hr : s.asked c = some r := by rw [← hr, ← ht]
  have hcb : c ≠ b := by
    rintro rfl
    exact nomatch hasked.symm.trans hr
  rw [hhdr hcb, hbuf hcb]
  exact ht ▸ h.served c r hc hr

lemma ahcirw_inv [Fintype ν] {early : Bool} (h : s.ahcirw b early = some t) {links : Links ν}
    (happend : append (Fintype.card ν) s.links b = some links) :
    (s.hdrs b).settled = false ∧ ∃ u : Port ν,
        u = { s with
          links := links
          asked := update s.asked b (some ⟨(s.hdrs b).dirty, early⟩)
          report := update s.report b none } ∧
        (links.head = some b → t = u.startBuf b) ∧ (links.head ≠ some b → t = u) := by
  obtain ⟨-, h⟩ := ite_none_left_eq_some.mp h
  obtain ⟨hsettled, h⟩ := ite_none_left_eq_some.mp h
  rw [happend, map_some] at h
  obtain rfl := some.inj h
  exact ⟨by simpa using hsettled, _, rfl, fun heq => if_pos heq, fun hne => if_neg hne⟩

lemma Sound.enqueue (h : s.Sound q) {early busy ci : Bool} {links : Links ν}
    {command : Option Command} {served : Option (Report Block)} (hmem : b ∉ q)
    (hqueue : IsQueue links (q ++ [b])) (hsettled : (s.hdrs b).settled = false) (hst : s.st)
    (hreach : s.Reaches b) (ht : t = { s with
      links := links
      busy := busy
      ci := ci
      command := command
      served := served
      asked := update s.asked b (some ⟨(s.hdrs b).dirty, early⟩)
      report := update s.report b none }) (hactive : ∀ c, (q ++ [b]).head? = some c → t.Active c) :
    t.Sound (q ++ [b]) := by
  have hne : ∀ {c}, c ∈ q → c ≠ b := fun hc heq => hmem (heq ▸ hc)
  have hself : t.asked b = some ⟨(s.hdrs b).dirty, early⟩ := ht ▸ update_self ..
  have hother : ∀ {c}, c ≠ b → t.asked c = s.asked c := fun hne => ht ▸ update_of_ne hne ..
  have hlosts : t.lost = s.lost := by rw [ht]
  have hin : ∀ {P : ν → Prop}, (∀ c ∈ q, P c) → P b → ∀ c ∈ q ++ [b], P c := by
    intro P hq hb c hc
    rcases mem_append.mp hc with hc | hc
    · exact hq c hc
    · exact mem_singleton.mp hc ▸ hb
  refine ⟨ht ▸ hqueue, fun _ => by simp, hin (ht ▸ h.unsettled) (ht ▸ hsettled),
    hin (ht ▸ h.reaches) (ht ▸ ⟨hst, hreach⟩), hin (fun c hc r hr => ?_) (fun r hr => ?_),
    hin (fun c hc hlost => ?_) (fun _ => ?_), fun c hc => ?_, hactive, fun c r hc hr => ?_⟩
  · have hr : s.asked c = some r := hother (hne hc) ▸ hr
    exact ht ▸ h.asked c hc r hr
  · obtain rfl := some.inj (hself.symm.trans hr)
    exact ht ▸ rfl
  · rw [hother (hne hc)]
    exact h.unlost c hc (hlosts ▸ hlost)
  · rw [hself]
    exact nofun
  · exact mem_append_left [b] (h.lost c (hlosts ▸ hc))
  obtain ⟨hcq, hcb⟩ := not_or.mp (mem_append.not.mp hc)
  have hcb : c ≠ b := fun heq => hcb (mem_singleton.mpr heq)
  have hr : s.asked c = some r := hother hcb ▸ hr
  rw [show t.report c = s.report c from ht ▸ update_of_ne hcb ..]
  exact ht ▸ h.served c r hcq hr

lemma Sound.ahcirw [Fintype ν] (h : s.Sound q) {early : Bool} (hasked : s.asked b = none)
    (hlost : s.lost b = false) (hst : s.st) (hreach : s.Reaches b)
    (hstep : s.ahcirw b early = some t) : t.Sound (q ++ [b]) := by
  have hmem : b ∉ q := fun hmem => h.unlost b hmem hlost hasked
  obtain ⟨links, happend, hqueue, hhead⟩ := h.queue.append hmem h.queue.nodup.length_le_card
  obtain ⟨hsettled, u, hu, hfirst, hlater⟩ := ahcirw_inv hstep happend
  cases q with
  | nil =>
    obtain ⟨c, hc, hstart⟩ := startBuf_spec (s := u) (b := b) (hu ▸ hst) (hu ▸ hreach)
    have ht : t = u.startBuf b :=
      hfirst (by rw [hhead, show s.links.head = none from h.queue.chain]; rfl)
    rw [ht, hstart]
    refine h.enqueue hmem hqueue hsettled hst hreach (by rw [hu]) fun d hd => ?_
    obtain rfl : b = d := some.inj hd
    exact .inl ⟨rfl, c, hc, rfl⟩
  | cons y q => ?_
  have hy : links.head = some y := by rw [hhead, h.queue.chain.1]; rfl
  have hyb : y ≠ b := fun heq => hmem (heq ▸ mem_cons_self)
  have ht : t = u := hlater (by rw [hy]; exact fun heq => hyb (some.inj heq))
  rw [ht]
  refine h.enqueue hmem hqueue hsettled hst hreach hu fun d hd => ?_
  obtain rfl : y = d := some.inj hd
  exact hu ▸ h.active y rfl

lemma Sound.dequeue (h : s.Sound (b :: q)) (hci : s.ci = false) {is busy ci : Bool}
    {command : Option Command} {served : Option (Report Block)} (ht : t = { s with
      is := is
      links := pop s.links b
      busy := busy
      ci := ci
      command := command
      served := served
      hdrs := update s.hdrs b (s.hdrs b).complete
      lost := update s.lost b false
      report := update s.report b s.served }) (hnext : t.ci → q ≠ [])
    (hactive : ∀ c, q.head? = some c → t.Active c) : t.Sound q := by
  obtain ⟨hmem, -⟩ := nodup_cons.mp h.queue.nodup
  have hne : ∀ {c}, c ∈ q → c ≠ b := fun hc heq => hmem (heq ▸ hc)
  have hin : ∀ {c}, c ∈ q → c ∈ b :: q := mem_cons_of_mem b
  have hhdr : ∀ {c}, c ≠ b → t.hdrs c = s.hdrs c := fun hne => ht ▸ update_of_ne hne ..
  have hlost : ∀ {c}, c ≠ b → t.lost c = s.lost c := fun hne => ht ▸ update_of_ne hne ..
  have hasked : t.asked = s.asked := by rw [ht]
  have hserved : Served (s.buf b) s.port (s.hdrs b).dirty s.served := by
    rcases h.active b rfl with hactive | hactive
    · exact nomatch hci.symm.trans hactive.1
    · exact hactive.2
  refine ⟨ht ▸ h.queue.pop, hnext, fun c hc => ?_,
    fun c hc => ht ▸ h.reaches c (hin hc), fun c hc => ?_, fun c hc => ?_, fun c hc => ?_, hactive,
    fun c r hc hr => ?_⟩
  · rw [hhdr (hne hc)]
    exact h.unsettled c (hin hc)
  · rw [hhdr (hne hc), hasked]
    exact h.asked c (hin hc)
  · rw [hlost (hne hc), hasked]
    exact h.unlost c (hin hc)
  · have hcb : c ≠ b := by
      rintro rfl
      rw [ht] at hc
      exact nomatch (update_self ..).symm.trans hc
    exact (mem_cons.mp (h.lost c (hlost hcb ▸ hc))).resolve_left hcb
  rw [hasked] at hr
  by_cases hcb : c = b
  · obtain rfl := hcb
    have hdone : t.hdrs c = (s.hdrs c).complete := ht ▸ update_self ..
    rw [h.asked c mem_cons_self r hr, buf, hdone, show t.report c = s.served from
      ht ▸ update_self ..]
    exact ⟨rfl, ht ▸ hserved⟩
  · rw [buf, hhdr hcb, show t.report c = s.report c from ht ▸ update_of_ne hcb ..]
    exact ht ▸ h.served c r (mem_cons.not.mpr (not_or.mpr ⟨hcb, hc⟩)) hr

lemma Sound.checkPortCompletion (h : s.Sound q) : ∃ q', s.checkPortCompletion.Sound q' := by
  have hhead : s.links.head = q.head? := h.queue.head_eq
  cases q with
  | nil =>
    rw [Port.checkPortCompletion, show s.links.head = none from hhead]
    exact ⟨[], h⟩
  | cons b q => ?_
  rw [Port.checkPortCompletion, show s.links.head = some b from hhead]
  dsimp only
  by_cases hci : s.ci
  · rw [if_pos hci]
    exact ⟨b :: q, h⟩
  rw [if_neg hci]
  have hci : s.ci = false := Bool.eq_false_of_not_eq_true hci
  have hpop : (s.retire b).links.head = q.head? := h.queue.pop.head_eq
  refine ⟨q, ?_⟩
  rw [hpop]
  cases q with
  | nil => exact h.dequeue hci rfl (fun hnext => nomatch hci.symm.trans hnext) nofun
  | cons c q => ?_
  obtain ⟨hst, hreach⟩ := h.reaches c (mem_cons_of_mem b mem_cons_self)
  obtain ⟨k, hk, hstart⟩ := startBuf_spec (s := s.retire b) (b := c) hst hreach
  simp only [List.head?_cons, hstart]
  refine h.dequeue hci rfl (fun _ => cons_ne_nil c q) fun d hd => ?_
  obtain rfl : c = d := some.inj hd
  exact .inl ⟨rfl, k, hk, rfl⟩

lemma Sound.finish (h : s.Sound q) (hb : (s.hdrs b).settled) :
    Sound { s with asked := update s.asked b none } q := by
  have hne : ∀ {c}, c ∈ q → c ≠ b := by
    rintro c hc rfl
    exact nomatch hb.symm.trans (h.unsettled c hc)
  refine { h with
    asked := fun c hc => ?_, unlost := fun c hc => ?_, served := fun c r hc hr => ?_ }
  · simpa only [update_of_ne (hne hc)] using h.asked c hc
  · simpa only [update_of_ne (hne hc)] using h.unlost c hc
  have hcb : c ≠ b := by
    rintro rfl
    exact nomatch (update_self ..).symm.trans hr
  exact h.served c r hc (by simpa only [update_of_ne hcb] using hr)

lemma Sound.giveUp (h : s.Sound q) (hasked : s.asked b ≠ none) (hb : (s.hdrs b).settled = false) :
    Sound { s with
      asked := update s.asked b none
      lost := update s.lost b true } q := by
  have hmem : b ∈ q := by
    obtain ⟨r, hr⟩ := ne_none_iff_exists'.mp hasked
    by_contra hmem
    exact nomatch hb.symm.trans (h.served b r hmem hr).1
  have hsome : ∀ {c r}, update s.asked b none c = some r → c ≠ b ∧ s.asked c = some r := by
    intro c r hr
    have hcb : c ≠ b := by
      rintro rfl
      exact nomatch (update_self ..).symm.trans hr
    exact ⟨hcb, by simpa only [update_of_ne hcb] using hr⟩
  refine ⟨h.queue, h.ci, h.unsettled, h.reaches, fun c hc r hr => h.asked c hc r (hsome hr).2,
    fun c hc => ?_, fun c hc => ?_, h.active, fun c r hc hr => h.served c r hc (hsome hr).2⟩
  · by_cases hcb : c = b
    · obtain rfl := hcb
      simp only [update_self]
      exact nofun
    · simpa only [update_of_ne hcb] using h.unlost c hc
  · by_cases hcb : c = b
    · exact hcb ▸ hmem
    · exact h.lost c (by simpa only [update_of_ne hcb] using hc)

lemma Sound.step [Fintype ν] (h : s.Sound q) {a : Act ν} (hfine : s.Fine a)
    (hstep : s.step a = some t) : ∃ q', t.Sound q' := by
  cases a with
  | touch b hdr data =>
    obtain ⟨hb, heq⟩ := ite_none_right_eq_some.mp hstep
    cases heq
    exact ⟨q, h.touch hb hfine hdr data⟩
  | ahcirw b early =>
    obtain ⟨hb, hstep⟩ := ite_none_right_eq_some.mp hstep
    exact ⟨q ++ [b], h.ahcirw hb.1 hfine.1 hfine.2.1 hfine.2.2 hstep⟩
  | serve ok => exact ⟨q, h.serve hfine hstep⟩
  | intr =>
    cases hstep
    exact h.acknowledge.checkPortCompletion
  | poll =>
    cases hstep
    exact h.checkPortCompletion
  | stop =>
    cases hstep
    exact ⟨q, h.stop hfine⟩
  | finish b =>
    obtain ⟨hb, heq⟩ := ite_none_right_eq_some.mp hstep
    cases heq
    exact ⟨q, h.finish hb.2⟩
  | giveUp b => ?_
  obtain ⟨hb, heq⟩ := ite_none_right_eq_some.mp hstep
  cases heq
  refine ⟨q, h.giveUp (fun hnone => ?_) hb.2⟩
  rw [hnone] at hb
  exact nomatch hb.1

/-- Where commands reach the drive and succeed, a buffer that `ahcirw` can
return was served by the drive. -/
lemma Idle.served [Fintype ν] (hidle : s.Idle) {as : List (Act ν)}
    (hrun : Runs.Run (fun s a t => Fine s a ∧ step s a = some t) s as t) {r : Request}
    (hb : t.asked b = some r) (hsettled : (t.hdrs b).settled) :
    Served (t.buf b) t.port r.write (t.report b) := by
  obtain ⟨q, h⟩ : ∃ q, t.Sound q :=
    hrun.invariant ⟨[], hidle.sound⟩
      fun _ _ _ h hst => h.elim fun _ h => h.step hst.1 hst.2
  exact (h.served b r (fun hmem => nomatch hsettled.symm.trans (h.unsettled b hmem)) hb).2

end Port

end Proninx.Storage
