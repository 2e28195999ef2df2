import Proninx.Kern.Boot.DirectMap

/-!
# Seeding the page allocator

`kinit1` hands out what lies just above the kernel and its modules, as far
as the loader's tables reach, and `kinit2` the rest of RAM once `kvmalloc`
has built the direct map. Before that, `vmem_reserve` and `kinit2` carve
the console arena and the backing memory of the GPU from the top. The free
list has virtual addresses; the page of a physical address `x` is `P2V(x)`
there.

Between `kvmalloc` and `kinit2` the kernel takes pages from the list and
gives back pages that it has taken (`Op`).
-/

namespace Proninx.Boot

open Function List Nat Option Vm

def MB : Nat := 0x100000

structure Kmem where
  temporaryTop : Nat
  physTop : Nat
  /-- `vmem_phys` and `vmem_size`, once the arena is set up. -/
  vmem : Option (Nat × Nat)
  /-- `gpu_backing_phys` and `gpu_reserve_size`, once the area is set up. -/
  gpu : Option (Nat × Nat)
  freelist : List Nat
  deriving DecidableEq, Repr

/-- `detect_memory`; `none` is a panic. -/
def detectMemory (mem : List MemRange) : Option Kmem :=
  if ramTop mem = 0 then none
  else some ⟨4 * MB, ramTop mem / PGSIZE * PGSIZE, none, none, []⟩

def arenaSize (ramBytes : Nat) : Nat :=
  let arena := ramBytes / 16
  let arena := if arena < 8 * MB then 8 * MB else arena
  let arena := if arena > 64 * MB then 64 * MB else arena
  (arena + SIZE_2M - 1) / SIZE_2M * SIZE_2M

def vmemReserve (ramBytes : Nat) (s : Kmem) : Kmem :=
  let arena := arenaSize ramBytes
  if s.physTop ≤ s.temporaryTop + arena + 16 * MB then s
  else { s with physTop := s.physTop - arena, vmem := some (s.physTop - arena, arena) }

def kfree (img : Image) (s : Kmem) (v : Nat) : Option Kmem :=
  if v % PGSIZE ≠ 0 ∨ v2p v < img.stop ∨ v2p v ≥ s.physTop then none
  else some { s with freelist := v :: s.freelist }

/-- The loop of `freerange` on addresses of 64 bits. There are `2 ^ 52`
pages, so a loop that has not come to its end after as many rounds has
none. -/
def freeLoop (img : Image) (vend : Nat) : (rounds : Nat) → (p : Nat) → Kmem → Option Kmem
  | 0, _, _ => none
  | rounds + 1, p, s =>
    if (p + PGSIZE) % 2 ^ 64 ≤ vend then
      (kfree img s p).bind (freeLoop img vend rounds ((p + PGSIZE) % 2 ^ 64))
    else some s

def freerange (img : Image) (s : Kmem) (vstart vend : Nat) : Option Kmem :=
  freeLoop img vend (2 ^ 52) (pgroundup vstart) s

def freelistSane (img : Image) (s : Kmem) (v : Nat) : Bool :=
  v % PGSIZE = 0 ∧ DMAP_BASE ≤ v ∧ v2p v ≥ img.stop ∧ v2p v < s.physTop

def kalloc (img : Image) (s : Kmem) : Option (Option Nat × Kmem) :=
  match s.freelist with
  | [] => some (none, s)
  | [v] => some (some v, { s with freelist := [] })
  | v :: next :: rest =>
    if freelistSane img s next then some (some v, { s with freelist := next :: rest }) else none

def heapStart (img : Image) (modules : List Module) : Nat :=
  pgroundup (modules.foldl (fun top m => if m.base + m.size > top then m.base + m.size else top)
    img.stop)

/-- The new `phys_temporary_top` of `kinit1`. -/
def seedTop (temporaryTop endPhys run : Nat) : Nat :=
  let top := if temporaryTop < endPhys + 4 * MB then endPhys + 4 * MB else temporaryTop
  if top > run then run else top

def kinit1 (img : Image) (info : Info) (vstart : Nat) : Option Kmem := do
  let s ← detectMemory info.mem
  let s := vmemReserve (ramBytes info.mem) s
  let endPhys := pgroundup (v2p vstart)
  let run := ramRunEnd info.mem endPhys
  let top := seedTop s.temporaryTop endPhys run
  if run = 0 then none
  else if top ≤ endPhys + PGSIZE then none
  else freerange img { s with temporaryTop := top } vstart (p2v top)

/-- The first loop of `kinit2`, over the sizes in `want`. -/
def gpuReserve : (want : List Nat) → Kmem → Kmem
  | [], s => s
  | want :: wants, s =>
    if s.physTop ≤ s.temporaryTop + want * 2 then gpuReserve wants s
    else { s with physTop := s.physTop - want, gpu := some (s.physTop - want, want) }

/-- One range in the second loop of `kinit2`. -/
def freeRam (img : Image) (s : Kmem) (r : MemRange) : Option Kmem :=
  if r.type ≠ .ram then some s
  else
    let lo := if r.base < s.temporaryTop then s.temporaryTop else r.base
    let hi := if r.stop > s.physTop then s.physTop else r.stop
    if lo < hi then freerange img s (p2v lo) (p2v hi) else some s

def kinit2 (img : Image) (mem : List MemRange) (s : Kmem) : Option Kmem :=
  mem.foldlM (freeRam img) (gpuReserve [16 * MB, 4 * MB] s)

inductive Op where
  | kalloc
  | kfree (v : Nat)

/-- One call, with the pages that the kernel holds. -/
def Op.run (img : Image) (s : Kmem × List Nat) : Op → Option (Kmem × List Nat)
  | .kalloc => (Boot.kalloc img s.1).map fun t => (t.2, t.1.toList ++ s.2)
  | .kfree v => if v ∈ s.2 then (Boot.kfree img s.1 v).map (·, s.2.erase v) else none

/-- `kmain` up to `kinit2`; `kvmalloc` takes its pages from the front of the
list. -/
def startup (img : Image) (given : Info) (have1g : Bool) (ops : List Op) :
    Option (Pml4 × Kmem) := do
  let info := bootinfoInit given
  let s ← kinit1 img info (p2v (heapStart img info.modules))
  let t ← kvmalloc have1g img info.mem (mapTop info.mem) s.freelist.length
  let used := s.freelist.length - t.2
  let u ← ops.foldlM (Op.run img)
    ({ s with freelist := s.freelist.drop used }, s.freelist.take used)
  some (t.1, u.1)

/-- `kmain` up to the end of `kinit2`. -/
def kmain (img : Image) (given : Info) (have1g : Bool) (ops : List Op) : Option Kmem := do
  let s ← startup img given have1g ops
  kinit2 img (bootinfoInit given).mem s.2

variable {img : Image} {given info : Info} {mem : List MemRange} {s t : Kmem}
  {x y lo hi vend rounds p v top : Nat}

/-! ## `freerange` -/

lemma p2v_of_lt (h : x < 2 ^ 47) : p2v x = DMAP_BASE + x := by
  unfold p2v DMAP_BASE
  omega

lemma p2v_of_ge (h : 2 ^ 47 ≤ x) (hx : x < 2 ^ 54) : p2v x = x - 2 ^ 47 := by
  unfold p2v DMAP_BASE
  omega

lemma p2v_inj (hx : x < 2 ^ 52) (hy : y < 2 ^ 52) (h : p2v x = p2v y) : x = y := by
  unfold p2v DMAP_BASE at h
  omega

/-- `V2P` undoes `P2V`, but for what `P2V` puts where the image is. -/
lemma v2p_p2v_of (hx : x < 2 ^ 53) (h : x < KERNBASE - DMAP_BASE ∨ 2 ^ 47 ≤ x) :
    v2p (p2v x) = x := by
  unfold v2p p2v
  unfold KERNBASE DMAP_BASE at *
  split_ifs <;> omega

lemma pgroundup_p2v (h : x ≤ 2 ^ 52) : pgroundup (p2v x) = p2v (pgroundup x) := by
  unfold pgroundup p2v DMAP_BASE PGSIZE
  omega

lemma p2v_add (n : Nat) : (p2v x + n) % 2 ^ 64 = p2v (x + n) := by
  unfold p2v
  omega

lemma kfree_eq_some :
    kfree img s v = some t ↔ v % PGSIZE = 0 ∧ img.stop ≤ v2p v ∧ v2p v < s.physTop ∧
      t = { s with freelist := v :: s.freelist } := by
  rw [kfree]
  split_ifs with h
  · refine ⟨nofun, ?_⟩
    rintro ⟨haligned, himage, htop, -⟩
    omega
  simp only [some.injEq, eq_comm (a := t)]
  constructor
  · exact fun ht => ⟨by omega, by omega, by omega, ht⟩
  · exact fun ht => ht.2.2.2

lemma freeLoop_check (h : freeLoop img vend rounds p s = some t) (hp : p ≤ v)
    (hoff : (v - p) % PGSIZE = 0) (hv : v + PGSIZE ≤ vend) (hend : vend < 2 ^ 64)
    (htop : s.physTop ≤ top) : v2p v < top := by
  induction rounds generalizing p s with
  | zero => cases h
  | succ rounds ih => ?_
  rw [freeLoop, if_pos (by omega)] at h
  obtain ⟨s', hs', h⟩ := bind_eq_some_iff.mp h
  obtain ⟨-, -, hcheck, rfl⟩ := kfree_eq_some.mp hs'
  rcases eq_or_lt_of_le hp with rfl | hlt
  · exact hcheck.trans_le htop
  have hstep : p + PGSIZE ≤ v := by
    unfold PGSIZE at *
    omega
  rw [mod_eq_of_lt (by omega)] at h
  exact ih h hstep (by unfold PGSIZE at *; omega) htop

def pageRun (x n : Nat) : List Nat := (List.range n).map fun i => x + i * PGSIZE

lemma pageRun_succ (x n : Nat) : pageRun x (n + 1) = x :: pageRun (x + PGSIZE) n := by
  rw [pageRun, pageRun, List.range_succ_eq_map, List.map_cons, List.map_map, Nat.zero_mul,
    add_zero]
  congr 1
  refine map_congr_left fun i _ => ?_
  rw [comp_apply, succ_mul]
  omega

lemma mem_pageRun {n : Nat} : y ∈ pageRun x n ↔ ∃ i < n, y = x + i * PGSIZE := by
  simp [pageRun, eq_comm]

/-- What `kfree` accepts of the page of `x`, inside a range that ends at
`hi`. -/
structure Accepted (img : Image) (s : Kmem) (hi x : Nat) : Prop where
  aligned : x % PGSIZE = 0
  inside : x + PGSIZE ≤ hi
  image : img.stop ≤ v2p (p2v x)
  top : v2p (p2v x) < s.physTop

lemma freeLoop_spec (h : freeLoop img (p2v hi) rounds (p2v x) s = some t)
    (hx : x % PGSIZE = 0) (hxb : x ≤ 2 ^ 53) (hhi : hi ≤ 2 ^ 52) (htop : s.physTop ≤ 2 ^ 52) :
    ∃ n, t = { s with freelist := ((pageRun x n).map p2v).reverse ++ s.freelist } ∧
      ∀ y ∈ pageRun x n, Accepted img s hi y := by
  induction rounds generalizing x s with
  | zero => cases h
  | succ rounds ih => ?_
  rw [freeLoop, p2v_add] at h
  split_ifs at h with hle
  · obtain ⟨s', hs', h⟩ := bind_eq_some_iff.mp h
    obtain ⟨-, himage, hcheck, rfl⟩ := kfree_eq_some.mp hs'
    -- A page past the range would be one past the end of the address
    -- space, and on the way round to the end of the range is 2 ^ 53.
    have hin : x + PGSIZE ≤ hi := by
      by_contra hout
      have hwrap : hi < 2 ^ 47 ∧ 2 ^ 47 ≤ x + PGSIZE := by
        unfold p2v DMAP_BASE PGSIZE at *
        omega
      rw [p2v_of_lt hwrap.1, p2v_of_ge hwrap.2 (by unfold PGSIZE; omega)] at h
      have hpast : v2p (2 ^ 53) < 2 ^ 52 := by
        refine freeLoop_check h ?_ ?_ ?_ ?_ htop
        all_goals
          unfold PGSIZE at *
          try unfold DMAP_BASE
          omega
      exact absurd hpast (by decide)
    obtain ⟨n, rfl, hacc⟩ := ih h (by unfold PGSIZE at *; omega) (by omega) htop
    refine ⟨n + 1, ?_, ?_⟩
    · simp [pageRun_succ]
    rw [pageRun_succ]
    intro y hy
    rcases mem_cons.mp hy with rfl | hy
    · exact ⟨hx, hin, himage, hcheck⟩
    · exact ⟨(hacc y hy).1, (hacc y hy).2, (hacc y hy).3, (hacc y hy).4⟩
  · obtain rfl := some.inj h
    exact ⟨0, rfl, by simp [pageRun]⟩

lemma pgroundup_spec (h : x ≤ 2 ^ 52) :
    pgroundup x % PGSIZE = 0 ∧ x ≤ pgroundup x ∧ pgroundup x < x + PGSIZE := by
  unfold pgroundup PGSIZE
  omega

lemma freerange_spec (h : freerange img s (p2v lo) (p2v hi) = some t) (hlo : lo ≤ 2 ^ 52)
    (hhi : hi ≤ 2 ^ 52) (htop : s.physTop ≤ 2 ^ 52) :
    ∃ n, t = { s with freelist := ((pageRun (pgroundup lo) n).map p2v).reverse ++ s.freelist } ∧
      ∀ x ∈ pageRun (pgroundup lo) n, Accepted img s hi x := by
  obtain ⟨haligned, -, hlt⟩ := pgroundup_spec hlo
  rw [freerange, pgroundup_p2v hlo] at h
  exact freeLoop_spec h haligned (by unfold PGSIZE at hlt; omega) hhi htop

/-! ## Free pages -/

/-- No page twice, and every page is the page of an address with `P`. -/
structure Seeded (P : Nat → Prop) (pages : List Nat) : Prop where
  nodup : pages.Nodup
  page : ∀ v ∈ pages, ∃ x, v = p2v x ∧ P x

variable {P Q : Nat → Prop} {pages pages' : List Nat}

lemma Seeded.perm (h : Seeded P pages) (hperm : pages.Perm pages') : Seeded P pages' :=
  ⟨hperm.nodup_iff.mp h.nodup, fun v hv => h.page v (hperm.mem_iff.mpr hv)⟩

lemma Seeded.mono (h : Seeded P pages) (hPQ : ∀ x, P x → Q x) : Seeded Q pages :=
  ⟨h.nodup, fun v hv => (h.page v hv).imp fun x hx => ⟨hx.1, hPQ x hx.2⟩⟩

lemma Seeded.left (h : Seeded P (pages ++ pages')) : Seeded P pages :=
  ⟨(nodup_append.mp h.nodup).1, fun v hv => h.page v (mem_append_left _ hv)⟩

lemma Seeded.append (h : Seeded P pages) (h' : Seeded Q pages')
    (hP : ∀ x, P x → x < 2 ^ 52) (hQ : ∀ x, Q x → x < 2 ^ 52) (hapart : ∀ x, P x → ¬Q x) :
    Seeded (fun x => P x ∨ Q x) (pages ++ pages') := by
  refine ⟨nodup_append.mpr ⟨h.nodup, h'.nodup, ?_⟩, fun v hv => ?_⟩
  · rintro v hv _ hv' rfl
    obtain ⟨x, rfl, hx⟩ := h.page v hv
    obtain ⟨y, heq, hy⟩ := h'.page _ hv'
    obtain rfl := p2v_inj (hP x hx) (hQ y hy) heq
    exact hapart x hx hy
  · rcases mem_append.mp hv with hv | hv
    · exact (h.page v hv).imp fun x hx => ⟨hx.1, .inl hx.2⟩
    · exact (h'.page v hv).imp fun x hx => ⟨hx.1, .inr hx.2⟩

lemma seeded_pageRun {n : Nat} (h : ∀ y ∈ pageRun x n, y < 2 ^ 52) :
    Seeded (· ∈ pageRun x n) ((pageRun x n).map p2v).reverse := by
  have hnodup : (pageRun x n).Nodup := by
    refine nodup_range.map_on fun i _ j _ heq => ?_
    unfold PGSIZE at heq
    omega
  constructor
  · exact nodup_reverse.mpr (hnodup.map_on fun y hy z hz => p2v_inj (h y hy) (h z hz))
  intro v hv
  obtain ⟨y, hy, rfl⟩ := mem_map.mp (mem_reverse.mp hv)
  exact ⟨y, rfl, hy⟩

structure RamPage (mem : List MemRange) (start stop x : Nat) : Prop where
  aligned : x % PGSIZE = 0
  above : start ≤ x
  below : x + PGSIZE ≤ stop
  ram : ∀ p, x ≤ p → p < x + PGSIZE → InRam mem p

variable {start : Nat}

lemma RamPage.lt {stop : Nat} (h : RamPage mem start stop x) : x < 2 ^ 52 := by
  obtain ⟨r, -, -, -, hlt⟩ := h.ram x le_rfl (by unfold PGSIZE; omega)
  exact hlt.trans_le r.physical

/-! ## `kinit1` -/

lemma heapStart_spec (img : Image) (modules : List Module) :
    heapStart img modules % PGSIZE = 0 ∧ heapStart img modules ≤ 2 ^ 52 ∧
      img.stop ≤ heapStart img modules ∧
      ∀ m ∈ modules, m.base + m.size ≤ heapStart img modules := by
  have hfold : ∀ (ms : List Module) (top : Nat), top ≤ 2 ^ 52 →
      let stop := ms.foldl (fun top m => if m.base + m.size > top then m.base + m.size else top) top
      top ≤ stop ∧ stop ≤ 2 ^ 52 ∧ ∀ m ∈ ms, m.base + m.size ≤ stop := by
    intro ms
    induction ms with
    | nil => exact fun top h => ⟨le_rfl, h, by simp⟩
    | cons m ms ih => ?_
    intro top htop
    have hm := m.physical
    rw [foldl_cons]
    obtain ⟨hle, hbound, hall⟩ := ih (if m.base + m.size > top then m.base + m.size else top)
      (by split_ifs <;> omega)
    refine ⟨le_trans (by split_ifs <;> omega) hle, hbound, fun m' hm' => ?_⟩
    rcases mem_cons.mp hm' with rfl | hm'
    · exact le_trans (by split_ifs <;> omega) hle
    · exact hall m' hm'
  have hlinked := img.linked
  obtain ⟨hstop, hbound, hall⟩ := hfold modules img.stop (by omega)
  obtain ⟨haligned, hle, hlt⟩ := pgroundup_spec hbound
  refine ⟨haligned, ?_, hstop.trans hle, fun m hm => (hall m hm).trans hle⟩
  unfold PGSIZE at hlt haligned
  change pgroundup _ ≤ _
  omega

/-- The allocator after `vmem_reserve`. -/
def carved (mem : List MemRange) : Kmem :=
  vmemReserve (ramBytes mem) ⟨4 * MB, ramTop mem / PGSIZE * PGSIZE, none, none, []⟩

lemma carved_temporaryTop (mem : List MemRange) : (carved mem).temporaryTop = 4 * MB := by
  rw [carved, vmemReserve]
  split_ifs <;> rfl

lemma carved_physTop (mem : List MemRange) :
    (carved mem).physTop ≤ 2 ^ 52 ∧ (carved mem).physTop % PGSIZE = 0 := by
  have htop : ramTop mem ≤ 2 ^ 52 := ramTop_le
  rw [carved, vmemReserve]
  split_ifs
  all_goals
    unfold arenaSize SIZE_2M PGSIZE at *
    dsimp only at *
    omega

lemma carved_vmem (mem : List MemRange) : ∀ a ∈ (carved mem).vmem, a.1 = (carved mem).physTop := by
  rw [carved, vmemReserve]
  split_ifs <;> simp

lemma carved_rest (mem : List MemRange) : (carved mem).gpu = none ∧ (carved mem).freelist = [] := by
  rw [carved, vmemReserve]
  split_ifs <;> exact ⟨rfl, rfl⟩

lemma kinit1_eq_some {vstart : Nat} (h : kinit1 img info vstart = some t) :
    ∃ endPhys top, endPhys = pgroundup (v2p vstart) ∧
      top = seedTop (4 * MB) endPhys (ramRunEnd info.mem endPhys) ∧ endPhys + PGSIZE < top ∧
      freerange img { carved info.mem with temporaryTop := top } vstart (p2v top) = some t := by
  obtain ⟨s, hs, h⟩ := bind_eq_some_iff.mp h
  obtain ⟨-, hs⟩ := ite_none_left_eq_some.mp hs
  obtain rfl := some.inj hs
  obtain ⟨-, h⟩ := ite_none_left_eq_some.mp h
  obtain ⟨hle, h⟩ := ite_none_left_eq_some.mp h
  refine ⟨_, _, rfl, ?_, not_le.mp hle, h⟩
  change seedTop (carved info.mem).temporaryTop _ _ = _
  rw [carved_temporaryTop]

lemma seedTop_le {temporaryTop endPhys run : Nat} : seedTop temporaryTop endPhys run ≤ run ∧
      seedTop temporaryTop endPhys run ≤ max temporaryTop (endPhys + 4 * MB) := by
  unfold seedTop
  dsimp only
  split_ifs <;> omega

lemma ramRunEnd_le (hp : p ≤ 2 ^ 52) : ramRunEnd mem p ≤ 2 ^ 52 := by
  by_contra hlt
  obtain ⟨r, -, -, -, hr⟩ := ramRunEnd_inRam hp (not_le.mp hlt)
  exact absurd (hr.trans_le r.physical) (lt_irrefl _)

/-- The allocator after `kinit1`, whatever is on its list. -/
structure Started (start : Nat) (s : Kmem) : Prop where
  start_le : start ≤ s.temporaryTop
  top_le : s.physTop ≤ 2 ^ 52
  arena : ∀ a ∈ s.vmem, a.1 = s.physTop
  gpu : s.gpu = none

/-- `V2P` of `heap_start`; where it is something else, the heap starts above
all that `kinit1` hands out. -/
lemma endPhys_cases (haligned : x % PGSIZE = 0) (hx : x ≤ 2 ^ 52) :
    pgroundup (v2p (p2v x)) = x ∧ (x < KERNBASE - DMAP_BASE ∨ 2 ^ 47 ≤ x) ∨
      max (4 * MB) (pgroundup (v2p (p2v x)) + 4 * MB) < x := by
  unfold pgroundup v2p p2v MB
  unfold KERNBASE DMAP_BASE PGSIZE at *
  split_ifs <;> omega

/-- Of a run of pages that starts below the addresses of the image, none
has such an address: `kfree` would refuse the first. -/
lemma v2p_p2v_of_accepted {n : Nat} (hx : x % PGSIZE = 0) (hy : y ∈ pageRun x n)
    (hlt : y < 2 ^ 52) (hplace : x < KERNBASE - DMAP_BASE ∨ 2 ^ 47 ≤ x)
    (hacc : ∀ z ∈ pageRun x n, Accepted img s hi z) : v2p (p2v y) = y := by
  obtain ⟨i, hi, rfl⟩ := mem_pageRun.mp hy
  refine v2p_p2v_of (hlt.trans (by decide)) ?_
  by_contra hmid
  have hfirst : KERNBASE - DMAP_BASE ∈ pageRun x n := by
    refine mem_pageRun.mpr ⟨(KERNBASE - DMAP_BASE - x) / PGSIZE, ?_, ?_⟩
    all_goals
      unfold KERNBASE DMAP_BASE PGSIZE at *
      omega
  have himage := (hacc _ hfirst).image
  have horder := img.order
  have hzero : v2p (p2v (KERNBASE - DMAP_BASE)) = 0 := by decide
  unfold EXTMEM at horder
  omega

lemma kinit1_started (hT : x % PGSIZE = 0) (hx : x ≤ 2 ^ 52)
    (h : kinit1 img info (p2v x) = some t) (hne : t.freelist ≠ []) :
    Started x t ∧ Seeded (fun y => RamPage info.mem x t.physTop y ∧ y + PGSIZE ≤ t.temporaryTop)
      t.freelist := by
  obtain ⟨endPhys, top, hend, htop, hlt, h⟩ := kinit1_eq_some h
  obtain ⟨hphys, haligned⟩ := carved_physTop info.mem
  obtain ⟨hgpu, hlist⟩ := carved_rest info.mem
  have hplace := endPhys_cases hT hx
  rw [← hend] at hplace
  have hendle : endPhys ≤ 2 ^ 52 := by omega
  have hrun : top ≤ ramRunEnd info.mem endPhys := htop ▸ seedTop_le.1
  have hseed : top ≤ max (4 * MB) (endPhys + 4 * MB) := htop ▸ seedTop_le.2
  have hround : pgroundup x = x := by
    unfold pgroundup PGSIZE at *
    omega
  obtain ⟨n, rfl, hacc⟩ := freerange_spec h hx (hrun.trans (ramRunEnd_le hendle)) hphys
  rw [hround, hlist, append_nil] at *
  have hfirst : x ∈ pageRun x n := by
    refine mem_pageRun.mpr ⟨0, Nat.pos_of_ne_zero ?_, by rw [zero_mul, add_zero]⟩
    rintro rfl
    exact hne rfl
  obtain ⟨hendx, hplace⟩ : endPhys = x ∧ (x < KERNBASE - DMAP_BASE ∨ 2 ^ 47 ≤ x) := by
    refine hplace.resolve_right fun hhigh => ?_
    have hin : x ≤ top := le_of_add_right_le (hacc x hfirst).inside
    exact absurd (hin.trans hseed) (not_le.mpr hhigh)
  subst hendx
  have hlower : ∀ y ∈ pageRun endPhys n, endPhys ≤ y := fun y hy => by
    obtain ⟨i, -, rfl⟩ := mem_pageRun.mp hy
    exact le_self_add
  have hlt52 : ∀ y ∈ pageRun endPhys n, y < 2 ^ 52 := fun y hy => by
    have hin := (hacc y hy).inside
    have hle := hrun.trans (ramRunEnd_le hendle)
    unfold PGSIZE at hin
    omega
  refine ⟨⟨le_of_add_right_le hlt.le, hphys, carved_vmem info.mem, hgpu⟩, ?_⟩
  refine (seeded_pageRun hlt52).mono fun y hy => ?_
  have hacc' := hacc y hy
  have hy' := v2p_p2v_of_accepted hT hy (hlt52 y hy) hplace hacc
  refine ⟨⟨hacc'.aligned, hlower y hy, ?_, fun p hp hlt => ?_⟩, hacc'.inside⟩
  · have hbelow := hacc'.top
    have haligned' := hacc'.aligned
    rw [hy'] at hbelow
    unfold PGSIZE at *
    dsimp only at *
    omega
  · exact ramRunEnd_inRam ((hlower y hy).trans hp) (hlt.trans_le (hacc'.inside.trans hrun))

/-! ## Between `kvmalloc` and `kinit2` -/

lemma Op.run_perm {o : Op} {s t : Kmem × List Nat} (h : o.run img s = some t) :
    ∃ l, t.1 = { s.1 with freelist := l } ∧ (l ++ t.2).Perm (s.1.freelist ++ s.2) := by
  obtain ⟨⟨temporaryTop, physTop, vmem, gpu, freelist⟩, held⟩ := s
  cases o with
  | kalloc =>
    obtain ⟨⟨page, s'⟩, hpage, rfl⟩ := map_eq_some_iff.mp h
    rw [Boot.kalloc] at hpage
    split at hpage
    · cases hpage
      exact ⟨_, rfl, .refl _⟩
    · rename_i v hlist
      obtain rfl : freelist = [v] := hlist
      cases hpage
      exact ⟨_, rfl, .refl _⟩
    rename_i v next rest hlist
    obtain rfl : freelist = v :: next :: rest := hlist
    obtain ⟨-, hpage⟩ := ite_none_right_eq_some.mp hpage
    cases hpage
    exact ⟨_, rfl, perm_middle⟩
  | kfree v =>
    obtain ⟨hmem, h⟩ := ite_none_right_eq_some.mp h
    obtain ⟨s', hs', rfl⟩ := map_eq_some_iff.mp h
    obtain ⟨-, -, -, rfl⟩ := kfree_eq_some.mp hs'
    refine ⟨_, rfl, ?_⟩
    exact perm_middle.symm.trans ((perm_cons_erase hmem).symm.append_left freelist)

lemma ops_perm {ops : List Op} {s t : Kmem × List Nat} (h : ops.foldlM (Op.run img) s = some t) :
    ∃ l, t.1 = { s.1 with freelist := l } ∧ (l ++ t.2).Perm (s.1.freelist ++ s.2) := by
  induction ops generalizing s with
  | nil =>
    obtain rfl := some.inj h
    exact ⟨_, rfl, .refl _⟩
  | cons o ops ih => ?_
  rw [foldlM_cons] at h
  obtain ⟨s', hs', h⟩ := bind_eq_some_iff.mp h
  obtain ⟨l, hl, hperm⟩ := Op.run_perm hs'
  obtain ⟨l', hl', hperm'⟩ := ih h
  refine ⟨l', by rw [hl', hl], hperm'.trans ?_⟩
  rw [hl]
  exact hperm

lemma startup_eq_some {have1g : Bool} {ops : List Op} {u : Pml4 × Kmem}
    (h : startup img given have1g ops = some u) :
    ∃ s t l held, kinit1 img (bootinfoInit given) (p2v (heapStart img given.modules)) = some s ∧
      kvmalloc have1g img (bootinfoInit given).mem (mapTop (bootinfoInit given).mem)
        s.freelist.length = some t ∧
      u = (t.1, { s with freelist := l }) ∧ (l ++ held).Perm s.freelist := by
  obtain ⟨s, hs, h⟩ := bind_eq_some_iff.mp h
  obtain ⟨t, ht, h⟩ := bind_eq_some_iff.mp h
  obtain ⟨v, hv, h⟩ := bind_eq_some_iff.mp h
  obtain rfl := some.inj h
  obtain ⟨l, hl, hmoved⟩ := ops_perm hv
  refine ⟨s, t, l, v.2, hs, ht, Prod.ext rfl hl, hmoved.trans (perm_append_comm.trans ?_)⟩
  rw [take_append_drop]

/-! ## `kinit2` -/

lemma gpuReserve_spec (wants : List Nat) (hgpu : s.gpu = none) :
    ∃ top gpu, gpuReserve wants s = { s with physTop := top, gpu := gpu } ∧ top ≤ s.physTop ∧
      (∀ g ∈ gpu, g.1 = top) ∧ (top = s.physTop ∨ s.temporaryTop ≤ top) := by
  induction wants with
  | nil => exact ⟨_, _, rfl, le_rfl, by simp [hgpu], .inl rfl⟩
  | cons want wants ih => ?_
  rw [gpuReserve]
  split_ifs with h
  · exact ih
  · exact ⟨_, _, rfl, sub_le .., by simp, .inr (by omega)⟩

def RamApart (a b : MemRange) : Prop :=
  a.type = .ram → b.type = .ram → ∀ p, a.Holds p → ¬b.Holds p

lemma ramApart_of_le {a b : MemRange} (h : a.stop ≤ b.base ∨ b.stop ≤ a.base) : RamApart a b := by
  rintro - - p ⟨ha, ha'⟩ ⟨hb, hb'⟩
  omega

/-- The pages of `kinit1`, and those of the ranges that are done. -/
def Handed (mem done : List MemRange) (start : Nat) (s : Kmem) (x : Nat) : Prop :=
  RamPage mem start s.physTop x ∧
    (x + PGSIZE ≤ s.temporaryTop ∨ ∃ r ∈ done, r.type = .ram ∧ r.Holds x)

lemma freeRam_eq_some {r : MemRange} (h : freeRam img s r = some t) :
    t = s ∨ r.type = .ram ∧ max r.base s.temporaryTop < min r.stop s.physTop ∧
      freerange img s (p2v (max r.base s.temporaryTop)) (p2v (min r.stop s.physTop)) = some t := by
  have hlo : (if r.base < s.temporaryTop then s.temporaryTop else r.base) =
      max r.base s.temporaryTop := by
    split_ifs <;> omega
  have hhi : (if r.stop > s.physTop then s.physTop else r.stop) = min r.stop s.physTop := by
    split_ifs <;> omega
  rw [freeRam, hlo, hhi] at h
  by_cases hram : r.type = .ram
  · rw [if_neg (not_not.mpr hram)] at h
    by_cases hlt : max r.base s.temporaryTop < min r.stop s.physTop
    · exact .inr ⟨hram, hlt, (if_pos hlt).symm.trans h⟩
    · exact .inl (some.inj ((if_neg hlt).symm.trans h)).symm
  · exact .inl (some.inj ((if_pos hram).symm.trans h)).symm

lemma freeRam_seeded {done : List MemRange} {r : MemRange} (hr : r ∈ mem)
    (hstart : start ≤ s.temporaryTop) (htop : s.physTop ≤ 2 ^ 52)
    (hapart : ∀ r' ∈ done, RamApart r' r) (hs : Seeded (Handed mem done start s) s.freelist)
    (h : freeRam img s r = some t) :
    ∃ l, t = { s with freelist := l } ∧ Seeded (Handed mem (r :: done) start s) l := by
  have hmono : ∀ x, Handed mem done start s x → Handed mem (r :: done) start s x := fun x hx =>
    ⟨hx.1, hx.2.imp_right fun ⟨r', hr', hx⟩ => ⟨r', mem_cons_of_mem r hr', hx⟩⟩
  rcases freeRam_eq_some h with rfl | ⟨hram, hlt, h⟩
  · exact ⟨_, rfl, hs.mono hmono⟩
  obtain ⟨n, rfl, hacc⟩ := freerange_spec h (by omega) (by omega) htop
  obtain ⟨-, hround, -⟩ := pgroundup_spec (x := max r.base s.temporaryTop) (by omega)
  -- The pages of this range start in it, above those of `kinit1`.
  have hnew : ∀ y ∈ pageRun (pgroundup (max r.base s.temporaryTop)) n,
      RamPage mem start s.physTop y ∧ s.temporaryTop ≤ y ∧ r.Holds y := by
    intro y hy
    obtain ⟨haligned, hin, -, -⟩ := hacc y hy
    obtain ⟨i, -, hi⟩ := mem_pageRun.mp hy
    have hlow : max r.base s.temporaryTop ≤ y := hround.trans (hi ▸ le_self_add)
    have hpos : 0 < PGSIZE := by decide
    refine ⟨⟨haligned, by omega, by omega, fun p hp hlt => ?_⟩, by omega, by omega, by omega⟩
    exact ⟨r, hr, hram, by omega, by omega⟩
  refine ⟨_, rfl, ((seeded_pageRun fun y hy => (hnew y hy).1.lt).mono hnew |>.append hs
    (fun x hx => hx.1.lt) (fun x hx => hx.1.lt) ?_).mono ?_⟩
  · rintro x ⟨-, habove, hx⟩ ⟨-, hbelow | ⟨r', hr', hram', hx'⟩⟩
    · exact absurd (hbelow.trans habove) (by unfold PGSIZE; omega)
    · exact hapart r' hr' hram' hram x hx' hx
  rintro x (⟨hpage, -, hx⟩ | hx)
  · exact ⟨hpage, .inr ⟨r, mem_cons_self, hram, hx⟩⟩
  · exact hmono x hx

lemma freeRams_seeded {rs done : List MemRange} (h : rs.foldlM (freeRam img) s = some t)
    (hs : Seeded (Handed mem done start s) s.freelist) (hrs : ∀ r ∈ rs, r ∈ mem)
    (hstart : start ≤ s.temporaryTop) (htop : s.physTop ≤ 2 ^ 52) (hapart : rs.Pairwise RamApart)
    (hdone : ∀ r' ∈ done, ∀ r ∈ rs, RamApart r' r) :
    ∃ l, t = { s with freelist := l } ∧ Seeded (RamPage mem start s.physTop) l := by
  induction rs generalizing s done with
  | nil =>
    obtain rfl := some.inj h
    exact ⟨_, rfl, hs.mono fun x hx => hx.1⟩
  | cons r rs ih => ?_
  rw [foldlM_cons] at h
  obtain ⟨s', hs', h⟩ := bind_eq_some_iff.mp h
  obtain ⟨hr, hapart⟩ := pairwise_cons.mp hapart
  obtain ⟨l, rfl, hl⟩ := freeRam_seeded (hrs r mem_cons_self) hstart htop
    (fun r' hr' => hdone r' hr' r mem_cons_self) hs hs'
  refine ih (s := { s with freelist := l }) h hl
    (fun r' hr' => hrs r' (mem_cons_of_mem r hr')) hstart htop hapart ?_
  rintro r' hr' r'' hr''
  rcases mem_cons.mp hr' with rfl | hr'
  · exact hr r'' hr''
  · exact hdone r' hr' r'' (mem_cons_of_mem r hr'')

lemma kinit2_seeded (h : kinit2 img mem s = some t) (hs : Started start s)
    (hlist : Seeded (fun y => RamPage mem start s.physTop y ∧ y + PGSIZE ≤ s.temporaryTop)
      s.freelist) (hapart : mem.Pairwise RamApart) :
    Seeded (RamPage mem start t.physTop) t.freelist ∧ (∀ a ∈ t.vmem, t.physTop ≤ a.1) ∧
      ∀ a ∈ t.gpu, t.physTop ≤ a.1 := by
  obtain ⟨top, gpu, hgpu, htop, hgpus, hcut⟩ := gpuReserve_spec [16 * MB, 4 * MB] hs.gpu
  rw [kinit2, hgpu] at h
  have hhanded : Seeded (Handed mem [] start { s with physTop := top, gpu := gpu }) s.freelist := by
    refine hlist.mono ?_
    rintro x ⟨hpage, hlow⟩
    refine ⟨{ hpage with below := ?_ }, .inl hlow⟩
    rcases hcut with hcut | hcut
    · exact hpage.below.trans hcut.ge
    · exact hlow.trans hcut
  obtain ⟨l, rfl, hfree⟩ := freeRams_seeded h hhanded (fun r hr => hr) hs.start_le
    (htop.trans hs.top_le) hapart (by simp)
  exact ⟨hfree, fun a ha => htop.trans (hs.arena a ha).ge, fun a ha => (hgpus a ha).ge⟩

/-! ## What is free after the boot -/

/-- Two areas, each as its first byte and its size, have no byte in
common. -/
def Apart (a b : Nat × Nat) : Prop := a.1 + a.2 ≤ b.1 ∨ b.1 + b.2 ≤ a.1

/-- A page that may be handed out: wholly RAM, and of nothing else. -/
structure Usable (img : Image) (given : Info) (s : Kmem) (x : Nat) : Prop where
  aligned : x % PGSIZE = 0
  ram : ∀ p, x ≤ p → p < x + PGSIZE → InRam given.mem p
  image : Apart (x, PGSIZE) (0, img.stop)
  modules : ∀ m ∈ given.modules, Apart (x, PGSIZE) (m.base, m.size)
  arena : ∀ a ∈ s.vmem, Apart (x, PGSIZE) a
  gpu : ∀ a ∈ s.gpu, Apart (x, PGSIZE) a

/-- If RAM ranges are apart from each other and the boot comes to the end of
`kinit2`, no page is twice on the free list, and every page there is one of
RAM that nothing else uses. `V2P` gives the page back, unless its place in
the direct map is one of the image's. -/
theorem kmain_seeds (img : Image) (given : Info) (have1g : Bool) (ops : List Op)
    (hapart : given.mem.Pairwise RamApart) (h : kmain img given have1g ops = some t) :
    t.freelist.Nodup ∧ ∀ v ∈ t.freelist, ∃ x, v = p2v x ∧
      (x < KERNBASE - DMAP_BASE → v2p v = x) ∧ Usable img given t x := by
  obtain ⟨u, hu, h⟩ := bind_eq_some_iff.mp h
  obtain ⟨s, pgdir, l, held, hs, hpgdir, rfl, hkept⟩ := startup_eq_some hu
  obtain ⟨haligned, hbound, himage, hmodules⟩ := heapStart_spec img given.modules
  -- `kvmalloc` needs a page, so `kinit1` has handed out some.
  have hne : s.freelist ≠ [] := by
    intro hnil
    rw [hnil] at hpgdir
    cases hpgdir
  obtain ⟨hstarted, hseeded⟩ := kinit1_started haligned hbound hs hne
  have hperm := bootinfoInit_perm given
  have hapart' : (bootinfoInit given).mem.Pairwise RamApart :=
    (hperm.pairwise_iff fun hab hb ha p hp hp' => hab ha hb p hp' hp).mpr hapart
  obtain ⟨hfree, harena, hgpu⟩ := kinit2_seeded h
    ⟨hstarted.start_le, hstarted.top_le, hstarted.arena, hstarted.gpu⟩
    (hseeded.perm hkept.symm).left hapart'
  refine ⟨hfree.nodup, fun v hv => ?_⟩
  obtain ⟨x, rfl, hx⟩ := hfree.page v hv
  refine ⟨x, rfl, fun hlow => v2p_p2v_of (hx.lt.trans (by decide)) (.inl hlow),
    hx.aligned, fun p hp hlt => ?_, .inr ?_, fun m hm => .inr ?_, ?_, ?_⟩
  · exact (hx.ram p hp hlt).mono fun r => hperm.mem_iff.mp
  · exact (zero_add _).trans_le (himage.trans hx.above)
  · exact (hmodules m hm).trans hx.above
  · exact fun a ha => .inl (hx.below.trans (harena a ha))
  · exact fun a ha => .inl (hx.below.trans (hgpu a ha))

/-- The kernel and a module in one piece of RAM, the arena and the memory of
the GPU in another, and a third that is not a whole number of pages. -/
def threePieces : Info :=
  ⟨[⟨40 * MB, 24 * MB, .ram, by decide⟩, ⟨EXTMEM, 0x40000, .ram, by decide⟩,
      ⟨32 * MB, 0x4064, .ram, by decide⟩, ⟨2 * MB, MB, .reserved, by decide⟩],
    [⟨EXTMEM + 0x3000, 0x800, by decide⟩]⟩

theorem kmain_seeds_three : ∃ t, kmain smallImage threePieces false [.kalloc] = some t ∧
      t.vmem = some (56 * MB, 8 * MB) ∧ t.gpu = some (40 * MB, 16 * MB) ∧ t.freelist ≠ [] ∧
      t.freelist.Nodup ∧ ∀ v ∈ t.freelist, ∃ x, v = p2v x ∧
        (x < KERNBASE - DMAP_BASE → v2p v = x) ∧ Usable smallImage threePieces t x := by
  have heval : ((kmain smallImage threePieces false [.kalloc]).map fun t =>
      (t.vmem, t.gpu, t.freelist.isEmpty)) =
        some (some (56 * MB, 8 * MB), some (40 * MB, 16 * MB), false) := by decide +kernel
  obtain ⟨t, ht, hfields⟩ := map_eq_some_iff.mp heval
  obtain ⟨hvmem, hfields⟩ := Prod.mk.inj hfields
  obtain ⟨hgpu, hlist⟩ := Prod.mk.inj hfields
  refine ⟨t, ht, hvmem, hgpu, isEmpty_eq_false_iff.mp hlist,
    kmain_seeds smallImage threePieces false [.kalloc] ?_ ht⟩
  have hapart : threePieces.mem.Pairwise fun a b => a.stop ≤ b.base ∨ b.stop ≤ a.base := by decide
  exact hapart.imp ramApart_of_le

end Proninx.Boot
