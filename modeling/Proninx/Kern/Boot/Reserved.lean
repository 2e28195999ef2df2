import Proninx.Kern.Boot.Kalloc

/-!
# The areas carved from the top of memory

`vmem_reserve` and `kinit2` take the console arena and the memory of the
GPU from below the end of the highest RAM, and ask only whether that end is
high enough. The areas are real memory exactly when there is neither a hole
nor a second range where they come to lie.
-/

namespace Proninx.Boot

open List Option Vm

/-- A byte of an area, if there is one. -/
def InArea (area : Option (Nat × Nat)) (p : Nat) : Prop := ∃ a ∈ area, a.1 ≤ p ∧ p < a.1 + a.2

/-- A byte of the arena, or of what `kinit2` takes for the GPU. -/
def Reserved (s : Kmem) (p : Nat) : Prop :=
  InArea s.vmem p ∨ InArea (gpuReserve [16 * MB, 4 * MB] s).gpu p

/-- One range of the map holds the byte, and it is RAM. -/
def OnlyRam (mem : List MemRange) (p : Nat) : Prop :=
  ∃ r, mem.filter (fun r => r.Holds p) = [r] ∧ r.type = .ram

/-- The end of the highest page of RAM. -/
def pageTop (mem : List MemRange) : Nat := ramTop mem / PGSIZE * PGSIZE

def arenaNeed (mem : List MemRange) : Nat :=
  if pageTop mem ≤ 4 * MB + arenaSize (ramBytes mem) + 16 * MB then 0 else arenaSize (ramBytes mem)

/-- The bytes that the GPU takes below `top`. -/
def gpuNeed (top temporaryTop : Nat) : Nat :=
  if top ≤ temporaryTop + 16 * MB * 2 then
    if top ≤ temporaryTop + 4 * MB * 2 then 0 else 4 * MB
  else 16 * MB

/-- The end of what is free before `kinit2`. -/
def startTop (img : Image) (info : Info) : Nat :=
  let endPhys := pgroundup (v2p (p2v (heapStart img info.modules)))
  seedTop (4 * MB) endPhys (ramRunEnd info.mem endPhys)

/-- One of the last bytes of memory, of which there are as many as both
areas take. -/
def AtTop (img : Image) (info : Info) (p : Nat) : Prop :=
  let low := pageTop info.mem - arenaNeed info.mem
  low - gpuNeed low (startTop img info) ≤ p ∧ p < pageTop info.mem

variable {img : Image} {given : Info} {mem : List MemRange} {s : Kmem} {have1g : Bool}
  {ops : List Op} {u : Pml4 × Kmem} {p : Nat}

lemma OnlyRam.inRam (h : OnlyRam mem p) : InRam mem p := by
  obtain ⟨r, hr, hram⟩ := h
  have hmem : r ∈ mem.filter fun r => r.Holds p := by rw [hr]; exact mem_cons_self
  obtain ⟨hmem, hholds⟩ := mem_filter.mp hmem
  exact ⟨r, hmem, hram, of_decide_eq_true hholds⟩

lemma inArea_none : ¬ InArea none p := fun ⟨_, ha, _⟩ => not_mem_none _ ha

lemma inArea_some {base size : Nat} :
    InArea (some (base, size)) p ↔ base ≤ p ∧ p < base + size := by
  constructor
  · rintro ⟨a, ha, h⟩
    obtain rfl := some.inj ha
    exact h
  · exact fun h => ⟨_, rfl, h⟩

lemma carved_arena (mem : List MemRange) : (carved mem).physTop = pageTop mem - arenaNeed mem ∧
      (InArea (carved mem).vmem p ↔ pageTop mem - arenaNeed mem ≤ p ∧ p < pageTop mem) := by
  have hcarved : carved mem =
      if pageTop mem ≤ 4 * MB + arenaSize (ramBytes mem) + 16 * MB then
        ⟨4 * MB, pageTop mem, none, none, []⟩
      else ⟨4 * MB, pageTop mem - arenaSize (ramBytes mem),
        some (pageTop mem - arenaSize (ramBytes mem), arenaSize (ramBytes mem)), none, []⟩ := rfl
  rw [hcarved, arenaNeed]
  split_ifs with h
  · exact ⟨rfl, iff_of_false inArea_none fun hp => absurd hp.2 (not_lt.mpr hp.1)⟩
  refine ⟨rfl, inArea_some.trans ?_⟩
  rw [Nat.sub_add_cancel (by omega)]

lemma gpuReserve_area (hgpu : s.gpu = none) : InArea (gpuReserve [16 * MB, 4 * MB] s).gpu p ↔
      s.physTop - gpuNeed s.physTop s.temporaryTop ≤ p ∧ p < s.physTop := by
  rw [gpuReserve, gpuReserve, gpuReserve, gpuNeed]
  split_ifs with h h'
  · rw [hgpu]
    exact iff_of_false inArea_none fun hp => absurd hp.2 (not_lt.mpr hp.1)
  all_goals
    rw [inArea_some, Nat.sub_add_cancel (by omega)]

lemma startup_state (h : startup img given have1g ops = some u) :
    ∃ l, u.2 = { carved (bootinfoInit given).mem with
      temporaryTop := startTop img (bootinfoInit given), freelist := l } := by
  obtain ⟨s, t, l, held, hs, -, rfl, -⟩ := startup_eq_some h
  obtain ⟨endPhys, top, hend, htop, -, hrange⟩ := kinit1_eq_some hs
  obtain ⟨haligned, hstart, -⟩ := heapStart_spec img given.modules
  have hcases := endPhys_cases haligned hstart
  rw [← hend] at hcases
  have hle : top ≤ 2 ^ 52 := htop ▸ seedTop_le.1.trans (ramRunEnd_le (by omega))
  obtain ⟨n, rfl, -⟩ := freerange_spec hrange hstart hle (carved_physTop _).1
  have hstartTop : startTop img (bootinfoInit given) = top := by rw [htop, hend]; rfl
  exact ⟨l, by rw [hstartTop]⟩

lemma reserved_iff_atTop (h : startup img given have1g ops = some u) :
    Reserved u.2 p ↔ AtTop img (bootinfoInit given) p := by
  obtain ⟨l, hstate⟩ := startup_state h
  obtain ⟨htop, harena⟩ := carved_arena (p := p) (bootinfoInit given).mem
  have hgpu : u.2.gpu = none := by rw [hstate]; exact (carved_rest (bootinfoInit given).mem).1
  rw [Reserved, gpuReserve_area hgpu, hstate]
  dsimp only
  rw [harena, htop, AtTop]
  omega

/-- Every byte of the areas is in RAM, in no other range and in the direct
map exactly when this is so of the bytes at the end of memory. -/
theorem reserved_real_iff (img : Image) (given : Info) (have1g : Bool) (ops : List Op)
    {u : Pml4 × Kmem} (h : startup img given have1g ops = some u) :
    (∀ p, Reserved u.2 p → OnlyRam given.mem p ∧ translate u.1 (p2v p) = some p) ↔
      ∀ p, AtTop img (bootinfoInit given) p →
        OnlyRam given.mem p ∧ Sole img (bootinfoInit given).mem p := by
  obtain ⟨s, t, l, held, -, hmap, hu, -⟩ := startup_eq_some h
  refine forall_congr' fun p => imp_congr (reserved_iff_atTop h) (and_congr_right fun hp => ?_)
  have hram : InRam (bootinfoInit given).mem p :=
    hp.inRam.mono fun r hr => (bootinfoInit_perm given).mem_iff.mpr hr
  rw [hu]
  exact hram.mapped_iff (bootinfoInit_sorted given) hmap

theorem reserved_real_three : ∃ u, startup smallImage threePieces false [.kalloc] = some u ∧
      u.2.vmem = some (56 * MB, 8 * MB) ∧
      ∀ p, Reserved u.2 p → OnlyRam threePieces.mem p ∧ translate u.1 (p2v p) = some p := by
  have heval : ((startup smallImage threePieces false [.kalloc]).map fun u => u.2.vmem) =
      some (some (56 * MB, 8 * MB)) := by decide +kernel
  obtain ⟨u, hu, hvmem⟩ := map_eq_some_iff.mp heval
  refine ⟨u, hu, hvmem, (reserved_real_iff smallImage threePieces false [.kalloc] hu).mpr ?_⟩
  have htop : pageTop (bootinfoInit threePieces).mem = 64 * MB ∧
      arenaNeed (bootinfoInit threePieces).mem = 8 * MB ∧
      gpuNeed (56 * MB) (startTop smallImage (bootinfoInit threePieces)) = 16 * MB := by
    decide +kernel
  obtain ⟨htop, harena, hgpu⟩ := htop
  rintro p ⟨hlow, hhigh⟩
  have hlow : 40 * MB ≤ p := by
    rw [htop, harena, show 64 * MB - 8 * MB = 56 * MB from rfl, hgpu] at hlow
    exact hlow
  rw [htop] at hhigh
  have honly : OnlyRam threePieces.mem p := by
    have hfirst : (⟨40 * MB, 24 * MB, .ram, by decide⟩ : MemRange).Holds p := ⟨hlow, hhigh⟩
    refine ⟨_, (filter_cons_of_pos (p := (MemRange.Holds · p)) (decide_eq_true hfirst)).trans
      (congrArg _ (filter_eq_nil_iff.mpr ?_)), rfl⟩
    have hbelow : ∀ r ∈ threePieces.mem.tail, r.stop ≤ 40 * MB := by decide
    exact fun r hr h => absurd ((of_decide_eq_true h).2.trans_le (hbelow r hr))
      (Nat.not_lt_of_le hlow)
  have hram : InRam (bootinfoInit threePieces).mem p :=
    honly.inRam.mono fun r hr => (bootinfoInit_perm threePieces).mem_iff.mpr hr
  exact ⟨honly, sole_of_le (by decide) (hram.swept (bootinfoInit_sorted threePieces))⟩

def holeBelowTop : Info :=
  ⟨[⟨EXTMEM, 15 * MB, .ram, by decide⟩, ⟨64 * MB, 2 * MB, .ram, by decide⟩], []⟩

/-- The arena begins in the hole. -/
theorem reserved_in_hole :
    ∃ u, startup smallImage holeBelowTop false [] = some u ∧ u.2.vmem = some (58 * MB, 8 * MB) ∧
      Reserved u.2 (60 * MB) ∧ ∀ r ∈ holeBelowTop.mem, ¬ r.Holds (60 * MB) := by
  have heval : ((startup smallImage holeBelowTop false []).map fun u => u.2.vmem) =
      some (some (58 * MB, 8 * MB)) := by decide +kernel
  obtain ⟨u, hu, hvmem⟩ := map_eq_some_iff.mp heval
  refine ⟨u, hu, hvmem, .inl ?_, by decide⟩
  rw [hvmem, inArea_some]
  decide

end Proninx.Boot
