import Proninx.Kern.Boot.Bootinfo

/-!
# The UEFI memory map

`memory_map` of `boot/uefi/mem.c`, which publishes the memory of the
machine and the ranges that runtime services need. A firmware map is the
list of its descriptors, and addresses go round at 64 bits.
-/

namespace Proninx.Uefi

open List Boot

def MAP_MAX : Nat := 512

def FNU_MEM_MAX : Nat := 128

def FNU_EFI_RANGE_MAX : Nat := 96

def EFI_PAGE_SIZE : UInt64 := 4096

def EFI_MEMORY_WB : UInt64 := 8

def EFI_MEMORY_RUNTIME : UInt64 := 0x8000000000000000

/-- What is read of a descriptor, which is also an entry of `rt`. -/
structure Desc where
  type : UInt32
  base : UInt64
  pages : UInt64
  attr : UInt64

/-- An entry of `raw`. -/
structure Raw where
  base : UInt64
  length : UInt64
  type : MemType

/-- The types are the code and data of boot and of runtime services, and
ACPI NVS. -/
def runtimeNeeded (d : Desc) : Bool :=
  d.attr &&& EFI_MEMORY_RUNTIME ≠ 0 || d.type ∈ [3, 4, 5, 6, 10]

/-- The types of RAM are those of the loader, of boot services and of
conventional memory. -/
def fnuType (d : Desc) : MemType :=
  if d.type ∈ [1, 2, 3, 4, 7] then
    if d.attr &&& EFI_MEMORY_WB ≠ 0 then .ram else .reserved
  else if d.type = 9 then .acpiReclaim
  else if d.type = 10 then .acpiNvs
  else if d.type = 8 then .unusable
  else .reserved

/-- The loop over the map. -/
def collect (raw : List Raw) (rt : List Desc) : List Desc → List Raw × List Desc
  | [] => (raw, rt)
  | d :: map =>
    if MAP_MAX ≤ raw.length then (raw, rt)
    else if d.pages = 0 then collect raw rt map
    else
      collect (raw ++ [⟨d.base, d.pages * EFI_PAGE_SIZE, fnuType d⟩])
        (if runtimeNeeded d ∧ rt.length < MAP_MAX ∧ d.base &&& (EFI_PAGE_SIZE - 1) = 0 then
          rt ++ [d] else rt) map

def sort : List Raw → List Raw := Tables.sort Raw.base

def merge : List Raw → List Raw := Tables.merge fun l r =>
  if l.type = r.type ∧ l.base + l.length = r.base then
    some { l with length := l.length + r.length } else none

/-- The range that `trim` drops: the first of the shortest that are not
RAM, or the first of all. -/
def victim (raw : List Raw) : Nat :=
  (raw.zipIdx.foldl (fun v p =>
    if p.1.type = .ram ∨ v.any (·.1.length ≤ p.1.length) then v else some p) none).elim 0 Prod.snd

/-- One range is dropped in each turn of the loop. -/
def trim (raw : List Raw) : List Raw :=
  (fun raw => raw.eraseIdx (victim raw))^[raw.length - FNU_MEM_MAX] raw

def rtSort : List Desc → List Desc := Tables.sort Desc.base

def rtJoin (l r : Desc) : Option Desc :=
  if l.attr = r.attr ∧ l.base + l.pages * EFI_PAGE_SIZE = r.base then
    some { l with pages := l.pages + r.pages } else none

def rtMerge : List Desc → List Desc := Tables.merge rtJoin

def merged (map : List Desc) : List Desc := rtMerge (rtSort (collect [] [] map).2)

/-- What `memory_map` writes of `struct fnu_bootinfo`. -/
structure Published where
  mem : List Raw
  efiRt : List Desc

def memoryMap (map : List Desc) : Published where
  mem := trim (merge (sort (collect [] [] map).1))
  efiRt := if FNU_EFI_RANGE_MAX < (merged map).length then [] else merged map

/-! ## What is published -/

def Desc.Covers (d : Desc) (a : UInt64) : Prop := (a - d.base).toNat < d.pages.toNat * 4096

def Apart (q r : Desc) : Prop := ∀ a, ¬ (q.Covers a ∧ r.Covers a)

def Ordered (q r : Desc) : Prop := q.base ≤ r.base ∧ Apart q r

/-- An entry and one that is behind it in the sorted table. -/
def Sorted (q r : Desc) : Prop := Ordered q r ∧ q.pages ≠ 0 ∧ r.pages ≠ 0

/-- Page-aligned, and needed by runtime services. -/
def Wanted (d : Desc) : Prop :=
  d.pages ≠ 0 ∧ runtimeNeeded d = true ∧ d.base &&& (EFI_PAGE_SIZE - 1) = 0

instance : DecidablePred Wanted := fun _ => inferInstanceAs (Decidable (_ ∧ _ ∧ _))

/-- Address `a` is in a range with attribute `w`. -/
def Maps (rt : List Desc) (a w : UInt64) : Prop := ∃ r ∈ rt, r.Covers a ∧ r.attr = w

variable {a : UInt64} {l r m : Desc} {rt map : List Desc}

lemma covers_base (h : r.pages ≠ 0) : r.Covers r.base := by
  have hpages : r.pages.toNat ≠ 0 := fun h0 => h (UInt64.toNat_inj.mp h0)
  rw [Desc.Covers, UInt64.sub_self]
  change 0 < _
  omega

lemma Desc.Covers.pages_ne (h : r.Covers a) : r.pages ≠ 0 := by
  intro h0
  rw [Desc.Covers, h0] at h
  exact Nat.not_lt_zero _ h

/-- Neither range goes on to where the other begins, so the sum of their
pages does not overflow. -/
lemma covers_merge (h : Sorted l r) (hend : l.base + l.pages * EFI_PAGE_SIZE = r.base) :
    Desc.Covers { l with pages := l.pages + r.pages } a ↔ l.Covers a ∨ r.Covers a := by
  obtain ⟨⟨hle, hapart⟩, hl, hr⟩ := h
  have hout : ¬ l.Covers r.base := fun hc => hapart _ ⟨hc, covers_base hr⟩
  have hout' : ¬ r.Covers l.base := fun hc => hapart _ ⟨covers_base hl, hc⟩
  have hend := congrArg UInt64.toNat hend
  have hle := UInt64.le_iff_toNat_le.mp hle
  have hlt := r.base.toNat_lt
  have ha := a.toNat_lt
  have hpos : r.pages.toNat ≠ 0 := fun h0 => hr (UInt64.toNat_inj.mp h0)
  unfold Desc.Covers at *
  simp only [UInt64.toNat_sub, UInt64.toNat_add, UInt64.toNat_mul] at *
  change (_ + _ * 4096 % _) % _ = _ at hend
  omega

lemma rtJoin_some (h : Sorted l r) (hj : rtJoin l r = some m) : m.base = l.base ∧
    (∀ a, m.Covers a ↔ l.Covers a ∨ r.Covers a) ∧ m.attr = l.attr ∧ m.attr = r.attr := by
  obtain ⟨⟨hattr, hend⟩, ⟨⟩⟩ := Option.ite_none_right_eq_some.mp hj
  exact ⟨rfl, fun a => covers_merge h hend, rfl, hattr⟩

lemma rtJoin_joins : Tables.Joins rtJoin Sorted fun r (p : UInt64 × UInt64) =>
    r.Covers p.1 ∧ r.attr = p.2 where
  cov h hj := by
    obtain ⟨-, hcov, hl, hr⟩ := rtJoin_some h hj
    rw [hcov, ← hl, ← hr, or_and_right]
  before h hj hl hr := by
    obtain ⟨hbase, hcov, -⟩ := rtJoin_some h hj
    refine ⟨⟨hbase ▸ hl.1.1, fun a ha => ?_⟩, hl.2.1,
      ((hcov _).mpr (.inl (covers_base h.2.1))).pages_ne⟩
    exact ((hcov a).mp ha.2).elim (fun hc => hl.1.2 a ⟨ha.1, hc⟩) fun hc => hr.1.2 a ⟨ha.1, hc⟩
  behind h hj hl hr := by
    obtain ⟨hbase, hcov, -⟩ := rtJoin_some h hj
    refine ⟨⟨hbase ▸ hl.1.1, fun a ha => ?_⟩,
      ((hcov _).mpr (.inl (covers_base h.2.1))).pages_ne, hl.2.2⟩
    exact ((hcov a).mp ha.1).elim (fun hc => hl.1.2 a ⟨hc, ha.2⟩) fun hc => hr.1.2 a ⟨hc, ha.2⟩

lemma collect_eq {raw : List Raw} (hn : raw.length + map.length ≤ MAP_MAX)
    (hrt : rt.length ≤ raw.length) : (collect raw rt map).2 = rt ++ map.filter Wanted := by
  induction map generalizing raw rt with
  | nil => exact (append_nil rt).symm
  | cons d map ih => ?_
  rw [length_cons] at hn
  rw [collect, if_neg (by omega)]
  split_ifs with hzero hkeep
  · rw [ih (by omega) hrt, filter_cons_of_neg (by simp [Wanted, hzero])]
  · have hd : Wanted d := ⟨hzero, hkeep.1, hkeep.2.2⟩
    rw [ih (by simp; omega) (by simp; omega), filter_cons_of_pos (by simpa using hd), append_assoc]
    rfl
  · have hd : ¬ Wanted d := fun hd => hkeep ⟨hd.2.1, by omega, hd.2.2⟩
    rw [ih (by simp; omega) (by simp; omega), filter_cons_of_neg (by simpa using hd)]

lemma merged_spec (hlen : map.length ≤ MAP_MAX) (hapart : map.Pairwise Apart) :
    (merged map).Pairwise Ordered ∧
      ∀ a w, Maps (merged map) a w ↔ ∃ d ∈ map, Wanted d ∧ d.Covers a ∧ d.attr = w := by
  rw [merged, collect_eq (by simpa using hlen) le_rfl, nil_append]
  have hperm := Tables.sort_perm Desc.base (map.filter Wanted)
  have hmem : ∀ d, d ∈ rtSort (map.filter Wanted) ↔ d ∈ map ∧ Wanted d := fun d => by
    rw [rtSort, hperm.mem_iff, mem_filter, decide_eq_true_eq]
  have hap : (rtSort (map.filter Wanted)).Pairwise Apart :=
    (hperm.pairwise_iff fun h a ha => h a ha.symm).mpr (hapart.filter _)
  have hord := (Tables.sort_pairwise Desc.base UInt64.le_total UInt64.le_trans _).and hap
  obtain ⟨hp, hm⟩ := rtJoin_joins.merge_spec (hord.imp_of_mem fun hq hr h =>
    ⟨h, ((hmem _).mp hq).2.1, ((hmem _).mp hr).2.1⟩)
  refine ⟨hp.imp And.left, fun a w => (hm (a, w)).trans ?_⟩
  simp only [hmem, and_assoc]

end Proninx.Uefi
