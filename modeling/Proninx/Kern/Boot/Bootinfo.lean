import Proninx.Kern.Memlayout
import Proninx.Lib.Tables

/-!
# The memory map

What the loaders hand to the kernel in `struct fnu_bootinfo`, as far as
`kalloc.c`, `vm.c` and `heap_start` read it. The ranges come in the order
of the firmware; `bootinfo_init` sorts them by their first byte.

Physical addresses have 52 bits.
-/

namespace Proninx.Boot

open List Vm

inductive MemType where
  | ram
  | reserved
  | acpiReclaim
  | acpiNvs
  | unusable
  deriving DecidableEq, Repr

/-- A range below `limit`, as the loaders give it below the end of physical
memory. -/
structure MemRange (limit : Nat := 2 ^ 52) where
  base : Nat
  length : Nat
  type : MemType
  physical : base + length ≤ limit

variable {limit : Nat}

/-- `base + length` -/
def MemRange.stop (r : MemRange limit) : Nat := r.base + r.length

def MemRange.Holds (r : MemRange limit) (p : Nat) : Prop := r.base ≤ p ∧ p < r.stop

instance (r : MemRange limit) (p : Nat) : Decidable (r.Holds p) := by
  unfold MemRange.Holds
  infer_instance

structure Module where
  base : Nat
  size : Nat
  physical : base + size ≤ 2 ^ 52

/-- `struct fnu_bootinfo` -/
structure Info where
  mem : List MemRange
  modules : List Module

/-- The linked kernel: `V2P` of `data` and of `end`. -/
structure Image where
  data : Nat
  stop : Nat
  data_aligned : data % PGSIZE = 0
  order : EXTMEM ≤ data ∧ data ≤ stop
  linked : stop < 2 ^ 31

/-- One round of the sort: the range goes from the end of the sorted ranges
down past those that start after it. The sorted ranges are in reverse. -/
def insertRange (sorted : List MemRange) (t : MemRange) : List MemRange :=
  match sorted with
  | [] => [t]
  | r :: rs => if r.base > t.base then r :: insertRange rs t else t :: r :: rs

def bootinfoInit (given : Info) : Info :=
  { given with mem := (given.mem.foldl insertRange []).reverse }

lemma insertRange_eq (t : MemRange) : ∀ sorted : List MemRange,
    insertRange sorted t = sorted.orderedInsert (fun x y => y.base ≤ x.base) t
  | [] => rfl
  | r :: rs => by
    rw [insertRange, orderedInsert, insertRange_eq t rs]
    by_cases hle : r.base ≤ t.base
    · rw [if_neg (Nat.not_lt.mpr hle), if_pos hle]
    · rw [if_pos (not_le.mp hle), if_neg hle]

lemma bootinfoInit_mem (given : Info) :
    (bootinfoInit given).mem = Tables.sort MemRange.base given.mem :=
  congrArg (fun f => (given.mem.foldl f []).reverse) (funext₂ fun rs t => insertRange_eq t rs)

lemma bootinfoInit_perm (given : Info) : (bootinfoInit given).mem.Perm given.mem := by
  rw [bootinfoInit_mem]
  exact Tables.sort_perm ..

lemma bootinfoInit_sorted (given : Info) :
    (bootinfoInit given).mem.Pairwise fun a b => a.base ≤ b.base := by
  rw [bootinfoInit_mem]
  exact Tables.sort_pairwise _ Nat.le_total le_trans _

/-! ## RAM -/

def InRam (mem : List (MemRange limit)) (p : Nat) : Prop := ∃ r ∈ mem, r.type = .ram ∧ r.Holds p

/-- The loops that look for a highest end: those ranges count that satisfy
`c`, which may look at the end found so far. -/
def highest (c : MemRange limit → Nat → Bool) (mem : List (MemRange limit)) (start : Nat) : Nat :=
  mem.foldl (fun stop r => if c r stop ∧ r.stop > stop then r.stop else stop) start

/-- The first loop of `detect_memory`: the end of the highest RAM. -/
def ramTop (mem : List MemRange) : Nat := highest (fun r _ => r.type = .ram) mem 0

/-- The second loop: the highest end of what starts in or at the end of RAM. -/
def rangeTop (mem : List MemRange) (top : Nat) : Nat := highest (fun r _ => r.base ≤ top) mem top

def ramBytes (mem : List MemRange) : Nat :=
  mem.foldl (fun bytes r => if r.type = .ram then (bytes + r.length) % 2 ^ 64 else bytes) 0

/-- One round of the growth of a run: what touches its end is added. -/
def growRun (mem : List (MemRange limit)) (start : Nat) : Nat :=
  highest (fun r stop => r.type = .ram ∧ r.base ≤ stop) mem start

/-- The rounds, until one adds nothing. -/
def growRuns (mem : List (MemRange limit)) : (rounds stop : Nat) → Nat
  | 0, stop => stop
  | rounds + 1, stop =>
    if growRun mem stop = stop then stop else growRuns mem rounds (growRun mem stop)

/-- `ram_run_end`; there are no more rounds than ranges. -/
def ramRunEnd (mem : List (MemRange limit)) (p : Nat) : Nat :=
  match mem.find? fun r => r.type = .ram ∧ r.Holds p with
  | none => 0
  | some r => growRuns mem mem.length r.stop

variable {c : MemRange limit → Nat → Bool} {mem : List (MemRange limit)} {start bound p : Nat}

lemma highest_cons (r : MemRange limit) : highest c (r :: mem) start =
      highest c mem (if c r start ∧ r.stop > start then r.stop else start) := rfl

lemma le_highest : start ≤ highest c mem start := by
  induction mem generalizing start with
  | nil => exact le_rfl
  | cons r mem ih => ?_
  rw [highest_cons]
  refine le_trans ?_ ih
  split_ifs with h
  · exact h.2.le
  · exact le_rfl

lemma highest_mem : highest c mem start ∈ start :: mem.map MemRange.stop := by
  induction mem generalizing start with
  | nil => exact mem_cons_self
  | cons r mem ih => ?_
  rw [highest_cons]
  split_ifs
  · exact mem_cons_of_mem _ ih
  · exact cons_subset_cons _ (subset_cons_self _ _) ih

lemma highest_le (hstart : start ≤ bound) (h : ∀ r ∈ mem, r.stop ≤ bound) :
    highest c mem start ≤ bound := by
  rcases mem_cons.mp highest_mem with heq | hmem
  · exact heq ▸ hstart
  · obtain ⟨r, hr, heq⟩ := mem_map.mp hmem
    exact heq ▸ h r hr

lemma stop_le_highest {r : MemRange limit} (hr : r ∈ mem) (hc : ∀ a, start ≤ a → c r a) :
    r.stop ≤ highest c mem start := by
  induction mem generalizing start with
  | nil => cases hr
  | cons r' mem ih => ?_
  rw [highest_cons]
  rcases mem_cons.mp hr with rfl | hr
  · refine le_trans ?_ le_highest
    split_ifs with h
    · exact le_rfl
    · exact not_lt.mp fun hlt => h ⟨hc start le_rfl, hlt⟩
  refine ih hr fun a ha => hc a (le_trans ?_ ha)
  split_ifs with h
  · exact h.2.le
  · exact le_rfl

lemma InRam.mono {mem' : List (MemRange limit)} (h : InRam mem p) (hsub : ∀ r ∈ mem, r ∈ mem') :
    InRam mem' p := by
  obtain ⟨r, hr, hram, hp⟩ := h
  exact ⟨r, hsub r hr, hram, hp⟩

lemma growRun_inRam (hstart : start ≤ p) (hp : p < growRun mem start) : InRam mem p := by
  unfold growRun at hp
  induction mem generalizing start with
  | nil => exact absurd hp (not_lt.mpr hstart)
  | cons r mem ih => ?_
  rw [highest_cons] at hp
  have hsub : ∀ r' ∈ mem, r' ∈ r :: mem := fun r' => mem_cons_of_mem r
  split_ifs at hp with h
  · obtain ⟨hram, hbase⟩ := of_decide_eq_true h.1
    rcases lt_or_ge p r.stop with hlt | hge
    · exact ⟨r, mem_cons_self, hram, hbase.trans hstart, hlt⟩
    · exact (ih hge hp).mono hsub
  · exact (ih hstart hp).mono hsub

lemma growRuns_inRam {rounds : Nat} (hstart : start ≤ p) (hp : p < growRuns mem rounds start) :
    InRam mem p := by
  induction rounds generalizing start with
  | zero => exact absurd hp (not_lt.mpr hstart)
  | succ rounds ih => ?_
  rw [growRuns] at hp
  split_ifs at hp
  · exact absurd hp (not_lt.mpr hstart)
  rcases lt_or_ge p (growRun mem start) with hlt | hge
  · exact growRun_inRam hstart hlt
  · exact ih hge hp

lemma ramRunEnd_inRam {q : Nat} (hq : q ≤ p) (hp : p < ramRunEnd mem q) : InRam mem p := by
  rw [ramRunEnd] at hp
  split at hp
  · exact absurd hp (Nat.not_lt_zero p)
  rename_i r hr
  obtain ⟨hram, hbase, -⟩ : r.type = .ram ∧ r.Holds q := by simpa using List.find?_some hr
  rcases lt_or_ge p r.stop with hlt | hge
  · exact ⟨r, mem_of_find?_eq_some hr, hram, hbase.trans hq, hlt⟩
  · exact growRuns_inRam hge hp

/-- The ends above `stop`. -/
def endsAbove (mem : List (MemRange limit)) (stop : Nat) : Finset Nat :=
  (mem.map MemRange.stop).toFinset.filter (stop < ·)

/-- A round that adds something leaves fewer ends above the run. -/
lemma endsAbove_growRun (h : start < growRun mem start) :
    (endsAbove mem (growRun mem start)).card < (endsAbove mem start).card := by
  refine Finset.card_lt_card (Finset.ssubset_iff_of_subset ?_ |>.mpr ⟨growRun mem start, ?_, ?_⟩)
  · intro e he
    obtain ⟨hmem, hlt⟩ := Finset.mem_filter.mp he
    exact Finset.mem_filter.mpr ⟨hmem, h.trans hlt⟩
  · have hmem := (mem_cons.mp highest_mem).resolve_left h.ne'
    exact Finset.mem_filter.mpr ⟨mem_toFinset.mpr hmem, h⟩
  · exact fun hmem => absurd (Finset.mem_filter.mp hmem).2 (lt_irrefl _)

lemma growRuns_stable {rounds : Nat} (h : (endsAbove mem start).card ≤ rounds) :
    growRun mem (growRuns mem rounds start) = growRuns mem rounds start := by
  induction rounds generalizing start with
  | zero =>
    refine le_antisymm (highest_le le_rfl fun r hr => not_lt.mp fun hlt => ?_) le_highest
    have hnone := Finset.card_eq_zero.mp (Nat.le_zero.mp h)
    have hmem : r.stop ∈ endsAbove mem start :=
      Finset.mem_filter.mpr ⟨mem_toFinset.mpr (mem_map_of_mem hr), hlt⟩
    rw [hnone] at hmem
    cases hmem
  | succ rounds ih =>
    rw [growRuns]
    split_ifs with heq
    · exact heq
    have hlt := endsAbove_growRun (lt_of_le_of_ne le_highest (Ne.symm heq))
    exact ih (by omega)

lemma le_growRuns {rounds : Nat} : start ≤ growRuns mem rounds start := by
  induction rounds generalizing start with
  | zero => exact le_rfl
  | succ rounds ih => ?_
  rw [growRuns]
  split_ifs
  · exact le_rfl
  · exact le_highest.trans ih

lemma not_inRam_of_growRun (h : growRun mem p = p) : ¬ InRam mem p := by
  rintro ⟨r, hr, hram, hbase, hlt⟩
  have hle : r.stop ≤ growRun mem p :=
    stop_le_highest hr fun a ha => decide_eq_true ⟨hram, hbase.trans ha⟩
  omega

/-- The run of RAM that holds an address, for ranges whose ends fit in 64
bits: the rounds come to an end, and the run is as long as it can be. -/
theorem ramRunEnd_isGreatest (mem : List (MemRange (2 ^ 64 - 1))) (p : Nat) :
    (ramRunEnd mem p = 0 ↔ ¬ InRam mem p) ∧ (InRam mem p →
      growRun mem (ramRunEnd mem p) = ramRunEnd mem p ∧
        IsGreatest {e | ∀ q, p ≤ q → q < e → InRam mem q} (ramRunEnd mem p)) := by
  cases hfind : mem.find? fun r => r.type = .ram ∧ r.Holds p with
  | none =>
    have hout : ¬ InRam mem p := by
      rintro ⟨r, hr, hram, hp⟩
      exact absurd (find?_eq_none.mp hfind r hr) (by simp [hram, hp])
    have hend : ramRunEnd mem p = 0 := by rw [ramRunEnd, hfind]
    exact ⟨iff_of_true hend hout, fun hin => absurd hin hout⟩
  | some r => ?_
  have hmem := mem_of_find?_eq_some hfind
  obtain ⟨hram, hp⟩ : r.type = .ram ∧ r.Holds p := by simpa using List.find?_some hfind
  have hin : InRam mem p := ⟨r, hmem, hram, hp⟩
  have hend : ramRunEnd mem p = growRuns mem mem.length r.stop := by rw [ramRunEnd, hfind]
  have hpos : p < ramRunEnd mem p := by
    rw [hend]
    exact lt_of_lt_of_le hp.2 le_growRuns
  -- the ends are no more than the ranges, and so are the rounds
  have hstable : growRun mem (ramRunEnd mem p) = ramRunEnd mem p := by
    rw [hend]
    refine growRuns_stable ((Finset.card_filter_le _ _).trans ?_)
    exact (toFinset_card_le _).trans (length_map _).le
  refine ⟨iff_of_false (by omega) (not_not.mpr hin), fun _ => ⟨hstable, ?_, fun e he => ?_⟩⟩
  · exact fun q hq hlt => ramRunEnd_inRam hq hlt
  · exact Nat.le_of_not_lt fun hlt => not_inRam_of_growRun hstable (he _ hpos.le hlt)

end Proninx.Boot
