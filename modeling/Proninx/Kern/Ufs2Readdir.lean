import Mathlib.Data.List.Nodup
import Proninx.Kern.Ufs2Dir

/-!
# Reading a UFS2 directory by index

`ufs2_readdir` has its own walk over the records, which counts live ones
from region to region. On a tiled directory it gives the entries in order,
the same that `ufs2_lookup` finds by name.
-/

namespace Proninx.Ufs2

open ByteMem List Prog Tiling

/-! ## `ufs2_readdir` -/

inductive Turn where
  | bad
  | next (entryIndex : UInt32)
  | found (entry : List UInt8 × Nat)

/-- The inner loop: the records of a region. -/
def readdirRecords (m : Mem) (toRead : Nat) (index : UInt32) : (fuel o : Nat) → UInt32 → Turn
  | 0, _, _ => .bad
  | fuel + 1, o, entryIndex =>
    if o + DIR_HEADER_SIZE ≤ toRead then
      if BadRecord m toRead o then .bad
      else if recInode m o = 0 then
        readdirRecords m toRead index fuel (o + recLength m o) entryIndex
      else if entryIndex ≠ index then
        readdirRecords m toRead index fuel (o + recLength m o) (entryIndex + 1)
      else .found (recName m o, recInode m o)
    else .next entryIndex

/-- The name as it is cut to the caller's buffer. -/
def copied (nameSize : Nat) (p : List UInt8 × Nat) : List UInt8 × Nat :=
  (p.1.take (nameSize - 1), p.2)

/-- The outer loop. -/
def readdirRegions (v : Volume) (dir : Inode) (index : UInt32) (nameSize : Nat) :
    (fuel fileOffset : Nat) → UInt32 → Prog (Option (List UInt8 × Nat))
  | 0, _, _ => pure none
  | fuel + 1, fileOffset, entryIndex =>
    if fileOffset < dir.size then
      let toRead := min (dir.size - fileOffset) DIR_BLOCK_SIZE
      (read v dir fileOffset toRead).andThen fun block =>
        match readdirRecords block toRead index (DIR_BLOCK_SIZE / DIR_HEADER_SIZE + 1) 0
          entryIndex with
        | .bad => pure none
        | .found p => pure (some (copied nameSize p))
        | .next entryIndex =>
          readdirRegions v dir index nameSize fuel (fileOffset + DIR_BLOCK_SIZE) entryIndex
    else pure none

def readdir (v : Volume) (directoryInode : Nat) (index : UInt32) (nameSize : Nat) :
    Prog (Option (List UInt8 × Nat)) :=
  if nameSize = 0 then pure none
  else (readInode v directoryInode).andThen fun directory =>
    if directory.mode &&& IFMT ≠ IFDIR then pure none
    else readdirRegions v directory index nameSize (scanFuel directory) 0 0

/-! ## The walk on tiled regions -/

variable {v : Volume} {dino : Nat} {m : Mem} {inode : Inode} {off nameSize : Nat} {d : Disk}

/-- The counter may wrap: what counts is its distance to `index`. -/
lemma readdirRecords_eq (index : UInt32) {lo hi : Nat} {os : List Nat}
    (h : Tiles dirFormat m lo hi os) : ∀ (fuel : Nat) (e : UInt32), os.length < fuel →
      readdirRecords m hi index fuel lo e
        = match (os.filterMap (livePair m))[(index - e).toNat]? with
          | some p => .found p
          | none => .next (e + .ofNat (os.filterMap (livePair m)).length) := by
  induction h with
  | nil =>
    intro fuel e hf
    obtain ⟨n, rfl⟩ : ∃ n, fuel = n + 1 := ⟨fuel - 1, by omega⟩
    rw [readdirRecords, if_neg (by unfold DIR_HEADER_SIZE; omega)]
    exact congrArg Turn.next (UInt32.add_zero e).symm
  | @cons lo hi os hok hrest ih => ?_
  intro fuel e hf
  rw [length_cons] at hf
  obtain ⟨n, rfl⟩ : ∃ n, fuel = n + 1 := ⟨fuel - 1, by omega⟩
  have hle : lo + recLength m lo ≤ hi := hrest.le
  have hmin := hok.min
  rw [readdirRecords, if_pos (by omega), if_neg (not_badRecord hok hle), filterMap_cons, livePair]
  by_cases hfree : recInode m lo = 0
  · rw [if_pos hfree, if_pos hfree]
    exact ih n e (by omega)
  rw [if_neg hfree, if_neg hfree]
  by_cases heq : e = index
  · rw [if_neg (not_not.mpr heq), heq, UInt32.sub_self]
    rfl
  have hne := mt UInt32.toNat_inj.mp heq
  have hlt := e.toNat_lt
  have hindex := index.toNat_lt
  have hsucc : (index - e).toNat = (index - (e + 1)).toNat + 1 := by
    rw [UInt32.toNat_sub, UInt32.toNat_sub, UInt32.toNat_add, UInt32.toNat_one]
    omega
  rw [if_pos heq]
  refine (ih n (e + 1) (by omega)).trans ?_
  dsimp only
  rw [hsucc, getElem?_cons_succ, length_cons, UInt32.ofNat_add, UInt32.add_assoc, UInt32.add_comm 1]
  rfl

lemma Sound.readdirRegions_run (h : Sound v dino (v.bytes d) inode off) (index : UInt32)
    (nameSize k : Nat) : ∀ r fuel (e : UInt32), r + k = regionCount inode → k < fuel →
      AllTiled ((range' r k).map (region v (v.bytes d) inode)) →
      (readdirRegions v inode index nameSize fuel (r * DIR_BLOCK_SIZE) e).run d
        = .ok ((entries ((range' r k).map (region v (v.bytes d) inode)))[(index - e).toNat]?.map
          (copied nameSize), d) := by
  have hsize := h.size_eq
  induction k with
  | zero =>
    intro r fuel e hr hf _
    obtain ⟨fuel, rfl⟩ : ∃ n, fuel = n + 1 := ⟨fuel - 1, by omega⟩
    rw [readdirRegions, if_neg (by rw [hsize, ← hr, add_zero]; exact lt_irrefl _)]
    rfl
  | succ k ih => ?_
  intro r fuel e hr hf ht
  obtain ⟨fuel, rfl⟩ : ∃ n, fuel = n + 1 := ⟨fuel - 1, by omega⟩
  have hlt : r < regionCount inode := by omega
  obtain ⟨hroom, hmin⟩ := region_room hlt
  rw [range'_succ, map_cons] at ht ⊢
  obtain ⟨⟨os, hos⟩, htail⟩ := forall_mem_cons.mp ht
  rw [readdirRegions, if_pos hroom]
  dsimp only
  rw [hmin, run_andThen_some (h.read_region hlt),
    readdirRecords_eq index hos _ e (tiles_length_lt hos), entries, flatMap_cons, regionPairs, regionRecords_eq hos]
  generalize os.filterMap (livePair (region v (v.bytes d) inode r)) = ps
  by_cases hin : (index - e).toNat < ps.length
  · rw [getElem?_append_left hin, getElem?_eq_getElem hin]
    rfl
  have hih := ih (r + 1) fuel (e + .ofNat ps.length) (by omega) (by omega) htail
  have hsub : (index - (e + .ofNat ps.length)).toNat = (index - e).toNat - ps.length := by
    have hnat : (UInt32.ofNat ps.length).toNat = ps.length :=
      UInt32.toNat_ofNat_of_lt' ((not_lt.mp hin).trans_lt (index - e).toNat_lt)
    have he := e.toNat_lt
    have hindex := index.toNat_lt
    rw [UInt32.toNat_sub] at hin
    rw [UInt32.toNat_sub, UInt32.toNat_sub, UInt32.toNat_add, hnat]
    omega
  rw [add_mul, one_mul, hsub] at hih
  rw [getElem?_eq_none (not_lt.mp hin), getElem?_append_right (not_lt.mp hin)]
  exact hih

lemma Sound.readdir_run (h : Sound v dino (v.bytes d) inode off)
    (ht : AllTiled (contents v (v.bytes d) inode)) (hsize : nameSize ≠ 0) (index : UInt32) :
    (readdir v dino index nameSize).run d
      = .ok ((entries (contents v (v.bytes d) inode))[index.toNat]?.map (copied nameSize), d) := by
  rw [readdir, if_neg hsize, run_andThen_some (h.inode_eq ▸ readInode_run v dino d),
    if_neg (by rw [h.mode]; decide)]
  unfold contents at ht ⊢
  rw [range_eq_range'] at ht ⊢
  have hrun := h.readdirRegions_run index nameSize (regionCount inode) 0
    (scanFuel inode) 0 (zero_add _) (by unfold scanFuel regionCount; omega) ht
  rwa [zero_mul, UInt32.sub_zero] at hrun

/-! ## The number of entries -/

lemma Sound.regionCount_lt (h : Sound v dino m inode off) : regionCount inode < 2 ^ 21 := by
  have hs := h.probed.sizes
  have hmax := hs.blockMax
  obtain ⟨q, hq⟩ := Nat.dvd_of_mod_eq_zero hs.region
  by_contra hge
  have hlast : (DIRECT_BLOCKS + v.blockSize / 8) * q < regionCount inode := by
    have hle := Nat.mul_le_mul (show DIRECT_BLOCKS + v.blockSize / 8 ≤ 8204 by
      unfold DIRECT_BLOCKS; omega) (show q ≤ 128 by unfold DIR_BLOCK_SIZE at hq; omega)
    omega
  obtain ⟨a, ha, -⟩ := h.regions _ hlast
  have hblock : (DIRECT_BLOCKS + v.blockSize / 8) * q * DIR_BLOCK_SIZE / v.blockSize % 2 ^ 32
      = DIRECT_BLOCKS + v.blockSize / 8 := by
    rw [mul_assoc, mul_comm q, ← hq, Nat.mul_div_cancel _ hs.blockPos]
    exact Nat.mod_eq_of_lt (by unfold DIRECT_BLOCKS; omega)
  rw [byteAt, hblock, addressAt, if_neg (by omega)] at ha
  simp at ha

lemma entries_length_le {c : List Mem} (ht : AllTiled c) : (entries c).length ≤ 64 * c.length := by
  induction c with
  | nil => exact le_rfl
  | cons x c ih => ?_
  obtain ⟨⟨os, hos⟩, htail⟩ := forall_mem_cons.mp ht
  have hlen := tiles_length_lt hos
  have hle := length_filterMap_le (livePair x) os
  have hrest := ih htail
  unfold entries regionPairs DIR_HEADER_SIZE DIR_BLOCK_SIZE at *
  rw [flatMap_cons, length_append, regionRecords_eq hos, length_cons]
  omega

lemma Sound.entries_lt (h : Sound v dino (v.bytes d) inode off)
    (ht : AllTiled (directory v dino d)) : (entries (directory v dino d)).length < 2 ^ 32 := by
  have hle := entries_length_le ht
  have hcount := h.regionCount_lt
  rw [h.directory_eq, contents_length, ← h.directory_eq] at hle
  omega

/-! ## Enumeration and lookup -/

/-- The indices for which `ufs2_readdir` succeeds are the numbers below the
number of entries, and the pairs are those that `ufs2_lookup` finds. -/
theorem readdir_agrees (h : Consistent v dino d) (ht : AllTiled (directory v dino d))
    (hdistinct : NamesDistinct (directory v dino d))
    (hnames : ∀ p ∈ entries (directory v dino d), nameLength p.1 ≠ none ∧ p.1.length < nameSize) :
    ∃ f : UInt32 → Option (List UInt8 × Nat),
      (∀ i, (readdir v dino i nameSize).run d = .ok (f i, d)) ∧
      (∃ n, ∀ i, (f i).isSome ↔ i.toNat < n) ∧
      (∀ i j p, f i = some p → f j = some p → i = j) ∧
      ∀ name n, (∃ i, f i = some (name, n)) ↔ (lookup v dino name).run d = .ok (some n, d) := by
  obtain ⟨inode, off, hs⟩ := id h
  have hlookup := fun name (hname : nameLength name ≠ none) => h.lookup_entries ht hname
  have hrun := fun hsize : nameSize ≠ 0 => hs.readdir_run (hs.directory_eq ▸ ht) hsize
  have hlt := hs.entries_lt ht
  rw [← hs.directory_eq] at hrun
  unfold NamesDistinct at hdistinct
  generalize entries (directory v dino d) = es at *
  refine ⟨fun i => es[i.toNat]?, fun i => ?_, ⟨es.length, fun i => ?_⟩,
    fun i j p hi hj => ?_, fun name n => ?_⟩
  · by_cases hzero : nameSize = 0
    · have hnil : es = [] :=
        eq_nil_iff_forall_not_mem.mpr fun p hp => absurd (hnames p hp).2 (by omega)
      rw [readdir, if_pos hzero, hnil]
      rfl
    have hcopy : es[i.toNat]?.map (copied nameSize) = es[i.toNat]? := by
      cases hp : es[i.toNat]? with
      | none => rfl
      | some p => ?_
      have hlen := (hnames p (mem_of_getElem? hp)).2
      rw [Option.map_some, copied, take_of_length_le (by omega)]
    rw [hrun hzero, hcopy]
  · simp
  · have hbound := (List.getElem?_eq_some_iff.mp hi).1
    exact UInt32.toNat_inj.mp ((getElem?_inj hbound (hdistinct.of_map _)).mp (hi.trans hj.symm))
  have hfind : (∃ i : UInt32, es[i.toNat]? = some (name, n)) ↔ (name, n) ∈ es := by
    refine ⟨fun h => h.elim fun _ => mem_of_getElem?, fun hmem => ?_⟩
    obtain ⟨i, hi, heq⟩ := mem_iff_getElem.mp hmem
    refine ⟨UInt32.ofNat i, ?_⟩
    rw [UInt32.toNat_ofNat_of_lt' (hi.trans hlt), getElem?_eq_getElem hi, heq]
  rw [hfind]
  by_cases hname : nameLength name = none
  · rw [lookup, if_pos hname]
    exact iff_of_false (fun hmem => (hnames _ hmem).1 hname) (by simp)
  obtain ⟨result, hrun, hsome, hnone⟩ := hlookup name hname
  rw [hrun, Except.ok.injEq, Prod.mk.injEq, and_iff_left rfl]
  refine ⟨fun hmem => ?_, fun heq => hsome n heq⟩
  cases result with
  | none => exact absurd rfl (hnone rfl _ hmem)
  | some k => cases inj_on_of_nodup_map hdistinct hmem (hsome k rfl) rfl; rfl

/-- The small directory has the entries `.` and `..`. -/
theorem readdir_agrees_dots : ∃ f : UInt32 → Option (List UInt8 × Nat),
    (∀ i, (readdir sampleVolume 2 i 256).run sampleDisk = .ok (f i, sampleDisk)) ∧
    ∃ n, ∀ i, (f i).isSome ↔ i.toNat < n := by
  have hentries : entries (directory sampleVolume 2 sampleDisk) = [([46], 2), ([46, 46], 2)] := by
    rw [sampleDisk_contents, entries, flatMap_cons, flatMap_nil, append_nil, regionPairs,
      regionRecords_eq sampleRegion_tiles]
    decide
  have hnames : ∀ p ∈ entries (directory sampleVolume 2 sampleDisk),
      nameLength p.1 ≠ none ∧ p.1.length < 256 := by
    rw [hentries]
    decide
  obtain ⟨f, hrun, hsegment, -⟩ := readdir_agrees ⟨_, _, sampleDisk_sound⟩ sampleDisk_tiled
    (by rw [NamesDistinct, hentries]; decide) hnames
  exact ⟨f, hrun, hsegment⟩

end Proninx.Ufs2
