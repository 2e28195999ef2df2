import Proninx.Kern.Log

/-!
# FAT32 volumes (`fat32.c`)

`alloc_cluster` looks for a free entry of the FAT among the numbers below
`total_sectors_32 / sectors_per_cluster`. That counts the sectors before
the data area as clusters, so the search goes on past the last cluster of
the volume, and past the end of a FAT that is too short. A volume that is
the root gets its log recovered at the start, which it does not have.
-/

namespace Proninx.Fat32

open ByteMem Disk List Nat Prog

/-- The fields of the BPB that `fat32_init` and `alloc_cluster` read. -/
structure Bpb where
  sectorsPerCluster : UInt8
  reservedSectors : UInt16
  fatCount : UInt8
  totalSectors32 : UInt32
  fatSize32 : UInt32

variable (v : Bpb)

/-- Where the data area begins. -/
def Bpb.dataStart : Nat := v.reservedSectors.toNat + v.fatCount.toNat * v.fatSize32.toNat

/-- `data_start_sector`, a `uint`. -/
def dataStartSector : Nat := v.dataStart % 2 ^ 32

def clusterToSector (cluster : Nat) : Nat :=
  (dataStartSector v + (cluster + 2 ^ 32 - 2) * v.sectorsPerCluster.toNat) % 2 ^ 32

def fatSector (cluster : Nat) : Nat := v.reservedSectors.toNat + cluster * 4 % 2 ^ 32 / BSIZE

def fatOffset (cluster : Nat) : Nat := cluster * 4 % 2 ^ 32 % BSIZE

/-- The loop of `alloc_cluster` that clears the cluster. -/
def zeroSectors (sector : Nat) : (n i : Nat) → Prog Unit
  | 0, _ => pure ()
  | n + 1, i => do
    let data ← bread ((sector + i) % 2 ^ 32)
    logWrite ((sector + i) % 2 ^ 32) (fill data 0 0 BSIZE)
    brelse ((sector + i) % 2 ^ 32)
    zeroSectors sector n (i + 1)

/-- The search of `alloc_cluster`; `none` is the panic at its end. -/
def allocFrom : (n c : Nat) → Prog (Option Nat)
  | 0, _ => pure none
  | n + 1, c => do
    let data ← bread (fatSector v c)
    if readLe 4 data (fatOffset c) &&& 0x0FFFFFFF = 0 then do
      logWrite (fatSector v c) (writeLe 4 data (fatOffset c) 0x0FFFFFFF)
      brelse (fatSector v c)
      zeroSectors (clusterToSector v c) v.sectorsPerCluster.toNat 0
      pure (some c)
    else do
      brelse (fatSector v c)
      allocFrom n (c + 1)

/-- `alloc_cluster`. With no sectors in a cluster the division traps, and
nothing is returned either. -/
def allocCluster : Prog (Option Nat) :=
  allocFrom v (v.totalSectors32.toNat / v.sectorsPerCluster.toNat - 2) 2

/-! ## The volume -/

def entry (d : Disk) (c : Nat) : Nat :=
  readLe 4 (d (v.reservedSectors.toNat + c * 4 / BSIZE)) (c * 4 % BSIZE) &&& 0x0FFFFFFF

/-- The entry as `alloc_cluster` reads it. -/
def scanned (d : Disk) (c : Nat) : Nat := readLe 4 (d (fatSector v c)) (fatOffset c) &&& 0x0FFFFFFF

/-- A cluster of the data area that the FAT has as free. -/
structure Free (d : Disk) (c : Nat) : Prop where
  two_le : 2 ≤ c
  inside : v.dataStart + (c - 1) * v.sectorsPerCluster.toNat ≤ v.totalSectors32.toNat
  in_fat : c * 4 / BSIZE < v.fatSize32.toNat
  zero : entry v d c = 0

/-- A free cluster was taken, and nothing changed but the sector of its
entry and its own sectors. -/
structure Allocated (d : Disk) (c : Nat) (d' : Disk) : Prop where
  free : Free v d c
  frame : ∀ b, b ≠ v.reservedSectors.toNat + c * 4 / BSIZE →
    ¬ (v.dataStart + (c - 2) * v.sectorsPerCluster.toNat ≤ b ∧
      b < v.dataStart + (c - 1) * v.sectorsPerCluster.toNat) → d' b = d b

variable {v} {d : Disk}

lemma zeroSectors_run (sector n : Nat) : ∀ (i : Nat) (d : Disk),
    (zeroSectors sector n i).Ensures d fun _ d' =>
      ∀ b, (∀ j, i ≤ j → j < i + n → b ≠ (sector + j) % 2 ^ 32) → d' b = d b := by
  induction n with
  | zero => exact fun i d => .pure fun _ _ => rfl
  | succ n ih => ?_
  intro i d
  obtain ⟨_, d', hrun, hframe⟩ := ih (i + 1) (d.set ((sector + i) % 2 ^ 32)
    (fill (d ((sector + i) % 2 ^ 32)) 0 0 BSIZE))
  refine .of_run hrun fun b hb => ?_
  rw [hframe b fun j hj hlt => hb j (by omega) (by omega)]
  exact Disk.set_ne (hb i (le_refl i) (by omega))

/-- The FAT with the entry of a cluster marked as the end of a chain. -/
def marked (v : Bpb) (d : Disk) (c : Nat) : Disk :=
  d.set (fatSector v c) (writeLe 4 (d (fatSector v c)) (fatOffset c) 0x0FFFFFFF)

lemma allocFrom_run (n : Nat) : ∀ c, (allocFrom v n c).Ensures d fun r d' =>
    match r with
    | none => ∀ k, c ≤ k → k < c + n → scanned v d k ≠ 0
    | some k => c ≤ k ∧ k < c + n ∧ scanned v d k = 0 ∧ (∀ j, c ≤ j → j < k → scanned v d j ≠ 0) ∧
        ∀ b, (∀ i < v.sectorsPerCluster.toNat, b ≠ (clusterToSector v k + i) % 2 ^ 32) →
          d' b = marked v d k b := by
  induction n with
  | zero => exact fun c => .pure fun k hk hlt => absurd hlt (not_lt.mpr hk)
  | succ n ih => ?_
  intro c
  by_cases hzero : readLe 4 (d (fatSector v c)) (fatOffset c) &&& 0x0FFFFFFF = 0
  · obtain ⟨_, d', hrun, hframe⟩ := zeroSectors_run (clusterToSector v c)
      v.sectorsPerCluster.toNat 0 (marked v d c)
    have hsome : (allocFrom v (n + 1) c).run d = .ok (some c, d') := by
      rw [allocFrom, run_bread_bind, if_pos hzero]
      exact Prog.run_bind_ok (f := fun _ => pure (some c)) hrun
    exact .of_run hsome ⟨le_refl c, by omega, hzero, fun j hj hlt => by omega,
      fun b hout => hframe b fun j _ hj => hout j (by omega)⟩
  have hrest : (allocFrom v (n + 1) c).run d = (allocFrom v n (c + 1)).run d := by
    rw [allocFrom, run_bread_bind, if_neg hzero]
    rfl
  refine .of_run_eq hrest ((ih (c + 1)).mono fun r d' hr => ?_)
  have hfrom : ∀ j, c ≤ j → (c + 1 ≤ j → scanned v d j ≠ 0) → scanned v d j ≠ 0 := by
    intro j hj hnext
    obtain rfl | hlt := eq_or_lt_of_le hj
    · exact hzero
    · exact hnext hlt
  cases r with
  | none => exact fun k hk hlt => hfrom k hk fun hk => hr k hk (by omega)
  | some k => ?_
  obtain ⟨hk, hlt, hz, hfirst, hframe⟩ := hr
  exact ⟨by omega, by omega, hz, fun j hj hjk => hfrom j hj fun hj => hfirst j hj hjk, hframe⟩

lemma scanned_eq {c : Nat} (h : c < 2 ^ 30) : scanned v d c = entry v d c := by
  rw [scanned, entry, fatSector, fatOffset, mod_eq_of_lt (show c * 4 < 2 ^ 32 by omega)]

lemma Free.sectors {c : Nat} (h : Free v d c) {b : Nat}
    (hout : ¬ (v.dataStart + (c - 2) * v.sectorsPerCluster.toNat ≤ b ∧
      b < v.dataStart + (c - 1) * v.sectorsPerCluster.toNat)) :
    ∀ i < v.sectorsPerCluster.toNat, b ≠ (clusterToSector v c + i) % 2 ^ 32 := by
  rintro i hi rfl
  have htotal := v.totalSectors32.toNat_lt
  have hinside := h.inside
  obtain ⟨k, rfl⟩ := Nat.exists_eq_add_of_le h.two_le
  have hk : (2 + k + 2 ^ 32 - 2) * v.sectorsPerCluster.toNat =
      k * v.sectorsPerCluster.toNat + 2 ^ 32 * v.sectorsPerCluster.toNat := by
    rw [← add_mul]
    congr 1
    omega
  rw [show 2 + k - 1 = k + 1 by omega, add_mul] at hinside hout
  refine hout ?_
  rw [clusterToSector, dataStartSector, mod_eq_of_lt (show v.dataStart < 2 ^ 32 by omega), hk,
    Nat.add_sub_cancel_left, ← add_assoc, add_mul_mod_self_left, mod_add_mod,
    mod_eq_of_lt (by omega)]
  omega

/-- A number whose entry is not at its place in 32 bits is read from the
entries of the first clusters, and marked there. -/
lemma not_allocated_of_wrap {c : Nat} {d' : Disk} (hc : 2 ^ 30 ≤ c)
    (hzero : scanned v d c = 0) (hframe : ∀ b, (∀ i < v.sectorsPerCluster.toNat,
      b ≠ (clusterToSector v c + i) % 2 ^ 32) → d' b = marked v d c b) :
    ¬ Allocated v d c d' := by
  intro h
  have hlow : c * 4 % 2 ^ 32 / BSIZE < 2 ^ 23 := by
    have := mod_lt (c * 4) (show 0 < 2 ^ 32 by decide)
    unfold BSIZE
    omega
  have hne : fatSector v c ≠ v.reservedSectors.toNat + c * 4 / BSIZE := by
    unfold fatSector BSIZE at *
    omega
  have hout : ¬ (v.dataStart + (c - 2) * v.sectorsPerCluster.toNat ≤ fatSector v c ∧
      fatSector v c < v.dataStart + (c - 1) * v.sectorsPerCluster.toNat) := by
    obtain hs | hs := Nat.eq_zero_or_pos v.sectorsPerCluster.toNat
    · rw [hs]
      omega
    have := Nat.le_mul_of_pos_right (c - 2) hs
    unfold Bpb.dataStart fatSector
    omega
  have heq := (hframe _ (h.free.sectors hout)).symm.trans (h.frame _ hne hout)
  rw [marked, set_same] at heq
  rw [scanned, ← heq, readLe_writeLe_of_lt (by decide)] at hzero
  exact absurd hzero (by decide)

/-- What `alloc_cluster` returns is right exactly if the volume has a free
cluster, of a number below 2^30, or no entry that the search reads is zero. -/
theorem allocCluster_allocated_iff (v : Bpb) (d : Disk) :
    (∀ c d', (allocCluster v).run d = .ok (some c, d') → Allocated v d c d') ↔
      (∃ c, c < 2 ^ 30 ∧ Free v d c) ∨ ∀ c, 2 ≤ c →
        c < v.totalSectors32.toNat / v.sectorsPerCluster.toNat → scanned v d c ≠ 0 := by
  obtain ⟨r, d', hrun, hr⟩ := @allocFrom_run v d
    (v.totalSectors32.toNat / v.sectorsPerCluster.toNat - 2) 2
  rw [allocCluster, hrun]
  cases r with
  | none => exact iff_of_true nofun (.inr fun c hc hlt => hr c hc (by omega))
  | some c => ?_
  obtain ⟨hc, hlt, hzero, hfirst, hframe⟩ := hr
  constructor
  · intro h
    by_cases hsmall : c < 2 ^ 30
    · exact .inl ⟨c, hsmall, (h c d' rfl).free⟩
    · exact absurd (h c d' rfl) (not_allocated_of_wrap (not_lt.mp hsmall) hzero hframe)
  rintro h _ _ ⟨⟩
  obtain ⟨c0, hsmall, hfree⟩ := h.resolve_right fun hnone => hnone c hc (by omega) hzero
  -- A free cluster is read as such, so the search does not go past it.
  have hle : c ≤ c0 := by
    by_contra hgt
    exact hfirst c0 hfree.two_le (by omega) (scanned_eq hsmall ▸ hfree.zero)
  have hown : Free v d c :=
    ⟨hc, (Nat.add_le_add_left (Nat.mul_le_mul_right _ (by omega)) _).trans hfree.inside,
      (Nat.div_le_div_right (Nat.mul_le_mul_right 4 hle)).trans_lt hfree.in_fat,
      scanned_eq (d := d) (show c < 2 ^ 30 by omega) ▸ hzero⟩
  refine ⟨hown, fun b hb hout => (hframe b (hown.sectors hout)).trans (Disk.set_ne ?_)⟩
  rwa [fatSector, mod_eq_of_lt (by omega)]

/-- A FAT of one sector and the data area in sectors 3 to 5. -/
def smallVolume : Bpb := ⟨1, 2, 1, 6, 1⟩

/-- With the three clusters of the volume taken, cluster 5 is handed out and
the sector after the volume is cleared. -/
theorem allocCluster_past_end : ∃ d', (allocCluster smallVolume).run
      (fun b i => if b = 2 ∧ 20 ≤ i then 0 else 7) = .ok (some 5, d') ∧ d' 6 0 = 0 ∧
    ¬ Allocated smallVolume (fun b i => if b = 2 ∧ 20 ≤ i then 0 else 7) 5 d' :=
  ⟨_, rfl, by decide, fun h => absurd h.free.inside (by decide)⟩

/-! ## A FAT32 root -/

inductive RootFs where
  | native
  | ufs2
  | fat32
  deriving DecidableEq, Repr

/-- `iinit`; `mounts` says whether `storage_mount_root` finds its volume. -/
def iinit (mounts : Bool) : Prog RootFs :=
  if mounts then pure .ufs2
  else do
    let bp ← bread 0
    brelse 0
    if bp 66 = 0x28 ∨ bp 66 = 0x29 then do
      let _ ← bread 0
      brelse 0
      pure .fat32
    else do
      let _ ← bread 1
      brelse 1
      pure .native

/-- `initlog`, with the superblock that `readsb` finds in block 1. -/
def initlog : Prog Unit := do
  let sb ← bread 1
  brelse 1
  Log.recoverFromLog ⟨readLe 4 sb 16, readLe 4 sb 12⟩

/-- `forkret` of the first process, up to `auth_init`. Only a UFS2 root is
one of `fs_root_readonly`. -/
def firstStart (mounts : Bool) : Prog Unit := do
  let fs ← iinit mounts
  if fs = .ufs2 then pure () else initlog

lemma writes_ne_nil {α β : Type} {x : Prog α} {f : α → Prog β} {r : β × Disk}
    (h : (x >>= f).run d = .ok r) (hf : ∀ a d', (f a).run d' = .ok r → (f a).writes d' ≠ []) :
    (x >>= f).writes d ≠ [] := by
  obtain ⟨a, d', hx, hrest⟩ := Prog.run_bind_inv h
  rw [writes_bind_ok hx]
  exact append_ne_nil_of_right_ne_nil _ (hf a d' hrest)

/-- A start from a FAT32 root that comes to its end has written a block:
that of the header of the log. -/
theorem firstStart_fat32_writes {mounts : Bool} {d' d'' : Disk}
    (hroot : (iinit mounts).run d = .ok (.fat32, d')) :
    ¬ ((firstStart mounts).run d = .ok ((), d'') ∧ (firstStart mounts).writes d = []) := by
  rintro ⟨hrun, hwrites⟩
  rw [firstStart, run_bind_ok hroot] at hrun
  rw [firstStart, writes_bind_ok hroot] at hwrites
  change (Log.recoverFromLog ⟨readLe 4 (d' 1) 16, readLe 4 (d' 1) 12⟩).run d' = _ at hrun
  refine writes_ne_nil hrun (fun lh e hrest => ?_) (append_eq_nil_iff.mp hwrites).2
  exact writes_ne_nil hrest fun _ _ _ => cons_ne_nil _ _

/-- A boot sector and an FSInfo sector, most of which is zero. -/
def fatRoot : Disk := fun b i =>
  if b = 0 then if i = 66 then 0x29 else ofList [0xEB, 0x58, 0x90, 0x4D] i
  else if b = 1 then ofList (ascii "RRaA") i else 0

theorem firstStart_fat32_writes_root : ¬ ((firstStart false).run fatRoot = .ok ((), fatRoot) ∧
    (firstStart false).writes fatRoot = []) :=
  @firstStart_fat32_writes fatRoot false fatRoot fatRoot rfl

/-- The first bytes of the boot sector are taken for the length of the log,
which does not fit into memory. -/
theorem firstStart_overruns : (iinit false).run fatRoot = .ok (.fat32, fatRoot) ∧
    (firstStart false).run fatRoot = .error .overrun :=
  ⟨rfl, rfl⟩

end Proninx.Fat32
