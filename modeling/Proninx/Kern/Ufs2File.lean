import Proninx.Kern.Ufs2Imap

/-!
# Files: the space they return and the files next to them

`ufs2_truncate` frees the direct blocks of a file one after the other, as
whole blocks, and stops at the first it cannot free. It does not look at
the indirect block, and a file of standard UFS2 may own only the first
fragments of its last block. Both show in what is proved here: a deleted
file returns all its space exactly when it has no indirect block and
`ufs2_free_block` takes each of its direct blocks; another file is safe
when it owns no fragment of a direct block of this one.
-/

namespace Proninx.Ufs2

open Blockdev ByteMem Function Nat

variable {v : Volume} {n : Nat} {x : Inode} {m m' : Mem} {d : Disk}

/-! ## Deletion -/

def itrunc (v : Volume) (n : Nat) (x : Inode) : Prog Inode := do
  let (_, x) ← truncate v n x
  let _ ← freeInode v n
  pure x

variable (v n x m) in
/-- File or directory `n` is `x`, and what the allocators use is in place:
the groups are on the device and hold two separate maps, and the dinode
is on the device outside the groups. -/
structure Filed : Prop where
  accepted : Accepted v
  separate : Separate v
  numbers : Numbers v
  groups_fit : ∀ g o, cgOffset v g = some o → v.device.Fits o v.cylinderGroupSize
  maps_apart : MapsApart v m
  slot : ∃ off, inodeOffset v n = some off ∧ v.device.Fits off DINODE_SIZE
  slot_apart : ∀ i, InSlot v n i → ¬ InGroups v i
  mode : x.mode &&& IFMT = IFREG ∨ x.mode &&& IFMT = IFDIR
  number : ∀ b, b < DIRECT_BLOCKS → x.direct b ≠ 0 →
    x.direct b / v.fragmentsPerGroup < 2 ^ 32

lemma Freeable.frees (hs : Separate v) (hp : v.Probed) (hncg : v.cylinderGroups < 2 ^ 32)
    (hfit : ∀ g o, cgOffset v g = some o → v.device.Fits o v.cylinderGroupSize) {f : Nat}
    (h : Freeable v (v.bytes d) f) :
    ∃ d', (freeBlock v f).run d = .ok (some (), d') ∧ FreeSpec v (v.bytes d) (v.bytes d') f ∧
      ∀ g, headerAt v (v.bytes d') g = headerAt v (v.bytes d) g := by
  obtain ⟨hal, mo, entries, hmap, hend⟩ := h
  have hg := (freeMapAt_le hmap).1
  have hf : f / v.fragmentsPerGroup * v.fragmentsPerGroup + f % v.fragmentsPerGroup = f := by
    rw [mul_comm]
    exact div_add_mod f v.fragmentsPerGroup
  obtain ⟨d', hrun, hspec⟩ := freeBlock_fragments hs hp hncg (hf.symm ▸ hal) hmap hend fun j hj => by
    obtain ⟨o, ho, hlo, hhi⟩ := mapByte_in_group (hs.geometry hp) hs.ends hmap
      (show f % v.fragmentsPerGroup + j < entries by omega)
    exact (hfit _ o ho).mono (by omega) (by omega)
  rw [hf] at hrun hspec
  obtain ⟨hhead, -⟩ := (freeBlock_any hs hp (by omega) d).of_eq hrun
  exact ⟨d', hrun, hspec, hhead⟩

/-- What the loop of `ufs2_truncate` has done from block `first` on when it
stops at block `stop`. -/
structure Freed (v : Volume) (m m' : Mem) (x y : Inode) (first stop : Nat) : Prop where
  headers : ∀ g, headerAt v m' g = headerAt v m g
  freeable : ∀ b, first ≤ b → b < stop → x.direct b ≠ 0 → Freeable v m (x.direct b)
  free : ∀ k, FreeAt v m' k ↔ FreeAt v m k ∨ ∃ b, first ≤ b ∧ b < stop ∧ x.direct b ≠ 0 ∧
    x.direct b ≤ k ∧ k < x.direct b + v.fragmentsPerBlock
  cleared : ∀ b, first ≤ b → b < stop → y.direct b = 0
  below : ∀ b, b < first → y.direct b = x.direct b
  size : y.size = x.size
  indirect : y.indirect = x.indirect

lemma freeable_congr (h : ∀ g, headerAt v m' g = headerAt v m g) {f : Nat} :
    Freeable v m' f ↔ Freeable v m f := by
  unfold Freeable
  rw [freeMapAt_of_header (h _)]

lemma writeInode_groups (hp : v.Probed) (hslot : ∃ off, inodeOffset v n = some off ∧
      v.device.Fits off DINODE_SIZE) (hap : ∀ i, InSlot v n i → ¬ InGroups v i) (y : Inode)
    (d : Disk) : ∃ d', (writeInode v n y).run d = .ok (some (), d') ∧
      (∀ i, InGroups v i → v.bytes d' i = v.bytes d i) ∧
      ∀ g, headerAt v (v.bytes d') g = headerAt v (v.bytes d) g := by
  have hgs := hp.groupSize
  obtain ⟨off, hoff, hfit⟩ := hslot
  obtain ⟨d', hrun, hbytes⟩ := writeInode_run hoff hfit y d
  have hgroups : ∀ i, InGroups v i → v.bytes d' i = v.bytes d i := fun i hi => by
    rw [hbytes]
    exact blit_out (slot_out hoff fun hs => hap i hs hi)
  exact ⟨d', hrun, hgroups, fun g => headerAt_congr fun o ho i hi hj =>
    (hgroups i ⟨g, o, ho, hi, by omega⟩).symm⟩

lemma setDirect_self (x : Inode) (b f : Nat) : (x.setDirect b f).direct b = f :=
  update_self ..

variable {b : Nat}

lemma setDirect_ne {c : Nat} (h : c ≠ b) (x : Inode) (f : Nat) :
    (x.setDirect b f).direct c = x.direct c :=
  update_of_ne h ..

variable {y : Inode}

lemma Freed.cons {m2 : Mem} {first stop : Nat}
    (h : Freed v m2 m' (x.setDirect first 0) y (first + 1) stop) (hle : first < stop)
    (hhead : ∀ g, headerAt v m2 g = headerAt v m g) (hf : Freeable v m (x.direct first))
    (hne : x.direct first ≠ 0) (hfree : ∀ j, FreeAt v m2 j ↔ FreeAt v m j ∨
      (x.direct first ≤ j ∧ j < x.direct first + v.fragmentsPerBlock)) :
    Freed v m m' x y first stop where
  headers g := (h.headers g).trans (hhead g)
  freeable b hb hlt hb0 := by
    rcases eq_or_lt_of_le hb with rfl | hb
    · exact hf
    have heq := setDirect_ne (show b ≠ first by omega) x 0
    rw [← heq] at hb0 ⊢
    exact (freeable_congr hhead).mp (h.freeable b hb hlt hb0)
  free j := by
    rw [h.free, hfree, or_assoc]
    refine or_congr_right ⟨?_, ?_⟩
    · rintro (hin | ⟨b, hb, hlt, hb0, hin⟩)
      · exact ⟨first, le_rfl, hle, hne, hin⟩
      rw [setDirect_ne (show b ≠ first by omega)] at hb0 hin
      exact ⟨b, by omega, hlt, hb0, hin⟩
    rintro ⟨b, hb, hlt, hb0, hin⟩
    rcases eq_or_lt_of_le hb with rfl | hb
    · exact .inl hin
    rw [← setDirect_ne (show b ≠ first by omega) x 0] at hb0 hin
    exact .inr ⟨b, hb, hlt, hb0, hin⟩
  cleared b hb hlt := by
    rcases eq_or_lt_of_le hb with rfl | hb
    · rw [h.below _ (by omega), setDirect_self]
    · exact h.cleared b hb hlt
  below b hb := (h.below b (by omega)).trans (setDirect_ne (by omega) x 0)
  size := h.size
  indirect := h.indirect

lemma truncateBlocks_freed (hs : Separate v) (hp : v.Probed) (hncg : v.cylinderGroups < 2 ^ 32)
    (hfit : ∀ g o, cgOffset v g = some o → v.device.Fits o v.cylinderGroupSize)
    (hslot : ∃ off, inodeOffset v n = some off ∧ v.device.Fits off DINODE_SIZE)
    (hap : ∀ i, InSlot v n i → ¬ InGroups v i) (k : Nat) :
    ∀ (first : Nat) (x : Inode) (d : Disk), first + k = DIRECT_BLOCKS →
      (∀ b < DIRECT_BLOCKS, x.direct b ≠ 0 → x.direct b / v.fragmentsPerGroup < 2 ^ 32) →
      (truncateBlocks v n k first x).Ensures d fun p d' => ∃ stop, first ≤ stop ∧
        stop ≤ DIRECT_BLOCKS ∧ Freed v (v.bytes d) (v.bytes d') x p.2 first stop ∧
        (p.1 = some () ↔ stop = DIRECT_BLOCKS) ∧
        (stop < DIRECT_BLOCKS → x.direct stop ≠ 0 ∧ ¬ Freeable v (v.bytes d) (x.direct stop)) := by
  induction k with
  | zero =>
    intro first x d hk _
    refine .pure ⟨first, le_rfl, by omega, ?_, iff_of_true rfl (by omega), by omega⟩
    refine ⟨fun _ => rfl, by omega, fun j => ⟨.inl, fun h => h.resolve_right ?_⟩, by omega,
      fun _ _ => rfl, rfl, rfl⟩
    rintro ⟨b, h1, h2, -⟩
    omega
  | succ k ih => ?_
  intro first x d hk hnum
  unfold truncateBlocks
  split
  · next h0 =>
    refine (ih (first + 1) x d (by omega) hnum).mono fun p d' hend => ?_
    obtain ⟨stop, hle, hle', h, hres⟩ := hend
    refine ⟨stop, by omega, hle', ?_, hres⟩
    refine ⟨h.headers, fun b hb hlt hne => h.freeable b ?_ hlt hne, fun j => ?_,
      fun b hb hlt => ?_, fun b hb => h.below b (by omega), h.size, h.indirect⟩
    · exact lt_of_le_of_ne hb fun heq => hne (heq ▸ h0)
    · rw [h.free]
      refine or_congr_right (exists_congr fun b => ?_)
      constructor
      · exact And.imp_left (by omega)
      rintro ⟨hb, hlt, hne, hrest⟩
      exact ⟨lt_of_le_of_ne hb fun heq => hne (heq ▸ h0), hlt, hne, hrest⟩
    · rcases eq_or_lt_of_le hb with rfl | hlt'
      · rw [h.below _ (by omega), h0]
      · exact h.cleared b hlt' hlt
  next hne =>
  obtain ⟨d1, hrun1, hgroups, hhead⟩ :=
    writeInode_groups hp hslot hap (x.setDirect first 0) d
  by_cases hf : Freeable v (v.bytes d) (x.direct first)
  · obtain ⟨d2, hrun2, hspec, hhead2⟩ :=
      ((freeable_congr hhead).mpr hf).frees hs hp hncg hfit
    refine .step (Prog.run_andThen_some hrun1 |>.trans hrun2) ?_
    refine (ih (first + 1) _ d2 (by omega) fun b hb hb0 => ?_).mono fun p d' hend => ?_
    · by_cases hbf : b = first
      · exact absurd (hbf ▸ setDirect_self x first 0) hb0
      rw [setDirect_ne hbf] at hb0 ⊢
      exact hnum b hb hb0
    obtain ⟨stop, hle, hle', h, hres, hstop⟩ := hend
    refine ⟨stop, by omega, hle', ?_, hres, fun hlt => ?_⟩
    · refine h.cons (by omega) (fun g => (hhead2 g).trans (hhead g)) hf hne fun j => ?_
      rw [hspec, freeAt_congr hs hp hgroups]
    have := hstop hlt
    rwa [setDirect_ne (show stop ≠ first by omega),
      freeable_congr fun g => (hhead2 g).trans (hhead g)] at this
  · have hrefused := freeBlock_refused hs hp (hnum first (by omega) hne)
      (fun h => hf ((freeable_congr hhead).mp h))
    refine .step (Prog.run_andThen_some hrun1 |>.trans hrefused) (.pure ?_)
    refine ⟨first, le_rfl, by omega, ?_, iff_of_false (by simp) (by omega), fun _ => ⟨hne, hf⟩⟩
    refine ⟨hhead, by omega, fun j => ?_, by omega,
      fun b hb => setDirect_ne (by omega) x 0, rfl, rfl⟩
    rw [freeAt_congr hs hp hgroups]
    refine ⟨.inl, fun h => h.resolve_right ?_⟩
    rintro ⟨b, h1, h2, -⟩
    omega

lemma truncate_freed (hf : Filed v n x (v.bytes d)) :
    (truncate v n x).Ensures d fun p d' => ∃ stop ≤ DIRECT_BLOCKS,
      Freed v (v.bytes d) (v.bytes d') { x with size := 0 } p.2 0 stop ∧
      (p.1 = some () ↔ stop = DIRECT_BLOCKS) ∧
      (stop < DIRECT_BLOCKS → x.direct stop ≠ 0 ∧ ¬ Freeable v (v.bytes d) (x.direct stop)) := by
  have hp := hf.accepted.probed
  have hs := hf.separate
  unfold truncate
  rw [if_neg fun hmode => hf.mode.elim hmode.1 hmode.2]
  obtain ⟨d1, hrun1, hgroups, hhead⟩ :=
    writeInode_groups hp hf.slot hf.slot_apart { x with size := 0 } d
  refine .step hrun1 ?_
  refine (truncateBlocks_freed hs hp hf.accepted.groups_lt hf.groups_fit hf.slot hf.slot_apart
    DIRECT_BLOCKS 0 { x with size := 0 } d1 (zero_add _) hf.number).mono ?_
  rintro p d' ⟨stop, -, hle, h, hres, hstop⟩
  refine ⟨stop, hle, ?_, hres, fun hlt => ?_⟩
  · refine ⟨fun g => (h.headers g).trans (hhead g), fun b hb hlt hne => ?_, fun k => ?_, h.cleared,
      h.below, h.size, h.indirect⟩
    · exact (freeable_congr hhead).mp (h.freeable b hb hlt hne)
    · rw [h.free, freeAt_congr hs hp hgroups]
  · have hno := hstop hlt
    rwa [freeable_congr hhead] at hno

/-! ### What a file owns -/

/-- The fragments of direct block `b` of a file of `size` bytes: the last
block of a file may be short. -/
def fragmentCount (v : Volume) (size b : Nat) : Nat :=
  if b = size / v.blockSize ∧ size % v.blockSize ≠ 0 then
    (size % v.blockSize + v.fragmentSize - 1) / v.fragmentSize
  else v.fragmentsPerBlock

lemma fragmentCount_pos (hp : v.Probed) (size b : Nat) :
    0 < fragmentCount v size b ∧ fragmentCount v size b ≤ v.fragmentsPerBlock := by
  have hs := hp.sizes
  have hpos := hs.pos
  unfold fragmentCount
  split
  · next h =>
    have hlt := mod_lt size hs.blockPos
    rw [hs.block] at hlt h ⊢
    refine ⟨Nat.div_pos (by omega) hpos, ?_⟩
    rw [← Nat.lt_succ_iff, Nat.div_lt_iff_lt_mul hpos, succ_mul]
    omega
  · exact ⟨hp.fragmentsPerBlock_pos, le_rfl⟩

variable (v x m) in
/-- Fragment `k` belongs to a block of the file that `ufs2_block_address`
can reach, or to its indirect block. -/
def Reached (k : Nat) : Prop :=
  (∃ b, b < DIRECT_BLOCKS ∧ x.direct b ≠ 0 ∧ x.direct b ≤ k ∧
    k < x.direct b + fragmentCount v x.size b) ∨
  (x.indirect 0 ≠ 0 ∧ x.indirect 0 ≤ k ∧ k < x.indirect 0 + v.fragmentsPerBlock) ∨
  ∃ b a, DIRECT_BLOCKS ≤ b ∧ addressAt v m x b = some a ∧ a ≤ k ∧ k < a + v.fragmentsPerBlock

variable (v x m) in
/-- The fragments of the file are allocated, and its blocks start in
different blocks. -/
structure Owned : Prop where
  allocated : ∀ k, Reached v x m k → ¬ FreeAt v m k
  direct : ∀ b c, b < DIRECT_BLOCKS → c < DIRECT_BLOCKS → b ≠ c → x.direct b ≠ 0 →
    x.direct c ≠ 0 → ¬ (x.direct c ≤ x.direct b ∧ x.direct b < x.direct c + v.fragmentsPerBlock)
  indirect : x.indirect 0 ≠ 0 → ∀ c, c < DIRECT_BLOCKS → x.direct c ≠ 0 →
    ¬ (x.direct c ≤ x.indirect 0 ∧ x.indirect 0 < x.direct c + v.fragmentsPerBlock)

variable (v x m) in
/-- The file has no indirect block, and `ufs2_free_block` takes each of
its direct blocks. -/
def Returnable : Prop :=
  (∀ b, b < DIRECT_BLOCKS → x.direct b ≠ 0 → Freeable v m (x.direct b)) ∧ x.indirect 0 = 0

lemma addressAt_indirect (h : y.indirect 0 = 0) (hb : DIRECT_BLOCKS ≤ b) :
    addressAt v m y b = none := by
  unfold addressAt
  rw [if_neg (by omega)]
  rw [if_pos (.inr (.inl h))]

lemma Freed.returned_iff (hp : v.Probed) (ho : Owned v x m) {stop : Nat}
    (hle : stop ≤ DIRECT_BLOCKS) (h : Freed v m m' { x with size := 0 } y 0 stop)
    (hstop : stop < DIRECT_BLOCKS → x.direct stop ≠ 0 ∧ ¬ Freeable v m (x.direct stop)) :
    (∀ k, Reached v x m k → FreeAt v m' k) ↔ Returnable v x m := by
  have hpos := hp.fragmentsPerBlock_pos
  -- a fragment of the file that is free afterwards lies in a block that was freed
  have hin : ∀ {k}, Reached v x m k → FreeAt v m' k → ∃ b < stop, x.direct b ≠ 0 ∧
      x.direct b ≤ k ∧ k < x.direct b + v.fragmentsPerBlock := fun hk hfree => by
    obtain ⟨b, -, hb⟩ := ((h.free _).mp hfree).resolve_left (ho.allocated _ hk)
    exact ⟨b, hb⟩
  constructor
  · intro hall
    have hend : stop = DIRECT_BLOCKS := by
      by_contra hne
      obtain ⟨h0, -⟩ := hstop (by omega)
      have hk : Reached v x m (x.direct stop) := .inl ⟨stop, by omega, h0, le_rfl,
        Nat.lt_add_of_pos_right (fragmentCount_pos hp x.size stop).1⟩
      obtain ⟨b, hlt, hb0, hrange⟩ := hin hk (hall _ hk)
      exact ho.direct stop b (by omega) (by omega) (by omega) h0 hb0 hrange
    refine ⟨fun b hb hb0 => h.freeable b (by omega) (by omega) hb0, ?_⟩
    by_contra hi0
    have hk : Reached v x m (x.indirect 0) := .inr (.inl ⟨hi0, le_rfl, by omega⟩)
    obtain ⟨b, hlt, hb0, hrange⟩ := hin hk (hall _ hk)
    exact ho.indirect hi0 b (by omega) hb0 hrange
  · rintro ⟨hfreeable, hi0⟩ k hk
    have hend : stop = DIRECT_BLOCKS := by
      by_contra hne
      obtain ⟨h0, hno⟩ := hstop (by omega)
      exact hno (hfreeable stop (by omega) h0)
    rcases hk with ⟨b, hb, hb0, hlo, hhi⟩ | ⟨hne, -⟩ | ⟨b, a, hb, ha, -⟩
    · have hcount := (fragmentCount_pos hp x.size b).2
      exact (h.free k).mpr (.inr ⟨b, by omega, by omega, hb0, hlo, by dsimp only; omega⟩)
    · exact absurd hi0 hne
    rw [addressAt_indirect hi0 hb] at ha
    cases ha

lemma freeInode_freeAt (hf : Filed v n x m) (hap : MapsApart v (v.bytes d)) :
    (freeInode v n).Ensures d fun _ d' => ∀ k, FreeAt v (v.bytes d') k ↔ FreeAt v (v.bytes d) k := by
  have hp := hf.accepted.probed
  have hs := hf.separate
  refine (freeInode_spec hf.slot_apart hs hp hf.numbers d).mono fun r d' ⟨hnone, hsome, _⟩ => ?_
  cases r with
  | none => exact freeAt_congr hs hp fun i hi => hnone rfl i fun hsl => hf.slot_apart i hsl hi
  | some _ => exact ((hsome rfl).remarked hf.slot_apart hs hp hf.numbers).free hap

lemma truncate_returned (hf : Filed v n x (v.bytes d)) (ho : Owned v x (v.bytes d)) :
    (truncate v n x).Ensures d fun p d' =>
      (p.1 = some () ↔ ∀ b < DIRECT_BLOCKS, x.direct b ≠ 0 →
        Freeable v (v.bytes d) (x.direct b)) ∧
      ((∀ k, Reached v x (v.bytes d) k → FreeAt v (v.bytes d') k) ↔ Returnable v x (v.bytes d)) ∧
      (Returnable v x (v.bytes d) → ∀ b, addressAt v (v.bytes d') p.2 b = none) ∧
      p.2.size = 0 ∧ ∀ g, headerAt v (v.bytes d') g = headerAt v (v.bytes d) g := by
  have hp := hf.accepted.probed
  refine (truncate_freed hf).mono ?_
  rintro p d' ⟨stop, hle, h, hres, hstop⟩
  have hend : (∀ b < DIRECT_BLOCKS, x.direct b ≠ 0 →
      Freeable v (v.bytes d) (x.direct b)) → stop = DIRECT_BLOCKS := fun hfree => by
    by_contra hne
    obtain ⟨h0, hno⟩ := hstop (by omega)
    exact hno (hfree stop (by omega) h0)
  refine ⟨?_, h.returned_iff hp ho hle hstop, fun hret b => ?_, h.size, h.headers⟩
  · rw [hres]
    refine ⟨fun heq b hb hb0 => h.freeable b (by omega) (by omega) hb0, hend⟩
  by_cases hb : b < DIRECT_BLOCKS
  · have h0 := h.cleared b (by omega) (by rw [hend hret.1]; exact hb)
    unfold addressAt
    rw [if_pos hb, if_pos h0]
  · exact addressAt_indirect ((congrFun h.indirect 0).trans hret.2) (by omega)

lemma itrunc_returned (hf : Filed v n x (v.bytes d)) (ho : Owned v x (v.bytes d)) :
    (itrunc v n x).Ensures d fun _ d' =>
      (∀ k, Reached v x (v.bytes d) k → FreeAt v (v.bytes d') k) ↔ Returnable v x (v.bytes d) := by
  refine (truncate_returned hf ho).bind fun p d1 ⟨_, hret, _, _, hhead⟩ => ?_
  refine (freeInode_freeAt hf (hf.maps_apart.headers hhead)).bind fun _ d2 hfree => .pure ?_
  exact (forall_congr' fun k => imp_congr_right fun _ => hfree k).trans hret

/-- Deleting or truncating a file returns all its space, and leaves no
block a later read could reach, exactly when the file has no indirect
block and `ufs2_free_block` takes each of its direct blocks. -/
theorem truncation_returns_space (hf : Filed v n x (v.bytes d)) (ho : Owned v x (v.bytes d)) :
    ((itrunc v n x).Ensures d fun _ d' =>
      (∀ k, Reached v x (v.bytes d) k → FreeAt v (v.bytes d') k) ↔ Returnable v x (v.bytes d)) ∧
    (truncate v n x).Ensures d fun p d' => p.2.size = 0 ∧
      ((∀ k, Reached v x (v.bytes d) k → FreeAt v (v.bytes d') k) ∧
        (∀ b, addressAt v (v.bytes d') p.2 b = none) ↔ Returnable v x (v.bytes d)) := by
  refine ⟨itrunc_returned hf ho, (truncate_returned hf ho).mono ?_⟩
  rintro p d' ⟨-, hret, hnone, hsize, -⟩
  exact ⟨hsize, fun h => hret.mp h.1, fun h => ⟨hret.mpr h, hnone h⟩⟩

/-! ### A volume with every fragment allocated -/

/-- The volume of `pairVolume 16` with all its fragments in use. -/
def fullImage : Mem :=
  let v := pairVolume 16
  let m := blit (fun _ => 0) SUPERBLOCK_OFFSET (superblockOf v) SUPERBLOCK_SIZE
  let m := blit m 76800 (groupHeader v 0) 512
  blit m 84992 (groupHeader v 1) 512

def fullDisk : Disk := imageDisk fullImage

abbrev fullBytes : Mem := (pairVolume 16).bytes fullDisk

lemma fullDisk_group {g o : Nat} (h : cgOffset (pairVolume 16) g = some o) :
    (g = 0 ∧ o = 76800) ∨ (g = 1 ∧ o = 84992) := by
  obtain ⟨hg, rfl⟩ := cgOffset_some h
  change g < 2 at hg
  rcases (show g = 0 ∨ g = 1 by omega) with rfl | rfl
  · exact .inl ⟨rfl, rfl⟩
  · exact .inr ⟨rfl, rfl⟩

lemma fullDisk_maps : (∀ g mo entries, freeMapAt (pairVolume 16) fullBytes g
      = some (mo, entries) → entries = 16 ∧ ((g = 0 ∧ mo = 77056) ∨ (g = 1 ∧ mo = 85248))) ∧
    ∀ g io, inodeMapAt (pairVolume 16) fullBytes g = some io →
      (g = 0 ∧ io = 76928) ∨ (g = 1 ∧ io = 85120) := by
  have hall : ∀ g < 2, freeMapAt (pairVolume 16) fullBytes g = some (77056 + g * 8192, 16) ∧
      inodeMapAt (pairVolume 16) fullBytes g = some (76928 + g * 8192) := by
    decide +kernel
  constructor
  · intro g mo entries h
    have hg : g < 2 := (freeMapAt_le h).1
    rw [(hall g hg).1] at h
    cases h
    omega
  intro g io h
  obtain ⟨o, ho, -⟩ := inodeMapAt_inside (v := pairVolume 16) ⟨by decide, by decide⟩ h
  have hg : g < 2 := (cgOffset_some ho).1
  rw [(hall g hg).2] at h
  cases h
  omega

lemma fullDisk_allocated (k : Nat) : ¬ FreeAt (pairVolume 16) fullBytes k := by
  rintro ⟨mo, entries, hmap, hk, -, hbit⟩
  have hclear : ∀ j < 16, testBit (fullBytes (mapByte 77056 j)) (j % 8) = false ∧
      testBit (fullBytes (mapByte 85248 j)) (j % 8) = false := by
    decide +kernel
  obtain ⟨rfl, ⟨-, rfl⟩ | ⟨-, rfl⟩⟩ := fullDisk_maps.1 _ _ _ hmap
  · rw [(hclear _ hk).1] at hbit
    cases hbit
  rw [(hclear _ hk).2] at hbit
  cases hbit

/-- A file of `size` bytes with one direct block, at fragment 8. -/
def oneBlock (size indirect : Nat) : Inode :=
  ⟨IFREG, 0, 0, 0, size, fun b => if b = 0 then 8 else 0, fun _ => indirect⟩

lemma oneBlock_direct {size indirect : Nat} (h : (oneBlock size indirect).direct b ≠ 0) :
    b = 0 := by
  by_contra hb
  exact h (if_neg hb)

lemma oneBlock_filed (size indirect : Nat) :
    Filed (pairVolume 16) 3 (oneBlock size indirect) fullBytes where
  accepted := pairVolume_accepted (.inr rfl)
  separate := pairVolume_separate (.inr rfl)
  numbers := ⟨by decide, by decide⟩
  groups_fit g o ho := by
    rcases fullDisk_group ho with ⟨rfl, rfl⟩ | ⟨rfl, rfl⟩ <;>
      exact fits_image (by decide) (by decide)
  maps_apart g mo entries io hmo hio := by
    obtain ⟨rfl, hmo⟩ := fullDisk_maps.1 g mo entries hmo
    have hio := fullDisk_maps.2 g io hio
    have hipg : (pairVolume 16).inodesPerGroup = 16 := rfl
    unfold Apart
    omega
  slot := ⟨103168, by decide, fits_image (by decide) (by decide)⟩
  slot_apart := by
    rintro i ⟨o, ho, hlo, hhi⟩ ⟨g, p, hp, hplo, hphi⟩
    have ho' : inodeOffset (pairVolume 16) 3 = some 103168 := by decide
    rw [ho'] at ho
    cases ho
    have hcg : (pairVolume 16).cylinderGroupSize = 512 := rfl
    have := fullDisk_group hp
    omega
  mode := .inl (show IFREG &&& IFMT = IFREG by decide)
  number b _ hne := by
    obtain rfl := oneBlock_direct hne
    show (8 : Nat) / 16 < 2 ^ 32
    decide

lemma oneBlock_owned {size indirect : Nat} (h : indirect = 0 ∨ indirect = 16) :
    Owned (pairVolume 16) (oneBlock size indirect) fullBytes where
  allocated k _ := fullDisk_allocated k
  direct b c _ _ hne hb hc := absurd ((oneBlock_direct hb).trans (oneBlock_direct hc).symm) hne
  indirect hi c _ hc := by
    obtain rfl := oneBlock_direct hc
    show ¬ (8 ≤ indirect ∧ indirect < 8 + 8)
    omega

lemma oneBlock_freeable : Freeable (pairVolume 16) fullBytes 8 :=
  ⟨by decide, 77056, 16, by decide +kernel, by decide⟩

/-- A file without an indirect block gives its block back. -/
theorem truncation_returns_block :
    Filed (pairVolume 16) 3 (oneBlock 4096 0) ((pairVolume 16).bytes fullDisk) ∧
    Owned (pairVolume 16) (oneBlock 4096 0) ((pairVolume 16).bytes fullDisk) ∧
    (itrunc (pairVolume 16) 3 (oneBlock 4096 0)).Ensures fullDisk fun _ d' =>
      FreeAt (pairVolume 16) ((pairVolume 16).bytes d') 8 := by
  have hf := oneBlock_filed 4096 0
  have ho := @oneBlock_owned 4096 0 (.inl rfl)
  refine ⟨hf, ho, (truncation_returns_space hf ho).1.mono fun _ d' hret => ?_⟩
  refine hret.mpr ⟨fun b _ hb => ?_, rfl⟩ 8 (.inl ⟨0, by decide, ?_, ?_, ?_⟩)
  · obtain rfl := oneBlock_direct hb
    exact oneBlock_freeable
  all_goals decide

/-- The indirect block of a deleted file stays allocated. -/
theorem indirect_block_leaks :
    Filed (pairVolume 16) 3 (oneBlock 4096 16) ((pairVolume 16).bytes fullDisk) ∧
    Owned (pairVolume 16) (oneBlock 4096 16) ((pairVolume 16).bytes fullDisk) ∧
    Reached (pairVolume 16) (oneBlock 4096 16) ((pairVolume 16).bytes fullDisk) 16 ∧
    (itrunc (pairVolume 16) 3 (oneBlock 4096 16)).Ensures fullDisk fun _ d' =>
      ¬ FreeAt (pairVolume 16) ((pairVolume 16).bytes d') 16 := by
  have hf := oneBlock_filed 4096 16
  refine ⟨hf, oneBlock_owned (.inr rfl), .inr (.inl (by decide)), ?_⟩
  unfold itrunc
  refine (truncate_freed hf).bind fun p d1 ⟨stop, _, h, _⟩ => ?_
  refine (freeInode_freeAt hf (hf.maps_apart.headers h.headers)).bind fun _ d2 hfree => .pure ?_
  rw [hfree, h.free]
  rintro (hold | ⟨b, -, -, hb, hlo, hhi⟩)
  · exact fullDisk_allocated 16 hold
  obtain rfl := oneBlock_direct hb
  exact absurd hhi (by decide)

/-! ## The files next to it -/

variable (v x m) in
/-- Fragment `k` is free, or lies in a direct block of the file. -/
def Mine (k : Nat) : Prop :=
  FreeAt v m k ∨ ∃ b, b < DIRECT_BLOCKS ∧ x.direct b ≠ 0 ∧ x.direct b ≤ k ∧
    k < x.direct b + v.fragmentsPerBlock

variable (v n x m) in
/-- The fragments `other` are owned by other inodes: they are allocated
and lie apart from the groups and from the dinode, as the free fragments
and the blocks of the file do. -/
structure Shared (other : Nat → Prop) : Prop where
  room : Room v n (Mine v x m)
  allocated : ∀ k, other k → ¬ FreeAt v m k
  apart : ∀ k i, other k → InFragment v k i → ¬ InGroups v i ∧ ¬ InSlot v n i

variable (v x) in
/-- No fragment of a direct block of the file belongs to another inode. -/
def Clear (other : Nat → Prop) : Prop :=
  ∀ b, b < DIRECT_BLOCKS → x.direct b ≠ 0 →
    ∀ k, k < v.fragmentsPerBlock → ¬ other (x.direct b + k)

variable (v) in
/-- No fragment of `other` is freed and no byte of one is changed. -/
def Unharmed (other : Nat → Prop) (d d' : Disk) : Prop :=
  ∀ k, other k → ¬ FreeAt v (v.bytes d') k ∧ ∀ i, InFragment v k i → v.bytes d' i = v.bytes d i

lemma inFragment_inj {j k i : Nat} (hj : InFragment v j i) (hk : InFragment v k i) : j = k := by
  obtain ⟨hj1, hj2⟩ := hj
  obtain ⟨hk1, hk2⟩ := hk
  have h1 := Nat.lt_of_mul_lt_mul_right (lt_of_le_of_lt hj1 hk2)
  have h2 := Nat.lt_of_mul_lt_mul_right (lt_of_le_of_lt hk1 hj2)
  omega

lemma Shared.keeps {other : Nat → Prop} (_ : Shared v n x m other) : Keeps v (Mine v x m) m x :=
  ⟨fun _ hk => .inl hk, fun b hb hne k hk => .inr ⟨b, hb, hne, by omega, by omega⟩⟩

lemma Shared.unharmed {other : Nat → Prop} (h : Shared v n x (v.bytes d) other)
    (hclear : Clear v x other) {p : Option Unit × Inode} {d' : Disk}
    (hs : Stays v n (Mine v x (v.bytes d)) d p d') : Unharmed v other d d' := by
  intro k hk
  have hno : ¬ Mine v x (v.bytes d) k := by
    rintro (hfree | ⟨b, hb, hne, hlo, hhi⟩)
    · exact h.allocated k hk hfree
    obtain ⟨j, rfl⟩ := Nat.exists_eq_add_of_le hlo
    exact hclear b hb hne j (by omega) hk
  refine ⟨fun hfree => hno (hs.2.free k hfree), fun i hi => ?_⟩
  obtain ⟨hg, hsl⟩ := h.apart k i hk hi
  exact hs.1 i hg hsl fun j hj hji => hno (inFragment_inj hji hi ▸ hj)

/-! ### A write that does harm -/

variable (v n x) in
/-- A regular file without holes, on the device with its dinode. -/
structure Dense : Prop where
  mode : x.mode &&& IFMT = IFREG
  slot : ∃ off, inodeOffset v n = some off ∧ v.device.Fits off DINODE_SIZE
  below : ∀ b c, b < DIRECT_BLOCKS → x.direct b ≠ 0 → c < b → x.direct c ≠ 0
  fits : ∀ b, b < DIRECT_BLOCKS → x.direct b ≠ 0 →
    v.device.Fits (x.direct b * v.fragmentSize) v.blockSize

lemma growBlocks_dense (k : Nat) : ∀ block, (∀ c, block ≤ c → c < block + k → y.direct c ≠ 0) →
      growBlocks v n k block y = pure (some (), y) := by
  induction k with
  | zero => exact fun _ _ => rfl
  | succ k ih => ?_
  intro block h
  rw [growBlocks, if_pos (h block (by omega) (by omega))]
  exact ih _ fun c hc hlt => h c (by omega) (by omega)

section

variable (hp : v.Probed) (hb : b < DIRECT_BLOCKS)
  (hy : ∀ c, c ≤ b → y.direct c ≠ 0 ∧ y.direct c * v.fragmentSize + v.blockSize ≤ U64MAX ∧
    v.device.Fits (y.direct c * v.fragmentSize) v.blockSize)
include hp hb hy

lemma writeBlocks_done (fuel : Nat) : ∀ (offset : Nat) (src : Mem) (length : Nat) (d : Disk),
      offset + length ≤ (b + 1) * v.blockSize →
      (writeBlocks v y fuel offset src length).Ensures d fun r _ => r = some () := by
  have hbs := hp.sizes.blockPos
  induction fuel with
  | zero => exact fun _ _ _ _ _ => .pure rfl
  | succ fuel ih => ?_
  intro offset src length d hlen
  by_cases h0 : length = 0
  · rw [writeBlocks, if_pos h0]
    exact .pure rfl
  have hlt : offset / v.blockSize < b + 1 := (Nat.div_lt_iff_lt_mul hbs).mpr (by omega)
  have hin := mod_lt offset hbs
  obtain ⟨hne, hend, hfit⟩ := hy (offset / v.blockSize) (by omega)
  refine .of_run_eq (writeBlocks_turn hp h0 rfl (by omega) hne hend) ?_
  obtain ⟨d1, hrun, -⟩ := write_run (hfit.mono (Nat.le_add_right _ (offset % v.blockSize))
    (show _ + min (v.blockSize - offset % v.blockSize) length ≤ _ by omega)) src d
  exact .andThen_some hrun (ih _ _ _ d1 (by omega))

lemma zeroGap_done {offset : Nat} (hoff : offset ≤ (b + 1) * v.blockSize) (fuel : Nat) :
    ∀ (oldSize : Nat) (d : Disk),
      (zeroGap v y offset fuel oldSize).Ensures d fun r _ => r = some () := by
  induction fuel with
  | zero => exact fun _ _ => .pure rfl
  | succ fuel ih => ?_
  intro oldSize d
  unfold zeroGap
  split
  · refine Prog.Ensures.andThen (writeBlocks_done hp hb hy _ _ _ _ d (by omega)) (by simp)
      fun _ d1 _ => ih _ d1
  · exact .pure rfl

end

lemma writeRange_byte (hp : v.Probed) {offset : Nat} (hb : b < DIRECT_BLOCKS)
    (hoff : offset / v.blockSize = b)
    (hy : y.direct b ≠ 0 ∧ y.direct b * v.fragmentSize + v.blockSize ≤ U64MAX ∧
      v.device.Fits (y.direct b * v.fragmentSize) v.blockSize) (src : Mem) (d : Disk) :
    (writeRange v y offset src 1).Ensures d fun _ d' =>
      v.bytes d' (y.direct b * v.fragmentSize + offset % v.blockSize) = src 0 := by
  obtain ⟨hne, hend, hfit⟩ := hy
  have hin := mod_lt offset hp.sizes.blockPos
  have hone : min (v.blockSize - offset % v.blockSize) 1 = 1 := by omega
  refine .of_run_eq (writeBlocks_turn hp (by omega) hoff hb hne hend) ?_
  rw [hone]
  obtain ⟨d1, hrun, hbytes⟩ := write_run (hfit.mono (Nat.le_add_right _ (offset % v.blockSize))
    (show _ + 1 ≤ _ by omega)) src d
  refine .andThen_some hrun (.pure ?_)
  exact (congrFun hbytes _).trans ((blit_in (by omega) (by omega)).trans (by rw [Nat.sub_self]))

lemma Dense.overwrite (h : Dense v n x) (hr : Room v n (Mine v x (v.bytes d))) {j : Nat}
    (hb : b < DIRECT_BLOCKS) (hne : x.direct b ≠ 0) (hj : j < v.blockSize) (src : Mem) :
    (writeGrowing v n x (b * v.blockSize + j) src 1).Ensures d fun _ d' =>
      v.bytes d' (x.direct b * v.fragmentSize + j) = src 0 := by
  have hp := hr.probed
  have hbs := hp.sizes.blockPos
  have hmax := hp.sizes.blockMax
  have hoff : (b * v.blockSize + j) / v.blockSize = b := by
    rw [mul_comm, mul_add_div hbs, div_eq_of_lt hj, add_zero]
  have hmod : (b * v.blockSize + j) % v.blockSize = j := by
    rw [mul_comm, mul_add_mod, mod_eq_of_lt hj]
  have hle : (b + 1) * v.blockSize ≤ DIRECT_BLOCKS * v.blockSize := Nat.mul_le_mul_right _ hb
  have hsucc : (b + 1) * v.blockSize = b * v.blockSize + v.blockSize := succ_mul ..
  have hblocks : (b * v.blockSize + j + 1 + v.blockSize - 1) / v.blockSize = b + 1 := by
    rw [show b * v.blockSize + j + 1 + v.blockSize - 1 = (b + 1) * v.blockSize + j by omega,
      mul_comm, mul_add_div hbs, div_eq_of_lt hj, add_zero]
  have hdirect : ∀ c ≤ b, x.direct c ≠ 0 := fun c hc => by
    rcases eq_or_lt_of_le hc with rfl | hlt
    · exact hne
    · exact h.below b c hb hne hlt
  have hall : ∀ c ≤ b, x.direct c ≠ 0 ∧ x.direct c * v.fragmentSize + v.blockSize ≤ U64MAX ∧
      v.device.Fits (x.direct c * v.fragmentSize) v.blockSize := fun c hc =>
    ⟨hdirect c hc, hr.block_end fun k hk => .inr ⟨c, by omega, hdirect c hc, by omega, by omega⟩,
      h.fits c (by omega) (hdirect c hc)⟩
  have hlarge : DIRECT_BLOCKS * v.blockSize ≤ 12 * 65536 := Nat.mul_le_mul_left 12 hmax
  unfold writeGrowing
  rw [if_neg (by unfold U64MAX; exact fun hbad => hbad.elim (fun hm => hm h.mode) (by omega)),
    if_neg (by omega), hblocks, growBlocks_dense _ _ fun c _ hc => hdirect c (by omega)]
  refine .step (Prog.run_pure _ _) ?_
  dsimp only
  split
  · refine (writeRange_byte hp hb hoff (hall b le_rfl) src d).bind
      fun r d1 hbyte => .pure ?_
    rwa [hmod] at hbyte
  -- the file grows: its dinode and the gap come first
  refine Prog.Ensures.bind (P := fun _ d' =>
    v.bytes d' (x.direct b * v.fragmentSize + j) = src 0) ?_ fun _ _ hbyte => .pure hbyte
  obtain ⟨off, hslot, hfit⟩ := h.slot
  obtain ⟨d1, hrun1, -⟩ := writeInode_run hslot hfit { x with size := b * v.blockSize + j + 1 } d
  refine .andThen_some hrun1 ?_
  obtain ⟨r, d2, hrun2, rfl⟩ := zeroGap_done hp hb (y := { x with size := b * v.blockSize + j + 1 })
    hall (show b * v.blockSize + j ≤ _ by omega) (b * v.blockSize + j) x.size d1
  refine .andThen_some hrun2 ?_
  have hlast := writeRange_byte hp hb (y := { x with size := b * v.blockSize + j + 1 }) hoff
    (hall b le_rfl) src d2
  rwa [hmod] at hlast

lemma fullDisk_apart {k i : Nat} (hk : k < 32) (hi : InFragment (pairVolume 16) k i) :
    ¬ InGroups (pairVolume 16) i ∧ ¬ InSlot (pairVolume 16) 3 i := by
  have hlt : i < (k + 1) * 512 := hi.2
  constructor
  · rintro ⟨g, o, ho, hlo, hhi⟩
    have := fullDisk_group ho
    omega
  rintro ⟨o, ho, hlo, -⟩
  have ho' : inodeOffset (pairVolume 16) 3 = some 103168 := by decide
  rw [ho'] at ho
  cases ho
  omega

lemma oneBlock_shared (size indirect : Nat) (other : Nat → Prop) (h : ∀ k, other k → k < 32) :
    Shared (pairVolume 16) 3 (oneBlock size indirect) fullBytes other := by
  have hmine : ∀ k, Mine (pairVolume 16) (oneBlock size indirect) fullBytes k → k < 16 := by
    rintro k (hfree | ⟨b, -, hb, -, hhi⟩)
    · exact absurd hfree (fullDisk_allocated k)
    obtain rfl := oneBlock_direct hb
    exact hhi
  refine ⟨⟨by decide, pairVolume_separate (.inr rfl), (oneBlock_filed size indirect).slot_apart,
    fun k hk => ?_, fun k hk => ?_, fun k i hk hi => ?_⟩, fun k _ => fullDisk_allocated k,
    fun k i hk hi => fullDisk_apart (h k hk) hi⟩
  · have hlt := hmine k hk
    show k / 16 < 2 ^ 32
    omega
  · have hlt := hmine k hk
    show (k + 1) * 512 ≤ 2 ^ 64 - 1
    omega
  · have hlt := hmine k hk
    exact fullDisk_apart (by omega) hi

end Proninx.Ufs2
