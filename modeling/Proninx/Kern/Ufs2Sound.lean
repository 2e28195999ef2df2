import Proninx.Kern.Ufs2Alloc

/-!
# The volume around a UFS2 directory

A directory is the sequence of its 512-byte regions. `Sound` says that
the volume around it is consistent: its regions, its dinode, the
cylinder groups and the free fragments lie apart. Writing a region and
growing the directory by a block keep the volume sound.
-/

namespace Proninx.Ufs2

open Blockdev ByteMem Function List Nat Option Prog Tiling

/-! ## Geometry of a probed volume -/

lemma powerOfTwo_dvd {x y : Nat} (hx : powerOfTwo x) (hy : powerOfTwo y) (h : x ≤ y) : x ∣ y := by
  have hpow : ∀ {z : Nat}, powerOfTwo z → ∃ k, z = 2 ^ k := by
    intro z hz
    simp only [powerOfTwo, Bool.and_eq_true, bne_iff_ne, beq_iff_eq] at hz
    exact (and_sub_one_eq_zero_iff_isPowerOfTwo hz.1).mp hz.2
  obtain ⟨a, rfl⟩ := hpow hx
  obtain ⟨b, rfl⟩ := hpow hy
  exact Nat.pow_dvd_pow 2 ((Nat.pow_le_pow_iff_right (by decide)).mp h)

/-- The sizes `ufs2_probe` accepts divide each other. -/
structure Volume.Sizes (v : Volume) : Prop where
  sector : v.fragmentSize % BSIZE = 0
  pos : 0 < v.fragmentSize
  block : v.blockSize = v.fragmentsPerBlock * v.fragmentSize
  region : v.blockSize % DIR_BLOCK_SIZE = 0
  blockPos : 0 < v.blockSize
  blockMax : v.blockSize ≤ 65536

lemma Volume.Probed.sizes {v : Volume} (h : v.Probed) : v.Sizes := by
  have hsec : BSIZE ∣ v.fragmentSize := powerOfTwo_dvd (by decide) h.fragmentPow h.fragmentMin
  have hblk : v.fragmentSize ∣ v.blockSize := powerOfTwo_dvd h.fragmentPow h.blockPow h.fragmentMax
  have hpos : 0 < v.fragmentSize := lt_of_lt_of_le (by decide) h.fragmentMin
  have hmin := h.blockMin
  refine ⟨mod_eq_zero_of_dvd hsec, hpos, ?_, mod_eq_zero_of_dvd (hsec.trans hblk),
    by omega, h.blockMax⟩
  rw [h.fragments, Nat.div_mul_cancel hblk]

/-! ## Sound volumes -/

/-- The ranges `[a, a + n)` and `[b, b + k)` do not meet. -/
def Apart (a n b k : Nat) : Prop := a + n ≤ b ∨ b + k ≤ a

variable (v : Volume) (dino : Nat)

def regionOffset (m : Mem) (inode : Inode) (r : Nat) : Nat :=
  (byteAt v m inode (r * DIR_BLOCK_SIZE)).getD 0

def region (m : Mem) (inode : Inode) (r : Nat) : Mem :=
  window m (regionOffset v m inode r) DIR_BLOCK_SIZE

def regionCount (inode : Inode) : Nat := inode.size / DIR_BLOCK_SIZE

/-- Directory `dino` is `inode` on a volume with bytes `m`, and what it
and the allocator use lies apart: its regions, its dinode at `off`, the
part of the indirect block that is in use, the cylinder groups and the
free fragments. -/
structure Sound (m : Mem) (inode : Inode) (off : Nat) : Prop where
  probed : v.Probed
  geometry : Geometry v
  offset : inodeOffset v dino = some off
  fits : v.device.Fits off DINODE_SIZE
  inode_eq : inodeAt v m dino = some inode
  mode : inode.mode &&& IFMT = IFDIR
  size : inode.size % DIR_BLOCK_SIZE = 0
  regions : ∀ r, r < regionCount inode → ∃ a, byteAt v m inode (r * DIR_BLOCK_SIZE) = some a ∧
    v.device.Fits a DIR_BLOCK_SIZE
  regions_apart : ∀ r s, r < regionCount inode → s < regionCount inode → r ≠ s →
    Apart (regionOffset v m inode r) DIR_BLOCK_SIZE (regionOffset v m inode s) DIR_BLOCK_SIZE
  region_inode : ∀ r, r < regionCount inode →
    Apart (regionOffset v m inode r) DIR_BLOCK_SIZE off DINODE_SIZE
  region_indirect : DIRECT_BLOCKS * v.blockSize < inode.size → ∀ r, r < regionCount inode →
    ∀ k, k < v.blockSize / 8 → Apart (regionOffset v m inode r) DIR_BLOCK_SIZE
      ((inode.indirect 0 * v.fragmentSize + k * 8) % 2 ^ 64) 8
  region_group : ∀ r, r < regionCount inode → ∀ g o, cgOffset v g = some o →
    Apart (regionOffset v m inode r) DIR_BLOCK_SIZE o v.cylinderGroupSize
  inode_group : ∀ g o, cgOffset v g = some o → Apart off DINODE_SIZE o v.cylinderGroupSize
  groups_apart : ∀ g h o p, g ≠ h → cgOffset v g = some o → cgOffset v h = some p →
    Apart o v.cylinderGroupSize p v.cylinderGroupSize
  group_end : ∀ g o, cgOffset v g = some o → o + v.cylinderGroupSize ≤ U64MAX
  free_ne : ∀ g k, FreeFragment v m g k → g * v.fragmentsPerGroup + k ≠ 0
  free_inode : ∀ g k, FreeFragment v m g k →
    Apart ((g * v.fragmentsPerGroup + k) * v.fragmentSize) v.fragmentSize off DINODE_SIZE
  free_region : ∀ g k, FreeFragment v m g k → ∀ r, r < regionCount inode →
    Apart ((g * v.fragmentsPerGroup + k) * v.fragmentSize) v.fragmentSize
      (regionOffset v m inode r) DIR_BLOCK_SIZE
  free_group : ∀ g k, FreeFragment v m g k → ∀ h o, cgOffset v h = some o →
    Apart ((g * v.fragmentsPerGroup + k) * v.fragmentSize) v.fragmentSize o v.cylinderGroupSize

variable {v dino} {m m' : Mem} {inode : Inode} {off : Nat} {d : Disk} {r : Nat}

lemma Sound.regionOffset_eq (h : Sound v dino m inode off) (hr : r < regionCount inode) :
    byteAt v m inode (r * DIR_BLOCK_SIZE) = some (regionOffset v m inode r) ∧
      v.device.Fits (regionOffset v m inode r) DIR_BLOCK_SIZE := by
  obtain ⟨a, ha, hfit⟩ := h.regions r hr
  rw [regionOffset, ha]
  exact ⟨rfl, hfit⟩

lemma Sound.region_inside (h : Sound v dino m inode off) (r : Nat) :
    r * DIR_BLOCK_SIZE % v.blockSize + DIR_BLOCK_SIZE ≤ v.blockSize := by
  have hs := h.probed.sizes
  obtain ⟨k, hk⟩ := dvd_of_mod_eq_zero hs.region
  have hpos := hs.blockPos
  rw [hk] at hpos ⊢
  rw [mul_comm r, mul_mod_mul_left]
  have hlt : r % k < k := mod_lt _ (Nat.pos_of_mul_pos_left hpos)
  calc DIR_BLOCK_SIZE * (r % k) + DIR_BLOCK_SIZE = DIR_BLOCK_SIZE * (r % k + 1) :=
        (mul_succ ..).symm
    _ ≤ DIR_BLOCK_SIZE * k := Nat.mul_le_mul_left _ hlt

lemma regionCount_mul_le {inode : Inode} (hr : r < regionCount inode) :
    r * DIR_BLOCK_SIZE + DIR_BLOCK_SIZE ≤ inode.size := by
  unfold regionCount DIR_BLOCK_SIZE at *
  omega

lemma region_room {inode : Inode} (hr : r < regionCount inode) : r * DIR_BLOCK_SIZE < inode.size ∧
    min (inode.size - r * DIR_BLOCK_SIZE) DIR_BLOCK_SIZE = DIR_BLOCK_SIZE := by
  unfold regionCount DIR_BLOCK_SIZE at *
  omega

lemma Sound.read_region (h : Sound v dino (v.bytes d) inode off) (hr : r < regionCount inode) :
    (read v inode (r * DIR_BLOCK_SIZE) DIR_BLOCK_SIZE).run d
      = .ok (some (region v (v.bytes d) inode r), d) := by
  obtain ⟨ha, hfit⟩ := h.regionOffset_eq hr
  exact read_inside (by decide) (regionCount_mul_le hr) (h.region_inside r) ha hfit

/-! ## What a change elsewhere leaves alone -/

lemma inodeAt_congr (hoff : inodeOffset v dino = some off)
    (h : Agree m m' off DINODE_SIZE) : inodeAt v m' dino = inodeAt v m dino := by
  unfold inodeAt
  rw [hoff, bind_some, bind_some, peek_congr h]

variable {g : Nat}

lemma headerAt_congr (h : ∀ o, cgOffset v g = some o → Agree m m' o CG_HEADER_SIZE) :
    headerAt v m' g = headerAt v m g := by
  unfold headerAt
  cases ho : cgOffset v g with
  | none => rfl
  | some o => rw [bind_some, bind_some, peek_congr (h o ho)]

lemma freeMapAt_of_header (h : headerAt v m' g = headerAt v m g) :
    freeMapAt v m' g = freeMapAt v m g := by
  unfold freeMapAt
  rw [h]

lemma freeMapAt_congr (h : ∀ o, cgOffset v g = some o → Agree m m' o CG_HEADER_SIZE) :
    freeMapAt v m' g = freeMapAt v m g :=
  freeMapAt_of_header (headerAt_congr h)

variable {mo entries : Nat}

lemma freeMapAt_inside (hgeo : Geometry v) (h : freeMapAt v m g = some (mo, entries)) :
    ∃ o, cgOffset v g = some o ∧ o + CG_HEADER_SIZE ≤ mo ∧
      mo + (entries + 7) / 8 ≤ o + v.cylinderGroupSize := by
  have hle := (freeMapAt_le h).2
  have hsmall := hgeo.small
  obtain ⟨⟨offset, header⟩, hhead, h⟩ := bind_eq_some_iff.mp h
  obtain ⟨o, ho, hpeek⟩ := bind_eq_some_iff.mp hhead
  obtain ⟨header', -, hpeek⟩ := bind_eq_some_iff.mp hpeek
  have hoff : offset = o := by
    split at hpeek
    · cases hpeek
    cases hpeek
    rfl
  subst hoff
  refine ⟨offset, ho, ?_⟩
  dsimp only at h
  split at h
  · cases h
  next hchk =>
  split at h
  · cases h
  cases h
  have hmod : (readLe 4 header 20 + 7) % 2 ^ 32 = readLe 4 header 20 + 7 :=
    mod_eq_of_lt (by omega)
  rw [hmod] at hchk
  omega

variable {k : Nat}

section

variable (hgeo : Geometry v)
  (hend : ∀ g o, cgOffset v g = some o → o + v.cylinderGroupSize ≤ U64MAX)
include hgeo hend

lemma mapByte_eq (h : freeMapAt v m g = some (mo, entries)) (hk : k < entries) :
    mapByte mo k = mo + k / 8 := by
  obtain ⟨o, ho, -, hhi⟩ := freeMapAt_inside hgeo h
  have hmax := hend g o ho
  unfold U64MAX at hmax
  exact mod_eq_of_lt (by omega)

lemma mapByte_in_group (h : freeMapAt v m g = some (mo, entries)) (hk : k < entries) :
    ∃ o, cgOffset v g = some o ∧ o + CG_HEADER_SIZE ≤ mapByte mo k ∧
      mapByte mo k < o + v.cylinderGroupSize := by
  obtain ⟨o, ho, hlo, hhi⟩ := freeMapAt_inside hgeo h
  rw [mapByte_eq hgeo hend h hk]
  exact ⟨o, ho, by omega, by omega⟩

lemma freeFragment_mono (hhead : ∀ g o, cgOffset v g = some o → Agree m m' o CG_HEADER_SIZE)
    (hmono : ∀ g o, cgOffset v g = some o → ∀ i, o ≤ i → i < o + v.cylinderGroupSize →
      ∀ k, testBit (m' i) k → testBit (m i) k) (h : FreeFragment v m' g k) :
    FreeFragment v m g k := by
  obtain ⟨mo, entries, hmap, hk, hfit, hbit⟩ := h
  rw [freeMapAt_congr (hhead g)] at hmap
  obtain ⟨o, ho, hlo, hhi⟩ := mapByte_in_group hgeo hend hmap hk
  exact ⟨mo, entries, hmap, hk, hfit, hmono g o ho _ (by omega) hhi _ hbit⟩

end

/-- The part of the indirect block that the regions use is unchanged. -/
def IndirectKept (v : Volume) (m m' : Mem) (inode : Inode) : Prop :=
  DIRECT_BLOCKS * v.blockSize < inode.size → ∀ k, k < v.blockSize / 8 →
    Agree m m' ((inode.indirect 0 * v.fragmentSize + k * 8) % 2 ^ 64) 8

lemma byteAt_congr (hbs : 0 < v.blockSize) (hr : r < regionCount inode)
    (hkept : IndirectKept v m m' inode) :
    byteAt v m' inode (r * DIR_BLOCK_SIZE) = byteAt v m inode (r * DIR_BLOCK_SIZE) := by
  suffices h : addressAt v m' inode (r * DIR_BLOCK_SIZE / v.blockSize % 2 ^ 32)
      = addressAt v m inode (r * DIR_BLOCK_SIZE / v.blockSize % 2 ^ 32) by
    unfold byteAt
    rw [h]
  unfold addressAt
  split
  · rfl
  next hdirect =>
  dsimp only
  split
  · rfl
  next hchk =>
  rw [not_or, not_or] at hchk
  -- a region behind the direct blocks: the file is longer than those
  have hlong : DIRECT_BLOCKS * v.blockSize < inode.size := by
    have hle := regionCount_mul_le hr
    have hmod := mod_le (r * DIR_BLOCK_SIZE / v.blockSize) (2 ^ 32)
    have hdiv : DIRECT_BLOCKS ≤ r * DIR_BLOCK_SIZE / v.blockSize := by omega
    have := (Nat.le_div_iff_mul_le hbs).mp hdiv
    unfold DIR_BLOCK_SIZE at *
    omega
  rw [peek_congr (hkept hlong _ (by omega))]

section

variable (h : Sound v dino m inode off) (hdinode : Agree m m' off DINODE_SIZE)
  (hind : IndirectKept v m m' inode)
include h hdinode hind

/-- A change that keeps the dinode and the indirect block in use, and frees
nothing, keeps the volume sound with the same regions in the same places. -/
lemma Sound.keep (hfree : ∀ {g k}, FreeFragment v m' g k → FreeFragment v m g k) :
    Sound v dino m' inode off ∧
      ∀ r < regionCount inode, regionOffset v m' inode r = regionOffset v m inode r := by
  have hbyte : ∀ r < regionCount inode,
      byteAt v m' inode (r * DIR_BLOCK_SIZE) = byteAt v m inode (r * DIR_BLOCK_SIZE) :=
    fun r hr => byteAt_congr h.probed.sizes.blockPos hr hind
  have hloc : ∀ r < regionCount inode,
      regionOffset v m' inode r = regionOffset v m inode r := fun r hr => by
    rw [regionOffset, hbyte r hr, regionOffset]
  refine ⟨{ h with
    inode_eq := (inodeAt_congr h.offset hdinode).trans h.inode_eq
    regions := fun r hr => hbyte r hr ▸ h.regions r hr
    regions_apart := fun r s hr hs hne => by
      rw [hloc r hr, hloc s hs]
      exact h.regions_apart r s hr hs hne
    region_inode := fun r hr => hloc r hr ▸ h.region_inode r hr
    region_indirect := fun hlong r hr => hloc r hr ▸ h.region_indirect hlong r hr
    region_group := fun r hr => hloc r hr ▸ h.region_group r hr
    free_ne := fun g k hf => h.free_ne g k (hfree hf)
    free_inode := fun g k hf => h.free_inode g k (hfree hf)
    free_region := fun g k hf r hr => hloc r hr ▸ h.free_region g k (hfree hf) r hr
    free_group := fun g k hf => h.free_group g k (hfree hf) }, hloc⟩

/-- A change that keeps the dinode, the indirect block in use and the
group headers, and frees nothing. -/
lemma Sound.frame (hhead : ∀ g o, cgOffset v g = some o → Agree m m' o CG_HEADER_SIZE)
    (hmono : ∀ g o, cgOffset v g = some o → ∀ i, o ≤ i → i < o + v.cylinderGroupSize →
      ∀ k, testBit (m' i) k → testBit (m i) k) :
    Sound v dino m' inode off ∧
      ∀ r < regionCount inode, regionOffset v m' inode r = regionOffset v m inode r :=
  h.keep hdinode hind (freeFragment_mono h.geometry h.group_end hhead hmono)

end

/-! ## Writing a region -/

variable {a b n : Nat}

lemma window_eq_of_agree (h : ∀ i < n, m (a + i) = m' (b + i)) : window m a n = window m' b n :=
  blit_congr fun i _ hi => h i (by omega)

lemma agree_blit_of_apart {src : Mem} (h : Apart a n b k) : Agree m (blit m a src n) b k := by
  intro i hi hj
  unfold Apart at h
  rw [blit_out (by omega)]

lemma Sound.write_region (h : Sound v dino (v.bytes d) inode off)
    (hr : r < regionCount inode) (src : Mem) :
    ∃ d', (writeExisting v inode (r * DIR_BLOCK_SIZE) src DIR_BLOCK_SIZE).run d
        = .ok (some (), d') ∧ Sound v dino (v.bytes d') inode off ∧
      region v (v.bytes d') inode r = window src 0 DIR_BLOCK_SIZE ∧
      ∀ s < regionCount inode, s ≠ r →
        region v (v.bytes d') inode s = region v (v.bytes d) inode s := by
  obtain ⟨ha, hfit⟩ := h.regionOffset_eq hr
  obtain ⟨d', hrun, hbytes⟩ := @writeExisting_inside v inode _ _ _ src d (by decide)
    (regionCount_mul_le hr) (h.region_inside r) ha hfit
  have hgroup : ∀ g o, cgOffset v g = some o → ∀ i, o ≤ i → i < o + v.cylinderGroupSize →
      v.bytes d' i = v.bytes d i := fun g o ho i hi hj => by
    rw [hbytes]
    exact (agree_blit_of_apart (h.region_group r hr g o ho) i hi hj).symm
  have hmin := h.probed.groupSize
  have hkept : IndirectKept v (v.bytes d) (v.bytes d') inode := fun hlong k hk => by
    rw [hbytes]
    exact agree_blit_of_apart (h.region_indirect hlong r hr k hk)
  obtain ⟨hsound, hloc⟩ := h.frame
    (by rw [hbytes]; exact agree_blit_of_apart (h.region_inode r hr)) hkept
    (fun g o ho i hi hj => (hgroup g o ho i hi (by omega)).symm)
    (fun g o ho i hi hj k hk => by rwa [hgroup g o ho i hi hj] at hk)
  refine ⟨d', hrun, hsound, ?_, fun s hs hne => ?_⟩
  · rw [region, hloc r hr, hbytes]
    refine window_eq_of_agree fun i hi => ?_
    rw [blit_in (by omega) (by omega)]
    congr 1
    omega
  · rw [region, hloc s hs, region, hbytes]
    refine window_eq_of_agree fun i hi => ?_
    exact (agree_blit_of_apart (h.regions_apart r s hr hs hne.symm) _ (by omega) (by omega)).symm

/-! ## A fresh block -/

lemma Apart.mono {a' n' : Nat} (h : Apart a n b k) (hlo : a ≤ a')
    (hhi : a' + n' ≤ a + n) : Apart a' n' b k := by
  unfold Apart at *
  omega

lemma Apart.symm (h : Apart a n b k) : Apart b k a n := Or.symm h

lemma apart_pieces {s : Nat} (hk : 0 < k) : ∀ n, 0 < n →
    (∀ j < n, Apart (a + j * s) s b k) → Apart a (n * s) b k := by
  intro n
  induction n with
  | zero => exact fun h => absurd h (lt_irrefl 0)
  | succ n ih => ?_
  intro _ h
  have hlast := h n (lt_succ_self n)
  rw [succ_mul]
  rcases Nat.eq_zero_or_pos n with rfl | hn
  · simpa using hlast
  have := ih hn fun j hj => h j (lt_succ_of_lt hj)
  unfold Apart at *
  omega

variable (v) in
/-- Block `f` is in use by nothing on the volume. -/
structure Fresh (m : Mem) (inode : Inode) (off f : Nat) : Prop where
  ne : f ≠ 0
  dinode : Apart (f * v.fragmentSize) v.blockSize off DINODE_SIZE
  region : ∀ r, r < regionCount inode →
    Apart (f * v.fragmentSize) v.blockSize (regionOffset v m inode r) DIR_BLOCK_SIZE
  group : ∀ g o, cgOffset v g = some o →
    Apart (f * v.fragmentSize) v.blockSize o v.cylinderGroupSize
  free : ∀ g k, FreeFragment v m g k → Apart (f * v.fragmentSize) v.blockSize
    ((g * v.fragmentsPerGroup + k) * v.fragmentSize) v.fragmentSize

/-- A directory of at most twelve blocks does not use its indirect block. -/
lemma indirectKept_of_short (h : inode.size / v.blockSize ≤ DIRECT_BLOCKS)
    (hmod : inode.size % v.blockSize = 0) : IndirectKept v m m' inode := by
  intro hlong
  have hdiv := div_add_mod inode.size v.blockSize
  have hmul := Nat.mul_le_mul_left v.blockSize h
  rw [mul_comm v.blockSize DIRECT_BLOCKS] at hmul
  omega

lemma fragment_inj {h l : Nat} (hk : k < n) (hl : l < n) (heq : g * n + k = h * n + l) :
    g = h ∧ k = l := by
  have hn : 0 < n := by omega
  have hdiv := congrArg (· / n) heq
  have hmod := congrArg (· % n) heq
  simp only [mul_comm _ n, mul_add_div hn, mul_add_mod, div_eq_of_lt hk,
    div_eq_of_lt hl, mod_eq_of_lt hk, mod_eq_of_lt hl, add_zero] at hdiv hmod
  exact ⟨hdiv, hmod⟩

variable {f : Nat}

/-- Allocating a block leaves everything in place, and nothing uses the block. -/
lemma Sound.allocate (h : Sound v dino m inode off) (ha : Allocated v m m' f)
    (hkept : IndirectKept v m m' inode) :
    Sound v dino m' inode off ∧ Fresh v m' inode off f ∧
      ∀ r < regionCount inode, region v m' inode r = region v m inode r := by
  obtain ⟨g, bit, mo, n, hmap, -, -, hend, hfree, rfl, hc⟩ := ha
  have hs := h.probed.sizes
  have hgeo := h.geometry
  have hgs := h.probed.groupSize
  have hn := (freeMapAt_le hmap).2
  -- only bytes of the group behind its header change
  obtain ⟨o, ho, -⟩ := mapByte_in_group hgeo h.group_end hmap
    (show bit < n by have := hgeo.pos; omega)
  have hout : ∀ i, ¬ (o + CG_HEADER_SIZE ≤ i ∧ i < o + v.cylinderGroupSize) → m' i = m i := by
    refine fun i hi => hc.frame i fun j hj heq => hi ?_
    obtain ⟨p, hp, hlo, hhi⟩ := mapByte_in_group hgeo h.group_end hmap (show bit + j < n by omega)
    rw [ho] at hp
    cases hp
    rw [heq]
    exact ⟨hlo, hhi⟩
  have hagree : ∀ {b k}, Apart b k o v.cylinderGroupSize → Agree m m' b k := fun hap i hi hj => by
    unfold Apart at hap
    exact (hout i (by omega)).symm
  have hhead : ∀ g o, cgOffset v g = some o → Agree m m' o CG_HEADER_SIZE := by
    intro g' o' ho'
    by_cases hg : g' = g
    · subst hg
      rw [ho] at ho'
      cases ho'
      exact fun i _ hj => (hout i (by omega)).symm
    · exact hagree ((h.groups_apart _ _ _ _ hg ho' ho).mono le_rfl (by omega))
  obtain ⟨hsound, hloc⟩ := h.frame (hagree (h.inode_group g o ho)) hkept hhead
    fun _ _ _ i _ _ k => hc.mono i k
  have hfrag : ∀ j < v.fragmentsPerBlock, FreeFragment v m g (bit + j) := fun j hj =>
    ⟨mo, n, hmap, by omega, hfree j hj⟩
  have hpiece : ∀ {b k}, 0 < k → (∀ g k', FreeFragment v m g k' →
      Apart ((g * v.fragmentsPerGroup + k') * v.fragmentSize) v.fragmentSize b k) →
      Apart ((g * v.fragmentsPerGroup + bit) * v.fragmentSize) v.blockSize b k := fun hk hall => by
    rw [hs.block]
    refine apart_pieces hk _ hgeo.pos fun j hj => ?_
    rw [← add_mul, add_assoc]
    exact hall g _ (hfrag j hj)
  refine ⟨hsound, ⟨?_, ?_, fun r hr => ?_, fun g' o' ho' => ?_, fun g' k hf' => ?_⟩, fun r hr => ?_⟩
  · exact h.free_ne g bit (hfrag 0 hgeo.pos)
  · exact hpiece (by decide) h.free_inode
  · rw [hloc r hr]
    exact hpiece (by decide) fun g k hf => h.free_region g k hf r hr
  · exact hpiece (lt_of_lt_of_le (by decide) hgs) fun g k hf => h.free_group g k hf g' o' ho'
  · -- a fragment that is still free is none of the block's
    obtain ⟨mo', n', hmap', hk, -, hbit⟩ := hf'
    have hk' := (freeMapAt_le hmap').2
    have hne : ∀ j < v.fragmentsPerBlock,
        g' * v.fragmentsPerGroup + k ≠ g * v.fragmentsPerGroup + (bit + j) := by
      intro j hj heq
      obtain ⟨rfl, rfl⟩ := fragment_inj (by omega) (by omega) heq
      rw [freeMapAt_congr (hhead g'), hmap] at hmap'
      cases hmap'
      rw [hc.clear j hj] at hbit
      cases hbit
    have hcases : g' * v.fragmentsPerGroup + k + 1 ≤ g * v.fragmentsPerGroup + bit ∨
        g * v.fragmentsPerGroup + bit + v.fragmentsPerBlock ≤ g' * v.fragmentsPerGroup + k := by
      by_contra hmid
      exact hne (g' * v.fragmentsPerGroup + k - (g * v.fragmentsPerGroup + bit)) (by omega)
        (by omega)
    unfold Apart
    rw [hs.block, ← Nat.add_mul, ← succ_mul]
    exact (hcases.imp (Nat.mul_le_mul_right _) (Nat.mul_le_mul_right _)).symm
  · rw [region, hloc r hr]
    exact window_eq_of_agree fun i hi =>
      (hagree (h.region_group r hr g o ho) _ (Nat.le_add_right _ _) (by omega)).symm

lemma Sound.fill (h : Sound v dino m inode off) (hf : Fresh v m inode off f)
    (hkept : IndirectKept v m m' inode)
    (hout : ∀ i, i < f * v.fragmentSize ∨ f * v.fragmentSize + v.blockSize ≤ i → m' i = m i) :
    Sound v dino m' inode off ∧ Fresh v m' inode off f ∧
      ∀ r < regionCount inode, region v m' inode r = region v m inode r := by
  have hagree : ∀ {b k}, Apart (f * v.fragmentSize) v.blockSize b k → Agree m m' b k :=
    fun hap i hi hj => by
      unfold Apart at hap
      exact (hout i (by omega)).symm
  have hgs := h.probed.groupSize
  have hhead : ∀ g o, cgOffset v g = some o → Agree m m' o CG_HEADER_SIZE := fun g o ho =>
    (hagree (hf.group g o ho)).mono le_rfl (by omega)
  have hmono : ∀ g o, cgOffset v g = some o → ∀ i, o ≤ i → i < o + v.cylinderGroupSize →
      ∀ k, testBit (m' i) k → testBit (m i) k := fun g o ho i hi hj k hk => by
    rwa [hagree (hf.group g o ho) i hi hj]
  obtain ⟨hsound, hloc⟩ := h.frame (hagree hf.dinode) hkept hhead hmono
  refine ⟨hsound, { hf with
    region := fun r hr => hloc r hr ▸ hf.region r hr
    free := fun g k hfree =>
      hf.free g k (freeFragment_mono h.geometry h.group_end hhead hmono hfree) }, fun r hr => ?_⟩
  rw [region, hloc r hr]
  exact window_eq_of_agree fun i hi =>
    (hagree (hf.region r hr) _ (Nat.le_add_right _ _) (by omega)).symm

/-! ## A longer directory -/

lemma byteAt_direct {i : Nat} (hb : i / v.blockSize = b) (h12 : b < DIRECT_BLOCKS) :
    byteAt v m inode i = if inode.direct b = 0 ∨ U64MAX / v.fragmentSize < inode.direct b then none
      else some ((inode.direct b * v.fragmentSize + i % v.blockSize) % 2 ^ 64) := by
  unfold byteAt addressAt
  have h32 : b % 2 ^ 32 = b := mod_eq_of_lt (by unfold DIRECT_BLOCKS at h12; omega)
  rw [hb, h32, if_pos h12]
  by_cases h0 : inode.direct b = 0
  · rw [if_pos h0, if_pos (.inl h0)]
    rfl
  rw [if_neg h0]
  exact if_congr (by simp [h0]) rfl rfl

/-- The inode a growth step writes back, as it is read again. -/
structure Extends (v : Volume) (inode inode' : Inode) (f : Nat) : Prop where
  mode : inode'.mode = inode.mode
  size : inode'.size = inode.size + v.blockSize
  old : ∀ b, b < inode.size / v.blockSize → inode'.direct b = inode.direct b
  new : inode'.direct (inode.size / v.blockSize) = f

/-- The parts of a directory that has grown by the fresh block `f`. -/
structure Grown (v : Volume) (m m' : Mem) (inode inode' : Inode) (f : Nat) : Prop where
  count : regionCount inode' = regionCount inode + v.blockSize / DIR_BLOCK_SIZE
  old : ∀ r, r < regionCount inode → byteAt v m' inode' (r * DIR_BLOCK_SIZE)
    = byteAt v m inode (r * DIR_BLOCK_SIZE)
  new : ∀ k, k < v.blockSize / DIR_BLOCK_SIZE →
    byteAt v m' inode' ((regionCount inode + k) * DIR_BLOCK_SIZE)
      = some (f * v.fragmentSize + k * DIR_BLOCK_SIZE)

variable {inode' : Inode}

lemma Extends.grown (he : Extends v inode inode' f)
    (hs : v.Sizes) (hmod : inode.size % v.blockSize = 0)
    (h12 : inode.size / v.blockSize < DIRECT_BLOCKS) (hne : f ≠ 0)
    (hfits : v.device.Fits (f * v.fragmentSize) v.blockSize) : Grown v m m' inode inode' f := by
  have hreg := hs.region
  have hpos := hs.blockPos
  have hdm := div_add_mod inode.size v.blockSize
  obtain ⟨q, hq⟩ := dvd_of_mod_eq_zero hreg
  have hsize : inode.size = v.blockSize * (inode.size / v.blockSize) := by omega
  have hcount : regionCount inode * DIR_BLOCK_SIZE = inode.size := by
    refine Nat.div_mul_cancel ?_
    rw [hsize]
    exact (dvd_of_mod_eq_zero hreg).trans (Nat.dvd_mul_right _ _)
  have hle := hfits.le_size
  have hmax := size_le (not_refuses_iff.mp hfits.1).1
  refine ⟨?_, fun r hr => ?_, fun k hk => ?_⟩
  · unfold regionCount
    rw [he.size, hq, add_mul_div_left _ _ (by decide), Nat.mul_div_cancel_left _ (by decide)]
  · have hb : r * DIR_BLOCK_SIZE / v.blockSize < inode.size / v.blockSize := by
      rw [Nat.div_lt_iff_lt_mul hpos, mul_comm _ v.blockSize, ← hsize]
      unfold DIR_BLOCK_SIZE at *
      omega
    rw [byteAt_direct rfl (hb.trans h12), byteAt_direct rfl (hb.trans h12), he.old _ hb]
  have hk' : k * DIR_BLOCK_SIZE < v.blockSize := by
    rw [hq, Nat.mul_div_cancel_left _ (by decide)] at hk
    rw [hq, mul_comm]
    exact Nat.mul_lt_mul_of_pos_left hk (by decide)
  have heq : (regionCount inode + k) * DIR_BLOCK_SIZE
      = v.blockSize * (inode.size / v.blockSize) + k * DIR_BLOCK_SIZE := by
    rw [add_mul, hcount, ← hsize]
  have hdiv : (regionCount inode + k) * DIR_BLOCK_SIZE / v.blockSize
      = inode.size / v.blockSize := by
    rw [heq, mul_add_div hpos, div_eq_of_lt hk', add_zero]
  have hfrag : ¬ U64MAX / v.fragmentSize < f :=
    not_lt.mpr ((Nat.le_div_iff_mul_le hs.pos).mpr (by omega))
  rw [byteAt_direct hdiv h12, he.new, if_neg (not_or.mpr ⟨hne, hfrag⟩), heq, mul_add_mod,
    mod_eq_of_lt hk', mod_eq_of_lt (by unfold U64MAX at hmax; omega)]

lemma Grown.cases (hg : Grown v m m' inode inode' f) (hr : r < regionCount inode') :
    (r < regionCount inode ∧ regionOffset v m' inode' r = regionOffset v m inode r) ∨
    ∃ k, r = regionCount inode + k ∧ k * DIR_BLOCK_SIZE + DIR_BLOCK_SIZE ≤ v.blockSize ∧
      byteAt v m' inode' (r * DIR_BLOCK_SIZE) = some (f * v.fragmentSize + k * DIR_BLOCK_SIZE) ∧
      regionOffset v m' inode' r = f * v.fragmentSize + k * DIR_BLOCK_SIZE := by
  rcases lt_or_ge r (regionCount inode) with hlt | hge
  · exact .inl ⟨hlt, by rw [regionOffset, hg.old r hlt, regionOffset]⟩
  rw [hg.count] at hr
  obtain ⟨k, rfl⟩ := Nat.exists_eq_add_of_le hge
  have hnew := hg.new k (by omega)
  refine .inr ⟨k, rfl, ?_, hnew, by rw [regionOffset, hnew]; rfl⟩
  unfold DIR_BLOCK_SIZE at *
  omega

/-- What is apart from the old regions and the new block is apart from all
regions of the longer directory. -/
lemma Grown.apart (hg : Grown v m m' inode inode' f) (hold : ∀ r < regionCount inode,
      Apart (regionOffset v m inode r) DIR_BLOCK_SIZE b n)
    (hnew : Apart (f * v.fragmentSize) v.blockSize b n) (hr : r < regionCount inode') :
    Apart (regionOffset v m' inode' r) DIR_BLOCK_SIZE b n := by
  rcases hg.cases hr with ⟨hlt, heq⟩ | ⟨k, -, hk, -, heq⟩
  · exact heq ▸ hold r hlt
  · exact heq ▸ hnew.mono (Nat.le_add_right _ _) (by omega)

lemma Grown.regions_apart (hg : Grown v m m' inode inode' f)
    (h : Sound v dino m inode off) (hf : Fresh v m inode off f) {s : Nat}
    (hr : r < regionCount inode') (hs : s < regionCount inode') (hne : r ≠ s) :
    Apart (regionOffset v m' inode' r) DIR_BLOCK_SIZE
      (regionOffset v m' inode' s) DIR_BLOCK_SIZE := by
  rcases hg.cases hr with ⟨hrlt, hreq⟩ | ⟨k, rfl, hk, -, hreq⟩
  · rcases hg.cases hs with ⟨hslt, hseq⟩ | ⟨l, rfl, hl, -, hseq⟩
    · rw [hreq, hseq]
      exact h.regions_apart r s hrlt hslt hne
    rw [hreq, hseq]
    exact ((hf.region r hrlt).mono (Nat.le_add_right _ _) (by omega)).symm
  rcases hg.cases hs with ⟨hslt, hseq⟩ | ⟨l, rfl, hl, -, hseq⟩
  · rw [hreq, hseq]
    exact (hf.region s hslt).mono (Nat.le_add_right _ _) (by omega)
  rw [hreq, hseq]
  unfold Apart DIR_BLOCK_SIZE
  omega

lemma Sound.extend (h : Sound v dino m inode off)
    (hf : Fresh v m inode off f) (he : Extends v inode inode' f)
    (hg : Grown v m m' inode inode' f) (hmod : inode.size % v.blockSize = 0)
    (h12 : inode.size / v.blockSize < DIRECT_BLOCKS)
    (hfits : v.device.Fits (f * v.fragmentSize) v.blockSize)
    (hinode : inodeAt v m' dino = some inode')
    (hout : ∀ i, i < off ∨ off + DINODE_SIZE ≤ i → m' i = m i) :
    Sound v dino m' inode' off := by
  have hgs := h.probed.groupSize
  have hagree : ∀ {b n}, Apart off DINODE_SIZE b n → Agree m m' b n := fun hap i hi hj => by
    unfold Apart at hap
    exact (hout i (by omega)).symm
  have hfree : ∀ {g k}, FreeFragment v m' g k → FreeFragment v m g k :=
    freeFragment_mono h.geometry h.group_end
      (fun g o ho => (hagree (h.inode_group g o ho)).mono le_rfl (by omega))
      fun g o ho i hi hj k hk => by rwa [hagree (h.inode_group g o ho) i hi hj]
  have hshort : ¬ DIRECT_BLOCKS * v.blockSize < inode'.size := by
    have hmul := Nat.mul_le_mul_left v.blockSize (succ_le_of_lt h12)
    have hdm := div_add_mod inode.size v.blockSize
    rw [he.size, mul_comm DIRECT_BLOCKS]
    rw [mul_succ] at hmul
    omega
  exact { h with
    inode_eq := hinode
    mode := he.mode ▸ h.mode
    size := by
      have := h.size
      have := h.probed.sizes.region
      rw [he.size]
      unfold DIR_BLOCK_SIZE at *
      omega
    regions := fun r hr => by
      rcases hg.cases hr with ⟨hlt, -⟩ | ⟨k, -, hk, hbyte, -⟩
      · rw [hg.old r hlt]
        exact h.regions r hlt
      · exact ⟨_, hbyte, hfits.mono (Nat.le_add_right _ _) (by omega)⟩
    regions_apart := fun r s hr hs hne => hg.regions_apart h hf hr hs hne
    region_inode := fun r hr => hg.apart h.region_inode hf.dinode hr
    region_indirect := fun hlong => absurd hlong hshort
    region_group := fun r hr g o ho =>
      hg.apart (fun r hr => h.region_group r hr g o ho) (hf.group g o ho) hr
    free_ne := fun g k hk => h.free_ne g k (hfree hk)
    free_inode := fun g k hk => h.free_inode g k (hfree hk)
    free_region := fun g k hk r hr =>
      (hg.apart (fun r hr => (h.free_region g k (hfree hk) r hr).symm) (hf.free g k (hfree hk))
        hr).symm
    free_group := fun g k hk => h.free_group g k (hfree hk) }

/-! ## Growing by a block -/

/-- The regions of a directory, in order. -/
def contents (v : Volume) (m : Mem) (inode : Inode) : List Mem :=
  (List.range (regionCount inode)).map (region v m inode)

lemma contents_length (v : Volume) (m : Mem) (inode : Inode) :
    (contents v m inode).length = regionCount inode := by
  rw [contents, length_map, length_range]

lemma contents_congr (h : ∀ r < regionCount inode, region v m' inode r = region v m inode r) :
    contents v m' inode = contents v m inode :=
  map_congr_left fun r hr => h r (mem_range.mp hr)

lemma inodeAt_eq (hoff : inodeOffset v dino = some off) (hfit : v.device.Fits off DINODE_SIZE)
    (m : Mem) : inodeAt v m dino = some (decodeInode (window m off DINODE_SIZE)) := by
  have hpeek : v.device.peek m off DINODE_SIZE = some (window m off DINODE_SIZE) := if_pos hfit
  rw [inodeAt, hoff, bind_some, hpeek]
  rfl

lemma Sound.inode_bounds (h : Sound v dino m inode off) :
    inode.mode < 2 ^ 16 ∧ inode.size < 2 ^ 64 ∧ ∀ b, inode.direct b < 2 ^ 64 := by
  have heq := h.inode_eq
  rw [inodeAt_eq h.offset h.fits] at heq
  cases heq
  exact ⟨readLe_lt 2 _ _, readLe_lt 8 _ _, fun b => readLe_lt 8 _ _⟩

/-- The inode a growth step writes. -/
def lengthened (v : Volume) (inode : Inode) (f : Nat) : Inode :=
  { inode with
    direct := update inode.direct (inode.size / v.blockSize) f
    size := (inode.size + v.blockSize) % 2 ^ 64 }

lemma Sound.extends_decode (h : Sound v dino m inode off)
    (hsize : inode.size + v.blockSize < 2 ^ 64) (h12 : inode.size / v.blockSize < DIRECT_BLOCKS)
    (hf : f < 2 ^ 64) {raw : Mem}
    (hm' : m' = blit m off (encodeInode raw (lengthened v inode f)) DINODE_SIZE) :
    Extends v inode (decodeInode (window m' off DINODE_SIZE)) f := by
  obtain ⟨hmode, -, hdirect⟩ := h.inode_bounds
  have hread : Agree (encodeInode raw (lengthened v inode f)) (window m' off DINODE_SIZE) 0
      DINODE_SIZE := fun i _ hi => by
    rw [window_apply (by omega), hm', blit_in (by omega) (by omega)]
    congr 1
    omega
  obtain ⟨hm, hs, hd, -⟩ := decode_encode hread
  dsimp only [lengthened] at hm hs hd
  refine ⟨?_, ?_, fun b hb => ?_, ?_⟩
  · rw [hm, mod_eq_of_lt hmode]
  · rw [hs, mod_mod, mod_eq_of_lt hsize]
  · rw [hd b (hb.trans h12), update_of_ne hb.ne, mod_eq_of_lt (hdirect b)]
  · rw [hd _ h12, update_self, mod_eq_of_lt hf]

lemma freeRegion_zero {i : Nat} (h : DIR_BLOCK_SIZE ≤ i) : freeRegion i = 0 :=
  writeLe_out (by unfold DIR_BLOCK_SIZE at h; omega)

lemma Grown.contents_eq (hg : Grown v m m' inode inode' f)
    (hold : ∀ r < regionCount inode, ∀ i, regionOffset v m inode r ≤ i →
      i < regionOffset v m inode r + DIR_BLOCK_SIZE → m' i = m i)
    (hnew : ∀ i < v.blockSize, m' (f * v.fragmentSize + i) = freeRegion (i % BSIZE)) :
    contents v m' inode'
      = contents v m inode ++ List.replicate (v.blockSize / DIR_BLOCK_SIZE) freeRegion := by
  refine ext_getElem ?_ fun r hr _ => ?_
  · rw [length_append, length_replicate, contents_length, contents_length, hg.count]
  rw [contents_length] at hr
  rcases hg.cases hr with ⟨hlt, heq⟩ | ⟨k, rfl, hk, -, heq⟩
  · rw [getElem_append_left (by rwa [contents_length])]
    simp only [contents, getElem_map, getElem_range]
    rw [region, heq]
    exact window_eq_of_agree fun i hi => hold r hlt _ (Nat.le_add_right _ _) (by omega)
  rw [getElem_append_right (by rw [contents_length]; omega), getElem_replicate]
  simp only [contents, getElem_map, getElem_range]
  rw [region, heq]
  funext i
  by_cases hi : i < DIR_BLOCK_SIZE
  · rw [window_apply hi, add_assoc, hnew _ (by omega)]
    congr 1
    unfold DIR_BLOCK_SIZE at *
    unfold BSIZE
    omega
  · rw [window, blit_out (by omega), freeRegion_zero (by omega)]

lemma Sound.commit_growth (h : Sound v dino (v.bytes d) inode off)
    (hf : Fresh v (v.bytes d) inode off f) (hmod : inode.size % v.blockSize = 0)
    (h12 : inode.size / v.blockSize < DIRECT_BLOCKS)
    (hfits : v.device.Fits (f * v.fragmentSize) v.blockSize)
    (hnew : ∀ i < v.blockSize, v.bytes d (f * v.fragmentSize + i) = freeRegion (i % BSIZE)) :
    ∃ d' inode', (writeInode v dino (lengthened v inode f)).run d = .ok (some (), d') ∧
      Sound v dino (v.bytes d') inode' off ∧ contents v (v.bytes d') inode'
        = contents v (v.bytes d) inode
          ++ List.replicate (v.blockSize / DIR_BLOCK_SIZE) freeRegion := by
  have hs := h.probed.sizes
  obtain ⟨d', hrun, hbytes⟩ := writeInode_run h.offset h.fits (lengthened v inode f) d
  have hfsize := hfits.le_size
  have hmax := size_le (not_refuses_iff.mp hfits.1).1
  have hf64 : f < 2 ^ 64 := by
    have := Nat.le_mul_of_pos_right f hs.pos
    unfold U64MAX at hmax
    omega
  have hsize : inode.size + v.blockSize < 2 ^ 64 := by
    have hmul := Nat.mul_le_mul_left v.blockSize (Nat.le_of_lt h12)
    have hdm := div_add_mod inode.size v.blockSize
    have := hs.blockMax
    unfold DIRECT_BLOCKS at hmul
    omega
  have hout : ∀ i, i < off ∨ off + DINODE_SIZE ≤ i → v.bytes d' i = v.bytes d i := fun i hi => by
    rw [hbytes, blit_out hi]
  have he := h.extends_decode hsize h12 hf64 hbytes
  have hg : Grown v (v.bytes d) (v.bytes d') inode _ f := he.grown hs hmod h12 hf.ne hfits
  refine ⟨d', _, hrun, h.extend hf he hg hmod h12 hfits (inodeAt_eq h.offset h.fits _) hout,
    hg.contents_eq (fun r hr i hi hj => hout i ?_) fun i hi => ?_⟩
  · have := h.region_inode r hr
    unfold Apart at this
    omega
  · rw [hout _ (by have := hf.dinode; unfold Apart at this; omega)]
    exact hnew i hi

lemma Sound.grow (h : Sound v dino (v.bytes d) inode off) :
    (∃ d', (growDirectory v dino inode).run d = .ok (none, d') ∧
      Sound v dino (v.bytes d') inode off ∧
      contents v (v.bytes d') inode = contents v (v.bytes d) inode) ∨
    ∃ d' inode', (growDirectory v dino inode).run d = .ok (some (), d') ∧
      Sound v dino (v.bytes d') inode' off ∧ contents v (v.bytes d') inode'
        = contents v (v.bytes d) inode
          ++ List.replicate (v.blockSize / DIR_BLOCK_SIZE) freeRegion := by
  have hs := h.probed.sizes
  unfold growDirectory
  split
  · exact .inl ⟨d, rfl, h, rfl⟩
  next hcond =>
  obtain ⟨hmod, h12⟩ := not_or.mp hcond
  have hmod : inode.size % v.blockSize = 0 := not_not.mp hmod
  have h12 : inode.size / v.blockSize < DIRECT_BLOCKS := not_le.mp h12
  have hkept : ∀ {m m'}, IndirectKept v m m' inode :=
    indirectKept_of_short (le_of_lt h12) hmod
  rcases allocBlock_run h.geometry d with hnone | ⟨f, d1, hrun1, halloc⟩
  · exact .inl ⟨d, Prog.run_andThen_none hnone, h, rfl⟩
  rw [run_andThen_some hrun1]
  obtain ⟨h1, hf1, hc1⟩ := h.allocate halloc hkept
  have hc1 := contents_congr hc1
  unfold zeroBlock
  split
  · exact .inl ⟨d1, rfl, h1, hc1⟩
  next hbig =>
  have hbs : v.blockSize % BSIZE = 0 := hs.region
  have hstart : f * v.fragmentSize + 0 ≤ U64MAX :=
    (Nat.le_div_iff_mul_le hs.pos).mp (not_lt.mp hbig)
  have hpos := hs.blockPos
  -- both passes over the block stay inside it
  rcases fillBlock_run hbs v.blockSize 0 d1 (zero_mod _) (Nat.zero_le _) hstart
      (Nat.le_add_left _ _) with ⟨d2, hrun2, -, hout2, -⟩ | ⟨d2, hrun2, hout2⟩
  · obtain ⟨h2, hf2, hc2⟩ := h1.fill hf1 hkept hout2
    have hc2 := (contents_congr hc2).trans hc1
    rw [Prog.run_andThen_some hrun2]
    rcases fillBlock_run hbs v.blockSize 0 d2 (zero_mod _) (Nat.zero_le _) hstart
        (Nat.le_add_left _ _) with ⟨d3, hrun3, hfits, hout3, hin3⟩ | ⟨d3, hrun3, hout3⟩
    · obtain ⟨h3, hf3, hc3⟩ := h2.fill hf2 hkept hout3
      have hc3 := (contents_congr hc3).trans hc2
      rw [run_andThen_some hrun3]
      obtain ⟨d4, inode', hrun4, h4, hc4⟩ := h3.commit_growth hf3 hmod h12 (hfits hpos)
        fun i hi => hin3 i (Nat.zero_le _) hi
      exact .inr ⟨d4, inode', hrun4, h4, hc3 ▸ hc4⟩
    · obtain ⟨h3, -, hc3⟩ := h2.fill hf2 hkept hout3
      exact .inl ⟨d3, Prog.run_andThen_none hrun3, h3, (contents_congr hc3).trans hc2⟩
  · obtain ⟨h2, -, hc2⟩ := h1.fill hf1 hkept hout2
    exact .inl ⟨d2, Prog.run_andThen_none hrun2, h2, (contents_congr hc2).trans hc1⟩

end Proninx.Ufs2
