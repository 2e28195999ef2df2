import Proninx.Kern.Ufs2Frame

/-!
# The inode allocator

`ufs2_alloc_inode` and `ufs2_free_inode` as operations on the set of used
inode numbers and on the dinodes. Both maps of a group and its header lie
in the area of the group; that the two maps do not overlap is a property
of the volume (`MapsApart`).
-/

namespace Proninx.Ufs2

open Blockdev ByteMem Nat Option Prog

variable (v : Volume)

def inodeMapAt (m : Mem) (group : Nat) : Option Nat :=
  (headerAt v m group).bind fun (offset, header) =>
    let iusedoff := readLe 4 header 92
    if iusedoff < CG_HEADER_SIZE ∨ v.cylinderGroupSize < iusedoff ∨
        v.cylinderGroupSize - iusedoff < (v.inodesPerGroup + 7) % 2 ^ 32 / 8 then none
    else if U64MAX - iusedoff < offset then none
    else some (offset + iusedoff)

lemma cgInodeMap_run (group : Nat) (d : Disk) :
    (cgInodeMap v group).run d = .ok (inodeMapAt v (v.bytes d) group, d) := by
  refine run_andThen_reads (cgHeader_run v group d) fun h _ => ?_
  dsimp only
  split
  · rfl
  · split <;> rfl

/-- Counts and numbers of inodes do not wrap. -/
structure Numbers : Prop where
  small : v.inodesPerGroup + 8 ≤ 2 ^ 32
  total : v.cylinderGroups * v.inodesPerGroup ≤ 2 ^ 32

/-- The byte of the inode map that holds number `n`, when the map starts
at `io`. -/
def inodeByte (io n : Nat) : Nat := mapByte io (n % v.inodesPerGroup)

/-- Number `n` has the value `used` in the inode map of its group. -/
def Marked (m : Mem) (n : Nat) (used : Bool) : Prop :=
  ∃ io, inodeMapAt v m (n / v.inodesPerGroup) = some io ∧ v.device.Fits (inodeByte v io n) 1 ∧
    testBit (m (inodeByte v io n)) (n % v.inodesPerGroup % 8) = used

variable {v} {m m' : Mem} {g : Nat}

lemma inodeMapAt_congr (h : ∀ o, cgOffset v g = some o → Agree m m' o CG_HEADER_SIZE) :
    inodeMapAt v m' g = inodeMapAt v m g := by
  unfold inodeMapAt
  rw [headerAt_congr h]

lemma inodeMapAt_of_header (h : headerAt v m' g = headerAt v m g) :
    inodeMapAt v m' g = inodeMapAt v m g := by
  rw [inodeMapAt, h, inodeMapAt]

variable {io : Nat}

lemma inodeMapAt_inside (hn : Numbers v) (h : inodeMapAt v m g = some io) :
    ∃ o, cgOffset v g = some o ∧ o + CG_HEADER_SIZE ≤ io ∧
      io + (v.inodesPerGroup + 7) / 8 ≤ o + v.cylinderGroupSize := by
  have hsmall := hn.small
  obtain ⟨⟨offset, header⟩, hhead, h⟩ := bind_eq_some_iff.mp h
  obtain ⟨o, ho, hpeek⟩ := bind_eq_some_iff.mp hhead
  obtain ⟨raw, -, hraw⟩ := bind_eq_some_iff.mp hpeek
  dsimp only at h
  split at hraw
  · cases hraw
  cases hraw
  split at h
  · cases h
  split at h
  · cases h
  cases h
  rw [mod_eq_of_lt (by omega)] at *
  exact ⟨_, ho, by omega, by omega⟩

variable {n : Nat}

lemma inodeByte_eq (hs : Separate v) (hp : v.Probed) (hn : Numbers v)
    (h : inodeMapAt v m (n / v.inodesPerGroup) = some io) :
    inodeByte v io n = io + n % v.inodesPerGroup / 8 ∧
      n % v.inodesPerGroup / 8 < (v.inodesPerGroup + 7) / 8 ∧ InGroups v (inodeByte v io n) := by
  obtain ⟨o, ho, hlo, hhi⟩ := inodeMapAt_inside hn h
  have hend := hs.ends _ _ ho
  have hlt := mod_lt n (Nat.pos_of_ne_zero hp.inodesPerGroup)
  have hbyte : inodeByte v io n = io + n % v.inodesPerGroup / 8 :=
    mod_eq_of_lt (by unfold U64MAX at hend; omega)
  exact ⟨hbyte, by omega, _, o, ho, by omega, by omega⟩

variable (v) in
/-- The two maps of a group do not overlap. -/
def MapsApart (m : Mem) : Prop :=
  ∀ g mo entries io, freeMapAt v m g = some (mo, entries) → inodeMapAt v m g = some io →
    Apart mo ((entries + 7) / 8) io ((v.inodesPerGroup + 7) / 8)

lemma MapsApart.congr (h : MapsApart v m) (hfree : ∀ g, freeMapAt v m' g = freeMapAt v m g)
    (hinode : ∀ g, inodeMapAt v m' g = inodeMapAt v m g) : MapsApart v m' :=
  fun g mo entries io hf hi => h g mo entries io (hfree g ▸ hf) (hinode g ▸ hi)

lemma agree_header (hp : v.Probed) (hkeep : ∀ i, InGroups v i → m' i = m i) (g o : Nat)
    (ho : cgOffset v g = some o) : Agree m m' o CG_HEADER_SIZE := by
  have hgs := hp.groupSize
  exact fun i hi hj => (hkeep i ⟨g, o, ho, hi, by omega⟩).symm

lemma MapsApart.outside (h : MapsApart v m) (hp : v.Probed)
    (hkeep : ∀ i, InGroups v i → m' i = m i) : MapsApart v m' := by
  have hhead := agree_header hp hkeep
  exact h.congr (fun g => freeMapAt_congr (hhead g)) fun g => inodeMapAt_congr (hhead g)

lemma MapsApart.headers (h : MapsApart v m) (hhead : ∀ g, headerAt v m' g = headerAt v m g) :
    MapsApart v m' :=
  h.congr (fun g => freeMapAt_of_header (hhead g)) fun g => inodeMapAt_of_header (hhead g)

lemma Marked.unique {a b : Bool} (ha : Marked v m n a) (hb : Marked v m n b) : a = b := by
  obtain ⟨io, hio, -, hbit⟩ := ha
  obtain ⟨io', hio', -, hbit'⟩ := hb
  rw [hio] at hio'
  cases hio'
  exact hbit.symm.trans hbit'

/-! ## What a change of bits does -/

/-- The mark of `n` was written, and maybe its dinode: maps stay where they
are, no fragment is freed or taken, and the mark of no other number
changes. -/
structure Remarked (v : Volume) (m m' : Mem) (n : Nat) (used : Bool) : Prop where
  freeMap : ∀ g, freeMapAt v m' g = freeMapAt v m g
  inodeMap : ∀ g, inodeMapAt v m' g = inodeMapAt v m g
  free : MapsApart v m → ∀ k, FreeAt v m' k ↔ FreeAt v m k
  others : ∀ k u, k ≠ n → (Marked v m' k u ↔ Marked v m k u)
  mark : Marked v m' n used
  out : ∀ i, ¬ InSlot v n i → ¬ InGroups v i → m' i = m i

section

variable (hs : Separate v) (hp : v.Probed) (hn : Numbers v)
include hs hp hn

lemma Written.remarked {used : Bool} (hfit : v.device.Fits (inodeByte v io n) 1)
    (hmap : inodeMapAt v m (n / v.inodesPerGroup) = some io)
    (hw : Written m m' io (n % v.inodesPerGroup) 1 used) : Remarked v m m' n used := by
  have hgeo := hs.geometry hp
  obtain ⟨o, ho, hlo, hhi⟩ := inodeMapAt_inside hn hmap
  obtain ⟨hbyte, hlt, hin⟩ := inodeByte_eq hs hp hn hmap
  have hframe : ∀ {i}, i ≠ inodeByte v io n → m' i = m i := fun hi =>
    hw.frame fun j hj => by
      obtain rfl : j = 0 := by omega
      exact hi
  have hhead : ∀ g p, cgOffset v g = some p → Agree m m' p CG_HEADER_SIZE := by
    refine fun g p hpo i hi hj => (hframe fun heq => ?_).symm
    by_cases hg : g = n / v.inodesPerGroup
    · rw [hg, ho] at hpo
      cases hpo
      omega
    have := hs.groups_apart hg hpo ho
    unfold Apart at this
    omega
  have hfree : ∀ g, freeMapAt v m' g = freeMapAt v m g := fun g => freeMapAt_congr (hhead g)
  have hinode : ∀ g, inodeMapAt v m' g = inodeMapAt v m g := fun g => inodeMapAt_congr (hhead g)
  refine ⟨hfree, hinode, fun hap k => ?_, fun k u hk => ?_,
    ⟨io, (hinode _).trans hmap, hfit, hw.value 0 (by omega)⟩,
    fun i _ hi => hframe fun heq => hi (heq ▸ hin)⟩
  · -- the free maps are elsewhere
    unfold FreeAt FreeFragment
    rw [hfree]
    refine exists_congr fun mo => exists_congr fun entries => and_congr_right fun hat =>
      and_congr_right fun hkn => and_congr_right fun _ => ?_
    rw [hframe fun heq => ?_]
    obtain ⟨p, hpo, hplo, hphi⟩ := mapByte_in_group hgeo hs.ends hat hkn
    by_cases hg : k / v.fragmentsPerGroup = n / v.inodesPerGroup
    · rw [hg] at hat
      have hapart := hap _ _ _ _ hat hmap
      rw [mapByte_eq hgeo hs.ends hat hkn] at heq
      unfold Apart at hapart
      omega
    · have := hs.groups_apart hg hpo ho
      unfold Apart at this
      omega
  unfold Marked
  rw [hinode]
  refine exists_congr fun io' => and_congr_right fun hat => and_congr_right fun _ => ?_
  obtain ⟨o', ho', hlo', hhi'⟩ := inodeMapAt_inside hn hat
  obtain ⟨hbyte', hlt', -⟩ := inodeByte_eq hs hp hn hat
  rw [hw.keep _ _ (mod_lt _ (by decide)) fun j hj heq => ?_]
  obtain rfl : j = 0 := by omega
  obtain ⟨heq, hbit⟩ := heq
  change _ = inodeByte v io n at heq
  by_cases hg : k / v.inodesPerGroup = n / v.inodesPerGroup
  · -- one byte and one bit of one map: one number
    rw [hg, hmap] at hat
    cases hat
    have hdk := div_add_mod k v.inodesPerGroup
    have hdn := div_add_mod n v.inodesPerGroup
    rw [hg] at hdk
    refine hk ?_
    omega
  · have := hs.groups_apart hg ho' ho
    unfold Apart at this
    omega

lemma marked_congr (h : ∀ i, InGroups v i → m' i = m i) (n : Nat) (used : Bool) :
    Marked v m' n used ↔ Marked v m n used := by
  have hgs := hp.groupSize
  unfold Marked
  rw [inodeMapAt_congr fun o ho i hi hj => (h i ⟨_, o, ho, hi, by omega⟩).symm]
  refine exists_congr fun io => and_congr_right fun hat => and_congr_right fun _ => ?_
  rw [h _ (inodeByte_eq hs hp hn hat).2.2]

lemma Written.marked {mo entries bit : Nat} {free : Bool}
    (hmap : freeMapAt v m g = some (mo, entries)) (hend : bit + n ≤ entries)
    (hw : Written m m' mo bit n free) (hap : MapsApart v m) (k : Nat) (u : Bool) :
    Marked v m' k u ↔ Marked v m k u := by
  have hgeo := hs.geometry hp
  have hhead := (hw.fragments hs hp hmap hend).1
  unfold Marked
  rw [inodeMapAt_of_header (hhead _)]
  refine exists_congr fun io => and_congr_right fun hio => and_congr_right fun _ => ?_
  rw [hw.frame fun j hj heq => ?_]
  obtain ⟨hbyte, hlt, -⟩ := inodeByte_eq hs hp hn hio
  obtain ⟨o, ho, hlo, hhi⟩ := inodeMapAt_inside hn hio
  have hj : bit + j < entries := by omega
  obtain ⟨p, hpo, hplo, hphi⟩ := mapByte_in_group hgeo hs.ends hmap hj
  by_cases hg : g = k / v.inodesPerGroup
  · subst hg
    have hapart := hap _ _ _ _ hmap hio
    rw [mapByte_eq hgeo hs.ends hmap hj] at heq
    unfold Apart at hapart
    omega
  · have := hs.groups_apart hg hpo ho
    unfold Apart at this
    omega

end

lemma written_one (m : Mem) (io bit : Nat) (used : Bool) :
    Written m (poke m (mapByte io bit) (putBit used (m (mapByte io bit)) (bit % 8))) io bit 1
      used :=
  (Written.refl m io bit used).poke

/-! ## `ufs2_free_inode` -/

/-- The dinode is cleared and the number is marked free. -/
structure FreedInode (v : Volume) (m m' : Mem) (n : Nat) : Prop where
  root : ROOT_INO ≤ n
  marked : Marked v m n true
  bytes : ∃ off io, inodeOffset v n = some off ∧ v.device.Fits off DINODE_SIZE ∧
    inodeMapAt v m (n / v.inodesPerGroup) = some io ∧ v.device.Fits (inodeByte v io n) 1 ∧
    Written (blit m off (fun _ => 0) DINODE_SIZE) m' io (n % v.inodesPerGroup) 1 false

lemma peek_byte {p : Nat} (h : ¬ v.device.Fits p 1) (d : Disk) :
    (v.device.read p 1).run d = .ok (none, d) := by
  have hpeek : v.device.peek (v.bytes d) p 1 = none := if_neg h
  exact hpeek ▸ read_run v.device p 1 d

lemma freeInode_spec (hslot : ∀ i, InSlot v n i → ¬ InGroups v i) (hs : Separate v)
    (hp : v.Probed) (hn : Numbers v) (d : Disk) :
    (freeInode v n).Ensures d fun r d' =>
      (r = none → ∀ i, ¬ InSlot v n i → v.bytes d' i = v.bytes d i) ∧
      (r = some () → FreedInode v (v.bytes d) (v.bytes d') n) ∧
      (ROOT_INO ≤ n → Marked v (v.bytes d) n true →
        (∃ off, inodeOffset v n = some off ∧ v.device.Fits off DINODE_SIZE) → r = some ()) := by
  have hipg := hp.inodesPerGroup
  unfold freeInode
  split
  · exact .pure ⟨fun _ _ _ => rfl, nofun, fun hroot => by omega⟩
  have hroot : ROOT_INO ≤ n := by omega
  cases hoff : inodeOffset v n with
  | none => exact .pure ⟨fun _ _ _ => rfl, nofun, fun _ _ ⟨_, h, _⟩ => nomatch h⟩
  | some off => ?_
  cases hio : inodeMapAt v (v.bytes d) (n / v.inodesPerGroup) with
  | none =>
    refine .andThen_none (hio ▸ cgInodeMap_run v _ d) ⟨fun _ _ _ => rfl, nofun, ?_⟩
    rintro - ⟨io, hio', -⟩
    rw [hio] at hio'
    cases hio'
  | some io => ?_
  obtain ⟨-, -, hin⟩ := inodeByte_eq hs hp hn hio
  refine .andThen_some (hio ▸ cgInodeMap_run v _ d) (.step (run_acquire _ d) ?_)
  by_cases hfit : v.device.Fits (inodeByte v io n) 1
  · refine .step (read_byte hfit d) ?_
    dsimp only
    rw [window_apply (by omega), add_zero]
    split
    · next hclear =>
      refine .step (run_release _ _) (.pure ⟨fun _ _ _ => rfl, nofun, ?_⟩)
      rintro - ⟨io', hio', -, hset⟩
      rw [hio] at hio'
      cases hio'
      rw [hset] at hclear
      cases hclear
    by_cases hoffit : v.device.Fits off DINODE_SIZE
    · obtain ⟨d1, hrun1, hbytes1⟩ := write_run hoffit (fun _ => 0) d
      refine .step hrun1 ?_
      obtain ⟨d2, hrun2, hbytes2⟩ := write_byte hfit
        (clearBit (v.bytes d (inodeByte v io n)) (n % v.inodesPerGroup % 8)) d1
      refine .step hrun2 (.step (run_release _ _) (.pure ⟨nofun, fun _ => ?_, fun _ _ _ => rfl⟩))
      -- the byte of the map is not in the dinode
      have hkeep : v.bytes d1 (inodeByte v io n) = v.bytes d (inodeByte v io n) := by
        have hout : ¬ InSlot v n (inodeByte v io n) := fun h => hslot _ h hin
        refine (congrFun hbytes1 _).trans (blit_out ?_)
        by_contra hover
        exact hout ⟨off, hoff, by omega, by omega⟩
      refine ⟨hroot, ⟨io, hio, hfit, ?_⟩, off, io, hoff, hoffit, hio, hfit, ?_⟩
      · simpa using ‹¬ testBit _ _ = false›
      rw [hbytes2, ← hkeep]
      exact hbytes1 ▸ written_one (v.bytes d1) io (n % v.inodesPerGroup) false
    · obtain ⟨d1, hrun1, hbytes1⟩ := write_bad hoffit (fun _ => 0) d
      refine .step hrun1 (.step (run_release _ _) (.pure ⟨fun _ i hi => ?_, nofun, ?_⟩))
      · refine hbytes1 i ?_
        by_contra hover
        exact hi ⟨off, hoff, by omega, by omega⟩
      rintro - - ⟨off', hoff', hoffit'⟩
      cases hoff'
      exact absurd hoffit' hoffit
  · refine .step (peek_byte hfit d) (.step (run_release _ _) (.pure ⟨fun _ _ _ => rfl, nofun, ?_⟩))
    rintro - ⟨io', hio', hfit', -⟩
    rw [hio] at hio'
    cases hio'
    exact absurd hfit' hfit

lemma slot_out {off i : Nat} (hoff : inodeOffset v n = some off) (hi : ¬ InSlot v n i) :
    i < off ∨ off + DINODE_SIZE ≤ i := by
  by_contra hin
  exact hi ⟨off, hoff, by omega, by omega⟩

lemma FreedInode.remarked (hslot : ∀ i, InSlot v n i → ¬ InGroups v i)
    (hs : Separate v) (hp : v.Probed) (hn : Numbers v) (h : FreedInode v m m' n) :
    Remarked v m m' n false := by
  obtain ⟨off, io, hoff, -, hio, hfit, hw⟩ := h.bytes
  have hkeep : ∀ i, ¬ InSlot v n i → blit m off (fun _ => 0) DINODE_SIZE i = m i :=
    fun i hi => blit_out (slot_out hoff hi)
  have hgroups : ∀ i, InGroups v i → blit m off (fun _ => 0) DINODE_SIZE i = m i :=
    fun i hi => hkeep i fun hsl => hslot i hsl hi
  have hfreeMap g := freeMapAt_congr (agree_header hp hgroups g)
  have hinodeMap g := inodeMapAt_congr (agree_header hp hgroups g)
  have hw := hw.remarked hs hp hn hfit ((hinodeMap _).trans hio)
  refine ⟨fun g => (hw.freeMap g).trans (hfreeMap g),
    fun g => (hw.inodeMap g).trans (hinodeMap g), fun hap k => ?_, fun k u hk => ?_, hw.mark,
    fun i hi hg => (hw.out i hi hg).trans (hkeep i hi)⟩
  · exact (hw.free (hap.congr hfreeMap hinodeMap) k).trans (freeAt_congr hs hp hgroups k)
  · exact (hw.others k u hk).trans (marked_congr hs hp hn hgroups k u)

/-! ## `ufs2_alloc_inode` -/

/-- The dinode `ufs2_initialize_inode` writes. -/
def freshDinode (mode : Nat) : Mem :=
  let raw := writeLe 2 (fun _ => 0) 0 mode
  let raw := writeLe 2 raw 2 1
  let raw := writeLe 4 raw 4 0
  writeLe 4 raw 8 0

/-- A number that was free is marked used and its dinode initialised. -/
structure TookInode (v : Volume) (m m' : Mem) (mode n : Nat) : Prop where
  root : ROOT_INO ≤ n
  group : n / v.inodesPerGroup < v.cylinderGroups
  marked : Marked v m n false
  bytes : ∃ off io m1, inodeOffset v n = some off ∧ v.device.Fits off DINODE_SIZE ∧
    inodeMapAt v m (n / v.inodesPerGroup) = some io ∧ v.device.Fits (inodeByte v io n) 1 ∧
    Written m m1 io (n % v.inodesPerGroup) 1 true ∧
    m' = blit m1 off (freshDinode mode) DINODE_SIZE

/-- At most the dinode of a free number has changed. -/
def Untaken (v : Volume) (m m' : Mem) : Prop :=
  m' = m ∨ ∃ n, ROOT_INO ≤ n ∧ Marked v m n false ∧ ∀ i, ¬ InSlot v n i → m' i = m i

lemma clearBit_setBit {b : UInt8} {k : Nat} (hk : k < 8) (h : testBit b k = false) :
    clearBit (setBit b k) k = b := by
  refine byte_ext fun j hj => ?_
  rw [testBit_clearBit _ hk hj, testBit_setBit _ hk hj]
  by_cases hjk : j = k
  · subst hjk
    simp [h]
  · simp [hjk]

/-- What the loops of `ufs2_alloc_inode` leave behind. -/
def InodeSpec (v : Volume) (mode : Nat) (m m' : Mem) : Option Nat → Prop
  | none => Untaken v m m'
  | some n => TookInode v m m' mode n

lemma Numbers.number (hn : Numbers v) {bit : Nat} (hg : g < v.cylinderGroups)
    (hbit : bit < v.inodesPerGroup) :
    (g * v.inodesPerGroup + bit) % 2 ^ 32 = g * v.inodesPerGroup + bit ∧
      (g * v.inodesPerGroup + bit) / v.inodesPerGroup = g ∧
      (g * v.inodesPerGroup + bit) % v.inodesPerGroup = bit := by
  have hmul := Nat.mul_le_mul_right v.inodesPerGroup (succ_le_of_lt hg)
  rw [succ_mul] at hmul
  have htotal := hn.total
  refine ⟨mod_eq_of_lt (by omega), ?_, ?_⟩
  · rw [mul_comm, mul_add_div (by omega), div_eq_of_lt hbit, add_zero]
  · rw [mul_comm, mul_add_mod, mod_eq_of_lt hbit]

/-- The branch of the loop that takes a number, whose bit is bit `k` of
the byte `value` at `p`: the mark is written, and taken back when the
dinode cannot be initialised. -/
def takeInode (v : Volume) (mode number p k : Nat) (value : UInt8) :
    Prog (Option (Option Nat)) := do
  let value := setBit value k
  match ← v.device.write p (fun _ => value) 1 with
  | none => do
    release .ufs2Allocation
    pure (some none)
  | some () => do
    match ← initializeInode v number mode with
    | some () => do
      release .ufs2Allocation
      pure (some (some number))
    | none => do
      let value := clearBit value k
      let _ ← v.device.write p (fun _ => value) 1
      release .ufs2Allocation
      pure (some none)

variable {mode : Nat} {d : Disk}

lemma takeInode_spec (hroot : ROOT_INO ≤ n) (hg : n / v.inodesPerGroup < v.cylinderGroups)
    (hio : inodeMapAt v (v.bytes d) (n / v.inodesPerGroup) = some io)
    (hfit : v.device.Fits (inodeByte v io n) 1)
    (hclear : testBit (v.bytes d (inodeByte v io n)) (n % v.inodesPerGroup % 8) = false) :
    (takeInode v mode n (inodeByte v io n) (n % v.inodesPerGroup % 8)
      (v.bytes d (inodeByte v io n))).Ensures d fun r d' =>
        ∃ q, r = some q ∧ InodeSpec v mode (v.bytes d) (v.bytes d') q := by
  have h8 : n % v.inodesPerGroup % 8 < 8 := mod_lt _ (by decide)
  have hmark : Marked v (v.bytes d) n false := ⟨io, hio, hfit, hclear⟩
  unfold takeInode
  dsimp only
  rw [clearBit_setBit h8 hclear]
  obtain ⟨d1, hrun1, hbytes1⟩ := write_byte hfit
    (setBit (v.bytes d (inodeByte v io n)) (n % v.inodesPerGroup % 8)) d
  refine .step hrun1 ?_
  -- writing the old byte again undoes the mark
  have hundo : ∀ d2 : Disk, (∀ i, ¬ InSlot v n i → v.bytes d2 i = v.bytes d1 i) →
      ∃ d3, (v.device.write (inodeByte v io n)
          (fun _ => v.bytes d (inodeByte v io n)) 1).run d2 = .ok (some (), d3) ∧
        ∀ i, ¬ InSlot v n i → v.bytes d3 i = v.bytes d i := by
    intro d2 h2
    obtain ⟨d3, hrun3, hbytes3⟩ := write_byte hfit (v.bytes d (inodeByte v io n)) d2
    refine ⟨d3, hrun3, fun i hi => ?_⟩
    rw [hbytes3]
    by_cases hip : i = inodeByte v io n
    · rw [hip, poke_self]
    · rw [poke_ne hip, h2 i hi, hbytes1, poke_ne hip]
  unfold initializeInode
  cases hoff : inodeOffset v n with
  | none =>
    obtain ⟨d3, hrun3, hbytes3⟩ := hundo d1 fun _ _ => rfl
    refine .step (run_pure _ _) (.step hrun3 (.step (run_release _ _) (.pure ?_)))
    refine ⟨none, rfl, .inl (funext fun i => hbytes3 i ?_)⟩
    rintro ⟨o, ho, -⟩
    rw [hoff] at ho
    cases ho
  | some off => ?_
  by_cases hoffit : v.device.Fits off DINODE_SIZE
  · obtain ⟨d2, hrun2, hbytes2⟩ := write_run hoffit (freshDinode mode) d1
    refine .step hrun2 (.step (run_release _ _) (.pure ⟨some n, rfl, hroot, hg, hmark, ?_⟩))
    refine ⟨off, io, v.bytes d1, hoff, hoffit, hio, hfit, ?_, hbytes2⟩
    rw [hbytes1]
    exact written_one (v.bytes d) io (n % v.inodesPerGroup) true
  · obtain ⟨d2, hrun2, hbytes2⟩ := write_bad hoffit (freshDinode mode) d1
    obtain ⟨d3, hrun3, hbytes3⟩ := hundo d2 fun i hi => hbytes2 i (slot_out hoff hi)
    refine .step hrun2 (.step hrun3 (.step (run_release _ _) (.pure ?_)))
    exact ⟨none, rfl, .inr ⟨n, hroot, hmark, hbytes3⟩⟩

lemma allocInodeBits_succ (mode g io n bit : Nat) : allocInodeBits v mode g io (n + 1) bit =
      (if (g * v.inodesPerGroup + bit) % 2 ^ 32 < ROOT_INO then
        allocInodeBits v mode g io n (bit + 1)
      else do
        match ← v.device.read (mapByte io bit) 1 with
        | none => do
          release .ufs2Allocation
          pure (some none)
        | some value =>
          if testBit (value 0) (bit % 8) then allocInodeBits v mode g io n (bit + 1)
          else
            takeInode v mode ((g * v.inodesPerGroup + bit) % 2 ^ 32) (mapByte io bit) (bit % 8)
              (value 0)) :=
  rfl

lemma allocInodeBits_spec (hn : Numbers v) (hg : g < v.cylinderGroups) (mode : Nat)
    (hio : inodeMapAt v (v.bytes d) g = some io) (n : Nat) :
    ∀ bit, bit + n = v.inodesPerGroup → (allocInodeBits v mode g io n bit).Ensures d fun r d' =>
        (r = none ∧ d' = d) ∨ ∃ q, r = some q ∧ InodeSpec v mode (v.bytes d) (v.bytes d') q := by
  induction n with
  | zero => exact fun _ _ => .pure (.inl ⟨rfl, rfl⟩)
  | succ n ih => ?_
  intro bit hbit
  obtain ⟨hnum, hdiv, hmod⟩ := hn.number hg (show bit < v.inodesPerGroup by omega)
  rw [allocInodeBits_succ, hnum]
  split
  · exact ih _ (by omega)
  next hroot =>
  by_cases hfit : v.device.Fits (mapByte io bit) 1
  · refine .step (read_byte hfit d) ?_
    dsimp only
    rw [window_apply (by omega), add_zero]
    split
    · exact ih _ (by omega)
    next hclear =>
    have hbyte : inodeByte v io (g * v.inodesPerGroup + bit) = mapByte io bit := by
      rw [inodeByte, hmod]
    have htake := @takeInode_spec v io (g * v.inodesPerGroup + bit) mode d
      (not_lt.mp hroot) (by rwa [hdiv]) (by rwa [hdiv])
    rw [hbyte, hmod] at htake
    exact (htake hfit (by simpa using hclear)).mono fun r d' h => .inr h
  · exact .step (peek_byte hfit d) (.step (run_release _ _) (.pure (.inr ⟨none, rfl, .inl rfl⟩)))

lemma allocInodeGroups_spec (hn : Numbers v) (mode : Nat) (n : Nat) :
    ∀ g, g + n = v.cylinderGroups → (allocInodeGroups v mode n g).Ensures d fun r d' =>
        InodeSpec v mode (v.bytes d) (v.bytes d') r := by
  induction n with
  | zero => exact fun _ _ => .step (run_release _ _) (.pure (.inl rfl))
  | succ n ih => ?_
  intro g hg
  cases hio : inodeMapAt v (v.bytes d) g with
  | none =>
    refine .step (hio ▸ cgInodeMap_run v g d) ?_
    exact ih _ (by omega)
  | some io => ?_
  refine .step (hio ▸ cgInodeMap_run v g d) ?_
  refine (allocInodeBits_spec hn (show g < v.cylinderGroups by omega) mode hio _ 0
    (zero_add _)).bind fun r d' h => ?_
  rcases h with ⟨rfl, rfl⟩ | ⟨q, rfl, hq⟩
  · exact ih _ (by omega)
  · exact .pure hq

lemma allocInode_spec (hn : Numbers v) (mode : Nat) (d : Disk) :
    (allocInode v mode).Ensures d fun r d' => InodeSpec v mode (v.bytes d) (v.bytes d') r := by
  unfold allocInode
  split
  · exact .pure (.inl rfl)
  · exact .step (run_acquire _ d) (allocInodeGroups_spec hn mode _ 0 (zero_add _))

lemma TookInode.remarked (hslot : ∀ i, InSlot v n i → ¬ InGroups v i)
    (hs : Separate v) (hp : v.Probed) (hn : Numbers v) (h : TookInode v m m' mode n) :
    Remarked v m m' n true := by
  obtain ⟨off, io, m1, hoff, -, hio, hfit, hw, rfl⟩ := h.bytes
  have hw := hw.remarked hs hp hn hfit hio
  have hkeep : ∀ i, ¬ InSlot v n i → blit m1 off (freshDinode mode) DINODE_SIZE i = m1 i :=
    fun i hi => blit_out (slot_out hoff hi)
  have hgroups : ∀ i, InGroups v i → blit m1 off (freshDinode mode) DINODE_SIZE i = m1 i :=
    fun i hi => hkeep i fun hsl => hslot i hsl hi
  have hhead := agree_header hp hgroups
  refine ⟨fun g => (freeMapAt_congr (hhead g)).trans (hw.freeMap g),
    fun g => (inodeMapAt_congr (hhead g)).trans (hw.inodeMap g), fun hap k => ?_,
    fun k u hk => ?_, ?_, fun i hi hg => (hkeep i hi).trans (hw.out i hi hg)⟩
  · exact (freeAt_congr hs hp hgroups k).trans (hw.free hap k)
  · exact (marked_congr hs hp hn hgroups k u).trans (hw.others k u hk)
  · exact (marked_congr hs hp hn hgroups n true).mpr hw.mark

lemma TookInode.fresh (h : TookInode v m m' mode n) :
    ∃ x, inodeAt v m' n = some x ∧ x.mode = mode % 2 ^ 16 ∧ x.size = 0 ∧
      (∀ b < DIRECT_BLOCKS, x.direct b = 0) ∧ x.indirect 0 = 0 := by
  obtain ⟨o, io, m1, hoff, hfit, -, -, -, rfl⟩ := h.bytes
  have hread : ∀ {a w : Nat}, a + w ≤ 256 →
      readLe w (window (blit m1 o (freshDinode mode) DINODE_SIZE) o DINODE_SIZE) a
        = readLe w (freshDinode mode) a := fun hle => readLe_congr fun i _ hi => by
    rw [window_apply (by unfold DINODE_SIZE; omega),
      blit_in (by omega) (by unfold DINODE_SIZE; omega), Nat.add_sub_cancel_left]
  have hzero : ∀ {a w : Nat}, 12 ≤ a → readLe w (freshDinode mode) a = 0 := fun ha =>
    readLe_eq_zero.mpr fun i hi _ => by
      rw [freshDinode, writeLe_out (by omega), writeLe_out (by omega), writeLe_out (by omega),
        writeLe_out (by omega)]
  refine ⟨_, inodeAt_eq hoff hfit _, ?_, (hread (by omega)).trans (hzero (by omega)),
    fun b hb => (hread (by unfold DIRECT_BLOCKS at hb; omega)).trans (hzero (by omega)),
    (hread (by omega)).trans (hzero (by omega))⟩
  change readLe 2 _ 0 = _
  rw [hread (by omega), freshDinode, readLe_writeLe_disjoint (by omega),
    readLe_writeLe_disjoint (by omega), readLe_writeLe_disjoint (by omega), readLe_writeLe]
  rfl

end Proninx.Ufs2
