import Proninx.Kern.Ufs2File

/-!
# Where the parts of a volume are

`mine` is a set of fragments, fixed for a whole run, that hold data: they
lie apart from the cylinder groups and from all dinodes. `Placed` says
that every free fragment and every block of a used inode is in `mine`,
and that the indirect blocks in use are apart from it. Every operation of
the file system keeps that, whatever it is asked to do and wherever it
fails; and every operation on an inode leaves the other dinodes alone.
-/

namespace Proninx.Ufs2

open Blockdev ByteMem Nat Option Prog

variable (v : Volume) (mine : Nat → Prop)

/-- The fixed part: groups, dinodes and the fragments of `mine` lie apart,
and every dinode is on the device. -/
structure Ground : Prop where
  accepted : Accepted v
  separate : Separate v
  numbers : Numbers v
  slot : ∀ n, n / v.inodesPerGroup < v.cylinderGroups →
    ∃ o, inodeOffset v n = some o ∧ v.device.Fits o DINODE_SIZE
  slot_group : ∀ n i, InSlot v n i → ¬ InGroups v i
  slots_apart : ∀ n k i, n ≠ k → InSlot v n i → ¬ InSlot v k i
  number : ∀ k, mine k → k / v.fragmentsPerGroup < 2 ^ 32
  address : ∀ k, mine k → (k + 1) * v.fragmentSize ≤ U64MAX
  data_group : ∀ k i, mine k → InFragment v k i → ¬ InGroups v i
  data_slot : ∀ k i n, mine k → InFragment v k i → ¬ InSlot v n i

/-- Byte `i` holds an address in the indirect block at fragment `q`. -/
def PointerByte (q i : Nat) : Prop :=
  q ≠ 0 ∧ q ≤ U64MAX / v.fragmentSize ∧ ∃ j, j < v.blockSize / 8 ∧
    (q * v.fragmentSize + j * 8) % 2 ^ 64 ≤ i ∧ i < (q * v.fragmentSize + j * 8) % 2 ^ 64 + 8

/-- The blocks of a file are in `mine` and its indirect block is not. -/
structure Sited (m : Mem) (x : Inode) : Prop where
  listed : ∀ b a, addressAt v m x b = some a → ∀ k, k < v.fragmentsPerBlock → mine (a + k)
  group : ∀ i, PointerByte v (x.indirect 0) i → ¬ InGroups v i
  slot : ∀ i n, PointerByte v (x.indirect 0) i → ¬ InSlot v n i
  data : ∀ i k, PointerByte v (x.indirect 0) i → mine k → ¬ InFragment v k i

/-- The free fragments are in `mine`, and so are the blocks of every used
inode. -/
structure Placed (m : Mem) : Prop where
  maps_apart : MapsApart v m
  free : ∀ k, FreeAt v m k → mine k
  sited : ∀ n x, Marked v m n true → inodeAt v m n = some x → Sited v mine m x

variable {v mine} {ino : Nat} {m m' m'' : Mem} {x y : Inode} {d : Disk}

lemma Ground.probed (h : Ground v mine) : v.Probed := h.accepted.probed

lemma Ground.room (h : Ground v mine) (ino : Nat) : Room v ino mine where
  probed := h.probed
  separate := h.separate
  slot_apart := h.slot_group ino
  number := h.number
  address := h.address
  apart := fun k i hk hi => ⟨h.data_group k i hk hi, h.data_slot k i ino hk hi⟩

variable {n : Nat} {u : Bool}

lemma Marked.group (h : Marked v m n u) : n / v.inodesPerGroup < v.cylinderGroups := by
  obtain ⟨io, hio, -⟩ := h
  obtain ⟨p, hhead, -⟩ := bind_eq_some_iff.mp hio
  obtain ⟨o, ho, -⟩ := bind_eq_some_iff.mp hhead
  exact (cgOffset_some ho).1

lemma Ground.slot_used (h : Ground v mine) (hn : Marked v m n u) :
    ∃ o, inodeOffset v n = some o ∧ v.device.Fits o DINODE_SIZE :=
  h.slot n hn.group

/-! ## Addresses -/

lemma addressAt_congr (h : ∀ i, PointerByte v (x.indirect 0) i → m' i = m i) (b : Nat) :
    addressAt v m' x b = addressAt v m x b := by
  unfold addressAt
  split
  · rfl
  dsimp only
  split
  · rfl
  next hgood =>
  simp only [not_or, not_le, not_lt] at hgood
  rw [peek_congr fun i hi hj => h i ⟨hgood.2.1, hgood.2.2, _, hgood.1, hi, hj⟩]

lemma addressAt_pointers (hdirect : ∀ b < DIRECT_BLOCKS, y.direct b = x.direct b)
    (hindirect : y.indirect 0 = x.indirect 0) (b : Nat) :
    addressAt v m y b = addressAt v m x b := by
  unfold addressAt
  rw [hindirect]
  split
  · next hb => rw [hdirect b hb]
  · rfl

lemma Sited.pointers (h : Sited v mine m x)
    (hdirect : ∀ b < DIRECT_BLOCKS, y.direct b = x.direct b)
    (hindirect : y.indirect 0 = x.indirect 0) : Sited v mine m y where
  listed b a ha := h.listed b a (addressAt_pointers hdirect hindirect b ▸ ha)
  group i hi := h.group i (hindirect ▸ hi)
  slot i n hi := h.slot i n (hindirect ▸ hi)
  data i k hi := h.data i k (hindirect ▸ hi)

lemma Sited.same (h : Sited v mine m x) (hs : y.Same x) : Sited v mine m y :=
  h.pointers hs.direct (hs.indirect 0 (by decide))

variable {f : Nat}

lemma Sited.setDirect (h : Sited v mine m x) {b : Nat}
    (hf : f ≠ 0 → ∀ k < v.fragmentsPerBlock, mine (f + k)) :
    Sited v mine m (x.setDirect b f) where
  listed c a ha := by
    by_cases hc : c < DIRECT_BLOCKS
    · rw [addressAt, if_pos hc] at ha
      split at ha
      · cases ha
      next hne =>
      cases ha
      by_cases hcb : c = b
      · subst hcb
        rw [setDirect_self] at hne ⊢
        exact hf hne
      · rw [setDirect_ne hcb] at hne ⊢
        exact h.listed c _ (by rw [addressAt, if_pos hc, if_neg hne])
    · refine h.listed c a ?_
      rw [addressAt, if_neg hc] at ha ⊢
      exact ha
  group := h.group
  slot := h.slot
  data := h.data

/-- Nothing an operation writes is an address in an indirect block. -/
lemma Sited.confined (h : Sited v mine m x) (hc : Confined v ino mine m m') :
    Sited v mine m' x := by
  refine { h with listed := fun b a ha => h.listed b a ?_ }
  rwa [addressAt_congr fun i hi => hc i (h.group i hi) (h.slot i ino hi)
    fun k hk => h.data i k hi hk] at ha

lemma Sited.empty (hdirect : ∀ b < DIRECT_BLOCKS, x.direct b = 0)
    (hindirect : x.indirect 0 = 0) : Sited v mine m x where
  listed b a ha := by
    unfold addressAt at ha
    split at ha
    · next hb =>
      rw [if_pos (hdirect b hb)] at ha
      cases ha
    rw [if_pos (.inr (.inl hindirect))] at ha
    cases ha
  group i hi := absurd hindirect hi.1
  slot i n hi := absurd hindirect hi.1
  data i k hi := absurd hindirect hi.1

/-! ## Operations on one inode -/

variable (v mine) in
/-- What every operation may rely on. -/
structure Base (m : Mem) : Prop where
  maps_apart : MapsApart v m
  free : ∀ k, FreeAt v m k → mine k

lemma Placed.base (h : Placed v mine m) : Base v mine m := ⟨h.maps_apart, h.free⟩

variable (v mine) in
/-- An operation on `ino` went from `m` to `m'`: no inode was marked, and
bytes changed in the groups, in the dinode of `ino` and in `mine` only. -/
structure Tidy (ino : Nat) (m m' : Mem) : Prop where
  confined : Confined v ino mine m m'
  base : Base v mine m'
  marked : ∀ n u, Marked v m' n u ↔ Marked v m n u

lemma Tidy.refl (h : Base v mine m) : Tidy v mine ino m m :=
  ⟨.refl m, h, fun _ _ => .rfl⟩

lemma Tidy.trans (h : Tidy v mine ino m m') (h' : Tidy v mine ino m' m'') : Tidy v mine ino m m'' :=
  ⟨h.confined.trans h'.confined, h'.base, fun n u => (h'.marked n u).trans (h.marked n u)⟩

lemma Quiet.tidy (hg : Ground v mine) (hb : Base v mine m) (hq : Quiet v ino mine m m') :
    Tidy v mine ino m m' := by
  have hr := hg.room ino
  have hgroups : ∀ i, InGroups v i → m' i = m i := fun i hi =>
    hq i (fun hs => hr.slot_apart i hs hi) fun k hk hin => (hr.apart k i hk hin).1 hi
  exact ⟨hq.confined, ⟨hb.maps_apart.outside hg.probed hgroups,
    fun k hk => hb.free k ((hq.freeAt hr k).mp hk)⟩,
    marked_congr hg.separate hg.probed hg.numbers hgroups⟩

variable (ino) in
lemma allocBlock_tidy (hg : Ground v mine) (hb : Base v mine (v.bytes d)) :
    (allocBlock v).Ensures d fun r d' => Tidy v mine ino (v.bytes d) (v.bytes d') ∧
      AllocSpec v (v.bytes d) (v.bytes d') r ∧
      ∀ f, r = some f → ∀ k < v.fragmentsPerBlock, mine (f + k) := by
  have hs := hg.separate
  have hp := hg.probed
  rcases allocBlock_taken (hs.geometry hp) d with hnone | ⟨g, bit, d', hrun, htaken⟩
  · exact .of_run hnone ⟨.refl hb, rfl, nofun⟩
  have hspec := htaken.spec hs hp
  obtain ⟨mo, entries, hmap, -, hend, -, -, hw⟩ := htaken
  refine .of_run hrun ⟨⟨fun i hi _ _ => hw.within hs hp hmap hend hi,
    ⟨hb.maps_apart.headers (hw.fragments hs hp hmap hend).1,
      fun k hk => hb.free k ((hspec.2 k).mp hk).1⟩,
    hw.marked hs hp hg.numbers hmap hend hb.maps_apart⟩, hspec, ?_⟩
  rintro f hf k hk
  cases hf
  exact hb.free _ (hspec.1 _ (Nat.le_add_right _ _) (by omega))

variable (ino) in
lemma freeBlock_tidy (hg : Ground v mine)
    (hf : ∀ k < v.fragmentsPerBlock, mine (f + k)) (hb : Base v mine (v.bytes d)) :
    (freeBlock v f).Ensures d fun _ d' => Tidy v mine ino (v.bytes d) (v.bytes d') := by
  have hs := hg.separate
  have hp := hg.probed
  have hgroup := hg.number _ (hf 0 hp.fragmentsPerBlock_pos)
  by_cases hfit : Freeable v (v.bytes d) f
  · obtain ⟨hal, mo, entries, hmap, hend⟩ := hfit
    obtain ⟨r, d', k, hrun, hk, hw, -⟩ := freeBlock_written hs hp hal hgroup hmap hend
    obtain ⟨hhead, hfree, hout⟩ := (freeBlock_any hs hp hgroup d).of_eq hrun
    refine .of_run hrun ⟨fun i hi _ _ => hout i hi, ⟨hb.maps_apart.headers hhead, fun n hn => ?_⟩,
      hw.marked hs hp hg.numbers hmap (by omega) hb.maps_apart⟩
    rcases hfree n hn with hold | ⟨-, hlo, hhi⟩
    · exact hb.free n hold
    obtain ⟨j, rfl⟩ := Nat.exists_eq_add_of_le hlo
    exact hf j (by omega)
  · exact .of_run (freeBlock_refused hs hp hgroup hfit) (.refl hb)

variable (v) in
/-- The dinode of `n` reads as `x`. -/
def Stored (m : Mem) (n : Nat) (x : Inode) : Prop := ∃ y, inodeAt v m n = some y ∧ y.Same x

lemma Confined.inodeAt (hg : Ground v mine) (hc : Confined v ino mine m m')
    (hn : n ≠ ino) : inodeAt v m' n = inodeAt v m n := by
  cases hoff : inodeOffset v n with
  | none => simp only [Ufs2.inodeAt, hoff, bind_none]
  | some o => ?_
  refine inodeAt_congr hoff fun i hi hj => (hc i ?_ ?_ ?_).symm
  · exact hg.slot_group n i ⟨o, hoff, hi, hj⟩
  · exact hg.slots_apart n ino i hn ⟨o, hoff, hi, hj⟩
  · exact fun k hk hin => hg.data_slot k i n hk hin ⟨o, hoff, hi, hj⟩

variable (v) in
/-- A number that no dinode has. An operation on it writes data only. -/
def nowhere : Nat := v.cylinderGroups * v.inodesPerGroup

lemma not_inSlot_nowhere (hp : v.Probed) (i : Nat) : ¬ InSlot v (nowhere v) i := by
  rintro ⟨o, ho, -⟩
  have hn := ((inodeOffset_iff hp).mp ho).1
  have hdiv : nowhere v / v.inodesPerGroup = v.cylinderGroups :=
    Nat.mul_div_cancel _ (Nat.pos_of_ne_zero hp.inodesPerGroup)
  unfold Numbered at hn
  omega

section

variable (hg : Ground v mine)
include hg

lemma Confined.any (h : Confined v (nowhere v) mine m m') : Confined v ino mine m m' :=
  fun i hi _ hm => h i hi (not_inSlot_nowhere hg.probed i) hm

lemma Tidy.any (h : Tidy v mine (nowhere v) m m') : Tidy v mine ino m m' :=
  ⟨h.confined.any hg, h.base, h.marked⟩

lemma Placed.tidy (h : Placed v mine m) (ht : Tidy v mine ino m m')
    (hself : Marked v m ino true → ∀ x, inodeAt v m' ino = some x → Sited v mine m' x) :
    Placed v mine m' where
  maps_apart := ht.base.maps_apart
  free := ht.base.free
  sited n x hn hx := by
    by_cases heq : n = ino
    · subst heq
      exact hself ((ht.marked n true).mp hn) x hx
    rw [ht.confined.inodeAt hg heq] at hx
    exact (h.sited n x ((ht.marked n true).mp hn) hx).confined ht.confined

variable (v mine) in
/-- A tidy operation that takes and frees no fragment. -/
structure Neat (ino : Nat) (m m' : Mem) : Prop extends Tidy v mine ino m m' where
  free_iff : ∀ k, FreeAt v m' k ↔ FreeAt v m k

lemma Quiet.neat (hb : Base v mine m) (hq : Quiet v ino mine m m') : Neat v mine ino m m' :=
  ⟨hq.tidy hg hb, hq.freeAt (hg.room ino)⟩

lemma writeInode_neat (hb : Base v mine (v.bytes d)) (hn : Marked v (v.bytes d) n u)
    (hx : x.Typed) :
    ∃ d', (writeInode v n x).run d = .ok (some (), d') ∧
      Neat v mine n (v.bytes d) (v.bytes d') ∧ Stored v (v.bytes d') n x := by
  obtain ⟨o, hoff, hfit⟩ := hg.slot_used hn
  obtain ⟨d', hrun, hbytes⟩ := writeInode_run hoff hfit x d
  have hq := (writeInode_quiet mine n x d).of_eq hrun
  exact ⟨d', hrun, hq.neat hg hb, inodeAt_written hoff hfit hx hbytes⟩

/-! ## Files -/

variable (v mine) in
/-- Inode `n` is in use and reads as `x`. -/
structure Live (n : Nat) (m : Mem) (x : Inode) : Prop where
  base : Base v mine m
  marked : Marked v m n true
  stored : Stored v m n x
  sited : Sited v mine m x
  typed : x.Typed

lemma Live.ne_nowhere (h : Live v mine n m x) : n ≠ nowhere v := by
  rintro rfl
  have hgroup := h.marked.group
  rw [nowhere, Nat.mul_div_cancel _ (Nat.pos_of_ne_zero hg.probed.inodesPerGroup)] at hgroup
  omega

lemma Live.data (h : Live v mine n m x) (ht : Tidy v mine (nowhere v) m m') :
    Live v mine n m' x := by
  refine ⟨ht.base, (ht.marked n true).mpr h.marked, ?_, h.sited.confined ht.confined, h.typed⟩
  obtain ⟨y, hy, hs⟩ := h.stored
  exact ⟨y, (ht.confined.inodeAt hg (h.ne_nowhere hg)).trans hy, hs⟩

lemma Live.write (h : Live v mine n (v.bytes d) x) (hs : Sited v mine (v.bytes d) y)
    (ht : y.Typed) :
    ∃ d', (writeInode v n y).run d = .ok (some (), d') ∧
      Tidy v mine n (v.bytes d) (v.bytes d') ∧ Live v mine n (v.bytes d') y := by
  obtain ⟨d', hrun, htidy, hstored⟩ := writeInode_neat hg h.base h.marked ht
  exact ⟨d', hrun, htidy.toTidy, htidy.base, (htidy.marked n true).mpr h.marked, hstored,
    hs.confined htidy.confined, ht⟩

end

lemma Inode.Typed.setDirect (h : x.Typed) {b : Nat} (hf : f < 2 ^ 64) :
    (x.setDirect b f).Typed := by
  refine { h with direct := fun i hi => ?_ }
  by_cases hib : i = b
  · subst hib
    rwa [setDirect_self]
  rw [setDirect_ne hib]
  exact h.direct i hi

lemma Ground.fragment_lt (hg : Ground v mine)
    (hf : ∀ k < v.fragmentsPerBlock, mine (f + k)) : f < 2 ^ 64 := by
  have haddr := hg.address _ (hf 0 hg.probed.fragmentsPerBlock_pos)
  have hle := Nat.le_mul_of_pos_right (f + 1) hg.probed.sizes.pos
  rw [add_zero] at haddr
  unfold U64MAX at haddr
  omega

/-- Two inodes with the same attributes; sizes and blocks may differ. -/
def Inode.Kin (x y : Inode) : Prop :=
  y.nlink = x.nlink ∧ y.mode = x.mode ∧ y.uid = x.uid ∧ y.gid = x.gid

lemma Inode.Kin.refl (x : Inode) : x.Kin x := ⟨rfl, rfl, rfl, rfl⟩

lemma Inode.Kin.trans {z : Inode} (h : x.Kin y) (h' : y.Kin z) : x.Kin z :=
  ⟨h'.1.trans h.1, h'.2.1.trans h.2.1, h'.2.2.1.trans h.2.2.1, h'.2.2.2.trans h.2.2.2⟩

variable (v mine) in
/-- What an operation on the file `n` leaves, with `y` the caller's copy of
the inode. -/
structure Kept (n : Nat) (d : Disk) (x : Inode) (d' : Disk) (y : Inode) : Prop where
  tidy : Tidy v mine n (v.bytes d) (v.bytes d')
  live : Live v mine n (v.bytes d') y
  kin : x.Kin y

lemma Kept.refl (h : Live v mine n (v.bytes d) x) : Kept v mine n d x d x :=
  ⟨.refl h.base, h, .refl x⟩

variable {d1 : Disk}

lemma Kept.trans {d2 : Disk} {z : Inode} (h : Kept v mine n d x d1 y)
    (h' : Kept v mine n d1 y d2 z) : Kept v mine n d x d2 z :=
  ⟨h.tidy.trans h'.tidy, h'.live, h.kin.trans h'.kin⟩

section

variable (hg : Ground v mine)
include hg

lemma Live.kept (h : Live v mine n (v.bytes d) x)
    (ht : Tidy v mine (nowhere v) (v.bytes d) (v.bytes d1)) : Kept v mine n d x d1 x :=
  ⟨ht.any hg, h.data hg ht, .refl x⟩

lemma growBlocks_kept {ino : Nat} (n : Nat) :
    ∀ (block : Nat) (x : Inode) (d : Disk), Live v mine ino (v.bytes d) x →
      (growBlocks v ino n block x).Ensures d fun p d' =>
        Kept v mine ino d x d' p.2 ∧ p.2.size = x.size := by
  have hr := hg.room (nowhere v)
  induction n with
  | zero => exact fun _ _ _ h => .pure ⟨.refl h, rfl⟩
  | succ n ih => ?_
  intro block x d h
  unfold growBlocks
  split
  · exact ih _ x d h
  refine (allocBlock_tidy (nowhere v) hg h.base).bind fun r d1 hspec => ?_
  obtain ⟨ht1, -, hnew⟩ := hspec
  cases r with
  | none => exact .pure ⟨h.kept hg ht1, rfl⟩
  | some f => ?_
  have hf := hnew f rfl
  refine (zeroBlock_quiet hr hf d1).bind fun r2 d2 hq2 => ?_
  have ht2 := ht1.trans (hq2.tidy hg ht1.base)
  have hk2 := h.kept hg ht2
  cases r2 with
  | none =>
    dsimp only
    split
    · refine (freeBlock_tidy (nowhere v) hg hf ht2.base).bind fun _ d3 ht3 => ?_
      exact .pure ⟨h.kept hg (ht2.trans ht3), rfl⟩
    · exact .pure ⟨hk2, rfl⟩
  | some _ => ?_
  have hl2 := hk2.live
  obtain ⟨d3, hrun3, ht3, hl3⟩ := hl2.write hg (hl2.sited.setDirect (b := block) fun _ => hf)
    (hl2.typed.setDirect (hg.fragment_lt hf))
  refine .step hrun3 ((ih _ _ d3 hl3).mono fun p d' hend => ⟨?_, hend.2⟩)
  exact hk2.trans (.trans ⟨ht3, hl3, rfl, rfl, rfl, rfl⟩ hend.1)

lemma writeBlocks_data (x : Inode) (fuel : Nat) :
    ∀ (offset : Nat) (src : Mem) (length : Nat) (d : Disk), Sited v mine (v.bytes d) x →
      (writeBlocks v x fuel offset src length).Ensures d fun _ d' =>
        Quiet v (nowhere v) mine (v.bytes d) (v.bytes d') := by
  have hr := hg.room (nowhere v)
  have hbs := hg.probed.sizes.blockPos
  induction fuel with
  | zero => exact fun _ _ _ _ _ => .pure (.refl _)
  | succ fuel ih => ?_
  intro offset src length d hs
  unfold writeBlocks
  split
  · exact .pure (.refl _)
  cases hat : byteAt v (v.bytes d) x offset with
  | none => exact .andThen_none (hat ▸ byteAddress_run v x offset d) (.refl _)
  | some a => ?_
  refine .andThen_some (hat ▸ byteAddress_run v x offset d) ?_
  obtain ⟨f, hf, ha⟩ := bind_eq_some_iff.mp hat
  have hblock := hs.listed _ f hf
  have hend := hr.block_end hblock
  have hin := mod_lt offset hbs
  have ha : a = f * v.fragmentSize + offset % v.blockSize := by
    split at ha
    · cases ha
    cases ha
    exact mod_eq_of_lt (by unfold U64MAX at hend; omega)
  refine Ensures.andThen ((write_within v.device _ _ _ d).mono
    fun r d1 hw => quiet_of_block hr hblock fun i hi => hw.2 i (by omega))
    (fun _ hq => hq) fun _ d1 hq => ?_
  exact (ih _ _ _ d1 (hs.confined hq.confined)).mono fun _ _ hq' => hq.trans hq'

lemma zeroGap_data (x : Inode) (offset fuel : Nat) :
    ∀ (oldSize : Nat) (d : Disk), Sited v mine (v.bytes d) x →
      (zeroGap v x offset fuel oldSize).Ensures d fun _ d' =>
        Quiet v (nowhere v) mine (v.bytes d) (v.bytes d') := by
  induction fuel with
  | zero => exact fun _ _ _ => .pure (.refl _)
  | succ fuel ih => ?_
  intro oldSize d hs
  unfold zeroGap
  split
  · refine Ensures.andThen (writeBlocks_data hg x _ _ _ _ d hs) (fun _ hq => hq) fun _ d1 hq => ?_
    exact (ih _ d1 (hs.confined hq.confined)).mono fun _ _ hq' => hq.trans hq'
  · exact .pure (.refl _)

lemma Live.quiet (h : Live v mine n (v.bytes d) x)
    (hq : Quiet v (nowhere v) mine (v.bytes d) (v.bytes d1)) : Kept v mine n d x d1 x :=
  h.kept hg (hq.tidy hg h.base)

omit hg in
lemma Inode.Typed.relink (h : x.Typed) {nlink : Nat} (hn : nlink < 2 ^ 16) :
    { x with nlink := nlink }.Typed :=
  { h with nlink := hn }

omit hg in
lemma Inode.Typed.resize (h : x.Typed) {size : Nat} (hs : size < 2 ^ 64) :
    { x with size := size }.Typed :=
  { h with size := hs }

omit hg in
lemma Sited.resize (h : Sited v mine m x) (size : Nat) : Sited v mine m { x with size := size } :=
  h.pointers (fun _ _ => rfl) rfl

lemma writeGrowing_kept (h : Live v mine n (v.bytes d) x)
    (offset : Nat) (src : Mem) (length : Nat) :
    (writeGrowing v n x offset src length).Ensures d fun p d' => Kept v mine n d x d' p.2 ∧
      (p.1 = some () → p.2.size = x.size ∨ p.2.size ≤ DIRECT_BLOCKS * v.blockSize) := by
  have hbs := hg.probed.blockMax
  unfold writeGrowing
  split
  · exact .pure ⟨.refl h, nofun⟩
  split
  · exact .pure ⟨.refl h, nofun⟩
  next hlen =>
  refine (growBlocks_kept hg _ _ x d h).bind fun p d1 ⟨hk, hsize⟩ => ?_
  obtain ⟨r, y⟩ := p
  cases r with
  | none => exact .pure ⟨hk, nofun⟩
  | some _ => ?_
  dsimp only at hk hsize ⊢
  split
  · refine (writeBlocks_data hg y _ _ _ _ d1 hk.live.sited).bind fun r d2 hq => ?_
    exact .pure ⟨hk.trans (hk.live.quiet hg hq), fun _ => .inl hsize⟩
  have hnew : offset + length ≤ DIRECT_BLOCKS * v.blockSize := by omega
  obtain ⟨d2, hrun2, ht2, hl2⟩ := hk.live.write hg
    (hk.live.sited.resize (offset + length)) (hk.live.typed.resize (by
      unfold DIRECT_BLOCKS at hnew
      omega))
  have hk2 := hk.trans ⟨ht2, hl2, rfl, rfl, rfl, rfl⟩
  refine Ensures.bind (P := fun _ d3 => Kept v mine n d x d3
    { y with size := offset + length }) ?_ fun r d3 hk3 => .pure ⟨hk3, fun _ => .inr hnew⟩
  refine .andThen_some hrun2 ?_
  refine Ensures.andThen (zeroGap_data hg _ _ _ _ d2 hl2.sited)
    (fun _ hq => hk2.trans (hl2.quiet hg hq)) fun _ d3 hq3 => ?_
  have hk3 := hk2.trans (hl2.quiet hg hq3)
  exact (writeBlocks_data hg _ _ _ _ _ d3 hk3.live.sited).mono
    fun _ _ hq => hk3.trans (hk3.live.quiet hg hq)

lemma truncateBlocks_kept {ino : Nat} (n : Nat) :
    ∀ (block : Nat) (x : Inode) (d : Disk), block + n = DIRECT_BLOCKS →
      Live v mine ino (v.bytes d) x → (truncateBlocks v ino n block x).Ensures d fun p d' =>
          Kept v mine ino d x d' p.2 ∧ p.2.size = x.size := by
  induction n with
  | zero => exact fun _ _ _ _ h => .pure ⟨.refl h, rfl⟩
  | succ n ih => ?_
  intro block x d hn h
  unfold truncateBlocks
  split
  · exact ih _ x d (by omega) h
  next hne =>
  have hf : ∀ k < v.fragmentsPerBlock, mine (x.direct block + k) :=
    h.sited.listed block _ (by rw [addressAt, if_pos (by omega), if_neg hne])
  obtain ⟨d1, hrun1, ht1, hl1⟩ := h.write hg
    (h.sited.setDirect (b := block) (f := 0) fun hne => absurd rfl hne)
    (h.typed.setDirect (by decide))
  have hk1 : Kept v mine ino d x d1 (x.setDirect block 0) := ⟨ht1, hl1, rfl, rfl, rfl, rfl⟩
  refine Ensures.bind (P := fun _ d2 => Kept v mine ino d x d2 (x.setDirect block 0))
    (.andThen_some hrun1 ((freeBlock_tidy (nowhere v) hg hf hl1.base).mono
      fun _ d2 ht2 => hk1.trans (hl1.kept hg ht2))) fun r d2 hk2 => ?_
  cases r with
  | none => exact .pure ⟨hk2, rfl⟩
  | some _ => ?_
  exact (ih _ _ d2 (by omega) hk2.live).mono fun p d' hend =>
    ⟨hk2.trans hend.1, hend.2⟩

lemma truncate_kept (h : Live v mine n (v.bytes d) x) :
    (truncate v n x).Ensures d fun p d' => Kept v mine n d x d' p.2 ∧
      (p.1 = some () → p.2.size = 0) := by
  unfold truncate
  split
  · exact .pure ⟨.refl h, nofun⟩
  obtain ⟨d1, hrun1, ht1, hl1⟩ := h.write hg (h.sited.resize 0) (h.typed.resize (by decide))
  have hk1 : Kept v mine n d x d1 { x with size := 0 } := ⟨ht1, hl1, rfl, rfl, rfl, rfl⟩
  refine .step hrun1 ((truncateBlocks_kept hg DIRECT_BLOCKS 0 _ d1 rfl hl1).mono ?_)
  exact fun p d' ⟨hk, hsize⟩ => ⟨hk1.trans hk, fun _ => hsize⟩

/-! ## Directories -/

end

lemma inodeAt_typed (h : inodeAt v m n = some x) : x.Typed := by
  obtain ⟨o, -, h⟩ := bind_eq_some_iff.mp h
  obtain ⟨raw, -, h⟩ := bind_eq_some_iff.mp h
  cases h
  exact ⟨readLe_lt 2 raw 0, readLe_lt 2 raw 2, readLe_lt 4 raw 4, readLe_lt 4 raw 8,
    readLe_lt 8 raw 16, fun i _ => readLe_lt 8 raw _, fun i _ => readLe_lt 8 raw _⟩

lemma Placed.live (h : Placed v mine m) (hn : Marked v m n true)
    (hx : inodeAt v m n = some x) : Live v mine n m x :=
  ⟨h.base, hn, ⟨x, hx, .refl x⟩, h.sited n x hn hx, inodeAt_typed hx⟩

lemma readBlocks_reads (x : Inode) (fuel : Nat) :
    ∀ (offset length : Nat) (out : Mem) (pos : Nat) (d : Disk),
      (readBlocks v x fuel offset length out pos).Ensures d fun _ d' => d' = d := by
  induction fuel with
  | zero => exact fun _ _ _ _ _ => .pure rfl
  | succ fuel ih => ?_
  intro offset length out pos d
  unfold readBlocks
  split
  · exact .pure rfl
  refine Ensures.andThen (P := fun _ d1 => d1 = d)
    (.of_run (byteAddress_run v x offset d) rfl) (fun _ h => h) ?_
  rintro a d1 rfl
  refine Ensures.andThen (P := fun _ d2 => d2 = d1)
    (.of_run (read_run v.device a _ d1) rfl) (fun _ h => h) ?_
  rintro piece d2 rfl
  exact ih _ _ _ _ d2

lemma read_reads (x : Inode) (offset length : Nat) (d : Disk) :
    (read v x offset length).Ensures d fun _ d' => d' = d := by
  unfold read
  split
  · exact .pure rfl
  · exact readBlocks_reads x _ _ _ _ _ d

lemma scanDirectory_leads {α : Type} {x : Inode} {test : Mem → Nat → Bool}
    {found : (fileOffset toRead : Nat) → Mem → Nat → Prog (Option α)} {rest : Prog (Option α)}
    {Q : Option α → Disk → Prop} (hfound : ∀ fo n m o, (found fo n m o).Leads d Q)
    (hrest : rest.Leads d Q) (hnone : Q none d) (fuel : Nat) :
    ∀ fileOffset, (scanDirectory v x test found rest fuel fileOffset).Leads d Q := by
  induction fuel with
  | zero => exact fun _ => hrest
  | succ fuel ih => ?_
  intro fileOffset
  unfold scanDirectory
  split
  · refine Leads.andThen (read_reads x _ _ d).leads (fun _ h => h ▸ hnone) ?_
    rintro block d1 rfl
    split
    · exact .pure hnone
    · exact hfound _ _ _ _
    · exact ih _
  · exact hrest

lemma lookup_reads (dp : Nat) (name : List UInt8) (d : Disk) :
    (lookup v dp name).Leads d fun _ d' => d' = d := by
  unfold lookup
  split
  · exact .pure rfl
  refine Leads.andThen (P := fun _ d1 => d1 = d)
    (Ensures.of_run (readInode_run v dp d) rfl).leads (fun _ h => h) ?_
  rintro x d1 rfl
  split
  · exact .pure rfl
  · exact scanDirectory_leads (fun _ _ _ _ => .pure rfl) (.pure rfl) rfl _ _

variable {dp : Nat}

lemma dirunlink_data (hg : Ground v mine) (name : List UInt8)
    (hs : ∀ x, inodeAt v (v.bytes d) dp = some x → Sited v mine (v.bytes d) x) :
    (dirunlink v dp name).Leads d fun _ d' => Quiet v (nowhere v) mine (v.bytes d) (v.bytes d') := by
  unfold dirunlink
  split
  · exact .pure (.refl _)
  refine Leads.andThen (P := fun r d1 => d1 = d ∧ r = inodeAt v (v.bytes d) dp)
    (Ensures.of_run (readInode_run v dp d) ⟨rfl, rfl⟩).leads (fun _ h => h.1 ▸ .refl _) ?_
  rintro x d1 ⟨rfl, hx⟩
  split
  · exact .pure (.refl _)
  refine scanDirectory_leads (fun fo n block o => ?_) (.pure (.refl _)) (.refl _) _ _
  refine Leads.andThen (P := fun _ d2 => Quiet v (nowhere v) mine (v.bytes d1) (v.bytes d2))
    ?_ (fun _ hq => hq) fun _ d2 hq => .pure hq
  unfold writeExisting
  split
  · exact .pure (.refl _)
  · exact (writeBlocks_data hg x _ _ _ _ d1 (hs x hx.symm)).leads

lemma growDirectory_kept (hg : Ground v mine) (h : Live v mine dp (v.bytes d) x) :
    (growDirectory v dp x).Ensures d fun r d' =>
      (∀ k, FreeAt v (v.bytes d') k → FreeAt v (v.bytes d) k) ∧
      (r = none → Tidy v mine (nowhere v) (v.bytes d) (v.bytes d')) ∧
      (r = some () → ∃ y, inodeAt v (v.bytes d') dp = some y ∧ Kept v mine dp d x d' y ∧
        x.size < y.size) := by
  have hr := hg.room (nowhere v)
  have hmin := hg.probed.blockMin
  have hmax := hg.probed.blockMax
  unfold growDirectory
  split
  · exact .pure ⟨fun _ hk => hk, fun _ => .refl h.base, nofun⟩
  next hcond =>
  have h12 : x.size / v.blockSize < DIRECT_BLOCKS := by omega
  have hsize : x.size + v.blockSize < 2 ^ 64 := by
    have hlt := (Nat.div_lt_iff_lt_mul (by omega)).mp h12
    unfold DIRECT_BLOCKS at hlt
    omega
  obtain ⟨r, d1, hrun1, ht1, hspec, hnew⟩ := allocBlock_tidy (nowhere v) hg h.base
  have hfree1 := hspec.mono
  cases r with
  | none => exact .andThen_none hrun1 ⟨hfree1, fun _ => ht1, nofun⟩
  | some f => ?_
  have hf := hnew f rfl
  refine .andThen_some hrun1 ?_
  refine Ensures.andThen (zeroBlock_quiet hr hf d1)
    (fun d2 hq => ⟨fun k hk => hfree1 k ((hq.freeAt hr k).mp hk),
      fun _ => ht1.trans (hq.tidy hg ht1.base), nofun⟩) fun _ d2 hq2 => ?_
  have ht2 := ht1.trans (hq2.tidy hg ht1.base)
  have hfree2 : ∀ k, FreeAt v (v.bytes d2) k → FreeAt v (v.bytes d) k :=
    fun k hk => hfree1 k ((hq2.freeAt hr k).mp hk)
  refine Ensures.andThen (fillBlock_quiet hr hf _ d2)
    (fun d3 hq => ⟨fun k hk => hfree2 k ((hq.freeAt hr k).mp hk),
      fun _ => ht2.trans (hq.tidy hg ht2.base), nofun⟩) fun _ d3 hq3 => ?_
  have hk3 := h.kept hg (ht2.trans (hq3.tidy hg ht2.base))
  obtain ⟨d4, hrun4, ht4, hl4⟩ := hk3.live.write hg
    ((hk3.live.sited.setDirect (b := x.size / v.blockSize) fun _ => hf).resize
      ((x.size + v.blockSize) % 2 ^ 64))
    ((hk3.live.typed.setDirect (hg.fragment_lt hf)).resize (mod_lt _ (by decide)))
  have hq4 := (writeInode_quiet mine dp _ d3).of_eq hrun4
  refine .of_run hrun4 ⟨fun k hk => hfree2 k ((hq3.freeAt hr k).mp
    ((hq4.freeAt (hg.room dp) k).mp hk)), nofun, fun _ => ?_⟩
  obtain ⟨y, hy, hsame⟩ := hl4.stored
  have hgrew : y.size = (x.size + v.blockSize) % 2 ^ 64 := hsame.size
  refine ⟨y, hy, hk3.trans ⟨ht4, ⟨hl4.base, hl4.marked, ⟨y, hy, .refl y⟩,
    hl4.sited.same hsame, inodeAt_typed hy⟩, hsame.nlink, hsame.mode, hsame.uid,
    hsame.gid⟩, ?_⟩
  rw [hgrew, mod_eq_of_lt hsize]
  omega

/-- What `ufs2_dirlink` does to the directory `dp`, whose inode was `x`: it
may have grown, and nothing was freed. -/
structure Inserted (v : Volume) (mine : Nat → Prop) (dp : Nat) (d : Disk) (x : Inode)
    (d' : Disk) (y : Inode) : Prop extends Kept v mine dp d x d' y where
  read : inodeAt v (v.bytes d') dp = some y
  grew : y = x ∨ x.size < y.size
  free : ∀ k, FreeAt v (v.bytes d') k → FreeAt v (v.bytes d) k

section

variable (hg : Ground v mine)
include hg

lemma dirlinkLoop_inserted (name : List UInt8) (n : Nat) (type : UInt8) (fuel : Nat) :
    ∀ (x : Inode) (d : Disk), Live v mine dp (v.bytes d) x → inodeAt v (v.bytes d) dp = some x →
        (dirlinkLoop v dp name n type fuel).Leads d fun _ d' => ∃ y,
          Inserted v mine dp d x d' y := by
  induction fuel with
  | zero => exact fun _ _ _ _ => .panic
  | succ fuel ih => ?_
  intro x d h hx
  have hsame : ∃ y, Inserted v mine dp d x d y :=
    ⟨x, .refl h, hx, .inl rfl, fun _ hk => hk⟩
  -- writing data and groups leaves the dinode of the directory alone
  have hdata : ∀ d', Tidy v mine (nowhere v) (v.bytes d) (v.bytes d') →
      (∀ k, FreeAt v (v.bytes d') k → FreeAt v (v.bytes d) k) →
      ∃ y, Inserted v mine dp d x d' y := fun d' ht hfree =>
    ⟨x, h.kept hg ht, (ht.confined.inodeAt hg (h.ne_nowhere hg)).trans hx, .inl rfl, hfree⟩
  unfold dirlinkLoop
  split
  · exact .pure hsame
  refine Leads.andThen (P := fun r d1 => d1 = d ∧ r = some x)
    (Ensures.of_run (readInode_run v dp d) ⟨rfl, hx⟩).leads
    (fun _ h => h.1 ▸ hsame) ?_
  rintro y d1 ⟨rfl, hy⟩
  cases hy
  split
  · exact .pure hsame
  refine (lookup_reads dp name d1).bind ?_
  rintro r d2 rfl
  split
  · exact .pure hsame
  refine scanDirectory_leads (fun fo len block o => ?_) ?_ hsame _ _
  · split
    · exact .panic
    unfold writeExisting
    split
    · exact .pure hsame
    exact (writeBlocks_data hg x _ _ _ _ d2 h.sited).leads.mono
      fun _ d' hq => hdata d' (hq.tidy hg h.base) fun k hk => (hq.freeAt (hg.room _) k).mp hk
  refine Leads.andThen (growDirectory_kept hg h).leads
    (fun d' hk => hdata d' (hk.2.1 rfl) hk.1) fun _ d' hk => ?_
  obtain ⟨y, hy, hkept, hsize⟩ := hk.2.2 rfl
  refine (ih y d' hkept.live hy).mono ?_
  rintro _ d'' ⟨z, hz⟩
  refine ⟨z, hkept.trans hz.toKept, hz.read, .inr ?_, fun k hf => hk.1 k (hz.free k hf)⟩
  rcases hz.grew with rfl | hlt
  · exact hsize
  · exact lt_trans hsize hlt

lemma dirlink_inserted (h : Live v mine dp (v.bytes d) x) (hx : inodeAt v (v.bytes d) dp = some x)
    (name : List UInt8) (n : Nat) (type : UInt8) :
    (dirlink v dp name n type).Leads d fun _ d' => ∃ y, Inserted v mine dp d x d' y :=
  dirlinkLoop_inserted hg name n type _ x d h hx

/-- `ufs2_make_directory` for the inode `n`: its dinode changes, and after a
success it has two links and a block that was free. -/
lemma makeDirectory_kept (parent : Nat) (h : Live v mine n (v.bytes d) x)
    (hx : inodeAt v (v.bytes d) n = some x) :
    (makeDirectory v n parent).Ensures d fun r d' => Tidy v mine n (v.bytes d) (v.bytes d') ∧
      ∃ y, inodeAt v (v.bytes d') n = some y ∧ Live v mine n (v.bytes d') y ∧
        (r = some () → y.nlink = 2 ∧ y.mode = x.mode ∧ y.mode &&& IFMT = IFDIR ∧
          y.size = v.blockSize ∧ FreeAt v (v.bytes d) (y.direct 0) ∧
          ¬ FreeAt v (v.bytes d') (y.direct 0)) := by
  have hr := hg.room (nowhere v)
  have hpos := hg.probed.fragmentsPerBlock_pos
  have hmax := hg.probed.blockMax
  have hdata : ∀ d', Tidy v mine (nowhere v) (v.bytes d) (v.bytes d') →
      Tidy v mine n (v.bytes d) (v.bytes d') ∧ ∃ y, inodeAt v (v.bytes d') n = some y ∧
        Live v mine n (v.bytes d') y ∧ ((none : Option Unit) = some () → y.nlink = 2 ∧
          y.mode = x.mode ∧ y.mode &&& IFMT = IFDIR ∧ y.size = v.blockSize ∧
          FreeAt v (v.bytes d) (y.direct 0) ∧ ¬ FreeAt v (v.bytes d') (y.direct 0)) :=
    fun d' ht => ⟨ht.any hg, x, (ht.confined.inodeAt hg (h.ne_nowhere hg)).trans hx,
      h.data hg ht, nofun⟩
  refine .andThen_some (hx ▸ readInode_run v n d) ?_
  split
  · exact .pure (hdata d (.refl h.base))
  next hmode =>
  obtain ⟨r, d1, hrun1, ht1, hspec, hnew⟩ := allocBlock_tidy (nowhere v) hg h.base
  cases r with
  | none => exact .andThen_none hrun1 (hdata d1 ht1)
  | some f => ?_
  have hf := hnew f rfl
  refine .andThen_some hrun1 ?_
  refine Ensures.andThen (zeroBlock_quiet hr hf d1)
    (fun d2 hq => hdata d2 (ht1.trans (hq.tidy hg ht1.base))) fun _ d2 hq2 => ?_
  have ht2 := ht1.trans (hq2.tidy hg ht1.base)
  have hl2 := h.data hg ht2
  have hsd := hl2.sited.setDirect (b := 0) (f := f) fun _ => hf
  obtain ⟨d3, hrun3, ht3, hl3⟩ := hl2.write hg
    (y := { x.setDirect 0 f with size := v.blockSize, nlink := 2 })
    (hsd.pointers (fun _ _ => rfl) rfl)
    (((hl2.typed.setDirect (hg.fragment_lt hf)).resize
      (by omega : v.blockSize < 2 ^ 64)).relink (by decide : 2 < 2 ^ 16))
  refine .andThen_some hrun3 ?_
  refine (fillDirectory_quiet hr hf _ _ 0 d3 rfl).mono fun r d4 hq4 => ?_
  have ht4 := hq4.tidy hg hl3.base
  refine ⟨((ht2.any hg).trans ht3).trans (ht4.any hg), ?_⟩
  obtain ⟨y, hy, hsame⟩ := hl3.stored
  have hy4 := (ht4.confined.inodeAt hg (h.ne_nowhere hg)).trans hy
  have hl4 := hl3.data hg ht4
  have hdirect : y.direct 0 = f :=
    (hsame.direct 0 (by decide)).trans (setDirect_self x 0 f)
  refine ⟨y, hy4, ⟨hl4.base, hl4.marked, ⟨y, hy4, .refl y⟩, hl4.sited.same hsame,
    inodeAt_typed hy4⟩, fun _ => ⟨hsame.nlink, hsame.mode, ?_, hsame.size, ?_⟩⟩
  · rw [hsame.mode]
    exact not_not.mp hmode
  rw [hdirect]
  refine ⟨hspec.1 f le_rfl (by omega), fun hfree => ?_⟩
  have hq3 := (writeInode_quiet mine n _ d2).of_eq hrun3
  rw [hq4.freeAt hr, hq3.freeAt (hg.room n), hq2.freeAt hr] at hfree
  exact ((hspec.2 f).mp hfree).2 ⟨le_rfl, by omega⟩

/-! ## Allocating and freeing inodes -/

lemma Remarked.placed {used : Bool} (h : Placed v mine m) (hr : Remarked v m m' n used)
    (hself : ∀ x, Marked v m' n true → inodeAt v m' n = some x → Sited v mine m' x) :
    Placed v mine m' ∧ Confined v n mine m m' := by
  have hc : Confined v n mine m m' := fun i hi hs _ => hr.out i hs hi
  refine ⟨⟨h.maps_apart.congr hr.freeMap hr.inodeMap,
    fun k hk => h.free k ((hr.free h.maps_apart k).mp hk), fun k x hk hx => ?_⟩, hc⟩
  by_cases hkn : k = n
  · subst hkn
    exact hself x hk hx
  rw [hc.inodeAt hg hkn] at hx
  exact (h.sited k x ((hr.others k true hkn).mp hk) hx).confined hc

lemma TookInode.placed (h : Placed v mine m) {mode : Nat} (ht : TookInode v m m' mode n) :
    Placed v mine m' ∧ Confined v n mine m m' ∧
      Marked v m' n true ∧ (∀ k u, k ≠ n → (Marked v m' k u ↔ Marked v m k u)) ∧
      ∀ k, FreeAt v m' k ↔ FreeAt v m k := by
  have hr := ht.remarked (hg.slot_group n) hg.separate hg.probed hg.numbers
  obtain ⟨y, hy, -, -, hdirect, hindirect⟩ := ht.fresh
  obtain ⟨hplaced, hc⟩ := hr.placed hg h fun x _ hx => by
    obtain rfl := some.inj (hy.symm.trans hx)
    exact .empty hdirect hindirect
  exact ⟨hplaced, hc, hr.mark, hr.others, hr.free h.maps_apart⟩

lemma Untaken.placed (h : Placed v mine m) (hu : Untaken v m m') :
    Placed v mine m' ∧ (∀ k u, Marked v m' k u ↔ Marked v m k u) ∧
      ∀ k, Marked v m k true → inodeAt v m' k = inodeAt v m k := by
  rcases hu with rfl | ⟨n, -, hmark, hout⟩
  · exact ⟨h, fun _ _ => .rfl, fun _ _ => rfl⟩
  have hq : Quiet v n mine m m' := fun i hs _ => hout i hs
  have ht := hq.tidy hg h.base
  refine ⟨h.tidy hg ht fun htrue => ?_, ht.marked, fun k hk => ht.confined.inodeAt hg ?_⟩
  · cases htrue.unique hmark
  rintro rfl
  cases hk.unique hmark

lemma FreedInode.placed (h : Placed v mine m) (hf : FreedInode v m m' n) :
    Placed v mine m' ∧ Confined v n mine m m' ∧
      Marked v m' n false ∧ (∀ k u, k ≠ n → (Marked v m' k u ↔ Marked v m k u)) := by
  have hr := hf.remarked (hg.slot_group n) hg.separate hg.probed hg.numbers
  obtain ⟨hplaced, hc⟩ := hr.placed hg h fun x hk _ => nomatch hk.unique hr.mark
  exact ⟨hplaced, hc, hr.mark, hr.others⟩

lemma freeInode_used (hroot : ROOT_INO ≤ n) (hn : Marked v (v.bytes d) n true) :
    (freeInode v n).Ensures d fun _ d' => FreedInode v (v.bytes d) (v.bytes d') n := by
  refine (freeInode_spec (hg.slot_group n) hg.separate hg.probed hg.numbers d).mono
    fun r d' ⟨_, hfreed, hsome⟩ => ?_
  exact hfreed (hsome hroot hn (hg.slot_used hn))

end

lemma Inode.Typed.same (h : x.Typed) (hs : y.Same x) : y.Typed where
  mode := hs.mode ▸ h.mode
  nlink := hs.nlink ▸ h.nlink
  uid := hs.uid ▸ h.uid
  gid := hs.gid ▸ h.gid
  size := hs.size ▸ h.size
  direct i hi := hs.direct i hi ▸ h.direct i hi
  indirect i hi := hs.indirect i hi ▸ h.indirect i hi

lemma Live.copy (h : Live v mine n m x) (hs : y.Same x) : Live v mine n m y := by
  obtain ⟨z, hz, hzx⟩ := h.stored
  exact { h with
    stored := ⟨z, hz, hzx.trans hs.symm⟩, sited := h.sited.same hs, typed := h.typed.same hs }

/-- `itrunc` of an inode in use: afterwards it is free, or it is one of the
numbers that `ufs2_free_inode` refuses. -/
lemma itrunc_placed (hg : Ground v mine) (h : Placed v mine (v.bytes d))
    (hl : Live v mine n (v.bytes d) x) :
    (itrunc v n x).Ensures d fun _ d' => Placed v mine (v.bytes d') ∧
      (∀ k ≠ n, inodeAt v (v.bytes d') k = inodeAt v (v.bytes d) k) ∧
      ∀ k u, k ≠ n → (Marked v (v.bytes d') k u ↔ Marked v (v.bytes d) k u) := by
  refine (truncate_kept hg hl).bind fun p d1 ⟨hk, _⟩ => ?_
  have hp1 : Placed v mine (v.bytes d1) := h.tidy hg hk.tidy fun _ z hz => by
    obtain ⟨y, hy, hs⟩ := hk.live.stored
    rw [hz] at hy
    cases hy
    exact hk.live.sited.same hs
  by_cases hroot : ROOT_INO ≤ n
  · refine (freeInode_used hg hroot hk.live.marked).bind fun _ d2 hf => .pure ?_
    obtain ⟨hp2, hc, -, hothers⟩ := hf.placed hg hp1
    exact ⟨hp2, fun k hk' => (hc.inodeAt hg hk').trans (hk.tidy.confined.inodeAt hg hk'),
      fun k u hk' => (hothers k u hk').trans (hk.tidy.marked k u)⟩
  have hrun : (freeInode v n).run d1 = .ok (none, d1) := by
    rw [freeInode, if_pos (.inl (by omega))]
    rfl
  exact .step hrun (.pure ⟨hp1, fun k hk' => hk.tidy.confined.inodeAt hg hk',
    fun k u _ => hk.tidy.marked k u⟩)

end Proninx.Ufs2
