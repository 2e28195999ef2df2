import Proninx.Kern.Vfs
import Proninx.Kern.Ufs2Dir

/-!
# What a failed `create` leaves behind

`create` allocates an inode, initialises it and links it, and each stage
may allocate blocks of its own. On the way out of a failure it gives back
the inode and nothing else, so a failure leaves no trace exactly when no
block was allocated: always for a file, and for a directory only when the
failure comes before `ufs2_make_directory` has its block.
-/

namespace Proninx.Ufs2

open Blockdev ByteMem List Prog Vfs

/-- Byte `i` carries a directory: its dinode, a region, or the part of its
indirect block that is in use. -/
def DirByte (v : Volume) (m : Mem) (inode : Inode) (off i : Nat) : Prop :=
  (off ≤ i ∧ i < off + DINODE_SIZE) ∨
  (∃ r, r < regionCount inode ∧ regionOffset v m inode r ≤ i ∧
    i < regionOffset v m inode r + DIR_BLOCK_SIZE) ∨
  (DIRECT_BLOCKS * v.blockSize < inode.size ∧ ∃ k, k < v.blockSize / 8 ∧
    (inode.indirect 0 * v.fragmentSize + k * 8) % 2 ^ 64 ≤ i ∧
    i < (inode.indirect 0 * v.fragmentSize + k * 8) % 2 ^ 64 + 8)

/-- Directory `dp` on a consistent volume: what it and both allocators use
lies apart. Nothing is said about where the device ends. -/
structure Ready (v : Volume) (dp : Nat) (m : Mem) (inode : Inode) (off : Nat) : Prop where
  accepted : Accepted v
  separate : Separate v
  numbers : Numbers v
  maps_apart : MapsApart v m
  sound : Sound v dp m inode off
  tiled : AllTiled (contents v m inode)
  used : ¬ Marked v m dp false
  slot_group : ∀ n i, InSlot v n i → ¬ InGroups v i
  dir_group : ∀ i, DirByte v m inode off i → ¬ InGroups v i
  dir_slot : ∀ n i, n ≠ dp → DirByte v m inode off i → ¬ InSlot v n i
  free_end : ∀ k, FreeAt v m k → (k + 1) * v.fragmentSize ≤ U64MAX
  free_group : ∀ k i, FreeAt v m k → InFragment v k i → ¬ InGroups v i
  free_slot : ∀ k i n, FreeAt v m k → InFragment v k i → ¬ InSlot v n i
  free_dir : ∀ k i, FreeAt v m k → InFragment v k i → ¬ DirByte v m inode off i

variable {v : Volume} {dp : Nat} {m m' m'' : Mem} {inode : Inode} {off : Nat}

variable (v dp) in
/-- What the stages of `create` may have done so far: written the groups
without freeing a fragment, dinodes other than that of `dp`, and
fragments that were free. -/
structure Later (m m' : Mem) : Prop where
  bytes : ∀ i, ¬ InGroups v i → (∀ n, n ≠ dp → ¬ InSlot v n i) →
    (∀ k, FreeAt v m k → ¬ InFragment v k i) → m' i = m i
  free : ∀ k, FreeAt v m' k → FreeAt v m k
  maps_apart : MapsApart v m → MapsApart v m'

lemma Later.refl (m : Mem) : Later v dp m m :=
  ⟨fun _ _ _ _ => rfl, fun _ h => h, fun h => h⟩

lemma Later.trans (h : Later v dp m m') (h' : Later v dp m' m'') : Later v dp m m'' :=
  ⟨fun i hg hs hf => (h'.bytes i hg hs fun k hk => hf k (h.free k hk)).trans (h.bytes i hg hs hf),
    fun k hk => h.free k (h'.free k hk), fun hm => h'.maps_apart (h.maps_apart hm)⟩

section

variable (h : Ready v dp m inode off)
include h

lemma Ready.later (hl : Later v dp m m') :
    Sound v dp m' inode off ∧ contents v m' inode = contents v m inode := by
  have hdir : ∀ i, DirByte v m inode off i → m' i = m i := fun i hi =>
    hl.bytes i (h.dir_group i hi) (fun n hn => h.dir_slot n i hn hi)
      fun k hk hin => h.free_dir k i hk hin hi
  have hfree : ∀ {g k}, FreeFragment v m' g k → FreeFragment v m g k := by
    intro g k hk
    obtain ⟨mo, entries, hmap, hlt, -⟩ := id hk
    have hle := (freeMapAt_le hmap).2
    rw [← freeAt_iff (by omega)] at hk ⊢
    exact hl.free _ hk
  obtain ⟨hsound, hloc⟩ := h.sound.keep (fun i hi hj => (hdir i (.inl ⟨hi, hj⟩)).symm)
    (fun hlong k hk i hi hj => (hdir i (.inr (.inr ⟨hlong, k, hk, hi, hj⟩))).symm) hfree
  refine ⟨hsound, contents_congr fun r hr => ?_⟩
  rw [region, region, hloc r hr]
  exact window_eq_of_agree fun i hi =>
    hdir _ (.inr (.inl ⟨r, hr, Nat.le_add_right _ _, by omega⟩))

/-! ## The stages -/

lemma Ready.probed : v.Probed := h.accepted.probed

lemma Ready.room (n : Nat) : Room v n (FreeAt v m) where
  probed := h.probed
  separate := h.separate
  slot_apart := h.slot_group n
  number := by
    rintro k ⟨mo, entries, hmap, -⟩
    exact lt_trans (freeMapAt_le hmap).1 h.accepted.groups_lt
  address := h.free_end
  apart := fun k i hk hi => ⟨h.free_group k i hk hi, h.free_slot k i n hk hi⟩

variable {n : Nat}

lemma Later.quiet (hl : Later v dp m m') (hn : n ≠ dp) (hq : Quiet v n (FreeAt v m) m' m'') :
    Later v dp m m'' ∧ ∀ k u, Marked v m'' k u ↔ Marked v m' k u := by
  have hr := h.room n
  have hgroups : ∀ i, InGroups v i → m'' i = m' i := fun i hi =>
    hq i (fun hs => hr.slot_apart i hs hi) fun k hk hin => (hr.apart k i hk hin).1 hi
  refine ⟨⟨fun i hg hs hf => ?_, fun k hk => ?_, fun hm => ?_⟩,
    marked_congr h.separate h.probed h.numbers hgroups⟩
  · exact (hq i (hs n hn) hf).trans (hl.bytes i hg hs hf)
  · exact hl.free k ((hq.freeAt hr k).mp hk)
  · exact (hl.maps_apart hm).outside h.probed hgroups

lemma Later.took {mode : Nat} (ht : TookInode v m m' mode n) : n ≠ dp ∧ Later v dp m m' := by
  have hn : n ≠ dp := fun heq => h.used (heq ▸ ht.marked)
  obtain ⟨hfree, hinode, hfrag, -, -, hout⟩ :=
    ht.remarked (h.slot_group n) h.separate h.probed h.numbers
  exact ⟨hn, fun i hg hs _ => hout i (hs n hn) hg, fun k => (hfrag h.maps_apart k).mp,
    fun hm => hm.congr hfree hinode⟩

variable {d : Disk}

lemma allocBlock_later (hl : Later v dp m (v.bytes d)) :
    (allocBlock v).Ensures d fun r d' => Later v dp m (v.bytes d') ∧
      (∀ n u, Marked v (v.bytes d') n u ↔ Marked v (v.bytes d) n u) ∧
      AllocSpec v (v.bytes d) (v.bytes d') r ∧ (r = none → d' = d) := by
  have hs := h.separate
  have hp := h.probed
  rcases allocBlock_taken (hs.geometry hp) d with hnone | ⟨g, bit, d', hrun, htaken⟩
  · exact .of_run hnone ⟨hl, fun _ _ => .rfl, rfl, fun _ => rfl⟩
  have hspec := htaken.spec hs hp
  obtain ⟨mo, entries, hmap, -, hend, -, -, hw⟩ := htaken
  have hhead := (hw.fragments hs hp hmap hend).1
  refine .of_run hrun ⟨hl.trans ⟨fun i hg _ _ => hw.within hs hp hmap hend hg,
    fun k hk => ((hspec.2 k).mp hk).1, fun hm => hm.headers hhead⟩,
    hw.marked hs hp h.numbers hmap hend (hl.maps_apart h.maps_apart), hspec, nofun⟩

end

/-- Some fragment was free and is not any more, and none became free. -/
def Lost (v : Volume) (m m' : Mem) : Prop :=
  (∀ k, FreeAt v m' k → FreeAt v m k) ∧ ∃ k, FreeAt v m k ∧ ¬ FreeAt v m' k

lemma Lost.trans (h : Lost v m m') (hfree : ∀ k, FreeAt v m'' k → FreeAt v m' k) :
    Lost v m m'' := by
  obtain ⟨hmono, k, hk, hno⟩ := h
  exact ⟨fun j hj => hmono j (hfree j hj), k, hk, fun hf => hno (hfree k hf)⟩

variable {f : Nat}

lemma AllocSpec.lost (hp : v.Probed) (h : AllocSpec v m m' (some f)) : Lost v m m' := by
  have hpos := hp.fragmentsPerBlock_pos
  exact ⟨fun k hk => ((h.2 k).mp hk).1, f, h.1 f le_rfl (by omega),
    fun hf => ((h.2 f).mp hf).2 ⟨le_rfl, by omega⟩⟩

section

variable (h : Ready v dp m inode off)
include h

/-- What follows an allocation and writes the block and a dinode other
than that of `dp`: the stages go on, and the block stays allocated. -/
lemma Later.filled {d1 d2 : Disk} (hn : n ≠ dp)
    (hl : Later v dp m (v.bytes d1))
    (hmarked : ∀ n u, Marked v (v.bytes d1) n u ↔ Marked v (v.bytes d) n u)
    (hspec : AllocSpec v (v.bytes d) (v.bytes d1) (some f))
    (hq : Quiet v n (FreeAt v m) (v.bytes d1) (v.bytes d2)) :
    Later v dp m (v.bytes d2) ∧ (∀ n u, Marked v (v.bytes d2) n u ↔ Marked v (v.bytes d) n u) ∧
      Lost v (v.bytes d) (v.bytes d2) := by
  obtain ⟨hl2, hmarked2⟩ := hl.quiet h hn hq
  exact ⟨hl2, fun n u => (hmarked2 n u).trans (hmarked n u),
    (hspec.lost h.probed).trans fun k hk => (hq.freeAt (h.room n) k).mp hk⟩

omit h in
lemma AllocSpec.start {m1 : Mem} (hl : Later v dp m m1)
    (h : AllocSpec v m1 m' (some f)) : ∀ k < v.fragmentsPerBlock, FreeAt v m (f + k) :=
  fun k hk => hl.free _ (h.1 _ (Nat.le_add_right _ _) (by omega))

def BlockLeft (v : Volume) (d : Disk) : Prop := ∃ f d1, (allocBlock v).run d = .ok (some f, d1)

/-- What a stage that may ask for a block leaves: nothing has changed and
it got none, or it got one and the block stays allocated. -/
def AskedFor (v : Volume) (asks : Prop) (d d' : Disk) : Prop :=
  (d' = d ∧ ¬ (asks ∧ BlockLeft v d)) ∨ (asks ∧ BlockLeft v d ∧ Lost v (v.bytes d) (v.bytes d'))

lemma makeDirectory_later (hn : n ≠ dp)
    (hl : Later v dp m (v.bytes d)) (parent : Nat)
    (hx : ∃ x, inodeAt v (v.bytes d) n = some x ∧ x.mode &&& IFMT = IFDIR) :
    (makeDirectory v n parent).Ensures d fun r d' => Later v dp m (v.bytes d') ∧
      (∀ n u, Marked v (v.bytes d') n u ↔ Marked v (v.bytes d) n u) ∧
      AskedFor v True d d' ∧ (r ≠ none → BlockLeft v d) := by
  obtain ⟨x, hx, hmode⟩ := hx
  have hr := h.room n
  refine .andThen_some (hx ▸ readInode_run v n d) ?_
  rw [if_neg (not_not.mpr hmode)]
  obtain ⟨r, d1, hrun, hl1, hmarked1, hspec, hsame⟩ := allocBlock_later h hl
  cases r with
  | none =>
    refine .andThen_none hrun ⟨hl1, hmarked1, .inl ⟨hsame rfl, ?_⟩, fun hne => absurd rfl hne⟩
    rintro ⟨-, f, d2, hrun'⟩
    rw [hrun] at hrun'
    cases hrun'
  | some f => ?_
  have hf := hspec.start hl
  -- the rest writes the new block and the new dinode
  have hrest : ((zeroBlock v f).andThen fun _ =>
      (writeInode v n { x.setDirect 0 f with size := v.blockSize, nlink := 2 }).andThen fun _ =>
        fillDirectory v f (dotRegion n parent) v.blockSize 0).Ensures d1
          fun _ d' => Quiet v n (FreeAt v m) (v.bytes d1) (v.bytes d') := by
    refine Prog.Ensures.andThen (zeroBlock_quiet hr hf d1) (fun _ hq => hq) fun _ d2 hq2 => ?_
    refine Prog.Ensures.andThen (writeInode_quiet _ n _ d2) (fun _ hq => hq2.trans hq)
      fun _ d3 hq3 => ?_
    exact (fillDirectory_quiet hr hf _ _ 0 d3 rfl).mono fun _ _ hq => (hq2.trans hq3).trans hq
  refine .andThen_some hrun (hrest.mono fun r d' hq => ?_)
  obtain ⟨hl', hmarked', hlost⟩ := hl1.filled h hn hmarked1 hspec hq
  exact ⟨hl', hmarked', .inr ⟨trivial, ⟨f, d1, hrun⟩, hlost⟩, fun _ => ⟨f, d1, hrun⟩⟩

/-! ## A failing `ufs2_dirlink` -/

def MayGrow (v : Volume) (inode : Inode) : Prop :=
  inode.size % v.blockSize = 0 ∧ inode.size / v.blockSize < DIRECT_BLOCKS

/-- `ufs2_dirlink` of `name` comes to ask for a block: the name is good and
new, no record has room for it, and the directory may grow. -/
structure Grows (v : Volume) (m : Mem) (inode : Inode) (name : List UInt8) : Prop where
  absent : ∀ p ∈ entries (contents v m inode), p.1 ≠ name
  full : firstRecord (hasRoom (dirRecordSize name.length)) 0 (contents v m inode) = none
  good : nameLength name ≠ none
  may : MayGrow v inode

variable {d' : Disk} {name : List UInt8} {o : Nat}

omit h in
lemma Sound.insert_not_none {dino : Nat} (h : Sound v dino (v.bytes d) inode off)
    (ht : AllTiled (contents v (v.bytes d) inode)) {inodeNumber : Nat}
    {type : UInt8} (hl : Linkable name inodeNumber type)
    (habsent : firstRecord (hasName name) 0 (contents v (v.bytes d) inode) = none) {fuel r : Nat}
    (hfirst : firstRecord (hasRoom (dirRecordSize name.length)) 0
      (contents v (v.bytes d) inode) = some (r, o)) :
    (dirlinkLoop v dino name inodeNumber type (fuel + 1)).run d ≠ .ok (none, d') := by
  intro hrun
  rw [h.dirlinkLoop_absent ht hl habsent, hfirst] at hrun
  dsimp only at hrun
  split at hrun
  · cases hrun
  obtain ⟨pre, x, post, hc, hr, -, -⟩ := firstRecord_some hfirst
  rw [zero_add] at hr
  subst hr
  obtain ⟨d1, hstore, -⟩ := h.store hc
    (insertRecord (region v (v.bytes d) inode pre.length) o name inodeNumber type)
  rw [hstore] at hrun
  cases hrun

lemma growDirectory_none (hn : n ≠ dp)
    (hl : Later v dp m (v.bytes d)) (hrun : (growDirectory v dp inode).run d = .ok (none, d')) :
    Later v dp m (v.bytes d') ∧ (∀ n u, Marked v (v.bytes d') n u ↔ Marked v (v.bytes d) n u) ∧
      AskedFor v (MayGrow v inode) d d' := by
  have hr := h.room n
  unfold growDirectory at hrun
  split at hrun
  · next hcond =>
    cases hrun
    refine ⟨hl, fun _ _ => .rfl, .inl ⟨rfl, ?_⟩⟩
    rintro ⟨⟨hmod, h12⟩, -⟩
    omega
  next hcond =>
  have hask : MayGrow v inode := ⟨by omega, by omega⟩
  obtain ⟨r, d1, hrun1, hl1, hmarked1, hspec, hsame⟩ := allocBlock_later h hl
  cases r with
  | none =>
    rw [run_andThen_none hrun1] at hrun
    cases hrun
    refine ⟨hl1, hmarked1, .inl ⟨hsame rfl, ?_⟩⟩
    rintro ⟨-, f, d2, hrun'⟩
    rw [hrun1] at hrun'
    cases hrun'
  | some f => ?_
  rw [run_andThen_some hrun1] at hrun
  have hf := hspec.start hl
  -- the dinode of `dp` is on the device, so only the writes to the block can fail
  have hrest : ((zeroBlock v f).andThen fun _ =>
      (fillBlock v f freeRegion v.blockSize 0).andThen fun _ =>
        writeInode v dp (lengthened v inode f)).Ensures d1 fun r d' =>
          r = none → Quiet v n (FreeAt v m) (v.bytes d1) (v.bytes d') := by
    refine Prog.Ensures.andThen (zeroBlock_quiet hr hf d1) (fun _ hq _ => hq) fun _ d2 hq2 => ?_
    refine Prog.Ensures.andThen (fillBlock_quiet hr hf _ d2) (fun _ hq _ => hq2.trans hq)
      fun _ d3 hq3 => ?_
    obtain ⟨d4, hrun4, -⟩ := writeInode_run h.sound.offset h.sound.fits (lengthened v inode f) d3
    exact .of_run hrun4 nofun
  obtain ⟨hl', hmarked', hlost⟩ := hl1.filled h hn hmarked1 hspec (hrest.of_eq hrun rfl)
  exact ⟨hl', hmarked', .inr ⟨hask, ⟨f, d1, hrun1⟩, hlost⟩⟩

lemma dirlink_none (hn : n ≠ dp)
    (hl : Later v dp m (v.bytes d)) {type : UInt8} (hroot : ROOT_INO ≤ n)
    (htype : type = DIRTYPE_REG ∨ type = DIRTYPE_DIR)
    (hrun : (dirlink v dp name n type).run d = .ok (none, d')) :
    Later v dp m (v.bytes d') ∧ (∀ n u, Marked v (v.bytes d') n u ↔ Marked v (v.bytes d) n u) ∧
      AskedFor v (Grows v m inode name) d d' := by
  obtain ⟨hsound, hc⟩ := h.later hl
  have ht : AllTiled (contents v (v.bytes d) inode) := hc ▸ h.tiled
  by_cases hbad : ¬ Linkable name n type ∨
      firstRecord (hasName name) 0 (contents v (v.bytes d) inode) ≠ none
  · rw [hsound.dirlink_refused ht hbad] at hrun
    cases hrun
    refine ⟨hl, fun _ _ => .rfl, .inl ⟨rfl, ?_⟩⟩
    rintro ⟨hg, -⟩
    rw [hc, Ne, firstRecord_hasName_none] at hbad
    exact hbad.elim (fun hno => hno ⟨hroot, hg.good, htype⟩) fun hno => hno hg.absent
  rw [not_or, not_not, not_not] at hbad
  obtain ⟨hlink, habsent⟩ := hbad
  cases hfirst : firstRecord (hasRoom (dirRecordSize name.length)) 0
      (contents v (v.bytes d) inode) with
  | some p => exact absurd hrun (hsound.insert_not_none ht hlink habsent hfirst)
  | none =>
    have hloop := hsound.dirlinkLoop_absent ht hlink habsent (DIRECT_BLOCKS + 1)
    rw [hfirst] at hloop
    have hrun := hloop.symm.trans hrun
    rcases hsound.grow with ⟨d1, hgrow, -⟩ | ⟨d1, inode1, hgrow, h1, hc1⟩
    · rw [run_andThen_none hgrow] at hrun
      cases hrun
      obtain ⟨hl', hmarked, hasked⟩ := growDirectory_none h hn hl hgrow
      have hiff : MayGrow v inode ↔ Grows v m inode name :=
        ⟨fun hmay => ⟨hc ▸ firstRecord_hasName_none.mp habsent, hc ▸ hfirst, hlink.name, hmay⟩,
          fun hg => hg.may⟩
      exact ⟨hl', hmarked, propext hiff ▸ hasked⟩
    · -- the retry finds room in the new block
      obtain ⟨-, ht1, hentries, hfirst1⟩ :=
        grown_contents hsound.probed ht hlink.length_le hfirst hc1
      rw [run_andThen_some hgrow] at hrun
      rw [firstRecord_hasName_none, ← hentries, ← firstRecord_hasName_none] at habsent
      exact absurd hrun (h1.insert_not_none ht1 hlink habsent hfirst1)

/-! ## A failing `create` -/

omit h in
lemma AskedFor.mono {asks : Prop} (h : AskedFor v asks d d') :
    ∀ k, FreeAt v (v.bytes d') k → FreeAt v (v.bytes d) k := by
  rcases h with ⟨rfl, -⟩ | ⟨-, -, hlost⟩
  · exact fun _ hk => hk
  · exact hlost.1

/-- A block is taken on the way through `create`: there is an inode for the
new file, a block, and a stage that asks for it. -/
def TakesBlock (v : Volume) (inode : Inode) (name : List UInt8) (type : NewType) (d : Disk) :
    Prop :=
  ∃ inum d1, (allocInode v type.mode).run d = .ok (some inum, d1) ∧ BlockLeft v d1 ∧
    (type = .dir ∨ Grows v (v.bytes d) inode name)

variable {type : NewType}

lemma stages_none (ht : TookInode v m (v.bytes d) type.mode n)
    (hrun : ((if type = .dir then makeDirectory v n dp else pure (some ())).andThen fun _ =>
      dirlink v dp name n type.directoryType).run d = .ok (none, d')) :
    Later v dp m (v.bytes d') ∧ (∀ n u, Marked v (v.bytes d') n u ↔ Marked v (v.bytes d) n u) ∧
      AskedFor v (type = .dir ∨ Grows v m inode name) d d' := by
  obtain ⟨hn, hl⟩ := Later.took h ht
  have htype : type.directoryType = DIRTYPE_REG ∨ type.directoryType = DIRTYPE_DIR := by
    cases type <;> decide
  by_cases hdir : type = .dir
  · rw [if_pos hdir] at hrun
    have hx : ∃ x, inodeAt v (v.bytes d) n = some x ∧ x.mode &&& IFMT = IFDIR := by
      obtain ⟨x, hx, hmode, -⟩ := ht.fresh
      exact ⟨x, hx, by rw [hmode, hdir]; decide⟩
    obtain ⟨r, d1, hrun1, hl1, hmarked1, hasked, hleft⟩ := makeDirectory_later h hn hl dp hx
    cases r with
    | none =>
      rw [run_andThen_none hrun1] at hrun
      cases hrun
      exact ⟨hl1, hmarked1, hasked.imp (fun hsame => ⟨hsame.1, fun hb => hsame.2 ⟨trivial, hb.2⟩⟩)
        fun hlost => ⟨.inl hdir, hlost.2⟩⟩
    | some u => ?_
    rw [run_andThen_some hrun1] at hrun
    obtain ⟨hl2, hmarked2, hasked2⟩ := dirlink_none h hn hl1 ht.root htype hrun
    have hblock := hleft nofun
    refine ⟨hl2, fun n u => (hmarked2 n u).trans (hmarked1 n u), .inr ⟨.inl hdir, hblock, ?_⟩⟩
    rcases hasked with ⟨-, hno⟩ | ⟨-, -, hlost⟩
    · exact absurd ⟨trivial, hblock⟩ hno
    · exact hlost.trans hasked2.mono
  · rw [if_neg hdir] at hrun
    obtain ⟨hl2, hmarked2, hasked2⟩ := dirlink_none h hn hl ht.root htype hrun
    rw [or_iff_right hdir]
    exact ⟨hl2, hmarked2, hasked2⟩

lemma freeInode_undo {d1 d2 : Disk} {mode : Nat}
    (ht : TookInode v m (v.bytes d1) mode n) (hl : Later v dp m (v.bytes d2))
    (hmarked : ∀ n u, Marked v (v.bytes d2) n u ↔ Marked v (v.bytes d1) n u) :
    (freeInode v n).Ensures d2 fun _ d' => Later v dp m (v.bytes d') ∧
      (∀ k u, Marked v (v.bytes d') k u ↔ Marked v m k u) ∧
      ∀ k, FreeAt v (v.bytes d') k ↔ FreeAt v (v.bytes d2) k := by
  have hslot := h.slot_group n
  have hs := h.separate
  have hp := h.probed
  obtain ⟨hn, -⟩ := Later.took h ht
  obtain ⟨-, -, -, hothers, hself, -⟩ := ht.remarked hslot hs hp h.numbers
  obtain ⟨o, io, m1, hoff, hfit, -⟩ := ht.bytes
  refine (freeInode_spec hslot hs hp h.numbers d2).mono fun r d' ⟨_, hfreed, hsome⟩ => ?_
  obtain rfl := hsome ht.root ((hmarked n true).mpr hself) ⟨o, hoff, hfit⟩
  obtain ⟨hmaps, himaps, hfree, hothers', hself', hout⟩ :=
    (hfreed rfl).remarked hslot hs hp h.numbers
  have hfree := hfree (hl.maps_apart h.maps_apart)
  refine ⟨⟨fun i hg hsl hf => ?_, fun k hk => hl.free k ((hfree k).mp hk), fun hm => ?_⟩,
    fun k u => ?_, hfree⟩
  · exact (hout i (hsl n hn) hg).trans (hl.bytes i hg hsl hf)
  · exact (hl.maps_apart hm).congr hmaps himaps
  by_cases hk : k = n
  · -- the number was free, and is free again
    subst hk
    constructor
    · intro hu
      cases hu.unique hself'
      exact ht.marked
    intro hu
    cases hu.unique ht.marked
    exact hself'
  · exact (hothers' k u hk).trans ((hmarked k u).trans (hothers k u hk))

end

lemma createNode_none (h : Ready v dp (v.bytes d) inode off)

    (hrun : (createNode v dp name type).run d = .ok (none, d')) :
    Later v dp (v.bytes d) (v.bytes d') ∧
      (∀ n u, Marked v (v.bytes d') n u ↔ Marked v (v.bytes d) n u) ∧
      (Lost v (v.bytes d) (v.bytes d') ↔ TakesBlock v inode name type d) := by
  obtain ⟨r, d1, hrun1, hspec⟩ := allocInode_spec h.numbers type.mode d
  unfold createNode at hrun
  rw [run_bind_ok hrun1] at hrun
  cases r with
  | none =>
    cases hrun
    have hquiet : ∃ n ≠ dp, Quiet v n (FreeAt v (v.bytes d)) (v.bytes d) (v.bytes d') := by
      rcases hspec with heq | ⟨n, -, hmark, hout⟩
      · exact ⟨dp + 1, by omega, heq ▸ Quiet.refl _⟩
      · exact ⟨n, fun heq => h.used (heq ▸ hmark), fun i hi _ => hout i hi⟩
    obtain ⟨n, hn, hq⟩ := hquiet
    obtain ⟨hl, hmarked⟩ := (Later.refl _).quiet h hn hq
    refine ⟨hl, hmarked, iff_of_false ?_ ?_⟩
    · rintro ⟨-, k, hk, hno⟩
      exact hno ((hq.freeAt (h.room n) k).mpr hk)
    rintro ⟨inum, d2, hrun', -⟩
    rw [hrun1] at hrun'
    cases hrun'
  | some n => ?_
  obtain ⟨r, d2, hrun2, hrest⟩ := Prog.run_bind_inv hrun
  cases r with
  | some u => cases hrest
  | none => ?_
  have ht : TookInode v (v.bytes d) (v.bytes d1) type.mode n := hspec
  obtain ⟨hl2, hmarked2, hasked⟩ := stages_none h ht hrun2
  obtain ⟨-, -, hfree1, -⟩ := ht.remarked (h.slot_group n) h.separate h.probed h.numbers
  have hfree1 := hfree1 h.maps_apart
  rw [if_pos ht.root] at hrest
  obtain ⟨r3, d3, hrun3, hl3, hmarked3, hfree3⟩ := freeInode_undo h ht hl2 hmarked2
  have heq := hrest.symm.trans (Prog.run_bind_ok hrun3)
  cases heq
  refine ⟨hl3, hmarked3, ?_⟩
  have hlost : Lost v (v.bytes d) (v.bytes d') ↔ Lost v (v.bytes d1) (v.bytes d2) := by
    unfold Lost
    simp only [hfree3, hfree1]
  rw [hlost]
  constructor
  · intro hl
    rcases hasked with ⟨rfl, -⟩ | ⟨hask, hleft, -⟩
    · obtain ⟨-, k, hk, hno⟩ := hl
      exact absurd hk hno
    · exact ⟨n, d1, hrun1, hleft, hask⟩
  rintro ⟨inum, d1', hrun', hleft, hask⟩
  rw [hrun1] at hrun'
  cases hrun'
  rcases hasked with ⟨-, hno⟩ | ⟨-, -, hl⟩
  · exact absurd ⟨hask, hleft⟩ hno
  · exact hl

/-- The bitmaps, the entries of `dp` and its link count are as before. -/
structure NoTrace (v : Volume) (dp : Nat) (d d' : Disk) : Prop where
  fragments : ∀ k, FreeAt v (v.bytes d') k ↔ FreeAt v (v.bytes d) k
  inodes : ∀ n u, Marked v (v.bytes d') n u ↔ Marked v (v.bytes d) n u
  entries : entries (directory v dp d') = entries (directory v dp d)
  nlink : (inodeAt v (v.bytes d') dp).map (·.nlink) = (inodeAt v (v.bytes d) dp).map (·.nlink)

/-- `create` gets as far as allocating: the caller may write `dp`, the name
is not found, and it is a type the file system has. -/
structure Reaches (v : Volume) (cred : Cred) (dp : Nat) (name : List UInt8) (type : NewType)
    (s : State) : Prop where
  access : inodeAccess cred (held v s dp) 3 = true
  absent : (lookup v dp name).run s.disk = .ok (none, s.disk)
  type : type ≠ .device

lemma Ready.lookup_reads (h : Ready v dp (v.bytes d) inode off) (name : List UInt8) :
    ∃ r, (lookup v dp name).run d = .ok (r, d) ∧
      ∀ n, r = some n → (name, n) ∈ Ufs2.entries (directory v dp d) := by
  by_cases hname : nameLength name = none
  · exact ⟨none, by rw [lookup, if_pos hname]; rfl, nofun⟩
  have hcons : Consistent v dp d := ⟨inode, off, h.sound⟩
  obtain ⟨r, hrun, hmem, -⟩ := hcons.lookup_entries (by
    rw [h.sound.directory_eq]
    exact h.tiled) hname
  exact ⟨r, hrun, hmem⟩

open Stateful in
/-- A `create` that returns zero failed in `createNode`, or has not touched
the disk. -/
lemma create_none {s : State} {cred : Cred}
    (h : Ready v dp (v.bytes s.disk) inode off) (hdp : Linked v s dp)
    (hnamed : ∀ n, (name, n) ∈ Ufs2.entries (directory v dp s.disk) → Linked v s n) :
    Leads (create v cred dp name type) s fun r t => r = none →
      (t.disk = s.disk ∧ ¬ Reaches v cred dp name type s) ∨
      (Reaches v cred dp name type s ∧
        (createNode v dp name type).run s.disk = .ok (none, t.disk)) := by
  obtain ⟨found, hlookup, hmem⟩ := h.lookup_reads name
  refine .bind (P := fun _ t => Calm v s t ∧ t.entry dp = held v s dp) ?_ ?_
  · intro a t hrun
    exact ⟨ilock_calm a t hrun, ((ilock_leads a t hrun).2 dp).trans (if_pos rfl)⟩
  rintro _ s1 ⟨hc1, he1⟩
  refine .get ?_
  rw [he1]
  split
  · next hno =>
    refine (iput_calm (hc1.2 dp hdp)).bind fun _ s2 hc2 => .pure fun _ => .inl ⟨?_, ?_⟩
    · exact (hc1.trans hc2).1
    intro hr
    rw [hr.access] at hno
    cases hno
  next haccess =>
  refine .bind (P := fun r t => Calm v s t ∧ r = found) ?_ ?_
  · refine .get ?_
    split
    · exact .throw
    have hrun : onDisk (lookup v dp name) s1 = .ok (found, s1) := by
      rw [onDisk, hc1.1, hlookup, ← hc1.1]
    refine .bind_ok hrun ?_
    cases found with
    | none => exact .pure ⟨hc1, rfl⟩
    | some n => exact iget_calm.bind fun _ t hc => .pure ⟨hc1.trans hc, rfl⟩
  rintro r s2 ⟨hc2, rfl⟩
  cases r with
  | some n =>
    have hno : ¬ Reaches v cred dp name type s := by
      intro hr
      have := hr.absent
      rw [hlookup] at this
      cases this
    have hn := hnamed n (hmem n rfl)
    refine (iput_calm (hc2.2 dp hdp)).bind fun _ s3 hc3 => ?_
    have hc3 := hc2.trans hc3
    refine ilock_calm.bind fun _ s4 hc4 => .get ?_
    have hc4 := hc3.trans hc4
    split
    · exact .pure (by simp)
    refine (iput_calm (hc4.2 n hn)).bind fun _ s5 hc5 => .pure fun _ => ?_
    exact .inl ⟨(hc4.trans hc5).1, hno⟩
  | none => ?_
  dsimp only
  split
  · next htype =>
    refine (iput_calm (hc2.2 dp hdp)).bind fun _ s3 hc3 => .pure fun _ => .inl ⟨?_, ?_⟩
    · exact (hc2.trans hc3).1
    · exact fun hr => hr.type htype
  next htype =>
  have hr : Reaches v cred dp name type s :=
    ⟨by simpa using haccess, hlookup, htype⟩
  refine .bind (P := fun r t => (createNode v dp name type).run s.disk
      = .ok (r, t.disk) ∧ ∀ k, t.entry k = s2.entry k) ?_ ?_
  · exact Leads.onDisk fun r d hrun => ⟨hc2.1 ▸ hrun, fun _ => rfl⟩
  rintro r s3 ⟨hrun, hcache⟩
  cases r with
  | none =>
    -- the parent still has its links
    obtain ⟨hl, -, -⟩ := createNode_none h hrun
    have hlinked : Linked v s3 dp := by
      refine ⟨?_, fun x hx => (hdp.stored x) ?_⟩
      · rw [hcache]
        exact (hc2.2 dp hdp).cached
      · rw [← hx, (h.later hl).1.inode_eq, h.sound.inode_eq]
    refine (iput_calm hlinked).bind fun _ s4 hc4 => .pure fun _ => .inr ⟨hr, ?_⟩
    rw [hc4.1]
    exact hrun
  | some inum => ?_
  have hend : ∀ t, Leads (do
      iget inum
      iput v dp
      ilock v inum
      pure (some inum)) t fun r _ => r ≠ none := fun t =>
    .bind .trivial fun _ _ _ => .bind .trivial fun _ _ _ =>
      .bind .trivial fun _ _ _ => .pure (by simp)
  refine Leads.mono (P := fun r _ => r ≠ none) ?_ fun r t hne heq => absurd heq hne
  dsimp only
  split
  · exact .bind .trivial fun _ t _ => hend t
  · exact hend s3

def homeVolume : Volume where
  device := ⟨0, 256⟩
  blockSize := 4096
  fragmentSize := 512
  fragmentsPerBlock := 8
  cylinderGroups := 1
  inodesPerGroup := 16
  fragmentsPerGroup := 16
  inodesPerBlock := 16
  inodeTableFragment := 200
  cylinderGroupBlock := 150
  cylinderGroupSize := 512

def homeGroup : Mem := poke (poke (groupHeader homeVolume 0) 128 7) 257 0xff

/-- The dinode of a directory of `c` regions. -/
def homeDinode (c : Nat) : Mem :=
  writeLe 8 (writeLe 8 (writeLe 2 (writeLe 2 (fun _ => 0) 0 (IFDIR + 0o755)) 2 2) 16
    (c * DIR_BLOCK_SIZE)) 112 40

/-- The volume with `c` regions of `block` in the root directory. -/
def homeImage (c : Nat) (block : Mem) : Mem :=
  let m := blit (fun _ => 0) SUPERBLOCK_OFFSET (superblockOf homeVolume) SUPERBLOCK_SIZE
  let m := blit m 76800 homeGroup 512
  let m := blit m 102912 (homeDinode c) DINODE_SIZE
  blit m 20480 block 4096

def homeDisk (c : Nat) (block : Mem) : Disk := imageDisk (homeImage c block)

section Home

variable {c : Nat} {block : Mem} {i : Nat}

lemma homeDisk_bytes (h : i < 131072) :
    homeVolume.bytes (homeDisk c block) i = homeImage c block i :=
  flat_image (by decide) _ h

lemma homeVolume_fits {a : Nat} (h : a + n ≤ 131072) : homeVolume.device.Fits a n :=
  fits_image (by decide) h

lemma homeVolume_accepted : Accepted homeVolume :=
  accepted_image rfl (by decide) (by decide) (by decide) (by decide) (by decide)

variable {g : Nat}

lemma homeVolume_group (h : cgOffset homeVolume g = some o) : g = 0 ∧ o = 76800 := by
  obtain ⟨hg, rfl⟩ := cgOffset_some h
  obtain rfl : g = 0 := Nat.lt_one_iff.mp hg
  exact ⟨rfl, rfl⟩

lemma homeVolume_separate : Separate homeVolume where
  small := by decide
  apart := .inl rfl
  ends g o ho := by
    obtain ⟨rfl, rfl⟩ := homeVolume_group ho
    decide

lemma homeVolume_slot (h : inodeOffset homeVolume n = some o) : n < 16 ∧ o = 102400 + n * 256 := by
  obtain ⟨hn, rfl, -⟩ := (inodeOffset_iff homeVolume_accepted.probed).mp h
  have hn : n < 16 := by
    change n / 16 < 1 at hn
    omega
  have hslot : ∀ n < 16, slot homeVolume n + 200 * 512 = 102400 + n * 256 := by decide
  exact ⟨hn, hslot n hn⟩

lemma inGroups_home : InGroups homeVolume i ↔ 76800 ≤ i ∧ i < 77312 := by
  constructor
  · rintro ⟨g, o, ho, hlo, hhi⟩
    obtain ⟨rfl, rfl⟩ := homeVolume_group ho
    exact ⟨hlo, hhi⟩
  · rintro ⟨hlo, hhi⟩
    exact ⟨0, 76800, by decide, hlo, hhi⟩

lemma homeDisk_groups (h : 76800 ≤ i ∧ i < 77312) :
    homeVolume.bytes (homeDisk c block) i = homeGroup (i - 76800) := by
  rw [homeDisk_bytes (by omega), homeImage, blit_out (by omega), blit_out (by omega),
    blit_in (by omega) (by omega)]

lemma homeDisk_header {o : Nat} (ho : cgOffset homeVolume g = some o) :
    Agree (homeVolume.bytes (homeDisk c block)) (blit (fun _ => 0) 76800 homeGroup 512) o
      CG_HEADER_SIZE := by
  intro i hi hj
  obtain ⟨-, rfl⟩ := homeVolume_group ho
  unfold CG_HEADER_SIZE at hj
  rw [homeDisk_groups (by omega), blit_in (by omega) (by omega)]

lemma homeDisk_freeMap {mo entries : Nat}
    (h : freeMapAt homeVolume (homeVolume.bytes (homeDisk c block)) g = some (mo, entries)) :
    g = 0 ∧ mo = 77056 ∧ entries = 16 := by
  obtain rfl : g = 0 := Nat.lt_one_iff.mp (freeMapAt_le h).1
  have hbase : freeMapAt homeVolume (blit (fun _ => 0) 76800 homeGroup 512) 0
      = some (77056, 16) := by decide +kernel
  rw [← freeMapAt_congr fun _ => homeDisk_header, hbase] at h
  cases h
  exact ⟨rfl, rfl, rfl⟩

lemma homeDisk_inodeMap {io : Nat}
    (h : inodeMapAt homeVolume (homeVolume.bytes (homeDisk c block)) g = some io) :
    g = 0 ∧ io = 76928 := by
  obtain ⟨o, ho, -⟩ := inodeMapAt_inside (v := homeVolume) ⟨by decide, by decide⟩ h
  obtain ⟨rfl, rfl⟩ := homeVolume_group ho
  have hbase : inodeMapAt homeVolume (blit (fun _ => 0) 76800 homeGroup 512) 0
      = some 76928 := by decide +kernel
  rw [← inodeMapAt_congr fun _ => homeDisk_header, hbase] at h
  cases h
  exact ⟨rfl, rfl⟩

lemma homeDisk_free {k : Nat}
    (h : FreeFragment homeVolume (homeVolume.bytes (homeDisk c block)) g k) :
    g = 0 ∧ 8 ≤ k ∧ k < 16 := by
  obtain ⟨mo, entries, hmap, hk, -, hbit⟩ := h
  obtain ⟨rfl, rfl, rfl⟩ := homeDisk_freeMap hmap
  refine ⟨rfl, ?_, hk⟩
  have hbyte : mapByte 77056 k = 77056 + k / 8 := Nat.mod_eq_of_lt (by omega)
  rw [hbyte, homeDisk_groups (by omega)] at hbit
  have hall : ∀ k < 16, testBit (homeGroup (77056 + k / 8 - 76800)) (k % 8) → 8 ≤ k := by decide
  exact hall k hk hbit

def homeInode (c : Nat) : Inode := decodeInode (homeDinode c)

lemma homeInode_fields (hc : c ≤ 8) : (homeInode c).mode &&& IFMT = IFDIR ∧
    (homeInode c).size = c * DIR_BLOCK_SIZE ∧ (homeInode c).direct 0 = 40 ∧
    (homeInode c).nlink = 2 := by
  revert c
  decide

lemma homeDinode_zero (h : DINODE_SIZE ≤ i) : homeDinode c i = 0 := by
  unfold DINODE_SIZE at h
  rw [homeDinode, writeLe_out (by omega), writeLe_out (by omega), writeLe_out (by omega),
    writeLe_out (by omega)]

lemma homeDisk_inode :
    inodeAt homeVolume (homeVolume.bytes (homeDisk c block)) 2 = some (homeInode c) := by
  have hoff : inodeOffset homeVolume 2 = some 102912 := by decide
  rw [inodeAt_eq hoff (homeVolume_fits (by decide))]
  refine congrArg (fun m => some (decodeInode m)) (funext fun i => ?_)
  by_cases hi : i < DINODE_SIZE
  · have : DINODE_SIZE = 256 := rfl
    rw [window_apply hi, homeDisk_bytes (by omega), homeImage, blit_out (by omega),
      blit_in (by omega) (by omega), Nat.add_sub_cancel_left]
  · rw [window, blit_out (by omega), homeDinode_zero (by omega)]

lemma homeDisk_region {r : Nat} (hc : c ≤ 8) (hr : r < regionCount (homeInode c)) :
    r < c ∧ byteAt homeVolume (homeVolume.bytes (homeDisk c block)) (homeInode c)
      (r * DIR_BLOCK_SIZE) = some (20480 + r * 512) ∧
    regionOffset homeVolume (homeVolume.bytes (homeDisk c block)) (homeInode c) r
      = 20480 + r * 512 := by
  obtain ⟨-, hsize, hdirect, -⟩ := homeInode_fields hc
  have hr : r < c := by
    rw [regionCount, hsize] at hr
    unfold DIR_BLOCK_SIZE at hr
    omega
  have hbyte : byteAt homeVolume (homeVolume.bytes (homeDisk c block)) (homeInode c)
      (r * DIR_BLOCK_SIZE) = some (20480 + r * 512) := by
    have hblock : r * 512 / 4096 = 0 := by omega
    rw [byteAt_direct hblock (by decide), hdirect, if_neg (by decide)]
    show some ((40 * 512 + r * 512 % 4096) % 2 ^ 64) = _
    exact congrArg some (by omega)
  exact ⟨hr, hbyte, by rw [regionOffset, hbyte]; rfl⟩

lemma homeDisk_sound (hc : c ≤ 8) :
    Sound homeVolume 2 (homeVolume.bytes (homeDisk c block)) (homeInode c) 102912 := by
  have hds : DIR_BLOCK_SIZE = 512 := rfl
  have hcg : homeVolume.cylinderGroupSize = 512 := rfl
  have hfs : homeVolume.fragmentSize = 512 := rfl
  obtain ⟨hmode, hsize, -, -⟩ := homeInode_fields hc
  exact {
    probed := homeVolume_accepted.probed
    geometry := ⟨by decide, by decide⟩
    offset := by decide
    fits := homeVolume_fits (by decide)
    inode_eq := homeDisk_inode
    mode := hmode
    size := by
      rw [hsize]
      exact Nat.mul_mod_left ..
    regions := fun r hr => by
      obtain ⟨hr, hbyte, -⟩ := @homeDisk_region c block r hc hr
      exact ⟨_, hbyte, homeVolume_fits (by omega)⟩
    regions_apart := fun r s hr hs hne => by
      rw [(homeDisk_region hc hr).2.2, (homeDisk_region hc hs).2.2]
      unfold Apart
      omega
    region_inode := fun r hr => by
      obtain ⟨hr, -, hoff⟩ := @homeDisk_region c block r hc hr
      rw [hoff]
      exact .inl (by omega)
    region_indirect := fun hlong => by
      rw [hsize, hds] at hlong
      have : DIRECT_BLOCKS * homeVolume.blockSize = 49152 := rfl
      omega
    region_group := fun r hr g o ho => by
      obtain ⟨hr, -, hoff⟩ := @homeDisk_region c block r hc hr
      rw [hoff, (homeVolume_group ho).2]
      exact .inl (by omega)
    inode_group := fun g o ho => by
      rw [(homeVolume_group ho).2]
      exact .inr (by omega)
    groups_apart := fun g h o p hne hg hh =>
      absurd ((homeVolume_group hg).1.trans (homeVolume_group hh).1.symm) hne
    group_end := fun g o ho => by
      rw [(homeVolume_group ho).2]
      decide
    free_ne := fun g k hf => by
      obtain ⟨rfl, hk, -⟩ := homeDisk_free hf
      omega
    free_inode := fun g k hf => by
      obtain ⟨rfl, -, hk⟩ := homeDisk_free hf
      rw [zero_mul, zero_add, hfs]
      unfold Apart
      omega
    free_region := fun g k hf r hr => by
      obtain ⟨rfl, -, hk⟩ := homeDisk_free hf
      rw [(homeDisk_region hc hr).2.2, zero_mul, zero_add, hfs]
      unfold Apart
      omega
    free_group := fun g k hf h o ho => by
      obtain ⟨rfl, -, hk⟩ := homeDisk_free hf
      rw [(homeVolume_group ho).2, zero_mul, zero_add, hfs]
      unfold Apart
      omega }

lemma homeDisk_contents (hc : c ≤ 8) :
    contents homeVolume (homeVolume.bytes (homeDisk c block)) (homeInode c)
      = (List.range c).map fun r => window block (r * DIR_BLOCK_SIZE) DIR_BLOCK_SIZE := by
  have hcount : regionCount (homeInode c) = c := by
    rw [regionCount, (homeInode_fields hc).2.1]
    exact Nat.mul_div_cancel _ (by decide)
  rw [contents, hcount]
  refine map_congr_left fun r hr => ?_
  have hr : r < c := mem_range.mp hr
  rw [region, (homeDisk_region hc (hcount.symm ▸ hr)).2.2]
  have hds : DIR_BLOCK_SIZE = 512 := rfl
  refine window_eq_of_agree fun i hi => ?_
  rw [homeDisk_bytes (by omega), homeImage, blit_in (by omega) (by omega)]
  exact congrArg block (by rw [hds]; omega)

lemma homeDisk_ready (hc : c ≤ 8)
    (ht : ∀ r < c, Tiled (window block (r * DIR_BLOCK_SIZE) DIR_BLOCK_SIZE)) :
    Ready homeVolume 2 (homeVolume.bytes (homeDisk c block)) (homeInode c) 102912 := by
  have hds : DIR_BLOCK_SIZE = 512 := rfl
  have hdn : DINODE_SIZE = 256 := rfl
  have hfs : homeVolume.fragmentSize = 512 := rfl
  have hslot : ∀ {n i}, InSlot homeVolume n i → n < 16 ∧ 102400 + n * 256 ≤ i ∧
      i < 102656 + n * 256 := by
    rintro n i ⟨o, ho, hlo, hhi⟩
    obtain ⟨hn, rfl⟩ := homeVolume_slot ho
    omega
  have hfree : ∀ {k}, FreeAt homeVolume (homeVolume.bytes (homeDisk c block)) k →
      8 ≤ k ∧ k < 16 := by
    intro k hk
    have hfpg : homeVolume.fragmentsPerGroup = 16 := rfl
    obtain ⟨hg, hlo, hhi⟩ := homeDisk_free hk
    rw [hfpg] at hg hlo
    omega
  have hdir : ∀ {i}, DirByte homeVolume (homeVolume.bytes (homeDisk c block)) (homeInode c)
      102912 i → (102912 ≤ i ∧ i < 103168) ∨ (20480 ≤ i ∧ i < 24576) := by
    rintro i (hi | ⟨r, hr, hlo, hhi⟩ | ⟨hlong, -⟩)
    · omega
    · obtain ⟨hr, -, hoff⟩ := @homeDisk_region c block r hc hr
      omega
    rw [(homeInode_fields hc).2.1, hds] at hlong
    have : DIRECT_BLOCKS * homeVolume.blockSize = 49152 := rfl
    omega
  have hin : ∀ {k i}, InFragment homeVolume k i → k * 512 ≤ i ∧ i < (k + 1) * 512 := id
  exact {
    accepted := homeVolume_accepted
    separate := homeVolume_separate
    numbers := ⟨by decide, by decide⟩
    maps_apart := fun g mo entries io hmo hio => by
      obtain ⟨-, rfl, rfl⟩ := homeDisk_freeMap hmo
      obtain ⟨-, rfl⟩ := homeDisk_inodeMap hio
      exact .inr (by decide)
    sound := homeDisk_sound hc
    tiled := by
      rw [homeDisk_contents hc]
      intro x hx
      obtain ⟨r, hr, rfl⟩ := mem_map.mp hx
      exact ht r (mem_range.mp hr)
    used := by
      rintro ⟨io, hio, -, hbit⟩
      obtain ⟨-, rfl⟩ := homeDisk_inodeMap hio
      have hbyte : inodeByte homeVolume 76928 2 = 76928 := by decide
      rw [hbyte, homeDisk_groups (by omega)] at hbit
      exact absurd hbit (by decide)
    slot_group := fun n i hs hg => by
      have := hslot hs
      rw [inGroups_home] at hg
      omega
    dir_group := fun i hd hg => by
      have := hdir hd
      rw [inGroups_home] at hg
      omega
    dir_slot := fun n i hn hd hs => by
      have := hslot hs
      have := hdir hd
      omega
    free_end := fun k hk => by
      have := hfree hk
      rw [hfs]
      unfold U64MAX
      omega
    free_group := fun k i hk hi hg => by
      have := hfree hk
      have := hin hi
      rw [inGroups_home] at hg
      omega
    free_slot := fun k i n hk hi hs => by
      have := hfree hk
      have := hin hi
      have := hslot hs
      omega
    free_dir := fun k i hk hi hd => by
      have := hfree hk
      have := hin hi
      have := hdir hd
      omega }

/-- The root directory is referenced and not yet read. -/
def homeState (c : Nat) (block : Mem) : State :=
  ⟨homeDisk c block, fun n => if n = 2 then some { blank with ref := 1 } else none⟩

lemma homeState_linked (hc : c ≤ 8) : Linked homeVolume (homeState c block) 2 where
  cached := nofun
  stored x hx := by
    have hin : some x = some (homeInode c) := hx.symm.trans homeDisk_inode
    cases hin
    rw [(homeInode_fields hc).2.2.2]
    decide

end Home

/-- Dots with room for a name of 196 bytes each, and a free record of 80 bytes. -/
def tightRegion : Mem :=
  putFree (putRecord (putRecord (fun _ => 0) 0 216 [46] 2 DIRTYPE_DIR) 216 216 [46, 46] 2
    DIRTYPE_DIR) 432 80

def longName : List UInt8 := List.replicate 200 97

lemma tightRegion_tiled :
    ∀ r < 1, Tiled (window tightRegion (r * DIR_BLOCK_SIZE) DIR_BLOCK_SIZE) := by
  intro r hr
  obtain rfl : r = 0 := by omega
  have hok : ∀ o, o = 0 ∨ o = 216 ∨ o = 432 →
      RecordOk (window tightRegion (0 * DIR_BLOCK_SIZE) DIR_BLOCK_SIZE) o := by
    rintro o (rfl | rfl | rfl) <;> exact ⟨by decide, by decide, by decide⟩
  exact ⟨[0, 216, 432], .cons (hok 0 (.inl rfl)) (.cons (hok 216 (.inr (.inl rfl)))
    (.cons (hok 432 (.inr (.inr rfl))) .nil))⟩

lemma tightRegion_names :
    (longName, n) ∉ Ufs2.entries (directory homeVolume 2 (homeState 1 tightRegion).disk) := by
  have hsound := @homeDisk_sound 1 tightRegion (by decide)
  change (longName, n) ∉ Ufs2.entries (directory homeVolume 2 (homeDisk 1 tightRegion))
  rw [hsound.directory_eq, homeDisk_contents (by decide)]
  have hall : ∀ p ∈ Ufs2.entries ((List.range 1).map fun r =>
      window tightRegion (r * DIR_BLOCK_SIZE) DIR_BLOCK_SIZE), p.1 ≠ longName := by
    decide +kernel
  exact fun hmem => hall _ hmem rfl

lemma tightState_ready : Ready homeVolume 2
    (homeVolume.bytes (homeState 1 tightRegion).disk) (homeInode 1) 102912 :=
  @homeDisk_ready 1 tightRegion (by decide) tightRegion_tiled

lemma tightState_linked : Linked homeVolume (homeState 1 tightRegion) 2 :=
  homeState_linked (by decide)

/-- Where the free map is, and the bit of fragment 8 in it. -/
def mapView (s : State) : Option (Nat × Nat) × Bool :=
  (freeMapAt homeVolume (homeVolume.bytes s.disk) 0, testBit (homeVolume.bytes s.disk 77057) 0)

end Proninx.Ufs2
