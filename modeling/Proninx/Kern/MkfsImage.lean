import Proninx.Kern.Mkfs
import Proninx.Kern.NativeRead

/-!
# What `mkfs` writes

While `mkfs` works, the bitmap of its image is empty and the counter
`freeblock` stands for it. Seen with the bitmap that `balloc` will write at
the end, the image is one the kernel could work on, and `iappend` does to
it what the kernel's own `bmap` and `writei` would do: the first free block
is the one the counter names. So the image is consistent at every step, and
what was appended to a file is what the kernel reads.
-/

namespace Proninx.Mkfs

open ByteMem Disk Function Nat Native Prog State Stateful

variable {m : Nat} {s s' : State} {din din' : Mem}

/-! ## Counting and marking -/

/-- The superblock, for a table of `m` inodes. -/
def table (m : Nat) : Superblock := { sb with ninodes := m }

/-- The image as `balloc` would leave it. -/
def State.view (s : State) : Disk := s.image.set sb.bmapstart (bitmap s.freeblock)

lemma bmapstart_lt : sb.bmapstart < nmeta := by decide

variable {b : Nat}

lemma bblock_eq (hb : b < FSSIZE) : bblock (table m) b = sb.bmapstart := by
  rw [bblock, div_eq_of_lt (show b < BPB from hb), zero_add]
  rfl

lemma bitSet_bitmap (n b : Nat) : bitSet (bitmap n) b = decide (b < n) := by
  induction n with
  | zero => simp [bitmap, bitSet]
  | succ n ih => ?_
  rw [bitmap, bitSet_setBit, ih, ← Bool.decide_or]
  exact decide_eq_decide.mpr (by omega)

lemma used_view (hb : b < FSSIZE) : used (table m) s.view b = decide (b < s.freeblock) := by
  rw [used, view, bblock_eq hb, set_same, mod_eq_of_lt (show b < BPB from hb), bitSet_bitmap]

lemma view_ne (h : b ≠ sb.bmapstart) : s.view b = s.image b := set_ne h

/-- The blocks that have not been handed out are blank. -/
structure Blank (s : State) : Prop where
  meta_le : nmeta ≤ s.freeblock
  blank : ∀ b, s.freeblock ≤ b → s.image b = fun _ => 0

lemma firstFree_eq {sb : Superblock} {data : Block} {f : Nat} (hsize : b + f < sb.size)
    (hfree : bitSet data f = false) (n : Nat) : ∀ bi ≤ f, f < bi + n →
      (∀ k, bi ≤ k → k < f → bitSet data k) → firstFree sb data b n bi = some f := by
  induction n with
  | zero =>
    intro bi hle hlt
    omega
  | succ n ih => ?_
  intro bi hle hlt hset
  rw [firstFree, if_pos (by omega)]
  rcases eq_or_lt_of_le hle with rfl | hlt'
  · rw [hfree]
    rfl
  rw [hset bi (le_refl bi) hlt', if_pos rfl]
  exact ih (bi + 1) hlt' (by omega) fun k hk => hset k (by omega)

variable {a : Nat}

lemma set_set_comm {d : Disk} (h : a ≠ b) (x y : Block) :
    (d.set a x).set b y = (d.set b y).set a x := by
  exact update_comm h x y d

lemma balloc_view (hblank : Blank s) (hlt : s.freeblock < FSSIZE) :
    (Native.balloc (table m)).run s.view =
      .ok (s.freeblock, view { s with freeblock := s.freeblock + 1 }) := by
  have hmeta : sb.bmapstart ≠ s.freeblock := by
    have := hblank.meta_le
    have := bmapstart_lt
    omega
  have hfirst : firstFree (table m) (s.view sb.bmapstart) 0 BPB 0 = some s.freeblock := by
    rw [view, set_same]
    refine firstFree_eq (by rw [zero_add]; exact hlt) ?_ _ _ (zero_le _) ?_ ?_
    · rw [bitSet_bitmap, decide_eq_false (lt_irrefl _)]
    · rw [zero_add]
      exact hlt
    intro k _ hk
    rw [bitSet_bitmap, decide_eq_true hk]
  have hblank' : fill (s.image s.freeblock) 0 0 BSIZE = s.image s.freeblock := by
    rw [hblank.blank _ le_rfl]
    funext i
    exact ite_self _
  have hpos : 0 < (table m).size := Nat.lt_of_le_of_lt (zero_le _) hlt
  rw [Native.balloc, ballocFrom, if_pos hpos, run_bread_bind,
    show bblock (table m) 0 = sb.bmapstart from rfl, hfirst]
  rw [run_logWrite_bind, run_brelse_bind, zero_add]
  -- the bit is set, and the block that is cleared was blank
  have hmark : s.view.set sb.bmapstart (setBit (s.view sb.bmapstart) s.freeblock) =
      view { s with freeblock := s.freeblock + 1 } := by
    rw [view, set_same]
    exact update_idem ..
  rw [hmark]
  refine congrArg (fun d => Except.ok (s.freeblock, d)) ?_
  change set _ _ (fill (view _ _) 0 0 BSIZE) = _
  rw [view_ne hmeta.symm, hblank', view, set_set_comm hmeta, set_self]

/-! ## Sectors and dinodes -/

variable {buf : Block}

lemma rsect_ok {sec : Nat} :
    rsect sec s = .ok (buf, s') ↔ sec < FSSIZE ∧ buf = s.image sec ∧ s' = s := by
  unfold rsect
  rw [get_bind]
  split
  · next h => exact iff_of_false nofun fun h' => by omega
  next h =>
  constructor
  · intro h'
    cases h'
    exact ⟨by omega, rfl, rfl⟩
  · rintro ⟨-, rfl, rfl⟩
    rfl

variable {u : Unit}

lemma wsect_ok {sec : Nat} : wsect sec buf s = .ok (u, s') ↔
      sec < FSSIZE ∧ s' = { s with image := s.image.set sec buf } := by
  unfold wsect
  rw [get_bind]
  split
  · next h => exact iff_of_false nofun fun h' => by omega
  next h =>
  constructor
  · intro h'
    cases h'
    exact ⟨by omega, rfl⟩
  · rintro ⟨-, rfl⟩
    rfl

lemma readLe_shift (w : Nat) (buf : Mem) (o : Nat) : ∀ a,
    readLe w (shift buf o) a = readLe w buf (o + a) := by
  induction w with
  | zero => exact fun _ => rfl
  | succ w ih => ?_
  intro a
  rw [readLe, readLe, ih]
  rfl

lemma decodeDinode_shift (buf : Block) (o : Nat) :
    decodeDinode (shift buf o) 0 = decodeDinode buf o := by
  simp only [decodeDinode, readLe_shift, zero_add, add_zero, add_assoc]

lemma decodeDinode_blit (buf : Block) (o : Nat) (din : Mem) :
    decodeDinode (blit buf o din DINODE_SIZE) o = decodeDinode din 0 := by
  rw [← decodeDinode_shift]
  refine decodeDinode_congr fun i _ hi => ?_
  rw [shift_apply, blit_in (by omega) (by omega), Nat.add_sub_cancel_left]

variable {i : Nat}

lemma decodeDinode_setAddr (hi : i < NDIRECT + 2) (ha : a < 2 ^ 32) :
    decodeDinode (writeLe 4 din (24 + i * 4) a) 0 = (decodeDinode din 0).setAddr i a := by
  unfold decodeDinode Dinode.setAddr
  simp only [Dinode.mk.injEq]
  refine ⟨?_, ?_, ?_, ?_, ?_, ?_, ?_, ?_, funext fun j => ?_⟩
  case refine_9 =>
    by_cases hj : j = i
    · subst hj
      rw [if_pos hi, update_self, zero_add, readLe_writeLe_of_lt ha]
    · rw [update_of_ne hj, zero_add, readLe_writeLe_disjoint (by omega)]
  all_goals exact readLe_writeLe_disjoint (by omega)

variable {n : Nat}

lemma decodeDinode_setSize (hn : n < 2 ^ 32) :
    decodeDinode (writeLe 4 din 8 n) 0 = { decodeDinode din 0 with size := n } := by
  unfold decodeDinode
  simp only [Dinode.mk.injEq]
  refine ⟨?_, ?_, ?_, ?_, ?_, ?_, ?_, ?_, funext fun j => ?_⟩
  case refine_5 => exact readLe_writeLe_of_lt hn
  case refine_9 => rw [readLe_writeLe_disjoint (by omega)]
  all_goals exact readLe_writeLe_disjoint (by omega)

/-! ## `bmap` -/

/-- The step from `s` to `s'` wrote to blocks that have been handed out, not
to metadata, and made no inode. -/
structure Appends (s s' : State) : Prop where
  blank : Blank s'
  inode : s'.freeinode = s.freeinode
  kept : ∀ b, b < nmeta → s'.image b = s.image b

lemma Appends.refl (h : Blank s) : Appends s s := ⟨h, rfl, fun _ _ => rfl⟩

lemma Appends.trans {s'' : State} (h : Appends s s') (h' : Appends s' s'') : Appends s s'' :=
  ⟨h'.blank, h'.inode.trans h.inode, fun b hb => (h'.kept b hb).trans (h.kept b hb)⟩

lemma Blank.next (h : Blank s) : Appends s { s with freeblock := s.freeblock + 1 } where
  blank := ⟨le_succ_of_le h.meta_le, fun b hb => h.blank b (le_of_succ_le hb)⟩
  inode := rfl
  kept _ _ := rfl

lemma Blank.set (h : Blank s) (hlo : nmeta ≤ b) (hhi : b < s.freeblock) (buf : Block) :
    Appends s { s with image := s.image.set b buf } where
  blank := ⟨h.meta_le, fun c (hc : s.freeblock ≤ c) =>
    (set_ne (by omega)).trans (h.blank c hc)⟩
  inode := rfl
  kept c hc := set_ne (by omega)

lemma direct_sim (hblank : Blank s) (hi : i < NDIRECT + 2)
    (hrun : direct din i s = .ok ((a, din'), s')) (ha : a < FSSIZE) :
    (directAddr (table m) (decodeDinode din 0) i).run s.view =
      .ok ((a, decodeDinode din' 0), s'.view) ∧ Appends s s' := by
  have haddr : (decodeDinode din 0).addrs i = readLe 4 din (24 + i * 4) := by
    unfold decodeDinode
    dsimp only
    rw [if_pos hi, zero_add]
  unfold direct at hrun
  rw [directAddr, haddr]
  split at hrun
  · next h0 =>
    cases hrun
    have hlarge : FSSIZE < 2 ^ 32 := by decide
    rw [if_pos h0, run_bind_ok (balloc_view hblank ha), decodeDinode_setAddr hi (by omega)]
    exact ⟨rfl, hblank.next⟩
  · next h0 =>
    cases hrun
    rw [if_neg h0]
    exact ⟨rfl, .refl hblank⟩

lemma indirect_sim (hblank : Blank s) (hlo : nmeta ≤ b) (hhi : b < s.freeblock)
    (hrun : indirect b i s = .ok (a, s')) (ha : a < FSSIZE) :
    (indirectAddr (table m) b i).run s.view = .ok (a, s'.view) ∧ Appends s s' := by
  have hb : b ≠ sb.bmapstart := by
    have := bmapstart_lt
    omega
  obtain ⟨data, t, hread, hrun⟩ := bind_ok.mp hrun
  obtain ⟨-, rfl, rfl⟩ := rsect_ok.mp hread
  rw [indirectAddr, run_bread_bind, view_ne hb]
  split at hrun
  · next h0 =>
    obtain ⟨x, u, hnext, hrun⟩ := bind_ok.mp hrun
    cases hnext
    obtain ⟨_, u, hwrite, hrun⟩ := bind_ok.mp hrun
    obtain ⟨-, rfl⟩ := wsect_ok.mp hwrite
    cases hrun
    rw [if_pos h0, run_bind_ok (balloc_view hblank ha)]
    refine ⟨?_, hblank.next.trans (hblank.next.blank.set hlo (lt_succ_of_lt hhi) _)⟩
    rw [run_logWrite_bind, run_brelse_bind]
    refine congrArg (fun d => Except.ok (_, d)) ?_
    exact set_set_comm hb.symm ..
  · next h0 =>
    cases hrun
    rw [if_neg h0]
    exact ⟨rfl, .refl hblank⟩

lemma iblock_lt (hm : m ≤ ninodeblocks * IPB) (hn : n < m) : iblock (table m) n < sb.bmapstart := by
  have hblock : n / IPB < ninodeblocks :=
    (Nat.div_lt_iff_lt_mul (by decide)).mpr (lt_of_lt_of_le hn hm)
  change n / IPB + (2 + nlog) < 2 + nlog + ninodeblocks
  rw [Nat.add_comm]
  exact Nat.add_lt_add_left hblock _

lemma table_layout (hm : m ≤ ninodeblocks * IPB) : Layout (table m) nmeta where
  pos := by decide
  size := (by decide : nmeta ≤ FSSIZE)
  small := (by decide : FSSIZE + BPB ≤ 2 ^ 32)
  inodes n hn := (iblock_lt hm hn).trans bmapstart_lt
  bitmap b hb := (bblock_eq hb).trans_lt bmapstart_lt
  apart n b hn hb := by
    rw [bblock_eq hb]
    exact (iblock_lt hm hn).ne

variable {A : Nat → Nat → Nat} {inum : Nat}

lemma sound_bounds (hsound : Sound (table m) nmeta s.view A) {p : Nat × Ref}
    (hb : Holds (table m) s.view A p b) : nmeta ≤ b ∧ b < s.freeblock ∧ b < FSSIZE := by
  have hlt : b < FSSIZE := hsound.lt_size hb
  have hmark : used (table m) s.view b := hsound.mark hb
  rw [used_view hlt, decide_eq_true_eq] at hmark
  exact ⟨hsound.start_le hb, hmark, hlt⟩

lemma indirect_lt (h : indirect b i s = .ok (a, s')) : b < FSSIZE := by
  obtain ⟨data, t, hread, -⟩ := bind_ok.mp h
  exact (rsect_ok.mp hread).1

section

variable (hm : m ≤ ninodeblocks * IPB)
include hm

lemma indirect_grown {j : Nat} {l : List Nat} {x : Dinode}
    (hn : inum < m) (hblank : Blank s)
    (hsound : Sound (table m) nmeta s.view (update A inum x.addrs))
    (hv : Ref.Valid ⟨i, j :: l⟩) (hb : b = refAt s.view x.addrs ⟨i, l⟩) (h0 : b ≠ 0)
    (hrun : indirect b j s = .ok (a, s')) (ha : a < FSSIZE) :
    ((indirectAddr (table m) b j).run s.view = .ok (a, s'.view) ∧ Appends s s') ∧
      Sound (table m) nmeta s'.view (update A inum x.addrs) ∧
      a = refAt s'.view x.addrs ⟨i, j :: l⟩ ∧ a ≠ 0 := by
  obtain ⟨hlo, hhi, -⟩ := sound_bounds hsound (p := (inum, ⟨i, l⟩))
    ⟨hn, hv.tail, by rw [update_self]; exact hb.symm, h0⟩
  have hsim := indirect_sim (m := m) hblank hlo hhi hrun ha
  obtain ⟨hs, -, hat⟩ :=
    (indirectAddr_grown (table_layout hm) hn hsound hv hb h0).leads _ _ hsim.1
  exact ⟨hsim, hs, hat⟩

lemma blockOf_sim {fbn : Nat} (hn : inum < m)
    (hblank : Blank s) (hbn : fbn < MAXFILE)
    (hsound : Sound (table m) nmeta s.view (update A inum (decodeDinode din 0).addrs))
    (hrun : blockOf din fbn s = .ok ((a, din'), s')) (ha : a < FSSIZE) :
    (bmap (table m) (decodeDinode din 0) fbn).run s.view =
      .ok ((a, decodeDinode din' 0), s'.view) ∧ Appends s s' := by
  have hv := refOf_valid hbn
  unfold refOf at hv
  unfold blockOf at hrun
  unfold bmap
  split at hrun
  · next h1 =>
    rw [if_pos h1]
    exact direct_sim hblank (by omega) hrun ha
  next h1 =>
  rw [if_neg h1] at hv ⊢
  split at hrun
  · next h2 =>
    rw [if_pos (by omega)] at hv ⊢
    obtain ⟨⟨b, din1⟩, s1, hfirst, hrun⟩ := bind_ok.mp hrun
    obtain ⟨x, s2, hsecond, hrun⟩ := bind_ok.mp hrun
    cases hrun
    obtain ⟨hsim1, happ1⟩ := direct_sim (m := m) hblank (by decide) hfirst (indirect_lt hsecond)
    obtain ⟨hs1, -, hat, h0⟩ := (directAddr_grown (table_layout hm) hn (by decide) hsound).leads _ _
      hsim1
    obtain ⟨⟨hsim2, happ2⟩, -⟩ := indirect_grown hm hn happ1.blank hs1 hv hat h0 hsecond ha
    rw [run_bind_ok hsim1]
    dsimp only
    rw [run_bind_ok hsim2]
    exact ⟨rfl, happ1.trans happ2⟩
  next h2 =>
  unfold MAXFILE at hbn
  rw [if_neg (by omega)] at hv ⊢
  rw [if_pos (by omega)]
  obtain ⟨⟨b, din1⟩, s1, hfirst, hrun⟩ := bind_ok.mp hrun
  obtain ⟨b', s2, hsecond, hrun⟩ := bind_ok.mp hrun
  obtain ⟨x, s3, hthird, hrun⟩ := bind_ok.mp hrun
  cases hrun
  obtain ⟨hsim1, happ1⟩ := direct_sim (m := m) hblank (by decide) hfirst (indirect_lt hsecond)
  obtain ⟨hs1, -, hat, h0⟩ := (directAddr_grown (table_layout hm) hn (by decide) hsound).leads _ _
    hsim1
  obtain ⟨⟨hsim2, happ2⟩, hs2, hat', h0'⟩ := indirect_grown hm hn happ1.blank hs1 hv.tail hat h0
    hsecond (indirect_lt hthird)
  obtain ⟨⟨hsim3, happ3⟩, -⟩ := indirect_grown hm hn happ2.blank hs2 hv hat' h0' hthird ha
  rw [run_bind_ok hsim1]
  dsimp only
  rw [run_bind_ok hsim2, run_bind_ok hsim3]
  exact ⟨rfl, (happ1.trans happ2).trans happ3⟩

/-! ## `iappend` -/

omit hm in
lemma view_set (h : b ≠ sb.bmapstart) (buf : Block) :
    view { s with image := s.image.set b buf } = s.view.set b buf :=
  set_set_comm h ..

lemma appendBlock_wrote {off : Nat} {p : Mem} {s1 s2 : State} (hn : inum < m) (hblank : Blank s)
    (hsound : Sound (table m) nmeta s.view (update A inum (decodeDinode din 0).addrs))
    (hc : Covered s.view (decodeDinode din 0) off) (hpos : 0 < n) (hle : n ≤ BSIZE - off % BSIZE)
    (hlt : off / BSIZE < MAXFILE) (hblock : blockOf din (off / BSIZE) s = .ok ((a, din'), s1))
    (hread : rsect a s1 = .ok (buf, s1))
    (hwrite : wsect a (blit buf (off % BSIZE) p n) s1 = .ok (u, s2)) :
    Wrote (table m) nmeta A inum p off n s.view (decodeDinode din 0) s2.view
      (decodeDinode din' 0) ∧ Appends s s2 := by
  obtain ⟨ha, rfl, -⟩ := rsect_ok.mp hread
  obtain ⟨-, rfl⟩ := wsect_ok.mp hwrite
  obtain ⟨hsim, happ⟩ := blockOf_sim hm hn hblank hlt hsound hblock ha
  obtain ⟨hs1, -, hat, h0⟩ := (bmap_grown (table_layout hm) hn hlt hsound).leads _ _ hsim
  obtain ⟨hlo, hhi, -⟩ := sound_bounds hs1 (hat ▸ holds_addrAt hn (hat ▸ h0))
  have hb : a ≠ sb.bmapstart := by
    have := bmapstart_lt
    omega
  have hw := (writeBlock_wrote (table_layout hm) hsound hn p hpos hle
    ((Nat.div_lt_iff_lt_mul (by decide)).mp hlt) hc).leads _ _ hsim
  rw [view_ne hb] at hw
  rw [view_set hb]
  exact ⟨hw, happ.trans (happ.blank.set hlo hhi _)⟩

lemma appendBlocks_wrote (hn : inum < m) (fuel : Nat) :
    ∀ {n off off' : Nat} {p din din' : Mem} {s s' : State}, n ≤ fuel → Blank s →
      Sound (table m) nmeta s.view (update A inum (decodeDinode din 0).addrs) →
      Covered s.view (decodeDinode din 0) off →
      appendBlocks fuel n off p din s = .ok ((off', din'), s') →
      off' = off + n ∧ Wrote (table m) nmeta A inum p off n s.view (decodeDinode din 0) s'.view
        (decodeDinode din' 0) ∧ Appends s s' := by
  induction fuel with
  | zero =>
    intro n off off' p din din' s s' hfuel hblank hsound hc hrun
    cases hrun
    obtain rfl := Nat.le_zero.mp hfuel
    exact ⟨rfl, .refl hsound hc p, .refl hblank⟩
  | succ fuel ih => ?_
  intro n off off' p din din' s s' hfuel hblank hsound hc hrun
  unfold appendBlocks at hrun
  split at hrun
  · next hpos =>
    split at hrun
    · cases hrun
    next hlt =>
    obtain ⟨⟨a, din1⟩, s1, hblock, hrest⟩ := bind_ok.mp hrun
    obtain ⟨buf, t, hread, hrest'⟩ := bind_ok.mp hrest
    obtain ⟨-, -, rfl⟩ := rsect_ok.mp hread
    obtain ⟨u, s2, hwrite, hnext⟩ := bind_ok.mp hrest'
    obtain ⟨k, hk⟩ : ∃ k, k = min n ((off / BSIZE + 1) * BSIZE - off) := ⟨_, rfl⟩
    have hmod : off - off / BSIZE * BSIZE = off % BSIZE := by rw [mod_eq_sub_div_mul]
    have hdiv : off / BSIZE * BSIZE + off % BSIZE = off := div_add_mod' ..
    have hsmall : off % BSIZE < BSIZE := mod_lt _ (by decide)
    rw [← hk, hmod] at hwrite
    rw [← hk] at hnext
    rw [succ_mul] at hk
    obtain ⟨hw, happ⟩ := appendBlock_wrote hm hn hblank hsound hc (by omega) (by omega)
      (not_le.mp hlt) hblock hread hwrite
    obtain ⟨rfl, hw', happ'⟩ := ih (by omega) happ.blank hw.sound hw.covered hnext
    have := hw.append hw'
    rw [show k + (n - k) = n by omega] at this
    exact ⟨by omega, this, happ.trans happ'⟩
  · next hpos =>
    cases hrun
    obtain rfl : n = 0 := by omega
    exact ⟨rfl, .refl hsound hc p, .refl hblank⟩

def State.store (s : State) (inum : Nat) (din : Mem) : State :=
  { s with
    image := s.image.set (iblock sb inum)
      (blit (s.image (iblock sb inum)) (dinodeOffset inum) din DINODE_SIZE) }

omit hm in
lemma winode_ok : winode inum din s = .ok (u, s') ↔
    iblock sb inum < FSSIZE ∧ s' = s.store inum din := by
  unfold winode
  rw [bind_ok]
  constructor
  · rintro ⟨buf, t, hread, hwrite⟩
    obtain ⟨hlt, rfl, rfl⟩ := rsect_ok.mp hread
    obtain ⟨-, rfl⟩ := wsect_ok.mp hwrite
    exact ⟨hlt, rfl⟩
  · rintro ⟨hlt, rfl⟩
    exact ⟨_, s, rsect_ok.mpr ⟨hlt, rfl, rfl⟩, wsect_ok.mpr ⟨hlt, rfl⟩⟩

omit hm in
lemma rinode_ok : rinode inum s = .ok (din, s') ↔ iblock sb inum < FSSIZE ∧
    din = shift (s.image (iblock sb inum)) (dinodeOffset inum) ∧ s' = s := by
  unfold rinode
  rw [bind_ok]
  constructor
  · rintro ⟨buf, t, hread, hret⟩
    obtain ⟨hlt, rfl, rfl⟩ := rsect_ok.mp hread
    cases hret
    exact ⟨hlt, rfl, rfl⟩
  · rintro ⟨hlt, rfl, rfl⟩
    exact ⟨_, _, rsect_ok.mpr ⟨hlt, rfl, rfl⟩, rfl⟩

/-- What `winode` leaves of the image, as the kernel sees it. -/
structure Stored (m inum : Nat) (din : Mem) (d d' : Disk) : Prop where
  high : ∀ k, nmeta ≤ k → d' k = d k
  used : ∀ b, b < FSSIZE → used (table m) d' b = used (table m) d b
  others : ∀ n, n ≠ inum → dinodeAt (table m) d' n = dinodeAt (table m) d n
  self : dinodeAt (table m) d' inum = decodeDinode din 0

lemma stored_view (hn : inum < m) (s : State) (din : Mem) :
    Stored m inum din s.view (s.store inum din).view := by
  have hlt := iblock_lt hm hn
  have hview : (s.store inum din).view = s.view.set (iblock (table m) inum)
      (blit (s.view (iblock (table m) inum)) (dinodeOffset inum) din DINODE_SIZE) := by
    rw [view_ne hlt.ne]
    exact view_set hlt.ne _
  rw [hview]
  refine ⟨fun k hk => set_ne ?_, fun b hb => ?_, fun n hne => ?_, ?_⟩
  · have := bmapstart_lt
    omega
  · exact used_set ((table_layout hm).iblock_offBitmap hn) hb
  · exact dinodeAt_set hne fun i hi => blit_out hi
  · rw [dinodeAt, set_same, decodeDinode_blit]

omit hm in
lemma Blank.store (h : Blank s) (hm : m ≤ ninodeblocks * IPB) (hn : inum < m) (din : Mem) :
    Blank (s.store inum din) where
  meta_le := h.meta_le
  blank b hb := by
    have hlt := (iblock_lt hm hn).trans bmapstart_lt
    have hle := le_trans h.meta_le hb
    exact (set_ne (hlt.trans_le hle).ne').trans (h.blank b hb)

omit hm in
lemma store_super (s : State) (inum : Nat) (din : Mem) : (s.store inum din).image 1 = s.image 1 := by
  have hlt : 1 < inum / IPB + (2 + nlog) := Nat.lt_add_left _ (by decide)
  unfold store
  dsimp only
  rw [set_ne (show 1 ≠ iblock sb inum from hlt.ne)]

/-- The image as the kernel sees it, while inodes below `m` are made. -/
structure Image (m : Nat) (s : State) : Prop where
  consistent : Consistent (table m) nmeta s.view
  blank : Blank s
  fresh : ∀ n, s.freeinode ≤ n → n < m → (dinodeAt (table m) s.view n).type = 0
  made : ∀ n, 0 < n → n < s.freeinode → n < m → (dinodeAt (table m) s.view n).type ≠ 0
  super : s.image 1 = superblock

omit hm in
lemma Covered.le {d : Disk} {x : Dinode} {len : Nat} (h : Covered d x len) :
    len ≤ MAXFILE * BSIZE := by
  by_contra hlt
  have hbn := lt_maxfile (h MAXFILE (not_le.mp hlt))
  exact lt_irrefl _ hbn

lemma Image.append (h : Image m s) (h0 : 0 < inum)
    (hmade : inum < s.freeinode) (hn : inum < m) {p : Mem}
    (hrun : iappend inum p n s = .ok (u, s')) :
    Image m s' ∧ s'.freeinode = s.freeinode ∧ ∃ x', Written (table m) nmeta inum p
      (dinodeAt (table m) s.view inum).size n s.view (dinodeAt (table m) s.view inum) s'.view x' := by
  have hlt := iblock_lt hm hn
  have htype := h.made inum h0 hmade hn
  obtain ⟨din, t, hread, hrest⟩ := bind_ok.mp hrun
  obtain ⟨-, hdin, rfl⟩ := rinode_ok.mp hread
  obtain ⟨⟨off, din1⟩, s1, hloop, hwrite⟩ := bind_ok.mp hrest
  obtain ⟨-, rfl⟩ := winode_ok.mp hwrite
  have hx : dinodeAt (table m) t.view inum = decodeDinode din 0 := by
    rw [hdin, decodeDinode_shift, dinodeAt, view_ne hlt.ne]
    rfl
  have hsize : readLe 4 din 8 = (dinodeAt (table m) t.view inum).size :=
    (congrArg Dinode.size hx).symm
  have hupdate : update (tableAddrs (table m) t.view) inum (decodeDinode din 0).addrs =
      tableAddrs (table m) t.view := hx ▸ tableAddrs_update ..
  have hcov := h.consistent.covered inum hn htype
  obtain ⟨rfl, hw, happ⟩ := appendBlocks_wrote hm hn n (le_refl n) h.blank
    (hupdate.symm ▸ h.consistent.sound) (by rw [hsize, ← hx]; exact hcov) hloop
  have hfits : readLe 4 din 8 + n < 2 ^ 32 :=
    lt_of_le_of_lt (Covered.le hw.covered) (by decide)
  have hst := stored_view hm hn s1 (writeLe 4 din1 8 (readLe 4 din 8 + n))
  rw [hsize, ← hx] at hw
  have hwritten := hw.written_back (table_layout hm) h.consistent hn rfl htype hst.high hst.used
    (fun n _ hne => hst.others n hne) hst.self (by
      rw [decodeDinode_setSize hfits, hsize, Nat.max_eq_right (Nat.le_add_right ..)])
  refine ⟨⟨hwritten.consistent, happ.blank.store hm hn _, fun k hlo hk => ?_, fun k hpos hhi hk => ?_,
    (store_super _ _ _).trans ((happ.kept 1 (by decide)).trans h.super)⟩, happ.inode, _, hwritten⟩
  · have hlo : t.freeinode ≤ k := happ.inode ▸ hlo
    rw [hwritten.others k hk (by omega)]
    exact h.fresh k hlo hk
  have hhi : k < t.freeinode := happ.inode ▸ hhi
  by_cases hi : k = inum
  · subst hi
    rw [hwritten.stored, hwritten.fields]
    exact htype
  · rw [hwritten.others k hk hi]
    exact h.made k hpos hhi hk

variable {type : Nat}

omit hm in
lemma newDinode_decode (h : type < 2 ^ 16) :
    (decodeDinode (newDinode type) 0).type = type ∧ (decodeDinode (newDinode type) 0).size = 0 ∧
      ∀ i, (decodeDinode (newDinode type) 0).addrs i = 0 := by
  have hzero : ∀ {a w : Nat}, 8 ≤ a → a + w ≤ 20 ∨ 22 ≤ a → readLe w (newDinode type) a = 0 := by
    intro a w hlo hhi
    refine readLe_eq_zero.mpr fun i hi hj => ?_
    unfold newDinode
    rw [writeLe_out (by omega), writeLe_out (by omega), writeLe_out (by omega)]
  refine ⟨?_, hzero (by omega) (.inl (by omega)), fun i => ?_⟩
  · unfold decodeDinode newDinode
    rw [readLe_writeLe_disjoint (by omega), readLe_writeLe_disjoint (by omega),
      readLe_writeLe_of_lt h]
  unfold decodeDinode
  dsimp only
  split
  · exact hzero (by omega) (.inr (by omega))
  · rfl

omit hm in
lemma ialloc_ok : ialloc type s = .ok (i, s') ↔ i = s.freeinode ∧
    iblock sb i < FSSIZE ∧ s' = store { s with freeinode := i + 1 } i (newDinode type) := by
  unfold ialloc
  rw [get_bind]
  constructor
  · intro h
    obtain ⟨_, t, hset, h⟩ := bind_ok.mp h
    cases hset
    obtain ⟨_, t, hwrite, h⟩ := bind_ok.mp h
    obtain ⟨hlt, rfl⟩ := winode_ok.mp hwrite
    cases h
    exact ⟨rfl, hlt, rfl⟩
  · rintro ⟨rfl, hlt, rfl⟩
    refine bind_ok.mpr ⟨⟨⟩, { s with freeinode := s.freeinode + 1 }, rfl, ?_⟩
    exact bind_ok.mpr ⟨(), _, winode_ok.mpr ⟨hlt, rfl⟩, rfl⟩

lemma Image.alloc (h : Image m s) (hlt : s.freeinode < m)
    (h0 : type ≠ 0) (htype : type < 2 ^ 16) (hrun : ialloc type s = .ok (i, s')) :
    i = s.freeinode ∧ Image m s' ∧ s'.freeinode = s.freeinode + 1 ∧
      (dinodeAt (table m) s'.view i).size = 0 ∧
      (∀ n ≠ i, dinodeAt (table m) s'.view n = dinodeAt (table m) s.view n) ∧
      ∀ k, nmeta ≤ k → s'.view k = s.view k := by
  obtain ⟨htype', hsize, haddrs⟩ := newDinode_decode htype
  obtain ⟨hi, -, hs'⟩ := ialloc_ok.mp hrun
  have hview : s'.view = (s.store i (newDinode type)).view := by
    rw [hs']
    rfl
  have himage : s'.image = (s.store i (newDinode type)).image := by
    rw [hs']
    rfl
  have hinode : s'.freeinode = i + 1 := by
    rw [hs']
    rfl
  have hblock : s'.freeblock = s.freeblock := by
    rw [hs']
    rfl
  have hlt' : i < m := hi ▸ hlt
  have hst := stored_view hm hlt' s (newDinode type)
  rw [← hview] at hst
  have hfree : ∀ k < NDIRECT + 2, (dinodeAt (table m) s.view i).addrs k = 0 :=
    h.consistent.free i hlt' (h.fresh i hi.ge hlt')
  have hsound : Sound (table m) nmeta s'.view (tableAddrs (table m) s'.view) := by
    refine h.consistent.sound.high hst.high hst.used fun n hn k hk => ?_
    unfold tableAddrs
    by_cases hni : n = i
    · rw [hni, hst.self, haddrs, hfree k hk]
    · rw [hst.others n hni]
  have hself : (dinodeAt (table m) s'.view i).type ≠ 0 := by
    rw [hst.self, htype']
    exact h0
  have hempty : (dinodeAt (table m) s'.view i).size = 0 := by rw [hst.self, hsize]
  refine ⟨hi, ⟨?_, ?_, fun n hlo hn => ?_, fun n hpos hhi hn => ?_, ?_⟩, hi ▸ hinode, hempty,
    hst.others, hst.high⟩
  · refine h.consistent.step i hsound (fun n _ hne => hst.others n hne)
      (fun n r b _ hb => hst.high b (h.consistent.sound.start_le hb)) (fun _ bn hbn => ?_)
      fun hc => absurd hc hself
    rw [hempty] at hbn
    exact absurd hbn (Nat.not_lt_zero _)
  · exact ⟨hblock ▸ h.blank.meta_le, himage ▸ hblock ▸ (h.blank.store hm hlt' _).blank⟩
  · rw [hst.others n (by omega)]
    exact h.fresh n (by omega) hn
  · by_cases hni : n = i
    · rw [hni]
      exact hself
    rw [hst.others n hni]
    exact h.made n hpos (by omega) hn
  · rw [himage, store_super]
    exact h.super

end

end Proninx.Mkfs
