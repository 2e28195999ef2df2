import Proninx.Kern.NativeDir
import Proninx.Kern.NativeTable
import Proninx.Lib.Ledger

/-!
# Which blocks the native inodes refer to

An inode refers to a block from its `addrs` or from an entry of one of its
indirect blocks. These places are the holders of a ledger whose marks are
the bits of the bitmap: metadata is reserved, and the books are balanced
when every other block has its bit set exactly if one place refers to it.
`bmap` keeps the books while it fills in the blocks that are missing.

The functions work on the in-memory inode and write it back at their end.
The addresses in the table are therefore a parameter `A`, and the inode
that is worked on stands in it with the addresses it has in memory.
-/

namespace Proninx.Native

open ByteMem Disk Function Ledger List Nat

variable {sb : Superblock} {start : Nat} {d d' d'' : Disk} {x x' x'' : Dinode}
  {A A' : Nat → Nat → Nat}

/-! ## Layout -/

/-- The blocks below `start` hold metadata, and among them the inodes and
the bitmap lie apart. The counter of `balloc` does not wrap. -/
structure Layout (sb : Superblock) (start : Nat) : Prop where
  pos : 0 < start
  size : start ≤ sb.size
  small : sb.size + BPB ≤ 2 ^ 32
  inodes : ∀ n, n < sb.ninodes → iblock sb n < start
  bitmap : ∀ b, b < sb.size → bblock sb b < start
  apart : ∀ n b, n < sb.ninodes → b < sb.size → iblock sb n ≠ bblock sb b

def OffBitmap (sb : Superblock) (k : Nat) : Prop := ∀ b, b < sb.size → k ≠ bblock sb b

variable {k : Nat}

lemma Layout.offBitmap (hlay : Layout sb start) (hk : start ≤ k) : OffBitmap sb k := by
  intro b hb
  have := hlay.bitmap b hb
  omega

variable {b : Nat}

lemma used_set {data : Block} (hk : OffBitmap sb k) (hb : b < sb.size) :
    used sb (d.set k data) b = used sb d b :=
  used_congr (Disk.set_ne fun hc => hk b hb hc.symm)

/-- What `balloc` does with a block `f` that is not metadata. -/
structure Taken (sb : Superblock) (d d' : Disk) (f : Nat) : Prop where
  used : ∀ b, b < sb.size → (used sb d' b = true ↔ used sb d b = true ∨ b = f)
  blank : ∀ i, i < BSIZE → d' f i = 0
  other : ∀ k, k ≠ f → OffBitmap sb k → d' k = d k

variable {f : Nat}

lemma Layout.takeBlock (hlay : Layout sb start) (hf : f < sb.size) (hs : start ≤ f) :
    Taken sb d (takeBlock sb d f) f where
  used b hb := by
    unfold Native.takeBlock
    rw [used_set (hlay.offBitmap hs) hb, used_mark]
    simp
  blank i hi := by
    unfold Native.takeBlock
    rw [Disk.set_same]
    exact fill_in (zero_le _) (by omega)
  other k hk hoff := by
    unfold Native.takeBlock
    rw [set_ne hk]
    exact Disk.set_ne (hoff f hf)

/-! ## References -/

/-- A place that refers to a block: the slot of `addrs` it is reached
through, and the entries of the indirect blocks from there on, the last
one first. -/
structure Ref where
  slot : Nat
  path : List Nat
  deriving DecidableEq, Repr

/-- How many indirect blocks there are above the data. -/
def height (slot : Nat) : Nat := slot + 1 - NDIRECT

structure Ref.Valid (r : Ref) : Prop where
  slot : r.slot < NDIRECT + 2
  depth : r.path.length ≤ height r.slot
  entries : ∀ j ∈ r.path, j < NINDIRECT

/-- The place refers to an indirect block. -/
def Ref.Pointer (r : Ref) : Prop := r.path.length < height r.slot

variable {s : Nat} {m : List Nat}

lemma Ref.Valid.tail (h : Valid ⟨s, k :: m⟩) : Valid ⟨s, m⟩ :=
  ⟨h.slot, le_of_succ_le h.depth, fun j hj => h.entries j (mem_cons_of_mem _ hj)⟩

lemma Ref.Valid.pointer (h : Valid ⟨s, k :: m⟩) : Pointer ⟨s, m⟩ :=
  lt_of_succ_le h.depth

lemma Ref.Valid.head (h : Valid ⟨s, k :: m⟩) : k < NINDIRECT :=
  h.entries k mem_cons_self

def entry (d : Disk) (a j : Nat) : Nat := if a = 0 then 0 else readLe 4 (d a) (j * 4)

def chase (d : Disk) (a : Nat) : List Nat → Nat
  | [] => a
  | j :: l => entry d (chase d a l) j

lemma chase_zero (d : Disk) (l : List Nat) : chase d 0 l = 0 := by
  induction l with
  | nil => rfl
  | cons j l ih => rw [chase, ih, entry, if_pos rfl]

/-- The block a place refers to, or zero. -/
def refAt (d : Disk) (addrs : Nat → Nat) (r : Ref) : Nat := chase d (addrs r.slot) r.path

lemma entry_congr {a : Nat} (h : d' a = d a) (j : Nat) : entry d' a j = entry d a j := by
  unfold entry
  rw [h]

variable {j : Nat}

lemma entry_blank (h : ∀ i < BSIZE, d f i = 0) (hj : j < NINDIRECT) : entry d f j = 0 := by
  unfold entry
  split
  · rfl
  refine readLe_eq_zero.mpr fun i _ hi => h i ?_
  unfold NINDIRECT at hj
  omega

/-- Place `p.2` of inode `p.1` refers to `b`. -/
structure Holds (sb : Superblock) (d : Disk) (A : Nat → Nat → Nat) (p : Nat × Ref) (b : Nat) :
    Prop where
  inode : p.1 < sb.ninodes
  valid : p.2.Valid
  refers : refAt d (A p.1) p.2 = b
  block : b ≠ 0

/-- The bitmap agrees with what the inodes refer to. -/
def Sound (sb : Superblock) (start : Nat) (d : Disk) (A : Nat → Nat → Nat) : Prop :=
  Balanced (· < sb.size) (· < start) (fun b => used sb d b = true) (Holds sb d A)

variable {p : Nat × Ref}

section

variable (h : Sound sb start d A)
include h

lemma Sound.start_le (hp : Holds sb d A p b) : start ≤ b :=
  not_lt.mp (h.inside p b hp).2

lemma Sound.lt_size (hp : Holds sb d A p b) : b < sb.size :=
  (h.inside p b hp).1

lemma Sound.used_meta (hlay : Layout sb start)
    (hb : b < start) : used sb d b :=
  (h.marked_iff b (lt_of_lt_of_le hb hlay.size)).mpr (.inl hb)

lemma Sound.start_le_free (hlay : Layout sb start)
    (hf : used sb d f = false) : start ≤ f := by
  by_contra hlt
  rw [h.used_meta hlay (not_le.mp hlt)] at hf
  cases hf

omit h in
lemma refAt_congr {addrs addrs' : Nat → Nat} (ha : ∀ s < NDIRECT + 2, addrs' s = addrs s)
    (hd : ∀ r, r.Valid → r.Pointer → refAt d addrs r ≠ 0 → d' (refAt d addrs r) = d (refAt d addrs r))
    (path : List Nat) (hv : Ref.Valid ⟨s, path⟩) :
    refAt d' addrs' ⟨s, path⟩ = refAt d addrs ⟨s, path⟩ := by
  induction path with
  | nil => exact ha s hv.slot
  | cons k m ih => ?_
  change entry d' (refAt d' addrs' ⟨s, m⟩) k = entry d (refAt d addrs ⟨s, m⟩) k
  rw [ih hv.tail]
  by_cases h0 : refAt d addrs ⟨s, m⟩ = 0
  · rw [h0]
    rfl
  · exact entry_congr (hd _ hv.tail hv.pointer h0) k

omit h in
lemma holds_congr (ha : ∀ n < sb.ninodes, ∀ s < NDIRECT + 2, A' n s = A n s)
    (hd : ∀ p b, p.2.Pointer → Holds sb d A p b → d' b = d b) (p : Nat × Ref) (b : Nat) :
    Holds sb d' A' p b ↔ Holds sb d A p b := by
  have heq : p.1 < sb.ninodes → p.2.Valid → refAt d' (A' p.1) p.2 = refAt d (A p.1) p.2 :=
    fun hn hv => refAt_congr (ha p.1 hn) (fun r hr hp h0 => hd (p.1, r) _ hp ⟨hn, hr, rfl, h0⟩) _ hv
  constructor
  · rintro ⟨hn, hv, hat, hb⟩
    exact ⟨hn, hv, (heq hn hv).symm.trans hat, hb⟩
  rintro ⟨hn, hv, hat, hb⟩
  exact ⟨hn, hv, (heq hn hv).trans hat, hb⟩

lemma Sound.congr (ha : ∀ n < sb.ninodes, ∀ s < NDIRECT + 2, A' n s = A n s)
    (hd : ∀ p b, p.2.Pointer → Holds sb d A p b → d' b = d b)
    (hused : ∀ b < sb.size, used sb d' b = used sb d b) : Sound sb start d' A' :=
  Balanced.congr h (fun b hb => by rw [hused b hb]) (holds_congr ha hd)

lemma Sound.set {data : Block} (hoff : OffBitmap sb k)
    (hk : ∀ p, p.2.Pointer → ¬ Holds sb d A p k) : Sound sb start (d.set k data) A :=
  h.congr (fun _ _ _ _ => rfl) (fun p _ hp hb => Disk.set_ne fun hc => hk p hp (hc ▸ hb))
    fun _ hb => used_set hoff hb

/-! ## Taking a block -/

/-- A blank block `f` is put into place `p`, and no other place changes. -/
structure Grafted (sb : Superblock) (d : Disk) (A : Nat → Nat → Nat) (p : Nat × Ref) (f : Nat)
    (d' : Disk) (A' : Nat → Nat → Nat) : Prop where
  empty : refAt d (A p.1) p.2 = 0
  parent : ∀ k m, p.2.path = k :: m → refAt d (A p.1) ⟨p.2.slot, m⟩ ≠ 0
  blank : ∀ i, i < BSIZE → d' f i = 0
  root : ∀ n s, A' n s = if (n, ⟨s, []⟩) = p then f else A n s
  step : ∀ n s k m, n < sb.ninodes → Ref.Valid ⟨s, k :: m⟩ → refAt d (A n) ⟨s, m⟩ ≠ 0 →
    entry d' (refAt d (A n) ⟨s, m⟩) k
      = if (n, ⟨s, k :: m⟩) = p then f else entry d (refAt d (A n) ⟨s, m⟩) k

variable {n : Nat}

omit h in
lemma Grafted.address (h : Grafted sb d A p f d' A')
    (hn : n < sb.ninodes) (path : List Nat) (hv : Ref.Valid ⟨s, path⟩) :
    refAt d' (A' n) ⟨s, path⟩ = if (n, ⟨s, path⟩) = p then f else refAt d (A n) ⟨s, path⟩ := by
  induction path with
  | nil => exact h.root n s
  | cons k m ih => ?_
  change entry d' (refAt d' (A' n) ⟨s, m⟩) k = _
  rw [ih hv.tail]
  split
  · -- the block was put in one level above
    next hp =>
    subst hp
    rw [entry_blank h.blank hv.head, if_neg fun hc => by simpa using congrArg (·.2.path) hc]
    have h0 := h.empty
    change _ = entry d (refAt d (A n) ⟨s, m⟩) k
    rw [h0]
    rfl
  by_cases h0 : refAt d (A n) ⟨s, m⟩ = 0
  · have hne : (n, (⟨s, k :: m⟩ : Ref)) ≠ p := by
      rintro rfl
      exact h.parent k m rfl h0
    rw [if_neg hne]
    change _ = entry d (refAt d (A n) ⟨s, m⟩) k
    rw [h0]
    rfl
  · exact h.step n s k m hn hv h0

lemma Sound.graft
    (hg : Grafted sb d A p f d' A') (hn : p.1 < sb.ninodes) (hv : p.2.Valid) (hf : f < sb.size)
    (h0 : f ≠ 0) (hfree : used sb d f = false)
    (hused : ∀ b < sb.size, (used sb d' b ↔ used sb d b ∨ b = f)) :
    Sound sb start d' A' := by
  refine Balanced.take h hf (by rw [hfree]; exact Bool.false_ne_true) hused (p := p) fun q c => ?_
  constructor
  · rintro ⟨hqn, hqv, hat, hc⟩
    rw [show refAt d' (A' q.1) q.2 = _ from hg.address hqn _ hqv] at hat
    split at hat
    · next hqp => exact .inr ⟨hqp, hat.symm⟩
    · exact .inl ⟨hqn, hqv, hat, hc⟩
  rintro (⟨hqn, hqv, hat, hc⟩ | ⟨rfl, rfl⟩)
  · refine ⟨hqn, hqv, ?_, hc⟩
    rw [show refAt d' (A' q.1) q.2 = _ from hg.address hqn _ hqv, if_neg]
    · exact hat
    rintro rfl
    exact hc (hat.symm.trans hg.empty)
  · refine ⟨hn, hv, ?_, h0⟩
    rw [show refAt d' (A' q.1) q.2 = _ from hg.address hn _ hv]
    exact if_pos rfl

end

section

variable (h : Sound sb start d A) (hlay : Layout sb start) (ht : Taken sb d d' f)
include h hlay ht

lemma Sound.taken_same (hfree : used sb d f = false) (hp : Holds sb d A p b) : d' b = d b := by
  refine ht.other b ?_ (hlay.offBitmap (h.start_le hp))
  rintro rfl
  have := h.mark hp
  rw [hfree] at this
  cases this

lemma Sound.graft_root (hfree : used sb d f = false) (h0 : A n s = 0) :
    Grafted sb d A (n, ⟨s, []⟩) f d' (update A n (update (A n) s f)) where
  empty := h0
  parent := nofun
  blank := ht.blank
  root m t := by
    by_cases hm : m = n
    · subst hm
      rw [update_self]
      by_cases ht : t = s
      · subst ht
        rw [update_self, if_pos rfl]
      · rw [update_of_ne ht, if_neg (by simpa using ht)]
    · rw [update_of_ne hm, if_neg fun hc => hm (congrArg Prod.fst hc)]
  step m t k l hm hv hne := by
    rw [if_neg fun hc => by simpa using congrArg (·.2.path) hc]
    exact entry_congr (h.taken_same hlay ht hfree (p := (m, ⟨t, l⟩)) ⟨hm, hv.tail, rfl, hne⟩) k

lemma Sound.graft_entry {l : List Nat} (hf : f < sb.size) (hfree : used sb d f = false)
    (hb : Holds sb d A (n, ⟨s, l⟩) b) (h0 : entry d b j = 0) :
    Grafted sb d A (n, ⟨s, j :: l⟩) f (d'.set b (writeLe 4 (d b) (j * 4) f)) A where
  empty := by
    change entry d (refAt d (A n) ⟨s, l⟩) j = 0
    rw [show refAt d (A n) ⟨s, l⟩ = b from hb.refers]
    exact h0
  parent k m hkm := by
    cases hkm
    rw [show refAt d (A n) ⟨s, l⟩ = b from hb.refers]
    exact hb.block
  blank i hi := by
    rw [set_ne]
    · exact ht.blank i hi
    rintro rfl
    have := h.mark hb
    rw [hfree] at this
    cases this
  root m t := by rw [if_neg fun hc => by simpa using congrArg (·.2.path) hc]
  step m t k q hm hv hne := by
    have hq : Holds sb d A (m, ⟨t, q⟩) (refAt d (A m) ⟨t, q⟩) := ⟨hm, hv.tail, rfl, hne⟩
    by_cases hqb : refAt d (A m) ⟨t, q⟩ = b
    · -- no other place refers to the block
      have hsame := h.once _ _ b (hqb ▸ hq) hb
      cases hsame
      rw [hqb]
      unfold entry
      rw [if_neg hb.block, set_same]
      by_cases hk : k = j
      · subst hk
        rw [if_pos rfl]
        exact readLe_writeLe_of_lt (by have := hlay.small; omega)
      · rw [if_neg (by simpa using hk), if_neg hb.block, readLe_writeLe_disjoint (by omega)]
    · rw [if_neg]
      · exact entry_congr ((Disk.set_ne hqb).trans (h.taken_same hlay ht hfree hq)) k
      rintro hc
      cases hc
      exact hqb hb.refers

end

/-! ## `bmap` -/

/-- One of the places `W` of the inode refers to `k`. -/
def Touches (W : Ref → Prop) (d : Disk) (x : Dinode) (k : Nat) : Prop :=
  ∃ r, r.Valid ∧ W r ∧ refAt d x.addrs r = k ∧ k ≠ 0

/-- The inode got more blocks. Of the blocks in use only those that its
places `W` refer to were written, and the bitmap. -/
structure Grown (sb : Superblock) (W : Ref → Prop) (d : Disk) (x : Dinode) (d' : Disk)
    (x' : Dinode) : Prop where
  fields : x' = { x with addrs := x'.addrs }
  beyond : ∀ s, NDIRECT + 2 ≤ s → x'.addrs s = x.addrs s
  keeps : ∀ r, r.Valid → refAt d x.addrs r ≠ 0 → refAt d' x'.addrs r = refAt d x.addrs r
  fresh : ∀ r, r.Valid → refAt d x.addrs r = 0 → refAt d' x'.addrs r ≠ 0 →
    refAt d' x'.addrs r < sb.size ∧ used sb d (refAt d' x'.addrs r) = false
  used : ∀ b, b < sb.size → used sb d b = true → used sb d' b = true
  frame : ∀ k, k < sb.size → Native.used sb d k = true → OffBitmap sb k → ¬ Touches W d x k →
    d' k = d k

variable {W : Ref → Prop}

lemma Grown.refl (sb : Superblock) (W : Ref → Prop) (d : Disk) (x : Dinode) : Grown sb W d x d x :=
  ⟨rfl, fun _ _ => rfl, fun _ _ _ => rfl, fun _ _ h0 hne => absurd h0 hne, fun _ _ h => h,
    fun _ _ _ _ _ => rfl⟩

lemma Grown.trans (h : Grown sb W d x d' x') (h' : Grown sb W d' x' d'' x'') :
    Grown sb W d x d'' x'' where
  fields := by rw [h'.fields, h.fields]
  beyond s hs := (h'.beyond s hs).trans (h.beyond s hs)
  keeps r hr hne := by
    have hkeep := h.keeps r hr hne
    exact (h'.keeps r hr (by rwa [hkeep])).trans hkeep
  fresh r hr h0 hne := by
    by_cases h1 : refAt d' x'.addrs r = 0
    · obtain ⟨hlt, hfree⟩ := h'.fresh r hr h1 hne
      refine ⟨hlt, ?_⟩
      by_contra hused
      rw [h.used _ hlt (Bool.eq_true_of_not_eq_false hused)] at hfree
      cases hfree
    · rw [h'.keeps r hr h1]
      exact h.fresh r hr h0 h1
  used b hb hu := h'.used b hb (h.used b hb hu)
  frame k hk hu hoff hW := by
    rw [h'.frame k hk (h.used k hk hu) hoff, h.frame k hk hu hoff hW]
    rintro ⟨r, hr, hWr, rfl, hne⟩
    by_cases h0 : refAt d x.addrs r = 0
    · rw [(h.fresh r hr h0 hne).2] at hu
      cases hu
    · exact hW ⟨r, hr, hWr, (h.keeps r hr h0).symm, hne⟩

lemma Grafted.grown {r : Ref}
    (h : Grafted sb d (update A n x.addrs) (n, r) f d' (update A n x'.addrs))
    (hn : n < sb.ninodes) (hf : f < sb.size) (hfree : used sb d f = false)
    (hfields : x' = { x with addrs := x'.addrs })
    (hbeyond : ∀ s, NDIRECT + 2 ≤ s → x'.addrs s = x.addrs s)
    (hused : ∀ b < sb.size, (used sb d' b ↔ used sb d b ∨ b = f))
    (hframe : ∀ k < sb.size, used sb d k → OffBitmap sb k → ¬ Touches W d x k →
      d' k = d k) : Grown sb W d x d' x' := by
  have hat : ∀ q, q.Valid → refAt d' x'.addrs q = if q = r then f else refAt d x.addrs q := by
    intro q hq
    have := h.address hn q.path hq
    rw [update_self, update_self] at this
    simpa using this
  have hempty : refAt d x.addrs r = 0 := by
    have := h.empty
    rwa [update_self] at this
  refine ⟨hfields, hbeyond, fun q hq hne => ?_, fun q hq h0 hne => ?_,
    fun b hb hu => (hused b hb).mpr (.inl hu), hframe⟩
  · rw [hat q hq, if_neg]
    rintro rfl
    exact hne hempty
  rw [hat q hq] at hne ⊢
  split at hne
  · next hqr =>
    rw [if_pos hqr]
    exact ⟨hf, hfree⟩
  · exact absurd h0 hne

lemma directAddr_grown (hlay : Layout sb start) (hn : n < sb.ninodes)
    (hs : s < NDIRECT + 2) (h : Sound sb start d (update A n x.addrs)) :
    (directAddr sb x s).Yields (· = .ballocOutOfBlocks) d fun p d' =>
      Sound sb start d' (update A n p.2.addrs) ∧ Grown sb Ref.Pointer d x d' p.2 ∧
        p.1 = refAt d' p.2.addrs ⟨s, []⟩ ∧ p.1 ≠ 0 := by
  unfold directAddr
  split
  · next h0 =>
    refine balloc_yields.bind fun f d' ⟨hf, hfree, hd⟩ => ?_
    subst hd
    have hle := h.start_le_free hlay hfree
    have hpos : f ≠ 0 := by
      have := hlay.pos
      omega
    have ht : Taken sb d (takeBlock sb d f) f := hlay.takeBlock hf hle
    have hg := h.graft_root hlay ht hfree (n := n) (s := s) (by rw [update_self]; exact h0)
    rw [update_self, update_idem] at hg
    have hgrown : Grown sb Ref.Pointer d x (takeBlock sb d f) (x.setAddr s f) := by
      refine hg.grown hn hf hfree rfl (fun t ht => update_of_ne (by omega) ..) ht.used
        fun k _ hu hoff _ => ht.other k ?_ hoff
      rintro rfl
      rw [hfree] at hu
      cases hu
    exact .of_run rfl ⟨h.graft hg hn ⟨hs, zero_le _, nofun⟩ hf hpos hfree ht.used, hgrown,
      (update_self s f x.addrs).symm, hpos⟩
  · next h0 => exact .of_run rfl ⟨h, .refl .., rfl, h0⟩

lemma indirectAddr_grown (hlay : Layout sb start) {l : List Nat}
    (hn : n < sb.ninodes) (h : Sound sb start d (update A n x.addrs))
    (hv : Ref.Valid ⟨s, j :: l⟩) (hb : b = refAt d x.addrs ⟨s, l⟩) (h0 : b ≠ 0) :
    (indirectAddr sb b j).Yields (· = .ballocOutOfBlocks) d fun a d' =>
      Sound sb start d' (update A n x.addrs) ∧ Grown sb Ref.Pointer d x d' x ∧
        a = refAt d' x.addrs ⟨s, j :: l⟩ ∧ a ≠ 0 := by
  have hentry : refAt d x.addrs ⟨s, j :: l⟩ = readLe 4 (d b) (j * 4) := by
    change entry d (refAt d x.addrs ⟨s, l⟩) j = _
    rw [← hb]
    exact if_neg h0
  have hholds : Holds sb d (update A n x.addrs) (n, ⟨s, l⟩) b :=
    ⟨hn, hv.tail, by rw [update_self]; exact hb.symm, h0⟩
  change Prog.Yields (if readLe 4 (d b) (j * 4) = 0 then _ else _) _ _ _
  split
  · next he =>
    refine balloc_yields.bind fun f d' ⟨hf, hfree, hd⟩ => ?_
    subst hd
    have hle := h.start_le_free hlay hfree
    have hpos : f ≠ 0 := by
      have := hlay.pos
      omega
    have ht : Taken sb d (takeBlock sb d f) f := hlay.takeBlock hf hle
    have hg := h.graft_entry hlay ht hf hfree hholds (j := j) ((if_neg h0).trans he)
    have hused : ∀ c < sb.size, (used sb ((takeBlock sb d f).set b
        (writeLe 4 (d b) (j * 4) f)) c ↔ used sb d c ∨ c = f) := fun c hc => by
      rw [used_set (hlay.offBitmap (h.start_le hholds)) hc, ht.used c hc]
    have hself := hg.address hn (j :: l) hv
    rw [update_self, if_pos rfl] at hself
    refine .of_run rfl ⟨h.graft hg hn hv hf hpos hfree hused,
      hg.grown hn hf hfree rfl (fun _ _ => rfl) hused fun k _ hu hoff hk => ?_, hself.symm, hpos⟩
    rw [set_ne, ht.other k _ hoff]
    · rintro rfl
      rw [hfree] at hu
      cases hu
    · rintro rfl
      exact hk ⟨_, hv.tail, hv.pointer, hb.symm, h0⟩
  · next he => exact .of_run rfl ⟨h, .refl .., hentry.symm, he⟩

/-- The place of block `bn` of a file. -/
def refOf (bn : Nat) : Ref :=
  if bn < NDIRECT then ⟨bn, []⟩
  else if bn - NDIRECT < NINDIRECT then ⟨NDIRECT, [bn - NDIRECT]⟩
  else ⟨NDIRECT + 1, [(bn - NDIRECT - NINDIRECT) % NINDIRECT, (bn - NDIRECT - NINDIRECT) / NINDIRECT]⟩

variable {bn : Nat}

lemma refOf_valid (h : bn < MAXFILE) : (refOf bn).Valid := by
  unfold MAXFILE at h
  unfold refOf
  split
  · next h1 => exact ⟨by dsimp only; omega, zero_le _, nofun⟩
  split
  · next h2 => exact ⟨(by decide : NDIRECT < NDIRECT + 2), le_refl 1, by simpa using h2⟩
  refine ⟨lt_succ_self _, le_refl 2, ?_⟩
  simp only [mem_cons, not_mem_nil, or_false, forall_eq_or_imp, forall_eq]
  exact ⟨mod_lt _ (by decide), (Nat.div_lt_iff_lt_mul (by decide)).mpr (by omega)⟩

lemma refOf_data (bn : Nat) : ¬ (refOf bn).Pointer := by
  unfold refOf Ref.Pointer height
  split
  · dsimp only [length_nil]
    omega
  split
  · exact lt_irrefl 1
  · exact lt_irrefl 2

lemma refOf_inj {bn' : Nat} (h : refOf bn = refOf bn') : bn = bn' := by
  unfold refOf at h
  unfold NDIRECT NINDIRECT BSIZE at h
  grind

lemma addrAt_eq (d : Disk) (x : Dinode) (h : bn < MAXFILE) :
    addrAt d x bn = refAt d x.addrs (refOf bn) := by
  unfold addrAt refOf refAt
  by_cases h1 : bn < NDIRECT
  · rw [if_pos h1, if_pos h1]
    rfl
  rw [if_neg h1, if_neg h1]
  by_cases h2 : bn - NDIRECT < NINDIRECT
  · rw [if_pos h2, if_pos h2]
    rfl
  unfold MAXFILE at h
  rw [if_neg h2, if_neg h2, if_pos (by omega)]
  change _ = entry d (entry d (x.addrs (NDIRECT + 1)) _) _
  unfold entry
  split <;> rfl

lemma addrAt_beyond (h : MAXFILE ≤ bn) : addrAt d x bn = 0 := by
  unfold MAXFILE at h
  unfold addrAt
  rw [if_neg (by omega)]
  rw [if_neg (by omega), if_neg (by omega)]

lemma bmap_grown (hlay : Layout sb start) (hn : n < sb.ninodes) (hbn : bn < MAXFILE)
    (h : Sound sb start d (update A n x.addrs)) :
    (bmap sb x bn).Yields (· = .ballocOutOfBlocks) d fun p d' =>
      Sound sb start d' (update A n p.2.addrs) ∧ Grown sb Ref.Pointer d x d' p.2 ∧
        p.1 = addrAt d' p.2 bn ∧ p.1 ≠ 0 := by
  have hv := refOf_valid hbn
  simp only [addrAt_eq _ _ hbn]
  unfold bmap
  unfold refOf at hv ⊢
  split
  · next h1 =>
    exact directAddr_grown hlay hn (by omega) h
  next h1 =>
  rw [if_neg h1] at hv
  dsimp only
  split
  · next h2 =>
    rw [if_pos h2] at hv
    refine (directAddr_grown hlay hn (by decide) h).bind fun p d1 ⟨hs1, hg1, hp, hp0⟩ => ?_
    refine (indirectAddr_grown hlay hn hs1 hv hp hp0).bind fun a d2 ⟨hs2, hg2, ha⟩ => ?_
    exact .of_run rfl ⟨hs2, hg1.trans hg2, ha⟩
  next h2 =>
  unfold MAXFILE at hbn
  rw [if_neg h2] at hv
  rw [if_pos (by omega)]
  refine (directAddr_grown hlay hn (by decide) h).bind fun p d1 ⟨hs1, hg1, hp, hp0⟩ => ?_
  refine (indirectAddr_grown hlay hn hs1 hv.tail hp hp0).bind fun b d2 ⟨hs2, hg2, hb, hb0⟩ => ?_
  refine (indirectAddr_grown hlay hn hs2 hv hb hb0).bind fun a d3 ⟨hs3, hg3, ha⟩ => ?_
  exact .of_run rfl ⟨hs3, (hg1.trans hg2).trans hg3, ha⟩

lemma bmap_same {E : Panic → Prop} (h : addrAt d x bn ≠ 0) :
    (bmap sb x bn).Yields E d fun p _ => p.2 = x :=
  .of_run (bmap_run h) rfl

end Proninx.Native
