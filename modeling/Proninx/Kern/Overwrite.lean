import Proninx.Kern.NativeWrite
import Proninx.Kern.OpenAccess
import Proninx.Kern.Ufs2Write

/-!
# Overwriting a file

`filewrite` (`file.c`) on an open file, and the end of `sys_open` that
hands the file out. A program that replaces a file opens it with `O_TRUNC`,
writes the new contents in pieces and closes it. `sys_open` truncates UFS2
files only: what the program finds in a native file afterwards begins with
what it wrote and goes on with what was there before.
-/

namespace Proninx

open Function List Nat

/-! ## UFS2 -/

namespace Ufs2

open ByteMem

variable {v : Volume} {mine : Nat → Prop} {n : Nat} {d d' : Disk} {x y : Inode} {w : List UInt8}

variable (v mine n d x) in
/-- A regular file that can be truncated: what it lists is apart from the
groups and the dinodes, and the blocks behind its indirect block are its
own. -/
structure Truncatable : Prop where
  ground : Ground v mine
  groups_fit : ∀ g o, cgOffset v g = some o → v.device.Fits o v.cylinderGroupSize
  live : Live v mine n (v.bytes d) x
  mode : x.mode &&& IFMT = IFREG
  boot : ¬ FreeAt v (v.bytes d) 0
  allocated : ∀ b a, DIRECT_BLOCKS ≤ b → addressAt v (v.bytes d) x b = some a →
    ∀ k, a ≤ k → k < a + v.fragmentsPerBlock → ¬ FreeAt v (v.bytes d) k ∧
      ∀ c, c < DIRECT_BLOCKS → x.direct c ≠ 0 →
        ¬ (x.direct c ≤ k ∧ k < x.direct c + v.fragmentsPerBlock)
  alone : ∀ b c a e, DIRECT_BLOCKS ≤ b → DIRECT_BLOCKS ≤ c → b ≠ c →
    addressAt v (v.bytes d) x b = some a → addressAt v (v.bytes d) x c = some e →
    ∀ k, a ≤ k → k < a + v.fragmentsPerBlock → ¬ (e ≤ k ∧ k < e + v.fragmentsPerBlock)
  fits : ∀ b a, DIRECT_BLOCKS ≤ b → addressAt v (v.bytes d) x b = some a →
    v.device.Fits (a * v.fragmentSize) v.blockSize

lemma Truncatable.filed (h : Truncatable v mine n d x) : Filed v n x (v.bytes d) where
  accepted := h.ground.accepted
  separate := h.ground.separate
  numbers := h.ground.numbers
  groups_fit := h.groups_fit
  maps_apart := h.live.base.maps_apart
  slot := h.ground.slot_used h.live.marked
  slot_apart := h.ground.slot_group n
  mode := .inl h.mode
  number b hb h0 := by
    have hmine := h.live.sited.listed b (x.direct b) (by rw [addressAt, if_pos hb, if_neg h0]) 0
      h.ground.probed.fragmentsPerBlock_pos
    exact h.ground.number _ hmine

variable (v n d y w) in
/-- File `n` is `y` and its bytes are `w`. -/
structure Holding : Prop where
  whole : Whole v n (v.bytes d) y
  size : y.size = w.length
  short : w.length ≤ DIRECT_BLOCKS * v.blockSize
  bytes : ∀ i, i < w.length → fileByte v (v.bytes d) y i = w.getD i 0
  stored : Stored v (v.bytes d) n y

lemma Stored.typed {m : Mem} (h : Stored v m n y) : y.Typed := by
  obtain ⟨z, hz, hsame⟩ := h
  have ht := inodeAt_typed hz
  exact ⟨hsame.mode ▸ ht.mode, hsame.nlink ▸ ht.nlink, hsame.uid ▸ ht.uid, hsame.gid ▸ ht.gid,
    hsame.size ▸ ht.size, fun i hi => hsame.direct i hi ▸ ht.direct i hi,
    fun i hi => hsame.indirect i hi ▸ ht.indirect i hi⟩

/-- After the truncation, the file has the blocks behind its indirect block
and no others. -/
lemma Truncatable.addressAt_iff (h : Truncatable v mine n d x) (hk : Kept v mine n d x d' y)
    (hf : Freed v (v.bytes d) (v.bytes d') { x with size := 0 } y 0 DIRECT_BLOCKS) (b a : Nat) :
    addressAt v (v.bytes d') y b = some a ↔
      DIRECT_BLOCKS ≤ b ∧ addressAt v (v.bytes d) x b = some a := by
  by_cases hb : b < DIRECT_BLOCKS
  · rw [addressAt, if_pos hb, if_pos (hf.cleared b (zero_le b) hb)]
    exact iff_of_false (by simp) fun hle => by omega
  have hindirect : y.indirect 0 = x.indirect 0 := congrFun hf.indirect 0
  have hsame : addressAt v (v.bytes d') y b = addressAt v (v.bytes d) x b := by
    calc addressAt v (v.bytes d') y b = addressAt v (v.bytes d') x b := by
          unfold addressAt
          rw [if_neg hb, if_neg hb, hindirect]
      _ = addressAt v (v.bytes d) x b := addressAt_congr (fun i hi =>
          hk.tidy.confined i (h.live.sited.group i hi) (h.live.sited.slot i n hi)
            fun k hk' => h.live.sited.data i k hi hk') b
  rw [hsame]
  exact (and_iff_right (by omega)).symm

lemma truncate_holding (h : Truncatable v mine n d x) :
    (truncate v n x).Ensures d fun p d' => p.1 = some () → Holding v n d' p.2 [] := by
  obtain ⟨⟨r, y⟩, d', hrun, hk, hsize⟩ := truncate_kept h.ground h.live
  obtain ⟨stop, -, hf, hres, -⟩ := (truncate_freed h.filed).of_eq hrun
  refine .of_run hrun fun hr => ?_
  obtain rfl := hres.mp hr
  have haddr := h.addressAt_iff hk hf
  have hfree : ∀ k, FreeAt v (v.bytes d') k ↔ FreeAt v (v.bytes d) k ∨ ∃ b, 0 ≤ b ∧
      b < DIRECT_BLOCKS ∧ x.direct b ≠ 0 ∧ x.direct b ≤ k ∧
        k < x.direct b + v.fragmentsPerBlock := hf.free
  have hmine : ∀ k, FreeAt v (v.bytes d') k ∨ Holds v (v.bytes d') y k → mine k := by
    rintro k (hk' | ⟨b, a, ha, hlo, hhi⟩)
    · exact hk.live.base.free k hk'
    obtain ⟨j, rfl⟩ := Nat.exists_eq_add_of_le hlo
    exact hk.live.sited.listed b a ha j (by omega)
  refine ⟨⟨(h.ground.room n).mono hmine, ?_, ?_, ?_, ?_, ?_⟩, hsize hr, zero_le _, nofun,
    hk.live.stored⟩
  · rw [hfree]
    rintro (h0 | ⟨b, -, -, hne, hle, -⟩)
    · exact h.boot h0
    · omega
  · rintro k ⟨b, a, ha, hlo, hhi⟩
    obtain ⟨hb, ha⟩ := (haddr b a).mp ha
    obtain ⟨hnot, hdirect⟩ := h.allocated b a hb ha k hlo hhi
    rw [hfree]
    rintro (h0 | ⟨c, -, hc, hne, hrange⟩)
    · exact hnot h0
    · exact hdirect c hc hne hrange
  · intro b c a e hbc ha he
    obtain ⟨hb, ha⟩ := (haddr b a).mp ha
    obtain ⟨hc, he⟩ := (haddr c e).mp he
    exact h.alone b c a e hb hc hbc ha he
  · intro b a ha
    obtain ⟨hb, ha⟩ := (haddr b a).mp ha
    exact h.fits b a hb ha
  · intro i hi
    exact ⟨hk.live.sited.group i hi, hk.live.sited.slot i n hi,
      fun k hk' => hk.live.sited.data i k hi (hmine k hk')⟩

lemma Holding.write (h : Holding v n d y w) (c : List UInt8) :
    (writeGrowing v n y w.length (ofList c) c.length).Ensures d fun p d' =>
      p.1 = some () → Holding v n d' p.2 (w ++ c) := by
  by_cases hlong : DIRECT_BLOCKS * v.blockSize < w.length + c.length
  · unfold writeGrowing
    rw [if_pos hlong, ite_self]
    exact .pure nofun
  refine (writeGrowing_wrote h.whole w.length (ofList c) c.length).mono fun p d' hw hr => ?_
  have hw := hw hr
  refine ⟨hw.whole, ?_, by rw [length_append]; omega, fun i hi => ?_,
    hw.stored h.stored.typed h.stored⟩
  · rw [hw.size, h.size, length_append]
    omega
  rw [length_append] at hi
  by_cases hlt : i < w.length
  · have hblock : i / v.blockSize < 2 ^ 32 := by
      have hlt' : i / v.blockSize < DIRECT_BLOCKS :=
        (div_lt_iff_lt_mul h.whole.probed.sizes.blockPos).mpr (hlt.trans_le h.short)
      exact hlt'.trans (by decide)
    rw [hw.other i (h.size ▸ hlt) hblock (.inl hlt), h.bytes i hlt, getD_append _ _ _ _ hlt]
  · obtain ⟨j, rfl⟩ := Nat.exists_eq_add_of_le (Nat.le_of_not_lt hlt)
    rw [hw.source j (by omega), getD_append_right _ _ _ _ (by omega), Nat.add_sub_cancel_left]
    rfl

lemma fileByte_same {m : Mem} {z : Inode} (h : z.Same y) (i : Nat) :
    fileByte v m z i = fileByte v m y i := by
  unfold fileByte byteAt
  rw [addressAt_pointers h.direct (h.indirect 0 (by decide))]

lemma Holding.contents (h : Holding v n d y w) : ∃ z, inodeAt v (v.bytes d) n = some z ∧
      (range z.size).map (fileByte v (v.bytes d) z) = w := by
  obtain ⟨z, hz, hsame⟩ := h.stored
  refine ⟨z, hz, ext_getElem (by simp [hsame.size, h.size]) fun i hi hw => ?_⟩
  rw [getElem_map, getElem_range, fileByte_same hsame, h.bytes i hw, getD_eq_getElem _ _ hw]

end Ufs2

/-! ## Native files -/

namespace Native

open ByteMem

variable {sb : Superblock} {start inum : Nat} {d d' : Disk} {x x' : Dinode} {old w : List UInt8}

variable (sb start inum d x old w) in
/-- The file `x` begins with `w` and goes on with what `old` has there. -/
structure Holding : Prop where
  consistent : Consistent sb start d
  inum_lt : inum < sb.ninodes
  stored : dinodeAt sb d inum = x
  used : x.type ≠ 0
  size : x.size = max old.length w.length
  bytes : ∀ i, i < w.length → byteAt d x i = w.getD i 0
  rest : ∀ i, w.length ≤ i → i < old.length → byteAt d x i = old.getD i 0

lemma Holding.write (hlay : Layout sb start) (h : Holding sb start inum d x old w) (src : Mem)
    (n : Nat) :
    (writei sb inum x src w.length n).Leads d fun p d' => ∀ r, p.1 = some r →
      r = n ∧ p.2 = { x with size := p.2.size, addrs := p.2.addrs } ∧
        Holding sb start inum d' p.2 old (w ++ toList src 0 n) := by
  by_cases hrefused : Refused x w.length n
  · unfold Refused at hrefused
    have hnone : writei sb inum x src w.length n = pure (none, x) := by
      unfold writei
      split
      · rfl
      · rw [if_pos (by omega)]
    rw [hnone]
    exact .pure nofun
  refine (writei_written hlay h.consistent h.inum_lt h.stored h.used src hrefused).leads.mono ?_
  rintro ⟨r', x'⟩ d' ⟨hr, hw⟩ r hr'
  obtain rfl : n = r := Option.some.inj (hr.symm.trans hr')
  have hlen : (toList src 0 n).length = n := by simp [toList]
  have hsize : x'.size = max x.size (w.length + n) := congrArg Dinode.size hw.fields
  have hfields : x' = { x with size := x'.size, addrs := x'.addrs } := by
    rw [hsize]
    exact hw.fields
  refine ⟨rfl, hfields, hw.consistent, h.inum_lt, hw.stored, ?_, ?_, fun i hi => ?_,
    fun i hlo hhi => ?_⟩
  · exact (congrArg Dinode.type hfields).trans_ne h.used
  · rw [hsize, h.size, length_append, hlen]
    omega
  · rw [length_append, hlen] at hi
    by_cases hlt : i < w.length
    · rw [hw.rest i (by rw [h.size]; omega) (.inl hlt), h.bytes i hlt, getD_append _ _ _ _ hlt]
    obtain ⟨j, rfl⟩ := Nat.exists_eq_add_of_le (Nat.le_of_not_lt hlt)
    rw [hw.bytes j (by omega), getD_append_right _ _ _ _ (by omega),
      Nat.add_sub_cancel_left, getD_eq_getElem _ _ (by rw [hlen]; omega)]
    simp [toList]
  · rw [length_append, hlen] at hlo
    rw [hw.rest i (by rw [h.size]; omega) (.inr hlo), h.rest i (by omega) hhi]

lemma Holding.contents (h : Holding sb start inum d x old w) :
    (range (dinodeAt sb d inum).size).map (byteAt d (dinodeAt sb d inum)) =
      w ++ old.drop w.length := by
  rw [h.stored]
  refine ext_getElem (by simp [h.size]; omega) fun i hi hw => ?_
  rw [getElem_map, getElem_range]
  by_cases hlt : i < w.length
  · rw [h.bytes i hlt, getElem_append_left hlt, getD_eq_getElem _ _ hlt]
  have hsize : i < old.length := by
    rw [length_append, length_drop] at hw
    omega
  rw [getElem_append_right (not_lt.mp hlt), getElem_drop,
    h.rest i (not_lt.mp hlt) hsize, getD_eq_getElem _ _ hsize]
  congr 1
  omega

variable (sb start d) in
/-- A table without indirect blocks that agrees with the bitmap: `own` tells
the inode and the slot a block belongs to. -/
def Plain (own : Nat → Nat × Nat) : Prop :=
  (∀ n < sb.ninodes, ∀ s < NDIRECT + 2, tableAddrs sb d n s ≠ 0 →
    s < NDIRECT ∧ own (tableAddrs sb d n s) = (n, s) ∧ start ≤ tableAddrs sb d n s ∧
      tableAddrs sb d n s < sb.size) ∧
  (∀ b < sb.size, used sb d b = true ↔ b < start ∨ (b ≠ 0 ∧ (own b).1 < sb.ninodes ∧
    (own b).2 < NDIRECT ∧ tableAddrs sb d (own b).1 (own b).2 = b)) ∧
  ∀ n < sb.ninodes,
    (∀ bn < (dinodeAt sb d n).size, bn * BSIZE < (dinodeAt sb d n).size →
      (dinodeAt sb d n).type ≠ 0 → addrAt d (dinodeAt sb d n) bn ≠ 0) ∧
    ((dinodeAt sb d n).type = 0 → ∀ s < NDIRECT + 2, tableAddrs sb d n s = 0)

instance (own : Nat → Nat × Nat) : Decidable (Plain sb start d own) :=
  @instDecidableAnd _ _ inferInstance (@instDecidableAnd _ _ inferInstance inferInstance)

lemma Plain.holds {own : Nat → Nat × Nat} (h : Plain sb start d own) {p : Nat × Ref} {b : Nat}
    (hp : Holds sb d (tableAddrs sb d) p b) :
    p.2.path = [] ∧ b ≠ 0 ∧ p.1 < sb.ninodes ∧ p.2.slot < NDIRECT ∧
      tableAddrs sb d p.1 p.2.slot = b := by
  obtain ⟨n, s, path⟩ := p
  obtain ⟨hn, hv, hb, h0⟩ := hp
  have hne : tableAddrs sb d n s ≠ 0 := by
    intro hs
    refine h0 (hb.symm.trans ?_)
    rw [refAt, hs, chase_zero]
  have hs : s < NDIRECT := (h.1 n hn s hv.slot hne).1
  have hdepth : path.length ≤ height s := hv.depth
  obtain rfl : path = [] := eq_nil_of_length_eq_zero (by unfold height at hdepth; omega)
  exact ⟨rfl, h0, hn, hs, hb⟩

lemma Plain.consistent {own : Nat → Nat × Nat} (h : Plain sb start d own) :
    Consistent sb start d where
  sound :=
    { once := by
        intro p q b hp hq
        obtain ⟨hpath, h0, hn, hs, hb⟩ := h.holds hp
        obtain ⟨hpath', -, hn', hs', hb'⟩ := h.holds hq
        have howner := (h.1 p.1 hn p.2.slot (by omega) (by omega)).2.1
        have howner' := (h.1 q.1 hn' q.2.slot (by omega) (by omega)).2.1
        rw [hb] at howner
        rw [hb', howner] at howner'
        obtain ⟨n, s, path⟩ := p
        obtain ⟨n', s', path'⟩ := q
        cases hpath
        cases hpath'
        cases howner'
        rfl
      inside := by
        intro p b hp
        obtain ⟨-, h0, hn, hs, rfl⟩ := h.holds hp
        obtain ⟨-, -, hlo, hhi⟩ := h.1 p.1 hn p.2.slot (by omega) h0
        exact ⟨hhi, not_lt.mpr hlo⟩
      marked_iff := by
        intro b hb
        rw [h.2.1 b hb]
        refine or_congr_right ⟨fun ⟨h0, hn, hs, hown⟩ => ?_, fun ⟨p, hp⟩ => ?_⟩
        · exact ⟨((own b).1, ⟨(own b).2, []⟩), hn,
            ⟨lt_of_lt_of_le hs (Nat.le_add_right _ _), zero_le _, nofun⟩, hown, h0⟩
        obtain ⟨-, h0, hn, hs, hslot⟩ := h.holds hp
        have hown := (h.1 p.1 hn p.2.slot (by omega) (by omega)).2.1
        rw [hslot] at hown
        rw [hown]
        exact ⟨h0, hn, hs, hslot⟩ }
  covered n hn ht bn hbn := by
    have hle : bn ≤ bn * BSIZE := Nat.le_mul_of_pos_right bn (by decide)
    exact (h.2.2 n hn).1 bn (hle.trans_lt hbn) hbn ht
  free n hn ht := (h.2.2 n hn).2 ht

end Native

namespace Fs

open ByteMem Ufs2 Native Stateful

section Model

variable (mnt : Mount)

def WRITE_MAX : Nat := (MAXOPBLOCKS - 1 - 1 - 2) / 2 * 512

/-- A turn of the loop of `filewrite`. -/
def writePart (f : Fin NFILE) (src : Mem) (n : Nat) : Call (Option Nat) := do
  let k ← get
  let ff := k.file f
  onFs (ilock mnt ff.ip)
  let k ← get
  let e := k.fs.slot ff.ip
  let (r, x) ← onFs (onDisk e.dev (writei mnt.sb e.inum e.dinode src ff.off n))
  onFs (setSlot ff.ip (e.withDinode x))
  match r with
  | none => pure none
  | some r => do
    setFile f { ff with off := ff.off + r }
    pure (some r)

/-- The loop of `filewrite` from byte `i` on. `writei` writes all it is asked
to or nothing, and a byte at least, so there are no short writes and no more
turns than bytes. -/
def writeParts (f : Fin NFILE) (src : Mem) (n : Nat) : (turns i : Nat) → Call (Option Nat)
  | 0, _ => pure (some n)
  | turns + 1, i =>
    if i < n then do
      match ← writePart mnt f (shift src i) (min (n - i) WRITE_MAX) with
      | none => pure none
      | some r => writeParts f src n turns (i + r)
    else pure (some n)

def writeUfs2 (f : Fin NFILE) (src : Mem) (n : Nat) : Call (Option Nat) := do
  let k ← get
  let ff := k.file f
  if 2 ^ 32 ≤ ff.off + n then pure none
  else do
    onFs (ilock mnt ff.ip)
    let k ← get
    let e := k.fs.slot ff.ip
    match mnt.volume e.dev with
    | none => pure none
    | some v => do
      let (r, x) ← onFs (onDisk e.dev (writeGrowing v e.inum e.data.info ff.off src n))
      match r with
      | none => do
        onFs (setSlot ff.ip { e with data := .ufs2 x })
        pure none
      | some () => do
        onFs (setSlot ff.ip { e with data := .ufs2 x, size := x.size % 2 ^ 32 })
        setFile f { ff with off := ff.off + n }
        pure (some n)

/-- `filewrite` of a regular file; `none` is -1. -/
def filewrite (f : Fin NFILE) (src : Mem) (n : Nat) : Call (Option Nat) := do
  let k ← get
  let ff := k.file f
  if !ff.writable then pure none
  else if (k.fs.slot ff.ip).fs = .ufs2 then writeUfs2 mnt f src n
  else writeParts mnt f src n n 0

def writeAll (f : Fin NFILE) : List (List UInt8) → Call Bool
  | [] => pure true
  | c :: cs => do
    match ← filewrite mnt f (ofList c) c.length with
    | none => pure false
    | some _ => writeAll f cs

def sysClose (fd : Fin NOFILE) : Call Bool := do
  let k ← get
  match k.ofile fd with
  | none => pure false
  | some f => do
    set { k with ofile := update k.ofile fd none }
    fileclose mnt f
    pure true

/-- Open the file at `addr`, write to it and close it. -/
def overwrite (task : Task) (m : Mem) (addr sz : Nat) (chunks : List (List UInt8)) :
    Call Bool := do
  match ← sysOpen mnt task m addr sz (O_WRONLY ||| O_CREATE ||| O_TRUNC) with
  | none => pure false
  | some fd => do
    let k ← get
    match k.ofile fd with
    | none => pure false
    | some f => do
      if ← writeAll mnt f chunks then sysClose mnt fd else pure false

/-- What the disks hold as the contents of an inode. -/
def contents (disk : Nat → Disk) (dev inum : Nat) : List UInt8 :=
  match mnt.volume dev with
  | some v =>
    match inodeAt v (v.bytes (disk dev)) inum with
    | some x => (range x.size).map (fileByte v (v.bytes (disk dev)) x)
    | none => []
  | none =>
    let x := dinodeAt mnt.sb (disk dev) inum
    (range x.size).map (Native.byteAt (disk dev) x)

end Model

variable {mnt : Mount} {start dev : Nat} {e : Slot} {s : State} {k k' : Kernel} {f : Fin NFILE}
  {ip : Fin NINODE} {old w : List UInt8}

/-! ## One write -/

/-- Slot `ip` still has the file of `e`, which is in use and has a name. -/
structure Pinned (e : Slot) (s : State) (ip : Fin NINODE) : Prop where
  dev : (s.slot ip).dev = e.dev
  inum : (s.slot ip).inum = e.inum
  fs : (s.slot ip).fs = e.fs
  ref : 0 < (s.slot ip).ref
  valid : (s.slot ip).valid = true
  nlink : (s.slot ip).nlink ≠ 0

variable (mnt start old w s ip) in
/-- The file in slot `ip` begins with `w`. A native file goes on with what it
had before. -/
inductive Held : Prop
  | native (hvol : mnt.volume (s.slot ip).dev = none) (hfs : (s.slot ip).fs = .native)
      (h : Native.Holding mnt.sb start (s.slot ip).inum (s.disk (s.slot ip).dev)
        (s.slot ip).dinode old w)
  | ufs2 {v : Volume} {y : Ufs2.Inode} (hvol : mnt.volume (s.slot ip).dev = some v)
      (hfs : (s.slot ip).fs = .ufs2) (hdata : (s.slot ip).data = .ufs2 y)
      (h : Ufs2.Holding v (s.slot ip).inum (s.disk (s.slot ip).dev) y w)

/-- File `f` is open for writing at `off`. -/
def Kernel.At (k : Kernel) (f : Fin NFILE) (ip : Fin NINODE) (off : Nat) : Prop :=
  ∃ readable, k.file f = ⟨.inode, 1, readable, true, ip, off⟩

variable {t : State}

lemma onDisk_ok {α : Type} {p : Prog α} {a : α} : onDisk dev p s = .ok (a, t) ↔
      ∃ d, p.run (s.disk dev) = .ok (a, d) ∧ t = s.setDisk dev d := by
  unfold onDisk
  cases p.run (s.disk dev) with
  | error e => exact iff_of_false nofun nofun
  | ok r => ?_
  constructor
  · intro h
    cases h
    exact ⟨r.2, rfl, rfl⟩
  rintro ⟨d, h, rfl⟩
  cases h
  rfl

lemma onFs_onDisk_ok {α : Type} {p : Prog α} {a : α} : onFs (onDisk dev p) k = .ok (a, k') ↔
      ∃ d, p.run (k.fs.disk dev) = .ok (a, d) ∧ k' = { k with fs := k.fs.setDisk dev d } := by
  simp only [onFs_ok, onDisk_ok]
  constructor
  · rintro ⟨s, ⟨d, hd, rfl⟩, rfl⟩
    exact ⟨d, hd, rfl⟩
  rintro ⟨d, hd, rfl⟩
  exact ⟨_, ⟨d, hd, rfl⟩, rfl⟩

lemma Pinned.ilock (h : Pinned e k.fs ip) : onFs (ilock mnt ip) k = .ok ((), k) := by
  refine onFs_ok.mpr ⟨k.fs, ?_, rfl⟩
  rw [ilock_eq h.ref, fill, if_pos h.valid]
  dsimp only
  rw [State.set_same]

/-- The state after a write to the file in slot `ip`. -/
def State.stored (s : State) (ip : Fin NINODE) (d : Disk) (e : Slot) : State :=
  (s.setDisk (s.slot ip).dev d).set ip e

open State

@[simp] lemma State.stored_slot (s : State) (ip : Fin NINODE) (d : Disk) (e : Slot) :
    (s.stored ip d e).slot ip = e := update_self ..

@[simp] lemma State.stored_disk (s : State) (ip : Fin NINODE) (d : Disk) (e : Slot) :
    (s.stored ip d e).disk (s.slot ip).dev = d := update_self ..

variable {src : Mem} {r : Nat}

lemma writePart_run {n : Nat} (hat : k.At f ip w.length)
    (hl : Pinned e k.fs ip) (hrun : writePart mnt f src n k = .ok (some r, k')) :
    ∃ x d, (writei mnt.sb (k.fs.slot ip).inum (k.fs.slot ip).dinode src w.length n).run
        (k.fs.disk (k.fs.slot ip).dev) = .ok ((some r, x), d) ∧
      k'.fs = k.fs.stored ip d ((k.fs.slot ip).withDinode x) ∧
      k'.At f ip (w.length + r) ∧ k'.ofile = k.ofile := by
  obtain ⟨rd, hfile⟩ := hat
  unfold writePart at hrun
  rw [get_bind, hfile] at hrun
  rw [bind_of_ok hl.ilock, get_bind] at hrun
  obtain ⟨⟨r', x⟩, k1, hw, hrun⟩ := bind_ok.mp hrun
  obtain ⟨d, hd, rfl⟩ := onFs_onDisk_ok.mp hw
  refine ⟨x, d, ?_⟩
  cases r' with
  | none =>
    obtain ⟨_, _, -, hrun⟩ := bind_ok.mp hrun
    cases hrun
  | some r' => ?_
  cases hrun
  refine ⟨hd, rfl, ⟨rd, update_self ..⟩, rfl⟩

lemma writeUfs2_run {v : Volume} {n : Nat} (hat : k.At f ip w.length)
    (hl : Pinned e k.fs ip) (hvol : mnt.volume (k.fs.slot ip).dev = some v)
    (hrun : writeUfs2 mnt f src n k = .ok (some r, k')) :
    ∃ x d, (writeGrowing v (k.fs.slot ip).inum (k.fs.slot ip).data.info w.length src n).run
        (k.fs.disk (k.fs.slot ip).dev) = .ok ((some (), x), d) ∧
      k'.fs = k.fs.stored ip d { k.fs.slot ip with data := .ufs2 x, size := x.size % 2 ^ 32 } ∧
      k'.At f ip (w.length + n) ∧ k'.ofile = k.ofile := by
  obtain ⟨rd, hfile⟩ := hat
  unfold writeUfs2 at hrun
  rw [get_bind, hfile] at hrun
  split at hrun
  · cases hrun
  rw [bind_of_ok hl.ilock, get_bind, hvol] at hrun
  obtain ⟨⟨r', x⟩, k1, hw, hrun⟩ := bind_ok.mp hrun
  obtain ⟨d, hd, rfl⟩ := onFs_onDisk_ok.mp hw
  refine ⟨x, d, ?_⟩
  cases r' with
  | none =>
    obtain ⟨_, _, -, hrun⟩ := bind_ok.mp hrun
    cases hrun
  | some r' => ?_
  cases hrun
  exact ⟨hd, rfl, ⟨rd, update_self ..⟩, rfl⟩

variable (mnt start e old k f ip w) in
structure Writing : Prop where
  place : k.At f ip w.length
  pinned : Pinned e k.fs ip
  held : Held mnt start k.fs ip old w

lemma Slot.dinode_withDinode {e : Slot} {x : Dinode}
    (h : x = { e.dinode with size := x.size, addrs := x.addrs }) : (e.withDinode x).dinode = x := by
  rw [h]
  rfl

variable {e' : Slot}

lemma Pinned.stored {d : Disk} (h : Pinned e s ip)
    (h' : e'.dev = (s.slot ip).dev ∧ e'.inum = (s.slot ip).inum ∧ e'.fs = (s.slot ip).fs ∧
      e'.ref = (s.slot ip).ref ∧ e'.valid = (s.slot ip).valid ∧ e'.nlink = (s.slot ip).nlink) :
    Pinned e (s.stored ip d e') ip := by
  obtain ⟨hdev, hinum, hfs, href, hvalid, hnlink⟩ := h'
  constructor <;> rw [stored_slot]
  · exact hdev.trans h.dev
  · exact hinum.trans h.inum
  · exact hfs.trans h.fs
  · exact href ▸ h.ref
  · exact hvalid.trans h.valid
  · exact hnlink ▸ h.nlink

lemma Held.native_stored {d : Disk} (hvol : mnt.volume (s.slot ip).dev = none)
    (hdev : e'.dev = (s.slot ip).dev) (hfs : e'.fs = .native)
    (h : Native.Holding mnt.sb start e'.inum d e'.dinode old w) :
    Held mnt start (s.stored ip d e') ip old w := by
  refine .native ?_ ?_ ?_ <;> rw [stored_slot]
  · rwa [hdev]
  · exact hfs
  · rwa [hdev, stored_disk]

lemma Held.ufs2_stored {v : Volume} {d : Disk} {y : Ufs2.Inode}
    (hvol : mnt.volume (s.slot ip).dev = some v) (hdev : e'.dev = (s.slot ip).dev)
    (hfs : e'.fs = .ufs2) (hdata : e'.data = .ufs2 y) (h : Ufs2.Holding v e'.inum d y w) :
    Held mnt start (s.stored ip d e') ip old w := by
  refine .ufs2 (v := v) (y := y) ?_ ?_ ?_ ?_ <;> rw [stored_slot]
  · rwa [hdev]
  · exact hfs
  · exact hdata
  · rwa [hdev, stored_disk]

lemma Writing.part (hlay : Layout mnt.sb start) (h : Writing mnt start e k f ip old w)
    (hfs : e.fs = .native) {n : Nat}
    (hrun : writePart mnt f src n k = .ok (some r, k')) :
    r = n ∧ Writing mnt start e k' f ip old (w ++ toList src 0 n) ∧ k'.ofile = k.ofile := by
  obtain ⟨x, d, hd, hfs', hat, hofile⟩ := writePart_run h.place h.pinned hrun
  obtain ⟨hvol, hslot, hold⟩ | ⟨-, hslot, -, -⟩ := h.held
  · obtain ⟨rfl, hfields, hnew⟩ := hold.write hlay src n _ d hd r rfl
    have hlen : (w ++ toList src 0 r).length = w.length + r := by simp [toList]
    refine ⟨rfl, ⟨hlen ▸ hat, ?_, ?_⟩, hofile⟩ <;> rw [hfs']
    · exact h.pinned.stored ⟨rfl, rfl, rfl, rfl, rfl, rfl⟩
    · exact .native_stored hvol rfl hslot ((Slot.dinode_withDinode hfields).symm ▸ hnew)
  · exact absurd (hslot.symm.trans (h.pinned.fs.trans hfs)) (by simp)

variable {c : List UInt8}

lemma Writing.ufs2 (h : Writing mnt start e k f ip old w) (hfs : e.fs = .ufs2)
    (hrun : writeUfs2 mnt f (ofList c) c.length k = .ok (some r, k')) :
    Writing mnt start e k' f ip old (w ++ c) ∧ k'.ofile = k.ofile := by
  obtain ⟨-, hslot, -⟩ | ⟨hvol, hslot, hdata, hold⟩ := h.held
  · exact absurd (hslot.symm.trans (h.pinned.fs.trans hfs)) nofun
  obtain ⟨x, d, hd, hfs', hat, hofile⟩ := writeUfs2_run h.place h.pinned hvol hrun
  rw [hdata] at hd
  have hnew := (hold.write c).of_eq hd rfl
  refine ⟨⟨length_append ▸ hat, ?_, ?_⟩, hofile⟩ <;> rw [hfs']
  · exact h.pinned.stored ⟨rfl, rfl, rfl, rfl, rfl, rfl⟩
  · exact .ufs2_stored hvol rfl hslot rfl hnew

lemma toList_shift_ofList {i n : Nat} (h : i + n ≤ c.length) :
    toList (shift (ofList c) i) 0 n = (c.drop i).take n := by
  refine ext_getElem (by simp [toList]; omega) fun j hj _ => ?_
  have hj : j < n := by simpa [toList] using hj
  simp only [toList, getElem_map, getElem_range, shift, ofList, getElem_take,
    getElem_drop, zero_add]
  exact getD_eq_getElem _ _ (by omega)

lemma Writing.parts (hlay : Layout mnt.sb start) (hfs : e.fs = .native) :
    ∀ (turns i : Nat) (k : Kernel), c.length ≤ turns + i → i ≤ c.length →
      Writing mnt start e k f ip old (w ++ c.take i) →
      writeParts mnt f (ofList c) c.length turns i k = .ok (some r, k') →
      Writing mnt start e k' f ip old (w ++ c) ∧ k'.ofile = k.ofile
  | 0, i, k, hturns, hi, h, hrun => by
    cases hrun
    rw [take_of_length_le (by omega)] at h
    exact ⟨h, rfl⟩
  | turns + 1, i, k, hturns, hi, h, hrun => by
    unfold writeParts at hrun
    split at hrun
    · next hlt =>
      obtain ⟨r', k1, hpart, hrun⟩ := bind_ok.mp hrun
      cases r' with
      | none => cases hrun
      | some r' => ?_
      obtain ⟨rfl, hpart, hofile⟩ := h.part hlay hfs hpart
      have hmax : 0 < WRITE_MAX := by decide
      rw [toList_shift_ofList (by omega), append_assoc, ← take_add] at hpart
      obtain ⟨hdone, hsame⟩ := Writing.parts hlay hfs turns _ k1 (by omega) (by omega) hpart hrun
      exact ⟨hdone, hsame.trans hofile⟩
    · cases hrun
      rw [take_of_length_le (by omega)] at h
      exact ⟨h, rfl⟩

lemma Writing.filewrite (hlay : Layout mnt.sb start) (h : Writing mnt start e k f ip old w)
    (hrun : filewrite mnt f (ofList c) c.length k = .ok (some r, k')) :
    Writing mnt start e k' f ip old (w ++ c) ∧ k'.ofile = k.ofile := by
  obtain ⟨rd, hfile⟩ := h.place
  unfold Fs.filewrite at hrun
  rw [get_bind, hfile] at hrun
  dsimp only at hrun
  rw [if_neg (by decide)] at hrun
  split at hrun
  · next hufs2 => exact h.ufs2 (h.pinned.fs.symm.trans hufs2) hrun
  next hnot =>
  obtain ⟨-, hslot, -⟩ | ⟨-, hslot, -, -⟩ := h.held
  · exact Writing.parts hlay (h.pinned.fs.symm.trans hslot) _ 0 k (by omega) (zero_le _)
      (by simpa using h) hrun
  · exact absurd hslot hnot

lemma Writing.all (hlay : Layout mnt.sb start) (chunks : List (List UInt8)) :
    ∀ {k : Kernel} {w : List UInt8}, Writing mnt start e k f ip old w →
      writeAll mnt f chunks k = .ok (true, k') →
      Writing mnt start e k' f ip old (w ++ chunks.flatten) ∧ k'.ofile = k.ofile := by
  induction chunks with
  | nil =>
    intro k w h hrun
    cases hrun
    exact ⟨by simpa using h, rfl⟩
  | cons c cs ih => ?_
  intro k w h hrun
  obtain ⟨r, k1, hc, hrun⟩ := bind_ok.mp hrun
  cases r with
  | none => cases hrun
  | some r => ?_
  obtain ⟨h1, hofile⟩ := h.filewrite hlay hc
  obtain ⟨h2, hofile'⟩ := ih h1 hrun
  rw [flatten_cons, ← append_assoc]
  exact ⟨h2, hofile'.trans hofile⟩

/-! ## Open and close -/

variable (mnt start s ip) in
/-- A regular file that is whole, of a native file system or of a UFS2
volume. -/
inductive Overwritable (mine : Nat → Prop) : Prop
  | native (hvol : mnt.volume (s.slot ip).dev = none) (hfs : (s.slot ip).fs = .native)
      (hcons : Consistent mnt.sb start (s.disk (s.slot ip).dev))
      (hinum : (s.slot ip).inum < mnt.sb.ninodes)
      (hstored : dinodeAt mnt.sb (s.disk (s.slot ip).dev) (s.slot ip).inum = (s.slot ip).dinode)
      (hused : (s.slot ip).type ≠ 0)
  | ufs2 {v : Volume} {x : Ufs2.Inode} (hvol : mnt.volume (s.slot ip).dev = some v)
      (hfs : (s.slot ip).fs = .ufs2) (hdata : (s.slot ip).data = .ufs2 x)
      (h : Truncatable v mine (s.slot ip).inum (s.disk (s.slot ip).dev) x)

variable (mnt s ip) in
/-- What the disk has as the contents of the file in slot `ip`. -/
def previous : List UInt8 := contents mnt s.disk (s.slot ip).dev (s.slot ip).inum

lemma Overwritable.truncate {mine : Nat → Prop} {omode : Nat}
    (h : Overwritable mnt start s ip mine) (hp : Pinned (s.slot ip) s ip)
    (htrunc : has omode O_TRUNC) (hrun : openTruncate mnt ip omode s = .ok (true, t)) :
    Pinned (s.slot ip) t ip ∧ Held mnt start t ip (previous mnt s ip) [] := by
  obtain ⟨hvol, hfs, hcons, hinum, hstored, hused⟩ | ⟨hvol, hfs, hdata, hx⟩ := h
  · rw [openTruncate_skip fun hboth => absurd (hfs.symm.trans hboth.2) nofun] at hrun
    cases hrun
    have hprev : previous mnt s ip = (range (s.slot ip).dinode.size).map
        (Native.byteAt (s.disk (s.slot ip).dev) (s.slot ip).dinode) := by
      unfold previous contents
      rw [hvol, ← hstored]
    refine ⟨hp, .native hvol hfs ⟨hcons, hinum, hstored, hused, ?_, nofun, fun i _ hi => ?_⟩⟩
    · simp [hprev]
    rw [hprev, length_map, length_range] at hi
    rw [hprev, getD_eq_getElem _ _ (by simpa using hi), getElem_map, getElem_range]
  unfold openTruncate at hrun
  rw [get_bind, if_pos ⟨htrunc, hfs⟩, hvol] at hrun
  obtain ⟨⟨r, y⟩, t1, hdisk, hrun⟩ := bind_ok.mp hrun
  obtain ⟨d, hd, rfl⟩ := onDisk_ok.mp hdisk
  rw [hdata] at hd
  cases r with
  | none => cases hrun
  | some r => ?_
  cases hrun
  exact ⟨hp.stored ⟨rfl, rfl, rfl, rfl, rfl, rfl⟩,
    .ufs2_stored hvol rfl hfs rfl ((truncate_holding hx).of_eq hd rfl)⟩

lemma Writing.close {fd : Fin NOFILE} (h : Writing mnt start e k f ip old w)
    (hfd : k.ofile fd = some f) (hrun : sysClose mnt fd k = .ok (true, k')) :
    k'.fs.disk = k.fs.disk := by
  obtain ⟨rd, hfile⟩ := h.place
  unfold sysClose fileclose at hrun
  rw [get_bind, hfd] at hrun
  obtain ⟨_, k1, hset, hrun⟩ := bind_ok.mp hrun
  cases hset
  obtain ⟨_, k2, hclose, hrun⟩ := bind_ok.mp hrun
  cases hrun
  rw [get_bind] at hclose
  rw [hfile] at hclose
  obtain ⟨_, k3, hset, hclose⟩ := bind_ok.mp hclose
  cases hset
  rw [if_pos rfl] at hclose
  obtain ⟨t, ht, rfl⟩ := onFs_ok.mp hclose
  rw [iput_kept fun hdrop => h.pinned.nlink hdrop.2.2] at ht
  cases ht
  rfl

/-- What is left of the old contents is what is longer than the new ones, on
a native file system. -/
lemma Writing.contents (h : Writing mnt start e k f ip old w) :
    contents mnt k.fs.disk e.dev e.inum = if e.fs = .ufs2 then w else w ++ old.drop w.length := by
  unfold Fs.contents
  obtain ⟨hvol, hfs, hold⟩ | ⟨hvol, hfs, -, hold⟩ := h.held
  · rw [h.pinned.dev] at hvol
    rw [hvol, if_neg (by rw [← h.pinned.fs, hfs]; decide)]
    have := hold.contents
    rw [h.pinned.dev, h.pinned.inum] at this
    exact this
  rw [h.pinned.dev] at hvol
  rw [hvol, if_pos (by rw [← h.pinned.fs, hfs])]
  obtain ⟨z, hz, hbytes⟩ := hold.contents
  rw [h.pinned.dev] at hz hbytes
  rw [h.pinned.inum] at hz
  dsimp only
  rw [hz]
  exact hbytes

lemma Overwritable.replaced {mine : Nat → Prop} {omode : Nat} {f : Fin NFILE} {fd : Fin NOFILE}
    {k1 : Kernel} {chunks : List (List UInt8)} (hlay : Layout mnt.sb start)
    (h : Overwritable mnt start s ip mine) (hp : Pinned (s.slot ip) s ip)
    (hflags : omode = O_WRONLY ||| O_CREATE ||| O_TRUNC)
    (htrunc : openTruncate mnt ip omode s = .ok (true, t))
    (hwrite : writeAll mnt f chunks (k.opened t ip omode f fd) = .ok (true, k1))
    (hclose : sysClose mnt fd k1 = .ok (true, k')) :
    contents mnt k'.fs.disk (s.slot ip).dev (s.slot ip).inum =
      if (s.slot ip).fs = .ufs2 then chunks.flatten
      else chunks.flatten ++ (previous mnt s ip).drop chunks.flatten.length := by
  subst hflags
  obtain ⟨hpin, hheld⟩ := h.truncate hp (by decide) htrunc
  have hopened : Writing mnt start (s.slot ip)
      (k.opened t ip (O_WRONLY ||| O_CREATE ||| O_TRUNC) f fd) f ip (previous mnt s ip) [] :=
    ⟨⟨false, Kernel.opened_file⟩, hpin, hheld⟩
  obtain ⟨hdone, hofile⟩ := hopened.all hlay chunks hwrite
  rw [hdone.close (by rw [hofile, Kernel.opened_ofile]) hclose, hdone.contents, nil_append]

/-- The path at `addr` names the file in slot `ip`, which `create` leaves in
state `s`. -/
theorem overwrite_replaces_iff {mine : Nat → Prop} {task : Task} {m : Mem} {addr sz : Nat}
    {path : List UInt8} {chunks : List (List UInt8)} (hlay : Layout mnt.sb start)
    (hpath : argstr m addr sz = some path)
    (hfound : create mnt task path T_FILE 0 0 k.fs = .ok (some ip, s))
    (hfile : Overwritable mnt start s ip mine) (hp : Pinned (s.slot ip) s ip)
    (hrun : overwrite mnt task m addr sz chunks k = .ok (true, k')) :
    contents mnt k'.fs.disk (s.slot ip).dev (s.slot ip).inum = chunks.flatten ↔
      (s.slot ip).fs = .ufs2 ∨ (previous mnt s ip).length ≤ chunks.flatten.length := by
  obtain ⟨r, k1, hopen, hrun⟩ := bind_ok.mp hrun
  cases r with
  | none => cases hrun
  | some fd => ?_
  obtain ⟨path', ip', s', hpath', -, hcreate, hopen⟩ := sysOpen_ok.mp hopen
  obtain rfl := Option.some.inj (hpath.symm.trans hpath')
  rw [if_pos (by decide), hfound] at hcreate
  cases hcreate
  obtain ⟨t, f, htrunc, hf, hfd, rfl⟩ := openInode_ok.mp hopen
  dsimp only at hrun
  rw [get_bind, Kernel.opened_ofile] at hrun
  obtain ⟨b, k2, hwrite, hrun⟩ := bind_ok.mp hrun
  cases b with
  | false => cases hrun
  | true => ?_
  rw [hfile.replaced hlay hp rfl htrunc hwrite hrun]
  split
  · next hfs => exact iff_of_true rfl (.inl hfs)
  · next hfs => simp [hfs]

/-! ## A native file that keeps its end -/

/-- The way of `create` to a file that exists. -/
def lookup (mnt : Mount) (task : Task) (path : List UInt8) : Sys (Option (Fin NINODE)) := do
  match ← nameiparent mnt task path with
  | none => pure none
  | some (dp, name) => do
    ilock mnt dp
    let s ← get
    if inodeAccess task.cred (s.slot dp).fields 3 = false then pure none
    else do
      match ← dirlookup mnt dp name with
      | none => pure none
      | some ip => do
        iput mnt dp
        pure (some ip)

lemma create_of_lookup {task : Task} {path : List UInt8} {u : State}
    (hlook : lookup mnt task path s = .ok (some ip, u)) (hlock : ilock mnt ip u = .ok ((), t))
    (htype : (t.slot ip).type = T_FILE) :
    create mnt task path T_FILE 0 0 s = .ok (some ip, t) := by
  obtain ⟨r, t1, h1, hlook⟩ := bind_ok.mp hlook
  unfold create
  rw [bind_of_ok h1]
  cases r with
  | none => cases hlook
  | some r => ?_
  obtain ⟨dp, name⟩ := r
  obtain ⟨_, t2, h2, hlook⟩ := bind_ok.mp hlook
  dsimp only
  rw [bind_of_ok h2]
  rw [get_bind] at hlook ⊢
  split at hlook
  · cases hlook
  next hok =>
  rw [if_neg hok]
  obtain ⟨r, t3, h3, hlook⟩ := bind_ok.mp hlook
  rw [bind_of_ok h3]
  cases r with
  | none => cases hlook
  | some j => ?_
  obtain ⟨_, t4, h4, hlook⟩ := bind_ok.mp hlook
  cases hlook
  dsimp only [createExisting]
  rw [bind_of_ok h4, bind_of_ok hlock, get_bind, if_pos ⟨rfl, htype⟩]
  rfl

/-- The file `a` in the root directory holds `abc`. Everyone may write to both. -/
def noteDisk : Disk := fun b =>
  if b = 2 then encodeDinode (encodeDinode (fun _ => 0) 128 { rootDinode with mode := 0o777 }) 256
    { fileDinode with size := 3, mode := 0o666, addrs := fun i => if i = 0 then 11 else 0 }
  else if b = 4 then ofList [0x1f, 0x0c]
  else if b = 10 then rootBlock
  else if b = 11 then ofList (ascii "abc")
  else fun _ => 0

def noteOwner (b : Nat) : Nat × Nat := if b = 10 then (1, 0) else (2, 0)

def noteKernel : Kernel := .idle (rootCwd noteDisk)

lemma plainMount_layout : Layout plainMount.sb 5 where
  pos := by decide
  size := by decide
  small := by decide
  inodes := by decide
  bitmap := by decide +kernel
  apart n b hn hb := by
    have hleft : iblock plainMount.sb n < 4 := by
      revert n
      decide
    have hright : bblock plainMount.sb b = 4 := by
      revert b
      decide +kernel
    omega

lemma note_found : ∃ s, create plainMount userTask (ascii "/a") T_FILE 0 0 noteKernel.fs
      = .ok (some slot1, s) ∧
    Overwritable plainMount 5 s slot1 (fun _ => False) ∧ Pinned (s.slot slot1) s slot1 ∧
    (s.slot slot1).dev = ROOTDEV ∧ (s.slot slot1).inum = 2 ∧ (s.slot slot1).fs = .native ∧
    previous plainMount s slot1 = ascii "abc" := by
  obtain ⟨u, hu, hview⟩ := @ok_of_view State Stop (Option (Fin NINODE)) _
    (lookup plainMount userTask (ascii "/a") (rootCwd noteDisk))
    (fun u => ([(u.slot slot1).dev, (u.slot slot1).inum, (u.slot slot1).ref,
      (dinodeAt plainMount.sb (u.disk ROOTDEV) 2).type,
      (dinodeAt plainMount.sb (u.disk ROOTDEV) 2).nlink], (u.slot slot1).valid,
      contents plainMount u.disk ROOTDEV 2,
      decide (Native.Plain plainMount.sb 5 (u.disk ROOTDEV) noteOwner)))
    (some slot1) ([ROOTDEV, 2, 1, T_FILE, 1], false, ascii "abc", true) (by decide +kernel)
  simp only [Prod.mk.injEq, List.cons.injEq, decide_eq_true_eq, and_true] at hview
  obtain ⟨⟨hdev, hinum, href, htype, hnlink⟩, hvalid, hbytes, hplain⟩ := hview
  have hlock : ilock plainMount slot1 u = .ok ((), u.set slot1
      ((u.slot slot1).loadNative (dinodeAt plainMount.sb (u.disk ROOTDEV) 2))) := by
    rw [ilock_eq (by omega), fill, if_neg (by rw [hvalid]; decide), load, hdev, hinum,
      show kind plainMount ROOTDEV 2 = .native from rfl]
    rw [if_neg (by rw [htype]; decide)]
  refine ⟨_, create_of_lookup hu hlock ?_, .native ?_ ?_ ?_ ?_ ?_ ?_, ⟨rfl, rfl, rfl, ?_, ?_, ?_⟩,
    ?_⟩ <;> simp only [set_slot, set_disk]
  · exact htype
  · rfl
  · rfl
  · exact (congrArg u.disk hdev).symm ▸ hplain.consistent
  · exact hinum.trans_lt (by decide)
  · rw [show ((u.slot slot1).loadNative _).dev = ROOTDEV from hdev,
      show ((u.slot slot1).loadNative _).inum = 2 from hinum]
    rfl
  · exact htype.trans_ne (by decide)
  · exact href ▸ one_pos
  · rfl
  · exact hnlink.trans_ne one_ne_zero
  refine ⟨hdev, hinum, rfl, ?_⟩
  simp only [previous, set_slot, set_disk]
  rw [show ((u.slot slot1).loadNative _).dev = ROOTDEV from hdev,
    show ((u.slot slot1).loadNative _).inum = 2 from hinum]
  exact hbytes

/-- Longer contents replace the file. -/
theorem overwrite_replaces_iff_abcd : ∃ s k', create plainMount userTask (ascii "/a") T_FILE 0 0
      noteKernel.fs = .ok (some slot1, s) ∧
    overwrite plainMount userTask (ofList (ascii "/a")) 0 3 [ascii "xy", ascii "zw"] noteKernel
      = .ok (true, k') ∧
    contents plainMount k'.fs.disk (s.slot slot1).dev (s.slot slot1).inum = ascii "xyzw" := by
  obtain ⟨s, hs, hfile, hp, -, -, -, hprev⟩ := note_found
  obtain ⟨k', hk', -⟩ := @ok_of_view Kernel Stop Bool _
    (overwrite plainMount userTask (ofList (ascii "/a")) 0 3 [ascii "xy", ascii "zw"] noteKernel)
    (fun _ => ()) true () (by decide +kernel)
  refine ⟨s, k', hs, hk', (overwrite_replaces_iff plainMount_layout (by decide +kernel) hs hfile
    hp hk').mpr (.inr ?_)⟩
  rw [hprev]
  decide

/-- The file is overwritten with one byte and keeps its end. -/
theorem overwrite_leaves_tail : ∃ s k', create plainMount userTask (ascii "/a") T_FILE 0 0
      noteKernel.fs = .ok (some slot1, s) ∧
    Overwritable plainMount 5 s slot1 (fun _ => False) ∧ Pinned (s.slot slot1) s slot1 ∧
    previous plainMount s slot1 = ascii "abc" ∧
    overwrite plainMount userTask (ofList (ascii "/a")) 0 3 [ascii "x"] noteKernel
      = .ok (true, k') ∧
    contents plainMount k'.fs.disk (s.slot slot1).dev (s.slot slot1).inum = ascii "xbc" := by
  obtain ⟨s, hs, hfile, hp, hdev, hinum, -, hprev⟩ := note_found
  obtain ⟨k', hk', hview⟩ := @ok_of_view Kernel Stop Bool _
    (overwrite plainMount userTask (ofList (ascii "/a")) 0 3 [ascii "x"] noteKernel)
    (fun k' => contents plainMount k'.fs.disk ROOTDEV 2) true (ascii "xbc") (by decide +kernel)
  exact ⟨s, k', hs, hfile, hp, hprev, hk', by rw [hdev, hinum]; exact hview⟩

end Fs

end Proninx
