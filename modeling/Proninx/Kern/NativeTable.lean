import Proninx.Kern.Native
import Proninx.Kern.Ufs2Alloc

/-!
# The inode table and the bitmap of a native volume

What `iupdate` stores is what `ilock` reads back, and a store to one inode
leaves the others alone. `balloc` takes a block whose bit was clear,
`bfree` clears a bit that was set, and neither changes another bit.
-/

namespace Proninx.Native

open ByteMem Disk Nat

variable {sb : Superblock} {d : Disk} {data : Block} {x : Dinode}

/-! ## Dinodes -/

/-- The fields are in the range of their types. -/
structure Dinode.Typed (x : Dinode) : Prop where
  type : x.type < 2 ^ 16
  major : x.major < 2 ^ 16
  minor : x.minor < 2 ^ 16
  nlink : x.nlink < 2 ^ 16
  size : x.size < 2 ^ 32
  uid : x.uid < 2 ^ 32
  gid : x.gid < 2 ^ 32
  mode : x.mode < 2 ^ 16
  addrs : ∀ i, x.addrs i < 2 ^ 32
  beyond : ∀ i, NDIRECT + 2 ≤ i → x.addrs i = 0

lemma decodeDinode_typed (data : Block) (o : Nat) : (decodeDinode data o).Typed where
  type := readLe_lt 2 _ _
  major := readLe_lt 2 _ _
  minor := readLe_lt 2 _ _
  nlink := readLe_lt 2 _ _
  size := readLe_lt 4 _ _
  uid := readLe_lt 4 _ _
  gid := readLe_lt 4 _ _
  mode := readLe_lt 2 _ _
  addrs i := by
    unfold decodeDinode
    dsimp only
    split
    · exact readLe_lt 4 _ _
    · decide
  beyond i hi := if_neg (by omega)

variable {o i : Nat} {addrs : Nat → Nat}

lemma putAddrs_out (n : Nat) (h : i < o ∨ o + n * 4 ≤ i) : putAddrs data o addrs n i = data i := by
  induction n with
  | zero => rfl
  | succ n ih => rw [putAddrs, writeLe_out (by omega), ih (by omega)]

variable {n : Nat}

lemma readLe_putAddrs (hi : i < n)
    (ha : addrs i < 2 ^ 32) : readLe 4 (putAddrs data o addrs n) (o + i * 4) = addrs i := by
  induction n with
  | zero => omega
  | succ n ih => ?_
  rw [putAddrs]
  by_cases h : i = n
  · subst h
    exact readLe_writeLe_of_lt ha
  · rw [readLe_writeLe_disjoint (by omega), ih (by omega)]

lemma readLe_putAddrs_before {a w : Nat} (h : a + w ≤ o) :
    readLe w (putAddrs data o addrs n) a = readLe w data a :=
  readLe_congr fun _ _ _ => putAddrs_out n (by omega)

lemma encodeDinode_out (h : i < o ∨ o + DINODE_SIZE ≤ i) : encodeDinode data o x i = data i := by
  unfold DINODE_SIZE at h
  unfold encodeDinode
  rw [putAddrs_out _ (by unfold NDIRECT; omega)]
  iterate 8 rw [writeLe_out (by omega)]

lemma decodeDinode_encodeDinode (h : x.Typed) (o : Nat) :
    decodeDinode (encodeDinode data o x) o = x := by
  unfold decodeDinode encodeDinode
  cases x with
  | mk type major minor nlink size uid gid mode addrs =>
    simp only [Dinode.mk.injEq]
    obtain ⟨htype, hmajor, hminor, hnlink, hsize, huid, hgid, hmode, haddrs, hbeyond⟩ := h
    refine ⟨?_, ?_, ?_, ?_, ?_, ?_, ?_, ?_, funext fun i => ?_⟩
    case refine_9 =>
      split
      · next hi => exact readLe_putAddrs hi (haddrs i)
      · next hi => exact (hbeyond i (by omega)).symm
    all_goals
      rw [readLe_putAddrs_before (by omega)]
      simp (disch := omega) only [readLe_writeLe_disjoint, readLe_writeLe_of_lt]

lemma decodeDinode_congr {data' : Block} (h : Agree data' data o DINODE_SIZE) :
    decodeDinode data' o = decodeDinode data o := by
  have hread : ∀ {a w : Nat}, o ≤ a → a + w ≤ o + 128 → readLe w data' a = readLe w data a :=
    fun ha hw => readLe_congr (h.mono ha hw)
  unfold decodeDinode
  simp only [Dinode.mk.injEq]
  refine ⟨?_, ?_, ?_, ?_, ?_, ?_, ?_, ?_, funext fun i => ?_⟩
  case refine_9 =>
    split
    · next hi => exact hread (by omega) (by unfold NDIRECT at hi; omega)
    · rfl
  all_goals exact hread (by omega) (by omega)

lemma dinodeAt_typed (sb : Superblock) (d : Disk) (n : Nat) : (dinodeAt sb d n).Typed :=
  decodeDinode_typed _ _

lemma dinodeAt_congr {d' : Disk} (h : d' (iblock sb n) = d (iblock sb n)) :
    dinodeAt sb d' n = dinodeAt sb d n := by
  rw [dinodeAt, h]
  rfl

variable {m : Nat}

lemma dinodeOffset_apart (hne : m ≠ n) (hblock : iblock sb m = iblock sb n) :
    dinodeOffset m + DINODE_SIZE ≤ dinodeOffset n ∨ dinodeOffset n + DINODE_SIZE ≤ dinodeOffset m := by
  unfold iblock IPB at hblock
  unfold dinodeOffset DINODE_SIZE IPB
  omega

lemma dinodeAt_set (hne : m ≠ n)
    (hout : ∀ i, i < dinodeOffset n ∨ dinodeOffset n + DINODE_SIZE ≤ i → data i = d (iblock sb n) i) :
    dinodeAt sb (d.set (iblock sb n) data) m = dinodeAt sb d m := by
  by_cases hblock : iblock sb m = iblock sb n
  · have hapart := dinodeOffset_apart hne hblock
    unfold dinodeAt
    rw [hblock, set_same]
    exact decodeDinode_congr fun i hi hj => hout i (by omega)
  · exact dinodeAt_congr (Disk.set_ne hblock)

/-- The disk after `iupdate`. -/
def storeInode (sb : Superblock) (d : Disk) (n : Nat) (x : Dinode) : Disk :=
  d.set (iblock sb n) (encodeDinode (d (iblock sb n)) (dinodeOffset n) x)

lemma storeInode_ne {k : Nat} (h : k ≠ iblock sb n) : storeInode sb d n x k = d k :=
  Disk.set_ne h

lemma dinodeAt_storeInode (h : x.Typed) (n : Nat) : dinodeAt sb (storeInode sb d n x) n = x := by
  unfold dinodeAt storeInode
  rw [set_same, decodeDinode_encodeDinode h]

lemma dinodeAt_storeInode_ne (h : m ≠ n) : dinodeAt sb (storeInode sb d n x) m = dinodeAt sb d m :=
  dinodeAt_set h fun _ => encodeDinode_out

/-! ## `ialloc` -/

variable {type : Nat}

/-! ## The bitmap -/

lemma bitSet_eq (data : Block) (bi : Nat) :
    bitSet data bi = Ufs2.testBit (data (bi / 8)) (bi % 8) := rfl

lemma bitSet_setBit (data : Block) (bi bj : Nat) :
    bitSet (setBit data bi) bj = (bitSet data bj || decide (bj = bi)) := by
  rw [bitSet_eq, bitSet_eq, setBit]
  by_cases hbyte : bj / 8 = bi / 8
  · rw [hbyte, poke_self]
    change Ufs2.testBit (Ufs2.setBit _ (bi % 8)) _ = _
    rw [Ufs2.testBit_setBit _ (mod_lt _ (by decide)) (mod_lt _ (by decide))]
    congr 2
    exact propext (by omega)
  · rw [poke_ne hbyte, decide_eq_false (by rintro rfl; exact hbyte rfl), Bool.or_false]

/-- The bit of block `b`. -/
def used (sb : Superblock) (d : Disk) (b : Nat) : Bool := bitSet (d (bblock sb b)) (b % BPB)

variable {b : Nat}

lemma used_congr {d' : Disk} (h : d' (bblock sb b) = d (bblock sb b)) :
    used sb d' b = used sb d b := by
  unfold used
  rw [h]

/-- The disk with the bit of `b` set. -/
def mark (sb : Superblock) (d : Disk) (b : Nat) : Disk :=
  d.set (bblock sb b) (setBit (d (bblock sb b)) (b % BPB))

lemma bblock_eq_iff {c : Nat} (h : bblock sb c = bblock sb b) : c % BPB = b % BPB ↔ c = b := by
  unfold bblock at h
  constructor
  · intro hmod
    rw [← div_add_mod c BPB, ← div_add_mod b BPB, hmod]
    congr 2
    omega
  · rintro rfl
    rfl

lemma used_mark (b c : Nat) : used sb (mark sb d b) c = (used sb d c || decide (c = b)) := by
  unfold used mark
  by_cases h : bblock sb c = bblock sb b
  · rw [h, set_same, bitSet_setBit]
    congr 2
    exact propext (bblock_eq_iff h)
  · rw [set_ne h, decide_eq_false (by rintro rfl; exact h rfl), Bool.or_false]

/-- The disk after `balloc` has taken `f`. -/
def takeBlock (sb : Superblock) (d : Disk) (f : Nat) : Disk :=
  (mark sb d f).set f (fill (mark sb d f f) 0 0 BSIZE)

lemma firstFree_some (n : Nat) : ∀ {bi k : Nat}, firstFree sb data b n bi = some k →
    k < bi + n ∧ b + k < sb.size ∧ bitSet data k = false := by
  induction n with
  | zero => exact nofun
  | succ n ih => ?_
  intro bi k h
  unfold firstFree at h
  split at h
  · next hlt =>
    split at h
    · obtain ⟨hk, hrest⟩ := ih h
      exact ⟨by omega, hrest⟩
    next hbit =>
    cases h
    exact ⟨by omega, hlt, by simpa using hbit⟩
  · cases h

lemma balloc_yields : (balloc sb).Yields (· = .ballocOutOfBlocks) d fun f d' =>
    f < sb.size ∧ used sb d f = false ∧ d' = takeBlock sb d f := by
  have hloop : ∀ fuel c, (ballocFrom sb fuel (c * BPB)).Yields (· = .ballocOutOfBlocks) d
      fun f d' => f < sb.size ∧ used sb d f = false ∧ d' = takeBlock sb d f := by
    intro fuel
    induction fuel with
    | zero => exact fun _ => rfl
    | succ fuel ih => ?_
    intro c
    unfold ballocFrom
    split
    · refine .bind (P := fun data d' => d (bblock sb (c * BPB)) = data ∧ d = d')
        (.of_run rfl ⟨rfl, rfl⟩) ?_
      rintro _ _ ⟨rfl, rfl⟩
      cases hfirst : firstFree sb (d (bblock sb (c * BPB))) (c * BPB) BPB 0 with
      | some bi =>
        obtain ⟨hbi, hlt, hfree⟩ := firstFree_some BPB hfirst
        rw [zero_add] at hbi
        -- the bit is in the block that was searched
        have hblock : bblock sb (c * BPB + bi) = bblock sb (c * BPB) := by
          unfold bblock
          rw [mul_comm, mul_add_div (by decide), Nat.mul_div_cancel_left _ (by decide),
            div_eq_of_lt hbi, add_zero]
        have hmod : (c * BPB + bi) % BPB = bi := by rw [mul_comm, mul_add_mod, mod_eq_of_lt hbi]
        refine ⟨hlt, ?_, ?_⟩
        · unfold used
          rw [hblock, hmod]
          exact hfree
        unfold takeBlock mark
        rw [hblock, hmod]
        rfl
      | none =>
        have := ih (c + 1)
        rw [succ_mul] at this
        exact this
    · rfl
  have := hloop (sb.size / BPB + 1) 0
  rw [zero_mul] at this
  exact this

end Proninx.Native
