import Proninx.Kern.Native

/-!
# Reading native files and directories

Where the blocks of a file are all there, `bmap` finds them without
allocating, and `readi` of an entry of a directory leaves the disk and the
inode alone. `dirlookup` then finds the first live entry with the name.
-/

namespace Proninx.Native

open ByteMem List Prog

variable {sb : Superblock} {d : Disk} {x : Dinode}

/-- The block number of block `bn` of a file, zero where there is none. -/
def addrAt (d : Disk) (x : Dinode) (bn : Nat) : Nat :=
  if bn < NDIRECT then x.addrs bn
  else
    let bn := bn - NDIRECT
    if bn < NINDIRECT then
      if x.addrs NDIRECT = 0 then 0 else readLe 4 (d (x.addrs NDIRECT)) (bn * 4)
    else
      let bn := bn - NINDIRECT
      if bn < NINDIRECT * NINDIRECT then
        if x.addrs (NDIRECT + 1) = 0 then 0
        else
          let b := readLe 4 (d (x.addrs (NDIRECT + 1))) (bn / NINDIRECT * 4)
          if b = 0 then 0 else readLe 4 (d b) (bn % NINDIRECT * 4)
      else 0

lemma directAddr_run {i : Nat} (h : x.addrs i ≠ 0) :
    (directAddr sb x i).run d = .ok ((x.addrs i, x), d) := by
  rw [directAddr, if_neg h]
  rfl

lemma indirectAddr_run {b i : Nat} (h : readLe 4 (d b) (i * 4) ≠ 0) :
    (indirectAddr sb b i).run d = .ok (readLe 4 (d b) (i * 4), d) := by
  rw [indirectAddr, run_bread_bind, if_neg h]
  rfl

lemma bmap_run {bn : Nat} (h : addrAt d x bn ≠ 0) :
    (bmap sb x bn).run d = .ok ((addrAt d x bn, x), d) := by
  unfold bmap
  unfold addrAt at h ⊢
  split at h
  · next hb =>
    rw [if_pos hb, if_pos hb]
    exact directAddr_run h
  next hb =>
  rw [if_neg hb, if_neg hb]
  dsimp only at h ⊢
  split at h
  · next hb1 =>
    rw [if_pos hb1, if_pos hb1]
    split at h
    · exact absurd rfl h
    next ha =>
    rw [run_bind_ok (directAddr_run ha), if_neg ha]
    rw [run_bind_ok (indirectAddr_run h)]
    rfl
  next hb1 =>
  rw [if_neg hb1, if_neg hb1]
  split at h
  · next hb2 =>
    rw [if_pos hb2, if_pos hb2]
    split at h
    · exact absurd rfl h
    next ha =>
    rw [run_bind_ok (directAddr_run ha), if_neg ha]
    dsimp only at h ⊢
    split at h
    · exact absurd rfl h
    next hi =>
    rw [run_bind_ok (indirectAddr_run hi), run_bind_ok (indirectAddr_run h), if_neg hi]
    rfl
  · exact absurd rfl h

/-- The sixteen bytes of an entry that starts at `off`. -/
def entryAt (d : Disk) (x : Dinode) (off : Nat) : Mem :=
  blit (fun _ => 0) 0 (shift (d (addrAt d x (off / BSIZE))) (off % BSIZE)) DIRENT_SIZE

lemma readi_entry {off : Nat} (hoff : off % DIRENT_SIZE = 0)
    (hsize : off + DIRENT_SIZE ≤ x.size) (hlt : x.size < 2 ^ 32)
    (ha : addrAt d x (off / BSIZE) ≠ 0) :
    (readi sb x off DIRENT_SIZE).run d = .ok ((some (DIRENT_SIZE, entryAt d x off), x), d) := by
  have hin : min (DIRENT_SIZE - 0) (BSIZE - off % BSIZE) = DIRENT_SIZE := by
    unfold DIRENT_SIZE BSIZE at *
    omega
  have hblocks : (readBlocks sb DIRENT_SIZE off DIRENT_SIZE (fun _ => 0) 0 x).run d
      = .ok ((entryAt d x off, x), d) := by
    change (readBlocks sb (15 + 1) off DIRENT_SIZE (fun _ => 0) 0 x).run d = _
    rw [readBlocks, if_pos (by decide), run_bind_ok (bmap_run ha)]
    rw [run_bread_bind, run_brelse_bind, hin]
    rfl
  rw [readi, if_neg (by omega)]
  rw [if_neg (by omega), run_bind_ok hblocks]
  rfl

/-! ## Directories -/

/-- A directory made of whole entries, with all its blocks. -/
structure DirOk (d : Disk) (x : Dinode) : Prop where
  whole : x.size % DIRENT_SIZE = 0
  small : x.size < 2 ^ 32
  mapped : ∀ off, off < x.size → addrAt d x (off / BSIZE) ≠ 0

/-- Entry `k` of the directory is in use and has the name. -/
def entryIs (d : Disk) (x : Dinode) (name : List UInt8) (k : Nat) : Bool :=
  entryInum (entryAt d x (k * DIRENT_SIZE)) != 0 && namecmp name (entryAt d x (k * DIRENT_SIZE))

/-- What `dirlookup` returns for an entry. -/
def hit (d : Disk) (x : Dinode) (k : Nat) : Nat × Nat :=
  (entryInum (entryAt d x (k * DIRENT_SIZE)), k * DIRENT_SIZE)

def findEntry (d : Disk) (x : Dinode) (name : List UInt8) : Option (Nat × Nat) :=
  ((List.range (x.size / DIRENT_SIZE)).find? (entryIs d x name)).map (hit d x)

lemma scanName_run (h : DirOk d x) (name : List UInt8) (fuel : Nat) :
    ∀ k n, k + n = x.size / DIRENT_SIZE → n < fuel →
      (scanName sb name fuel (k * DIRENT_SIZE) x).run d
        = .ok ((((List.range' k n).find? (entryIs d x name)).map (hit d x), x), d) := by
  have hwhole := h.whole
  induction fuel with
  | zero => exact fun _ _ _ hn => absurd hn (Nat.not_lt_zero _)
  | succ fuel ih => ?_
  intro k n hk hn
  rw [scanName]
  cases n with
  | zero =>
    rw [if_neg (by unfold DIRENT_SIZE at *; omega)]
    rfl
  | succ n => ?_
  have hlt : k * DIRENT_SIZE + DIRENT_SIZE ≤ x.size := by
    unfold DIRENT_SIZE at *
    omega
  have hrest := ih (k + 1) n (by omega) (by omega)
  rw [show (k + 1) * DIRENT_SIZE = k * DIRENT_SIZE + DIRENT_SIZE from Nat.succ_mul ..] at hrest
  rw [if_pos (by unfold DIRENT_SIZE at *; omega), run_bind_ok (readi_entry
    (Nat.mul_mod_left ..) hlt h.small (h.mapped _ (by unfold DIRENT_SIZE at *; omega)))]
  change (if entryInum (entryAt d x (k * DIRENT_SIZE)) = 0 then _ else _ : Prog _).run d = _
  rw [range'_succ, List.find?_cons]
  split
  · next h0 =>
    rw [show entryIs d x name k = false by simp [entryIs, h0]]
    exact hrest
  next h0 =>
  split
  · next hname =>
    rw [show entryIs d x name k = true by simp [entryIs, h0, hname]]
    rfl
  next hname =>
  rw [show entryIs d x name k = false by simp [entryIs, hname]]
  exact hrest

lemma dirlookup_run (h : DirOk d x) (name : List UInt8) :
    (dirlookup sb x name).run d = .ok ((findEntry d x name, x), d) := by
  have := @scanName_run sb d x h name (x.size / DIRENT_SIZE + 1) 0 (x.size / DIRENT_SIZE)
    (zero_add _) (Nat.lt_succ_self _)
  rw [zero_mul] at this
  rw [dirlookup, this, findEntry, range_eq_range']

end Proninx.Native
