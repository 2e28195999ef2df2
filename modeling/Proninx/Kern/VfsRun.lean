import Proninx.Kern.Ufs2Create
import Proninx.Kern.VfsEntries

/-!
# Runs of system calls

The system calls of a UFS2 volume one after the other, from a cold cache.
A call may break the agreement between cache and disk in two ways: it lets
a directory grow that is referenced, or it fails after it changed the size
of a file that is referenced. As long as no call does, the cache agrees
with the disk, and changing attributes leaves sizes and blocks alone.
-/

namespace Proninx.Vfs

open Blockdev ByteMem Option Runs Stateful Ufs2

inductive Call where
  | open (cred : Cred) (n : Nat) (writing trunc : Bool)
  | create (cred : Cred) (dp : Nat) (name : List UInt8) (trunc : Bool)
  | mkdir (cred : Cred) (dp : Nat) (name : List UInt8)
  | link (cred : Cred) (n dp : Nat) (name : List UInt8)
  | unlink (cred : Cred) (dp : Nat) (name : List UInt8)
  | chmod (cred : Cred) (n mode : Nat)
  | chown (n uid gid : Nat)
  | write (n offset : Nat) (src : Mem) (length : Nat)
  | close (n : Nat)

variable (v : Volume)

def Call.exec : Call → Sys Bool
  | .open cred n writing trunc => sysOpen v cred n writing trunc
  | .create cred dp name trunc => sysCreate v cred dp name trunc
  | .mkdir cred dp name => sysMkdir v cred dp name
  | .link cred n dp name => sysLink v cred n dp name
  | .unlink cred dp name => sysUnlink v cred dp name
  | .chmod cred n mode => sysChmod v cred n mode
  | .chown n uid gid => sysChown v n uid gid
  | .write n offset src length => sysWrite v n offset src length
  | .close n => do
    sysClose v n
    pure true

/-- What `dirlookup` finds in `dp` can be locked, and is not `dp`. -/
def Finds (d : Disk) (dp : Nat) (name : List UInt8) : Prop :=
  ∀ n, (lookup v dp name).run d = .ok (some n, d) → Usable v d n ∧ n ≠ dp

/-- The inodes a call works on are files and directories in use, and those
it reached through a path have a link. -/
def Call.Sane (s : State) : Call → Prop
  | .open _ n _ _ => Named v s.disk n
  | .create _ dp name _ => Named v s.disk dp ∧ Finds v s.disk dp name
  | .mkdir _ dp name => Named v s.disk dp ∧ Finds v s.disk dp name
  | .link _ n dp _ => Named v s.disk n ∧ Named v s.disk dp ∧ n ≠ dp
  | .unlink _ dp name => Named v s.disk dp ∧ Finds v s.disk dp name
  | .chmod _ n _ => Named v s.disk n
  | .chown n uid gid => Named v s.disk n ∧ uid < 2 ^ 32 ∧ gid < 2 ^ 32
  | .write n _ _ _ => Usable v s.disk n ∧ s.cache n ≠ none
  | .close _ => True

/-- The directory a call makes an entry in. -/
def Call.parent : Call → Option Nat
  | .create _ dp _ _ => some dp
  | .mkdir _ dp _ => some dp
  | .link _ _ dp _ => some dp
  | _ => none

/-- The call made no referenced directory grow, and if it failed, it did
not change the size of any referenced inode. -/
def Call.Clean (c : Call) (s : State) (r : Bool) (t : State) : Prop :=
  (∀ dp, c.parent = some dp → ¬ Resized v s t dp) ∧ (r = false → ∀ n, ¬ Resized v s t n)

def Step (s : State) (c : Call) (t : State) : Prop :=
  c.Sane v s ∧ ∃ r, c.exec v s = .ok (r, t) ∧ c.Clean v s r t

def Call.Attribute : Call → Prop
  | .chmod .. => True
  | .chown .. => True
  | _ => False

variable {v} {mine : Nat → Prop} {s t : State} {c : Call} {r : Bool}

/-- Run calls one after the other and note each result and what `view` sees. -/
def watch {α : Type} (v : Volume) (view : State → α) :
    List Call → State → Except Panic (List (Bool × α))
  | [], _ => .ok []
  | c :: cs, s =>
    match c.exec v s with
    | .error e => .error e
    | .ok (r, t) => (watch v view cs t).map ((r, view t) :: ·)

lemma watch_cons {α : Type} {view : State → α} {cs : List Call} {a : α} {l : List (Bool × α)}
    (h : watch v view (c :: cs) s = .ok ((r, a) :: l)) :
    ∃ t, c.exec v s = .ok (r, t) ∧ view t = a ∧ watch v view cs t = .ok l := by
  unfold watch at h
  split at h
  · cases h
  next r' t hexec =>
  cases hw : watch v view cs t with
  | error e =>
    rw [hw] at h
    cases h
  | ok l' => ?_
  rw [hw] at h
  cases h
  exact ⟨t, hexec, rfl, hw⟩

lemma agreeing_cold (hp : Placed v mine (v.bytes s.disk)) (hcold : ∀ n, s.cache n = none) :
    Agreeing v mine s where
  placed := hp
  used n e hc := by
    rw [hcold n] at hc
    cases hc
  agrees n e _ hc := by
    rw [hcold n] at hc
    cases hc

lemma exec_agreeing (hg : Ground v mine) (h : Agreeing v mine s) (hs : c.Sane v s)
    (hrun : c.exec v s = .ok (r, t)) : Agreeing v mine t ∨ ¬ c.Clean v s r t := by
  cases c with
  | «open» cred n writing trunc =>
    refine (sysOpen_coherent hg h hs.usable cred writing trunc r t hrun).imp_right ?_
    exact fun ⟨hr, hn⟩ hclean => hclean.2 hr n hn
  | create cred dp name trunc =>
    refine (sysCreate_coherent hg h hs.1 name (fun n hn => (hs.2 n hn).1) cred trunc r t
      hrun).imp_right ?_
    rintro (hdp | ⟨hr, n, hn⟩) hclean
    · exact hclean.1 dp rfl hdp
    · exact hclean.2 hr n hn
  | mkdir cred dp name =>
    refine (sysMkdir_coherent hg h hs.1 name (fun n hn => (hs.2 n hn).1) cred r t hrun).imp_right ?_
    exact fun hdp hclean => hclean.1 dp rfl hdp
  | link cred n dp name =>
    refine (sysLink_coherent hg h hs.1 hs.2.1 hs.2.2 cred name r t hrun).imp_right ?_
    exact fun hdp hclean => hclean.1 dp rfl hdp
  | unlink cred dp name =>
    exact .inl (sysUnlink_coherent hg h hs.1.usable name hs.2 cred r t hrun)
  | chmod cred n mode => exact .inl (sysChmod_coherent hg h hs cred mode r t hrun).1
  | chown n uid gid => exact .inl (sysChown_coherent hg h hs.1 hs.2.1 hs.2.2 r t hrun).1
  | write n offset src length =>
    refine (sysWrite_coherent hg h hs.1 hs.2 offset src length r t hrun).imp_right ?_
    exact fun ⟨hr, hn⟩ hclean => hclean.2 hr n hn
  | close n =>
    have hclose : Leads (Call.exec v (.close n)) s fun _ t => Agreeing v mine t :=
      (sysClose_coherent hg h).bind fun _ _ ht => .pure ht
    exact .inl (hclose r t hrun)

lemma attribute_contents (hg : Ground v mine) (h : Agreeing v mine s) (ha : c.Attribute)
    (hs : c.Sane v s) (hrun : c.exec v s = .ok (r, t)) (k : Nat) :
    SameContents v s.disk t.disk k := by
  cases c with
  | chmod cred n mode => exact (sysChmod_coherent hg h hs cred mode r t hrun).2 k
  | chown n uid gid => exact (sysChown_coherent hg h hs.1 hs.2.1 hs.2.2 r t hrun).2 k
  | _ => exact ha.elim

/-- The block that is free and the one of the root directory. -/
def homeData (k : Nat) : Prop := 8 ≤ k ∧ k < 16 ∨ 40 ≤ k ∧ k < 48

lemma homeData_bytes {k i : Nat} (hk : homeData k) (hi : InFragment homeVolume k i) :
    4096 ≤ i ∧ i < 24576 := by
  obtain ⟨hlo, hhi⟩ : k * 512 ≤ i ∧ i < (k + 1) * 512 := hi
  unfold homeData at hk
  omega

lemma homeVolume_inSlot {n i : Nat} (h : InSlot homeVolume n i) :
    n < 16 ∧ 102400 + n * 256 ≤ i ∧ i < 102656 + n * 256 := by
  obtain ⟨o, ho, hlo, hhi⟩ := h
  obtain ⟨hn, rfl⟩ := homeVolume_slot ho
  have : DINODE_SIZE = 256 := rfl
  omega

lemma homeVolume_ground : Ground homeVolume homeData where
  accepted := homeVolume_accepted
  separate := homeVolume_separate
  numbers := ⟨by decide, by decide⟩
  slot n hn := by
    change n / 16 < 1 at hn
    have hall : ∀ n < 16, inodeOffset homeVolume n = some (102400 + n * 256) := by decide
    have hn : n < 16 := by omega
    refine ⟨_, hall n hn, homeVolume_fits ?_⟩
    unfold DINODE_SIZE
    omega
  slot_group n i hs hg := by
    have := homeVolume_inSlot hs
    rw [inGroups_home] at hg
    omega
  slots_apart n k i hne hn hk := by
    have := homeVolume_inSlot hn
    have := homeVolume_inSlot hk
    omega
  number k hk := by
    change k / 16 < 2 ^ 32
    unfold homeData at hk
    omega
  address k hk := by
    change (k + 1) * 512 ≤ U64MAX
    unfold homeData at hk
    unfold U64MAX
    omega
  data_group k i hk hi hg := by
    have := homeData_bytes hk hi
    rw [inGroups_home] at hg
    omega
  data_slot k i n hk hi hs := by
    have := homeData_bytes hk hi
    have := homeVolume_inSlot hs
    omega

section Home

variable {c : Nat} {block : Mem}

lemma homeDisk_marked {n : Nat}
    (h : Marked homeVolume (homeVolume.bytes (homeDisk c block)) n true) : n < 3 := by
  have hgroup : n / 16 < 1 := h.group
  have hn : n < 16 := by omega
  obtain ⟨io, hio, -, hbit⟩ := h
  obtain ⟨-, rfl⟩ := homeDisk_inodeMap hio
  have hbyte : ∀ n < 16, inodeByte homeVolume 76928 n = 76928 + n / 8 := by decide
  rw [hbyte n hn, homeDisk_groups (by omega)] at hbit
  have hall : ∀ n < 16, testBit (homeGroup (76928 + n / 8 - 76800)) (n % 16 % 8) →
      n < 3 := by decide
  exact hall n hn hbit

lemma homeDisk_unused {n : Nat} {x : Inode} (hn : n < 2)
    (hx : inodeAt homeVolume (homeVolume.bytes (homeDisk c block)) n = some x) :
    (∀ b < DIRECT_BLOCKS, x.direct b = 0) ∧ x.indirect 0 = 0 := by
  have hdn : DINODE_SIZE = 256 := rfl
  have hoff : ∀ n < 2, inodeOffset homeVolume n = some (102400 + n * 256) := by decide
  have hzero : window (homeVolume.bytes (homeDisk c block)) (102400 + n * 256) DINODE_SIZE
      = fun _ => 0 := by
    funext i
    by_cases hi : i < DINODE_SIZE
    · have hs : SUPERBLOCK_OFFSET = 65536 := rfl
      have hz : SUPERBLOCK_SIZE ≤ 8192 := by decide
      rw [window_apply hi, homeDisk_bytes (by omega), homeImage, blit_out (by omega),
        blit_out (by omega), blit_out (by omega), blit_out (by omega)]
    · rw [window, blit_out (by omega)]
  rw [inodeAt_eq (hoff n hn) (homeVolume_fits (by omega)), hzero] at hx
  cases hx
  exact ⟨by decide, by decide⟩

lemma homeInode_sited {m : Mem} {x : Inode} (hfirst : x.direct 0 = 40)
    (hdirect : ∀ b < DIRECT_BLOCKS, x.direct b ≠ 0 → b = 0) (hindirect : x.indirect 0 = 0) :
    Sited homeVolume homeData m x where
  listed b a ha k hk := by
    have hk : k < 8 := hk
    unfold addressAt at ha
    split at ha
    · next hb =>
      split at ha
      · cases ha
      next hne =>
      cases ha
      rw [hdirect b hb hne, hfirst]
      exact .inr (by omega)
    · dsimp only at ha
      rw [if_pos (.inr (.inl hindirect))] at ha
      cases ha
  group i hi := absurd hindirect hi.1
  slot i n hi := absurd hindirect hi.1
  data i k hi := absurd hindirect hi.1

lemma homeDisk_placed (hc : c ≤ 8) :
    Placed homeVolume homeData (homeVolume.bytes (homeDisk c block)) where
  maps_apart g mo entries io hmo hio := by
    obtain ⟨-, rfl, rfl⟩ := homeDisk_freeMap hmo
    obtain ⟨-, rfl⟩ := homeDisk_inodeMap hio
    exact .inr (by decide)
  free k hk := by
    have hfpg : homeVolume.fragmentsPerGroup = 16 := rfl
    obtain ⟨hg, hlo, hhi⟩ := homeDisk_free hk
    rw [hfpg] at hg hlo
    exact .inl (by omega)
  sited n x hn hx := by
    have hlt := homeDisk_marked hn
    by_cases htwo : n = 2
    · subst htwo
      cases hx.symm.trans homeDisk_inode
      have hall : ∀ c < 9, (∀ b < DIRECT_BLOCKS, (homeInode c).direct b ≠ 0 → b = 0) ∧
          (homeInode c).indirect 0 = 0 := by decide
      obtain ⟨hdirect, hindirect⟩ := hall c (by omega)
      exact homeInode_sited (homeInode_fields hc).2.2.1 hdirect hindirect
    · obtain ⟨hdirect, hindirect⟩ := homeDisk_unused (by omega) hx
      exact .empty hdirect hindirect

def coldHome (c : Nat) (block : Mem) : State := ⟨homeDisk c block, fun _ => none⟩

/-- What there is to see of the root directory: its bit in the inode map,
its dinode and its entry in the cache. -/
structure RootView where
  map : Option Nat
  used : Bool
  mode : Option Nat
  nlink : Option Nat
  size : Option Nat
  entry : Option (Bool × Nat)
  deriving DecidableEq

def rootView (s : State) : RootView where
  map := inodeMapAt homeVolume (homeVolume.bytes s.disk) 0
  used := testBit (homeVolume.bytes s.disk 76928) 2
  mode := (inodeAt homeVolume (homeVolume.bytes s.disk) 2).map (·.mode)
  nlink := (inodeAt homeVolume (homeVolume.bytes s.disk) 2).map (·.nlink)
  size := sizeAt homeVolume s.disk 2
  entry := (s.cache 2).map fun e => (e.valid, e.size)

lemma named_of_view {s : State} {mode nlink size : Nat} {entry : Option (Bool × Nat)}
    (h : rootView s = ⟨some 76928, true, some mode, some nlink, some size, entry⟩)
    (hmode : mode &&& IFMT = IFDIR) (hnlink : nlink ≠ 0) (hsize : size ≤ 0xffffffff) :
    Named homeVolume s.disk 2 := by
  obtain ⟨hmap, hused, hm, hn, hs, -⟩ := RootView.mk.inj h
  have hmarked : Marked homeVolume (homeVolume.bytes s.disk) 2 true :=
    ⟨76928, hmap, homeVolume_fits (by decide), hused⟩
  obtain ⟨x, hx, rfl⟩ := map_eq_some_iff.mp hm
  rw [hx] at hn
  rw [sizeAt_some hx] at hs
  cases hn
  cases hs
  refine ⟨⟨hmarked, x, hx, .inl hmode, hsize⟩, fun y hy => ?_⟩
  cases hx.symm.trans hy
  exact hnlink

lemma finds_of_run {name : List UInt8} {d : Disk}
    (h : ((lookup homeVolume 2 name).run d).toOption.map (·.1) = some none) :
    Finds homeVolume d 2 name := by
  intro n hrun
  rw [hrun] at h
  cases h

/-- A file is made in a directory with room, which is then opened and gets
another mode. -/
def roomyCalls : List Call :=
  [.create ⟨0, 0⟩ 2 [97] false, .open ⟨0, 0⟩ 2 false false, .chmod ⟨0, 0⟩ 2 0o700]

lemma roomyCalls_watch : watch homeVolume rootView roomyCalls (coldHome 1 tightRegion) = .ok [
      (true, ⟨some 76928, true, some 0o040755, some 2, some 512, none⟩),
      (true, ⟨some 76928, true, some 0o040755, some 2, some 512, some (true, 512)⟩),
      (true, ⟨some 76928, true, some 0o040700, some 2, some 512, some (true, 512)⟩)] := by
  decide +kernel

lemma roomyHome_view : rootView (coldHome 1 tightRegion)
    = ⟨some 76928, true, some 0o040755, some 2, some 512, none⟩ := by
  decide +kernel

lemma coldHome_placed (hc : c ≤ 8) :
    Placed homeVolume homeData (homeVolume.bytes (coldHome c block).disk) :=
  homeDisk_placed hc

end Home

/-- Eight regions without room for a name of 200 bytes. -/
def fullBlock : Mem := fun i => tightRegion (i % DIR_BLOCK_SIZE)

def growthCalls : List Call :=
  [.open ⟨0, 0⟩ 2 false false, .create ⟨0, 0⟩ 2 longName false, .chmod ⟨0, 0⟩ 2 0o700]

lemma growthCalls_watch : watch homeVolume rootView growthCalls (coldHome 8 fullBlock) = .ok [
      (true, ⟨some 76928, true, some 0o040755, some 2, some 4096, some (true, 4096)⟩),
      (true, ⟨some 76928, true, some 0o040755, some 2, some 8192, some (true, 4096)⟩),
      (true, ⟨some 76928, true, some 0o040700, some 2, some 4096, some (true, 4096)⟩)] := by
  decide +kernel

end Proninx.Vfs
