import Proninx.Kern.Icache

/-!
# What a slot remembers

`iget` gives an inode that is not cached a slot somebody else has used,
and `ilock` fills it. What the fields of the slot then hold is compared
between two caches over the same disk, whatever happened in them before.
The native branch and the UFS2 branch fill in every field. The device
branches do not know an owner or a mode, and the branch for UFS2 inodes
that cannot be used leaves both where it found them.
-/

namespace Proninx.Fs

open ByteMem Native State Stateful Ufs2

variable {mnt : Mount} {s t : State} {i j : Fin NINODE} {dev inum : Nat} {d : Disk}

/-- `iget` and `ilock`: how the kernel gets at an inode. -/
def fetch (mnt : Mount) (dev inum : Nat) : Sys (Fin NINODE) := do
  let i ← iget dev inum
  ilock mnt i
  pure i

variable (mnt) in
/-- The inode is read in full from the disk. -/
def Fills (d : Disk) (dev inum : Nat) : Prop :=
  match kind mnt dev inum with
  | .device _ _ => False
  | .ufs2 v => ∃ x, inodeAt v (v.bytes d) inum = some x ∧ Usable x
  | .native => True

variable (mnt) in
/-- Two caches over the disk `d` that have no slot for the inode give it
slots with the same fields, and so the same access decisions. -/
def Forgets (d : Disk) (dev inum : Nat) : Prop :=
  ∀ s t : State, s.disk dev = d → t.disk dev = d →
    s.cached dev inum = none → t.cached dev inum = none →
    ∀ i j s' t', fetch mnt dev inum s = .ok (i, s') → fetch mnt dev inum t = .ok (j, t') →
      (s'.slot i).fields = (t'.slot j).fields ∧
      ∀ cred mask, inodeAccess cred (s'.slot i).fields mask
        = inodeAccess cred (t'.slot j).fields mask

lemma iget_recycles (h : s.cached dev inum = none) (hi : s.empty = some i) :
    iget dev inum s = .ok (i, s.set i ((s.slot i).recycle dev inum)) := by
  unfold iget
  rw [get_bind, h]
  rw [hi]
  rfl

lemma fill_recycle {disk : Nat → Disk} {e : Slot} : fill mnt disk (e.recycle dev inum) =
    load mnt (disk dev) dev inum (e.recycle dev inum) := rfl

lemma fetch_eq {r : Slot} (h : s.cached dev inum = none) (hi : s.empty = some i)
    (hr : load mnt (s.disk dev) dev inum ((s.slot i).recycle dev inum) = .ok r) :
    fetch mnt dev inum s = .ok (i, (s.set i ((s.slot i).recycle dev inum)).set i r) := by
  have hlock : ilock mnt i (s.set i ((s.slot i).recycle dev inum))
      = .ok ((), (s.set i ((s.slot i).recycle dev inum)).set i r) := by
    rw [ilock_eq (by rw [set_slot]; exact one_pos), State.set_slot]
    rw [State.set_disk, fill_recycle, hr]
  unfold fetch
  rw [bind_of_ok (iget_recycles h hi), bind_of_ok hlock]
  rfl

lemma fetch_recycled {s' : State} (h : s.cached dev inum = none)
    (hrun : fetch mnt dev inum s = .ok (i, s')) :
    load mnt (s.disk dev) dev inum ((s.slot i).recycle dev inum) = .ok (s'.slot i) := by
  unfold fetch at hrun
  cases he : s.empty with
  | none =>
    unfold iget at hrun
    rw [bind_ok] at hrun
    obtain ⟨k, u, hget, -⟩ := hrun
    rw [get_bind, h] at hget
    rw [he] at hget
    cases hget
  | some k => ?_
  rw [bind_of_ok (iget_recycles h he)] at hrun
  obtain ⟨_, u, hlock, hpure⟩ := bind_ok.mp hrun
  obtain ⟨rfl, rfl⟩ : k = i ∧ u = s' := by
    cases hpure
    exact ⟨rfl, rfl⟩
  rw [ilock_eq (by rw [set_slot]; exact one_pos), State.set_slot] at hlock
  rw [State.set_disk, fill_recycle] at hlock
  cases hf : load mnt (s.disk dev) dev inum ((s.slot k).recycle dev inum) with
  | error e =>
    rw [hf] at hlock
    cases hlock
  | ok e => ?_
  rw [hf] at hlock
  cases hlock
  rw [set_slot]

lemma Fills.fields_eq {e e' r r' : Slot} (hf : Fills mnt d dev inum)
    (h : load mnt d dev inum e = .ok r) (h' : load mnt d dev inum e' = .ok r') :
    r.fields = r'.fields := by
  unfold Fills at hf
  unfold load at h h'
  cases hkind : kind mnt dev inum with
  | device major minor =>
    rw [hkind] at hf
    exact hf.elim
  | ufs2 v =>
    rw [hkind] at hf h h'
    obtain ⟨x, hx, hu⟩ := hf
    dsimp only at h h'
    rw [hx] at h h'
    dsimp only at h h'
    rw [if_pos hu] at h h'
    cases h
    cases h'
    rfl
  | native => ?_
  rw [hkind] at h h'
  dsimp only at h h'
  split at h
  · cases h
  next hne =>
  rw [if_neg hne] at h'
  cases h
  cases h'
  rfl

lemma load_keeps_uid (h : ¬ Fills mnt d dev inum) (e : Slot) :
    ∃ r, load mnt d dev inum e = .ok r ∧ r.uid = e.uid := by
  unfold Fills at h
  unfold load
  cases hkind : kind mnt dev inum with
  | device major minor => exact ⟨_, rfl, rfl⟩
  | ufs2 v =>
    rw [hkind] at h
    dsimp only
    cases hx : inodeAt v (v.bytes d) inum with
    | none => exact ⟨_, rfl, rfl⟩
    | some x => ?_
    dsimp only
    rw [if_neg fun hu => h ⟨x, hx, hu⟩]
    exact ⟨_, rfl, rfl⟩
  | native =>
    rw [hkind] at h
    exact absurd trivial h

/-- A cache nobody uses, whose slots all hold `e`. -/
def idle (d : Disk) (e : Slot) : State := ⟨fun _ => { e with ref := 0 }, fun _ => d⟩

lemma idle_cached (d : Disk) (e : Slot) (dev inum : Nat) : (idle d e).cached dev inum = none := by
  refine List.find?_eq_none.mpr fun i _ => ?_
  rw [decide_eq_true_eq]
  exact fun h => absurd h.1 (lt_irrefl 0)

lemma idle_empty (d : Disk) (e : Slot) : (idle d e).empty = some ⟨0, by decide⟩ := by
  unfold empty
  rw [show List.finRange NINODE = ⟨0, by decide⟩ :: (List.finRange 49).map Fin.succ from rfl]
  exact List.find?_cons_of_pos rfl

/-- A recycled slot tells nothing about its earlier tenants exactly when
the inode is read in full from the disk: it is a native one, or a UFS2
inode the kernel accepts, and no device. -/
theorem slot_forgets_tenant (mnt : Mount) (d : Disk) (dev inum : Nat) :
    Forgets mnt d dev inum ↔ Fills mnt d dev inum := by
  constructor
  · intro hforget
    by_contra hno
    have hkeep : ∀ uid, ∃ i s', fetch mnt dev inum (idle d { Slot.zero with uid := uid })
        = .ok (i, s') ∧ (s'.slot i).fields.uid = uid := fun uid => by
      obtain ⟨r, hr, huid⟩ := load_keeps_uid hno
        ({ Slot.zero with uid := uid, ref := 0 }.recycle dev inum)
      refine ⟨_, _, fetch_eq (idle_cached ..) (idle_empty ..) hr, ?_⟩
      rw [set_slot]
      exact huid
    obtain ⟨i, s', hs, huid⟩ := hkeep 0
    obtain ⟨j, t', ht, huid'⟩ := hkeep 1
    have := (hforget _ _ rfl rfl (idle_cached ..) (idle_cached ..) i j s' t' hs ht).1
    rw [this, huid'] at huid
    cases huid
  · intro hf s t hd hd' hs ht i j s' t' hi hj
    have heq := hf.fields_eq (hd ▸ fetch_recycled hs hi) (hd' ▸ fetch_recycled ht hj)
    exact ⟨heq, fun cred mask => by rw [heq]⟩

/-! ## A device with an owner -/

/-- A native volume: eight inodes, from block 2 on. -/
def plainMount : Mount := ⟨fun _ => none, ⟨64, 8, 2, 4⟩⟩

/-- Inode 5 is a file of user 1000 with mode 0600. -/
def ownedDisk : Disk := fun b =>
  if b = 3 then encodeDinode (fun _ => 0) 128 ⟨T_FILE, 0, 0, 1, 0, 1000, 100, 0o600, fun _ => 0⟩
  else fun _ => 0

/-- An inode is looked at and put back. -/
def visit (dev inum : Nat) : Sys Unit := do
  let i ← fetch plainMount dev inum
  iput plainMount i

def afterVisit : Sys (Fin NINODE) := do
  visit ROOTDEV 5
  fetch plainMount DEVFS_DEVICE DEVFS_FNU_COMMAND_INO

/-- The supervisor's command device takes the owner and the mode of the
file that was looked at before, and lets that owner write to it. -/
theorem device_takes_owner :
    ((fetch plainMount DEVFS_DEVICE DEVFS_FNU_COMMAND_INO (.boot fun _ => ownedDisk)).map
      fun p => ((p.2.slot p.1).fields, inodeAccess ⟨1000, 100⟩ (p.2.slot p.1).fields 2))
        = .ok (⟨T_DEVICE, FNU_STATE, FNU_STATE_COMMAND, 0, 0, 0, 0, 1⟩, false) ∧
    ((afterVisit (.boot fun _ => ownedDisk)).map
      fun p => ((p.2.slot p.1).fields, inodeAccess ⟨1000, 100⟩ (p.2.slot p.1).fields 2))
        = .ok (⟨T_DEVICE, FNU_STATE, FNU_STATE_COMMAND, 0, 1000, 100, 0o600, 1⟩, true) ∧
    ∃ t, visit ROOTDEV 5 (.boot fun _ => ownedDisk) = .ok ((), t) ∧ t.disk = (fun _ => ownedDisk) ∧
      t.cached DEVFS_DEVICE DEVFS_FNU_COMMAND_INO = none := by
  refine ⟨by decide +kernel, by decide +kernel, ?_⟩
  have hload := @fetch_eq plainMount (.boot fun _ => ownedDisk) ⟨0, by decide⟩ ROOTDEV 5 _
    (by decide +kernel) (by decide +kernel) rfl
  refine ⟨_, (bind_of_ok hload).trans (iput_kept ?_), ?_, ?_⟩
  · decide +kernel
  · rfl
  · decide +kernel

end Proninx.Fs
