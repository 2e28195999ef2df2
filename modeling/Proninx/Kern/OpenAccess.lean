import Proninx.Kern.CommandDevice
import Proninx.Kern.Ufs2Dir

/-!
# Permissions at `sys_open`

Without `O_CREATE` the inode is tested once, for writing if a write flag
is set and for reading otherwise; with `O_CREATE` a file that exists is not
tested at all. The rights of the descriptor and the truncation are read
off the flags afterwards. `Enforces omode` says that the two agree in every
state, and it is true of the flag words that ask for what was tested.
-/

namespace Proninx.Fs

open ByteMem Function Kernel List Native Paths State Stateful Ufs2

/-! ## The property -/

/-- What the path names before the call. -/
def named (mnt : Mount) (s : State) (task : Task) (path : List UInt8) : Option Node :=
  resolve mnt s.disk task.cred (origin mnt s task path).1
    (shortNames (components slash (origin mnt s task path).2))

/-- The state a call starts from. -/
structure Orderly (mnt : Mount) (T : Node → Prop) (task : Task) (k : Kernel) : Prop where
  settled : Settled mnt T k.fs
  attached : task.Attached k.fs
  devfs : ∀ i, 0 < (k.fs.slot i).ref → (k.fs.slot i).dev = DEVFS_DEVICE → (k.fs.slot i).valid →
    (k.fs.slot i).fs = .devfs
  closed : ∀ f, (k.file f).ref = 0 → (k.file f).type ≠ .inode

/-- The descriptor has no more rights than the caller has on its inode, and
nothing on the disks changes but for a file that the caller may write to
or that is new. -/
structure Guarded (mnt : Mount) (task : Task) (path : List UInt8) (omode : Nat) (k : Kernel)
    (r : Option (Fin NOFILE)) (k' : Kernel) : Prop where
  write : ∀ fd f, r = some fd → k'.ofile fd = some f → (k'.file f).writable = true →
    inodeAccess task.cred (k'.fs.slot (k'.file f).ip).fields 2 = true
  read : ∀ fd f, r = some fd → k'.ofile fd = some f → (k'.file f).readable = true →
    inodeAccess task.cred (k'.fs.slot (k'.file f).ip).fields 4 = true
  contents : k'.fs.disk ≠ k.fs.disk →
    (∃ n e, named mnt k.fs task path = some n ∧ inodeOf mnt k.fs.disk n = some e ∧
      inodeAccess task.cred e.fields 2 = true) ∨
    (named mnt k.fs task path = none ∧ has omode O_CREATE = true)

/-- `sys_open` with these flags respects the permissions. -/
def Enforces (omode : Nat) : Prop :=
  ∀ mnt T task k m addr sz path r k', Orderly mnt T task k → task.cred.uid ≠ 0 →
    argstr m addr sz = some path → T (origin mnt k.fs task path).1 →
    sysOpen mnt task m addr sz omode k = .ok (r, k') → Guarded mnt task path omode k r k'

/-- The flags ask for nothing that is not tested. -/
def Tested (omode : Nat) : Prop :=
  has omode O_CREATE = false ∧ (has omode O_RDWR = true → has omode O_WRONLY = true) ∧
    (has omode O_TRUNC = true → wantsWrite omode = true)

instance (omode : Nat) : Decidable (Tested omode) := inferInstanceAs (Decidable (_ ∧ _ ∧ _))

/-! ## Calls that are tested -/

section Tested

variable {mnt : Mount} {T : Node → Prop} {task : Task} {k k' : Kernel} {path : List UInt8}
  {omode : Nat} {s t : State} {ip : Fin NINODE}

/-- `iput` gives back a reference and no more. -/
def Kept (s : State) (i : Fin NINODE) : Prop :=
  ¬ ((s.slot i).ref = 1 ∧ (s.slot i).valid ∧ (s.slot i).nlink = 0)

lemma Kept.disk (h : Kept s ip) : Leads (iput mnt ip) s fun _ t => t.disk = s.disk := by
  intro a t hrun
  rw [iput_kept h] at hrun
  cases hrun
  rfl

/-- What `sys_open` has in hand after `ilock`. -/
structure Found (mnt : Mount) (task : Task) (path : List UInt8) (s t : State) (ip : Fin NINODE) :
    Prop where
  disk : t.disk = s.disk
  kept : Kept t ip
  ufs2 : (t.slot ip).fs = .ufs2 → ∃ n g, named mnt s task path = some n ∧
    inodeOf mnt s.disk n = some g ∧ Like (t.slot ip) g

lemma Orderly.found_plain (h : Orderly mnt T task k) (hT : T (origin mnt k.fs task path).1)
    (hdev : devfsPath path = 0) {r : Option (Fin NINODE)}
    (hrun : namei mnt task path k.fs = .ok (r, t)) : t.disk = k.fs.disk ∧
      ∀ ip u, r = some ip → ilock mnt ip t = .ok ((), u) → Found mnt task path k.fs u ip := by
  obtain ⟨r', t', hrun', hreach⟩ := h.settled.namei_run h.attached hdev hT
  rw [hrun] at hrun'
  cases hrun'
  generalize hres : resolve mnt k.fs.disk task.cred (origin mnt k.fs task path).1
    (shortNames (components slash (origin mnt k.fs task path).2)) = n at hreach
  cases hreach with
  | failed href => exact ⟨href.disk, nofun⟩
  | @found j n hn href => ?_
  refine ⟨href.disk, ?_⟩
  rintro _ u ⟨⟩ hlock
  have hTn : T (t.slot j).node := by
    rw [hn]
    exact h.settled.tree.resolve_mem _ hT hres
  obtain ⟨e, g, hlock', hk, hg, hlike, href'⟩ := href.ilock h.settled.tree
    (href.ref_pos mem_cons_self) hTn
  rw [hlock] at hlock'
  cases hlock'
  refine ⟨href'.disk, href'.kept h.settled.tree h.settled.linked ?_, fun _ => ⟨n, g, hres, ?_, ?_⟩⟩
  · rw [set_slot, hk.node]
    exact hTn
  · rw [← hn]
    exact hg
  rw [set_slot]
  exact hlike

lemma devfsPath_kind (h : devfsPath path ≠ 0) :
    ∃ major minor, kind mnt DEVFS_DEVICE (devfsPath path) = .device major minor := by
  have hrange : devfsPath path = 0 ∨ (1 ≤ devfsPath path ∧ devfsPath path ≤ 4) ∨
      (8 ≤ devfsPath path ∧ devfsPath path < 12) := by
    unfold devfsPath
    split
    · exact .inr (.inl (by decide))
    dsimp only
    split
    · next inum htty =>
      obtain ⟨p, -, hp⟩ := Option.bind_eq_some_iff.mp htty
      split at hp
      · next hc =>
        cases hp
        unfold DEVFS_TTY_INO DEVFS_TTY_COUNT at *
        omega
      · cases hp
    · split
      · exact .inr (.inl (by decide))
      split
      · exact .inr (.inl (by decide))
      split
      · exact .inr (.inl (by decide))
      · exact .inl rfl
  unfold kind
  simp only [true_and]
  split
  · exact ⟨_, _, rfl⟩
  split
  · exact ⟨_, _, rfl⟩
  split
  · exact ⟨_, _, rfl⟩
  unfold DEVFS_CONSOLE_INO DEVFS_TTY_INO DEVFS_TTY_COUNT DEVFS_FNU_COMMAND_INO
    DEVFS_FNU_HEALTH_INO at *
  omega

lemma found_device {e : Slot} (hdev : devfsPath path ≠ 0)
    (hnode : e.node = ⟨DEVFS_DEVICE, devfsPath path⟩) (href : 0 < e.ref)
    (hv : e.valid → e.fs = .devfs ∧ 1 < e.ref) {u : State}
    (hlock : ilock mnt ip (s.set ip e) = .ok ((), u)) : Found mnt task path s u ip := by
  rw [ilock_eq (by rw [set_slot]; exact href), set_slot] at hlock
  unfold fill at hlock
  have hfound : ∀ f : Slot, f.fs = .devfs → (1 < f.ref ∨ f.nlink = 1) →
      Found mnt task path s ((s.set ip e).set ip f) ip := by
    intro f hfs hkeep
    refine ⟨rfl, ?_, ?_⟩
    · unfold Kept
      rw [set_slot]
      omega
    · rw [set_slot, hfs]
      exact nofun
  by_cases hvalid : e.valid
  · rw [if_pos hvalid] at hlock
    cases hlock
    exact hfound e (hv hvalid).1 (.inl (hv hvalid).2)
  rw [if_neg hvalid] at hlock
  obtain ⟨major, minor, hkind⟩ := @devfsPath_kind mnt path hdev
  have hd : e.dev = DEVFS_DEVICE := congrArg Node.dev hnode
  have hi : e.inum = devfsPath path := congrArg Node.inum hnode
  unfold load at hlock
  rw [hd, hi, hkind] at hlock
  cases hlock
  exact hfound _ rfl (.inr rfl)

lemma Orderly.found (h : Orderly mnt T task k) (hT : T (origin mnt k.fs task path).1)
    {r : Option (Fin NINODE)} (hrun : namei mnt task path k.fs = .ok (r, t)) :
    t.disk = k.fs.disk ∧
      ∀ ip u, r = some ip → ilock mnt ip t = .ok ((), u) → Found mnt task path k.fs u ip := by
  by_cases hdev : devfsPath path = 0
  · exact h.found_plain hT hdev hrun
  rw [namei_device hdev] at hrun
  obtain ⟨j, w, hget, hj⟩ := bind_ok.mp hrun
  cases hj
  unfold iget at hget
  rw [get_bind] at hget
  cases hc : k.fs.cached DEVFS_DEVICE (devfsPath path) with
  | some j =>
    rw [hc] at hget
    cases hget
    obtain ⟨hr, hn⟩ := cached_some hc
    refine ⟨rfl, ?_⟩
    rintro _ u ⟨⟩ hlock
    refine found_device (e := { k.fs.slot j with ref := (k.fs.slot j).ref + 1 }) hdev hn
      (Nat.succ_pos _) (fun hv => ⟨?_, Nat.succ_lt_succ hr⟩) hlock
    exact h.devfs j hr (congrArg Node.dev hn) hv
  | none => ?_
  rw [hc] at hget
  cases he : k.fs.empty with
  | none =>
    rw [he] at hget
    cases hget
  | some j => ?_
  rw [he] at hget
  cases hget
  refine ⟨rfl, ?_⟩
  rintro _ u ⟨⟩ hlock
  exact found_device hdev rfl one_pos (fun hv => absurd hv Bool.false_ne_true) hlock

lemma openInode_disk (hclosed : ∀ f, (k.file f).ref = 0 → (k.file f).type ≠ .inode)
    (hkept : Kept k.fs ip) (htrunc : ¬ (has omode O_TRUNC ∧ (k.fs.slot ip).fs = .ufs2)) :
    Leads (openInode mnt ip omode) k fun _ k' => k'.fs.disk = k.fs.disk := by
  intro r k' hrun
  have hskip : openTruncate mnt ip omode k.fs = .ok (true, k.fs) := by
    unfold openTruncate
    rw [get_bind, if_neg htrunc]
    rfl
  have hput : ∀ k1 : Kernel, k1.fs = k.fs → Leads (do
      onFs (iput mnt ip)
      pure none : Call (Option (Fin NOFILE))) k1 fun _ k' => k'.fs.disk = k.fs.disk := by
    intro k1 hk1
    refine Leads.bind (P := fun _ k' => k'.fs.disk = k.fs.disk) ?_ fun _ _ h => .pure h
    intro a k2 h2
    obtain ⟨s, hs, rfl⟩ := onFs_ok.mp h2
    rw [hk1] at hs
    exact hkept.disk _ _ hs
  rw [openInode_eq hskip] at hrun
  split at hrun
  · exact hput _ rfl _ _ hrun
  next f hf =>
  split at hrun
  · refine Leads.bind (P := fun _ k' => k'.fs = k.fs) ?_ (fun _ k1 h1 => hput k1 h1) _ _ hrun
    have href : (k.file f).ref = 0 := by
      have := find?_some hf
      exact of_decide_eq_true this
    refine .get (.modify_bind ?_)
    rw [if_neg (by dsimp only; rw [update_self]; exact hclosed f href)]
    exact .pure rfl
  · cases hrun
    rfl

lemma openTruncate_access {mask : Nat} (hrun : openTruncate mnt ip omode s = .ok (true, t)) :
    inodeAccess task.cred (t.slot ip).fields mask = inodeAccess task.cred (s.slot ip).fields mask := by
  unfold openTruncate at hrun
  rw [get_bind] at hrun
  split at hrun
  · cases hv : mnt.volume (s.slot ip).dev with
    | none =>
      rw [hv] at hrun
      cases hrun
    | some v => ?_
    rw [hv] at hrun
    obtain ⟨⟨r, x⟩, u, -, hrun⟩ := bind_ok.mp hrun
    cases r with
    | none =>
      obtain ⟨_, _, -, hrun⟩ := bind_ok.mp hrun
      cases hrun
    | some _ => ?_
    obtain ⟨_, w, hset, hrun⟩ := bind_ok.mp hrun
    cases hset
    cases hrun
    rw [set_slot]
    rfl
  · cases hrun
    rfl

lemma Orderly.openNamed_disk (h : Orderly mnt T task k) (hT : T (origin mnt k.fs task path).1)
    (hrun : openNamed mnt task path omode k.fs = .ok (none, s)) : s.disk = k.fs.disk := by
  obtain ⟨r, t, hnamei, hrun⟩ := bind_ok.mp hrun
  obtain ⟨hdisk, hfound⟩ := h.found hT hnamei
  cases r with
  | none =>
    cases hrun
    exact hdisk
  | some ip => ?_
  obtain ⟨_, u, hlock, hrun⟩ := bind_ok.mp hrun
  have hf := hfound ip u rfl hlock
  rw [get_bind] at hrun
  split at hrun
  · obtain ⟨_, w, hput, hrun⟩ := bind_ok.mp hrun
    cases hrun
    exact (hf.kept.disk _ _ hput).trans hf.disk
  · cases hrun

lemma Tested.guarded (hflags : Tested omode) (h : Orderly mnt T task k) {m : Mem} {addr sz : Nat}
    {r : Option (Fin NOFILE)} (hargs : argstr m addr sz = some path)
    (hT : T (origin mnt k.fs task path).1)
    (hrun : sysOpen mnt task m addr sz omode k = .ok (r, k')) :
    Guarded mnt task path omode k r k' := by
  have hnone : ∀ k1 : Kernel, k1.fs.disk = k.fs.disk → Guarded mnt task path omode k none k1 :=
    fun k1 hd => ⟨nofun, nofun, fun hne => absurd hd hne⟩
  unfold sysOpen at hrun
  rw [hargs] at hrun
  dsimp only at hrun
  split at hrun
  · cases hrun
    exact hnone k rfl
  obtain ⟨r1, k1, h1, hrun⟩ := bind_ok.mp hrun
  obtain ⟨s, hs, rfl⟩ := onFs_ok.mp h1
  rw [hflags.1] at hs
  have hs : openNamed mnt task path omode k.fs = .ok (r1, s) := hs
  cases r1 with
  | none =>
    cases hrun
    exact hnone _ (h.openNamed_disk hT hs)
  | some ip => ?_
  obtain ⟨u, hnamei, hlock, hpass⟩ := openNamed_ok.mp hs
  have hfound := (h.found hT hnamei).2 ip s rfl hlock
  have hwrite : wantsWrite omode →
      inodeAccess task.cred (s.slot ip).fields 2 := fun hw => by
    by_contra hno
    exact hpass (.inl ⟨hw, by simpa using hno⟩)
  have hread : wantsWrite omode = false →
      inodeAccess task.cred (s.slot ip).fields 4 := fun hw => by
    by_contra hno
    exact hpass (.inr (.inl ⟨hw, by simpa using hno⟩))
  have hopened : ∀ fd f, r = some fd → k'.ofile fd = some f →
      (k'.file f).writable = wantsWrite omode ∧ (k'.file f).readable = !has omode O_WRONLY ∧
      ∀ mask, inodeAccess task.cred (k'.fs.slot (k'.file f).ip).fields mask
        = inodeAccess task.cred (s.slot ip).fields mask := by
    rintro fd f rfl hof
    obtain ⟨t, f', htrunc, -, -, rfl⟩ := openInode_ok.mp hrun
    rw [opened_ofile] at hof
    cases hof
    rw [opened_file]
    exact ⟨rfl, rfl, fun mask => openTruncate_access htrunc⟩
  refine ⟨fun fd f hr hof hwr => ?_, fun fd f hr hof hrd => ?_, fun hne => ?_⟩
  · obtain ⟨hw, -, hacc⟩ := hopened fd f hr hof
    rw [hacc]
    exact hwrite (hw ▸ hwr)
  · obtain ⟨-, hrd', hacc⟩ := hopened fd f hr hof
    have hno : has omode O_WRONLY = false := by simpa [hrd] using hrd'.symm
    have hrw : has omode O_RDWR = false := by
      rw [Bool.eq_false_iff]
      exact fun hc => absurd (hflags.2.1 hc) (by rw [hno]; decide)
    rw [hacc]
    exact hread (by rw [wantsWrite, hno, hrw]; rfl)
  by_cases htr : has omode O_TRUNC ∧ (s.slot ip).fs = .ufs2
  · obtain ⟨n, g, hn, hg, hlike⟩ := hfound.ufs2 htr.2
    refine .inl ⟨n, g, hn, hg, ?_⟩
    rw [← hlike.access]
    exact hwrite (hflags.2.2 htr.1)
  · have hdisk := @openInode_disk mnt { k with fs := s } omode ip h.closed hfound.kept htr
    exact absurd ((hdisk _ _ hrun).trans hfound.disk) hne

end Tested

/-! ## Calls that are not

A native root that everyone may write to has the files `a`, with no
permissions at all, and `b`, which others may only write to. The data
volume has a file of five bytes that others may only read. -/

def modesBlock : Block :=
  ofList ([1, 0, 46] ++ replicate 13 0 ++ [1, 0, 46, 46] ++ replicate 12 0 ++
    [2, 0, 97] ++ replicate 13 0 ++ [3, 0, 98] ++ replicate 13 0)

def modesDisk : Disk := fun b =>
  if b = 2 then
    encodeDinode (encodeDinode (encodeDinode (fun _ => 0) 128
      { rootDinode with size := 64, mode := 0o777 }) 256 { fileDinode with mode := 0 }) 384
      { fileDinode with mode := 0o002 }
  else if b = 10 then modesBlock
  else fun _ => 0

lemma modesDisk_flat : Flat plainMount.sb modesDisk [2, 3] := by
  constructor <;> decide +kernel

lemma idle_orderly {mnt : Mount} {T : Node → Prop} {d : Disk}
    (h : Settled mnt T (rootCwd d)) : Orderly mnt T userTask (.idle (rootCwd d)) where
  settled := h
  attached := one_pos
  devfs i _ _ hv := absurd hv (by
    rw [show ((Kernel.idle (rootCwd d)).fs.slot i).valid = false from rootCwd_valid d i]
    exact Bool.false_ne_true)
  closed _ _ := nofun

def file0 : Fin NFILE := ⟨0, by decide⟩
def fd0 : Fin NOFILE := ⟨0, by decide⟩

lemma one_lt_NINODE : 1 < NINODE := by decide

def slot1 : Fin NINODE := ⟨1, one_lt_NINODE⟩
def slot2 : Fin NINODE := ⟨2, by decide⟩

/-- The inode of a path, locked. -/
def look (mnt : Mount) (path : List UInt8) : Sys (Option (Fin NINODE)) := do
  match ← namei mnt userTask path with
  | none => pure none
  | some ip => do
    ilock mnt ip
    pure (some ip)

section Untested

variable {mnt : Mount} {path : List UInt8} {s t : State} {ip : Fin NINODE} {omode : Nat}

lemma look_ok (h : look mnt path s = .ok (some ip, t)) :
    ∃ u, namei mnt userTask path s = .ok (some ip, u) ∧ ilock mnt ip u = .ok ((), t) := by
  obtain ⟨r, u, hu, h⟩ := bind_ok.mp h
  cases r with
  | none => cases h
  | some j => ?_
  obtain ⟨_, w, hw, h⟩ := bind_ok.mp h
  cases h
  exact ⟨u, hu, hw⟩

lemma sysOpen_idle {u : State} {sz : Nat} (hargs : argstr (ofList path) 0 sz = some path)
    (hname : isCommandPath (ofList path) 0 = false)
    (hfind : (if has omode O_CREATE then create mnt userTask path T_FILE 0 0
      else openNamed mnt userTask path omode) s = .ok (some ip, t))
    (htrunc : openTruncate mnt ip omode t = .ok (true, u)) :
    sysOpen mnt userTask (ofList path) 0 sz omode (.idle s)
      = .ok (some fd0, (Kernel.idle s).opened u ip omode file0 fd0) := by
  refine sysOpen_ok.mpr ⟨path, ip, t, hargs, ?_, hfind, openInode_ok.mpr
    ⟨u, file0, htrunc, ?_, ?_, rfl⟩⟩
  · rw [hname, Bool.and_false]
  · exact (by decide +kernel : (finRange NFILE).find? (fun _ => decide (0 = 0)) = some file0)
  exact (by decide +kernel :
    (finRange NOFILE).find? (fun _ => (none : Option (Fin NFILE)).isNone) = some fd0)

lemma openTruncate_skip (h : ¬ (has omode O_TRUNC ∧ (s.slot ip).fs = .ufs2)) :
    openTruncate mnt ip omode s = .ok (true, s) := by
  unfold openTruncate
  rw [get_bind, if_neg h]
  rfl

/-- The rights of the descriptor, if the flags are to respect permissions. -/
lemma Enforces.descriptor {T : Node → Prop} {d : Disk} {u : State} {sz : Nat}
    (h : Enforces omode) (hset : Settled mnt T (rootCwd d))
    (hargs : argstr (ofList path) 0 sz = some path) (hT : T (origin mnt (rootCwd d) userTask path).1)
    (hrun : sysOpen mnt userTask (ofList path) 0 sz omode (.idle (rootCwd d))
      = .ok (some fd0, (Kernel.idle (rootCwd d)).opened u ip omode file0 fd0)) :
    (wantsWrite omode → inodeAccess userTask.cred (u.slot ip).fields 2) ∧
    (has omode O_WRONLY = false → inodeAccess userTask.cred (u.slot ip).fields 4) := by
  have hg := h mnt T userTask _ (ofList path) 0 sz path _ _ (idle_orderly hset) (by decide) hargs hT
    hrun
  have hw := hg.write fd0 file0 rfl opened_ofile
  have hr := hg.read fd0 file0 rfl opened_ofile
  rw [opened_file] at hw hr
  exact ⟨hw, fun hno => hr (by simpa using hno)⟩

lemma modes_settled : Settled plainMount (FlatNode [2, 3]) (rootCwd modesDisk) :=
  modesDisk_flat.settled rfl rfl (rootCwd_valid _) (rootCwd_room _)

lemma create_untested (hc : has omode O_CREATE) : ¬ Enforces omode := by
  intro h
  obtain ⟨t, ht, hview⟩ := @ok_of_view State Stop (Option (Fin NINODE)) _
    (create plainMount userTask (ascii "/a") T_FILE 0 0 (rootCwd modesDisk))
    (fun t => ((t.slot slot1).fs, inodeAccess userTask.cred (t.slot slot1).fields 2,
      inodeAccess userTask.cred (t.slot slot1).fields 4))
    (some slot1) (.native, false, false) (by decide +kernel)
  obtain ⟨hfs, hview⟩ := Prod.mk.inj hview
  obtain ⟨hno2, hno4⟩ := Prod.mk.inj hview
  have hargs : argstr (ofList (ascii "/a")) 0 3 = some (ascii "/a") := by decide +kernel
  obtain ⟨hw, hr⟩ := h.descriptor modes_settled hargs (.inl rfl) (sysOpen_idle hargs
    (by decide +kernel) (by rw [hc]; exact ht) (openTruncate_skip (by rw [hfs]; simp)))
  rw [hno2] at hw
  rw [hno4] at hr
  cases hwr : has omode O_WRONLY with
  | true => exact absurd (hw (by rw [wantsWrite, hwr]; rfl)) Bool.false_ne_true
  | false => exact absurd (hr hwr) Bool.false_ne_true

/-- Without `O_CREATE`, a file that is only written to is read as well. -/
lemma rdwr_untested (hc : has omode O_CREATE = false) (hrw : has omode O_RDWR)
    (hwr : has omode O_WRONLY = false) : ¬ Enforces omode := by
  intro h
  obtain ⟨t, ht, hview⟩ := @ok_of_view State Stop (Option (Fin NINODE)) _
    (look plainMount (ascii "/b") (rootCwd modesDisk))
    (fun t => ((t.slot slot1).fs, (t.slot slot1).type,
      inodeAccess userTask.cred (t.slot slot1).fields 2,
      inodeAccess userTask.cred (t.slot slot1).fields 4))
    (some slot1) (.native, T_FILE, true, false) (by decide +kernel)
  obtain ⟨hfs, hview⟩ := Prod.mk.inj hview
  obtain ⟨htype, hview⟩ := Prod.mk.inj hview
  obtain ⟨hyes2, hno4⟩ := Prod.mk.inj hview
  obtain ⟨u, hnamei, hlock⟩ := look_ok ht
  have hww : wantsWrite omode := by rw [wantsWrite, hrw, Bool.or_true]
  have hopen : openNamed plainMount userTask (ascii "/b") omode (rootCwd modesDisk)
      = .ok (some slot1, t) := by
    refine openNamed_ok.mpr ⟨u, hnamei, hlock, ?_⟩
    rw [htype, hyes2, hww]
    simp [T_FILE, T_DIR]
  have hargs : argstr (ofList (ascii "/b")) 0 3 = some (ascii "/b") := by decide +kernel
  obtain ⟨-, hr⟩ := h.descriptor modes_settled hargs (.inl rfl) (sysOpen_idle hargs
    (by decide +kernel) (by rw [hc]; exact hopen)
    (openTruncate_skip (by rw [hfs]; simp)))
  rw [hno4] at hr
  exact absurd (hr hwr) Bool.false_ne_true

def dataRegion : Mem :=
  putRecord (putRecord (putRecord (fun _ => 0) 0 12 [46] 2 DIRTYPE_DIR) 12 12 [46, 46] 2
    DIRTYPE_DIR) 24 488 [97] 3 DIRTYPE_REG

/-- Inode 3 is the file, five bytes without a block. -/
def dataDinode : Mem :=
  writeLe 8 (writeLe 2 (writeLe 2 (fun _ => 0) 0 (IFREG + 0o644)) 2 1) 16 5

def dataDisk : Disk :=
  Blockdev.imageDisk (blit (blit (blit (blit (fun _ => 0) 4096 sampleGroup 4096) 8704 sampleDinode 256)
    8960 dataDinode 256) 12288 dataRegion 512)

def dataMount : Mount :=
  ⟨fun dev => if dev = FNU_DATA_DEVICE then some sampleVolume else none, plainMount.sb⟩

lemma dataDisk_linked {n : Nat} {x : Ufs2.Inode}
    (hx : inodeAt sampleVolume (sampleVolume.bytes dataDisk) n = some x) (hu : Usable x) :
    x.nlink ≠ 0 := by
  have hn : n < 16 := by
    obtain ⟨o, ho, -⟩ := Option.bind_eq_some_iff.mp hx
    by_contra hlt
    unfold inodeOffset at ho
    rw [if_neg (by decide)] at ho
    rw [if_pos (by change 1 ≤ n / 16; omega)] at ho
    cases ho
  have hall : ∀ n < 16, ∀ x ∈ inodeAt sampleVolume (sampleVolume.bytes dataDisk) n,
      Usable x → x.nlink ≠ 0 := by
    decide +kernel
  exact hall n hn x hx hu

lemma data_settled : Settled dataMount (fun n => n.dev = FNU_DATA_DEVICE) (rootCwd dataDisk) where
  tree := .ufs2 (by decide) rfl
  steady i _ _ hv := absurd hv (by rw [rootCwd_valid]; exact Bool.false_ne_true)
  linked := by
    rintro ⟨_, inum⟩ rfl
    refine .inl ⟨_, inodeOf_ufs2 (show FNU_DATA_DEVICE ≠ DEVFS_DEVICE by decide) rfl, ?_⟩
    have hdisk : (rootCwd dataDisk).disk FNU_DATA_DEVICE = dataDisk := rfl
    rw [hdisk]
    cases hx : inodeAt sampleVolume (sampleVolume.bytes dataDisk) inum with
    | none => exact one_ne_zero
    | some x => ?_
    dsimp only
    split
    · next hu => exact dataDisk_linked hx hu
    · exact one_ne_zero
  room := rootCwd_room _

lemma openTruncate_flag (h : has omode O_TRUNC) :
    openTruncate mnt ip omode = openTruncate mnt ip O_TRUNC := by
  unfold openTruncate
  rw [h, show has O_TRUNC O_TRUNC = true from rfl]

lemma trunc_untested (hc : has omode O_CREATE = false) (htr : has omode O_TRUNC)
    (hww : wantsWrite omode = false) : ¬ Enforces omode := by
  intro h
  obtain ⟨u, hu, hbyte⟩ := @ok_of_view State Stop (Option (Fin NINODE) × Bool) _ ((do
      let r ← look dataMount (ascii "/data/a")
      let b ← openTruncate dataMount slot2 O_TRUNC
      pure (r, b) : Sys _) (rootCwd dataDisk))
    (fun u => u.disk FNU_DATA_DEVICE 17 272) (some slot2, true) 0 (by decide +kernel)
  obtain ⟨r, t, ht, hu⟩ := bind_ok.mp hu
  obtain ⟨b, w, htrunc, hu⟩ := bind_ok.mp hu
  cases hu
  obtain ⟨t', ht', hview⟩ := @ok_of_view State Stop (Option (Fin NINODE)) _
    (look dataMount (ascii "/data/a") (rootCwd dataDisk))
    (fun t => ((t.slot slot2).type, inodeAccess userTask.cred (t.slot slot2).fields 4))
    (some slot2) (T_FILE, true) (by decide +kernel)
  rw [ht] at ht'
  cases ht'
  obtain ⟨htype, hyes4⟩ := Prod.mk.inj hview
  obtain ⟨x, hnamei, hlock⟩ := look_ok ht
  have hopen : openNamed dataMount userTask (ascii "/data/a") omode (rootCwd dataDisk)
      = .ok (some slot2, t) := by
    refine openNamed_ok.mpr ⟨x, hnamei, hlock, ?_⟩
    rw [htype, hyes4, hww]
    simp [T_FILE, T_DIR]
  have hargs : argstr (ofList (ascii "/data/a")) 0 8 = some (ascii "/data/a") := by decide +kernel
  have hrun := sysOpen_idle hargs (by decide +kernel) (by rw [hc]; exact hopen)
    (openTruncate_flag htr ▸ htrunc)
  have hg := h dataMount _ userTask _ _ 0 8 _ _ _ (idle_orderly data_settled) (by decide) hargs
    (by decide +kernel) hrun
  have hnamed : named dataMount (rootCwd dataDisk) userTask (ascii "/data/a")
      = some ⟨FNU_DATA_DEVICE, 3⟩ := by decide +kernel
  have hno : (inodeOf dataMount (rootCwd dataDisk).disk ⟨FNU_DATA_DEVICE, 3⟩).map
      (fun e => inodeAccess userTask.cred e.fields 2) = some false := by decide +kernel
  have hdisk : u.disk ≠ (rootCwd dataDisk).disk := by
    intro heq
    rw [heq] at hbyte
    exact absurd hbyte (by decide +kernel)
  rcases hg.contents hdisk with ⟨n, e, hn, he, hyes⟩ | ⟨hn, -⟩
  · rw [show named dataMount (Kernel.idle (rootCwd dataDisk)).fs userTask (ascii "/data/a") = _
      from hnamed] at hn
    cases hn
    rw [show inodeOf dataMount (rootCwd dataDisk).disk _ = some e from he, Option.map_some,
      hyes] at hno
    cases hno
  · rw [show named dataMount (Kernel.idle (rootCwd dataDisk)).fs userTask (ascii "/data/a") = _
      from hnamed] at hn
    cases hn

end Untested

end Proninx.Fs
