import Proninx.Kern.Sysfile
import Proninx.Kern.Tree

/-!
# What `sys_open` returns

A call of `sys_open` that returns a descriptor has found or made an inode,
perhaps truncated it, and had a file and a descriptor to spare; the rights
of the descriptor are read off the flags. Which device the inode is on
follows from where the path starts: a walk never leaves its device.
-/

namespace Proninx.Fs

open ByteMem Function Native State Stateful Ufs2

variable {mnt : Mount} {task : Task} {k k' : Kernel} {ip : Fin NINODE} {omode : Nat}
  {fd : Fin NOFILE}

/-! ## The descriptor -/

def Kernel.freeFile (k : Kernel) : Option (Fin NFILE) :=
  (List.finRange NFILE).find? fun f => decide ((k.file f).ref = 0)

def Kernel.freeFd (k : Kernel) : Option (Fin NOFILE) :=
  (List.finRange NOFILE).find? fun fd => (k.ofile fd).isNone

/-- The state after `sys_open` has returned `fd`. -/
def Kernel.opened (k : Kernel) (s : State) (ip : Fin NINODE) (omode : Nat) (f : Fin NFILE)
    (fd : Fin NOFILE) : Kernel where
  fs := s
  file := update k.file f
    ⟨.inode, 1, !has omode O_WRONLY, wantsWrite omode, ip,
      if has omode O_APPEND then (s.slot ip).size else 0⟩
  ofile := update k.ofile fd (some f)

section Opened

variable {s : State} {f : Fin NFILE}

lemma Kernel.opened_ofile : (k.opened s ip omode f fd).ofile fd = some f :=
  update_self ..

lemma Kernel.opened_file : (k.opened s ip omode f fd).file f =
    ⟨.inode, 1, !has omode O_WRONLY, wantsWrite omode, ip,
      if has omode O_APPEND then (s.slot ip).size else 0⟩ :=
  update_self ..

end Opened

lemma onFs_ok {α : Type} {x : Sys α} {a : α} :
    onFs x k = .ok (a, k') ↔ ∃ s, x k.fs = .ok (a, s) ∧ k' = { k with fs := s } := by
  unfold onFs
  cases x k.fs with
  | error e => exact iff_of_false nofun nofun
  | ok p => ?_
  constructor
  · intro h
    cases h
    exact ⟨p.2, rfl, rfl⟩
  rintro ⟨s, h, rfl⟩
  cases h
  rfl

lemma filealloc_eq : filealloc k =
    match k.freeFile with
    | none => .ok (none, k)
    | some f => .ok (some f, { k with file := update k.file f { k.file f with ref := 1 } }) := by
  unfold filealloc
  rw [get_bind]
  unfold Kernel.freeFile
  cases (List.finRange NFILE).find? fun f => decide ((k.file f).ref = 0) <;> rfl

lemma fdalloc_eq (f : Fin NFILE) : fdalloc f k =
    match k.freeFd with
    | none => .ok (none, k)
    | some fd => .ok (some fd, { k with ofile := update k.ofile fd (some f) }) := by
  unfold fdalloc
  rw [get_bind]
  unfold Kernel.freeFd
  cases (List.finRange NOFILE).find? fun fd => (k.ofile fd).isNone <;> rfl

lemma openInode_eq {s : State} (hs : openTruncate mnt ip omode k.fs = .ok (true, s)) :
    openInode mnt ip omode k =
      match k.freeFile with
      | none => (do
          onFs (iput mnt ip)
          pure none : Call (Option (Fin NOFILE))) { k with fs := s }
      | some f =>
        match k.freeFd with
        | none => (do
            fileclose mnt f
            onFs (iput mnt ip)
            pure none : Call (Option (Fin NOFILE)))
            ⟨s, update k.file f { k.file f with ref := 1 }, k.ofile⟩
        | some fd => .ok (some fd, k.opened s ip omode f fd) := by
  unfold openInode
  rw [bind_of_ok (onFs_ok.mpr ⟨s, hs, rfl⟩), if_neg (by decide), get_bind]
  cases hf : k.freeFile with
  | none =>
    rw [bind_of_ok ((filealloc_eq (k := { k with fs := s })).trans (by
      rw [show Kernel.freeFile { k with fs := s } = none from hf]))]
  | some f => ?_
  rw [bind_of_ok ((filealloc_eq (k := { k with fs := s })).trans (by
    rw [show Kernel.freeFile { k with fs := s } = some f from hf]))]
  dsimp only
  cases hfd : k.freeFd with
  | none =>
    rw [bind_of_ok ((fdalloc_eq f).trans (by
      rw [show Kernel.freeFd ⟨s, update k.file f { k.file f with ref := 1 }, k.ofile⟩
        = none from hfd]))]
  | some fd => ?_
  rw [bind_of_ok ((fdalloc_eq f).trans (by
    rw [show Kernel.freeFd ⟨s, update k.file f { k.file f with ref := 1 }, k.ofile⟩
      = some fd from hfd]))]
  change Except.ok (some fd, (⟨s, update (update k.file f _) f _,
    update k.ofile fd (some f)⟩ : Kernel)) = _
  rw [update_idem]
  dsimp only
  rw [update_self]
  rfl

lemma openInode_ok : openInode mnt ip omode k = .ok (some fd, k') ↔
    ∃ s f, openTruncate mnt ip omode k.fs = .ok (true, s) ∧ k.freeFile = some f ∧
      k.freeFd = some fd ∧ k' = k.opened s ip omode f fd := by
  constructor
  · intro h
    have h' := h
    obtain ⟨b, k1, h1, h'⟩ := bind_ok.mp h'
    obtain ⟨s, hs, rfl⟩ := onFs_ok.mp h1
    cases b with
    | false =>
      obtain ⟨_, _, -, h'⟩ := bind_ok.mp h'
      cases h'
    | true => ?_
    rw [openInode_eq hs] at h
    split at h
    · obtain ⟨_, _, -, h⟩ := bind_ok.mp h
      cases h
    next f hf =>
    split at h
    · obtain ⟨_, _, -, h⟩ := bind_ok.mp h
      obtain ⟨_, _, -, h⟩ := bind_ok.mp h
      cases h
    next d hd =>
    cases h
    exact ⟨s, f, hs, hf, hd, rfl⟩
  · rintro ⟨s, f, hs, hf, hfd, rfl⟩
    rw [openInode_eq hs, hf, hfd]

lemma sysOpen_ok {m : Mem} {addr sz : Nat} :
    sysOpen mnt task m addr sz omode k = .ok (some fd, k') ↔
      ∃ path ip s, argstr m addr sz = some path ∧
        (wantsWrite omode && task.cred.uid != 0 && isCommandPath m addr) = false ∧
        (if has omode O_CREATE then create mnt task path T_FILE 0 0
          else openNamed mnt task path omode) k.fs = .ok (some ip, s) ∧
        openInode mnt ip omode { k with fs := s } = .ok (some fd, k') := by
  unfold sysOpen
  cases argstr m addr sz with
  | none => exact iff_of_false nofun nofun
  | some path => ?_
  dsimp only
  cases wantsWrite omode && task.cred.uid != 0 && isCommandPath m addr with
  | true => exact iff_of_false nofun fun ⟨_, _, _, _, h, _⟩ => Bool.false_ne_true h.symm
  | false => ?_
  rw [if_neg (by decide), bind_ok]
  constructor
  · rintro ⟨r, k1, h1, h⟩
    obtain ⟨s, hs, rfl⟩ := onFs_ok.mp h1
    cases r with
    | none => cases h
    | some ip => exact ⟨path, ip, s, rfl, rfl, hs, h⟩
  · rintro ⟨_, ip, s, h, -, hs, hopen⟩
    cases h
    exact ⟨some ip, _, onFs_ok.mpr ⟨s, hs, rfl⟩, hopen⟩

lemma openNamed_ok {path : List UInt8} {s t : State} :
    openNamed mnt task path omode s = .ok (some ip, t) ↔
      ∃ u, namei mnt task path s = .ok (some ip, u) ∧ ilock mnt ip u = .ok ((), t) ∧
        ¬ ((wantsWrite omode ∧ inodeAccess task.cred (t.slot ip).fields 2 = false) ∨
          (wantsWrite omode = false ∧ inodeAccess task.cred (t.slot ip).fields 4 = false) ∨
          ((t.slot ip).type ≠ T_FILE ∧ (t.slot ip).type ≠ T_DIR ∧ (t.slot ip).type ≠ T_DEVICE) ∨
          ((t.slot ip).type = T_DIR ∧ omode ≠ 0)) := by
  unfold openNamed
  rw [bind_ok]
  constructor
  · rintro ⟨r, u, hu, h⟩
    cases r with
    | none => cases h
    | some j => ?_
    obtain ⟨_, w, hlock, h⟩ := bind_ok.mp h
    rw [get_bind] at h
    split at h
    · obtain ⟨_, _, -, h⟩ := bind_ok.mp h
      cases h
    next hpass =>
    cases h
    exact ⟨u, hu, hlock, hpass⟩
  · rintro ⟨u, hu, hlock, hpass⟩
    refine ⟨some ip, u, hu, ?_⟩
    dsimp only
    rw [bind_of_ok hlock, get_bind, if_neg hpass]
    rfl

/-! ## The device of an inode -/

/-- Every slot is where it was, with the references it had. -/
def Stays (s t : State) : Prop :=
  ∀ j, (t.slot j).node = (s.slot j).node ∧ (t.slot j).ref = (s.slot j).ref

section Device

variable {s t u : State} {i : Fin NINODE}

lemma Stays.refl (s : State) : Stays s s := fun _ => ⟨rfl, rfl⟩

lemma Stays.trans (h : Stays s t) (h' : Stays t u) : Stays s u :=
  fun j => ⟨(h' j).1.trans (h j).1, (h' j).2.trans (h j).2⟩

lemma Stays.set {e : Slot} (hn : e.node = (s.slot i).node) (hr : e.ref = (s.slot i).ref) :
    Stays s (s.set i e) := by
  intro j
  by_cases hj : j = i
  · subst hj
    rw [set_slot]
    exact ⟨hn, hr⟩
  · rw [set_slot_ne hj]
    exact ⟨rfl, rfl⟩

lemma onDisk_stays {α : Type} {dev : Nat} {p : Prog α} :
    Leads (onDisk dev p) s fun _ t => t.slot = s.slot := by
  intro a t h
  unfold onDisk at h
  split at h
  · cases h
    rfl
  · cases h

lemma Stays.of_slot (h : t.slot = s.slot) : Stays s t := fun j => by rw [h]; exact ⟨rfl, rfl⟩

lemma Stays.behind (hu : u.slot = t.slot) (h : Stays s t) : Stays s u := h.trans (.of_slot hu)

lemma Stays.set_later {e : Slot} (h : t.slot = s.slot) (hn : e.node = (s.slot i).node)
    (hr : e.ref = (s.slot i).ref) : Stays s (t.set i e) :=
  (of_slot h).trans (.set (by rw [h]; exact hn) (by rw [h]; exact hr))

lemma ilock_stays : Leads (ilock mnt i) s fun _ t => 0 < (s.slot i).ref ∧ Stays s t := by
  intro a t h
  by_cases hr : 0 < (s.slot i).ref
  · rw [ilock_eq hr] at h
    split at h
    · next e he =>
      cases h
      unfold fill at he
      split at he
      · cases he
        exact ⟨hr, .set rfl rfl⟩
      have := load_keeps he
      exact ⟨hr, .set this.node this.ref⟩
    · cases h
  · unfold ilock at h
    rw [get_bind, if_pos (by omega)] at h
    cases h

lemma iupdate_stays : Leads (iupdate mnt i) s fun _ t => t.slot = s.slot := by
  refine .get ?_
  dsimp only
  split
  · exact onDisk_stays
  · exact .pure rfl

lemma itrunc_stays : Leads (itrunc mnt i) s fun _ t => Stays s t := by
  refine .get ?_
  dsimp only
  split
  · split
    · exact .pure (.refl s)
    exact onDisk_stays.bind fun x t ht => .modify (.set_later ht rfl rfl)
  · exact onDisk_stays.bind fun x t ht => .modify_bind (iupdate_stays.mono fun _ w hw =>
      .behind hw (.set_later ht rfl rfl))

lemma iput_moves : Leads (iput mnt i) s fun _ t => ∀ j, (t.slot j).node = (s.slot j).node := by
  have hlast : ∀ u : State, Stays s u →
      Leads (modify fun u => u.set i { u.slot i with ref := (u.slot i).ref - 1 } : Sys Unit) u
        fun _ t => ∀ j, (t.slot j).node = (s.slot j).node := by
    intro u hu
    refine .modify fun j => ?_
    by_cases hj : j = i
    · subst hj
      rw [set_slot]
      exact (hu j).1
    · rw [set_slot_ne hj]
      exact (hu j).1
  refine .get ?_
  dsimp only
  split
  · refine itrunc_stays.bind fun _ t ht => .modify_bind (iupdate_stays.bind fun _ w hw => ?_)
    have hw : Stays s w := .behind hw (ht.trans (.set rfl rfl))
    exact .modify_bind (hlast _ (hw.trans (.set rfl rfl)))
  · exact hlast s (.refl s)

lemma iget_leads {dev inum : Nat} : Leads (iget dev inum) s fun k t =>
    (t.slot k).node = ⟨dev, inum⟩ ∧
      ∀ j, 0 < (s.slot j).ref → (t.slot j).node = (s.slot j).node ∧ 0 < (t.slot j).ref := by
  refine .get ?_
  cases hc : s.cached dev inum with
  | some k =>
    obtain ⟨hk, hnode⟩ := State.cached_some hc
    refine .modify_bind (.pure ⟨by rw [set_slot]; exact hnode, fun j hj => ?_⟩)
    by_cases hjk : j = k
    · subst hjk
      rw [set_slot]
      exact ⟨rfl, Nat.succ_pos _⟩
    · rw [set_slot_ne hjk]
      exact ⟨rfl, hj⟩
  | none => ?_
  cases he : s.empty with
  | none => exact .throw
  | some k => ?_
  have hk := State.empty_some he
  refine .modify_bind (.pure ⟨by rw [set_slot]; rfl, fun j hj => ?_⟩)
  rw [set_slot_ne (by rintro rfl; omega)]
  exact ⟨rfl, hj⟩

variable {name : List UInt8}

lemma dirlookup_leads : Leads (dirlookup mnt i name) s fun r t =>
    (r = none → Stays s t) ∧ ∀ k, r = some k → (t.slot k).dev = (s.slot i).dev := by
  have hfound : ∀ (u : State) (inum : Nat), Leads (do
      let j ← iget (s.slot i).dev inum
      pure (some j) : Sys (Option (Fin NINODE))) u fun r t =>
        (r = none → Stays s t) ∧ ∀ k, r = some k → (t.slot k).dev = (s.slot i).dev := by
    intro u inum
    refine iget_leads.bind fun j t ht => .pure ⟨nofun, ?_⟩
    rintro _ ⟨⟩
    exact congrArg Node.dev ht.1
  refine .get ?_
  dsimp only
  split
  · exact .throw
  split
  · split
    · exact .pure ⟨fun _ => .refl s, nofun⟩
    refine onDisk_stays.bind fun r t ht => ?_
    cases r with
    | none => exact .pure ⟨fun _ => .of_slot ht, nofun⟩
    | some inum => exact hfound t inum
  refine onDisk_stays.bind fun p t ht => .modify_bind ?_
  obtain ⟨r, x⟩ := p
  cases r with
  | none => exact .pure ⟨fun _ => .set_later ht rfl rfl, nofun⟩
  | some q => exact hfound _ q.1

lemma walk_dev {cred : Cred} {parent : Bool} (fuel : Nat) :
    ∀ {s : State} {ip : Fin NINODE} {path name : List UInt8},
      Leads (walk mnt cred parent fuel ip path name) s fun r t =>
        ∀ p, r = some p → (t.slot p.1).dev = (s.slot ip).dev := by
  induction fuel with
  | zero =>
    intro s ip path name
    refine .pure ?_
    rintro _ ⟨⟩
    rfl
  | succ fuel ih => ?_
  intro s ip path name
  unfold walk
  cases skipelem path with
  | none =>
    cases parent with
    | true => exact iput_moves.bind fun _ t ht => .pure nofun
    | false => ?_
    refine .pure ?_
    rintro _ ⟨⟩
    rfl
  | some q => ?_
  refine ilock_stays.bind fun _ t ht => .get ?_
  have hdev : (t.slot ip).dev = (s.slot ip).dev := congrArg Node.dev (ht.2 ip).1
  dsimp only
  split
  · exact iput_moves.bind fun _ _ _ => .pure nofun
  split
  · exact ih.mono fun r u hu p hp => (hu p hp).trans hdev
  split
  · refine .pure ?_
    rintro _ ⟨⟩
    exact hdev
  refine dirlookup_leads.bind fun r u hu => ?_
  cases r with
  | none => exact iput_moves.bind fun _ _ _ => .pure nofun
  | some next => ?_
  refine iput_moves.bind fun _ w hw => ih.mono fun r x hx p hp => ?_
  exact ((hx p hp).trans (congrArg Node.dev (hw next))).trans ((hu.2 next rfl).trans hdev)

variable {path : List UInt8}

section

variable (hcwd : (s.slot task.cwd).dev ≠ DEVFS_DEVICE)
include hcwd

lemma startOf_dev : Leads (startOf mnt task path) s fun r t => (t.slot r.1).dev ≠ DEVFS_DEVICE := by
  unfold startOf
  split
  · split
    · refine iget_leads.bind fun k t ht => .pure ?_
      rw [show (t.slot k).dev = FNU_DATA_DEVICE from congrArg Node.dev ht.1]
      decide
    refine iget_leads.bind fun k t ht => .pure ?_
    rw [show (t.slot k).dev = ROOTDEV from congrArg Node.dev ht.1]
    decide
  · refine Leads.bind (P := fun k t => (t.slot k).dev ≠ DEVFS_DEVICE) ?_ fun k t ht => .pure ht
    refine .get (.modify_bind (.pure ?_))
    rw [set_slot]
    exact hcwd

lemma namex_dev {parent : Bool} : Leads (namex mnt task path parent) s fun r t => ∀ p, r = some p →
      ((t.slot p.1).dev ≠ DEVFS_DEVICE ∨
        (parent = false ∧ devfsPath path ≠ 0 ∧ (t.slot p.1).node = ⟨DEVFS_DEVICE, devfsPath path⟩)) := by
  unfold namex
  split
  · next hdev =>
    refine iget_leads.bind fun k t ht => .pure ?_
    rintro _ ⟨⟩
    rw [Bool.and_eq_true, bne_iff_ne] at hdev
    exact .inr ⟨by simpa using hdev.1, hdev.2, ht.1⟩
  · refine (startOf_dev hcwd).bind fun r t ht => (walk_dev _).mono fun r' u hu p hp => ?_
    exact .inl (hu p hp ▸ ht)

lemma namei_dev : Leads (namei mnt task path) s fun r t => ∀ k, r = some k →
      ((t.slot k).dev ≠ DEVFS_DEVICE ∨
        (devfsPath path ≠ 0 ∧ (t.slot k).node = ⟨DEVFS_DEVICE, devfsPath path⟩)) := by
  refine (namex_dev hcwd).bind fun r t ht => .pure fun k hk => ?_
  obtain ⟨p, hp, rfl⟩ := Option.map_eq_some_iff.mp hk
  exact (ht p hp).imp_right fun h => h.2

lemma nameiparent_dev : Leads (nameiparent mnt task path) s fun r t => ∀ p, r = some p →
      (t.slot p.1).dev ≠ DEVFS_DEVICE :=
  (namex_dev hcwd).mono fun _ _ ht p hp => (ht p hp).resolve_right fun h => nomatch h.1

end

lemma dirlink_stays {inum : Nat} :
    Leads (dirlink mnt i name inum) s fun r t => r → Stays s t := by
  refine .get ?_
  split
  · exact .pure nofun
  refine dirlookup_leads.bind fun r t ht => ?_
  cases r with
  | some k => exact iput_moves.bind fun _ _ _ => .pure nofun
  | none => ?_
  have hst := ht.1 rfl
  refine .get (onDisk_stays.bind fun x u hu => ?_)
  exact .modify_bind (.pure fun _ => hst.trans (.set_later hu rfl rfl))

/-- An inode on the device `dev`. -/
def Lands (dev : Nat) (r : Option (Fin NINODE)) (t : State) : Prop :=
  ∀ k, r = some k → (t.slot k).dev = dev

variable {type : Nat}

lemma createExisting_dev {dp : Fin NINODE} :
    Leads (createExisting mnt dp i type) s (Lands (s.slot i).dev) := by
  refine iput_moves.bind fun _ t ht => ilock_stays.bind fun _ u hu => .get ?_
  split
  · refine .pure ?_
    rintro _ ⟨⟩
    exact congrArg Node.dev ((hu.2 i).1.trans (ht i))
  · exact iput_moves.bind fun _ _ _ => .pure nofun

lemma createUfs2_dev : Leads (createUfs2 mnt i name type) s (Lands (s.slot i).dev) := by
  have hfail : ∀ u, Leads (do
      iput mnt i
      pure none : Sys (Option (Fin NINODE))) u (Lands (s.slot i).dev) :=
    fun u => iput_moves.bind fun _ _ _ => .pure nofun
  have hnew : ∀ (u : State) (inum : Nat), Leads (do
      let ip ← iget (s.slot i).dev inum
      iput mnt i
      ilock mnt ip
      pure (some ip) : Sys (Option (Fin NINODE))) u (Lands (s.slot i).dev) := by
    intro u inum
    refine iget_leads.bind fun k t ht => iput_moves.bind fun _ w hw =>
      ilock_stays.bind fun _ x hx => .pure ?_
    rintro _ ⟨⟩
    exact congrArg Node.dev ((hx.2 k).1.trans ((hw k).trans ht.1))
  refine .get ?_
  dsimp only
  split
  · refine onDisk_stays.bind fun r t ht => ?_
    cases r with
    | none => exact hfail t
    | some inum => ?_
    dsimp only
    split
    · exact Leads.bind .trivial fun _ u _ => hnew u inum
    · exact hnew t inum
  · exact hfail s

lemma createDots_stays {dp : Fin NINODE} : Leads (createDots mnt dp i) s fun _ t =>
    Stays s t := by
  refine .get (.modify_bind (iupdate_stays.bind fun _ u hu => .get ?_))
  have hsu : Stays s u := .behind hu (.set rfl rfl)
  refine dirlink_stays.bind fun b w hw => ?_
  cases b with
  | false => exact .throw
  | true => ?_
  refine dirlink_stays.bind fun b x hx => ?_
  cases b with
  | false => exact .throw
  | true => exact .pure ((hsu.trans (hw rfl)).trans (hx rfl))

lemma createNative_dev {cred : Cred} {major minor : Nat} :
    Leads (createNative mnt cred i name type major minor) s (Lands (s.slot i).dev) := by
  refine .get ?_
  refine Leads.bind (P := fun r t => ∀ k, r = some k → (t.slot k).dev = (s.slot i).dev) ?_ ?_
  · unfold ialloc
    split
    · exact .pure nofun
    refine onDisk_stays.bind fun inum t ht => iget_leads.bind fun k u hu => .pure ?_
    rintro _ ⟨⟩
    exact congrArg Node.dev hu.1
  intro r t ht
  cases r with
  | none => exact .throw
  | some k => ?_
  have hend : ∀ w, Stays t w → Leads (do
      let s ← get
      if !(← dirlink mnt i name (s.slot k).inum) then throw .createDirlink
      iput mnt i
      pure (some k) : Sys (Option (Fin NINODE))) w (Lands (s.slot i).dev) := by
    intro w hw
    refine .get (dirlink_stays.bind fun b x hx => ?_)
    cases b with
    | false => exact .throw
    | true => ?_
    refine iput_moves.bind fun _ z hz => .pure ?_
    rintro _ ⟨⟩
    exact (congrArg Node.dev ((hz k).trans ((hw.trans (hx rfl)) k).1)).trans (ht k rfl)
  refine ilock_stays.bind fun _ u hu => .get ?_
  refine .modify_bind (iupdate_stays.bind fun _ x hx => ?_)
  have htx : Stays t x := .behind hx (hu.2.trans (.set rfl rfl))
  split
  · exact createDots_stays.bind fun _ y hy => hend y (htx.trans hy)
  · exact hend x htx

lemma create_dev (hcwd : (s.slot task.cwd).dev ≠ DEVFS_DEVICE) {major minor : Nat} :
    Leads (create mnt task path type major minor) s fun r t => ∀ k, r = some k →
      (t.slot k).dev ≠ DEVFS_DEVICE := by
  refine (nameiparent_dev hcwd).bind fun r t ht => ?_
  cases r with
  | none => exact .pure nofun
  | some p => ?_
  obtain ⟨dp, name⟩ := p
  refine ilock_stays.bind fun _ u hu => .get ?_
  have hdev : (u.slot dp).dev ≠ DEVFS_DEVICE := by
    rw [show (u.slot dp).dev = (t.slot dp).dev from congrArg Node.dev (hu.2 dp).1]
    exact ht _ rfl
  split
  · exact iput_moves.bind fun _ _ _ => .pure nofun
  refine dirlookup_leads.bind fun r w hw => ?_
  cases r with
  | some k =>
    refine createExisting_dev.mono fun r x hx j hj => ?_
    rw [hx j hj, hw.2 k rfl]
    exact hdev
  | none => ?_
  have hwdev : (w.slot dp).dev = (u.slot dp).dev := congrArg Node.dev ((hw.1 rfl) dp).1
  dsimp only
  split
  · exact createUfs2_dev.mono fun r x hx j hj => by rw [hx j hj, hwdev]; exact hdev
  · exact createNative_dev.mono fun r x hx j hj => by rw [hx j hj, hwdev]; exact hdev

end Device

end Proninx.Fs
