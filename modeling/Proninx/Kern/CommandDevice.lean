import Proninx.Kern.Namei
import Proninx.Kern.OpenCall

/-!
# The supervisor's command device

Two tests stand between a user and the device: `sys_open` refuses its
names to writers other than root, and `inode_access` is asked like for any
inode. `sys_open` compares one byte too many, the one behind the
terminator, and devfs gives the inode the owner and the mode its slot
happens to hold. `Slips` is what a call needs to get past both.
-/

namespace Proninx.Fs

open Bool ByteMem List Native State Stateful Ufs2

def commandNode : Node := ⟨DEVFS_DEVICE, DEVFS_FNU_COMMAND_INO⟩

def CommandName (path : List UInt8) : Prop :=
  path = ascii "/fnusvc.command" ∨ path = ascii "fnusvc.command"

/-! ## The two tests for the name -/

section Name

variable {path l : List UInt8} {m : Mem} {addr : Nat}

lemma ascii_command_nonzero :
    Nonzero (ascii "fnusvc.command") ∧ Nonzero (ascii "/fnusvc.command") := by decide

/-- `strncmp(path, text, n) == 0 && path[n] == 0` with `n` the length of the text. -/
lemma startsWith_iff {text : String} (hl : Nonzero l) (ht : Nonzero (ascii text)) :
    (startsWith l text (ascii text).length ∧ ofList l (ascii text).length = 0) ↔
      l = ascii text := by
  constructor
  · rintro ⟨hstart, hzero⟩
    have hle : l.length ≤ (ascii text).length := by
      by_contra hlt
      exact hl.ofList_ne (by omega) hzero
    exact (strncmpEq_ofList hl ht (by omega)).mp hstart
  · rintro rfl
    exact ⟨(strncmpEq_ofList hl ht (.inr (.inr ⟨rfl, rfl⟩))).mpr rfl, ofList_ge le_rfl⟩

lemma unslash_nonzero (h : Nonzero path) : Nonzero (unslash path) := by
  unfold unslash
  split
  · exact fun b hb => h b (mem_of_mem_drop hb)
  · exact h

lemma unslash_command : unslash path = ascii "fnusvc.command" ↔ CommandName path := by
  unfold unslash CommandName
  constructor
  · intro h
    split at h
    · next h0 =>
      cases path with
      | nil => cases h0
      | cons b tl => ?_
      obtain rfl : b = slash := h0
      exact .inl (by rw [show tl = ascii "fnusvc.command" from h]; decide)
    · exact .inr h
  · rintro (rfl | rfl) <;> decide

lemma devfsPath_command (h : Nonzero path) :
    devfsPath path = DEVFS_FNU_COMMAND_INO ↔ CommandName path := by
  constructor
  · intro hdev
    rw [← unslash_command]
    unfold devfsPath at hdev
    split at hdev
    · cases hdev
    dsimp only at hdev
    split at hdev
    · next inum htty =>
      obtain ⟨p, -, hp⟩ := Option.bind_eq_some_iff.mp htty
      split at hp
      · cases hp
        unfold DEVFS_TTY_INO DEVFS_FNU_COMMAND_INO at hdev
        omega
      · cases hp
    · split at hdev
      · next hcmd => exact (startsWith_iff (unslash_nonzero h) ascii_command_nonzero.1).mp hcmd
      split at hdev
      · cases hdev
      · split at hdev <;> cases hdev
  · rintro (rfl | rfl) <;> decide

lemma isCommandPath_iff (h : IsString m addr path) : isCommandPath m addr ↔
    CommandName path ∧ m (addr + path.length + 1) = 0 := by
  have hcmp : ∀ (text : String) (n : Nat), Nonzero (ascii text) → (ascii text).length < n →
      (strncmpEq (shift m addr) (ofList (ascii text)) n 0 ↔ path = ascii text) := by
    intro text n ht hn
    have hend : shift m addr path.length = 0 := by rw [shift, h.bytes _ le_rfl, ofList_ge le_rfl]
    rw [@strncmpEq_congr (shift m addr) (ofList path) _ path.length h.bytes hend n 0
      (Nat.zero_le _)]
    exact strncmpEq_ofList h.nonzero ht (.inr (.inl hn))
  unfold isCommandPath CommandName
  rw [or_eq_true, and_eq_true, and_eq_true, beq_iff_eq, beq_iff_eq,
    hcmp _ 16 ascii_command_nonzero.2 (by decide), hcmp _ 15 ascii_command_nonzero.1 (by decide)]
  constructor
  · rintro (⟨rfl, hz⟩ | ⟨rfl, hz⟩)
    · exact ⟨.inl rfl, hz⟩
    · exact ⟨.inr rfl, hz⟩
  rintro ⟨rfl | rfl, hz⟩
  · exact .inl ⟨rfl, hz⟩
  · exact .inr ⟨rfl, hz⟩

end Name

/-! ## The two tests together -/

/-- The slot `iget` gives to the device. -/
def State.commandSlot (s : State) : Option (Fin NINODE) :=
  (s.cached DEVFS_DEVICE DEVFS_FNU_COMMAND_INO).orElse fun _ => s.empty

/-- The device in the slot `e` may be written to. -/
def Slot.grants (e : Slot) (cred : Cred) : Bool :=
  inodeAccess cred (e.loadDevice FNU_STATE FNU_STATE_COMMAND).fields 2

/-- Where the device is in the cache, it has been made a device. -/
def DeviceLoaded (s : State) : Prop :=
  ∀ i, 0 < (s.slot i).ref → (s.slot i).node = commandNode → (s.slot i).valid →
    (s.slot i).type = T_DEVICE ∧ (s.slot i).fs = .devfs

section Command

variable {mnt : Mount} {task : Task} {s t : State} {path : List UInt8} {i : Fin NINODE}
  {omode : Nat}

lemma namei_device (h : devfsPath path ≠ 0) : namei mnt task path s
      = (iget DEVFS_DEVICE (devfsPath path) >>= fun i => pure (some i) : Sys _) s := by
  unfold namei namex
  rw [if_pos (by simpa using h)]
  simp only [bind_assoc, pure_bind, Option.map_some]

/-- A slot that holds the device, before `ilock`. -/
structure Pending (s : State) (i : Fin NINODE) (e : Slot) : Prop where
  node : e.node = commandNode
  ref : 0 < e.ref
  owner : e.uid = (s.slot i).uid ∧ e.gid = (s.slot i).gid ∧ e.mode = (s.slot i).mode
  loaded : e.valid → e.type = T_DEVICE ∧ e.fs = .devfs

lemma iget_command (hl : DeviceLoaded s) :
    match s.commandSlot with
    | some i => ∃ e, iget DEVFS_DEVICE DEVFS_FNU_COMMAND_INO s = .ok (i, s.set i e) ∧ Pending s i e
    | none => ∃ x, iget DEVFS_DEVICE DEVFS_FNU_COMMAND_INO s = .error x := by
  unfold commandSlot iget
  rw [get_bind]
  cases hc : s.cached DEVFS_DEVICE DEVFS_FNU_COMMAND_INO with
  | some i =>
    obtain ⟨hr, hn⟩ := State.cached_some hc
    exact ⟨_, rfl, hn, Nat.succ_pos _, ⟨rfl, rfl, rfl⟩, hl i hr hn⟩
  | none => ?_
  cases he : s.empty with
  | some i => exact ⟨_, rfl, rfl, one_pos, ⟨rfl, rfl, rfl⟩, nofun⟩
  | none => exact ⟨_, rfl⟩

lemma Pending.ilock {e : Slot} (h : Pending s i e) : ∃ f, ilock mnt i (s.set i e)
    = .ok ((), s.set i f) ∧ f.node = commandNode ∧ f.type = T_DEVICE ∧ f.fs = .devfs ∧
      ∀ cred, inodeAccess cred f.fields 2 = (s.slot i).grants cred := by
  have hacc : ∀ f : Slot, f.type = T_DEVICE → f.uid = e.uid → f.gid = e.gid → f.mode = e.mode →
      ∀ cred, inodeAccess cred f.fields 2 = (s.slot i).grants cred := by
    intro f ht hu hg hm cred
    unfold Slot.grants inodeAccess Slot.fields Slot.loadDevice
    rw [ht, hu, hg, hm, h.owner.1, h.owner.2.1, h.owner.2.2]
  have hset : ∀ f, (s.set i e).set i f = s.set i f := fun f => by
    unfold State.set
    rw [Function.update_idem]
  rw [ilock_eq (by rw [set_slot]; exact h.ref), State.set_slot]
  unfold fill
  by_cases hv : e.valid
  · obtain ⟨ht, hfs⟩ := h.loaded hv
    rw [if_pos hv]
    exact ⟨e, congrArg (fun u => Except.ok ((), u)) (hset e), h.node, ht, hfs, hacc e ht rfl rfl rfl⟩
  have hkind : kind mnt e.dev e.inum = .device FNU_STATE FNU_STATE_COMMAND := by
    have hd : e.dev = DEVFS_DEVICE := congrArg Node.dev h.node
    have hi : e.inum = DEVFS_FNU_COMMAND_INO := congrArg Node.inum h.node
    rw [hd, hi]
    rfl
  rw [if_neg hv]
  unfold load
  rw [hkind]
  exact ⟨_, congrArg (fun u => Except.ok ((), u)) (hset _), h.node, rfl, rfl,
    hacc _ rfl rfl rfl rfl⟩

section

variable (hl : DeviceLoaded s) (hpath : devfsPath path = DEVFS_FNU_COMMAND_INO)
  (hw : wantsWrite omode = true)
include hl hpath hw

lemma openNamed_command (hslot : s.commandSlot = some i)
    (hgrant : (s.slot i).grants task.cred) :
    ∃ t, openNamed mnt task path omode s = .ok (some i, t) ∧ (t.slot i).node = commandNode ∧
      (t.slot i).fs = .devfs := by
  have hget := iget_command hl
  rw [hslot] at hget
  obtain ⟨e, hrun, hpend⟩ := hget
  obtain ⟨f, hf, hn, ht, hfs, hacc⟩ := @Pending.ilock mnt s _ _ hpend
  refine ⟨s.set i f, openNamed_ok.mpr ⟨s.set i e, ?_, hf, ?_⟩, ?_⟩
  · rw [namei_device (by rw [hpath]; decide), hpath]
    exact bind_of_ok hrun
  · rw [set_slot, ht, hacc, hgrant, hw]
    simp [T_DEVICE, T_DIR]
  rw [set_slot]
  exact ⟨hn, hfs⟩

lemma openNamed_command_inv (h : openNamed mnt task path omode s = .ok (some i, t)) :
    s.commandSlot = some i ∧ (s.slot i).grants task.cred := by
  obtain ⟨u, hu, hlock, hpass⟩ := openNamed_ok.mp h
  rw [namei_device (by rw [hpath]; decide), hpath] at hu
  obtain ⟨j, w, hrun', hj⟩ := bind_ok.mp hu
  cases hj
  have hget := iget_command hl
  cases hslot : s.commandSlot with
  | none =>
    rw [hslot] at hget
    obtain ⟨x, hx⟩ := hget
    rw [hx] at hrun'
    cases hrun'
  | some j => ?_
  rw [hslot] at hget
  obtain ⟨e, hrun, hpend⟩ := hget
  rw [hrun] at hrun'
  cases hrun'
  obtain ⟨f, hf, -, -, -, hacc⟩ := @Pending.ilock mnt s _ _ hpend
  rw [hf] at hlock
  cases hlock
  rw [set_slot] at hpass
  refine ⟨rfl, ?_⟩
  rw [← hacc]
  by_contra hno
  exact hpass (.inl ⟨hw, by simpa using hno⟩)

end

lemma openTruncate_stays : Leads (openTruncate mnt i omode) s fun _ t => Stays s t := by
  refine .get ?_
  dsimp only
  split
  · split
    · exact .pure (.refl s)
    refine onDisk_stays.bind fun r t ht => ?_
    obtain ⟨r, x⟩ := r
    cases r with
    | none =>
      exact .modify_bind (.pure (.set_later ht rfl rfl))
    | some _ => exact .modify_bind (.pure (.set_later ht rfl rfl))
  · exact .pure (.refl s)

variable {m : Mem} {addr sz : Nat} {k : Kernel}

variable (mnt) in
/-- The call returns a descriptor of the device for writing. -/
def Exposes (task : Task) (m : Mem) (addr sz omode : Nat) (k : Kernel) : Prop :=
  ∃ fd k' f, sysOpen mnt task m addr sz omode k = .ok (some fd, k') ∧ k'.ofile fd = some f ∧
    (k'.file f).writable = true ∧ (k'.fs.slot (k'.file f).ip).node = commandNode

/-- A way past both tests. -/
structure Slips (task : Task) (m : Mem) (addr sz omode : Nat) (k : Kernel) : Prop where
  writes : wantsWrite omode = true
  opens : has omode O_CREATE = false
  name : ∃ path, argstr m addr sz = some path ∧ CommandName path ∧
    m (addr + path.length + 1) ≠ 0
  slot : ∃ i, k.fs.commandSlot = some i ∧ (k.fs.slot i).grants task.cred = true
  room : (∃ f, k.freeFile = some f) ∧ ∃ fd, k.freeFd = some fd

lemma argstr_some {path : List UInt8} (h : argstr m addr sz = some path) :
    IsString m addr path := by
  unfold argstr at h
  split at h
  · cases h
  · exact cstring_some h

lemma Slips.exposes (hl : DeviceLoaded k.fs) (h : Slips task m addr sz omode k) :
    Exposes mnt task m addr sz omode k := by
  obtain ⟨path, hargs, hname, hbyte⟩ := h.name
  obtain ⟨i, hslot, hgrant⟩ := h.slot
  obtain ⟨⟨f, hf⟩, fd, hfd⟩ := h.room
  have hstr := argstr_some hargs
  obtain ⟨t, ht, hnode, hfs⟩ := @openNamed_command mnt task k.fs path i omode hl
    ((devfsPath_command hstr.nonzero).mpr hname) h.writes hslot hgrant
  have hfilter : isCommandPath m addr = false := by
    rw [Bool.eq_false_iff]
    exact fun hc => hbyte ((isCommandPath_iff hstr).mp hc).2
  have htrunc : openTruncate mnt i omode t = .ok (true, t) := by
    unfold openTruncate
    rw [get_bind, if_neg (by rw [hfs]; exact fun hc => nomatch hc.2)]
    rfl
  refine ⟨fd, _, f, sysOpen_ok.mpr ⟨path, i, t, hargs, ?_, ?_,
    openInode_ok.mpr ⟨t, f, htrunc, hf, hfd, rfl⟩⟩, Kernel.opened_ofile, ?_, ?_⟩
  · rw [hfilter, Bool.and_false]
  · rw [h.opens]
    exact ht
  · rw [Kernel.opened_file]
    exact h.writes
  rw [Kernel.opened_file]
  exact hnode

/-- A user gets a descriptor of the command device for writing exactly
when the byte behind the name is not zero and the slot the device gets
lets the user write. -/
theorem command_device_exposed (hcwd : (k.fs.slot task.cwd).dev ≠ DEVFS_DEVICE)
    (hl : DeviceLoaded k.fs) (huid : task.cred.uid ≠ 0) :
    Exposes mnt task m addr sz omode k ↔ Slips task m addr sz omode k := by
  refine ⟨?_, Slips.exposes hl⟩
  rintro ⟨fd, k', f, hrun, hof, hwrite, hnode⟩
  obtain ⟨path, ip, s, hargs, hfilter, hfind, hopen⟩ := sysOpen_ok.mp hrun
  obtain ⟨t, f', htrunc, hf, hfd, rfl⟩ := openInode_ok.mp hopen
  rw [Kernel.opened_ofile] at hof
  cases hof
  rw [Kernel.opened_file] at hwrite hnode
  have hwrite : wantsWrite omode = true := hwrite
  have hnode : (s.slot ip).node = commandNode := by
    rw [← hnode]
    exact ((openTruncate_stays _ _ htrunc) ip).1.symm
  have hdev : (s.slot ip).dev = DEVFS_DEVICE := congrArg Node.dev hnode
  have hstr := argstr_some hargs
  cases hc : has omode O_CREATE with
  | true =>
    rw [hc] at hfind
    exact absurd hdev (create_dev hcwd _ _ hfind ip rfl)
  | false => ?_
  rw [hc] at hfind
  have hfind : openNamed mnt task path omode k.fs = .ok (some ip, s) := hfind
  obtain ⟨u, hu, hlock, -⟩ := openNamed_ok.mp hfind
  have hun : (u.slot ip).node = commandNode := by
    rw [← hnode]
    exact (((ilock_stays _ _ hlock).2) ip).1.symm
  have hpath : devfsPath path = DEVFS_FNU_COMMAND_INO := by
    rcases namei_dev hcwd _ _ hu ip rfl with hne | ⟨-, heq⟩
    · exact absurd (congrArg Node.dev hun) hne
    rw [hun] at heq
    exact (congrArg Node.inum heq).symm
  have hname := (devfsPath_command hstr.nonzero).mp hpath
  obtain ⟨hslot, hgrant⟩ := openNamed_command_inv hl hpath hwrite hfind
  refine ⟨hwrite, hc, ⟨path, hargs, hname, fun hz => ?_⟩, ⟨ip, hslot, hgrant⟩, ⟨f, hf⟩, fd, hfd⟩
  rw [hwrite, bne_iff_ne.mpr huid, (isCommandPath_iff hstr).mpr ⟨hname, hz⟩] at hfilter
  cases hfilter

end Command

/-! ## A user who has looked at a file of their own -/

/-- The name of the device, with a byte behind its terminator. -/
def commandBytes : Mem := ofList (ascii "/fnusvc.command" ++ [0, 1])

lemma NINODE_pos : 0 < NINODE := by decide

/-- No file is open. -/
def Kernel.idle (s : State) : Kernel :=
  ⟨s, fun _ => ⟨.none, 0, false, false, ⟨0, NINODE_pos⟩, 0⟩, fun _ => none⟩

/-- The second slot has been used for a file of user 1000. -/
def visited : State :=
  (rootCwd ownedDisk).set ⟨1, by decide⟩ { Slot.zero with uid := 1000, gid := 100, mode := 0o600 }

lemma visited_loaded : DeviceLoaded visited := by
  intro i hr hn
  by_cases h1 : i = ⟨1, by decide⟩
  · subst h1
    exact absurd hr (lt_irrefl 0)
  rw [visited, set_slot_ne h1] at hr hn
  by_cases h0 : i = ⟨0, by decide⟩
  · subst h0
    cases hn
  · exact absurd (rootCwd_free _ h0) hr.ne'

theorem command_device_visited :
    Exposes plainMount userTask commandBytes 0 17 O_WRONLY (.idle visited) := by
  refine (command_device_exposed (by decide) visited_loaded (by decide)).mpr ?_
  refine ⟨by decide, by decide, ⟨_, rfl, .inl ?_, ?_⟩, ⟨⟨1, by decide⟩, ?_, ?_⟩,
    ⟨⟨0, by decide⟩, ?_⟩, ⟨0, by decide⟩, ?_⟩ <;> decide +kernel

/-- The user's file is looked at, which leaves its owner and mode in the
slot that the device gets next. -/
def visitThenOpen : Call (Option (Fin NOFILE)) := do
  onFs (visit ROOTDEV 5)
  sysOpen plainMount userTask commandBytes 0 17 O_WRONLY

/-- From a fresh cache, user 1000 gets a descriptor for writing. -/
theorem command_device_opened :
    (visitThenOpen (.idle (rootCwd ownedDisk))).map (fun p => p.1.bind fun fd =>
      (p.2.ofile fd).map fun f => ((p.2.file f).writable, (p.2.fs.slot (p.2.file f).ip).node))
        = .ok (some (true, commandNode)) := by
  decide +kernel

end Proninx.Fs
