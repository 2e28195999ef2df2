import Proninx.Kern.Path
import Proninx.Kern.Ufs2Place

/-!
# The tree on the disks, and references into it

What a walk over path names may rely on. `inodeOf` and `entryOf` read an
inode and an entry of a directory off the disks; `Tree` is a set of nodes
that is closed under them. `Refs s₀ s l` says what may have happened to
the cache since `s₀`: inodes were filled in, and one reference is held for
each slot of `l`. `iget`, `ilock` and `iput` keep it with one slot more,
the same slots, and one slot less.
-/

namespace Proninx

namespace Ufs2

variable {v : Volume} {d : Disk}

lemma scanDirectory_reads {α : Type} {x : Inode} {test : ByteMem.Mem → Nat → Bool}
    {found : (fileOffset toRead : Nat) → ByteMem.Mem → Nat → Prog (Option α)}
    (hfound : ∀ fo n m o, (found fo n m o).Ensures d fun _ d' => d' = d) (fuel : Nat) :
    ∀ fileOffset, (scanDirectory v x test found (pure none) fuel fileOffset).Ensures d
      fun _ d' => d' = d := by
  induction fuel with
  | zero => exact fun _ => .pure rfl
  | succ fuel ih => ?_
  intro fileOffset
  unfold scanDirectory
  split
  · refine Prog.Ensures.andThen (read_reads x _ _ d) (fun _ h => h) ?_
    rintro block d1 rfl
    split
    · exact .pure rfl
    · exact hfound _ _ _ _
    · exact ih _
  · exact .pure rfl

lemma lookup_returns (dp : Nat) (name : List UInt8) (d : Disk) :
    (lookup v dp name).Ensures d fun _ d' => d' = d := by
  unfold lookup
  split
  · exact .pure rfl
  refine Prog.Ensures.andThen (P := fun _ d1 => d1 = d)
    (.of_run (readInode_run v dp d) rfl) (fun _ h => h) ?_
  rintro x d1 rfl
  split
  · exact .pure rfl
  · exact scanDirectory_reads (fun _ _ _ _ => .pure rfl) _ _

def lookupAt (v : Volume) (d : Disk) (dp : Nat) (name : List UInt8) : Option Nat :=
  match (lookup v dp name).run d with
  | .ok (r, _) => r
  | .error _ => none

lemma lookup_run (dp : Nat) (name : List UInt8) (d : Disk) :
    (lookup v dp name).run d = .ok (lookupAt v d dp name, d) := by
  obtain ⟨r, d', hrun, rfl⟩ := lookup_returns (v := v) dp name d
  rw [lookupAt, hrun]

end Ufs2

namespace Fs

open ByteMem List Native State Stateful Ufs2

variable (mnt : Mount)

/-! ## Nodes -/

structure Node where
  dev : Nat
  inum : Nat
  deriving DecidableEq, Repr

def Slot.node (e : Slot) : Node := ⟨e.dev, e.inum⟩

open Slot

/-- An inode as `ilock` reads it into a slot nobody has used. -/
def inodeOf (disk : Nat → Disk) (n : Node) : Option Slot :=
  (load mnt (disk n.dev) n.dev n.inum (zero.recycle n.dev n.inum)).toOption

/-- The inode number of a directory's entry. -/
def entryOf (disk : Nat → Disk) (n : Node) (name : List UInt8) : Option Nat :=
  match mnt.volume n.dev with
  | some v => lookupAt v (disk n.dev) n.inum name
  | none => (findEntry (disk n.dev) (dinodeAt mnt.sb (disk n.dev) n.inum) name).map Prod.fst

def IsDir (disk : Nat → Disk) (n : Node) : Prop :=
  ∃ e, inodeOf mnt disk n = some e ∧ e.type = T_DIR

/-- Nodes that can be read, with everything their directories name. -/
structure Tree (disk : Nat → Disk) (T : Node → Prop) : Prop where
  volume : ∀ n, T n → n.dev ≠ DEVFS_DEVICE
  allocated : ∀ n, T n → ∃ e, inodeOf mnt disk n = some e
  whole : ∀ n, T n → IsDir mnt disk n → mnt.volume n.dev = none →
    DirOk (disk n.dev) (dinodeAt mnt.sb (disk n.dev) n.inum)
  closed : ∀ n name m, T n → IsDir mnt disk n → entryOf mnt disk n name = some m → T ⟨n.dev, m⟩

/-! ## Filling a slot -/

section Load

variable {mnt} {d : Disk} {dev inum : Nat} {e e' f g : Slot}

/-- Two slots with one inode. Nobody gets at the owner of an inode that
could not be read. -/
structure Like (f g : Slot) : Prop where
  type : f.type = g.type
  size : f.size = g.size
  nlink : f.nlink = g.nlink
  fs : f.fs = g.fs
  data : f.data = g.data
  owner : g.type ≠ 0 → f.uid = g.uid ∧ f.gid = g.gid ∧ f.mode = g.mode

lemma Like.access (h : Like f g) (cred : Cred) (mask : Nat) :
    inodeAccess cred f.fields mask = inodeAccess cred g.fields mask := by
  unfold inodeAccess fields
  rw [h.type]
  split
  · rfl
  next h0 =>
  obtain ⟨hu, hg, hm⟩ := h.owner h0
  rw [hu, hg, hm]

lemma Like.dinode (h : Like f g) (h0 : g.type ≠ 0) : f.dinode = g.dinode := by
  obtain ⟨hu, hg, hm⟩ := h.owner h0
  unfold Slot.dinode
  rw [h.type, h.size, h.nlink, h.data, hu, hg, hm]

lemma kind_of_ne (h : dev ≠ DEVFS_DEVICE) : kind mnt dev inum =
    match mnt.volume dev with
    | some v => .ufs2 v
    | none => .native := by
  refine (if_neg fun hc => h hc.1).trans ((if_neg fun hc => h hc.1).trans
    ((if_neg fun hc => h hc.1).trans ?_))
  cases mnt.volume dev <;> rfl

lemma load_like (hdev : dev ≠ DEVFS_DEVICE) (h : load mnt d dev inum e = .ok f) (e' : Slot) :
    ∃ g, load mnt d dev inum e' = .ok g ∧ Like f g := by
  unfold load at h ⊢
  rw [kind_of_ne hdev] at h ⊢
  cases hv : mnt.volume dev with
  | some v =>
    rw [hv] at h
    dsimp only at h ⊢
    cases hx : inodeAt v (v.bytes d) inum with
    | none =>
      rw [hx] at h
      cases h
      exact ⟨_, rfl, rfl, rfl, rfl, rfl, rfl, fun h0 => absurd rfl h0⟩
    | some x => ?_
    rw [hx] at h
    cases h
    refine ⟨_, rfl, ?_⟩
    split
    · exact ⟨rfl, rfl, rfl, rfl, rfl, fun _ => ⟨rfl, rfl, rfl⟩⟩
    · exact ⟨rfl, rfl, rfl, rfl, rfl, fun h0 => absurd rfl h0⟩
  | none =>
    rw [hv] at h
    dsimp only at h ⊢
    split at h
    · cases h
    next h0 =>
    cases h
    rw [if_neg h0]
    exact ⟨_, rfl, rfl, rfl, rfl, rfl, rfl, fun _ => ⟨rfl, rfl, rfl⟩⟩

lemma Slot.withDinode_self {major minor : Nat} {addrs : Nat → Nat}
    (h : e.data = .native major minor addrs) : e.withDinode e.dinode = e := by
  cases e
  cases h
  rfl

lemma load_ufs2 (hdev : dev ≠ DEVFS_DEVICE) {v : Volume} (hv : mnt.volume dev = some v)
    (h : load mnt d dev inum e = .ok f) : f.fs = .ufs2 := by
  unfold load at h
  rw [kind_of_ne hdev, hv] at h
  dsimp only at h
  split at h
  · cases h
    split <;> rfl
  cases h
  rfl

lemma load_native (hdev : dev ≠ DEVFS_DEVICE) (hv : mnt.volume dev = none)
    (h : load mnt d dev inum e = .ok f) : f = e.loadNative (dinodeAt mnt.sb d inum) := by
  unfold load at h
  rw [kind_of_ne hdev, hv] at h
  dsimp only at h
  split at h
  · cases h
  cases h
  rfl

variable {disk : Nat → Disk}

lemma inodeOf_some {n : Node} : inodeOf mnt disk n = some g ↔
    load mnt (disk n.dev) n.dev n.inum (zero.recycle n.dev n.inum) = .ok g :=
  Stateful.toOption_eq_some

/-- An inode of a UFS2 volume can always be read, if only as one that
cannot be used. -/
lemma inodeOf_ufs2 {n : Node} {v : Volume} (hdev : n.dev ≠ DEVFS_DEVICE)
    (hv : mnt.volume n.dev = some v) : inodeOf mnt disk n =
      some (match inodeAt v (v.bytes (disk n.dev)) n.inum with
        | some x => if Usable x then (zero.recycle n.dev n.inum).loadUfs2 x
            else (zero.recycle n.dev n.inum).loadInvalid
        | none => (zero.recycle n.dev n.inum).loadInvalid) := by
  rw [inodeOf_some]
  unfold load
  rw [kind_of_ne hdev, hv]
  dsimp only
  cases inodeAt v (v.bytes (disk n.dev)) n.inum <;> rfl

lemma Tree.ufs2 {v : Volume} (hdev : dev ≠ DEVFS_DEVICE) (hv : mnt.volume dev = some v) :
    Tree mnt disk fun n => n.dev = dev where
  volume := by
    rintro n rfl
    exact hdev
  allocated := by
    rintro n rfl
    exact ⟨_, inodeOf_ufs2 hdev hv⟩
  whole := by
    rintro n rfl _ hnone
    rw [hv] at hnone
    cases hnone
  closed := fun n _ _ hn _ _ => hn

/-- What `ilock` does not touch. -/
structure Keeps (e f : Slot) : Prop where
  node : f.node = e.node
  ref : f.ref = e.ref
  valid : f.valid = true

lemma load_keeps (h : load mnt d dev inum e = .ok f) : Keeps e f := by
  unfold load at h
  cases hk : kind mnt dev inum with
  | device major minor =>
    rw [hk] at h
    cases h
    exact ⟨rfl, rfl, rfl⟩
  | ufs2 v =>
    rw [hk] at h
    dsimp only at h
    split at h
    · cases h
      split <;> exact ⟨rfl, rfl, rfl⟩
    cases h
    exact ⟨rfl, rfl, rfl⟩
  | native =>
    rw [hk] at h
    dsimp only at h
    split at h
    · cases h
    cases h
    exact ⟨rfl, rfl, rfl⟩

lemma load_again (h : load mnt d dev inum e = .ok f) : load mnt d dev inum f = .ok f := by
  unfold load at h ⊢
  cases hk : kind mnt dev inum with
  | device major minor =>
    rw [hk] at h
    cases h
    rfl
  | ufs2 v =>
    rw [hk] at h
    dsimp only at h ⊢
    cases hx : inodeAt v (v.bytes d) inum with
    | none =>
      rw [hx] at h
      cases h
      rfl
    | some x => ?_
    rw [hx] at h
    cases h
    dsimp only
    split <;> rfl
  | native =>
    rw [hk] at h
    dsimp only at h ⊢
    split at h
    · cases h
    next h0 =>
    cases h
    rw [if_neg h0]
    rfl

lemma load_ref (e : Slot) (r : Nat) : load mnt d dev inum { e with ref := r }
    = (load mnt d dev inum e).map fun f => { f with ref := r } := by
  unfold load
  cases kind mnt dev inum with
  | device major minor => rfl
  | ufs2 v =>
    dsimp only
    cases inodeAt v (v.bytes d) inum with
    | none => rfl
    | some x => ?_
    dsimp only
    split <;> rfl
  | native =>
    dsimp only
    split <;> rfl

lemma load_self_ref (h : load mnt d dev inum e = .ok e) (r : Nat) :
    load mnt d dev inum { e with ref := r } = .ok { e with ref := r } := by
  rw [load_ref, h]
  rfl

end Load

/-! ## References -/

/-- The inodes of `T` in the cache are those on the disk. -/
def Steady (T : Node → Prop) (s : State) : Prop :=
  ∀ i, 0 < (s.slot i).ref → T (s.slot i).node → (s.slot i).valid →
    load mnt (s.disk (s.slot i).dev) (s.slot i).dev (s.slot i).inum (s.slot i) = .ok (s.slot i)

/-- Someone has a reference to `n`. -/
def State.InUse (s : State) (n : Node) : Prop := ∃ k, 0 < (s.slot k).ref ∧ (s.slot k).node = n

/-- From `s₀` to `s` inodes were filled in, and a reference was taken for
each slot of `l`. An inode that was in use is in the slot it had. -/
structure Refs (T : Node → Prop) (s₀ s : State) (l : List (Fin NINODE)) : Prop where
  disk : s.disk = s₀.disk
  steady : Steady mnt T s
  ref : ∀ j, (s.slot j).ref = (s₀.slot j).ref + l.count j
  node : ∀ j, 0 < (s₀.slot j).ref → (s.slot j).node = (s₀.slot j).node
  inUse : ∀ j ∈ l, s₀.InUse (s.slot j).node → 0 < (s₀.slot j).ref

section Refs

variable {mnt} {T : Node → Prop} {s₀ s : State} {l : List (Fin NINODE)} {i : Fin NINODE} {n m : Node}

lemma State.cached_some {dev inum : Nat} (h : s.cached dev inum = some i) :
    0 < (s.slot i).ref ∧ (s.slot i).node = ⟨dev, inum⟩ := by
  have := find?_some h
  obtain ⟨href, rfl, rfl⟩ := of_decide_eq_true this
  exact ⟨href, rfl⟩

lemma State.cached_none (h : s.cached n.dev n.inum = none) : ¬ s.InUse n := by
  rintro ⟨k, hk, rfl⟩
  exact find?_eq_none.mp h k (mem_finRange k) (decide_eq_true ⟨hk, rfl, rfl⟩)

lemma State.empty_some (h : s.empty = some i) : (s.slot i).ref = 0 := by
  have := find?_some h
  exact of_decide_eq_true this

lemma State.empty_isSome (h : (s.slot i).ref = 0) : ∃ j, s.empty = some j := by
  refine Option.isSome_iff_exists.mp (find?_isSome.mpr ⟨i, mem_finRange i, ?_⟩)
  exact decide_eq_true h

lemma Refs.refl (h : Steady mnt T s) : Refs mnt T s s [] :=
  ⟨rfl, h, fun _ => rfl, fun _ _ => rfl, nofun⟩

lemma Refs.swap {k : Fin NINODE} (h : Refs mnt T s₀ s [k, i]) : Refs mnt T s₀ s [i, k] :=
  ⟨h.disk, h.steady, fun j => by rw [h.ref, (List.Perm.swap i k []).count_eq], h.node,
    fun j hj => h.inUse j (by simpa [or_comm] using hj)⟩

section

variable (h : Refs mnt T s₀ s l)
include h

lemma Refs.ref_pos (hi : i ∈ l) : 0 < (s.slot i).ref := by
  have := count_pos_iff.mpr hi
  rw [h.ref]
  omega

lemma Refs.ref_other (hi : i ∉ l) : (s.slot i).ref = (s₀.slot i).ref := by
  rw [h.ref, count_eq_zero.mpr hi]
  rfl

omit h in
lemma Refs.free (h : Refs mnt T s₀ s [i])
    (hroom : ∃ a b, a ≠ b ∧ (s₀.slot a).ref = 0 ∧ (s₀.slot b).ref = 0) :
    ∃ j, (s.slot j).ref = 0 := by
  obtain ⟨a, b, hab, ha, hb⟩ := hroom
  by_cases hi : a = i
  · exact ⟨b, (h.ref_other (by simpa using fun hc => hab (hi.trans hc.symm))).trans hb⟩
  · exact ⟨a, (h.ref_other (by simpa using hi)).trans ha⟩

/-- What `iget` does to the other inodes in use: one of them may be the
one it returns. -/
def Same (s t : State) : Prop :=
  ∀ j, 0 < (s.slot j).ref → ∃ r, t.slot j = { s.slot j with ref := r }

lemma Refs.put {l' : List (Fin NINODE)} {e : Slot}
    (hnode : e.node = (s.slot i).node)
    (he : T e.node → e.valid → load mnt (s.disk e.dev) e.dev e.inum e = .ok e)
    (href : e.ref = (s₀.slot i).ref + l'.count i) (hcount : ∀ j ≠ i, l'.count j = l.count j)
    (hinUse : ∀ j ∈ l', s₀.InUse (s.slot j).node → 0 < (s₀.slot j).ref) :
    (∀ j, ((s.set i e).slot j).node = (s.slot j).node) ∧ Refs mnt T s₀ (s.set i e) l' := by
  have hnodes : ∀ j, ((s.set i e).slot j).node = (s.slot j).node := fun j => by
    by_cases hj : j = i
    · rw [hj, set_slot, hnode]
    · rw [set_slot_ne hj]
  refine ⟨hnodes, h.disk, fun j => ?_, fun j => ?_, fun j hj => ?_, fun j hj => ?_⟩
  · by_cases hj : j = i
    · rw [hj, set_slot]
      exact fun _ => he
    rw [set_slot_ne hj]
    exact h.steady j
  · by_cases hj : j = i
    · rw [hj, set_slot, href]
    · rw [set_slot_ne hj, h.ref, hcount j hj]
  · rw [hnodes, h.node j hj]
  · rw [hnodes]
    exact hinUse j hj

lemma Refs.iget_cached (hi : 0 < (s.slot i).ref) :
    Refs mnt T s₀ (s.set i { s.slot i with ref := (s.slot i).ref + 1 }) (i :: l) := by
  refine (h.put (e := { s.slot i with ref := (s.slot i).ref + 1 }) rfl
    (fun hT hv => load_self_ref (h.steady i hi hT hv) _) ?_ (fun j hj => count_cons_of_ne hj.symm)
    fun j hj hu => ?_).2
  · rw [count_cons_self, ← add_assoc, ← h.ref]
  rcases mem_cons.mp hj with rfl | hj
  · by_cases hl : j ∈ l
    · exact h.inUse j hl hu
    · rwa [h.ref_other hl] at hi
  · exact h.inUse j hj hu

lemma Refs.iget_recycled (hi : (s.slot i).ref = 0) (hm : ¬ s.InUse m) :
    Refs mnt T s₀ (s.set i ((s.slot i).recycle m.dev m.inum)) (i :: l) := by
  have hil : i ∉ l := fun hc => absurd hi (h.ref_pos hc).ne'
  have hi0 : (s₀.slot i).ref = 0 := by rw [← h.ref_other hil, hi]
  refine ⟨h.disk, fun j => ?_, fun j => ?_, fun j hj => ?_, fun j hj => ?_⟩
  · by_cases hj : j = i
    · subst hj
      rw [set_slot]
      exact fun _ _ hv => absurd hv Bool.false_ne_true
    · rw [set_slot_ne hj]
      exact h.steady j
  · by_cases hj : j = i
    · subst hj
      rw [set_slot, count_cons_self, hi0, count_eq_zero.mpr hil]
      rfl
    · rw [set_slot_ne hj, h.ref, count_cons_of_ne fun hc => hj hc.symm]
  · have hne : j ≠ i := by
      rintro rfl
      omega
    rw [set_slot_ne hne, h.node j hj]
  rcases mem_cons.mp hj with rfl | hj
  · rw [set_slot]
    rintro ⟨k, hk, hkm⟩
    refine absurd ⟨k, ?_, (h.node k hk).trans hkm⟩ hm
    rw [h.ref]
    omega
  · have hne : j ≠ i := fun hc => hil (hc ▸ hj)
    rw [set_slot_ne hne]
    exact h.inUse j hj

lemma Refs.iget (hfree : ∃ j, (s.slot j).ref = 0) (m : Node) :
    ∃ k t, iget m.dev m.inum s = .ok (k, t) ∧ (t.slot k).node = m ∧ Same s t ∧
      Refs mnt T s₀ t (k :: l) := by
  unfold Fs.iget
  rw [get_bind]
  cases hc : s.cached m.dev m.inum with
  | some k =>
    obtain ⟨hk, hnode⟩ := cached_some hc
    refine ⟨k, _, rfl, ?_, fun j _ => ?_, h.iget_cached hk⟩
    · rw [set_slot]
      exact hnode
    by_cases hj : j = k
    · subst hj
      exact ⟨_, set_slot ..⟩
    · exact ⟨(s.slot j).ref, set_slot_ne hj _⟩
  | none => ?_
  obtain ⟨j, hj⟩ := hfree
  obtain ⟨k, hk⟩ := empty_isSome hj
  have hk0 := empty_some hk
  rw [hk]
  refine ⟨k, _, rfl, ?_, fun j hj => ⟨(s.slot j).ref, set_slot_ne ?_ _⟩,
    h.iget_recycled hk0 (cached_none hc)⟩
  · rw [set_slot]
    rfl
  rintro rfl
  omega

lemma Refs.set {e : Slot} (hk : Keeps (s.slot i) e)
    (he : load mnt (s.disk e.dev) e.dev e.inum e = .ok e) : Refs mnt T s₀ (s.set i e) l :=
  (h.put hk.node (fun _ _ => he) (hk.ref.trans (h.ref i)) (fun _ _ => rfl) h.inUse).2

end

section

variable (htree : Tree mnt s₀.disk T) (h : Refs mnt T s₀ s l) (hi : 0 < (s.slot i).ref)
  (hT : T (s.slot i).node)
include htree h hi hT

lemma Refs.fill : ∃ e g, fill mnt s.disk (s.slot i) = .ok e ∧
      load mnt (s.disk (s.slot i).dev) (s.slot i).dev (s.slot i).inum (s.slot i) = .ok e ∧
      inodeOf mnt s₀.disk (s.slot i).node = some g ∧ Like e g := by
  have hdev : (s.slot i).dev ≠ DEVFS_DEVICE := htree.volume _ hT
  obtain ⟨g, hg⟩ := htree.allocated _ hT
  have hload : load mnt (s.disk (s.slot i).dev) (s.slot i).dev (s.slot i).inum
      (zero.recycle (s.slot i).dev (s.slot i).inum) = .ok g := by
    rw [h.disk]
    exact inodeOf_some.mp hg
  obtain ⟨e, he, -⟩ := load_like hdev hload (s.slot i)
  obtain ⟨g', hg', hlike⟩ := load_like hdev he (zero.recycle (s.slot i).dev (s.slot i).inum)
  rw [hload] at hg'
  cases hg'
  refine ⟨e, g, ?_, he, hg, hlike⟩
  unfold Fs.fill
  split
  · next hv => rw [← he, h.steady i hi hT hv]
  · exact he

lemma Refs.ilock : ∃ e g, ilock mnt i s = .ok ((), s.set i e) ∧
      Keeps (s.slot i) e ∧ inodeOf mnt s₀.disk (s.slot i).node = some g ∧ Like e g ∧
      Refs mnt T s₀ (s.set i e) l := by
  obtain ⟨e, g, hfill, hload, hg, hlike⟩ := h.fill htree hi hT
  have hk := load_keeps hload
  refine ⟨e, g, ?_, hk, hg, hlike, h.set hk ?_⟩
  · rw [ilock_eq hi, hfill]
  have hdev : e.dev = (s.slot i).dev := congrArg Node.dev hk.node
  have hinum : e.inum = (s.slot i).inum := congrArg Node.inum hk.node
  rw [hdev, hinum]
  exact load_again hload

end

variable (mnt T) in
/-- No inode of the tree goes away with the last reference to it that the
walk takes. -/
def Linked (s₀ : State) : Prop :=
  ∀ n, T n → (∃ e, inodeOf mnt s₀.disk n = some e ∧ e.nlink ≠ 0) ∨ s₀.InUse n

section

variable (htree : Tree mnt s₀.disk T) (hlinked : Linked mnt T s₀) (h : Refs mnt T s₀ s (i :: l))
  (hT : T (s.slot i).node)
include htree hlinked h hT

lemma Refs.kept : ¬ ((s.slot i).ref = 1 ∧ (s.slot i).valid ∧ (s.slot i).nlink = 0) := by
  rintro ⟨href, hvalid, hnlink⟩
  have hi := h.ref_pos mem_cons_self
  rcases hlinked _ hT with ⟨e, he, hne⟩ | hu
  · obtain ⟨f, g, hfill, -, hg, hlike⟩ := h.fill htree hi hT
    rw [he] at hg
    cases hg
    unfold Fs.fill at hfill
    rw [if_pos hvalid] at hfill
    cases hfill
    exact hne (hlike.nlink ▸ hnlink)
  · have := h.inUse i mem_cons_self hu
    have := h.ref i
    rw [count_cons_self] at this
    omega

lemma Refs.iput : ∃ t, iput mnt i s = .ok ((), t) ∧
      (∀ j, (t.slot j).node = (s.slot j).node) ∧ Refs mnt T s₀ t l := by
  have hi := h.ref_pos mem_cons_self
  have href := h.ref i
  rw [count_cons_self] at href
  refine ⟨_, iput_kept (h.kept htree hlinked hT), h.put rfl ?_ (Nat.sub_eq_of_eq_add href)
    (fun j hj => (count_cons_of_ne hj.symm).symm) fun j hj => h.inUse j (mem_cons_of_mem _ hj)⟩
  exact fun hT hv => load_self_ref (h.steady i hi hT hv) _

end

lemma dirlookup_eq (htree : Tree mnt s.disk T) {g : Slot} (hT : T (s.slot i).node)
    (hg : inodeOf mnt s.disk (s.slot i).node = some g) (hlike : Like (s.slot i) g)
    (htype : (s.slot i).type = T_DIR) (name : List UInt8) : dirlookup mnt i name s =
      (match entryOf mnt s.disk (s.slot i).node name with
        | none => pure none
        | some m => some <$> Fs.iget (s.slot i).dev m : Sys (Option (Fin NINODE))) s := by
  have hdir : IsDir mnt s.disk (s.slot i).node := ⟨g, hg, hlike.type ▸ htype⟩
  have hdev := htree.volume _ hT
  unfold dirlookup
  rw [get_bind, if_neg (by simpa using htype)]
  have hload := inodeOf_some.mp hg
  unfold entryOf
  cases hv : mnt.volume (s.slot i).node.dev with
  | some v =>
    rw [if_pos (hlike.fs.trans (load_ufs2 hdev hv hload)), show mnt.volume (s.slot i).dev = some v
      from hv]
    dsimp only
    rw [bind_of_ok (onDisk_reads (lookup_run _ _ _))]
    change _ = (match lookupAt v (s.disk (s.slot i).dev) (s.slot i).inum name with
      | none => pure none
      | some m => some <$> Fs.iget (s.slot i).dev m : Sys (Option (Fin NINODE))) s
    cases lookupAt v (s.disk (s.slot i).dev) (s.slot i).inum name <;> rfl
  | none => ?_
  have heq := load_native hdev hv hload
  have hdinode : (s.slot i).dinode = dinodeAt mnt.sb (s.disk (s.slot i).dev) (s.slot i).inum := by
    rw [hlike.dinode (by rw [← hlike.type, htype]; decide), heq]
    rfl
  have hsame := withDinode_self (hlike.data.trans (congrArg data heq))
  have hwhole : DirOk (s.disk (s.slot i).dev) (s.slot i).dinode := by
    rw [hdinode]
    exact htree.whole _ hT hdir hv
  rw [if_neg (by rw [hlike.fs, heq]; exact nofun),
    bind_of_ok (onDisk_reads (dirlookup_run hwhole name))]
  dsimp only
  rw [hsame]
  change _ = (match (findEntry (s.disk (s.slot i).dev)
      (dinodeAt mnt.sb (s.disk (s.slot i).dev) (s.slot i).inum) name).map Prod.fst with
    | none => pure none
    | some m => some <$> Fs.iget (s.slot i).dev m : Sys (Option (Fin NINODE))) s
  rw [← hdinode, bind_of_ok (show setSlot i (s.slot i) s = .ok ((), s) from
    congrArg (fun t => Except.ok ((), t)) (set_same s i))]
  cases findEntry (s.disk (s.slot i).dev) (s.slot i).dinode name <;> rfl

end Refs

end Fs

end Proninx
