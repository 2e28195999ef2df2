import Proninx.Kern.MkfsImage

/-!
# The images `mkfs` makes

Every step of `mkfs` leaves an image that the kernel finds consistent, and
adds to the contents of one file. At the end the directories list what
`main` entered and the files hold what it read. All of this rests on the
inode table: `ialloc` does not look at its end, and the kernel knows of
fewer inodes than there are when more than 194 files are given.
-/

namespace Proninx.Mkfs

open ByteMem Disk Function List Native State Stateful

variable {m inum : Nat} {s s' : State}

/-! ## Contents of the files -/

variable (m s) in
/-- The files made so far and what they hold. -/
structure Stands (c : Nat → List UInt8) : Prop where
  image : Image m s
  room : s.freeinode ≤ m
  started : 0 < s.freeinode
  content : ∀ n, 0 < n → n < s.freeinode →
    fileBytes s.view (dinodeAt (table m) s.view n) = c n

variable {c : Nat → List UInt8} {n : Nat} {u : Unit}

section

variable (hm : m ≤ ninodeblocks * IPB) (h : Stands m s c)
include hm h

lemma Stands.append (h0 : 0 < inum) (hmade : inum < s.freeinode) {p : Mem}
    (hrun : iappend inum p n s = .ok (u, s')) :
    Stands m s' (update c inum (c inum ++ toList p 0 n)) ∧ s'.freeinode = s.freeinode := by
  obtain ⟨himage, hinode, x', hw⟩ := h.image.append hm h0 hmade (hmade.trans_le h.room) hrun
  refine ⟨⟨himage, hinode ▸ h.room, hinode ▸ h.started, fun k hpos hk => ?_⟩, hinode⟩
  rw [hinode] at hk
  by_cases hi : k = inum
  · subst hi
    rw [update_self, hw.stored, hw.fileBytes_append, h.content k h0 hmade]
  have hkm := hk.trans_le h.room
  rw [update_of_ne hi, fileBytes_others h.image.consistent hkm
    (h.image.made k hpos hk hkm) (hw.others k hkm hi) fun r b => hw.blocks k r b hi]
  exact h.content k hpos hk

variable {i : Nat}

lemma Stands.alloc (hlt : s.freeinode < m) {type : Nat} (h0 : type ≠ 0) (htype : type < 2 ^ 16)
    (hrun : ialloc type s = .ok (i, s')) :
    i = s.freeinode ∧ Stands m s' (update c i []) ∧ s'.freeinode = s.freeinode + 1 := by
  obtain ⟨hi, himage, hinode, hsize, hothers, hhigh⟩ := h.image.alloc hm hlt h0 htype hrun
  have hstarted := h.started
  refine ⟨hi, ⟨himage, hinode ▸ hlt, by omega, fun k hpos hk => ?_⟩, hinode⟩
  by_cases hik : k = i
  · subst hik
    rw [update_self, fileBytes, hsize]
    rfl
  have hk : k < s.freeinode := by omega
  have hkm := hk.trans_le h.room
  rw [update_of_ne hik, fileBytes_others h.image.consistent hkm
    (h.image.made k hpos hk hkm) (hothers k hik)
    fun r b hb => hhigh b (h.image.consistent.sound.start_le hb)]
  exact h.content k hpos hk

variable {name : List UInt8}

lemma Stands.enter {dir : Nat} (h0 : 0 < dir) (hmade : dir < s.freeinode)
    (hrun : enter dir inum name s = .ok (u, s')) :
    Stands m s' (update c dir (c dir ++ entryBytes (inum, name))) ∧ s'.freeinode = s.freeinode :=
  h.append hm h0 hmade hrun

end

section

variable (hm : m ≤ ninodeblocks * IPB)
include hm

lemma Stands.appendAll (h0 : 0 < inum) (reads : List (List UInt8)) :
    ∀ {s : State} {c : Nat → List UInt8}, Stands m s c → inum < s.freeinode → ∀ {u : Unit},
      appendAll inum reads s = .ok (u, s') →
      Stands m s' (update c inum (c inum ++ reads.flatten)) ∧ s'.freeinode = s.freeinode := by
  induction reads with
  | nil =>
    intro s c h _ u hrun
    cases hrun
    rw [flatten_nil, append_nil, update_eq_self]
    exact ⟨h, rfl⟩
  | cons r rs ih => ?_
  intro s c h hmade u hrun
  obtain ⟨_, s1, hfirst, hrest⟩ := bind_ok.mp hrun
  obtain ⟨h₁, hi1⟩ := h.append hm h0 hmade hfirst
  obtain ⟨h2, hi2⟩ := ih h₁ (hi1 ▸ hmade) hrest
  rw [update_self, update_idem, append_assoc] at h2
  rw [flatten_cons]
  have hr : toList (ofList r) 0 r.length = r := toList_eq_iff.mpr fun i _ => by rw [zero_add]
  rw [hr] at h2
  exact ⟨h2, hi2.trans hi1⟩

/-! ## The run -/

/-- The image with its superblock only. -/
def State.start : State := ⟨set (fun _ _ => 0) 1 superblock, 1, nmeta⟩

omit hm in
lemma start_image {b : Nat} (h : b ≠ 1) : start.image b = fun _ => 0 := by
  unfold start
  dsimp only
  rw [set_ne h]

lemma start_dinode (hn : n < m) :
    dinodeAt (table m) start.view n = ⟨0, 0, 0, 0, 0, 0, 0, 0, fun _ => 0⟩ := by
  have hblock : start.view (iblock (table m) n) = fun _ => 0 := by
    have hlt : 1 < n / IPB + (2 + nlog) := Nat.lt_add_left _ (by decide)
    rw [view_ne (iblock_lt hm hn).ne, start_image]
    exact hlt.ne'
  have hzero : ∀ w a, readLe w (fun _ => 0) a = 0 := fun w a => readLe_eq_zero.mpr fun _ _ _ => rfl
  unfold dinodeAt
  rw [hblock]
  unfold decodeDinode
  simp only [hzero, ite_self]

lemma start_holds (p : Nat × Ref) (b : Nat) :
    ¬ Holds (table m) start.view (tableAddrs (table m) start.view) p b := by
  rintro ⟨hn, hv, hb, h0⟩
  refine h0 (hb.symm.trans ?_)
  rw [refAt, tableAddrs, start_dinode hm hn, chase_zero]

lemma start_stands (h1 : 1 ≤ m) : Stands m start fun _ => [] where
  room := h1
  started := one_pos
  content n hpos hlt := absurd hlt (not_lt.mpr hpos)
  image :=
    { consistent :=
        { sound :=
            { once := fun p q b hp => absurd hp (start_holds hm p b)
              inside := fun p b hp => absurd hp (start_holds hm p b)
              marked_iff := fun b hb => by
                rw [used_view hb, decide_eq_true_eq]
                exact ⟨.inl, Or.rec id fun ⟨p, hp⟩ => absurd hp (start_holds hm p b)⟩ }
          covered := fun n hn ht => absurd (congrArg Dinode.type (start_dinode hm hn)) ht
          free := fun n hn _ k _ => by rw [start_dinode hm hn] }
      blank := ⟨le_rfl, fun b hb => start_image (lt_of_lt_of_le (by decide) hb).ne'⟩
      fresh := fun n _ hn => by rw [start_dinode hm hn]
      made := fun n hpos hlt _ => absurd hlt (not_lt.mpr hpos)
      super := by simp [start] }

lemma Stands.mkdir (h : Stands m s c) (hlt : s.freeinode < m)
    {parent : Nat} (h0 : 0 < parent) (hparent : parent < s.freeinode)
    (hrun : mkdirInode parent name s = .ok (i, s')) :
    i = s.freeinode ∧ s'.freeinode = s.freeinode + 1 ∧ Stands m s' (update (update c i
        (([(i, ascii "."), (parent, ascii "..")].map entryBytes).flatten)) parent
        (c parent ++ entryBytes (i, name))) := by
  obtain ⟨i', s1, h₁, hrest⟩ := bind_ok.mp hrun
  obtain ⟨hi, hs1, hi1⟩ := h.alloc hm hlt (by decide) (by decide) h₁
  obtain ⟨_, s2, h2, hrest⟩ := bind_ok.mp hrest
  obtain ⟨hs2, hi2⟩ := hs1.enter hm (hi ▸ h.started) (by omega) h2
  obtain ⟨_, s3, h₃, hrest⟩ := bind_ok.mp hrest
  obtain ⟨hs3, hi3⟩ := hs2.enter hm (hi ▸ h.started) (by omega) h₃
  obtain ⟨_, s4, h4, hret⟩ := bind_ok.mp hrest
  obtain ⟨hs4, hi4⟩ := hs3.enter hm h0 (by omega) h4
  cases hret
  refine ⟨hi, by omega, ?_⟩
  have hne : parent ≠ i := by omega
  simpa [update_of_ne hne] using hs4

/-- The entries of the directories on the way to `/usr/bin`. -/
def rootEntries : List Entry :=
  [(1, ascii "."), (1, ascii ".."), (2, ascii "usr"), (4, ascii "etc")]
def usrEntries : List Entry := [(2, ascii "."), (1, ascii ".."), (3, ascii "bin")]
def binEntries : List Entry := [(3, ascii "."), (2, ascii "..")]

def listing (es : List Entry) : List UInt8 := (es.map entryBytes).flatten

lemma skeleton_stands (h6 : 6 ≤ m) {bin : Nat}
    (hrun : skeleton ⟨fun _ _ => 0, 1, nmeta⟩ = .ok (bin, s')) :
    bin = 3 ∧ s'.freeinode = 6 ∧ ∃ c, Stands m s' c ∧ c 1 = listing rootEntries ∧
      c 2 = listing usrEntries ∧ c 3 = listing binEntries := by
  obtain ⟨_, s0, h₀, hrest⟩ := bind_ok.mp hrun
  obtain ⟨-, hs0⟩ := wsect_ok.mp h₀
  have hstart : Stands m s0 fun _ => [] := hs0 ▸ start_stands hm (by omega)
  have hi0 : s0.freeinode = 1 := hs0 ▸ rfl
  obtain ⟨root, s1, h₁, hrest⟩ := bind_ok.mp hrest
  obtain ⟨hroot, hs1, hi1⟩ := hstart.alloc hm (by omega) (by decide) (by decide) h₁
  obtain rfl : root = 1 := hroot.trans hi0
  rw [if_neg (by decide)] at hrest
  obtain ⟨_, s2, h2, hrest⟩ := bind_ok.mp hrest
  obtain ⟨hs2, hi2⟩ := hs1.enter hm (by omega) (by omega) h2
  obtain ⟨_, s3, h₃, hrest⟩ := bind_ok.mp hrest
  obtain ⟨hs3, hi3⟩ := hs2.enter hm (by omega) (by omega) h₃
  obtain ⟨usr, s4, h4, hrest⟩ := bind_ok.mp hrest
  obtain ⟨husr, hi4, hs4⟩ := hs3.mkdir hm (by omega) (by omega) (by omega) h4
  obtain rfl : usr = 2 := by omega
  obtain ⟨bin', s5, h5, hrest⟩ := bind_ok.mp hrest
  obtain ⟨hbin, hi5, hs5⟩ := hs4.mkdir hm (by omega) (by omega) (by omega) h5
  obtain rfl : bin' = 3 := by omega
  obtain ⟨etc, s6, h₆, hrest⟩ := bind_ok.mp hrest
  obtain ⟨hetc, hi6, hs6⟩ := hs5.mkdir hm (by omega) (by omega) (by omega) h₆
  obtain rfl : etc = 4 := by omega
  obtain ⟨pw, s7, h7, hrest⟩ := bind_ok.mp hrest
  obtain ⟨hpw, hs7, hi7⟩ := hs6.alloc hm (by omega) (by decide) (by decide) h7
  obtain rfl : pw = 5 := by omega
  obtain ⟨_, s8, h8, hret⟩ := bind_ok.mp hrest
  obtain ⟨hs8, hi8⟩ := hs7.enter hm (by omega) (by omega) h8
  cases hret
  refine ⟨rfl, by omega, _, hs8, ?_, ?_, ?_⟩
  · simp [listing, rootEntries]
  · simp [listing, usrEntries]
  · simp [listing, binEntries]

def Input.bytes (f : Input) : List UInt8 := (f.reads.getD []).flatten

lemma Stands.addFile (h : Stands m s c) (h3 : 3 < s.freeinode)
    (hlt : s.freeinode < m) {f : Input} (hrun : addFile 3 f s = .ok (u, s')) :
    s'.freeinode = s.freeinode + 1 ∧ Stands m s' (update
      (update c 3 (c 3 ++ entryBytes (s.freeinode, f.name))) s.freeinode f.bytes) := by
  unfold Mkfs.addFile at hrun
  cases hreads : f.reads with
  | none =>
    rw [hreads] at hrun
    cases hrun
  | some reads => ?_
  rw [hreads] at hrun
  obtain ⟨i, s1, h₁, hrest⟩ := bind_ok.mp hrun
  obtain ⟨rfl, hs1, hi1⟩ := h.alloc hm hlt (by decide) (by decide) h₁
  obtain ⟨_, s2, h2, h₃⟩ := bind_ok.mp hrest
  obtain ⟨hs2, hi2⟩ := hs1.enter hm (by omega) (by omega) h2
  obtain ⟨hs3, hi3⟩ := hs2.appendAll hm (by omega) reads (by omega) h₃
  have hne : s.freeinode ≠ 3 := by omega
  have hbytes : f.bytes = reads.flatten := by rw [Input.bytes, hreads, Option.getD_some]
  rw [update_of_ne hne, update_self, nil_append,
    update_of_ne hne.symm, update_comm hne, update_idem] at hs3
  rw [hbytes]
  exact ⟨by omega, hs3⟩

/-- The entries of the input files, from inode `n` on. -/
def fileEntries (files : List Input) (n : Nat) : List Entry :=
  (files.zipIdx n).map fun p => (p.2, p.1.name)

lemma Stands.addFiles (files : List Input) :
    ∀ {s : State} {c : Nat → List UInt8}, Stands m s c → 3 < s.freeinode →
      s.freeinode + files.length ≤ m → ∀ {u : Unit}, addFiles 3 files s = .ok (u, s') →
      s'.freeinode = s.freeinode + files.length ∧ ∃ c', Stands m s' c' ∧
        (∀ n < s.freeinode, n ≠ 3 → c' n = c n) ∧
        c' 3 = c 3 ++ listing (fileEntries files s.freeinode) ∧
        ∀ i (h : i < files.length), c' (s.freeinode + i) = files[i].bytes := by
  induction files with
  | nil =>
    intro s c h _ _ u hrun
    cases hrun
    exact ⟨rfl, c, h, fun _ _ _ => rfl, (append_nil _).symm,
      fun i hi => absurd hi (Nat.not_lt_zero i)⟩
  | cons f fs ih => ?_
  intro s c h h3 hroom u hrun
  have hlen : (f :: fs).length = fs.length + 1 := length_cons
  obtain ⟨_, s1, hfile, hrest⟩ := bind_ok.mp hrun
  obtain ⟨hi1, hs1⟩ := h.addFile hm h3 (by omega) hfile
  obtain ⟨hi2, c', hs2, hold, hbin, hfiles⟩ := ih hs1 (by omega) (by omega) hrest
  rw [hi1] at hi2 hold hbin hfiles
  refine ⟨by omega, c', hs2, fun n hn hne => ?_, ?_, fun i hi => ?_⟩
  · rw [hold n (by omega) hne, update_of_ne (by omega), update_of_ne hne]
  · rw [hbin, update_of_ne (by omega), update_self, append_assoc]
    rfl
  cases i with
  | zero =>
    rw [add_zero, hold _ (by omega) (by omega), update_self]
    rfl
  | succ i => ?_
  rw [show s.freeinode + (i + 1) = s.freeinode + 1 + i by omega, hfiles i (by omega)]
  rfl

/-! ## The finished image -/

end

def State.fixed (s : State) : State :=
  let din := shift (s.image (iblock sb Fs.ROOTINO)) (dinodeOffset Fs.ROOTINO)
  s.store Fs.ROOTINO (writeLe 4 din 8 ((readLe 4 din 8 / BSIZE + 1) * BSIZE))

variable {files : List Input}

lemma mkfs_ok (h : mkfs files = .ok s) : ∃ bin s1 s2,
    skeleton ⟨fun _ _ => 0, 1, nmeta⟩ = .ok (bin, s1) ∧ addFiles bin files s1 = .ok ((), s2) ∧
      s.image = s2.fixed.view ∧ s.freeinode = s2.freeinode := by
  unfold mkfs at h
  cases hrun : (main files).run ⟨fun _ _ => 0, 1, nmeta⟩ with
  | error e =>
    rw [hrun] at h
    cases h
  | ok r => ?_
  rw [hrun] at h
  cases h
  obtain ⟨bin, s1, h₁, hrest⟩ := bind_ok.mp hrun
  obtain ⟨_, s2, h2, hrest⟩ := bind_ok.mp hrest
  refine ⟨bin, s1, s2, h₁, h2, ?_⟩
  obtain ⟨_, s3, h₃, h4⟩ := bind_ok.mp hrest
  obtain ⟨din, t, hread, hwrite⟩ := bind_ok.mp h₃
  obtain ⟨-, rfl, rfl⟩ := rinode_ok.mp hread
  obtain ⟨-, rfl⟩ := winode_ok.mp hwrite
  rw [get_bind, balloc] at h4
  split at h4
  · obtain ⟨-, hs⟩ := wsect_ok.mp h4
    rw [hs]
    exact ⟨rfl, rfl⟩
  · cases h4

lemma length_listing (es : List Entry) : (listing es).length = es.length * DIRENT_SIZE := by
  simp [listing, length_flatten, entryBytes, comp_def]

section

variable (hm : m ≤ ninodeblocks * IPB) (h : Stands m s c) (h1 : 1 < s.freeinode)
  (hroot : c 1 = listing rootEntries)
include hm h h1 hroot

lemma Stands.fixed_stored : ∃ din, Stored m 1 din s.view s.fixed.view ∧
        decodeDinode din 0 = { dinodeAt (table m) s.view 1 with size := BSIZE } ∧
        (dinodeAt (table m) s.view 1).size = 64 := by
  have h1m : 1 < m := h1.trans_le h.room
  have hsize : (dinodeAt (table m) s.view 1).size = 64 := by
    have hlen := congrArg List.length ((h.content 1 one_pos h1).trans hroot)
    rw [length_listing, show rootEntries.length * DIRENT_SIZE = 64 from rfl] at hlen
    simpa [fileBytes] using hlen
  have hx : dinodeAt (table m) s.view 1 =
      decodeDinode (shift (s.image (iblock sb Fs.ROOTINO)) (dinodeOffset Fs.ROOTINO)) 0 := by
    rw [decodeDinode_shift, dinodeAt, view_ne (iblock_lt hm h1m).ne]
    rfl
  have hread : readLe 4 (shift (s.image (iblock sb Fs.ROOTINO)) (dinodeOffset Fs.ROOTINO)) 8 = 64 :=
    (congrArg Dinode.size hx).symm.trans hsize
  refine ⟨_, stored_view hm h1m s _, ?_, hsize⟩
  rw [hread, decodeDinode_setSize (by decide), ← hx]
  rfl

lemma Stands.fixed : Consistent (table m) nmeta s.fixed.view ∧
      Lists s.fixed.view (dinodeAt (table m) s.fixed.view 1) rootEntries ∧
      (∀ n, 1 < n → n < s.freeinode → (dinodeAt (table m) s.fixed.view n).type ≠ 0 ∧
          fileBytes s.fixed.view (dinodeAt (table m) s.fixed.view n) = c n) ∧
      s.fixed.view 1 = superblock := by
  have h1m : 1 < m := h1.trans_le h.room
  obtain ⟨din, hst, hnew, hsize⟩ := h.fixed_stored hm h1 hroot
  have hself : dinodeAt (table m) s.fixed.view 1 =
      { dinodeAt (table m) s.view 1 with size := BSIZE } := hst.self.trans hnew
  have hsize' : (dinodeAt (table m) s.fixed.view 1).size = BSIZE := by rw [hself]
  have hcons := h.image.consistent
  have htype := h.image.made 1 one_pos h1 h1m
  have hcov := hcons.covered 1 h1m htype
  have haddr : ∀ bn, addrAt s.fixed.view (dinodeAt (table m) s.fixed.view 1) bn =
      addrAt s.view (dinodeAt (table m) s.view 1) bn :=
    hcons.sound.addrAt_high h1m rfl (by rw [hself]) hst.high
  have hcov' : Covered s.fixed.view (dinodeAt (table m) s.fixed.view 1) BSIZE := by
    intro bn hbn
    rw [haddr]
    refine hcov bn ?_
    rw [hsize]
    unfold BSIZE at hbn
    unfold BSIZE
    omega
  have hsound : Sound (table m) nmeta s.fixed.view (tableAddrs (table m) s.fixed.view) := by
    refine hcons.sound.high hst.high hst.used fun n _ k _ => ?_
    unfold tableAddrs
    by_cases hn : n = 1
    · rw [hn, hself]
    · rw [hst.others n hn]
  refine ⟨?_, ?_, fun n hlo hhi => ?_, ?_⟩
  · refine hcons.step 1 hsound (fun n _ hne => hst.others n hne)
      (fun n r b _ hb => hst.high b (hcons.sound.start_le hb)) (fun _ => ?_) fun h0 => ?_
    · rw [hself] at hcov' ⊢
      exact hcov'
    rw [hself] at h0
    exact absurd h0 htype
  · have hfirst : (range 64).map (byteAt s.fixed.view (dinodeAt (table m) s.fixed.view 1)) =
        listing rootEntries := by
      rw [← hroot, ← h.content 1 one_pos h1, fileBytes, hsize]
      exact map_congr_left fun i hi => hcons.sound.byteAt_high h1m rfl (by rw [hself]) hst.high
        (hcov.at (by rw [hsize]; exact mem_range.mp hi))
    have hbytes := congrArg (List.map (byteAt s.fixed.view (dinodeAt (table m) s.fixed.view 1)))
      (range_add (n := 64) (m := BSIZE - 64))
    rw [map_append, hfirst, show 64 + (BSIZE - 64) = BSIZE from rfl, ← hsize'] at hbytes
    refine .of_bytes ?_ ?_ ?_ hbytes <;> rw [hsize']
    · decide
    · decide
    · exact hcov'
  · have hnm := hhi.trans_le h.room
    have hmade := h.image.made n (by omega) hhi hnm
    refine ⟨hst.others n (by omega) ▸ hmade, ?_⟩
    rw [fileBytes_others hcons hnm hmade (hst.others n (by omega))
      fun r b hb => hst.high b (hcons.sound.start_le hb)]
    exact h.content n (by omega) hhi
  · rw [view_ne (by decide), State.fixed, store_super]
    exact h.image.super

end

/-! ## How many inodes there are -/

/-- `x` makes `k` inodes. -/
def Counts {α : Type} (k : Nat) (x : Make α) : Prop :=
  ∀ s, Leads x s fun _ t => t.freeinode = s.freeinode + k

section Counts

variable {α β : Type} {k l : Nat}

lemma Counts.bind {x : Make α} {f : α → Make β} (hx : Counts k x) (hf : ∀ a, Counts l (f a)) :
    Counts (k + l) (x >>= f) := fun s =>
  (hx s).bind fun a t ht => (hf a t).mono fun _ u hu => by omega

lemma Counts.pure (a : α) : Counts 0 (Pure.pure a : Make α) := fun _ => .pure rfl

lemma Counts.throw (e : Exit) : Counts k (throw e : Make α) := fun _ => .throw

lemma Counts.ite {c : Prop} [Decidable c] {x y : Make α} (hx : Counts k x) (hy : Counts k y) :
    Counts k (if c then x else y) := by
  split
  · exact hx
  · exact hy

lemma rsect_counts (sec : Nat) : Counts 0 (rsect sec) := fun _ _ _ hrun =>
  congrArg freeinode (rsect_ok.mp hrun).2.2

lemma wsect_counts (sec : Nat) (buf : Block) : Counts 0 (wsect sec buf) := fun _ _ _ hrun => by
  obtain ⟨-, rfl⟩ := wsect_ok.mp hrun
  rfl

lemma nextBlock_counts : Counts 0 nextBlock := fun _ _ _ hrun => by
  cases hrun
  rfl

lemma direct_counts (din : Mem) (i : Nat) : Counts 0 (direct din i) :=
  .ite (nextBlock_counts.bind fun _ => .pure _) (.pure _)

lemma indirect_counts (b i : Nat) : Counts 0 (indirect b i) :=
  (rsect_counts b).bind fun _ =>
    .ite (nextBlock_counts.bind fun _ => (wsect_counts b _).bind fun _ => .pure _) (.pure _)

lemma blockOf_counts (din : Mem) (fbn : Nat) : Counts 0 (blockOf din fbn) :=
  .ite (direct_counts din _) <|
    .ite ((direct_counts din _).bind fun _ => (indirect_counts _ _).bind fun _ => .pure _)
      ((direct_counts din _).bind fun _ => (indirect_counts _ _).bind fun _ =>
        (indirect_counts _ _).bind fun _ => .pure _)

lemma appendBlocks_counts (fuel : Nat) : ∀ (n off : Nat) (p din : Mem),
    Counts 0 (appendBlocks fuel n off p din) := by
  induction fuel with
  | zero => exact fun _ _ _ _ => .pure _
  | succ fuel ih => ?_
  intro n off p din
  unfold appendBlocks
  exact .ite (.ite (.throw _) ((blockOf_counts din _).bind fun _ => (rsect_counts _).bind fun _ =>
    (wsect_counts _ _).bind fun _ => ih _ _ _ _)) (.pure _)

lemma winode_counts (inum : Nat) (din : Mem) : Counts 0 (winode inum din) :=
  (rsect_counts _).bind fun _ => wsect_counts _ _

lemma iappend_counts (inum : Nat) (p : Mem) (n : Nat) : Counts 0 (iappend inum p n) :=
  ((rsect_counts _).bind fun _ => .pure _).bind fun _ =>
    (appendBlocks_counts _ _ _ _ _).bind fun _ => winode_counts _ _

lemma ialloc_counts (type : Nat) : Counts 1 (ialloc type) := fun _ _ _ hrun => by
  obtain ⟨rfl, -, rfl⟩ := ialloc_ok.mp hrun
  rfl

lemma mkdirInode_counts (parent : Nat) (name : List UInt8) : Counts 1 (mkdirInode parent name) :=
  (ialloc_counts _).bind fun _ => (iappend_counts _ _ _).bind fun _ =>
    (iappend_counts _ _ _).bind fun _ => (iappend_counts _ _ _).bind fun _ => .pure _

lemma skeleton_counts : Counts 5 skeleton :=
  (wsect_counts _ _).bind (l := 5) fun _ => (ialloc_counts _).bind (l := 4) fun _ =>
    .ite (.throw _) <| (iappend_counts _ _ _).bind (l := 4) fun _ =>
      (iappend_counts _ _ _).bind (l := 4) fun _ => (mkdirInode_counts _ _).bind (l := 3) fun _ =>
        (mkdirInode_counts _ _).bind (l := 2) fun _ => (mkdirInode_counts _ _).bind (l := 1) fun _ =>
          (ialloc_counts _).bind (l := 0) fun _ => (iappend_counts _ _ _).bind fun _ => .pure _

lemma appendAll_counts (inum : Nat) (reads : List (List UInt8)) :
    Counts 0 (appendAll inum reads) := by
  induction reads with
  | nil => exact .pure ()
  | cons r rs ih => exact (iappend_counts _ _ _).bind fun _ => ih

lemma addFiles_counts (bin : Nat) (files : List Input) :
    Counts files.length (addFiles bin files) := by
  induction files with
  | nil => exact .pure ()
  | cons f fs ih => ?_
  have hfile : Counts 1 (addFile bin f) := by
    unfold addFile
    cases f.reads with
    | none => exact .throw _
    | some reads => ?_
    exact (ialloc_counts _).bind (l := 0) fun _ => (iappend_counts _ _ _).bind fun _ =>
      appendAll_counts _ _
  rw [length_cons, add_comm]
  exact hfile.bind fun _ => ih

end Counts

/-! ## What the kernel finds -/

/-- `dirlookup` of the kernel finds `inum` under the name. -/
def Finds (d : Disk) (dir : Nat) (name : List UInt8) (inum : Nat) : Prop :=
  ∃ off, (dirlookup sb (dinodeAt sb d dir) name).run d
    = .ok ((some (inum, off), dinodeAt sb d dir), d)

/-- `readi` of the kernel returns the bytes. -/
def Reads (d : Disk) (inum : Nat) (bytes : List UInt8) : Prop :=
  ∀ off n, off ≤ bytes.length → off + n < 2 ^ 32 →
    ∃ dst, (readi sb (dinodeAt sb d inum) off n).run d
        = .ok ((some (min n (bytes.length - off), dst), dinodeAt sb d inum), d) ∧
      toList dst 0 (min n (bytes.length - off)) = (bytes.drop off).take n

/-- The image means to the kernel what `mkfs` was given. -/
structure Faithful (files : List Input) (s : State) : Prop where
  super : readsb (s.image 1) = sb
  files : ∃ usr bin, Finds s.image Fs.ROOTINO (ascii "usr") usr ∧
    Finds s.image usr (ascii "bin") bin ∧
    ∀ f ∈ files, ∃ inum, Finds s.image bin f.name inum ∧ Reads s.image inum f.bytes
  marked : ∀ p b, Holds sb s.image (tableAddrs sb s.image) p b →
    b < FSSIZE ∧ used sb s.image b = true
  free : ∀ b, nmeta ≤ b → b < FSSIZE → (∀ p, ¬ Holds sb s.image (tableAddrs sb s.image) p b) →
    used sb s.image b = false
  numbers : ∀ n, 0 < n → n < s.freeinode → n < sb.ninodes

/-- A path of a file: a C string that does not end in a slash, `.` or `..`. -/
structure Input.Proper (f : Input) : Prop where
  nonzero : Nonzero f.path
  named : f.name ≠ []
  dot : f.name ≠ ascii "."
  dotdot : f.name ≠ ascii ".."

lemma Input.Proper.name_nonzero {f : Input} (h : f.Proper) : Nonzero f.name := by
  intro b hb
  rw [Input.name, mem_reverse] at hb
  exact h.nonzero b (mem_reverse.mp (takeWhile_subset _ hb))

variable {d : Disk}

lemma lists_of_listing {es : List Entry} (hcons : Consistent sb nmeta d)
    (hn : n < NINODES) (htype : (dinodeAt sb d n).type ≠ 0)
    (hbytes : fileBytes d (dinodeAt sb d n) = listing es) : Lists d (dinodeAt sb d n) es := by
  have hsize : (dinodeAt sb d n).size = es.length * DIRENT_SIZE := by
    have := congrArg List.length hbytes
    rwa [length_listing, fileBytes, length_map, length_range] at this
  have hall := hbytes.trans (append_nil _).symm
  refine .of_bytes ?_ (dinodeAt_typed ..).size (hcons.covered n hn htype) hall
  rw [hsize]
  exact Nat.mul_mod_left ..

lemma reads_of_bytes {bytes : List UInt8} (hcons : Consistent sb nmeta d)
    (hn : n < NINODES) (htype : (dinodeAt sb d n).type ≠ 0)
    (hbytes : fileBytes d (dinodeAt sb d n) = bytes) : Reads d n bytes := by
  intro off k hoff hk
  have hsize : bytes.length = (dinodeAt sb d n).size := by
    rw [← hbytes, fileBytes, length_map, length_range]
  rw [hsize] at hoff ⊢
  rw [← hbytes]
  exact readi_run (hcons.covered n hn htype) hoff hk

lemma fileEntries_getElem (files : List Input) (n : Nat)
    (h : i < (fileEntries files n).length) (h' : i < files.length) :
    (fileEntries files n)[i] = (n + i, files[i].name) := by
  simp [fileEntries]

lemma length_fileEntries (files : List Input) (n : Nat) :
    (fileEntries files n).length = files.length := by
  simp [fileEntries]

lemma take_ne {l : List UInt8} (hl : l.length < DIRSIZ) (hne : name ≠ l) :
    name.take DIRSIZ ≠ l.take DIRSIZ := by
  rw [take_of_length_le hl.le]
  intro heq
  have hlen := congrArg List.length heq
  rw [length_take] at hlen
  rw [take_of_length_le (by omega)] at heq
  exact hne heq

lemma entries_valid (hroom : files.length + 6 ≤ NINODES) (hproper : ∀ f ∈ files, f.Proper) :
    ∀ e ∈ binEntries ++ fileEntries files 6, Nonzero e.2 ∧ 0 < e.1 ∧ e.1 < 2 ^ 16 := by
  intro e he
  rcases mem_append.mp he with he | he
  · have hbin : ∀ e ∈ binEntries, Nonzero e.2 ∧ 0 < e.1 ∧ e.1 < 2 ^ 16 := by decide
    exact hbin e he
  obtain ⟨i, hi, rfl⟩ := mem_iff_getElem.mp he
  have hi' : i < files.length := length_fileEntries files 6 ▸ hi
  rw [fileEntries_getElem files 6 hi hi']
  have hlarge : NINODES < 2 ^ 16 := by decide
  exact ⟨(hproper _ (getElem_mem hi')).name_nonzero, by dsimp only; omega, by dsimp only; omega⟩

lemma finds_file (h : Lists d (dinodeAt sb d 3) (binEntries ++ fileEntries files 6))
    (hroom : files.length + 6 ≤ NINODES) (hproper : ∀ f ∈ files, f.Proper)
    (hdistinct : files.Pairwise fun f g => f.name.take DIRSIZ ≠ g.name.take DIRSIZ)
    (hi : i < files.length) : Finds d 3 files[i].name (6 + i) := by
  have hfile := hproper _ (getElem_mem hi)
  have hlen := length_fileEntries files 6
  have hat : ∀ j (hj : j < files.length) (hj' : 2 + j < (binEntries ++ fileEntries files 6).length),
      (binEntries ++ fileEntries files 6)[2 + j] = (6 + j, files[j].name) := by
    intro j hj hj'
    rw [getElem_append_right (Nat.le_add_right 2 j)]
    simp only [show (2 + j) - binEntries.length = j from Nat.add_sub_cancel_left 2 j]
    exact fileEntries_getElem files 6 (by omega) hj
  have hk : 2 + i < (binEntries ++ fileEntries files 6).length := by
    rw [length_append, hlen]
    exact Nat.add_lt_add_left hi 2
  have hfirst : ∀ j (hj : j < 2 + i), files[i].name.take DIRSIZ ≠
      (binEntries ++ fileEntries files 6)[j].2.take DIRSIZ := by
    intro j hj
    match j with
    | 0 => exact take_ne (show (ascii ".").length < DIRSIZ by decide) hfile.dot
    | 1 => exact take_ne (show (ascii "..").length < DIRSIZ by decide) hfile.dotdot
    | j + 2 =>
      have hji : j < i := by omega
      have hsame : (binEntries ++ fileEntries files 6)[j + 2] = (6 + j, files[j].name) := by
        have := hat j (hji.trans hi) (by omega)
        simpa only [add_comm 2 j] using this
      rw [hsame]
      exact (pairwise_iff_getElem.mp hdistinct j i (hji.trans hi) hi hji).symm
  refine ⟨(2 + i) * DIRENT_SIZE, ?_⟩
  have hlook : (dirlookup sb (dinodeAt sb d 3) files[i].name).run d = _ :=
    h.dirlookup hfile.name_nonzero (entries_valid hroom hproper) hk (by rw [hat i hi hk]) hfirst
  rw [hat i hi hk] at hlook
  exact hlook

lemma mkfs_faithful (hproper : ∀ f ∈ files, f.Proper)
    (hdistinct : files.Pairwise fun f g => f.name.take DIRSIZ ≠ g.name.take DIRSIZ)
    (hroom : files.length + 6 ≤ NINODES) (hrun : mkfs files = .ok s) : Faithful files s := by
  obtain ⟨bin, s1, s2, hskel, hadd, himage, hinode⟩ := mkfs_ok hrun
  have hm : NINODES ≤ ninodeblocks * IPB := by decide
  obtain ⟨rfl, hi1, c, hs1, hc1, hc2, hc3⟩ := skeleton_stands hm (by decide) hskel
  obtain ⟨hi2, c', hs2, hold, hbin, hfiles⟩ := hs1.addFiles hm files (by omega) (by omega) hadd
  rw [hi1] at hi2 hold hbin hfiles
  obtain ⟨hcons, hroot, hrest, hsuper⟩ := hs2.fixed hm (by omega)
    ((hold 1 (by omega) (by omega)).trans hc1)
  rw [← himage] at hcons hroot hrest hsuper
  have hcons : Consistent sb nmeta s.image := hcons
  have husr := hrest 2 (by omega) (by omega)
  have hbin' := hrest 3 (by omega) (by omega)
  have husrLists := lists_of_listing hcons (by decide) husr.1
    (husr.2.trans ((hold 2 (by omega) (by omega)).trans hc2))
  have hbinLists : Lists s.image (dinodeAt sb s.image 3) (binEntries ++ fileEntries files 6) :=
    lists_of_listing hcons (by decide) hbin'.1 (hbin'.2.trans (by rw [hbin, hc3]; simp [listing]))
  refine ⟨?_, ⟨2, 3, ?_, ?_, fun f hf => ?_⟩, fun p b hb => ?_, fun b hlo hhi hfree => ?_,
    fun n hpos hn => ?_⟩
  · rw [hsuper, readsb, sb, Superblock.mk.injEq]
    decide +kernel
  · exact ⟨_, hroot.dirlookup (k := 2) (by decide) (by decide) (by decide) (by decide) (by decide)⟩
  · exact ⟨_, husrLists.dirlookup (k := 2) (by decide) (by decide) (by decide) (by decide) (by decide)⟩
  · obtain ⟨i, hi, rfl⟩ := mem_iff_getElem.mp hf
    have hfile := hrest (6 + i) (by omega) (by omega)
    exact ⟨6 + i, finds_file hbinLists hroom hproper hdistinct hi,
      reads_of_bytes hcons (by omega) hfile.1 (hfile.2.trans (hfiles i hi))⟩
  · exact ⟨hcons.sound.lt_size hb, hcons.sound.mark hb⟩
  · by_contra hused
    rcases (hcons.sound.marked_iff b hhi).mp (Bool.eq_true_of_not_eq_false hused) with hmeta | ⟨p, hp⟩
    · exact absurd hmeta (not_lt.mpr hlo)
    · exact hfree p hp
  · change n < NINODES
    omega

lemma mkfs_freeinode (hrun : mkfs files = .ok s) : s.freeinode = files.length + 6 := by
  obtain ⟨bin, s1, s2, hskel, hadd, -, hinode⟩ := mkfs_ok hrun
  have h₁ : s1.freeinode = 1 + 5 := skeleton_counts _ _ _ hskel
  have h2 := addFiles_counts _ _ _ _ _ hadd
  omega

/-- The image means to the kernel what `mkfs` was given if and only if the
inodes fit into the table. -/
theorem mkfs_faithful_iff {files : List Input} (hproper : ∀ f ∈ files, f.Proper)
    (hdistinct : files.Pairwise fun f g => f.name.take DIRSIZ ≠ g.name.take DIRSIZ)
    (hrun : mkfs files = .ok s) : Faithful files s ↔ files.length + 6 ≤ NINODES := by
  refine ⟨fun h => ?_, fun hroom => mkfs_faithful hproper hdistinct hroom hrun⟩
  have hcount := mkfs_freeinode hrun
  have hlast : files.length + 5 < NINODES := h.numbers _ (by omega) (by omega)
  omega

/-! ## Images of empty files -/

def emptyFile (name : List UInt8) : Input := ⟨name, some []⟩

lemma mkfs_of_isOk (h : (mkfs files).isOk) : ∃ s, mkfs files = .ok s := by
  cases hrun : mkfs files with
  | error e =>
    rw [hrun] at h
    cases h
  | ok s => exact ⟨s, rfl⟩

/-- One file is found. -/
theorem mkfs_faithful_iff_one : ∃ s, mkfs [emptyFile (ascii "sh")] = .ok s ∧
    Faithful [emptyFile (ascii "sh")] s := by
  obtain ⟨s, hs⟩ := @mkfs_of_isOk [emptyFile (ascii "sh")] (by decide +kernel)
  exact ⟨s, hs, (@mkfs_faithful_iff s [emptyFile (ascii "sh")] (by
    intro f hf
    obtain rfl := mem_singleton.mp hf
    exact ⟨by decide, by decide, by decide, by decide⟩) (pairwise_singleton ..)
    hs).mpr (by decide)⟩

def names195 : List (List UInt8) :=
  (range 195).map fun i => [UInt8.ofNat (97 + i / 26), UInt8.ofNat (97 + i % 26)]

/-- With 195 files, the last of them gets inode 200. -/
theorem mkfs_past_table : (∀ f ∈ names195.map emptyFile, f.Proper) ∧
    ((names195.map emptyFile).Pairwise fun f g => f.name.take DIRSIZ ≠ g.name.take DIRSIZ) ∧
    ∃ s, mkfs (names195.map emptyFile) = .ok s ∧ ¬ Faithful (names195.map emptyFile) s := by
  have hproper : ∀ f ∈ names195.map emptyFile, f.Proper := by
    have hall : ∀ f ∈ names195.map emptyFile, Nonzero f.path ∧ f.name ≠ [] ∧
        f.name ≠ ascii "." ∧ f.name ≠ ascii ".." := by decide +kernel
    intro f hf
    obtain ⟨hnz, hname, hdot, hdotdot⟩ := hall f hf
    exact ⟨hnz, hname, hdot, hdotdot⟩
  have hnames : (names195.map emptyFile).map (fun f => f.name.take DIRSIZ) = names195 := by
    decide +kernel
  have hnodup : names195.Nodup := by
    refine nodup_range.map_on fun i hi j hj heq => ?_
    simp only [List.cons.injEq, and_true, ← UInt8.toNat_inj, UInt8.toNat_ofNat'] at heq
    have hi := mem_range.mp hi
    have hj := mem_range.mp hj
    omega
  have hdistinct : (names195.map emptyFile).Pairwise fun f g =>
      f.name.take DIRSIZ ≠ g.name.take DIRSIZ := by
    rw [← hnames] at hnodup
    exact pairwise_map.mp hnodup
  obtain ⟨s, hs⟩ := @mkfs_of_isOk (names195.map emptyFile) (by decide +kernel)
  refine ⟨hproper, hdistinct, s, hs, fun h => ?_⟩
  have hcount := mkfs_freeinode hs
  have hlast := h.numbers 200 (by decide) (by rw [hcount]; decide +kernel)
  exact absurd hlast (by decide)

end Proninx.Mkfs
