import Proninx.Kern.Ufs2Sound
import Proninx.Lib.Runs

/-!
# UFS2 directories over whole runs

On a sound volume with tiled regions the two modifying calls are
described by what they do to the live entries, and both properties are
kept, as long as no insertion leaves exactly four bytes of the record it
splits (`LeavesFour`).
-/

namespace Proninx.Ufs2

open Blockdev ByteMem List Prog Tiling

variable {v : Volume} {dino : Nat} {m m' : Mem} {inode : Inode} {off : Nat} {d : Disk}

/-! ## The walk over all regions -/

/-- Region and offset of the first record that passes, regions counted from `r`. -/
def firstRecord (test : Mem → Nat → Bool) : (r : Nat) → List Mem → Option (Nat × Nat)
  | _, [] => none
  | r, x :: c =>
    match (regionRecords x).find? (test x) with
    | some o => some (r, o)
    | none => firstRecord test (r + 1) c

variable {test : Mem → Nat → Bool} {c : List Mem}

lemma firstRecord_some : ∀ {r s o : Nat},
    firstRecord test r c = some (s, o) → ∃ pre x post, c = pre ++ x :: post ∧
      s = r + pre.length ∧ o ∈ regionRecords x ∧ test x o := by
  induction c with
  | nil => intro r s o h; cases h
  | cons x c ih => ?_
  intro r s o h
  unfold firstRecord at h
  split at h
  · next p hp =>
    cases h
    exact ⟨[], x, c, rfl, rfl, mem_of_find?_eq_some hp, find?_some hp⟩
  obtain ⟨pre, y, post, rfl, rfl, ho, htest⟩ := ih h
  refine ⟨x :: pre, y, post, rfl, ?_, ho, htest⟩
  rw [length_cons]
  omega

lemma firstRecord_none : ∀ {r : Nat},
    firstRecord test r c = none ↔ ∀ x ∈ c, ∀ o ∈ regionRecords x, test x o = false := by
  induction c with
  | nil => exact fun {r} => ⟨fun _ => nofun, fun _ => rfl⟩
  | cons x c ih => ?_
  intro r
  rw [forall_mem_cons, ← @ih (r + 1), firstRecord]
  cases hfind : (regionRecords x).find? (test x) with
  | none =>
    refine ⟨fun h => ⟨fun o ho => ?_, h⟩, fun h => h.2⟩
    simpa using find?_eq_none.mp hfind o ho
  | some o => ?_
  refine iff_of_false (by simp) fun h => ?_
  have := h.1 o (mem_of_find?_eq_some hfind)
  rw [find?_some hfind] at this
  cases this

lemma firstRecord_append (e : List Mem) : ∀ {r : Nat}, firstRecord test r c = none →
      firstRecord test r (c ++ e) = firstRecord test (r + c.length) e := by
  induction c with
  | nil => exact fun _ => rfl
  | cons x c ih => ?_
  intro r h
  unfold firstRecord at h
  rw [cons_append, firstRecord]
  split at h
  · cases h
  rw [length_cons, show r + (c.length + 1) = r + 1 + c.length by omega]
  exact ih h

def AllTiled (c : List Mem) : Prop := ∀ x ∈ c, Tiled x

lemma Sound.size_eq (h : Sound v dino m inode off) :
    inode.size = regionCount inode * DIR_BLOCK_SIZE := by
  have := h.size
  unfold regionCount DIR_BLOCK_SIZE at *
  omega

lemma Sound.scan_run (h : Sound v dino (v.bytes d) inode off) {α : Type} (test : Mem → Nat → Bool)
    (found : (fileOffset toRead : Nat) → Mem → Nat → Prog (Option α)) (rest : Prog (Option α))
    (k : Nat) : ∀ r fuel, r + k = regionCount inode → k < fuel →
      AllTiled ((range' r k).map (region v (v.bytes d) inode)) →
      (scanDirectory v inode test found rest fuel (r * DIR_BLOCK_SIZE)).run d
        = match firstRecord test r ((range' r k).map (region v (v.bytes d) inode)) with
          | some (s, o) => (found (s * DIR_BLOCK_SIZE) DIR_BLOCK_SIZE
              (region v (v.bytes d) inode s) o).run d
          | none => rest.run d := by
  have hsize := h.size_eq
  induction k with
  | zero =>
    intro r fuel hr hf _
    obtain ⟨fuel, rfl⟩ : ∃ n, fuel = n + 1 := ⟨fuel - 1, by omega⟩
    rw [scanDirectory, if_neg (by rw [hsize, ← hr, add_zero]; exact lt_irrefl _)]
    rfl
  | succ k ih => ?_
  intro r fuel hr hf ht
  obtain ⟨fuel, rfl⟩ : ∃ n, fuel = n + 1 := ⟨fuel - 1, by omega⟩
  have hlt : r < regionCount inode := by omega
  obtain ⟨hin, hmin⟩ := region_room hlt
  rw [range'_succ, map_cons] at ht ⊢
  obtain ⟨⟨os, hos⟩, htail⟩ := forall_mem_cons.mp ht
  rw [scanDirectory, if_pos hin]
  rw [hmin, run_andThen_some (h.read_region hlt), scanRegion_eq _ hos, firstRecord,
    regionRecords_eq hos]
  cases os.find? (test (region v (v.bytes d) inode r)) with
  | some o => rfl
  | none => ?_
  have hih := ih (r + 1) fuel (by omega) (by omega) htail
  rw [add_mul, one_mul] at hih
  exact hih

lemma Sound.scan (h : Sound v dino (v.bytes d) inode off)
    (ht : AllTiled (contents v (v.bytes d) inode)) {α : Type} (test : Mem → Nat → Bool)
    (found : (fileOffset toRead : Nat) → Mem → Nat → Prog (Option α)) (rest : Prog (Option α)) :
    (scanDirectory v inode test found rest (scanFuel inode) 0).run d
      = match firstRecord test 0 (contents v (v.bytes d) inode) with
        | some (s, o) => (found (s * DIR_BLOCK_SIZE) DIR_BLOCK_SIZE
            (region v (v.bytes d) inode s) o).run d
        | none => rest.run d := by
  unfold contents at ht ⊢
  rw [range_eq_range'] at ht ⊢
  have hrun := h.scan_run test found rest (regionCount inode) 0 (scanFuel inode)
    (zero_add _) (by unfold scanFuel regionCount; omega) ht
  rwa [zero_mul] at hrun

/-! ## Entries -/

def entries (c : List Mem) : List (List UInt8 × Nat) := c.flatMap regionPairs

lemma mem_entries {p : List UInt8 × Nat} :
    p ∈ entries c ↔ ∃ x ∈ c, ∃ o ∈ regionRecords x, livePair x o = some p := by
  unfold entries regionPairs
  simp only [mem_flatMap, mem_filterMap]

variable {name : List UInt8} {x : Mem} {o : Nat}

lemma hasName_iff : hasName name x o ↔ livePair x o = some (name, recInode x o) := by
  unfold hasName livePair
  have hlen : (recName x o).length = recNameLength x o := by simp [recName, toList]
  by_cases h0 : recInode x o = 0
  · simp [h0]
  rw [if_neg h0]
  simp only [bne_iff_ne, ne_eq, Bool.and_eq_true, beq_iff_eq, Option.some.injEq, Prod.mk.injEq,
    and_true, h0, not_false_eq_true, true_and]
  exact ⟨fun h => h.2, fun h => ⟨by rw [← hlen, h], h⟩⟩

lemma firstRecord_hasName_none :
    firstRecord (hasName name) 0 c = none ↔ ∀ p ∈ entries c, p.1 ≠ name := by
  rw [firstRecord_none]
  constructor
  · rintro h p hp rfl
    obtain ⟨x, hx, o, ho, hpair⟩ := mem_entries.mp hp
    have hfalse := h x hx o ho
    have hino : p.2 = recInode x o := by
      unfold livePair at hpair
      split at hpair
      · cases hpair
      · cases hpair; rfl
    rw [hasName_iff.mpr (by rw [hpair, ← hino])] at hfalse
    cases hfalse
  · intro h x hx o ho
    cases htest : hasName name x o with
    | false => rfl
    | true => exact absurd rfl (h _ (mem_entries.mpr ⟨x, hx, o, ho, hasName_iff.mp htest⟩))

variable {pre post : List Mem} {y : Mem}

lemma entries_insert {p : List UInt8 × Nat} (h : (regionPairs y).Perm (p :: regionPairs x)) :
    (entries (pre ++ y :: post)).Perm (p :: entries (pre ++ x :: post)) := by
  unfold entries
  rw [flatMap_append, flatMap_append, flatMap_cons, flatMap_cons]
  calc (pre.flatMap regionPairs ++ (regionPairs y ++ post.flatMap regionPairs)).Perm
        (pre.flatMap regionPairs ++ (p :: regionPairs x ++ post.flatMap regionPairs)) :=
        (h.append_right _).append_left _
    _ |>.Perm (p :: (pre.flatMap regionPairs ++ (regionPairs x ++ post.flatMap regionPairs))) :=
        perm_middle

/-! ## Storing one region of the contents -/

lemma contents_middle (hc : contents v m inode = pre ++ x :: post) :
    pre.length < regionCount inode ∧ region v m inode pre.length = x := by
  have hlen := congrArg List.length hc
  rw [contents_length, length_append, length_cons] at hlen
  have hlt : pre.length < regionCount inode := by omega
  have hget := congrArg (fun c => (c)[pre.length]?) hc
  rw [contents, getElem?_append_right le_rfl, Nat.sub_self,
    getElem?_cons_zero, getElem?_map, getElem?_range hlt] at hget
  exact ⟨hlt, Option.some.inj hget⟩

variable {r : Nat}

lemma contents_set (hc : contents v m inode = pre ++ x :: post) (hr : r = pre.length)
    (hy : region v m' inode r = y)
    (hsame : ∀ s < regionCount inode, s ≠ r → region v m' inode s = region v m inode s) :
    contents v m' inode = pre ++ y :: post := by
  have hset : pre ++ y :: post = (contents v m inode).set r y := by
    rw [hc, hr, set_append_right _ _ le_rfl, Nat.sub_self, set_cons_zero]
  rw [hset]
  refine ext_getElem (by rw [length_set, contents_length, contents_length]) ?_
  intro s hs _
  rw [contents_length] at hs
  simp only [contents, getElem_set, getElem_map, getElem_range]
  split
  · next heq => rw [← heq, hy]
  · next hne => exact hsame s hs (Ne.symm hne)

lemma Sound.store (h : Sound v dino (v.bytes d) inode off)
    (hc : contents v (v.bytes d) inode = pre ++ x :: post) (src : Mem) :
    ∃ d', (writeExisting v inode (pre.length * DIR_BLOCK_SIZE) src DIR_BLOCK_SIZE).run d
        = .ok (some (), d') ∧ Sound v dino (v.bytes d') inode off ∧
      contents v (v.bytes d') inode = pre ++ window src 0 DIR_BLOCK_SIZE :: post := by
  obtain ⟨d', hrun, hsound, hr, hne⟩ := h.write_region (contents_middle hc).1 src
  exact ⟨d', hrun, hsound, contents_set hc rfl hr hne⟩

variable {n : Nat}

/-- A region is zero behind its end, and so is what an operation within
its records makes of it. -/
lemma window_of_region (hx : region v m inode r = x)
    (hn : o + n ≤ DIR_BLOCK_SIZE) (hy : ∀ i, i < o ∨ o + n ≤ i → y i = x i) :
    window y 0 DIR_BLOCK_SIZE = y := by
  funext i
  by_cases hi : i < DIR_BLOCK_SIZE
  · rw [window_apply hi, zero_add]
  · rw [hy i (by omega), ← hx, region, window, window, blit_out (by omega), blit_out (by omega)]

/-! ## What can be linked -/

/-- The arguments `ufs2_dirlink` accepts. -/
structure Linkable (name : List UInt8) (inodeNumber : Nat) (type : UInt8) : Prop where
  inode : ROOT_INO ≤ inodeNumber
  name : nameLength name ≠ none
  type : type = DIRTYPE_REG ∨ type = DIRTYPE_DIR

instance (name : List UInt8) (inodeNumber : Nat) (type : UInt8) :
    Decidable (Linkable name inodeNumber type) :=
  decidable_of_iff (ROOT_INO ≤ inodeNumber ∧ nameLength name ≠ none ∧
    (type = DIRTYPE_REG ∨ type = DIRTYPE_DIR)) ⟨fun ⟨a, b, c⟩ => ⟨a, b, c⟩, fun ⟨a, b, c⟩ => ⟨a, b, c⟩⟩

variable {inodeNumber : Nat} {type : UInt8}

lemma Linkable.length_le (h : Linkable name inodeNumber type) : name.length ≤ MAX_NAME := by
  have hname := h.name
  unfold nameLength at hname
  split at hname
  · exact absurd rfl hname
  · next hlen => omega

def LeavesFour (c : List Mem) (name : List UInt8) : Prop :=
  ∃ r o x, firstRecord (hasRoom (dirRecordSize name.length)) 0 c = some (r, o) ∧ (c)[r]? = some x ∧
    available x o = dirRecordSize name.length + 4

lemma not_overruns (h : RecordOk x o)
    (hend : o + recLength x o ≤ DIR_BLOCK_SIZE) (hroom : hasRoom (dirRecordSize name.length) x o)
    (hfour : available x o ≠ dirRecordSize name.length + 4) : ¬ Overruns x o name := by
  obtain ⟨hle, hnew, h4, -⟩ := room_facts h hroom
  have hb := dirRecordSize_bounds name.length
  unfold Overruns
  omega

section Walks

/-! ## Lookup and removal -/

variable (h : Sound v dino (v.bytes d) inode off) (ht : AllTiled (contents v (v.bytes d) inode))
include h ht

lemma Sound.lookup_run (hname : nameLength name ≠ none) : (lookup v dino name).run d
      = .ok ((firstRecord (hasName name) 0 (contents v (v.bytes d) inode)).map
          fun p => recInode (region v (v.bytes d) inode p.1) p.2, d) := by
  rw [lookup, if_neg hname, run_andThen_some (h.inode_eq ▸ readInode_run v dino d),
    if_neg (by rw [h.mode]; decide), h.scan ht]
  cases firstRecord (hasName name) 0 (contents v (v.bytes d) inode) with
  | none => rfl
  | some p => rfl

lemma Sound.dirunlink_found (hname : nameLength name ≠ none)
    (hfirst : firstRecord (hasName name) 0 (contents v (v.bytes d) inode) = some (pre.length, o))
    (hc : contents v (v.bytes d) inode = pre ++ x :: post) :
    ∃ d', (dirunlink v dino name).run d = .ok (some (recInode x o), d') ∧
      Sound v dino (v.bytes d') inode off ∧
      contents v (v.bytes d') inode = pre ++ window (writeLe 4 x o 0) 0 DIR_BLOCK_SIZE :: post := by
  obtain ⟨d', hrun, hsound, hc'⟩ := h.store hc (writeLe 4 x o 0)
  refine ⟨d', ?_, hsound, hc'⟩
  rw [dirunlink, if_neg hname, run_andThen_some (h.inode_eq ▸ readInode_run v dino d),
    if_neg (by rw [h.mode]; decide), h.scan ht, hfirst]
  dsimp only
  rw [(contents_middle hc).2, run_andThen_some hrun]
  rfl

lemma Sound.dirunlink_absent
    (hfirst : firstRecord (hasName name) 0 (contents v (v.bytes d) inode) = none) :
    (dirunlink v dino name).run d = .ok (none, d) := by
  rw [dirunlink]
  split
  · rfl
  rw [run_andThen_some (h.inode_eq ▸ readInode_run v dino d),
    if_neg (by rw [h.mode]; decide), h.scan ht, hfirst]
  rfl

/-! ## Insertion -/

lemma Sound.dirlinkLoop_absent (hl : Linkable name inodeNumber type)
    (habsent : firstRecord (hasName name) 0 (contents v (v.bytes d) inode) = none) (fuel : Nat) :
    (dirlinkLoop v dino name inodeNumber type (fuel + 1)).run d
      = match firstRecord (hasRoom (dirRecordSize name.length)) 0
            (contents v (v.bytes d) inode) with
        | some (r, o) =>
          (if Overruns (region v (v.bytes d) inode r) o name then panic .overrun
            else writeExisting v inode (r * DIR_BLOCK_SIZE)
              (insertRecord (region v (v.bytes d) inode r) o name inodeNumber type)
              DIR_BLOCK_SIZE).run d
        | none => ((growDirectory v dino inode).andThen fun _ =>
          dirlinkLoop v dino name inodeNumber type fuel).run d := by
  have hargs : ¬ (inodeNumber < ROOT_INO ∨ nameLength name = none) := fun hbad =>
    hbad.elim (fun hlt => absurd hl.inode (not_le.mpr hlt)) hl.name
  have htype : ¬ (inode.mode &&& IFMT ≠ IFDIR ∨ (type ≠ DIRTYPE_REG ∧ type ≠ DIRTYPE_DIR)) := by
    rw [h.mode]
    exact fun hbad => hbad.elim (fun hne => hne rfl) fun hne => hl.type.elim hne.1 hne.2
  rw [dirlinkLoop, if_neg hargs, run_andThen_some (h.inode_eq ▸ readInode_run v dino d),
    if_neg htype, run_bind_ok (h.lookup_run ht hl.name), habsent]
  exact h.scan ht _ _ _

lemma Sound.dirlink_refused (hbad : ¬ Linkable name inodeNumber type ∨
      firstRecord (hasName name) 0 (contents v (v.bytes d) inode) ≠ none) :
    (dirlink v dino name inodeNumber type).run d = .ok (none, d) := by
  rw [dirlink, dirlinkLoop]
  split
  · rfl
  next hargs =>
  rw [not_or] at hargs
  rw [run_andThen_some (h.inode_eq ▸ readInode_run v dino d)]
  split
  · rfl
  next htype =>
  rw [not_or, not_and_or] at htype
  have hl : Linkable name inodeNumber type :=
    ⟨not_lt.mp hargs.1, hargs.2, htype.2.imp not_not.mp not_not.mp⟩
  rw [run_bind_ok (h.lookup_run ht hl.name)]
  cases hfirst : firstRecord (hasName name) 0 (contents v (v.bytes d) inode) with
  | none => exact (hbad.elim (absurd hl) (absurd hfirst))
  | some p => rfl

lemma Sound.insert_stored (hl : Linkable name inodeNumber type)
    (habsent : firstRecord (hasName name) 0 (contents v (v.bytes d) inode) = none)
    (hc : contents v (v.bytes d) inode = pre ++ x :: post)
    (hfirst : firstRecord (hasRoom (dirRecordSize name.length)) 0
      (contents v (v.bytes d) inode) = some (pre.length, o)) (hno : ¬ Overruns x o name)
    (fuel : Nat) :
    ∃ d', (dirlinkLoop v dino name inodeNumber type (fuel + 1)).run d = .ok (some (), d') ∧
      Sound v dino (v.bytes d') inode off ∧ contents v (v.bytes d') inode
        = pre ++ window (insertRecord x o name inodeNumber type) 0 DIR_BLOCK_SIZE :: post := by
  obtain ⟨d', hrun, hsound, hc'⟩ := h.store hc (insertRecord x o name inodeNumber type)
  refine ⟨d', ?_, hsound, hc'⟩
  rw [h.dirlinkLoop_absent ht hl habsent, hfirst]
  dsimp only
  rw [(contents_middle hc).2, if_neg hno]
  exact hrun

lemma Sound.insert_record (hl : Linkable name inodeNumber type) (h32 : inodeNumber < 2 ^ 32)
    (habsent : firstRecord (hasName name) 0 (contents v (v.bytes d) inode) = none) {fuel : Nat}
    (hc : contents v (v.bytes d) inode = pre ++ x :: post)
    (hfirst : firstRecord (hasRoom (dirRecordSize name.length)) 0
      (contents v (v.bytes d) inode) = some (pre.length, o)) (ho : o ∈ regionRecords x)
    (hroom : hasRoom (dirRecordSize name.length) x o)
    (hfour : available x o ≠ dirRecordSize name.length + 4) :
    ∃ d' y, (dirlinkLoop v dino name inodeNumber type (fuel + 1)).run d = .ok (some (), d') ∧
      Sound v dino (v.bytes d') inode off ∧
      contents v (v.bytes d') inode = pre ++ y :: post ∧ Tiled y ∧
      (regionPairs y).Perm ((name, inodeNumber) :: regionPairs x) ∧
      ∀ i, i < o ∨ o + recLength x o ≤ i → y i = x i := by
  obtain ⟨-, hx⟩ := contents_middle hc
  obtain ⟨os, hos⟩ := ht x (hc ▸ mem_append_right _ mem_cons_self)
  rw [regionRecords_eq hos] at ho
  obtain ⟨hok, -, hend⟩ := hos.mem ho
  rw [dirFormat_len] at hend
  have hino : inodeNumber ≠ 0 := by
    have := hl.inode
    unfold ROOT_INO at this
    omega
  obtain ⟨htiled, hperm⟩ := insertRecord_region type hos ho hroom hl.length_le hino h32 hfour
  have hout : ∀ i, i < o ∨ o + recLength x o ≤ i → insertRecord x o name inodeNumber type i = x i :=
    fun i hi => insertRecord_out hok hroom hfour hi
  obtain ⟨d', hrun, hsound, hc'⟩ := h.insert_stored ht hl habsent hc hfirst
    (not_overruns hok hend hroom hfour) fuel
  rw [window_of_region hx hend hout] at hc'
  exact ⟨d', _, hrun, hsound, hc', htiled, hperm, hout⟩

end Walks

/-! ## A region of one free record -/

lemma freeRegion_record : RecordOk freeRegion 0 ∧ recLength freeRegion 0 = DIR_BLOCK_SIZE ∧
    recInode freeRegion 0 = 0 := by
  have hlen : recLength freeRegion 0 = DIR_BLOCK_SIZE := readLe_writeLe_of_lt (by decide)
  have hname : recNameLength freeRegion 0 = 0 := by decide
  have hino : recInode freeRegion 0 = 0 := by decide
  exact ⟨⟨by rw [hlen]; decide, by rw [hlen]; decide, by rw [hlen, hname]; decide⟩, hlen, hino⟩

lemma freeRegion_tiles : Tiles dirFormat freeRegion 0 DIR_BLOCK_SIZE [0] := by
  refine .cons freeRegion_record.1 ?_
  rw [dirFormat_len, freeRegion_record.2.1]
  exact .nil

lemma regionPairs_freeRegion : regionPairs freeRegion = [] := by
  rw [regionPairs, regionRecords_eq freeRegion_tiles, filterMap_cons, livePair,
    if_pos freeRegion_record.2.2]
  rfl

lemma entries_append_free (c : List Mem) (k : Nat) :
    entries (c ++ replicate k freeRegion) = entries c := by
  have hfree : (replicate k freeRegion).flatMap regionPairs = [] := by
    rw [flatMap_eq_nil_iff]
    intro x hx
    rw [eq_of_mem_replicate hx, regionPairs_freeRegion]
  rw [entries, flatMap_append, hfree, append_nil, entries]

lemma hasRoom_freeRegion (hname : name.length ≤ MAX_NAME) :
    hasRoom (dirRecordSize name.length) freeRegion 0 ∧
      available freeRegion 0 ≠ dirRecordSize name.length + 4 := by
  obtain ⟨-, hlen, hino⟩ := freeRegion_record
  have hb := dirRecordSize_bounds name.length
  unfold MAX_NAME at hname
  unfold DIR_HEADER_SIZE at hb
  unfold hasRoom available newOffset
  rw [if_pos hino, if_pos hino, hlen, decide_eq_true_eq]
  unfold DIR_BLOCK_SIZE
  omega

/-! ## Calls -/

inductive Call where
  | link (name : List UInt8) (inodeNumber : UInt32) (type : UInt8)
  | unlink (name : List UInt8)
  deriving DecidableEq, Repr

/-- `none` is -1. A removal returns the number of the inode it named. -/
def Call.prog (v : Volume) (dino : Nat) : Call → Prog (Option Nat)
  | .link name inodeNumber type =>
    (dirlink v dino name inodeNumber.toNat type).andThen fun _ => pure (some 0)
  | .unlink name => dirunlink v dino name

/-- The regions of directory `dino` on a disk. -/
def directory (v : Volume) (dino : Nat) (d : Disk) : List Mem :=
  ((inodeAt v (v.bytes d) dino).map (contents v (v.bytes d))).getD []

/-- The volume around directory `dino` is sound. -/
def Consistent (v : Volume) (dino : Nat) (d : Disk) : Prop :=
  ∃ inode off, Sound v dino (v.bytes d) inode off

lemma Sound.directory_eq (h : Sound v dino (v.bytes d) inode off) :
    directory v dino d = contents v (v.bytes d) inode := by
  rw [directory, h.inode_eq]
  rfl

/-- No byte of a region of `c` changes outside record `o` of region `r`. -/
def Outside (c c' : List Mem) (r o : Nat) : Prop :=
  ∀ s x, (c)[s]? = some x → ∃ y, c'[s]? = some y ∧
    ∀ i, i < DIR_BLOCK_SIZE → ¬ (s = r ∧ o ≤ i ∧ i < o + recLength x o) → y i = x i

/-- What a call may do to a directory: nothing if it fails; otherwise one
entry comes or goes and only the record chosen changes, which may lie in
a new region. -/
def Effect (c c' : List Mem) : Call → Option Nat → Prop
  | _, none => c' = c
  | .link name inodeNumber _, some _ =>
    (∀ p ∈ entries c, p.1 ≠ name) ∧
    (entries c').Perm ((name, inodeNumber.toNat) :: entries c) ∧
    ∃ r o, (∀ x, (c)[r]? = some x → o ∈ regionRecords x) ∧ Outside c c' r o
  | .unlink name, some inodeNumber =>
    (entries c).Perm ((name, inodeNumber) :: entries c') ∧
    ∃ r o, (∃ x, (c)[r]? = some x ∧ o ∈ regionRecords x) ∧ Outside c c' r o

/-- The call inserts into a record of which exactly four bytes are left. -/
def Call.LeavesFour (c : List Mem) : Call → Prop
  | .link name inodeNumber type => Linkable name inodeNumber.toNat type ∧
      (∀ p ∈ entries c, p.1 ≠ name) ∧ Ufs2.LeavesFour c name
  | .unlink _ => False

lemma outside_middle (hout : ∀ i, i < o ∨ o + recLength x o ≤ i → y i = x i) :
    Outside (pre ++ x :: post) (pre ++ y :: post) pre.length o := by
  intro s z hz
  rcases Nat.lt_trichotomy s pre.length with hlt | rfl | hgt
  · rw [getElem?_append_left hlt] at hz
    exact ⟨z, by rw [getElem?_append_left hlt, hz], fun _ _ _ => rfl⟩
  · rw [getElem?_append_right le_rfl, Nat.sub_self, getElem?_cons_zero] at hz
    cases hz
    refine ⟨y, by rw [getElem?_append_right le_rfl, Nat.sub_self,
      getElem?_cons_zero], fun i _ hi => hout i (by omega)⟩
  obtain ⟨k, hk⟩ : ∃ k, s - pre.length = k + 1 := ⟨s - pre.length - 1, by omega⟩
  rw [getElem?_append_right (by omega), hk, getElem?_cons_succ] at hz
  exact ⟨z, by rw [getElem?_append_right (by omega), hk, getElem?_cons_succ, hz], fun _ _ _ => rfl⟩

variable {c' : List Mem}

lemma Outside.of_append {e : List Mem} (h : Outside (c ++ e) c' c.length o) :
    Outside c c' c.length o := fun s x hx => by
  have hlt := (List.getElem?_eq_some_iff.mp hx).1
  exact h s x (by rw [List.getElem?_append_left hlt, hx])

lemma allTiled_middle (h : AllTiled (pre ++ x :: post))
    (hy : Tiled y) : AllTiled (pre ++ y :: post) := by
  intro z hz
  rcases mem_append.mp hz with hz | hz
  · exact h z (mem_append_left _ hz)
  rcases mem_cons.mp hz with rfl | hz
  · exact hy
  · exact h z (mem_append_right _ (mem_cons_of_mem _ hz))

/-! ## One call -/

/-- The call returns, the volume is sound again, the regions are tiled
again, and the entries changed as they should. -/
def Meets (v : Volume) (dino : Nat) (d : Disk) (call : Call) (result : Option Nat) (d' : Disk) :
    Prop :=
  (call.prog v dino).run d = .ok (result, d') ∧ Consistent v dino d' ∧
    AllTiled (directory v dino d') ∧ Effect (directory v dino d) (directory v dino d') call result

variable {call : Call} {d' : Disk}

/-- A directory without room that has grown: the first new region is where
the next record goes. -/
lemma grown_contents (hp : v.Probed) (ht : AllTiled c) (hname : name.length ≤ MAX_NAME)
    (hfirst : firstRecord (hasRoom (dirRecordSize name.length)) 0 c = none)
    (hc' : c' = c ++ replicate (v.blockSize / DIR_BLOCK_SIZE) freeRegion) :
    (∃ k, v.blockSize / DIR_BLOCK_SIZE = k + 1) ∧ AllTiled c' ∧ entries c' = entries c ∧
      firstRecord (hasRoom (dirRecordSize name.length)) 0 c' = some (c.length, 0) := by
  obtain ⟨k, hk⟩ : ∃ k, v.blockSize / DIR_BLOCK_SIZE = k + 1 := by
    have := hp.blockMin
    exact ⟨v.blockSize / DIR_BLOCK_SIZE - 1, by unfold DIR_BLOCK_SIZE; omega⟩
  obtain ⟨hroom, -⟩ := hasRoom_freeRegion hname
  subst hc'
  refine ⟨⟨k, hk⟩, fun x hx => ?_, entries_append_free _ _, ?_⟩
  · rcases mem_append.mp hx with hx | hx
    · exact ht x hx
    rw [eq_of_mem_replicate hx]
    exact ⟨[0], freeRegion_tiles⟩
  · rw [hk, firstRecord_append _ hfirst, replicate_succ, firstRecord,
      regionRecords_eq freeRegion_tiles, find?_cons_of_pos hroom, zero_add]

section OneCall

variable (h : Sound v dino (v.bytes d) inode off) (ht : AllTiled (contents v (v.bytes d) inode))
include h ht

lemma Sound.meets_none (hrun : (call.prog v dino).run d = .ok (none, d'))
    (h' : Sound v dino (v.bytes d') inode off)
    (hc : contents v (v.bytes d') inode = contents v (v.bytes d) inode) :
    ∃ result d', Meets v dino d call result d' := by
  refine ⟨none, d', hrun, ⟨inode, off, h'⟩, ?_, ?_⟩
  · rw [h'.directory_eq, hc]
    exact ht
  rw [h'.directory_eq, h.directory_eq, hc]
  cases call <;> rfl

lemma Sound.unlink_meets (name : List UInt8) :
    ∃ result d', Meets v dino d (.unlink name) result d' := by
  by_cases hname : nameLength name = none
  · exact h.meets_none ht (by rw [Call.prog, dirunlink, if_pos hname]; rfl) h rfl
  cases hfirst : firstRecord (hasName name) 0 (contents v (v.bytes d) inode) with
  | none => exact h.meets_none ht (h.dirunlink_absent ht hfirst) h rfl
  | some p => ?_
  obtain ⟨r, o⟩ := p
  obtain ⟨pre, x, post, hc, hr, ho, htest⟩ := firstRecord_some hfirst
  rw [zero_add] at hr
  subst hr
  obtain ⟨d', hrun, hsound, hc'⟩ := h.dirunlink_found ht hname hfirst hc
  obtain ⟨os, hos⟩ := ht x (hc ▸ mem_append_right _ mem_cons_self)
  have ho' := ho
  rw [regionRecords_eq hos] at ho'
  have hpair := hasName_iff.mp htest
  have hlive : recInode x o ≠ 0 := fun h0 => by
    rw [livePair, if_pos h0] at hpair
    cases hpair
  rw [livePair, if_neg hlive] at hpair
  obtain ⟨htiled, hperm, hout⟩ := removeRecord_region hos ho' hlive
  obtain ⟨-, -, hend⟩ := hos.mem ho'
  rw [window_of_region (contents_middle hc).2 hend hout] at hc'
  have hx : (pre ++ x :: post)[pre.length]? = some x := by
    rw [getElem?_append_right le_rfl, Nat.sub_self, getElem?_cons_zero]
  refine ⟨_, d', hrun, ⟨inode, off, hsound⟩, ?_, ?_⟩
  · rw [hsound.directory_eq, hc']
    exact allTiled_middle (hc ▸ ht) htiled
  rw [hsound.directory_eq, h.directory_eq, hc', hc]
  refine ⟨entries_insert ?_, pre.length, o, ⟨x, hx, ho⟩, outside_middle hout⟩
  rwa [(Prod.mk.inj (Option.some.inj hpair)).1] at hperm

lemma Sound.insert_meets {inodeNumber : UInt32} (hl : Linkable name inodeNumber.toNat type)
    (habsent : ∀ p ∈ entries (contents v (v.bytes d) inode), p.1 ≠ name)
    (hc : contents v (v.bytes d) inode = pre ++ x :: post)
    (hfirst : firstRecord (hasRoom (dirRecordSize name.length)) 0
      (contents v (v.bytes d) inode) = some (pre.length, o)) (ho : o ∈ regionRecords x)
    (hroom : hasRoom (dirRecordSize name.length) x o)
    (hfour : available x o ≠ dirRecordSize name.length + 4) (fuel : Nat) :
    ∃ d', (dirlinkLoop v dino name inodeNumber.toNat type (fuel + 1)).run d = .ok (some (), d') ∧
      Consistent v dino d' ∧ AllTiled (directory v dino d') ∧
      (entries (directory v dino d')).Perm
        ((name, inodeNumber.toNat) :: entries (contents v (v.bytes d) inode)) ∧
      Outside (contents v (v.bytes d) inode) (directory v dino d') pre.length o := by
  obtain ⟨d', y, hrun, hsound, hc', htiled, hperm, hout⟩ := h.insert_record ht hl
    inodeNumber.toNat_lt (firstRecord_hasName_none.mpr habsent) hc hfirst ho hroom hfour
  refine ⟨d', hrun, ⟨inode, off, hsound⟩, ?_⟩
  rw [hsound.directory_eq, hc', hc]
  exact ⟨allTiled_middle (hc ▸ ht) htiled, entries_insert hperm, outside_middle hout⟩

lemma Sound.link_meets (name : List UInt8) (inodeNumber : UInt32) (type : UInt8)
    (hfour : ¬ Call.LeavesFour (contents v (v.bytes d) inode) (.link name inodeNumber type)) :
    ∃ result d', Meets v dino d (.link name inodeNumber type) result d' := by
  by_cases hbad : ¬ Linkable name inodeNumber.toNat type ∨
      firstRecord (hasName name) 0 (contents v (v.bytes d) inode) ≠ none
  · exact h.meets_none ht (run_andThen_none (h.dirlink_refused ht hbad)) h rfl
  rw [not_or, not_not, not_not] at hbad
  obtain ⟨hl, hnone⟩ := hbad
  have habsent := firstRecord_hasName_none.mp hnone
  cases hfirst : firstRecord (hasRoom (dirRecordSize name.length)) 0
      (contents v (v.bytes d) inode) with
  | some p =>
    obtain ⟨r, o⟩ := p
    obtain ⟨pre, x, post, hc, hr, ho, hroom⟩ := firstRecord_some hfirst
    rw [zero_add] at hr
    subst hr
    have hx : (contents v (v.bytes d) inode)[pre.length]? = some x := by
      rw [hc, getElem?_append_right le_rfl, Nat.sub_self, getElem?_cons_zero]
    have hne : available x o ≠ dirRecordSize name.length + 4 := fun heq =>
      hfour ⟨hl, habsent, pre.length, o, x, hfirst, hx, heq⟩
    obtain ⟨d', hrun, hcons, htiled, hperm, hout⟩ :=
      h.insert_meets ht hl habsent hc hfirst ho hroom hne (DIRECT_BLOCKS + 1)
    refine ⟨some 0, d', run_andThen_some hrun, hcons, htiled, ?_⟩
    rw [h.directory_eq]
    refine ⟨habsent, hperm, pre.length, o, fun y hy => ?_, hout⟩
    rw [hx] at hy
    cases hy
    exact ho
  | none =>
    -- no record has room: the directory grows, and the retry uses the first new region
    have hloop := h.dirlinkLoop_absent ht hl hnone (DIRECT_BLOCKS + 1)
    rw [hfirst] at hloop
    rcases h.grow with ⟨d1, hgrow, h1, hc1⟩ | ⟨d1, inode1, hgrow, h1, hc1⟩
    · refine h.meets_none ht (run_andThen_none (d := d) ?_) h1 hc1
      exact hloop.trans (run_andThen_none hgrow)
    obtain ⟨hroom, hne⟩ := hasRoom_freeRegion hl.length_le
    obtain ⟨⟨k, hk⟩, ht1, hentries, hfirst1⟩ :=
      grown_contents h.probed ht hl.length_le hfirst hc1
    rw [hk] at hc1
    have hmem : (0 : Nat) ∈ regionRecords freeRegion := by
      rw [regionRecords_eq freeRegion_tiles]
      exact mem_cons_self
    obtain ⟨d', hrun, hcons, htiled, hperm, hout⟩ := h1.insert_meets ht1 hl
      (hentries ▸ habsent) hc1 hfirst1 hmem hroom hne DIRECT_BLOCKS
    have hlink := hloop.trans ((run_andThen_some hgrow).trans hrun)
    refine ⟨some 0, d', run_andThen_some hlink, hcons, htiled, ?_⟩
    rw [h.directory_eq]
    rw [hentries] at hperm
    rw [hc1] at hout
    refine ⟨habsent, hperm, _, 0, fun x hx => ?_, hout.of_append⟩
    rw [getElem?_eq_none le_rfl] at hx
    cases hx

/-- A call that leaves four bytes does not leave a tiled directory: it
stores past the region's buffer, or the region is not tiled any more. -/
lemma Sound.leavesFour_breaks (hfour : call.LeavesFour (contents v (v.bytes d) inode))
    {result : Option Nat} (hrun : (call.prog v dino).run d = .ok (result, d')) :
    ¬ AllTiled (directory v dino d') := by
  cases call with
  | unlink name => exact hfour.elim
  | link name inodeNumber type => ?_
  obtain ⟨hl, habsent, r, o, x, hfirst, hx, hroomFour⟩ := hfour
  obtain ⟨pre, y, post, hc, hr, ho, hroom⟩ := firstRecord_some hfirst
  rw [zero_add] at hr
  subst hr
  rw [hc, getElem?_append_right le_rfl, Nat.sub_self, getElem?_cons_zero] at hx
  cases hx
  obtain ⟨os, hos⟩ := ht x (hc ▸ mem_append_right _ mem_cons_self)
  have hino : inodeNumber.toNat ≠ 0 := by
    have := hl.inode
    unfold ROOT_INO at this
    omega
  have hbad := insertRecord_four type hos (regionRecords_eq hos ▸ ho) hroom hl.length_le hino
    inodeNumber.toNat_lt hroomFour
  have hnone := firstRecord_hasName_none.mpr habsent
  rw [Call.prog, dirlink] at hrun
  by_cases hover : Overruns x o name
  · have hloop := h.dirlinkLoop_absent ht hl hnone (DIRECT_BLOCKS + 1)
    rw [hfirst] at hloop
    dsimp only at hloop
    rw [(contents_middle hc).2, if_pos hover] at hloop
    rw [andThen, run_bind_error hloop] at hrun
    cases hrun
  obtain ⟨d1, hstore, h1, hc1⟩ := h.insert_stored ht hl hnone hc hfirst hover (DIRECT_BLOCKS + 1)
  rw [run_andThen_some hstore] at hrun
  cases hrun
  rw [h1.directory_eq, hc1]
  intro hall
  obtain ⟨ps, hps⟩ := hall _ (mem_append_right _ mem_cons_self)
  refine hbad ⟨ps, hps.congr fun i _ hi => ?_⟩
  rw [window_apply (by omega), zero_add]

end OneCall

/-! ## Whole runs -/

lemma Consistent.meets (h : Consistent v dino d) (ht : AllTiled (directory v dino d)) :
    (∃ result d', Meets v dino d call result d') ↔ ¬ call.LeavesFour (directory v dino d) := by
  obtain ⟨inode, off, h⟩ := h
  rw [h.directory_eq] at ht ⊢
  constructor
  · rintro ⟨result, d', hrun, -, htiled, -⟩ hfour
    exact h.leavesFour_breaks ht hfour hrun htiled
  intro hfour
  cases call with
  | link name inodeNumber type => exact h.link_meets ht name inodeNumber type hfour
  | unlink name => exact h.unlink_meets ht name

lemma Consistent.lookup_entries (h : Consistent v dino d)
    (ht : AllTiled (directory v dino d)) (hname : nameLength name ≠ none) :
    ∃ result, (lookup v dino name).run d = .ok (result, d) ∧
      (∀ n, result = some n → (name, n) ∈ entries (directory v dino d)) ∧
      (result = none → ∀ p ∈ entries (directory v dino d), p.1 ≠ name) := by
  obtain ⟨inode, off, h⟩ := h
  rw [h.directory_eq] at ht ⊢
  refine ⟨_, h.lookup_run ht hname, fun n hn => ?_, fun hnone => ?_⟩
  · obtain ⟨⟨r, o⟩, hfirst, rfl⟩ := Option.map_eq_some_iff.mp hn
    obtain ⟨pre, x, post, hc, hr, ho, htest⟩ := firstRecord_some hfirst
    rw [zero_add] at hr
    subst hr
    rw [(contents_middle hc).2]
    exact mem_entries.mpr ⟨x, hc ▸ mem_append_right _ mem_cons_self, o, ho, hasName_iff.mp htest⟩
  · exact firstRecord_hasName_none.mp (Option.map_eq_none_iff.mp hnone)

/-- No two live entries carry one name. -/
def NamesDistinct (c : List Mem) : Prop := ((entries c).map Prod.fst).Nodup

lemma Effect.namesDistinct {result : Option Nat}
    (he : Effect c c' call result) (h : NamesDistinct c) : NamesDistinct c' := by
  unfold NamesDistinct at *
  cases result with
  | none =>
    have heq : c' = c := by cases call <;> exact he
    rwa [heq]
  | some n => ?_
  cases call with
  | link name inodeNumber type =>
    obtain ⟨habsent, hperm, -⟩ := he
    rw [(hperm.map Prod.fst).nodup_iff, map_cons, nodup_cons]
    refine ⟨fun hmem => ?_, h⟩
    obtain ⟨p, hp, heq⟩ := mem_map.mp hmem
    exact habsent p hp heq
  | unlink name =>
    rw [(he.1.map Prod.fst).nodup_iff, map_cons, nodup_cons] at h
    exact h.2

/-- A call that does not leave four bytes returns. -/
def CleanStep (v : Volume) (dino : Nat) (d : Disk) (call : Call) (d' : Disk) : Prop :=
  ¬ call.LeavesFour (directory v dino d) ∧ ∃ result, (call.prog v dino).run d = .ok (result, d')

lemma CleanStep.meets (hstep : CleanStep v dino d call d')
    (h : Consistent v dino d) (ht : AllTiled (directory v dino d)) :
    ∃ result, Meets v dino d call result d' := by
  obtain ⟨hfour, result, hrun⟩ := hstep
  obtain ⟨result', d'', hmeets⟩ := (h.meets ht).mpr hfour
  rw [hmeets.1] at hrun
  cases hrun
  exact ⟨_, hmeets⟩

/-- From any tiled directory on a sound volume, after any calls none of
which left four bytes: the directory is tiled, lookup reads its entries,
names stay distinct, and the next call does to the entries what it should
exactly when it does not leave four bytes. -/
theorem directory_calls {d₀ : Disk} {calls : List Call} (h₀ : Consistent v dino d₀)
    (ht₀ : AllTiled (directory v dino d₀)) (hrun : Runs.Run (CleanStep v dino) d₀ calls d) :
    Consistent v dino d ∧ AllTiled (directory v dino d) ∧
    (NamesDistinct (directory v dino d₀) → NamesDistinct (directory v dino d)) ∧
    (∀ name, nameLength name ≠ none → ∃ result, (lookup v dino name).run d = .ok (result, d) ∧
      (∀ n, result = some n → (name, n) ∈ entries (directory v dino d)) ∧
      (result = none → ∀ p ∈ entries (directory v dino d), p.1 ≠ name)) ∧
    ∀ call, (∃ result d', Meets v dino d call result d') ↔
      ¬ call.LeavesFour (directory v dino d) := by
  obtain ⟨hcons, htiled, hnames⟩ := hrun.invariant
    (I := fun d => Consistent v dino d ∧ AllTiled (directory v dino d) ∧
      (NamesDistinct (directory v dino d₀) → NamesDistinct (directory v dino d)))
    ⟨h₀, ht₀, id⟩ fun d call d' hs hstep => by
      obtain ⟨result, -, hcons, htiled, heffect⟩ := hstep.meets hs.1 hs.2.1
      exact ⟨hcons, htiled, fun hn => heffect.namesDistinct (hs.2.2 hn)⟩
  exact ⟨hcons, htiled, hnames, fun name hname => hcons.lookup_entries htiled hname,
    fun call => hcons.meets htiled⟩

/-! ## A small volume

One group of eight 4096-byte blocks: the group at block 1, the inodes in
block 2, the directory (inode 2) in block 3; block 4 is free. The
directory holds `.`, sixteen free bytes and `..`. -/

def sampleVolume : Volume where
  device := ⟨0, 64⟩
  blockSize := 4096
  fragmentSize := 4096
  fragmentsPerBlock := 1
  cylinderGroups := 1
  inodesPerGroup := 16
  fragmentsPerGroup := 8
  inodesPerBlock := 16
  inodeTableFragment := 2
  cylinderGroupBlock := 1
  cylinderGroupSize := 4096

def sampleGroup : Mem :=
  poke (writeLe 4 (writeLe 4 (writeLe 4 (fun _ => 0) 4 CG_MAGIC) 20 8) 96 128) 128 0x10

def sampleDinode : Mem :=
  writeLe 8 (writeLe 8 (writeLe 2 (writeLe 2 (fun _ => 0) 0 (IFDIR + 0o755)) 2 2) 16 512) 112 3

def sampleRegion : Mem :=
  putRecord (putFree (putRecord (fun _ => 0) 0 12 [46] 2 DIRTYPE_DIR) 12 16) 28 484 [46, 46] 2
    DIRTYPE_DIR

def sampleBytes : Mem :=
  blit (blit (blit (fun _ => 0) 4096 sampleGroup 4096) 8704 sampleDinode 256) 12288 sampleRegion 512

def sampleDisk : Disk := imageDisk sampleBytes

lemma sampleDisk_bytes {i : Nat} (h : i < 32768) :
    sampleVolume.bytes sampleDisk i = sampleBytes i :=
  flat_image (by decide) sampleBytes h

lemma sampleVolume_fits {a : Nat} (h : a + n ≤ 32768) : sampleVolume.device.Fits a n :=
  fits_image (by decide) h

lemma sampleDisk_window {a : Nat} (h : a + n ≤ 32768) :
    window (sampleVolume.bytes sampleDisk) a n = window sampleBytes a n :=
  window_eq_of_agree fun i hi => sampleDisk_bytes (by omega)

def sampleInode : Inode := decodeInode (window sampleBytes 8704 256)

lemma sampleInode_fields : sampleInode.mode &&& IFMT = IFDIR ∧ sampleInode.size = 512 ∧
    sampleInode.direct 0 = 3 := by
  decide

lemma sampleDisk_inode : inodeAt sampleVolume (sampleVolume.bytes sampleDisk) 2
    = some sampleInode := by
  have hoff : inodeOffset sampleVolume 2 = some 8704 := by decide
  rw [inodeAt_eq hoff (sampleVolume_fits (by decide)), sampleDisk_window (by decide)]
  rfl

lemma sampleVolume_group {g : Nat} (h : cgOffset sampleVolume g = some o) : g = 0 ∧ o = 4096 := by
  obtain ⟨hg, rfl⟩ := cgOffset_some h
  obtain rfl : g = 0 := Nat.lt_one_iff.mp hg
  exact ⟨rfl, rfl⟩

lemma sampleDisk_free {g k : Nat}
    (h : FreeFragment sampleVolume (sampleVolume.bytes sampleDisk) g k) : g = 0 ∧ k = 4 := by
  obtain ⟨mo, n, hmap, hk, -, hbit⟩ := h
  obtain rfl : g = 0 := Nat.lt_one_iff.mp (freeMapAt_le hmap).1
  have hmap0 : freeMapAt sampleVolume (sampleVolume.bytes sampleDisk) 0 = some (4224, 8) := by
    decide +kernel
  rw [hmap0] at hmap
  cases hmap
  refine ⟨rfl, ?_⟩
  have hbyte : mapByte 4224 k = 4224 := by
    unfold mapByte
    omega
  rw [hbyte, sampleDisk_bytes (by omega)] at hbit
  have hall : ∀ k < 8, testBit (sampleBytes 4224) (k % 8) → k = 4 := by decide
  exact hall k hk hbit

lemma sampleDisk_region (hr : r < regionCount sampleInode) :
    r = 0 ∧ byteAt sampleVolume (sampleVolume.bytes sampleDisk) sampleInode (r * DIR_BLOCK_SIZE)
      = some 12288 ∧
    regionOffset sampleVolume (sampleVolume.bytes sampleDisk) sampleInode r = 12288 := by
  obtain ⟨-, hsize, hdirect⟩ := sampleInode_fields
  have hcount : regionCount sampleInode = 1 := by rw [regionCount, hsize]; rfl
  obtain rfl : r = 0 := by omega
  have hbyte : byteAt sampleVolume (sampleVolume.bytes sampleDisk) sampleInode
      (0 * DIR_BLOCK_SIZE) = some 12288 := by
    rw [byteAt_direct (b := 0) (by decide) (by decide), hdirect]
    decide
  refine ⟨rfl, hbyte, ?_⟩
  rw [regionOffset, hbyte]
  rfl

lemma sampleDisk_sound : Sound sampleVolume 2 (sampleVolume.bytes sampleDisk) sampleInode 8704 where
  probed := by decide
  geometry := ⟨by decide, by decide⟩
  offset := by decide
  fits := sampleVolume_fits (by decide)
  inode_eq := sampleDisk_inode
  mode := sampleInode_fields.1
  size := by rw [sampleInode_fields.2.1]; rfl
  regions r hr := ⟨_, (sampleDisk_region hr).2.1, sampleVolume_fits (by decide)⟩
  regions_apart r s hr hs hne :=
    absurd ((sampleDisk_region hr).1.trans (sampleDisk_region hs).1.symm) hne
  region_inode r hr := by
    rw [(sampleDisk_region hr).2.2]
    exact .inr (by decide)
  region_indirect hlong := by
    rw [sampleInode_fields.2.1] at hlong
    exact absurd hlong (by decide)
  region_group r hr g o ho := by
    rw [(sampleDisk_region hr).2.2, (sampleVolume_group ho).2]
    exact .inr (by decide)
  inode_group g o ho := by
    rw [(sampleVolume_group ho).2]
    exact .inr (by decide)
  groups_apart g h o p hne hg hh :=
    absurd ((sampleVolume_group hg).1.trans (sampleVolume_group hh).1.symm) hne
  group_end g o ho := by
    rw [(sampleVolume_group ho).2]
    decide
  free_ne g k hf := by
    obtain ⟨rfl, rfl⟩ := sampleDisk_free hf
    decide
  free_inode g k hf := by
    obtain ⟨rfl, rfl⟩ := sampleDisk_free hf
    exact .inr (by decide)
  free_region g k hf r hr := by
    obtain ⟨rfl, rfl⟩ := sampleDisk_free hf
    rw [(sampleDisk_region hr).2.2]
    exact .inr (by decide)
  free_group g k hf h o ho := by
    obtain ⟨rfl, rfl⟩ := sampleDisk_free hf
    rw [(sampleVolume_group ho).2]
    exact .inr (by decide)

lemma sampleDisk_contents :
    directory sampleVolume 2 sampleDisk = [window sampleBytes 12288 DIR_BLOCK_SIZE] := by
  have hcount : regionCount sampleInode = 1 := by rw [regionCount, sampleInode_fields.2.1]; rfl
  have hregion : region sampleVolume (sampleVolume.bytes sampleDisk) sampleInode 0
      = window sampleBytes 12288 DIR_BLOCK_SIZE := by
    rw [region, (sampleDisk_region (by rw [hcount]; exact zero_lt_one)).2.2,
      sampleDisk_window (by decide)]
  rw [sampleDisk_sound.directory_eq, contents, hcount]
  exact congrArg (fun x => [x]) hregion

lemma sampleRegion_tiles :
    Tiles dirFormat (window sampleBytes 12288 DIR_BLOCK_SIZE) 0 DIR_BLOCK_SIZE [0, 12, 28] := by
  have hok : ∀ o, o = 0 ∨ o = 12 ∨ o = 28 →
      RecordOk (window sampleBytes 12288 DIR_BLOCK_SIZE) o := by
    rintro o (rfl | rfl | rfl) <;> exact ⟨by decide, by decide, by decide⟩
  exact .cons (hok 0 (.inl rfl)) (.cons (hok 12 (.inr (.inl rfl)))
    (.cons (hok 28 (.inr (.inr rfl))) .nil))

lemma sampleDisk_tiled : AllTiled (directory sampleVolume 2 sampleDisk) := by
  rw [sampleDisk_contents]
  intro x hx
  rw [mem_singleton.mp hx]
  exact ⟨_, sampleRegion_tiles⟩

/-- Removing `..` from the small directory is a clean run. -/
theorem directory_calls_sample : ∃ d,
    Runs.Run (CleanStep sampleVolume 2) sampleDisk [.unlink [46, 46]] d ∧
      Consistent sampleVolume 2 d ∧ AllTiled (directory sampleVolume 2 d) := by
  obtain ⟨result, d, hmeets⟩ := sampleDisk_sound.unlink_meets
    (sampleDisk_sound.directory_eq ▸ sampleDisk_tiled) [46, 46]
  have hrun : Runs.Run (CleanStep sampleVolume 2) sampleDisk [.unlink [46, 46]] d :=
    .cons ⟨id, result, hmeets.1⟩ .nil
  obtain ⟨hcons, htiled, -⟩ := directory_calls ⟨_, _, sampleDisk_sound⟩ sampleDisk_tiled hrun
  exact ⟨d, hrun, hcons, htiled⟩

/-- Linking `x` into the sixteen free bytes leaves four: the call returns 0 and
the directory is not tiled any more. -/
theorem link_leaves_four : Consistent sampleVolume 2 sampleDisk ∧
    AllTiled (directory sampleVolume 2 sampleDisk) ∧
    ∃ d, ((Call.link [120] 3 DIRTYPE_REG).prog sampleVolume 2).run sampleDisk = .ok (some 0, d) ∧
      ¬ AllTiled (directory sampleVolume 2 d) := by
  have htiled : AllTiled (contents sampleVolume (sampleVolume.bytes sampleDisk) sampleInode) :=
    sampleDisk_sound.directory_eq ▸ sampleDisk_tiled
  have hc : contents sampleVolume (sampleVolume.bytes sampleDisk) sampleInode
      = [] ++ window sampleBytes 12288 DIR_BLOCK_SIZE :: [] :=
    sampleDisk_sound.directory_eq ▸ sampleDisk_contents
  have hl : Linkable [120] (3 : UInt32).toNat DIRTYPE_REG := by decide
  have hnone : firstRecord (hasName [120]) 0
      (contents sampleVolume (sampleVolume.bytes sampleDisk) sampleInode) = none := by
    rw [hc, nil_append, firstRecord, regionRecords_eq sampleRegion_tiles]
    decide
  have hfirst : firstRecord (hasRoom (dirRecordSize [(120 : UInt8)].length)) 0
      (contents sampleVolume (sampleVolume.bytes sampleDisk) sampleInode) = some (0, 12) := by
    rw [hc, nil_append, firstRecord, regionRecords_eq sampleRegion_tiles]
    decide
  obtain ⟨d, hrun, -⟩ := sampleDisk_sound.insert_stored htiled hl hnone hc hfirst (by decide)
    (DIRECT_BLOCKS + 1)
  have hcall : ((Call.link [120] 3 DIRTYPE_REG).prog sampleVolume 2).run sampleDisk
      = .ok (some 0, d) := run_andThen_some hrun
  have hfour : (Call.link [120] 3 DIRTYPE_REG).LeavesFour
      (contents sampleVolume (sampleVolume.bytes sampleDisk) sampleInode) :=
    ⟨hl, firstRecord_hasName_none.mp hnone, 0, 12, _, hfirst, by rw [hc]; rfl, by decide⟩
  exact ⟨⟨_, _, sampleDisk_sound⟩, sampleDisk_tiled, d, hcall,
    sampleDisk_sound.leavesFour_breaks htiled hfour hcall⟩

end Proninx.Ufs2
