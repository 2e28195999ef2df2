import Proninx.Kern.NativeWrite

/-!
# Reading native files

A file whose blocks are all there holds a list of bytes, and `readi`
returns the part of it that is asked for. A directory is a list of
entries, and `dirlookup` returns the first one whose name agrees with the
one looked for in its first `DIRSIZ` bytes.
-/

namespace Proninx.Native

open ByteMem Function List Nat Prog

variable {sb : Superblock} {start inum off n : Nat} {d d' : Disk} {x x' : Dinode} {src : Mem}

/-! ## Contents -/

def fileBytes (d : Disk) (x : Dinode) : List UInt8 := (List.range x.size).map (byteAt d x)

/-- The bytes `l`, with `new` in the place of those from `off` on. -/
def replaced (l : List UInt8) (off : Nat) (new : List UInt8) : List UInt8 :=
  l.take off ++ new ++ l.drop (off + new.length)

lemma Written.fileBytes_replaced (h : Written sb start inum src off n d x d' x')
    (hoff : off ≤ x.size) :
    fileBytes d' x' = replaced (fileBytes d x) off (toList src 0 n) := by
  have hsize : x'.size = max x.size (off + n) := congrArg Dinode.size h.fields
  have hlen : (fileBytes d x).length = x.size := by simp [fileBytes]
  refine ext_getElem ?_ fun i hi _ => ?_
  · simp only [fileBytes, replaced, toList, length_append, length_take, length_drop,
      length_map, length_range, hsize]
    omega
  simp only [fileBytes, length_map, length_range, hsize] at hi
  simp only [replaced, getElem_append, length_append, length_take, length_toList,
    getElem_take, getElem_drop, hlen, Nat.min_eq_left hoff]
  simp only [fileBytes, toList, getElem_map, getElem_range, zero_add]
  split_ifs with hnew hold
  · exact h.rest i (by omega) (.inl hold)
  · rw [← h.bytes (i - off) (by omega), Nat.add_sub_cancel' (by omega)]
  · rw [h.rest i (by omega) (.inr (by omega)), Nat.add_sub_cancel' (by omega)]

lemma Written.fileBytes_append (h : Written sb start inum src x.size n d x d' x') :
    fileBytes d' x' = fileBytes d x ++ toList src 0 n := by
  have hlen : (fileBytes d x).length = x.size := by simp [fileBytes]
  rw [h.fileBytes_replaced le_rfl, replaced, take_of_length_le (by omega),
    drop_of_length_le (by omega), append_nil]

lemma fileBytes_others {k : Nat} (h : Consistent sb start d) (hk : k < sb.ninodes)
    (htype : (dinodeAt sb d k).type ≠ 0) (hsame : dinodeAt sb d' k = dinodeAt sb d k)
    (hblocks : ∀ r b, Holds sb d (tableAddrs sb d) (k, r) b → d' b = d b) :
    fileBytes d' (dinodeAt sb d' k) = fileBytes d (dinodeAt sb d k) := by
  rw [hsame]
  refine map_congr_left fun i hi => ?_
  have h0 := (h.covered k hk htype).at (mem_range.mp hi)
  have hheld := holds_addrAt (A := tableAddrs sb d) hk h0
  rw [tableAddrs_update] at hheld
  unfold byteAt
  rw [addrAt_others hk hblocks, hblocks _ _ hheld]

/-! ## `readi` -/

lemma readBlocks_run (fuel : Nat) : ∀ {off tot : Nat} {dst : Mem}, n - tot ≤ fuel →
    Covered d x (off + (n - tot)) → ∃ dst', (readBlocks sb fuel off n dst tot x).run d
        = .ok ((dst', x), d) ∧
      ∀ i, dst' i = if tot ≤ i ∧ i < n then byteAt d x (off + (i - tot)) else dst i := by
  induction fuel with
  | zero =>
    intro off tot dst hfuel _
    exact ⟨dst, rfl, fun i => (if_neg (by omega)).symm⟩
  | succ fuel ih => ?_
  intro off tot dst hfuel hcov
  rw [readBlocks]
  split
  · next htot =>
    have hmod : off % BSIZE < BSIZE := mod_lt _ (by decide)
    obtain ⟨k, hk⟩ : ∃ k, k = min (n - tot) (BSIZE - off % BSIZE) := ⟨_, rfl⟩
    have h0 : addrAt d x (off / BSIZE) ≠ 0 := hcov.at (by omega)
    rw [run_bind_ok (bmap_run h0)]
    rw [run_bread_bind, run_brelse_bind, ← hk]
    obtain ⟨dst', hrun, hdst⟩ := @ih (off + k) (tot + k)
      (blit dst tot (shift (d (addrAt d x (off / BSIZE))) (off % BSIZE)) k) (by omega)
      (hcov.mono (by omega))
    refine ⟨dst', hrun, fun i => ?_⟩
    rw [hdst]
    by_cases hi : tot + k ≤ i ∧ i < n
    · rw [if_pos hi, if_pos (by omega)]
      congr 1
      omega
    rw [if_neg hi]
    by_cases hpart : tot ≤ i ∧ i < tot + k
    · rw [blit_in hpart.1 hpart.2, if_pos (by omega), shift_apply, byteAt]
      have hdiv : (off + (i - tot)) / BSIZE = off / BSIZE := by
        unfold BSIZE at *
        omega
      have hrem : (off + (i - tot)) % BSIZE = off % BSIZE + (i - tot) := by
        unfold BSIZE at *
        omega
      rw [hdiv, hrem]
    · rw [blit_out (by omega), if_neg (by omega)]
  · next htot => exact ⟨dst, rfl, fun i => (if_neg (by omega)).symm⟩

lemma readi_run (hcov : Covered d x x.size) (hoff : off ≤ x.size) (hn : off + n < 2 ^ 32) :
    ∃ dst, (readi sb x off n).run d = .ok ((some (min n (x.size - off), dst), x), d) ∧
      toList dst 0 (min n (x.size - off)) = ((fileBytes d x).drop off).take n := by
  have hcount : (if x.size < off + n then x.size - off else n) = min n (x.size - off) := by
    split <;> omega
  obtain ⟨dst, hrun, hdst⟩ := @readBlocks_run sb (min n (x.size - off)) d x
    (min n (x.size - off)) off 0 (fun _ => 0) (by omega) (hcov.mono (by omega))
  refine ⟨dst, ?_, ?_⟩
  · rw [readi, if_neg (by omega)]
    rw [hcount, run_bind_ok hrun]
    rfl
  refine ext_getElem (by simp [fileBytes]) fun i hi _ => ?_
  rw [length_toList] at hi
  simp only [toList, fileBytes, getElem_map, getElem_range, getElem_take,
    List.getElem_drop, Nat.zero_add]
  rw [hdst i, if_pos ⟨zero_le _, hi⟩, Nat.sub_zero]

/-! ## `dirlookup` -/

lemma strncmpEq_agree {p p' q q' : Mem} (n : Nat) : ∀ {i : Nat}, Agree p p' i n → Agree q q' i n →
    strncmpEq p q n i = strncmpEq p' q' n i := by
  induction n with
  | zero => exact fun _ _ => rfl
  | succ n ih => ?_
  intro i hp hq
  rw [strncmpEq, strncmpEq, hp i (by omega) (by omega), hq i (by omega) (by omega),
    ih (hp.mono (by omega) (by omega)) (hq.mono (by omega) (by omega))]

lemma ofList_take {l : List UInt8} {n : Nat} : Agree (ofList l) (ofList (l.take n)) 0 n := by
  intro i _ hi
  simp only [ofList, getD_eq_getElem?_getD]
  rw [List.getElem?_take_of_lt (by omega)]

/-- A directory entry: the inode number and the name. -/
abbrev Entry := Nat × List UInt8

/-- A `struct dirent`, with the first `DIRSIZ` bytes of the name. -/
def dirent (e : Entry) : Mem := blit (writeLe 2 (fun _ => 0) 0 e.1) 2 (ofList e.2) DIRSIZ

lemma namecmp_dirent {name : List UInt8} {e : Entry} {de : Mem} (hname : Nonzero name)
    (he : Nonzero e.2) (hde : Agree de (dirent e) 0 DIRENT_SIZE) :
    namecmp name de ↔ name.take DIRSIZ = e.2.take DIRSIZ := by
  have htake : ∀ {l : List UInt8}, Nonzero l → Nonzero (l.take DIRSIZ) :=
    fun h b hb => h b (mem_of_mem_take hb)
  have hstored : Agree (shift de 2) (ofList (e.2.take DIRSIZ)) 0 DIRSIZ := by
    intro i hlo hi
    rw [← ofList_take i hlo hi, shift_apply, hde (2 + i) (by omega) (by unfold DIRENT_SIZE DIRSIZ at *; omega),
      dirent, blit_in (by omega) (by omega), Nat.add_sub_cancel_left]
  rw [namecmp, strncmpEq_agree DIRSIZ ofList_take hstored,
    strncmpEq_ofList (htake hname) (htake he)]
  simp only [length_take]
  omega

lemma entryInum_dirent {e : Entry} {de : Mem} (h : e.1 < 2 ^ 16)
    (hde : Agree de (dirent e) 0 DIRENT_SIZE) : entryInum de = e.1 := by
  rw [entryInum, readLe_congr (hde.mono (by omega) (by decide)), dirent,
    readLe_congr (fun i _ hi => blit_out (by omega)), readLe_writeLe_of_lt h]

/-- The directory begins with the entries `es`. -/
structure Lists (d : Disk) (x : Dinode) (es : List Entry) : Prop where
  whole : x.size % DIRENT_SIZE = 0
  small : x.size < 2 ^ 32
  covered : Covered d x x.size
  fits : es.length * DIRENT_SIZE ≤ x.size
  bytes : ∀ k (h : k < es.length), Agree (entryAt d x (k * DIRENT_SIZE)) (dirent es[k]) 0 DIRENT_SIZE

def entryBytes (e : Entry) : List UInt8 := toList (dirent e) 0 DIRENT_SIZE

lemma getD_entryBytes (es : List Entry) (rest : List UInt8) : ∀ k (h : k < es.length) {i : Nat},
    i < DIRENT_SIZE →
      ((es.map entryBytes).flatten ++ rest).getD (k * DIRENT_SIZE + i) 0 = dirent es[k] i := by
  have hlen : ∀ e, (entryBytes e).length = DIRENT_SIZE := fun e => length_toList ..
  induction es with
  | nil => exact fun k h => absurd h (Nat.not_lt_zero k)
  | cons e es ih => ?_
  intro k h i hi
  rw [map_cons, flatten_cons, append_assoc]
  cases k with
  | zero =>
    rw [zero_mul, zero_add, getD_append _ _ _ _ (by rw [hlen]; exact hi),
      getD_eq_getElem _ _ (by rw [hlen]; exact hi)]
    simp [entryBytes, toList]
  | succ k => ?_
  rw [succ_mul, getD_append_right _ _ _ _ (by rw [hlen]; omega), hlen,
    show k * DIRENT_SIZE + DIRENT_SIZE + i - DIRENT_SIZE = k * DIRENT_SIZE + i by omega]
  exact ih k (lt_of_succ_lt_succ h) hi

lemma entryAt_eq {k i : Nat} (hi : i < DIRENT_SIZE) :
    entryAt d x (k * DIRENT_SIZE) i = byteAt d x (k * DIRENT_SIZE + i) := by
  have hdiv : (k * DIRENT_SIZE + i) / BSIZE = k * DIRENT_SIZE / BSIZE := by
    unfold DIRENT_SIZE BSIZE at *
    omega
  have hmod : (k * DIRENT_SIZE + i) % BSIZE = k * DIRENT_SIZE % BSIZE + i := by
    unfold DIRENT_SIZE BSIZE at *
    omega
  rw [entryAt, blit_in (zero_le _) (by omega), shift_apply, byteAt, hdiv, hmod, Nat.sub_zero]

variable {es : List Entry}

lemma Lists.of_bytes {rest : List UInt8} (hwhole : x.size % DIRENT_SIZE = 0)
    (hsmall : x.size < 2 ^ 32) (hcov : Covered d x x.size)
    (hbytes : fileBytes d x = (es.map entryBytes).flatten ++ rest) : Lists d x es := by
  have hlen : es.length * DIRENT_SIZE ≤ x.size := by
    have := congrArg List.length hbytes
    simp [fileBytes, length_flatten, entryBytes, comp_def] at this
    omega
  refine ⟨hwhole, hsmall, hcov, hlen, fun k hk i _ hi => ?_⟩
  have hi : i < DIRENT_SIZE := by omega
  have hlt : k * DIRENT_SIZE + i < x.size := by
    have := Nat.mul_le_mul_right DIRENT_SIZE (succ_le_of_lt hk)
    rw [succ_mul] at this
    omega
  rw [entryAt_eq hi, ← getD_entryBytes es rest k hk hi, ← hbytes, getD_eq_getElem _ _ (by
    simpa [fileBytes] using hlt)]
  simp [fileBytes]

lemma Lists.dirOk (h : Lists d x es) : DirOk d x :=
  ⟨h.whole, h.small, fun _ hoff => h.covered.at hoff⟩

lemma Lists.dirlookup (h : Lists d x es) {name : List UInt8} (hname : Nonzero name)
    (hes : ∀ e ∈ es, Nonzero e.2 ∧ 0 < e.1 ∧ e.1 < 2 ^ 16) {k : Nat} (hk : k < es.length)
    (heq : name.take DIRSIZ = es[k].2.take DIRSIZ)
    (hfirst : ∀ j (hj : j < k), name.take DIRSIZ ≠ es[j].2.take DIRSIZ) :
    (Native.dirlookup sb x name).run d = .ok ((some (es[k].1, k * DIRENT_SIZE), x), d) := by
  have hentry : ∀ j (hj : j < es.length), entryInum (entryAt d x (j * DIRENT_SIZE)) = es[j].1 ∧
      (entryIs d x name j ↔ name.take DIRSIZ = es[j].2.take DIRSIZ) := by
    intro j hj
    obtain ⟨hnz, hpos, hlt⟩ := hes _ (getElem_mem hj)
    have hinum := entryInum_dirent hlt (h.bytes j hj)
    refine ⟨hinum, ?_⟩
    rw [entryIs, hinum, Bool.and_eq_true, namecmp_dirent hname hnz (h.bytes j hj), bne_iff_ne]
    exact and_iff_right (by omega)
  have hfind : (List.range (x.size / DIRENT_SIZE)).find? (entryIs d x name) = some k := by
    refine List.find?_range_eq_some.mpr ⟨((hentry k hk).2).mpr heq, ?_, fun j hj => ?_⟩
    · have := h.fits
      exact mem_range.mpr ((Nat.lt_div_iff_mul_lt (by decide)).mpr (by
        unfold DIRENT_SIZE at *
        omega))
    · rw [Bool.not_eq_true']
      exact Bool.eq_false_iff.mpr fun hc => hfirst j hj (((hentry j (hj.trans hk)).2).mp hc)
  rw [dirlookup_run h.dirOk, findEntry, hfind, Option.map_some, hit, (hentry k hk).1]

end Proninx.Native
