import Mathlib.Data.List.Basic
import Proninx.Kern.Ufs2
import Proninx.Lib.Tiling

/-!
# Directory regions

A 512-byte region of a UFS2 directory is tiled by records. This module
relates the walks of the driver to that tiling and says what inserting
and removing a record does to the tiling and to the live entries.

Inserting splits one record. When the bytes left over are a record of
their own (eight or more) or none at all, the region stays tiled; when
exactly four are left over, the driver still stores a record length at
their offset 4, which is the first word of the next record
(`insertRecord_four`).
-/

namespace Proninx.Ufs2

open ByteMem List Option Tiling

/-- A record as the driver's walks accept it, up to where it ends. -/
structure RecordOk (m : Mem) (o : Nat) : Prop where
  min : DIR_HEADER_SIZE ≤ recLength m o
  aligned : recLength m o % 4 = 0
  name : recNameLength m o + DIR_HEADER_SIZE ≤ recLength m o

variable {m' : Mem} {n : Nat} {m : Mem} {o : Nat}

lemma recLength_congr (h : Agree m m' o n) (hn : 8 ≤ n) : recLength m' o = recLength m o :=
  (readLe_congr (h.mono (by omega) (by omega))).symm

lemma recNameLength_congr (h : Agree m m' o n) (hn : 8 ≤ n) :
    recNameLength m' o = recNameLength m o := by
  unfold recNameLength
  rw [h (o + 7) (by omega) (by omega)]

lemma recInode_congr (h : Agree m m' o n) (hn : 8 ≤ n) : recInode m' o = recInode m o :=
  (readLe_congr (h.mono (by omega) (by omega))).symm

def dirFormat : Format where
  len := recLength
  ok := RecordOk
  pos h := lt_of_lt_of_le (by decide) h.min
  loc {m m' o} h ha := by
    have hlen : recLength m' o = recLength m o := recLength_congr ha h.min
    have hname : recNameLength m' o = recNameLength m o := recNameLength_congr ha h.min
    exact ⟨hlen, by rw [hlen]; exact h.min, by rw [hlen]; exact h.aligned,
      by rw [hlen, hname]; exact h.name⟩

@[simp] lemma dirFormat_len (m : Mem) (o : Nat) : dirFormat.len m o = recLength m o := rfl

/-- The live entry at a record, if any. -/
def livePair (m : Mem) (o : Nat) : Option (List UInt8 × Nat) :=
  if recInode m o = 0 then none else some (recName m o, recInode m o)

/-- The records of a region, and its live entries in order. -/
def regionRecords (m : Mem) : List Nat :=
  walk dirFormat m DIR_BLOCK_SIZE (DIR_BLOCK_SIZE / DIR_HEADER_SIZE + 1) 0

def regionPairs (m : Mem) : List (List UInt8 × Nat) := (regionRecords m).filterMap (livePair m)

/-- The region is exactly tiled by well-formed records. -/
def Tiled (m : Mem) : Prop := ∃ os, Tiles dirFormat m 0 DIR_BLOCK_SIZE os

lemma livePair_congr (h : RecordOk m o) (ha : Agree m m' o (recLength m o)) :
    livePair m' o = livePair m o := by
  have hmin := h.min
  have hname := h.name
  unfold livePair recName
  rw [recInode_congr ha hmin, recNameLength_congr ha hmin]
  unfold DIR_HEADER_SIZE at hname
  rw [toList_congr (ha.mono (by omega) (by omega))]

variable {os : List Nat}

lemma filterMap_livePair_congr (hok : ∀ o ∈ os, RecordOk m o)
    (ha : ∀ o ∈ os, Agree m m' o (recLength m o)) :
    os.filterMap (livePair m') = os.filterMap (livePair m) :=
  filterMap_congr fun o ho => livePair_congr (hok o ho) (ha o ho)

lemma tiles_length_lt (h : Tiles dirFormat m 0 DIR_BLOCK_SIZE os) :
    os.length < DIR_BLOCK_SIZE / DIR_HEADER_SIZE + 1 := by
  have hlen : DIR_HEADER_SIZE * os.length ≤ DIR_BLOCK_SIZE - 0 := h.length_mul_le fun o hok => hok.min
  unfold DIR_HEADER_SIZE DIR_BLOCK_SIZE at *
  omega

lemma regionRecords_eq (h : Tiles dirFormat m 0 DIR_BLOCK_SIZE os) : regionRecords m = os :=
  h.walk_eq (tiles_length_lt h)

/-! ## Walks -/

variable {hi : Nat}

lemma not_badRecord (h : RecordOk m o) (hle : o + recLength m o ≤ hi) : ¬ BadRecord m hi o := by
  have h1 := h.min
  have h2 := h.aligned
  have h3 := h.name
  have h4 : recNameLength m o < 256 := (m (o + 7)).toNat_lt
  unfold BadRecord MAX_NAME
  omega

lemma scanRecords_eq {lo : Nat} {test : Nat → Bool} (h : Tiles dirFormat m lo hi os) :
    ∀ {fuel : Nat}, os.length < fuel → scanRecords m hi test fuel lo = match os.find? test with
        | some o => .found o
        | none => .next := by
  induction h with
  | nil =>
    intro fuel hf
    obtain ⟨n, rfl⟩ : ∃ n, fuel = n + 1 := ⟨fuel - 1, by omega⟩
    rw [scanRecords, if_neg (by unfold DIR_HEADER_SIZE; omega)]
    rfl
  | @cons lo hi os hok hrest ih => ?_
  intro fuel hf
  rw [length_cons] at hf
  obtain ⟨n, rfl⟩ : ∃ n, fuel = n + 1 := ⟨fuel - 1, by omega⟩
  have hle : lo + recLength m lo ≤ hi := hrest.le
  have hmin := hok.min
  rw [scanRecords, if_pos (by omega), if_neg (not_badRecord hok hle), List.find?_cons]
  cases ht : test lo with
  | true => rfl
  | false => exact ih (by omega)

lemma scanRegion_eq (test : Nat → Bool) (h : Tiles dirFormat m 0 DIR_BLOCK_SIZE os) :
    scanRecords m DIR_BLOCK_SIZE test (DIR_BLOCK_SIZE / DIR_HEADER_SIZE + 1) 0
      = match os.find? test with
        | some o => .found o
        | none => .next :=
  scanRecords_eq h (tiles_length_lt h)

/-! ## Records as they are stored -/

lemma dirRecordSize_bounds (n : Nat) : n + DIR_HEADER_SIZE ≤ dirRecordSize n ∧
    dirRecordSize n ≤ n + DIR_HEADER_SIZE + 3 ∧ dirRecordSize n % 4 = 0 := by
  unfold dirRecordSize DIR_HEADER_SIZE
  omega

variable {length i : Nat}

lemma putFree_out (h : 8 ≤ length) (hi : i < o ∨ o + length ≤ i) : putFree m o length i = m i := by
  unfold putFree
  rw [writeLe_out (by omega), fill_out (by omega)]

lemma putFree_record (m : Mem) (o : Nat) (h : 8 ≤ length) (h4 : length % 4 = 0)
    (hmax : length < 2 ^ 16) : RecordOk (putFree m o length) o ∧
      recLength (putFree m o length) o = length ∧ livePair (putFree m o length) o = none := by
  have hlen : recLength (putFree m o length) o = length :=
    readLe_writeLe_of_lt (by simpa using hmax)
  have hname : recNameLength (putFree m o length) o = 0 := by
    unfold recNameLength putFree
    rw [writeLe_out (by omega), fill_in (by omega) (by omega)]
    rfl
  have hino : recInode (putFree m o length) o = 0 := by
    unfold recInode putFree
    rw [readLe_writeLe_disjoint (by omega), readLe_eq_zero]
    exact fun i hi hj => fill_in hi (by omega)
  refine ⟨⟨?_, ?_, ?_⟩, hlen, ?_⟩
  · rw [hlen]; exact h
  · rw [hlen]; exact h4
  · rw [hlen, hname]; exact h
  · rw [livePair, if_pos hino]

variable {inodeNumber : Nat} {name : List UInt8}

lemma putRecord_out {type : UInt8} (hi : i < o ∨ o + dirRecordSize name.length ≤ i) :
    putRecord m o length name inodeNumber type i = m i := by
  have hb := dirRecordSize_bounds name.length
  unfold DIR_HEADER_SIZE at hb
  unfold putRecord DIR_HEADER_SIZE
  rw [blit_out (by omega), poke_ne (by omega), poke_ne (by omega), writeLe_out (by omega),
    writeLe_out (by omega), fill_out (by omega)]

lemma putRecord_record (m : Mem) (o : Nat) (type : UInt8) (hname : name.length ≤ MAX_NAME)
    (hino : inodeNumber ≠ 0) (hino32 : inodeNumber < 2 ^ 32)
    (hlen : dirRecordSize name.length ≤ length) (h4 : length % 4 = 0) (hmax : length < 2 ^ 16) :
    RecordOk (putRecord m o length name inodeNumber type) o ∧
      recLength (putRecord m o length name inodeNumber type) o = length ∧
      livePair (putRecord m o length name inodeNumber type) o = some (name, inodeNumber) := by
  have hb := dirRecordSize_bounds name.length
  generalize hm' : putRecord m o length name inodeNumber type = m'
  have hl : recLength m' o = length := by
    rw [← readLe_writeLe_of_lt (w := 2) (m := writeLe 4 (fill m o 0 (dirRecordSize name.length)) o
      inodeNumber) (a := o + 4) (v := length) (by simpa using hmax)]
    refine readLe_congr fun i hi hj => ?_
    rw [← hm']
    unfold putRecord DIR_HEADER_SIZE
    rw [blit_out (by omega), poke_ne (by omega), poke_ne (by omega)]
  have hi : recInode m' o = inodeNumber := by
    rw [← readLe_writeLe_of_lt (w := 4) (m := fill m o 0 (dirRecordSize name.length)) (a := o)
      (v := inodeNumber) (by simpa using hino32)]
    refine readLe_congr fun i hi hj => ?_
    rw [← hm']
    unfold putRecord DIR_HEADER_SIZE
    rw [blit_out (by omega), poke_ne (by omega), poke_ne (by omega), writeLe_out (by omega)]
  have hn : recNameLength m' o = name.length := by
    unfold recNameLength
    rw [← hm']
    unfold putRecord DIR_HEADER_SIZE
    rw [blit_out (by omega), poke_self]
    unfold MAX_NAME at hname
    simp
    omega
  have hs : recName m' o = name := by
    unfold recName
    rw [hn, toList_eq_iff, ← hm']
    intro i hi
    unfold putRecord DIR_HEADER_SIZE
    rw [blit_in (by omega) (by omega)]
    congr 1
    omega
  refine ⟨⟨?_, ?_, ?_⟩, hl, ?_⟩
  · rw [hl]; omega
  · rw [hl]; exact h4
  · rw [hl, hn]; omega
  · rw [livePair, hi, if_neg hino, hs]

lemma cutRecord_out (hi : i < o + 4 ∨ o + 6 ≤ i) : cutRecord m o i = m i := by
  unfold cutRecord
  split
  · rfl
  · exact writeLe_out (by omega)

/-! ## Inserting -/

lemma room_facts {needed : Nat} (h : RecordOk m o) (hroom : hasRoom needed m o) :
    needed ≤ available m o ∧ newOffset m o + available m o = o + recLength m o ∧
      available m o % 4 = 0 ∧
      (recInode m o = 0 ∧ newOffset m o = o ∨
        recInode m o ≠ 0 ∧ newOffset m o = o + dirRecordSize (recNameLength m o)) := by
  have hb := dirRecordSize_bounds (recNameLength m o)
  have h4 := h.aligned
  by_cases hi : recInode m o = 0
  · simp only [hasRoom, hi, if_true, decide_eq_true_eq] at hroom
    simp only [available, newOffset, hi, if_true]
    exact ⟨by omega, by omega, by omega, .inl ⟨trivial, trivial⟩⟩
  simp only [hasRoom, if_neg hi, decide_eq_true_eq] at hroom
  simp only [available, newOffset, if_neg hi]
  exact ⟨by omega, by omega, by omega, .inr ⟨hi, trivial⟩⟩

section Insert

variable {m : Mem} {o inodeNumber : Nat} {name : List UInt8} {type : UInt8}

/-- Nothing outside the chosen record is stored to, unless four bytes are
left over. -/
lemma insertRecord_out (h : RecordOk m o) (hroom : hasRoom (dirRecordSize name.length) m o)
    (hfour : available m o ≠ dirRecordSize name.length + 4)
    (hi : i < o ∨ o + recLength m o ≤ i) :
    insertRecord m o name inodeNumber type i = m i := by
  obtain ⟨hle, hend, h4, hnew⟩ := room_facts h hroom
  have hb := dirRecordSize_bounds name.length
  have hmin := h.min
  have hnewle : o ≤ newOffset m o := by
    rcases hnew with ⟨-, hnew⟩ | ⟨-, hnew⟩ <;> omega
  unfold DIR_HEADER_SIZE at hmin
  unfold insertRecord
  split
  · rw [putRecord_out (by omega), putFree_out (by omega) (by omega), cutRecord_out (by omega)]
  · rw [putRecord_out (by omega), cutRecord_out (by omega)]

section

variable (h : RecordOk m o) (hmax : recLength m o < 2 ^ 16)
  (hroom : hasRoom (dirRecordSize name.length) m o)
include h hmax hroom

lemma insertRecord_tail (hname : name.length ≤ MAX_NAME) (hino : inodeNumber ≠ 0)
    (hino32 : inodeNumber < 2 ^ 32) (hfour : available m o ≠ dirRecordSize name.length + 4) :
    ∃ tail, Tiles dirFormat (insertRecord m o name inodeNumber type) (newOffset m o)
        (o + recLength m o) tail ∧
      tail.filterMap (livePair (insertRecord m o name inodeNumber type))
        = [(name, inodeNumber)] := by
  obtain ⟨hle, hend, h4, -⟩ := room_facts h hroom
  have hb := dirRecordSize_bounds name.length
  have havail : available m o ≤ recLength m o := Nat.sub_le ..
  unfold insertRecord
  dsimp only
  split
  · next hlt =>
    have hrest : 8 ≤ available m o - dirRecordSize name.length := by omega
    obtain ⟨hok, hlen, hpair⟩ := putRecord_record (putFree (cutRecord m o)
      (newOffset m o + dirRecordSize name.length) (available m o - dirRecordSize name.length))
      (newOffset m o) type hname hino hino32 le_rfl hb.2.2 (by omega)
    obtain ⟨hfok, hflen, hfpair⟩ := putFree_record (cutRecord m o)
      (newOffset m o + dirRecordSize name.length) hrest (by omega) (by omega)
    generalize hfree : putFree (cutRecord m o) (newOffset m o + dirRecordSize name.length)
      (available m o - dirRecordSize name.length) = mf at *
    have hagree : Agree mf (putRecord mf (newOffset m o) (dirRecordSize name.length) name
        inodeNumber type) (newOffset m o + dirRecordSize name.length)
        (recLength mf (newOffset m o + dirRecordSize name.length)) :=
      fun i hi _ => (putRecord_out (.inr hi)).symm
    obtain ⟨hlen', hok'⟩ := dirFormat.loc hfok hagree
    refine ⟨[newOffset m o, newOffset m o + dirRecordSize name.length], .cons hok ?_, ?_⟩
    · rw [dirFormat_len, hlen]
      refine .cons hok' ?_
      rw [hlen', dirFormat_len, hflen]
      have : newOffset m o + dirRecordSize name.length
          + (available m o - dirRecordSize name.length) = o + recLength m o := by omega
      rw [this]
      exact .nil
    · simp only [filterMap_cons, hpair, livePair_congr hfok hagree, hfpair, filterMap_nil]
  · next hge =>
    obtain ⟨hok, hlen, hpair⟩ := putRecord_record (cutRecord m o) (newOffset m o)
      type hname hino hino32 hle h4 (by omega)
    refine ⟨[newOffset m o], .cons hok ?_, ?_⟩
    · rw [dirFormat_len, hlen, hend]
      exact .nil
    · simp only [filterMap_cons, hpair, filterMap_nil]

/-- The part of the chosen record that stays: nothing of a free record,
a live one at its own size. -/
lemma insertRecord_head :
    ∃ head, Tiles dirFormat (insertRecord m o name inodeNumber type) o (newOffset m o) head ∧
      head.filterMap (livePair (insertRecord m o name inodeNumber type))
        = (livePair m o).toList := by
  obtain ⟨hle, hend, h4, hnew⟩ := room_facts h hroom
  have hb := dirRecordSize_bounds (recNameLength m o)
  unfold DIR_HEADER_SIZE at hb
  rcases hnew with ⟨hfree, hnew⟩ | ⟨hlive, hnew⟩
  · refine ⟨[], ?_, ?_⟩
    · rw [hnew]
      exact .nil
    · simp [livePair, hfree]
  -- below the new record the region is the cut-down one
  have hcut : Agree (cutRecord m o) (insertRecord m o name inodeNumber type) o
      (dirRecordSize (recNameLength m o)) := by
    intro i hi hj
    unfold insertRecord
    split
    · rw [putRecord_out (by omega)]
      unfold putFree
      rw [writeLe_out (by omega), fill_out (by omega)]
    · rw [putRecord_out (by omega)]
  have hlen : recLength (cutRecord m o) o = dirRecordSize (recNameLength m o) := by
    rw [cutRecord, if_neg hlive]
    exact readLe_writeLe_of_lt (by
      have := available m o
      have : dirRecordSize (recNameLength m o) ≤ recLength m o := by omega
      simpa using by omega)
  have hname : recNameLength (cutRecord m o) o = recNameLength m o := by
    unfold recNameLength
    rw [cutRecord_out (by omega)]
  have hino : recInode (cutRecord m o) o = recInode m o :=
    readLe_congr fun i hi hj => cutRecord_out (by omega)
  have hstr : recName (cutRecord m o) o = recName m o := by
    unfold recName
    rw [hname]
    exact toList_congr fun i hi hj => cutRecord_out (by omega)
  have hok : RecordOk (cutRecord m o) o :=
    ⟨by rw [hlen]; unfold DIR_HEADER_SIZE; omega, by rw [hlen]; exact hb.2.2,
      by rw [hlen, hname]; exact hb.1⟩
  rw [← hlen] at hcut
  obtain ⟨hlen', hok'⟩ := dirFormat.loc hok hcut
  refine ⟨[o], .cons hok' ?_, ?_⟩
  · rw [hlen', dirFormat_len, hlen, hnew]
    exact .nil
  simp only [filterMap_cons, filterMap_nil, livePair_congr hok hcut]
  simp only [livePair, hino, if_neg hlive, hstr, toList_some]

end

end Insert

lemma tiles_split {lo : Nat} (h : Tiles dirFormat m lo hi os) (ho : o ∈ os) :
    ∃ pre post, os = pre ++ o :: post ∧ (∀ p ∈ pre, RecordOk m p ∧ p + recLength m p ≤ o) ∧
      ∀ p ∈ post, RecordOk m p ∧ o + recLength m o ≤ p := by
  obtain ⟨pre, post, rfl⟩ := append_of_mem ho
  have ⟨hpre, hpost⟩ := h.around
  exact ⟨pre, post, rfl, fun p hp => ⟨(h.mem (by simp [hp])).1, hpre p hp⟩,
    fun p hp => ⟨(h.mem (by simp [hp])).1, hpost p hp⟩⟩

lemma splice_region {mid : List Nat} (h : Tiles dirFormat m 0 DIR_BLOCK_SIZE os) (ho : o ∈ os)
    (hout : ∀ i, i < o ∨ o + recLength m o ≤ i → m' i = m i)
    (hmid : Tiles dirFormat m' o (o + recLength m o) mid) :
    Tiled m' ∧ ∃ before after, regionPairs m = before ++ ((livePair m o).toList ++ after) ∧
      regionPairs m' = before ++ (mid.filterMap (livePair m') ++ after) := by
  obtain ⟨pre, post, rfl, hpre, hpost⟩ := tiles_split h ho
  have hnew : Tiles dirFormat m' 0 DIR_BLOCK_SIZE (pre ++ (mid ++ post)) := h.splice hout hmid
  refine ⟨⟨_, hnew⟩, pre.filterMap (livePair m), post.filterMap (livePair m), ?_, ?_⟩
  · rw [regionPairs, regionRecords_eq h, filterMap_append, filterMap_cons]
    cases livePair m o <;> simp
  rw [regionPairs, regionRecords_eq hnew, filterMap_append, filterMap_append,
    filterMap_livePair_congr (fun p hp => (hpre p hp).1) (fun p hp i _ hi =>
      (hout i (.inl (by have := (hpre p hp).2; omega))).symm),
    filterMap_livePair_congr (fun p hp => (hpost p hp).1) (fun p hp i hi _ =>
      (hout i (.inr (by have := (hpost p hp).2; omega))).symm)]

lemma insertRecord_region (type : UInt8) (h : Tiles dirFormat m 0 DIR_BLOCK_SIZE os) (ho : o ∈ os)
    (hroom : hasRoom (dirRecordSize name.length) m o) (hname : name.length ≤ MAX_NAME)
    (hino : inodeNumber ≠ 0) (hino32 : inodeNumber < 2 ^ 32)
    (hfour : available m o ≠ dirRecordSize name.length + 4) :
    Tiled (insertRecord m o name inodeNumber type) ∧
      (regionPairs (insertRecord m o name inodeNumber type)).Perm
        ((name, inodeNumber) :: regionPairs m) := by
  obtain ⟨hok, -, hend⟩ := h.mem ho
  have hmax : recLength m o < 2 ^ 16 := by
    simp only [dirFormat_len, DIR_BLOCK_SIZE] at hend
    omega
  obtain ⟨tail, htail, htpairs⟩ :=
    @insertRecord_tail m o inodeNumber name type hok hmax hroom hname hino hino32 hfour
  obtain ⟨head, hhead, hhpairs⟩ :=
    @insertRecord_head m o inodeNumber name type hok hmax hroom
  obtain ⟨htiled, before, after, hold, hnew⟩ := splice_region h ho
    (fun i hi => insertRecord_out hok hroom hfour hi) (tiles_append.mpr ⟨_, hhead, htail⟩)
  refine ⟨htiled, ?_⟩
  rw [hold, hnew, filterMap_append, htpairs, hhpairs, append_assoc, singleton_append]
  exact (List.Perm.append_left _ perm_middle).trans perm_middle

lemma removeRecord_region (h : Tiles dirFormat m 0 DIR_BLOCK_SIZE os) (ho : o ∈ os)
    (hlive : recInode m o ≠ 0) :
    Tiled (writeLe 4 m o 0) ∧
      (regionPairs m).Perm ((recName m o, recInode m o) :: regionPairs (writeLe 4 m o 0)) ∧
      ∀ i, i < o ∨ o + recLength m o ≤ i → writeLe 4 m o 0 i = m i := by
  obtain ⟨hok, -, hend⟩ := h.mem ho
  have hmin := hok.min
  have hname := hok.name
  unfold DIR_HEADER_SIZE at hmin
  have hlen : recLength (writeLe 4 m o 0) o = recLength m o :=
    readLe_writeLe_disjoint (by omega)
  have hnl : recNameLength (writeLe 4 m o 0) o = recNameLength m o := by
    unfold recNameLength
    rw [writeLe_out (by omega)]
  have hdead : livePair (writeLe 4 m o 0) o = none := by
    rw [livePair, if_pos]
    exact readLe_writeLe_of_lt (by decide)
  have hout : ∀ i, i < o ∨ o + recLength m o ≤ i → writeLe 4 m o 0 i = m i :=
    fun i hi => writeLe_out (by omega)
  have hmid : Tiles dirFormat (writeLe 4 m o 0) o (o + recLength m o) [o] := by
    refine .cons ⟨by rw [hlen]; exact hmin, by rw [hlen]; exact hok.aligned,
      by rw [hlen, hnl]; exact hname⟩ ?_
    rw [dirFormat_len, hlen]
    exact .nil
  obtain ⟨htiled, before, after, hold, hnew⟩ := splice_region h ho hout hmid
  refine ⟨htiled, ?_, hout⟩
  rw [hold, hnew, filterMap_cons, hdead, livePair, if_neg hlive]
  exact perm_middle

/-! ## Four bytes left over -/

/-- With exactly four bytes left over the region is not tiled any more:
the length stored for them is that of the next record's first word. -/
lemma insertRecord_four (type : UInt8) (h : Tiles dirFormat m 0 DIR_BLOCK_SIZE os) (ho : o ∈ os)
    (hroom : hasRoom (dirRecordSize name.length) m o) (hname : name.length ≤ MAX_NAME)
    (hino : inodeNumber ≠ 0) (hino32 : inodeNumber < 2 ^ 32)
    (hfour : available m o = dirRecordSize name.length + 4) :
    ¬ Tiled (insertRecord m o name inodeNumber type) := by
  obtain ⟨hok, -, hend⟩ := h.mem ho
  rw [dirFormat_len] at hend
  have hmax : recLength m o < 2 ^ 16 := by
    simp only [DIR_BLOCK_SIZE] at hend
    omega
  obtain ⟨hle, hnew, h4, hcase⟩ := room_facts hok hroom
  have hb := dirRecordSize_bounds name.length
  have hmin := hok.min
  obtain ⟨head, hhead, -⟩ := @insertRecord_head m o inodeNumber name type hok hmax hroom
  obtain ⟨pre, post, rfl, hpre, -⟩ := tiles_split h ho
  have heq : insertRecord m o name inodeNumber type = putRecord
      (putFree (cutRecord m o) (newOffset m o + dirRecordSize name.length) 4) (newOffset m o)
      (dirRecordSize name.length) name inodeNumber type := by
    unfold insertRecord
    rw [if_pos (by omega), hfour, Nat.add_sub_cancel_left]
  have hnewge : o ≤ newOffset m o := by
    rcases hcase with ⟨-, hcase⟩ | ⟨-, hcase⟩ <;> omega
  generalize hm' : insertRecord m o name inodeNumber type = m' at *
  obtain ⟨hrok, hrlen, -⟩ := putRecord_record
    (putFree (cutRecord m o) (newOffset m o + dirRecordSize name.length) 4) (newOffset m o)
    type hname hino hino32 le_rfl hb.2.2 (by omega)
  rw [← heq] at hrok hrlen
  -- the records up to the four bytes are still there
  obtain ⟨x, hprefix, hrest⟩ := tiles_append.mp h
  obtain ⟨rfl, -⟩ := hrest.lt_of_cons
  have hbelow : Agree m m' 0 o := by
    intro i _ hi
    rw [heq, putRecord_out (by omega), putFree, writeLe_out (by omega), fill_out (by omega),
      cutRecord_out (by omega)]
  have hupto : Tiles dirFormat m' 0 (newOffset m o + dirRecordSize name.length)
      (pre ++ (head ++ [newOffset m o])) := by
    refine tiles_append.mpr ⟨o, hprefix.congr hbelow, tiles_append.mpr ⟨_, hhead, .cons hrok ?_⟩⟩
    rw [dirFormat_len, hrlen]
    exact .nil
  rintro ⟨ps, hps⟩
  obtain ⟨rest, hrest'⟩ := hupto.suffix hps (by omega)
  -- what follows them claims a length of four
  have hlen : recLength m' (newOffset m o + dirRecordSize name.length) = 4 := by
    have hsame : Agree m' (putFree (cutRecord m o) (newOffset m o + dirRecordSize name.length) 4)
        (newOffset m o + dirRecordSize name.length + 4) 2 := fun i hi _ => by
      rw [heq, putRecord_out (by omega)]
    rw [recLength, readLe_congr hsame]
    exact readLe_writeLe_of_lt (by decide)
  have := (hrest'.ok_of_lt (by omega)).min
  rw [hlen] at this
  exact absurd this (by decide)

end Proninx.Ufs2
