import Proninx.Kern.Prog

/-!
# Byte access to a partition (`blockdev.c`)

`blockdev_read` and `blockdev_write` turn a byte range of a partition
into whole-sector buffer accesses. `flat` is the partition as one byte
memory; the two functions are proved to be a window and a blit of it, so
that everything above this module reasons about bytes only.

Functions that return 0 or -1 through `int` are `Prog (Option α)`: `none`
is -1 and `α` holds what they return through pointers. Pointer arguments
are never null here.
-/

namespace Proninx

open ByteMem Disk Nat Prog

/-- `~(uint64_t)0` -/
def U64MAX : Nat := 2 ^ 64 - 1

/-- Run `x`, give up with -1 if it does, go on with its result otherwise. -/
def Prog.andThen {α β : Type} (x : Prog (Option α)) (f : α → Prog (Option β)) :
    Prog (Option β) := do
  match ← x with
  | none => pure none
  | some a => f a

variable {d : Disk}

namespace Prog

variable {α β : Type} {d' : Disk} {x : Prog (Option α)} {f : α → Prog (Option β)}

lemma run_andThen_some {a : α} (h : x.run d = .ok (some a, d')) :
    (x.andThen f).run d = (f a).run d' :=
  run_bind_ok h

lemma run_andThen_none (h : x.run d = .ok (none, d')) : (x.andThen f).run d = .ok (none, d') :=
  run_bind_ok h

variable {Q : Option β → Disk → Prop}

lemma Ensures.andThen {P : Option α → Disk → Prop} (hx : x.Ensures d P)
    (hnone : ∀ d', P none d' → Q none d') (hsome : ∀ a d', P (some a) d' → (f a).Ensures d' Q) :
    (x.andThen f).Ensures d Q :=
  hx.bind fun r d' hp => match r, hp with
    | none, hp => .pure (hnone d' hp)
    | some a, hp => hsome a d' hp

lemma Ensures.andThen_some {a : α} (hx : x.run d = .ok (some a, d')) (hf : (f a).Ensures d' Q) :
    (x.andThen f).Ensures d Q :=
  .step hx hf

lemma Ensures.andThen_none (hx : x.run d = .ok (none, d')) (hq : Q none d') :
    (x.andThen f).Ensures d Q :=
  .step hx (.pure hq)

lemma Leads.andThen {P : Option α → Disk → Prop} (hx : x.Leads d P)
    (hnone : ∀ d', P none d' → Q none d') (hsome : ∀ a d', P (some a) d' → (f a).Leads d' Q) :
    (x.andThen f).Leads d Q :=
  hx.bind fun r d' hp => match r, hp with
    | none, hp => .pure (hnone d' hp)
    | some a, hp => hsome a d' hp

lemma run_andThen_reads {r : Option α} {g : α → Option β} (h : x.run d = .ok (r, d))
    (hf : ∀ a, r = some a → (f a).run d = .ok (g a, d)) :
    (x.andThen f).run d = .ok (r.bind g, d) := by
  cases r with
  | none => exact run_andThen_none h
  | some a => exact (run_andThen_some h).trans (hf a rfl)

end Prog

/-- A partition: `struct blockdev` without its device number. -/
structure Blockdev where
  firstLba : Nat
  sectorCount : Nat
  deriving DecidableEq, Repr

namespace Blockdev

variable (v : Blockdev)

def size : Nat := v.sectorCount * BSIZE

/-- The sector of the device that holds byte `i`. -/
def lba (i : Nat) : Nat := (v.firstLba + i / BSIZE) % 2 ^ 64

def readSectors : (fuel offset length : Nat) → (out : Mem) → (pos : Nat) → Prog (Option Mem)
  | 0, _, _, out, _ => pure (some out)
  | fuel + 1, offset, length, out, pos =>
    if length = 0 then pure (some out)
    else
      let inSector := offset % BSIZE
      let count := min (BSIZE - inSector) length
      if 0xffffffff < v.lba offset then pure none
      else do
        let b ← bread (v.lba offset)
        brelse (v.lba offset)
        readSectors fuel (offset + count) (length - count)
          (blit out pos (shift b inSector) count) (pos + count)

def writeSectors : (fuel offset length : Nat) → (src : Mem) → Prog (Option Unit)
  | 0, _, _, _ => pure (some ())
  | fuel + 1, offset, length, src =>
    if length = 0 then pure (some ())
    else
      let inSector := offset % BSIZE
      let count := min (BSIZE - inSector) length
      if 0xffffffff < v.lba offset then pure none
      else do
        let b ← bread (v.lba offset)
        bwrite (v.lba offset) (blit b inSector src count)
        brelse (v.lba offset)
        writeSectors fuel (offset + count) (length - count) (shift src count)

/-- The range check both functions make first. -/
def Refuses (offset length : Nat) : Prop :=
  U64MAX / BSIZE < v.sectorCount ∨ v.size < offset ∨ v.size - offset < length

instance (offset length : Nat) : Decidable (v.Refuses offset length) :=
  inferInstanceAs (Decidable (_ ∨ _ ∨ _))

/-- `blockdev_read`. Every turn of the loop moves at least one byte, so
`length` turns are enough. -/
def read (offset length : Nat) : Prog (Option Mem) :=
  if v.Refuses offset length then pure none
  else v.readSectors length offset length (fun _ => 0) 0

def write (offset : Nat) (src : Mem) (length : Nat) : Prog (Option Unit) :=
  if v.Refuses offset length then pure none
  else v.writeSectors length offset length src

/-! ## The partition as bytes -/

/-- The bytes of the partition. -/
def flat (d : Disk) : Mem := fun i => if i < v.size then d (v.lba i) (i % BSIZE) else 0

/-- Every sector of the range has a 32-bit address. -/
def Addressable (offset length : Nat) : Prop :=
  ∀ i, offset ≤ i → i < offset + length → v.lba i ≤ 0xffffffff

instance (offset length : Nat) : Decidable (v.Addressable offset length) :=
  decidable_of_iff (∀ j, j < length → v.lba (offset + j) ≤ 0xffffffff)
    ⟨fun h i hi hj => by
        have := h (i - offset) (by omega)
        rwa [Nat.add_sub_cancel' hi] at this,
      fun h j hj => h (offset + j) (by omega) (by omega)⟩

/-- The range lies in the partition and can be transferred. -/
def Fits (offset length : Nat) : Prop := ¬ v.Refuses offset length ∧ v.Addressable offset length

instance (offset length : Nat) : Decidable (v.Fits offset length) :=
  inferInstanceAs (Decidable (_ ∧ _))

/-- The bytes `[offset, offset + length)` as a buffer. -/
def window (m : Mem) (offset length : Nat) : Mem := blit (fun _ => 0) 0 (shift m offset) length

/-- What `blockdev_read` returns on a partition with bytes `m`. -/
def peek (m : Mem) (offset length : Nat) : Option Mem :=
  if v.Fits offset length then some (window m offset length) else none

variable {v} {offset length i : Nat}

lemma window_apply {m : Mem} (h : i < length) : window m offset length i = m (offset + i) := by
  rw [window, blit_in (by omega) (by omega)]
  simp

lemma not_refuses_iff : ¬ v.Refuses offset length ↔
    v.sectorCount ≤ U64MAX / BSIZE ∧ offset + length ≤ v.size := by
  unfold Refuses
  omega

lemma size_le (h : v.sectorCount ≤ U64MAX / BSIZE) : v.size ≤ U64MAX := by
  unfold size BSIZE at *
  omega

lemma lba_inj {j : Nat} (hc : v.sectorCount ≤ U64MAX / BSIZE) (hi : i < v.size)
    (hj : j < v.size) (h : v.lba i = v.lba j) : i / BSIZE = j / BSIZE := by
  have hsize := size_le hc
  simp only [lba, U64MAX, BSIZE] at *
  omega

lemma lba_eq {j : Nat} (h : i / BSIZE = j / BSIZE) : v.lba i = v.lba j := by
  unfold lba
  rw [h]

variable {length' : Nat}

lemma Addressable.mono {offset' : Nat} (h : v.Addressable offset length) (ho : offset ≤ offset')
    (hl : offset' + length' ≤ offset + length) : v.Addressable offset' length' :=
  fun i hi hj => h i (by omega) (by omega)

lemma Fits.mono {offset' : Nat} (h : v.Fits offset length)
    (ho : offset ≤ offset') (hl : offset' + length' ≤ offset + length) :
    v.Fits offset' length' := by
  obtain ⟨hr, ha⟩ := h
  rw [not_refuses_iff] at hr
  exact ⟨not_refuses_iff.mpr ⟨hr.1, by omega⟩, ha.mono ho hl⟩

lemma Fits.append (h : v.Fits offset length)
    (h' : v.Fits (offset + length) length') : v.Fits offset (length + length') := by
  obtain ⟨hr, ha⟩ := h
  obtain ⟨hr', ha'⟩ := h'
  rw [not_refuses_iff] at hr hr'
  refine ⟨not_refuses_iff.mpr ⟨hr.1, by omega⟩, fun i hi hj => ?_⟩
  by_cases hlt : i < offset + length
  · exact ha i hi hlt
  · exact ha' i (by omega) (by omega)

lemma Fits.le_size (h : v.Fits offset length) :
    offset + length ≤ v.size := (not_refuses_iff.mp h.1).2

lemma addressable_sector (h : v.lba offset ≤ 0xffffffff)
    (hs : offset % BSIZE + length ≤ BSIZE) : v.Addressable offset length := by
  intro i hi hj
  have hsec : i / BSIZE = offset / BSIZE := by
    unfold BSIZE at *
    omega
  rw [lba_eq hsec]
  exact h

/-! ## What the two functions do -/

lemma flat_apply (h : i < v.size) : v.flat d i = d (v.lba i) (i % BSIZE) :=
  if_pos h

lemma readSectors_run (fuel : Nat) : ∀ {offset length pos : Nat} {out : Mem},
    length ≤ fuel → offset + length ≤ v.size → v.Addressable offset length →
      (v.readSectors fuel offset length out pos).run d
        = .ok (some (blit out pos (shift (v.flat d) offset) length), d) := by
  induction fuel with
  | zero =>
    intro offset length pos out hf _ _
    obtain rfl : length = 0 := by omega
    simp [readSectors]
  | succ fuel ih => ?_
  intro offset length pos out hf hs ha
  unfold readSectors
  by_cases h0 : length = 0
  · simp [h0]
  rw [if_neg h0, if_neg (not_lt.mpr (ha offset (by omega) (by omega))),
    Prog.run_bread_bind, Prog.run_brelse_bind]
  have hmod : offset % BSIZE < BSIZE := mod_lt _ (by decide)
  generalize hc : min (BSIZE - offset % BSIZE) length = count
  have hcount : 0 < count ∧ count ≤ length ∧ offset % BSIZE + count ≤ BSIZE := by omega
  rw [ih (by omega) (by omega) (ha.mono (by omega) (by omega))]
  -- the piece from this sector is the next `count` bytes of the partition
  have hpiece : Agree (shift (d (v.lba offset)) (offset % BSIZE)) (shift (v.flat d) offset)
      0 count := by
    intro i _ hi
    have hsec : (offset + i) / BSIZE = offset / BSIZE ∧
        (offset + i) % BSIZE = offset % BSIZE + i := by
      unfold BSIZE at *
      omega
    rw [shift_apply, shift_apply, flat_apply (by omega), lba_eq hsec.1, hsec.2]
  rw [blit_congr hpiece, ← shift_shift, blit_blit _ _ _ hcount.2.1]

lemma readSectors_bad (fuel : Nat) : ∀ {offset length pos : Nat} {out : Mem},
    length ≤ fuel → ¬ v.Addressable offset length →
      (v.readSectors fuel offset length out pos).run d = .ok (none, d) := by
  induction fuel with
  | zero =>
    intro offset length pos out hf ha
    exact absurd (fun i hi hj => by omega) ha
  | succ fuel ih => ?_
  intro offset length pos out hf ha
  unfold readSectors
  have h0 : length ≠ 0 := fun h => ha fun i hi hj => by omega
  rw [if_neg h0]
  have hmod : offset % BSIZE < BSIZE := mod_lt _ (by decide)
  generalize hc : min (BSIZE - offset % BSIZE) length = count
  split
  · rfl
  next hlba =>
  rw [run_bread_bind, run_brelse_bind]
  refine ih (by omega) fun hrest => ha fun i hi hj => ?_
  by_cases hlt : i < offset + count
  · exact @addressable_sector v offset count (by omega) (by omega) i hi hlt
  · exact hrest i (by omega) (by omega)

/-- `blockdev_read` returns the bytes of the range, or -1, and leaves the
disk alone. -/
lemma read_run (v : Blockdev) (offset length : Nat) (d : Disk) :
    (v.read offset length).run d = .ok (v.peek (v.flat d) offset length, d) := by
  unfold read peek
  split
  · next hr => rw [if_neg fun h => h.1 hr, run_pure]
  next hr =>
  by_cases ha : v.Addressable offset length
  · rw [if_pos ⟨hr, ha⟩]
    exact readSectors_run length le_rfl (not_refuses_iff.mp hr).2 ha
  rw [if_neg fun h => ha h.2]
  exact readSectors_bad length le_rfl ha

lemma peek_congr {m m' : Mem} (h : Agree m m' offset length) :
    v.peek m offset length = v.peek m' offset length := by
  have hw : window m offset length = window m' offset length :=
    blit_congr fun i _ hi => h (offset + i) (by omega) (by omega)
  unfold peek
  rw [hw]

lemma flat_set {src : Mem} {count : Nat}
    (hc : v.sectorCount ≤ U64MAX / BSIZE) (hs : offset + count ≤ v.size) (h0 : 0 < count)
    (hsec : offset % BSIZE + count ≤ BSIZE) :
    v.flat (d.set (v.lba offset) (blit (d (v.lba offset)) (offset % BSIZE) src count))
      = blit (v.flat d) offset src count := by
  funext i
  by_cases hi : i < v.size
  · rw [flat_apply hi]
    by_cases hl : v.lba i = v.lba offset
    · have hdiv : i / BSIZE = offset / BSIZE := lba_inj hc hi (by omega) hl
      rw [hl, set_same]
      by_cases hin : offset ≤ i ∧ i < offset + count
      · rw [blit_in (by unfold BSIZE at *; omega) (by unfold BSIZE at *; omega),
          blit_in hin.1 hin.2]
        congr 1
        unfold BSIZE at *
        omega
      · rw [blit_out (by unfold BSIZE at *; omega), blit_out (by omega), flat_apply hi, hl]
    · rw [set_ne hl, blit_out, flat_apply hi]
      by_contra hin
      refine hl (lba_eq ?_)
      unfold BSIZE at *
      omega
  · rw [blit_out (by omega)]
    simp [flat, hi]

/-- Disk `d'` is `d` with `count` bytes of `src` stored at `offset` of the
partition. -/
structure Stores (v : Blockdev) (offset : Nat) (src : Mem) (count : Nat) (d d' : Disk) : Prop where
  flat : v.flat d' = blit (v.flat d) offset src count
  rest : ∀ n i, (∀ j, offset ≤ j → j < offset + count → ¬ (v.lba j = n ∧ j % BSIZE = i)) →
    d' n i = d n i

lemma Stores.none (offset : Nat) (src : Mem) (d : Disk) : v.Stores offset src 0 d d :=
  ⟨(blit_zero ..).symm, fun _ _ _ => rfl⟩

lemma Stores.append {src : Mem} {count count' : Nat} {d d1 d2 : Disk}
    (h : v.Stores offset src count d d1)
    (h' : v.Stores (offset + count) (shift src count) count' d1 d2) :
    v.Stores offset src (count + count') d d2 where
  flat := by
    have hblit := blit_blit (v.flat d) src offset (Nat.le_add_right count count')
    rw [Nat.add_sub_cancel_left] at hblit
    rw [h'.flat, h.flat, hblit]
  rest n i hout := by
    rw [h'.rest n i fun j hj hlt => hout j (by omega) (by omega)]
    exact h.rest n i fun j hj hlt => hout j hj (by omega)

lemma stores_sector {src : Mem} {count : Nat} (d : Disk)
    (hc : v.sectorCount ≤ U64MAX / BSIZE) (hs : offset + count ≤ v.size) (h0 : 0 < count)
    (hsec : offset % BSIZE + count ≤ BSIZE) :
    v.Stores offset src count d
      (d.set (v.lba offset) (blit (d (v.lba offset)) (offset % BSIZE) src count)) where
  flat := flat_set hc hs h0 hsec
  rest n i hout := by
    by_cases hn : n = v.lba offset
    · rw [hn, set_same, blit_out]
      by_contra hin
      have hplace : (offset + (i - offset % BSIZE)) / BSIZE = offset / BSIZE ∧
          (offset + (i - offset % BSIZE)) % BSIZE = i := by
        unfold BSIZE at *
        omega
      exact hout (offset + (i - offset % BSIZE)) (by omega) (by omega)
        ⟨(lba_eq hplace.1).trans hn.symm, hplace.2⟩
    · rw [set_ne hn]

/-- The loop stores the bytes up to the first sector without a 32-bit
address, and fails if there is one. -/
lemma writeSectors_stores (fuel : Nat) : ∀ {offset length : Nat} {src : Mem} {d : Disk},
    length ≤ fuel → ¬ v.Refuses offset length →
      ∃ count d', (v.writeSectors fuel offset length src).run d
          = .ok (if count = length then some () else none, d') ∧
        v.Stores offset src count d d' ∧ count ≤ length ∧ v.Addressable offset count ∧
        (count < length → 0xffffffff < v.lba (offset + count)) := by
  induction fuel with
  | zero =>
    intro offset length src d hf _
    obtain rfl : length = 0 := by omega
    exact ⟨0, d, rfl, .none .., le_refl 0, fun i hi hj => by omega, fun h => by omega⟩
  | succ fuel ih => ?_
  intro offset length src d hf hr
  obtain ⟨hc, hs⟩ := not_refuses_iff.mp hr
  unfold writeSectors
  split
  · next h0 =>
    subst h0
    exact ⟨0, d, rfl, .none .., le_refl 0, fun i hi hj => by omega, fun h => by omega⟩
  next h0 =>
  split
  · next hlba =>
    exact ⟨0, d, by rw [if_neg (Ne.symm h0)]; rfl, .none .., zero_le _,
      fun i hi hj => by omega, fun _ => hlba⟩
  next hlba =>
  rw [run_bread_bind, run_bwrite_bind, run_brelse_bind]
  have hmod : offset % BSIZE < BSIZE := mod_lt _ (by decide)
  generalize hcnt : min (BSIZE - offset % BSIZE) length = count
  have hcount : 0 < count ∧ count ≤ length ∧ offset % BSIZE + count ≤ BSIZE := by omega
  obtain ⟨count', d', hrun, hstores, hle, hadd, hstop⟩ :=
    @ih (offset + count) (length - count) (shift src count)
      (d.set (v.lba offset) (blit (d (v.lba offset)) (offset % BSIZE) src count))
      (by omega) (not_refuses_iff.mpr ⟨hc, by omega⟩)
  refine ⟨count + count', d', ?_, (stores_sector d hc (by omega) hcount.1 hcount.2.2).append
    hstores, by omega, fun i hi hj => ?_, fun hlt => ?_⟩
  · rw [hrun]
    exact congrArg (fun r => Except.ok (r, d')) (if_congr (by omega) rfl rfl)
  · by_cases hlt : i < offset + count
    · exact @addressable_sector v offset count (by omega) (by omega) i hi hlt
    · exact hadd i (by omega) (by omega)
  · rw [← add_assoc]
    exact hstop (by omega)

lemma write_run {v : Blockdev} {offset length : Nat} (h : v.Fits offset length) (src : Mem)
    (d : Disk) : ∃ d', (v.write offset src length).run d = .ok (some (), d') ∧
      v.flat d' = blit (v.flat d) offset src length := by
  obtain ⟨count, d', hrun, hstores, hle, -, hstop⟩ :=
    @writeSectors_stores v length _ _ src d le_rfl h.1
  obtain rfl : count = length := by
    by_contra hne
    exact not_lt.mpr (h.2 (offset + count) (by omega) (by omega)) (hstop (by omega))
  rw [if_pos rfl] at hrun
  refine ⟨d', ?_, hstores.flat⟩
  rw [write, if_neg h.1]
  exact hrun

lemma write_bad {v : Blockdev} {offset length : Nat} (h : ¬ v.Fits offset length) (src : Mem)
    (d : Disk) : ∃ d', (v.write offset src length).run d = .ok (none, d') ∧
      ∀ i, i < offset ∨ offset + length ≤ i → v.flat d' i = v.flat d i := by
  unfold write
  split
  · exact ⟨d, rfl, fun _ _ => rfl⟩
  next hr =>
  obtain ⟨count, d', hrun, hstores, hle, hadd, -⟩ :=
    @writeSectors_stores v length _ _ src d le_rfl hr
  have hne : count ≠ length := by
    rintro rfl
    exact h ⟨hr, hadd⟩
  rw [if_neg hne] at hrun
  exact ⟨d', hrun, fun i hi => by rw [hstores.flat, blit_out (by omega)]⟩

lemma write_within (v : Blockdev) (offset : Nat) (src : Mem) (length : Nat) (d : Disk) :
    (v.write offset src length).Ensures d fun r d' =>
      (v.Fits offset length → r = some ()) ∧
      ∀ i, i < offset ∨ offset + length ≤ i → v.flat d' i = v.flat d i := by
  by_cases h : v.Fits offset length
  · obtain ⟨d', hrun, hflat⟩ := write_run h src d
    exact .of_run hrun ⟨fun _ => rfl, fun i hi => by rw [hflat, blit_out hi]⟩
  obtain ⟨d', hrun, hflat⟩ := write_bad h src d
  exact .of_run hrun ⟨fun hfit => absurd hfit h, hflat⟩

/-! ## All or nothing -/

/-- A write fails and leaves the device as it was, or stores exactly its
bytes and every later read sees them. -/
def WholeOrNothing (v : Blockdev) (offset : Nat) (src : Mem) (length : Nat) (d : Disk) : Prop :=
  (v.write offset src length).run d = .ok (none, d) ∨
    ∃ d', (v.write offset src length).run d = .ok (some (), d') ∧
      v.Stores offset src length d d' ∧
      ∀ o n, (v.read o n).run d' = .ok (v.peek (blit (v.flat d) offset src length) o n, d')

/-- A write is all or nothing unless it comes to a sector without a 32-bit
address after bytes that it changes. -/
theorem write_whole_iff (v : Blockdev) (offset : Nat) (src : Mem) (length : Nat) (d : Disk) :
    v.WholeOrNothing offset src length d ↔ v.Refuses offset length ∨ v.Addressable offset length ∨
        ∀ i, offset ≤ i → i < offset + length → v.Addressable offset (i + 1 - offset) →
          v.flat d i = src (i - offset) := by
  unfold WholeOrNothing write
  by_cases hr : v.Refuses offset length
  · rw [if_pos hr]
    exact iff_of_true (.inl rfl) (.inl hr)
  rw [if_neg hr]
  obtain ⟨count, d', hrun, hstores, hle, hadd, hstop⟩ :=
    @writeSectors_stores v length _ _ src d (le_refl _) hr
  rw [hrun]
  by_cases hne : count = length
  · subst hne
    rw [if_pos rfl]
    exact iff_of_true (.inr ⟨d', rfl, hstores, fun o n => hstores.flat ▸ read_run v o n d'⟩)
      (.inr (.inl hadd))
  rw [if_neg hne]
  have hhigh := hstop (by omega)
  have hfirst : ∀ i, offset ≤ i → v.Addressable offset (i + 1 - offset) → i < offset + count := by
    intro i hi ha
    by_contra hge
    exact not_lt.mpr (ha (offset + count) (by omega) (by omega)) hhigh
  constructor
  · rintro (heq | ⟨d'', heq, -⟩)
    · obtain ⟨-, rfl⟩ := Prod.mk.inj (Except.ok.inj heq)
      refine .inr (.inr fun i hi _ ha => ?_)
      rw [hstores.flat, blit_in hi (hfirst i hi ha)]
    · cases heq
  rintro (h | h | h)
  · exact absurd h hr
  · exact absurd hhigh (not_lt.mpr (h (offset + count) (by omega) (by omega)))
  refine .inl (congrArg (fun e => Except.ok (none, e)) (funext fun n => funext fun i => ?_))
  by_cases hin : ∃ j, (offset ≤ j ∧ j < offset + count) ∧ v.lba j = n ∧ j % BSIZE = i
  · obtain ⟨j, ⟨hj, hlt⟩, rfl, rfl⟩ := hin
    have hend := (not_refuses_iff.mp hr).2
    have hsize : j < v.size := by omega
    rw [← flat_apply (d := d') hsize, ← flat_apply (d := d) hsize, hstores.flat, blit_in hj hlt]
    exact (h j hj (by omega) (hadd.mono (le_refl _) (by omega))).symm
  · exact hstores.rest n i fun j hj hlt hplace => hin ⟨j, ⟨hj, hlt⟩, hplace⟩

/-- Of two sectors the second has no 32-bit address: the write fails with
the first one changed. -/
theorem write_half_done : ¬ WholeOrNothing ⟨0xffffffff, 2⟩ 0 (fun _ => 1) 1024 (fun _ _ => 0) := by
  have hrun : ((⟨0xffffffff, 2⟩ : Blockdev).write 0 (fun _ => 1) 1024).run (fun _ _ => 0) =
      .ok (none, Disk.set (fun _ _ => 0) 0xffffffff (blit (fun _ => 0) 0 (fun _ => 1) 512)) := rfl
  rintro (h | ⟨d', h, -⟩)
  · have heq := (Prod.mk.inj (Except.ok.inj (hrun.symm.trans h))).2
    exact absurd (congrFun (congrFun heq 0xffffffff) 0) (by decide)
  · cases hrun.symm.trans h

/-! ## Images -/

/-- The disk whose sectors hold the bytes of `m` in order. -/
def imageDisk (m : Mem) : Disk := fun n i => m (n * BSIZE + i)

variable {n : Nat}

lemma image_lba (hn : n ≤ 2 ^ 32) (h : i < n * BSIZE) :
    (⟨0, n⟩ : Blockdev).lba i = i / BSIZE ∧ i / BSIZE < n := by
  have hlt : i / BSIZE < n := (Nat.div_lt_iff_lt_mul (by decide)).mpr h
  refine ⟨?_, hlt⟩
  rw [lba, zero_add]
  exact mod_eq_of_lt (by omega)

lemma flat_image (hn : n ≤ 2 ^ 32) (m : Mem) (h : i < n * BSIZE) :
    (⟨0, n⟩ : Blockdev).flat (imageDisk m) i = m i := by
  have hin : i < (⟨0, n⟩ : Blockdev).size := h
  rw [flat, if_pos hin, (image_lba hn h).1]
  exact congrArg m (div_add_mod' i BSIZE)

lemma fits_image {a k : Nat} (hn : n ≤ 2 ^ 32) (h : a + k ≤ n * BSIZE) :
    (⟨0, n⟩ : Blockdev).Fits a k := by
  have hcount : n ≤ U64MAX / BSIZE := le_trans hn (by decide)
  refine ⟨not_refuses_iff.mpr ⟨hcount, h⟩, fun i _ hi => ?_⟩
  obtain ⟨heq, hlt⟩ := image_lba hn (show i < n * BSIZE by omega)
  rw [heq]
  omega

end Blockdev

end Proninx
