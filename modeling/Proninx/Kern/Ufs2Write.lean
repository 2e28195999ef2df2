import Proninx.Kern.Ufs2Place

/-!
# What a write does to the bytes of a file

A file is read here the way UFS2 means it: byte `i` is the byte at the
address `ufs2_block_address` finds, and zero in a hole. The steps of
`ufs2_write_growing` are then three. Taking blocks fills holes with zeros
and changes no byte of the file; clearing the gap and copying the source
change exactly the bytes they are asked to; writing the dinode changes
none. `ufs2_read` returns the bytes of a range that meets no hole, and
fails on every other.
-/

namespace Proninx.Ufs2

open Blockdev ByteMem Nat Prog

variable (v : Volume)

def fileByte (m : Mem) (x : Inode) (i : Nat) : UInt8 :=
  match byteAt v m x i with
  | some a => m a
  | none => 0

/-- The logical block `ufs2_read` looks for byte `i` in. -/
def blockOf (i : Nat) : Nat := i / v.blockSize % 2 ^ 32

/-- Byte `i` of the file is not in a hole. -/
def Mapped (m : Mem) (x : Inode) (i : Nat) : Prop := addressAt v m x (blockOf v i) ≠ none

instance (m : Mem) (x : Inode) (i : Nat) : Decidable (Mapped v m x i) :=
  inferInstanceAs (Decidable (_ ≠ _))

/-- Fragment `k` belongs to a block of the file, taken whole. -/
def Holds (m : Mem) (x : Inode) (k : Nat) : Prop :=
  ∃ b a, addressAt v m x b = some a ∧ a ≤ k ∧ k < a + v.fragmentsPerBlock

/-- The blocks of file `n` are whole blocks of its own: they are allocated,
on the device and apart from each other, from the indirect block, from the
groups and from the dinode, and so are the free fragments, of which the
boot block is not one. -/
structure Whole (n : Nat) (m : Mem) (x : Inode) : Prop where
  room : Room v n fun k => FreeAt v m k ∨ Holds v m x k
  boot : ¬ FreeAt v m 0
  allocated : ∀ k, Holds v m x k → ¬ FreeAt v m k
  alone : ∀ b c a e, b ≠ c → addressAt v m x b = some a → addressAt v m x c = some e →
    ∀ k, a ≤ k → k < a + v.fragmentsPerBlock → ¬ (e ≤ k ∧ k < e + v.fragmentsPerBlock)
  fits : ∀ b a, addressAt v m x b = some a → v.device.Fits (a * v.fragmentSize) v.blockSize
  pointers : ∀ i, PointerByte v (x.indirect 0) i → ¬ InGroups v i ∧ ¬ InSlot v n i ∧
    ∀ k, FreeAt v m k ∨ Holds v m x k → ¬ InFragment v k i

variable {v} {n : Nat} {m m' : Mem} {x y : Inode} {d : Disk}

lemma Room.mono {mine mine' : Nat → Prop} (h : Room v n mine) (hsub : ∀ k, mine' k → mine k) :
    Room v n mine' :=
  { h with
    number := fun k hk => h.number k (hsub k hk)
    address := fun k hk => h.address k (hsub k hk)
    apart := fun k i hk hi => h.apart k i (hsub k hk) hi }

lemma Whole.probed (h : Whole v n m x) : v.Probed := h.room.probed

/-! ## Addresses -/

variable {b a : Nat}

lemma Whole.holds (_ : Whole v n m x) (ha : addressAt v m x b = some a) :
    ∀ k < v.fragmentsPerBlock, Holds v m x (a + k) :=
  fun k hk => ⟨b, a, ha, by omega, by omega⟩

lemma Whole.block_end (h : Whole v n m x) (ha : addressAt v m x b = some a) :
    a * v.fragmentSize + v.blockSize ≤ U64MAX :=
  h.room.block_end fun k hk => .inr (h.holds ha k hk)

variable {i : Nat}

lemma Whole.byteAt_eq (h : Whole v n m x) (ha : addressAt v m x (blockOf v i) = some a) :
    byteAt v m x i = some (a * v.fragmentSize + i % v.blockSize) := by
  have hs := h.probed.sizes
  have hend := h.block_end ha
  have hin := mod_lt i hs.blockPos
  have hle : a ≤ U64MAX / v.fragmentSize := (Nat.le_div_iff_mul_le hs.pos).mpr (by omega)
  unfold blockOf at ha
  rw [byteAt, ha, Option.bind_some, if_neg (by omega),
    mod_eq_of_lt (by unfold U64MAX at hend; omega)]

lemma Whole.byte_eq (h : Whole v n m x) (ha : addressAt v m x (blockOf v i) = some a) :
    fileByte v m x i = m (a * v.fragmentSize + i % v.blockSize) := by
  rw [fileByte, h.byteAt_eq ha]

lemma fileByte_hole (ha : addressAt v m x (blockOf v i) = none) : fileByte v m x i = 0 := by
  unfold blockOf at ha
  rw [fileByte, byteAt, ha]
  rfl

lemma Whole.in_fragment (h : Whole v n m x) (ha : addressAt v m x b = some a)
    (hlo : a * v.fragmentSize ≤ i) (hhi : i < a * v.fragmentSize + v.blockSize) :
    ∃ k, a ≤ k ∧ k < a + v.fragmentsPerBlock ∧ Holds v m x k ∧ InFragment v k i := by
  obtain ⟨k, hk, hi⟩ := in_block_fragment h.probed hlo hhi
  exact ⟨a + k, by omega, by omega, h.holds ha k hk, hi⟩

lemma Whole.blocks_apart (h : Whole v n m x) {c e : Nat} (hne : b ≠ c)
    (ha : addressAt v m x b = some a) (he : addressAt v m x c = some e)
    (hlo : a * v.fragmentSize ≤ i) (hhi : i < a * v.fragmentSize + v.blockSize) :
    i < e * v.fragmentSize ∨ e * v.fragmentSize + v.blockSize ≤ i := by
  by_contra hin
  obtain ⟨k, hk1, hk2, -, hki⟩ := h.in_fragment ha hlo hhi
  obtain ⟨j, hj1, hj2, -, hji⟩ := h.in_fragment he (i := i) (by omega) (by omega)
  obtain rfl := inFragment_inj hki hji
  exact h.alone b c a e hne ha he k hk1 hk2 ⟨hj1, hj2⟩

/-! ## Data -/

lemma Whole.quiet (h : Whole v n m x) (hq : Quiet v n (Holds v m x) m m') :
    Whole v n m' x ∧ ∀ b, addressAt v m' x b = addressAt v m x b := by
  have haddr : ∀ b, addressAt v m' x b = addressAt v m x b := addressAt_congr fun i hi =>
    hq i (h.pointers i hi).2.1 fun k hk => (h.pointers i hi).2.2 k (.inr hk)
  have hholds : ∀ k, Holds v m' x k ↔ Holds v m x k := fun k =>
    exists_congr fun b => exists_congr fun a => by rw [haddr]
  have hfree := hq.freeAt (h.room.mono fun _ => .inr)
  refine ⟨⟨h.room.mono fun k => ?_, fun h0 => h.boot ((hfree 0).mp h0), fun k => ?_,
    fun b c a e => ?_, fun b a => ?_, fun i hi => ?_⟩, haddr⟩
  · rw [hfree, hholds]
    exact id
  · rw [hfree, hholds]
    exact h.allocated k
  · rw [haddr, haddr]
    exact h.alone b c a e
  · rw [haddr]
    exact h.fits b a
  obtain ⟨hg, hs, hdata⟩ := h.pointers i hi
  refine ⟨hg, hs, fun k => ?_⟩
  rw [hfree, hholds]
  exact hdata k

lemma blockOf_eq (h : i / v.blockSize < 2 ^ 32) : blockOf v i = i / v.blockSize :=
  mod_eq_of_lt h

lemma addressAt_direct (hb : b < DIRECT_BLOCKS) :
    addressAt v m x b = if x.direct b = 0 then none else some (x.direct b) := by
  rw [addressAt, if_pos hb]

variable (v n x) in
/-- Bytes `[lo, hi)` of the file get their values from `value`; no other
byte of the file changes, and neither do the dinode and the addresses. -/
structure Puts (value : Nat → UInt8) (lo hi : Nat) (m m' : Mem) : Prop where
  whole : Whole v n m' x
  address : ∀ b, addressAt v m' x b = addressAt v m x b
  slot : ∀ i, InSlot v n i → m' i = m i
  byte : ∀ i, i / v.blockSize < 2 ^ 32 → fileByte v m' x i
    = if lo ≤ i ∧ i < hi then value i else fileByte v m x i

lemma Puts.nothing (h : Whole v n m x) (value : Nat → UInt8) (lo : Nat) :
    Puts v n x value lo lo m m :=
  ⟨h, fun _ => rfl, fun _ _ => rfl, fun i _ => (if_neg (by omega)).symm⟩

lemma Puts.append {value : Nat → UInt8} {lo mid hi : Nat} {m'' : Mem}
    (h : Puts v n x value lo mid m m') (h' : Puts v n x value mid hi m' m'') (hlo : lo ≤ mid) (hhi : mid ≤ hi) :
    Puts v n x value lo hi m m'' where
  whole := h'.whole
  address b := (h'.address b).trans (h.address b)
  slot i hi := (h'.slot i hi).trans (h.slot i hi)
  byte i hi := by
    rw [h'.byte i hi, h.byte i hi]
    split_ifs <;> first | rfl | omega

variable {src : Mem}

lemma Whole.puts (h : Whole v n m x) (value : Nat → UInt8) {j count : Nat}
    (ha : addressAt v m x b = some a) (hj : j + count ≤ v.blockSize)
    (hsrc : ∀ i < count, src i = value (b * v.blockSize + j + i))
    (hm : m' = blit m (a * v.fragmentSize + j) src count) :
    Puts v n x value (b * v.blockSize + j) (b * v.blockSize + j + count) m m' := by
  have hbs := h.probed.sizes.blockPos
  have hdata : ∀ i, m' i ≠ m i → ∃ k, Holds v m x k ∧ InFragment v k i := fun i hne => by
    by_contra hno
    refine hne (hm ▸ blit_out ?_)
    by_contra hin
    obtain ⟨k, -, -, hk, hki⟩ := h.in_fragment ha (i := i) (by omega) (by omega)
    exact hno ⟨k, hk, hki⟩
  have hq : Quiet v n (Holds v m x) m m' := fun i _ hi => by
    by_contra hne
    obtain ⟨k, hk, hki⟩ := hdata i hne
    exact hi k hk hki
  obtain ⟨hw, haddr⟩ := h.quiet hq
  refine ⟨hw, haddr, fun i hi => ?_, fun i hi => ?_⟩
  · by_contra hne
    obtain ⟨k, hk, hki⟩ := hdata i hne
    exact (h.room.apart k i (.inr hk) hki).2 hi
  have hdm := div_add_mod i v.blockSize
  have hmod := mod_lt i hbs
  have hblock := blockOf_eq hi
  by_cases hib : i / v.blockSize = b
  · -- the block that was written
    rw [hib] at hblock hdm
    rw [mul_comm] at hdm
    rw [hw.byte_eq (hblock ▸ (haddr b).trans ha), h.byte_eq (hblock ▸ ha), hm]
    split_ifs with hin
    · rw [blit_in (by omega) (by omega), hsrc _ (by omega)]
      exact congrArg value (by omega)
    · rw [blit_out (by omega)]
  have hout : ¬ (b * v.blockSize + j ≤ i ∧ i < b * v.blockSize + j + count) := by
    rintro ⟨hlo, hhi⟩
    refine hib ((Nat.div_eq_iff hbs).mpr ⟨?_, ?_⟩) <;> omega
  rw [if_neg hout]
  cases he : addressAt v m x (blockOf v i) with
  | none => rw [fileByte_hole he, fileByte_hole ((haddr _).trans he)]
  | some e => ?_
  rw [h.byte_eq he, hw.byte_eq ((haddr _).trans he), hm]
  have := h.blocks_apart (i := e * v.fragmentSize + i % v.blockSize)
    (show blockOf v i ≠ b by omega) he ha (by omega) (by omega)
  exact blit_out (by omega)

lemma writeBlocks_puts (value : Nat → UInt8) (fuel : Nat) :
    ∀ (offset : Nat) (src : Mem) (length : Nat) (d : Disk), Whole v n (v.bytes d) x →
      offset + length ≤ DIRECT_BLOCKS * v.blockSize → length ≤ fuel →
      (∀ i < length, src i = value (offset + i)) →
      (writeBlocks v x fuel offset src length).Ensures d fun r d' => r = some () →
        Puts v n x value offset (offset + length) (v.bytes d) (v.bytes d') := by
  induction fuel with
  | zero =>
    intro offset src length d h _ hfuel _
    obtain rfl : length = 0 := by omega
    exact .pure fun _ => .nothing h value offset
  | succ fuel ih => ?_
  intro offset src length d h hlen hfuel hsrc
  have hbs := h.probed.sizes.blockPos
  by_cases h0 : length = 0
  · subst h0
    rw [writeBlocks, if_pos rfl]
    exact .pure fun _ => .nothing h value offset
  have hb : offset / v.blockSize < DIRECT_BLOCKS :=
    (Nat.div_lt_iff_lt_mul hbs).mpr (by omega)
  have hin := mod_lt offset hbs
  have hdm := div_add_mod' offset v.blockSize
  by_cases hne : x.direct (offset / v.blockSize) = 0
  · have hat : byteAt v (v.bytes d) x offset = none := by
      rw [byteAt_direct rfl hb, if_pos (.inl hne)]
    rw [writeBlocks, if_neg h0]
    exact .andThen_none (hat ▸ byteAddress_run v x offset d) (by simp)
  have ha : addressAt v (v.bytes d) x (offset / v.blockSize)
      = some (x.direct (offset / v.blockSize)) := by
    rw [addressAt_direct hb, if_neg hne]
  refine .of_run_eq (writeBlocks_turn h.probed h0 rfl hb hne (h.block_end ha)) ?_
  generalize hcount : min (v.blockSize - offset % v.blockSize) length = count
  obtain ⟨d1, hrun, hbytes⟩ := write_run ((h.fits _ _ ha).mono
    (Nat.le_add_right _ (offset % v.blockSize))
    (show _ + count ≤ _ by omega)) src d
  have hp : Puts v n x value offset (offset + count) (v.bytes d) (v.bytes d1) := by
    have := h.puts value ha (show _ + count ≤ _ by omega)
      (fun i hi => by rw [hdm]; exact hsrc i (by omega)) hbytes
    rwa [hdm] at this
  refine .andThen_some hrun ((ih _ _ _ d1 hp.whole (by omega) (by omega) ?_).mono ?_)
  · intro i hi
    rw [shift_apply, hsrc _ (by omega), add_assoc]
  intro r d' hrest hr
  have := hrest hr
  rw [show offset + count + (length - count) = offset + length by omega] at this
  exact hp.append this (by omega) (by omega)

variable {offset : Nat}

lemma zeroGap_puts (hoff : offset ≤ DIRECT_BLOCKS * v.blockSize) (fuel : Nat) :
    ∀ (oldSize : Nat) (d : Disk), Whole v n (v.bytes d) x → offset ≤ oldSize + fuel →
      (zeroGap v x offset fuel oldSize).Ensures d fun r d' => r = some () →
        Puts v n x (fun _ => 0) oldSize (max oldSize offset) (v.bytes d) (v.bytes d') := by
  induction fuel with
  | zero =>
    intro oldSize d h hfuel
    rw [show max oldSize offset = oldSize by omega]
    exact .pure fun _ => .nothing h _ oldSize
  | succ fuel ih => ?_
  intro oldSize d h hfuel
  unfold zeroGap
  split
  · next hlt =>
    have hpos : 0 < min (offset - oldSize) BSIZE := by unfold BSIZE; omega
    dsimp only
    generalize hcount : min (offset - oldSize) BSIZE = count at hpos
    refine Prog.Ensures.andThen (writeBlocks_puts (fun _ => 0) _ _ _ _ d h (by omega)
      le_rfl fun _ _ => rfl) (by simp) fun _ d1 hp => ?_
    have hp := hp rfl
    refine (ih (oldSize + count) d1 hp.whole (by omega)).mono fun r d' hrest hr => ?_
    have := hrest hr
    rw [show max (oldSize + count) offset = max oldSize offset by omega] at this
    exact hp.append this (by omega) (by omega)
  · next hge =>
    rw [show max oldSize offset = oldSize by omega]
    exact .pure fun _ => .nothing h _ oldSize

/-! ## Taking blocks -/

variable {f : Nat}

lemma zeroBlock_zeros (hp : v.Probed)
    (hend : f * v.fragmentSize + v.blockSize ≤ U64MAX) (d : Disk) :
    (zeroBlock v f).Ensures d fun r d' =>
      (∀ i, i < f * v.fragmentSize ∨ f * v.fragmentSize + v.blockSize ≤ i →
        v.bytes d' i = v.bytes d i) ∧
      (r = some () → v.device.Fits (f * v.fragmentSize) v.blockSize ∧
        ∀ i < v.blockSize, v.bytes d' (f * v.fragmentSize + i) = 0) := by
  have hs := hp.sizes
  have hbs := hs.blockPos
  have hle : f ≤ U64MAX / v.fragmentSize := (Nat.le_div_iff_mul_le hs.pos).mpr (by omega)
  unfold zeroBlock
  rw [if_neg (by omega)]
  rcases @fillBlock_run v f (fun _ => 0) hs.region v.blockSize 0 d (by decide) (by omega)
    (by omega) (by omega) with ⟨d', hrun, hfit, hout, hin⟩ | ⟨d', hrun, hout⟩
  · exact .of_run hrun ⟨hout, fun _ => ⟨hfit hbs, fun i hi => hin i (zero_le _) hi⟩⟩
  · exact .of_run hrun ⟨hout, nofun⟩

variable (v n) in
/-- File `x` has become `y`: it reads as before, and of its holes those in
the blocks of `filled` are gone. -/
structure Filled (filled : Nat → Prop) (x y : Inode) (m m' : Mem) : Prop where
  whole : Whole v n m' y
  address : ∀ b, addressAt v m' y b ≠ none ↔ addressAt v m x b ≠ none ∨ filled b
  byte : ∀ i, fileByte v m' y i = fileByte v m x i
  size : y.size = x.size
  typed : x.Typed → y.Typed
  stored : x.Typed → Stored v m n x → Stored v m' n y

lemma Whole.free_apart (h : Whole v n m x)
    (hf : ∀ k, f ≤ k → k < f + v.fragmentsPerBlock → FreeAt v m k)
    (hlo : f * v.fragmentSize ≤ i) (hhi : i < f * v.fragmentSize + v.blockSize) :
    ¬ InGroups v i ∧ ¬ InSlot v n i ∧ ¬ PointerByte v (x.indirect 0) i ∧
      ∀ k, Holds v m x k → ¬ InFragment v k i := by
  obtain ⟨k, hk, hki⟩ := in_block_fragment h.probed hlo hhi
  have hfree := hf (f + k) (by omega) (by omega)
  obtain ⟨hg, hs⟩ := h.room.apart _ i (.inl hfree) hki
  refine ⟨hg, hs, fun hp => (h.pointers i hp).2.2 _ (.inl hfree) hki, fun j hj hji => ?_⟩
  exact h.allocated j hj (inFragment_inj hki hji ▸ hfree)

lemma Whole.take (h : Whole v n m x) (hb : b < DIRECT_BLOCKS) (h0 : x.direct b = 0)
    (hold : ∀ k, f ≤ k → k < f + v.fragmentsPerBlock → FreeAt v m k)
    (hfree : ∀ k, FreeAt v m' k ↔ FreeAt v m k ∧ ¬ (f ≤ k ∧ k < f + v.fragmentsPerBlock))
    (hfit : v.device.Fits (f * v.fragmentSize) v.blockSize)
    (hzero : ∀ i < v.blockSize, m' (f * v.fragmentSize + i) = 0)
    (hout : ∀ i, ¬ InGroups v i → ¬ InSlot v n i →
      i < f * v.fragmentSize ∨ f * v.fragmentSize + v.blockSize ≤ i → m' i = m i) :
    Whole v n m' (x.setDirect b f) ∧
    (∀ c, addressAt v m' (x.setDirect b f) c = if c = b then some f else addressAt v m x c) ∧
    ∀ i, fileByte v m' (x.setDirect b f) i = fileByte v m x i := by
  have hpos := h.probed.fragmentsPerBlock_pos
  have hne : f ≠ 0 := by
    rintro rfl
    exact h.boot (hold 0 le_rfl (by omega))
  have haddr : ∀ c, addressAt v m' (x.setDirect b f) c
      = if c = b then some f else addressAt v m x c := fun c => by
    split_ifs with hc
    · rw [hc, addressAt_direct hb, setDirect_self, if_neg hne]
    by_cases hdir : c < DIRECT_BLOCKS
    · rw [addressAt_direct hdir, addressAt_direct hdir, setDirect_ne hc]
    have hsame : addressAt v m' (x.setDirect b f) c = addressAt v m' x c := by
      rw [addressAt, addressAt, if_neg hdir, if_neg hdir]
      rfl
    rw [hsame]
    refine addressAt_congr (fun i hi => ?_) c
    obtain ⟨hg, hs, -⟩ := h.pointers i hi
    refine hout i hg hs ?_
    by_contra hin
    exact (h.free_apart hold (i := i) (by omega) (by omega)).2.2.1 hi
  have hholds : ∀ k, Holds v m' (x.setDirect b f) k →
      (f ≤ k ∧ k < f + v.fragmentsPerBlock) ∨ Holds v m x k := by
    rintro k ⟨c, a, ha, hk⟩
    rw [haddr] at ha
    split_ifs at ha with hc
    · cases ha
      exact .inl hk
    · exact .inr ⟨c, a, ha, hk⟩
  have hmine : ∀ k, FreeAt v m' k ∨ Holds v m' (x.setDirect b f) k →
      FreeAt v m k ∨ Holds v m x k := by
    rintro k (hk | hk)
    · exact .inl ((hfree k).mp hk).1
    · exact (hholds k hk).imp_left fun hk => hold k hk.1 hk.2
  have hw : Whole v n m' (x.setDirect b f) := by
    refine ⟨h.room.mono hmine, fun hk => h.boot ((hfree 0).mp hk).1, fun k hk hfr => ?_,
      fun c e a a' hce ha ha' k hk1 hk2 => ?_, fun c a ha => ?_, fun i hi => ?_⟩
    · obtain ⟨hfr, hnot⟩ := (hfree k).mp hfr
      exact (hholds k hk).elim hnot fun hk => h.allocated k hk hfr
    · rw [haddr] at ha ha'
      have hother : ∀ {c a k}, addressAt v m x c = some a → a ≤ k →
          k < a + v.fragmentsPerBlock → f ≤ k → k < f + v.fragmentsPerBlock → False :=
        fun ha h1 h2 h3 h4 => h.allocated _ ⟨_, _, ha, h1, h2⟩ (hold _ h3 h4)
      split_ifs at ha ha' with h1 h2 h2
      · exact absurd (h1.trans h2.symm) hce
      · cases ha
        exact fun hk => hother ha' hk.1 hk.2 hk1 hk2
      · cases ha'
        exact fun hk => hother ha hk1 hk2 hk.1 hk.2
      · exact h.alone c e a a' hce ha ha' k hk1 hk2
    · rw [haddr] at ha
      split_ifs at ha with hc
      · cases ha
        exact hfit
      · exact h.fits c a ha
    · obtain ⟨hg, hs, hdata⟩ := h.pointers i hi
      exact ⟨hg, hs, fun k hk => hdata k (hmine k hk)⟩
  refine ⟨hw, haddr, fun i => ?_⟩
  have hmod := mod_lt i h.probed.sizes.blockPos
  by_cases hib : blockOf v i = b
  · rw [hw.byte_eq (by rw [haddr, if_pos hib]), hzero _ hmod, fileByte_hole]
    rw [hib, addressAt_direct hb, if_pos h0]
  cases ha : addressAt v m x (blockOf v i) with
  | none => rw [fileByte_hole ha, fileByte_hole (by rw [haddr, if_neg hib, ha])]
  | some a => ?_
  rw [h.byte_eq ha, hw.byte_eq (by rw [haddr, if_neg hib, ha])]
  obtain ⟨k, -, -, hk, hki⟩ := h.in_fragment ha
    (i := a * v.fragmentSize + i % v.blockSize) (by omega) (by omega)
  obtain ⟨hg, hs⟩ := h.room.apart k _ (.inr hk) hki
  refine hout _ hg hs ?_
  by_contra hin
  exact (h.free_apart hold (i := a * v.fragmentSize + i % v.blockSize) (by omega)
    (by omega)).2.2.2 k hk hki

lemma writeInode_stored (n : Nat) (x : Inode) (d : Disk) : (writeInode v n x).Ensures d fun r d' =>
      (∀ i, ¬ InSlot v n i → v.bytes d' i = v.bytes d i) ∧
      (r = some () → x.Typed → Stored v (v.bytes d') n x) := by
  unfold writeInode
  cases hoff : inodeOffset v n with
  | none => exact .pure ⟨fun _ _ => rfl, nofun⟩
  | some o => ?_
  dsimp only
  by_cases hfit : v.device.Fits o DINODE_SIZE
  · obtain ⟨d', hrun, hbytes⟩ := writeInode_run hoff hfit x d
    rw [writeInode, hoff] at hrun
    refine .of_run hrun ⟨fun i hi => ?_, fun _ hx => inodeAt_written hoff hfit hx hbytes⟩
    rw [hbytes]
    exact blit_out (slot_out hoff hi)
  · have hpeek : v.device.peek (v.bytes d) o DINODE_SIZE = none := if_neg hfit
    exact .andThen_none (hpeek ▸ read_run v.device o DINODE_SIZE d) ⟨fun _ _ => rfl, nofun⟩

lemma growBlock_filled (h : Whole v n (v.bytes d) x) (hb : b < DIRECT_BLOCKS)
    (h0 : x.direct b = 0) {d1 d2 d3 : Disk}
    (halloc : AllocSpec v (v.bytes d) (v.bytes d1) (some f))
    (hout1 : ∀ i, ¬ InGroups v i → v.bytes d1 i = v.bytes d i)
    (hout2 : ∀ i, i < f * v.fragmentSize ∨ f * v.fragmentSize + v.blockSize ≤ i →
      v.bytes d2 i = v.bytes d1 i)
    (hfit : v.device.Fits (f * v.fragmentSize) v.blockSize)
    (hzero : ∀ i < v.blockSize, v.bytes d2 (f * v.fragmentSize + i) = 0)
    (hout3 : ∀ i, ¬ InSlot v n i → v.bytes d3 i = v.bytes d2 i)
    (hstored : (x.setDirect b f).Typed → Stored v (v.bytes d3) n (x.setDirect b f)) :
    Filled v n (· = b) x (x.setDirect b f) (v.bytes d) (v.bytes d3) := by
  have hp := h.probed
  obtain ⟨hold, hfree⟩ := halloc
  have hgroups : ∀ i, InGroups v i → v.bytes d3 i = v.bytes d1 i := fun i hi => by
    rw [hout3 i fun hs => h.room.slot_apart i hs hi]
    refine hout2 i ?_
    by_contra hin
    exact (h.free_apart hold (i := i) (by omega) (by omega)).1 hi
  have hzero3 : ∀ i < v.blockSize, v.bytes d3 (f * v.fragmentSize + i) = 0 := fun i hi => by
    rw [hout3 _ (h.free_apart hold (by omega) (by omega)).2.1]
    exact hzero i hi
  obtain ⟨hw, haddr, hbyte⟩ := h.take hb h0 hold
    (fun k => (freeAt_congr h.room.separate hp hgroups k).trans (hfree k)) hfit hzero3
    fun i hg hs hi => by rw [hout3 i hs, hout2 i hi, hout1 i hg]
  have htyped : x.Typed → (x.setDirect b f).Typed := fun hx => hx.setDirect (by
    have hadd := h.room.address f (.inl (hold f le_rfl
      (by have := hp.fragmentsPerBlock_pos; omega)))
    have := Nat.le_mul_of_pos_right (f + 1) hp.sizes.pos
    unfold U64MAX at hadd
    omega)
  refine ⟨hw, fun c => ?_, hbyte, rfl, htyped, fun hx _ => hstored (htyped hx)⟩
  rw [haddr]
  split_ifs with hc
  · exact iff_of_true nofun (.inr hc)
  · exact (or_iff_left hc).symm

lemma growBlocks_filled (k : Nat) :
    ∀ (block : Nat) (x : Inode) (d : Disk), Whole v n (v.bytes d) x → block + k ≤ DIRECT_BLOCKS →
      (growBlocks v n k block x).Ensures d fun p d' => p.1 = some () →
        Filled v n (fun b => block ≤ b ∧ b < block + k) x p.2 (v.bytes d) (v.bytes d') := by
  induction k with
  | zero =>
    intro block x d h _
    exact .pure fun _ => ⟨h, fun b => (or_iff_left (by omega)).symm, fun _ => rfl, rfl, id,
      fun _ => id⟩
  | succ k ih => ?_
  intro block x d h hk
  unfold growBlocks
  split
  · next hne =>
    refine (ih (block + 1) x d h (by omega)).mono fun p d' hrest hr => ?_
    have hf := hrest hr
    refine { hf with address := fun b => ?_ }
    rw [hf.address]
    by_cases hb : b = block
    · subst hb
      have hmap : addressAt v (v.bytes d) x b ≠ none := by
        rw [addressAt_direct (by omega), if_neg hne]
        simp
      exact iff_of_true (.inl hmap) (.inl hmap)
    · exact or_congr_right (by omega)
  next h0 =>
  have h0 : x.direct block = 0 := not_not.mp h0
  refine (allocBlock_spec h.room.separate h.probed d).bind fun r d1 hspec => ?_
  obtain ⟨halloc, -, hout1⟩ := hspec
  cases r with
  | none => exact .pure (by simp)
  | some f => ?_
  have hend : f * v.fragmentSize + v.blockSize ≤ U64MAX :=
    h.room.block_end fun j hj => .inl (halloc.1 _ (by omega) (by omega))
  refine (zeroBlock_zeros h.probed hend d1).bind fun r2 d2 hz => ?_
  obtain ⟨hout2, hzero⟩ := hz
  cases r2 with
  | none =>
    dsimp only
    split
    · have hpos := h.probed.fragmentsPerBlock_pos
      have hf := halloc.1 f le_rfl (by omega)
      exact (freeBlock_any h.room.separate h.probed (h.room.number f (.inl hf))
        d2).bind fun _ _ _ => .pure (by simp)
    · exact .pure (by simp)
  | some _ => ?_
  obtain ⟨hfit, hzero⟩ := hzero rfl
  refine (writeInode_stored n _ d2).bind fun r3 d3 hw => ?_
  obtain ⟨hout3, hstored⟩ := hw
  cases r3 with
  | none => exact .pure (by simp)
  | some _ => ?_
  have hf := growBlock_filled h (by omega) h0 halloc hout1 hout2 hfit hzero hout3 (hstored rfl)
  refine (ih (block + 1) _ d3 hf.whole (by omega)).mono fun p d' hrest hr => ?_
  have hf' := hrest hr
  refine ⟨hf'.whole, fun b => ?_, fun i => (hf'.byte i).trans (hf.byte i),
    hf'.size.trans hf.size, fun hx => hf'.typed (hf.typed hx),
    fun hx hs => hf'.stored (hf.typed hx) (hf.stored hx hs)⟩
  rw [hf'.address, hf.address, or_assoc]
  exact or_congr_right (by omega)

/-! ## Reading -/

lemma div_mod_inside {bs count : Nat} (hbs : 0 < bs) (hin : offset % bs + count ≤ bs)
    (hi : i < count) : (offset + i) / bs = offset / bs ∧ (offset + i) % bs = offset % bs + i := by
  have hdm := div_add_mod' offset bs
  have hdiv : (offset + i) / bs = offset / bs := by
    rw [Nat.div_eq_iff hbs]
    omega
  have hdm' := div_add_mod' (offset + i) bs
  rw [hdiv] at hdm'
  exact ⟨hdiv, by omega⟩

lemma readBlocks_bytes (h : Whole v n (v.bytes d) x) (fuel : Nat) :
    ∀ (offset length : Nat) (out : Mem) (pos : Nat), length ≤ fuel →
      ∃ r, (readBlocks v x fuel offset length out pos).run d = .ok (r, d) ∧
        (r ≠ none ↔ ∀ i, offset ≤ i → i < offset + length → Mapped v (v.bytes d) x i) ∧
        ∀ out', r = some out' → (∀ j < pos, out' j = out j) ∧
          ∀ j < length, out' (pos + j) = fileByte v (v.bytes d) x (offset + j) := by
  have hbs := h.probed.sizes.blockPos
  have hdone : ∀ (offset : Nat) (out : Mem) (pos : Nat), (some out ≠ none ↔
      ∀ i, offset ≤ i → i < offset + 0 → Mapped v (v.bytes d) x i) ∧
      ∀ out', some out = some out' → (∀ j < pos, out' j = out j) ∧
        ∀ j < 0, out' (pos + j) = fileByte v (v.bytes d) x (offset + j) := by
    refine fun offset out pos => ⟨iff_of_true (by simp) fun i h1 h2 => by omega, ?_⟩
    rintro out' ⟨⟩
    exact ⟨fun _ _ => rfl, fun j hj => by omega⟩
  induction fuel with
  | zero =>
    intro offset length out pos hfuel
    obtain rfl : length = 0 := by omega
    exact ⟨some out, rfl, hdone offset out pos⟩
  | succ fuel ih => ?_
  intro offset length out pos hfuel
  rw [readBlocks]
  split
  · next h0 =>
    subst h0
    exact ⟨some out, rfl, hdone offset out pos⟩
  next h0 =>
  have hin := mod_lt offset hbs
  dsimp only
  generalize hcount : min (v.blockSize - offset % v.blockSize) length = count
  have hblock : ∀ i < count, blockOf v (offset + i) = blockOf v offset := fun i hi => by
    unfold blockOf
    rw [(div_mod_inside hbs (by omega) hi).1]
  cases ha : addressAt v (v.bytes d) x (blockOf v offset) with
  | none =>
    have hat : byteAt v (v.bytes d) x offset = none := by
      rw [byteAt, show offset / v.blockSize % 2 ^ 32 = blockOf v offset from rfl, ha]
      rfl
    refine ⟨none, Prog.run_andThen_none (hat ▸ byteAddress_run v x offset d),
      iff_of_false (fun hne => hne rfl) fun hall => ?_, (by simp)⟩
    exact hall offset le_rfl (by omega) ha
  | some a => ?_
  have hpeek : v.device.peek (v.bytes d) (a * v.fragmentSize + offset % v.blockSize) count
      = some (window (v.bytes d) (a * v.fragmentSize + offset % v.blockSize) count) :=
    if_pos ((h.fits _ _ ha).mono (Nat.le_add_right ..) (by omega))
  rw [run_andThen_some (h.byteAt_eq ha ▸ byteAddress_run v x offset d),
    Prog.run_andThen_some (hpeek ▸ read_run v.device _ count d)]
  obtain ⟨r, hrun, hmap, hbytes⟩ := ih (offset + count) (length - count)
    (blit out pos (window (v.bytes d) (a * v.fragmentSize + offset % v.blockSize) count)
      count) (pos + count) (by omega)
  refine ⟨r, hrun, hmap.trans ⟨fun hall i h1 h2 => ?_, fun hall i h1 h2 =>
    hall i (by omega) (by omega)⟩, fun out' hr => ?_⟩
  · by_cases hi : i < offset + count
    · obtain ⟨j, rfl⟩ := Nat.exists_eq_add_of_le h1
      unfold Mapped
      rw [hblock j (by omega), ha]
      simp
    · exact hall i (by omega) (by omega)
  obtain ⟨hlow, hhigh⟩ := hbytes out' hr
  refine ⟨fun j hj => (hlow j (by omega)).trans (blit_out (by omega)), fun j hj => ?_⟩
  by_cases hjc : j < count
  · rw [hlow _ (by omega), blit_in (by omega) (by omega),
      h.byte_eq ((congrArg _ (hblock j hjc)).trans ha),
      (div_mod_inside hbs (by omega) hjc).2, window_apply (by omega)]
    exact congrArg _ (by omega)
  · have := hhigh (j - count) (by omega)
    rwa [show pos + count + (j - count) = pos + j by omega,
      show offset + count + (j - count) = offset + j by omega] at this

variable {length : Nat}

/-- `ufs2_read` of a range inside the file returns its bytes, and fails
when the range meets a hole. -/
lemma read_bytes (h : Whole v n (v.bytes d) x)
    (hsize : offset + length ≤ x.size) : ∃ r, (read v x offset length).run d = .ok (r, d) ∧
      (r ≠ none ↔ ∀ i, offset ≤ i → i < offset + length → Mapped v (v.bytes d) x i) ∧
      ∀ out, r = some out → ∀ j < length, out j = fileByte v (v.bytes d) x (offset + j) := by
  obtain ⟨r, hrun, hmap, hbytes⟩ := readBlocks_bytes h length offset length (fun _ => 0) 0
    le_rfl
  refine ⟨r, ?_, hmap, fun out hr j hj => ?_⟩
  · rw [read, if_neg (by omega)]
    exact hrun
  have := (hbytes out hr).2 j hj
  rwa [zero_add] at this

/-! ## `ufs2_write_growing` -/

lemma Whole.resize (h : Whole v n m x) (size : Nat) : Whole v n m { x with size := size } :=
  { h with }

lemma Whole.rewrite (h : Whole v n m x) (hm : ∀ i, ¬ InSlot v n i → m' i = m i) :
    Whole v n m' x ∧ (∀ b, addressAt v m' x b = addressAt v m x b) ∧
      ∀ i, fileByte v m' x i = fileByte v m x i := by
  obtain ⟨hw, haddr⟩ := h.quiet fun i hi _ => hm i hi
  refine ⟨hw, haddr, fun i => ?_⟩
  have hmod := mod_lt i h.probed.sizes.blockPos
  cases ha : addressAt v m x (blockOf v i) with
  | none => rw [fileByte_hole ha, fileByte_hole ((haddr _).trans ha)]
  | some a => ?_
  rw [h.byte_eq ha, hw.byte_eq ((haddr _).trans ha)]
  obtain ⟨k, -, -, hk, hki⟩ := h.in_fragment ha
    (i := a * v.fragmentSize + i % v.blockSize) (by omega) (by omega)
  exact hm _ (h.room.apart k _ (.inr hk) hki).2

lemma Puts.stored {value : Nat → UInt8} {lo hi : Nat} (h : Puts v n x value lo hi m m')
    (hs : Stored v m n y) : Stored v m' n y := by
  obtain ⟨z, hz, hsame⟩ := hs
  refine ⟨z, ?_, hsame⟩
  cases hoff : inodeOffset v n with
  | none =>
    rw [inodeAt, hoff] at hz
    cases hz
  | some o => ?_
  rw [← hz]
  exact inodeAt_congr hoff fun i hlo hhi => (h.slot i ⟨o, hoff, hlo, hhi⟩).symm

variable (v n) in
/-- What a write of `length` bytes of `src` at `offset` makes of file `x`. -/
structure Wrote (offset : Nat) (src : Mem) (length : Nat) (x y : Inode) (m m' : Mem) : Prop where
  whole : Whole v n m' y
  size : y.size = max x.size (offset + length)
  source : ∀ i, i < length → fileByte v m' y (offset + i) = src i
  gap : ∀ i, x.size ≤ i → i < offset → fileByte v m' y i = 0
  other : ∀ i, i < x.size → i / v.blockSize < 2 ^ 32 → i < offset ∨ offset + length ≤ i →
    fileByte v m' y i = fileByte v m x i
  mapped : ∀ i, Mapped v m' y i ↔
    Mapped v m x i ∨ blockOf v i < (offset + length + v.blockSize - 1) / v.blockSize
  stored : x.Typed → Stored v m n x → Stored v m' n y

lemma Filled.wrote {m'' : Mem}
    (hend : offset + length ≤ DIRECT_BLOCKS * v.blockSize) (hsize : offset + length ≤ x.size)
    (hf : Filled v n (fun b => 0 ≤ b ∧ b < 0 + (offset + length + v.blockSize - 1) / v.blockSize)
      x y m m')
    (hp : Puts v n y (fun i => src (i - offset)) offset (offset + length) m' m'') :
    Wrote v n offset src length x y m m'' := by
  have hbs := hf.whole.probed.sizes.blockPos
  refine ⟨hp.whole, by rw [hf.size]; omega, fun i hi => ?_, by omega, fun i _ hi hout => ?_,
    fun i => ?_, fun hx hs => hp.stored (hf.stored hx hs)⟩
  · have hlt : (offset + i) / v.blockSize < DIRECT_BLOCKS :=
      (Nat.div_lt_iff_lt_mul hbs).mpr (by omega)
    rw [hp.byte _ (by unfold DIRECT_BLOCKS at hlt; omega), if_pos (by omega),
      Nat.add_sub_cancel_left]
  · rw [hp.byte i hi, if_neg (by omega), hf.byte]
  · unfold Mapped
    rw [hp.address, hf.address]
    exact or_congr_right (by omega)

/-- Blocks are taken, the new size is stored, the gap is cleared and the
source is copied. -/
lemma Filled.grew {m1 m2 m3 m4 : Mem}
    (hend : offset + length ≤ DIRECT_BLOCKS * v.blockSize) (hsize : x.size < offset + length)
    (hf : Filled v n (fun b => 0 ≤ b ∧ b < 0 + (offset + length + v.blockSize - 1) / v.blockSize)
      x y m m1)
    (hm : ∀ i, ¬ InSlot v n i → m2 i = m1 i)
    (hstored : { y with size := offset + length }.Typed →
      Stored v m2 n { y with size := offset + length })
    (hz : Puts v n { y with size := offset + length } (fun _ => 0) x.size (max x.size offset) m2 m3)
    (hp : Puts v n { y with size := offset + length } (fun i => src (i - offset)) offset
      (offset + length) m3 m4) :
    Wrote v n offset src length x { y with size := offset + length } m m4 := by
  have hbs := hf.whole.probed.sizes.blockPos
  have hshort : ∀ i < offset + length, i / v.blockSize < 2 ^ 32 := fun i hi => by
    have hlt : i / v.blockSize < DIRECT_BLOCKS := (Nat.div_lt_iff_lt_mul hbs).mpr (by omega)
    unfold DIRECT_BLOCKS at hlt
    omega
  obtain ⟨-, haddr, hbyte⟩ := hf.whole.rewrite hm
  refine ⟨hp.whole, by dsimp only; omega, fun i hi => ?_, fun i hlo hhi => ?_,
    fun i hi hlt hout => ?_, fun i => ?_, fun hx _ => hp.stored (hz.stored (hstored ?_))⟩
  · rw [hp.byte _ (hshort _ (by omega)), if_pos (by omega), Nat.add_sub_cancel_left]
  · rw [hp.byte i (hshort i (by omega)), if_neg (by omega), hz.byte i (hshort i (by omega)),
      if_pos (by omega)]
  · rw [hp.byte i hlt, if_neg (by omega), hz.byte i hlt, if_neg (by omega)]
    exact (hbyte i).trans (hf.byte i)
  · unfold Mapped
    rw [hp.address, hz.address]
    refine (Iff.of_eq (congrArg (· ≠ none) (haddr _))).trans ((hf.address _).trans ?_)
    exact or_congr_right (by omega)
  refine (hf.typed hx).resize ?_
  have := hf.whole.probed.sizes.blockMax
  unfold DIRECT_BLOCKS at hend
  omega

lemma writeGrowing_wrote (h : Whole v n (v.bytes d) x) (offset : Nat) (src : Mem)
    (length : Nat) : (writeGrowing v n x offset src length).Ensures d fun p d' =>
      p.1 = some () → Wrote v n offset src length x p.2 (v.bytes d) (v.bytes d') := by
  have hbs := h.probed.sizes.blockPos
  unfold writeGrowing
  split
  · exact .pure nofun
  split
  · exact .pure nofun
  next hlen =>
  have hend : offset + length ≤ DIRECT_BLOCKS * v.blockSize := by omega
  have hblocks : (offset + length + v.blockSize - 1) / v.blockSize ≤ DIRECT_BLOCKS := by
    rw [← Nat.lt_succ_iff, Nat.div_lt_iff_lt_mul hbs, succ_mul]
    omega
  refine (growBlocks_filled _ 0 x d h (by omega)).bind fun p d1 hf => ?_
  obtain ⟨r, y⟩ := p
  cases r with
  | none => exact .pure nofun
  | some _ => ?_
  have hf := hf rfl
  have hsrc : ∀ i < length, src i = src (offset + i - offset) :=
    fun i _ => by rw [Nat.add_sub_cancel_left]
  dsimp only at hf ⊢
  split
  · next hle =>
    refine (writeBlocks_puts (fun i => src (i - offset)) _ _ _ _ d1 hf.whole hend
      le_rfl hsrc).bind fun r d2 hp => .pure fun hr => ?_
    exact hf.wrote hend hle (hp hr)
  next hgt =>
  refine Prog.Ensures.bind (P := fun r d4 => r = some () →
    Wrote v n offset src length x { y with size := offset + length } (v.bytes d)
      (v.bytes d4)) ?_ fun _ _ hw => .pure hw
  refine Prog.Ensures.andThen (writeInode_stored n _ d1) nofun fun _ d2 ⟨hm, hstored⟩ => ?_
  have hw2 := ((hf.whole.resize (offset + length)).rewrite hm).1
  refine Prog.Ensures.andThen (zeroGap_puts (by omega) _ _ d2 hw2 (by omega)) nofun
    fun _ d3 hz => ?_
  refine (writeBlocks_puts (fun i => src (i - offset)) _ _ _ _ d3 (hz rfl).whole hend
    le_rfl hsrc).mono fun r d4 hp hr => ?_
  exact hf.grew hend (by omega) hm (hstored rfl) (hz rfl) (hp hr)

/-- A successful write to a file of fewer than `2 ^ 32` blocks. Reading a
range of the file it leaves succeeds exactly when the range meets no hole
of the old file above the blocks the write reaches. -/
theorem write_growing_semantics (h : Whole v n (v.bytes d) x)
    (hx : x.size ≤ 2 ^ 32 * v.blockSize) (offset : Nat) (src : Mem) (length : Nat) :
    (writeGrowing v n x offset src length).Ensures d fun p d' => p.1 = some () →
      p.2.size = max x.size (offset + length) ∧
      (∀ i, i < length → fileByte v (v.bytes d') p.2 (offset + i) = src i) ∧
      (∀ i, x.size ≤ i → i < offset → fileByte v (v.bytes d') p.2 i = 0) ∧
      (∀ i, i < x.size → i < offset ∨ offset + length ≤ i →
        fileByte v (v.bytes d') p.2 i = fileByte v (v.bytes d) x i) ∧
      (∀ o l, o + l ≤ p.2.size → (read v p.2 o l).Ensures d' fun r _ =>
        (r ≠ none ↔ ∀ i, o ≤ i → i < o + l →
          i / v.blockSize < (offset + length + v.blockSize - 1) / v.blockSize ∨
            Mapped v (v.bytes d) x i) ∧
        ∀ out, r = some out → ∀ j, j < l → out j = fileByte v (v.bytes d') p.2 (o + j)) ∧
      (x.Typed → Stored v (v.bytes d) n x → Stored v (v.bytes d') n p.2) := by
  have hbs := h.probed.sizes.blockPos
  have hshort : ∀ {i}, i < x.size → i / v.blockSize < 2 ^ 32 := fun hi =>
    (Nat.div_lt_iff_lt_mul hbs).mpr (by omega)
  refine (writeGrowing_wrote h offset src length).mono fun p d' hwrote hr => ?_
  have hw := hwrote hr
  refine ⟨hw.size, hw.source, hw.gap, fun i hi hout => hw.other i hi (hshort hi) hout,
    fun o l hol => ?_, hw.stored⟩
  obtain ⟨r, hrun, hmap, hbytes⟩ := read_bytes hw.whole hol
  refine .of_run hrun ⟨hmap.trans (forall_congr' fun i => forall_congr' fun _ =>
    forall_congr' fun hi => ?_), hbytes⟩
  rw [hw.mapped, or_comm]
  refine or_congr_left ?_
  by_cases hix : i < x.size
  · rw [blockOf_eq (hshort hix)]
  -- past the old end the file has just grown
  have hlt : i < offset + length := by
    have := hw.size
    omega
  have hdiv : i / v.blockSize < (offset + length + v.blockSize - 1) / v.blockSize := by
    rw [lt_iff_add_one_le, Nat.le_div_iff_mul_le hbs, succ_mul]
    have := div_mul_le_self i v.blockSize
    omega
  exact iff_of_true (lt_of_le_of_lt (mod_le ..) hdiv) hdiv

lemma oneBlock_address {size : Nat} {m : Mem}
    (h : addressAt (pairVolume 16) m (oneBlock size 0) b = some a) : b = 0 ∧ a = 8 := by
  by_cases hb : b < DIRECT_BLOCKS
  · rw [addressAt_direct hb] at h
    split at h
    · cases h
    next hne =>
    obtain rfl := oneBlock_direct hne
    cases h
    exact ⟨rfl, rfl⟩
  · rw [addressAt_indirect rfl (by omega)] at h
    cases h

lemma oneBlock_whole (size : Nat) : Whole (pairVolume 16) 3 fullBytes (oneBlock size 0) where
  room := (oneBlock_shared size 0 (fun _ => False) nofun).room.mono fun k hk =>
    hk.imp_right fun ⟨b, a, ha, hlo, hhi⟩ => by
      obtain ⟨rfl, rfl⟩ := oneBlock_address ha
      exact ⟨0, by decide, show (8 : Nat) ≠ 0 by decide, hlo, hhi⟩
  boot := fullDisk_allocated 0
  allocated k _ := fullDisk_allocated k
  alone b c a e hne ha he := absurd ((oneBlock_address ha).1.trans (oneBlock_address he).1.symm) hne
  fits b a ha := by
    obtain ⟨-, rfl⟩ := oneBlock_address ha
    exact fits_image (by decide) (by decide)
  pointers i hi := absurd rfl hi.1

/-- Writing one byte at offset 200 of a file of 100 bytes. -/
theorem write_growing_gap :
    Whole (pairVolume 16) 3 ((pairVolume 16).bytes fullDisk) (oneBlock 100 0) ∧
    (writeGrowing (pairVolume 16) 3 (oneBlock 100 0) 200 (fun _ => 7) 1).Ensures fullDisk
      fun p d' => p.1 = some () ∧ p.2.size = 201 ∧
        fileByte (pairVolume 16) ((pairVolume 16).bytes d') p.2 150 = 0 ∧
        fileByte (pairVolume 16) ((pairVolume 16).bytes d') p.2 200 = 7 := by
  have hw := oneBlock_whole 100
  obtain ⟨p, d', hrun, hspec⟩ := write_growing_semantics hw (by decide) 200 (fun _ => 7) 1
  have hdone : ((writeGrowing (pairVolume 16) 3 (oneBlock 100 0) 200 (fun _ => 7) 1).run
      fullDisk).map (fun q => q.1.1) = .ok (some ()) := by decide +kernel
  rw [hrun] at hdone
  have hr : p.1 = some () := Except.ok.inj hdone
  obtain ⟨hsize, hsource, hgap, -⟩ := hspec hr
  exact ⟨hw, p, d', hrun, hr, hsize, hgap 150 (by decide) (by decide), hsource 0 (by decide)⟩

lemma oneBlock_overwrite {size : Nat}
    (hdone : ((writeGrowing (pairVolume 16) 3 (oneBlock size 0) 0 (fun _ => 7) 1).run
      fullDisk).map (fun q => q.1.1) = .ok (some ())) :
    ∃ y d', (writeGrowing (pairVolume 16) 3 (oneBlock size 0) 0 (fun _ => 7) 1).run fullDisk
        = .ok ((some (), y), d') ∧
      Wrote (pairVolume 16) 3 0 (fun _ => 7) 1 (oneBlock size 0) y
        fullBytes ((pairVolume 16).bytes d') := by
  obtain ⟨⟨r, y⟩, d', hrun, hspec⟩ := writeGrowing_wrote (oneBlock_whole size) 0 (fun _ => 7) 1
  rw [hrun] at hdone
  obtain rfl : r = some () := Except.ok.inj hdone
  exact ⟨y, d', hrun, hspec rfl⟩

/-- Two files with one block. The write leaves the hole that is the second
block of the first, and byte `2 ^ 44` of the second is its byte 0. -/
theorem write_keeps_hole :
    Whole (pairVolume 16) 3 ((pairVolume 16).bytes fullDisk) (oneBlock 8192 0) ∧
    Whole (pairVolume 16) 3 ((pairVolume 16).bytes fullDisk) (oneBlock (2 ^ 45) 0) ∧
    (∃ y d', (writeGrowing (pairVolume 16) 3 (oneBlock 8192 0) 0 (fun _ => 7) 1).run fullDisk
        = .ok ((some (), y), d') ∧ y.size = 8192 ∧
      (read (pairVolume 16) y 4096 1).run d' = .ok (none, d')) ∧
    ∃ y d', (writeGrowing (pairVolume 16) 3 (oneBlock (2 ^ 45) 0) 0 (fun _ => 7) 1).run fullDisk
        = .ok ((some (), y), d') ∧
      fileByte (pairVolume 16) ((pairVolume 16).bytes fullDisk) (oneBlock (2 ^ 45) 0) (2 ^ 44) = 0 ∧
      fileByte (pairVolume 16) ((pairVolume 16).bytes d') y (2 ^ 44) = 7 := by
  refine ⟨oneBlock_whole _, oneBlock_whole _, ?_, ?_⟩
  · obtain ⟨y, d', hrun, hw⟩ := @oneBlock_overwrite 8192 (by decide +kernel)
    have hsize : y.size = 8192 := hw.size
    obtain ⟨r, hread, hmap, -⟩ := read_bytes hw.whole (show 4096 + 1 ≤ y.size by omega)
    refine ⟨y, d', hrun, hsize, ?_⟩
    have hhole : ¬ Mapped (pairVolume 16) ((pairVolume 16).bytes d') y 4096 := by
      rw [hw.mapped]
      decide +kernel
    have hnone : r = none := by
      by_contra hne
      exact hhole (hmap.mp hne 4096 (by decide) (by decide))
    rw [hread, hnone]
  · obtain ⟨y, d', hrun, hw⟩ := @oneBlock_overwrite (2 ^ 45) (by decide +kernel)
    have hzero : fileByte (pairVolume 16) ((pairVolume 16).bytes fullDisk) (oneBlock (2 ^ 45) 0)
        (2 ^ 44) = 0 := by decide +kernel
    have hsame : fileByte (pairVolume 16) ((pairVolume 16).bytes d') y (2 ^ 44)
        = fileByte (pairVolume 16) ((pairVolume 16).bytes d') y 0 := by
      unfold fileByte byteAt
      rfl
    exact ⟨y, d', hrun, hzero, hsame.trans (hw.source 0 (by decide))⟩

end Proninx.Ufs2
