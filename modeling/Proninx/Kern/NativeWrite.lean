import Proninx.Kern.NativeRefs

/-!
# Writing native files

`writei` writes through `bmap`, block by block. The books stay balanced,
every block below the new end is there, the bytes written are the bytes
given, and all other bytes of all files stay as they are. An inode that
does not grow keeps its addresses, so the copy in memory that `writei`
does not write back is the one on the disk.
-/

namespace Proninx.Native

open ByteMem Disk Function Ledger Nat

variable {sb : Superblock} {start : Nat} {d d' : Disk} {x x' : Dinode} {A : Nat → Nat → Nat}
  {W W' : Ref → Prop} {inum len : Nat}

/-! ## Contents -/

/-- All blocks below `len` are there. -/
def Covered (d : Disk) (x : Dinode) (len : Nat) : Prop :=
  ∀ bn, bn * BSIZE < len → addrAt d x bn ≠ 0

def byteAt (d : Disk) (x : Dinode) (i : Nat) : UInt8 := d (addrAt d x (i / BSIZE)) (i % BSIZE)

variable {bn : Nat}

lemma lt_maxfile (h : addrAt d x bn ≠ 0) : bn < MAXFILE := by
  by_contra hge
  exact h (addrAt_beyond (not_lt.mp hge))

lemma Grown.mono (h : Grown sb W d x d' x') (hW : ∀ r, W r → W' r) : Grown sb W' d x d' x' :=
  { h with frame := fun k hk hu hoff hnot =>
      h.frame k hk hu hoff fun ⟨r, hr, hWr, hrest⟩ => hnot ⟨r, hr, hW r hWr, hrest⟩ }

lemma Grown.addrAt (h : Grown sb W d x d' x') (h0 : addrAt d x bn ≠ 0) :
    addrAt d' x' bn = addrAt d x bn := by
  have hbn := lt_maxfile h0
  rw [addrAt_eq _ _ hbn] at h0 ⊢
  rw [addrAt_eq _ _ hbn]
  exact h.keeps _ (refOf_valid hbn) h0

lemma Grown.covered (h : Grown sb W d x d' x') (hc : Covered d x len) : Covered d' x' len := by
  intro bn hbn
  rw [h.addrAt (hc bn hbn)]
  exact hc bn hbn

lemma holds_addrAt (hn : inum < sb.ninodes) (h0 : addrAt d x bn ≠ 0) :
    Holds sb d (update A inum x.addrs) (inum, refOf bn) (addrAt d x bn) where
  inode := hn
  valid := refOf_valid (lt_maxfile h0)
  refers := by rw [update_self, addrAt_eq _ _ (lt_maxfile h0)]
  block := h0

lemma Sound.not_pointer (h : Sound sb start d (update A inum x.addrs))
    (hn : inum < sb.ninodes) (h0 : addrAt d x bn ≠ 0) {p : Nat × Ref}
    (hp : p.2.Pointer) : ¬ Holds sb d (update A inum x.addrs) p (addrAt d x bn) := by
  intro hc
  have := h.once _ _ _ hc (holds_addrAt hn h0)
  subst this
  exact refOf_data bn hp

variable {i : Nat}

lemma Sound.byteAt_grown (hlay : Layout sb start)
    (h : Sound sb start d (update A inum x.addrs)) (hn : inum < sb.ninodes)
    (hg : Grown sb Ref.Pointer d x d' x') (h0 : addrAt d x (i / BSIZE) ≠ 0) :
    byteAt d' x' i = byteAt d x i := by
  have hheld := holds_addrAt (A := A) hn h0
  unfold byteAt
  rw [hg.addrAt h0, hg.frame _ (h.lt_size hheld) (h.mark hheld) (hlay.offBitmap (h.start_le hheld))]
  rintro ⟨r, hr, hp, hat, -⟩
  exact h.not_pointer hn h0 (p := (inum, r)) hp ⟨hn, hr, by rw [update_self]; exact hat, h0⟩

lemma Sound.writeData (hlay : Layout sb start)
    (h : Sound sb start d (update A inum x.addrs)) (hn : inum < sb.ninodes)
    (h0 : addrAt d x bn ≠ 0) (data : Block) :
    Sound sb start (d.set (addrAt d x bn) data) (update A inum x.addrs) ∧
      Grown sb (fun _ => True) d x (d.set (addrAt d x bn) data) x := by
  have hheld := holds_addrAt (A := A) hn h0
  have hoff := hlay.offBitmap (h.start_le hheld)
  have hat : ∀ r, r.Valid → refAt (d.set (addrAt d x bn) data) x.addrs r = refAt d x.addrs r :=
    fun r hr => refAt_congr (fun _ _ => rfl) (fun q hq hp hne => Disk.set_ne fun hc =>
      h.not_pointer hn h0 (p := (inum, q)) hp ⟨hn, hq, by rw [update_self]; exact hc, h0⟩) _ hr
  refine ⟨h.set hoff fun p hp => h.not_pointer hn h0 hp, rfl, fun _ _ => rfl,
    fun r hr _ => hat r hr, fun r hr he hne => absurd ((hat r hr).trans he) hne,
    fun b hb hu => by rwa [used_set hoff hb], fun k _ _ _ hk => Disk.set_ne ?_⟩
  rintro rfl
  refine hk ⟨refOf bn, hheld.valid, trivial, ?_, h0⟩
  rw [addrAt_eq _ _ (lt_maxfile h0)]

lemma Sound.addrAt_inj (h : Sound sb start d (update A inum x.addrs))
    (hn : inum < sb.ninodes) {bn' : Nat} (h0 : addrAt d x bn ≠ 0)
    (heq : addrAt d x bn' = addrAt d x bn) : bn' = bn := by
  have := h.once _ _ _ (heq ▸ holds_addrAt (A := A) hn (heq ▸ h0)) (holds_addrAt hn h0)
  exact refOf_inj (congrArg Prod.snd this)

/-! ## The loop -/

/-- The bytes `[off, off + len)` of the file were written. -/
structure Wrote (sb : Superblock) (start : Nat) (A : Nat → Nat → Nat) (inum : Nat) (src : Mem)
    (off len : Nat) (d : Disk) (x : Dinode) (d' : Disk) (x' : Dinode) : Prop where
  sound : Sound sb start d' (update A inum x'.addrs)
  grown : Grown sb (fun _ => True) d x d' x'
  covered : Covered d' x' (off + len)
  same : Covered d x (off + len) → x' = x
  written : ∀ i, i < len → byteAt d' x' (off + i) = src i
  rest : ∀ i, addrAt d x (i / BSIZE) ≠ 0 → i < off ∨ off + len ≤ i → byteAt d' x' i = byteAt d x i

lemma Covered.at (h : Covered d x len) (hi : i < len) : addrAt d x (i / BSIZE) ≠ 0 :=
  h _ (lt_of_le_of_lt (div_mul_le_self i BSIZE) hi)

lemma Covered.mono {len' : Nat} (h : Covered d x len) (hle : len' ≤ len) : Covered d x len' :=
  fun bn hbn => h bn (lt_of_lt_of_le hbn hle)

variable {src : Mem} {off m : Nat}

lemma Wrote.append {k : Nat} {d1 : Disk} {x1 : Dinode}
    (h : Wrote sb start A inum src off m d x d1 x1)
    (h' : Wrote sb start A inum (shift src m) (off + m) k d1 x1 d' x') :
    Wrote sb start A inum src off (m + k) d x d' x' where
  sound := h'.sound
  grown := h.grown.trans h'.grown
  covered := by
    have := h'.covered
    rwa [add_assoc] at this
  same hc := by
    rw [← add_assoc] at hc
    exact (h'.same (h.grown.covered hc)).trans (h.same (hc.mono (Nat.le_add_right ..)))
  written i hi := by
    by_cases hm : i < m
    · rw [h'.rest _ (h.covered.at (by omega)) (.inl (by omega)), h.written i hm]
    have := h'.written (i - m) (by omega)
    rw [shift_apply, show m + (i - m) = i by omega, show off + m + (i - m) = off + i by omega]
      at this
    exact this
  rest i h0 hi := by rw [h'.rest i (by rwa [h.grown.addrAt h0]) (by omega), h.rest i h0 (by omega)]

lemma writeBlock_wrote (hlay : Layout sb start)
    (h : Sound sb start d (update A inum x.addrs)) (hn : inum < sb.ninodes)
    (src : Mem) (hpos : 0 < m) (hm : m ≤ BSIZE - off % BSIZE)
    (hlt : off < MAXFILE * BSIZE) (hc : Covered d x off) :
    (bmap sb x (off / BSIZE)).Yields (· = .ballocOutOfBlocks) d fun p d1 =>
      Wrote sb start A inum src off m d x (d1.set p.1 (blit (d1 p.1) (off % BSIZE) src m)) p.2 := by
  have hbn : off / BSIZE < MAXFILE := (div_lt_iff_lt_mul (by decide)).mpr hlt
  have hsame : (bmap sb x (off / BSIZE)).Yields (· = .ballocOutOfBlocks) d fun p _ =>
      addrAt d x (off / BSIZE) ≠ 0 → p.2 = x := by
    by_cases h0 : addrAt d x (off / BSIZE) = 0
    · exact (bmap_grown hlay hn hbn h).mono fun _ _ _ hne => absurd h0 hne
    · exact (bmap_same h0).mono fun _ _ heq _ => heq
  refine ((bmap_grown hlay hn hbn h).and hsame).mono ?_
  rintro ⟨a, x1⟩ d1 ⟨⟨hs1, hg1, hat, ha⟩, hx1⟩
  obtain rfl : a = addrAt d1 x1 (off / BSIZE) := hat
  obtain ⟨hs2, hg2⟩ := hs1.writeData hlay hn ha
    (blit (d1 (addrAt d1 x1 (off / BSIZE))) (off % BSIZE) src m)
  have hg := (hg1.mono fun _ _ => trivial).trans hg2
  have hkeep : ∀ {bn}, addrAt d1 x1 bn ≠ 0 → addrAt _ x1 bn = addrAt d1 x1 bn := fun h0 => hg2.addrAt h0
  -- a byte of the block that was written, and of any other block
  have hin : ∀ i, i / BSIZE = off / BSIZE → byteAt _ x1 i
      = blit (d1 (addrAt d1 x1 (off / BSIZE))) (off % BSIZE) src m (i % BSIZE) := fun i hi => by
    unfold byteAt
    rw [hi, hkeep ha, set_same]
  refine ⟨hs2, hg, fun bn hlt => ?_, fun hcov => hx1 (hcov.at (by omega)), fun i hi => ?_,
    fun i h0 hi => ?_⟩
  · by_cases hb : bn * BSIZE < off
    · exact hg.covered hc bn hb
    have : bn = off / BSIZE := by
      unfold BSIZE at *
      omega
    rw [this, hkeep ha]
    exact ha
  · have hblock : (off + i) / BSIZE = off / BSIZE := by
      unfold BSIZE at *
      omega
    have hmod : (off + i) % BSIZE = off % BSIZE + i := by
      unfold BSIZE at *
      omega
    rw [hin _ hblock, hmod, blit_in (by omega) (by omega), Nat.add_sub_cancel_left]
  have h1 : addrAt d1 x1 (i / BSIZE) ≠ 0 := by rwa [hg1.addrAt h0]
  rw [← h.byteAt_grown hlay hn hg1 h0]
  by_cases hblock : i / BSIZE = off / BSIZE
  · rw [hin i hblock, blit_out (by unfold BSIZE at *; omega)]
    unfold byteAt
    rw [hblock]
  · unfold byteAt
    rw [hkeep h1, set_ne fun heq => hblock (hs1.addrAt_inj hn ha heq)]

lemma Wrote.refl (h : Sound sb start d (update A inum x.addrs))
    (hc : Covered d x off) (src : Mem) : Wrote sb start A inum src off 0 d x d x :=
  ⟨h, .refl .., hc, fun _ => rfl, fun _ hi => absurd hi (not_lt_zero _), fun _ _ _ => rfl⟩

variable {n : Nat}

lemma writeBlocks_wrote (hlay : Layout sb start) (hn : inum < sb.ninodes)
    (fuel : Nat) : ∀ {off tot : Nat} {x : Dinode} {d : Disk}, n - tot ≤ fuel →
      off + (n - tot) ≤ MAXFILE * BSIZE → Sound sb start d (update A inum x.addrs) →
      Covered d x off →
      (writeBlocks sb fuel off n src tot x).Yields (· = .ballocOutOfBlocks) d fun x' d' =>
        Wrote sb start A inum (shift src tot) off (n - tot) d x d' x' := by
  induction fuel with
  | zero =>
    intro off tot x d hfuel _ h hc
    rw [Nat.le_zero.mp hfuel]
    exact .of_run rfl (.refl h hc _)
  | succ fuel ih => ?_
  intro off tot x d hfuel hmax h hc
  unfold writeBlocks
  split
  · next htot =>
    have hmod : off % BSIZE < BSIZE := mod_lt _ (by decide)
    obtain ⟨m, hm⟩ : ∃ m, m = min (n - tot) (BSIZE - off % BSIZE) := ⟨_, rfl⟩
    refine (writeBlock_wrote hlay h hn (shift src tot) (m := m) (by omega) (by omega) (by omega)
      hc).bind fun p d1 hw => ?_
    have hrest := @ih (off + m) (tot + m) p.2 _ (by omega) (by omega) hw.sound hw.covered
    rw [← shift_shift] at hrest
    dsimp only
    rw [← hm]
    refine hrest.mono fun x' d' hw' => ?_
    have := hw.append hw'
    rwa [show m + (n - (tot + m)) = n - tot by omega] at this
  · next htot =>
    rw [show n - tot = 0 by omega]
    exact .of_run rfl (.refl h hc _)

/-! ## The inode table -/

def tableAddrs (sb : Superblock) (d : Disk) (n : Nat) : Nat → Nat := (dinodeAt sb d n).addrs

lemma tableAddrs_update (sb : Superblock) (d : Disk) (inum : Nat) :
    update (tableAddrs sb d) inum (dinodeAt sb d inum).addrs = tableAddrs sb d :=
  update_eq_self inum (tableAddrs sb d)

lemma Layout.iblock_offBitmap (hlay : Layout sb start) (hn : n < sb.ninodes) :
    OffBitmap sb (iblock sb n) := fun b hb => hlay.apart n b hn hb

lemma Grown.dinodeAt (hg : Grown sb W d x d' x') (hlay : Layout sb start)
    (h : Sound sb start d (update A inum x.addrs)) (hn : inum < sb.ninodes)
    (hm : m < sb.ninodes) : dinodeAt sb d' m = dinodeAt sb d m := by
  have hlt := hlay.inodes m hm
  refine dinodeAt_congr (hg.frame _ (lt_of_lt_of_le hlt hlay.size) (h.used_meta hlay hlt)
    (hlay.iblock_offBitmap hm) ?_)
  rintro ⟨r, hr, -, hat, h0⟩
  have := h.start_le (p := (inum, r)) ⟨hn, hr, by rw [update_self]; exact hat, h0⟩
  omega

lemma Grown.typed (hg : Grown sb W d x d' x') (hlay : Layout sb start)
    (h : Sound sb start d' (update A inum x'.addrs)) (hn : inum < sb.ninodes)
    (hx : x.Typed) : x'.Typed := by
  have haddrs : ∀ s, x'.addrs s < 2 ^ 32 := fun s => by
    by_cases hs : s < NDIRECT + 2
    · by_cases h0 : x'.addrs s = 0
      · rw [h0]
        decide
      have hlt := h.lt_size (p := (inum, ⟨s, []⟩)) ⟨hn, ⟨hs, zero_le _, nofun⟩,
        by rw [update_self]; rfl, h0⟩
      have hsmall := hlay.small
      omega
    · rw [hg.beyond s (by omega)]
      exact hx.addrs s
  rw [hg.fields]
  exact { hx with
    addrs := haddrs, beyond := fun s hs => (hg.beyond s hs).trans (hx.beyond s hs) }

lemma Sound.high (h : Sound sb start d A) (hd : ∀ k, start ≤ k → d' k = d k)
    (hused : ∀ b < sb.size, used sb d' b = used sb d b) {A' : Nat → Nat → Nat}
    (ha : ∀ m < sb.ninodes, ∀ s < NDIRECT + 2, A' m s = A m s) : Sound sb start d' A' :=
  h.congr ha (fun _ b _ hb => hd b (h.start_le hb)) hused

section

variable (h : Sound sb start d A) (hn : inum < sb.ninodes) (hA : A inum = x.addrs)
  (haddrs : x'.addrs = x.addrs) (hd : ∀ k, start ≤ k → d' k = d k)
include h hn hA haddrs hd

lemma Sound.addrAt_high (bn : Nat) : addrAt d' x' bn = addrAt d x bn := by
  by_cases hbn : bn < MAXFILE
  · rw [addrAt_eq _ _ hbn, addrAt_eq _ _ hbn, haddrs]
    refine refAt_congr (fun _ _ => rfl) (fun r hr _ h0 => hd _ ?_) _ (refOf_valid hbn)
    exact h.start_le (p := (inum, r)) ⟨hn, hr, by rw [hA], h0⟩
  · rw [addrAt_beyond (not_lt.mp hbn), addrAt_beyond (not_lt.mp hbn)]

lemma Sound.byteAt_high (h0 : addrAt d x (i / BSIZE) ≠ 0) : byteAt d' x' i = byteAt d x i := by
  have hbn := lt_maxfile h0
  unfold byteAt
  rw [h.addrAt_high hn hA haddrs hd, hd]
  exact h.start_le (p := (inum, refOf (i / BSIZE)))
    ⟨hn, refOf_valid hbn, by rw [hA, ← addrAt_eq d x hbn], h0⟩

end

/-! ## `writei` -/

/-- An image whose bitmap and inodes agree. -/
structure Consistent (sb : Superblock) (start : Nat) (d : Disk) : Prop where
  sound : Sound sb start d (tableAddrs sb d)
  covered : ∀ n, n < sb.ninodes → (dinodeAt sb d n).type ≠ 0 →
    Covered d (dinodeAt sb d n) (dinodeAt sb d n).size
  free : ∀ n, n < sb.ninodes → (dinodeAt sb d n).type = 0 →
    ∀ s, s < NDIRECT + 2 → (dinodeAt sb d n).addrs s = 0

/-- What `writei` leaves. -/
structure Written (sb : Superblock) (start inum : Nat) (src : Mem) (off n : Nat) (d : Disk)
    (x : Dinode) (d' : Disk) (x' : Dinode) : Prop where
  consistent : Consistent sb start d'
  stored : dinodeAt sb d' inum = x'
  others : ∀ m, m < sb.ninodes → m ≠ inum → dinodeAt sb d' m = dinodeAt sb d m
  blocks : ∀ m r b, m ≠ inum → Holds sb d (tableAddrs sb d) (m, r) b → d' b = d b
  fields : x' = { x with size := max x.size (off + n), addrs := x'.addrs }
  bytes : ∀ i, i < n → byteAt d' x' (off + i) = src i
  rest : ∀ i, i < x.size → i < off ∨ off + n ≤ i → byteAt d' x' i = byteAt d x i

lemma Grown.blocks (hg : Grown sb W d x d' x') (hlay : Layout sb start)
    (h : Sound sb start d (update A inum x.addrs)) (hn : inum < sb.ninodes) {b : Nat}
    {r : Ref} (hm : m ≠ inum) (hb : Holds sb d (update A inum x.addrs) (m, r) b) :
    d' b = d b := by
  refine hg.frame b (h.lt_size hb) (h.mark hb) (hlay.offBitmap (h.start_le hb)) ?_
  rintro ⟨q, hq, -, hat, h0⟩
  have := h.once _ (inum, q) b hb ⟨hn, hq, by rw [update_self]; exact hat, h0⟩
  exact hm (congrArg Prod.fst this)

lemma addrAt_others (hm : m < sb.ninodes)
    (hblocks : ∀ r b, Holds sb d (tableAddrs sb d) (m, r) b → d' b = d b) (bn : Nat) :
    addrAt d' (dinodeAt sb d m) bn = addrAt d (dinodeAt sb d m) bn := by
  by_cases hbn : bn < MAXFILE
  · rw [addrAt_eq _ _ hbn, addrAt_eq _ _ hbn]
    exact refAt_congr (fun _ _ => rfl) (fun r hr _ h0 => hblocks r _ ⟨hm, hr, rfl, h0⟩) _
      (refOf_valid hbn)
  · rw [addrAt_beyond (not_lt.mp hbn), addrAt_beyond (not_lt.mp hbn)]

lemma Consistent.step (h : Consistent sb start d) (n : Nat)
    (hs : Sound sb start d' (tableAddrs sb d'))
    (hothers : ∀ m < sb.ninodes, m ≠ n → dinodeAt sb d' m = dinodeAt sb d m)
    (hblocks : ∀ m r b, m ≠ n → Holds sb d (tableAddrs sb d) (m, r) b → d' b = d b)
    (hcov : (dinodeAt sb d' n).type ≠ 0 → Covered d' (dinodeAt sb d' n) (dinodeAt sb d' n).size)
    (hfree : (dinodeAt sb d' n).type = 0 →
      ∀ s < NDIRECT + 2, (dinodeAt sb d' n).addrs s = 0) : Consistent sb start d' where
  sound := hs
  covered m hm ht := by
    by_cases hi : m = n
    · subst hi
      exact hcov ht
    rw [hothers m hm hi] at ht ⊢
    intro bn hbn
    rw [addrAt_others hm fun r b => hblocks m r b hi]
    exact h.covered m hm ht bn hbn
  free m hm ht := by
    by_cases hi : m = n
    · subst hi
      exact hfree ht
    rw [hothers m hm hi] at ht ⊢
    exact h.free m hm ht

lemma Wrote.written_back {d₁ d2 : Disk} {x₁ x2 : Dinode}
    (hlay : Layout sb start) (h : Consistent sb start d) (hn : inum < sb.ninodes)
    (hx : dinodeAt sb d inum = x) (ht : x.type ≠ 0)
    (hw : Wrote sb start (tableAddrs sb d) inum src off n d x d₁ x₁)
    (hd : ∀ k, start ≤ k → d2 k = d₁ k) (hused : ∀ b < sb.size, used sb d2 b = used sb d₁ b)
    (hothers : ∀ m < sb.ninodes, m ≠ inum → dinodeAt sb d2 m = dinodeAt sb d₁ m)
    (hstored : dinodeAt sb d2 inum = x2) (hx2 : x2 = { x₁ with size := max x.size (off + n) }) :
    Written sb start inum src off n d x d2 x2 := by
  have hA : update (tableAddrs sb d) inum x.addrs = tableAddrs sb d := by
    rw [← hx, tableAddrs_update]
  have hs : Sound sb start d (update (tableAddrs sb d) inum x.addrs) := by
    rw [hA]
    exact h.sound
  have hcov : Covered d x x.size := hx ▸ h.covered inum hn (hx ▸ ht)
  have hself : update (tableAddrs sb d) inum x₁.addrs inum = x₁.addrs :=
    update_self ..
  have haddrs : x2.addrs = x₁.addrs := by rw [hx2]
  have hothers' : ∀ m < sb.ninodes, m ≠ inum → dinodeAt sb d2 m = dinodeAt sb d m :=
    fun m hm hne => (hothers m hm hne).trans (hw.grown.dinodeAt hlay hs hn hm)
  have hblocks : ∀ m r b, m ≠ inum → Holds sb d (tableAddrs sb d) (m, r) b → d2 b = d b :=
    fun m r b hm hb => (hd b (h.sound.start_le hb)).trans (hw.grown.blocks hlay hs hn hm (hA ▸ hb))
  have hcov2 : Covered d2 x2 (max x.size (off + n)) := fun bn hbn => by
    rw [hw.sound.addrAt_high hn hself haddrs hd]
    rcases lt_max_iff.mp hbn with hlt | hlt
    · exact hw.grown.covered hcov bn hlt
    · exact hw.covered bn hlt
  have hsound : Sound sb start d2 (tableAddrs sb d2) := by
    refine hw.sound.high hd hused fun m hm s _ => ?_
    by_cases hi : m = inum
    · subst hi
      rw [hself, tableAddrs, hstored, haddrs]
    · rw [update_of_ne hi, tableAddrs, tableAddrs, hothers' m hm hi]
  have htype : x2.type ≠ 0 := by
    rw [hx2, hw.grown.fields]
    exact ht
  have hfields : x2 = { x with size := max x.size (off + n), addrs := x2.addrs } := by
    rw [hx2, hw.grown.fields]
  refine ⟨h.step inum hsound hothers' hblocks ?_ ?_, hstored, hothers', hblocks, hfields,
    fun i hi => ?_, fun i hi hout => ?_⟩
  · rw [hstored]
    intro _
    rw [show x2.size = max x.size (off + n) by rw [hx2]]
    exact hcov2
  · rw [hstored]
    exact fun h0 => absurd h0 htype
  · rw [hw.sound.byteAt_high hn hself haddrs hd (hw.covered.at (by omega)), hw.written i hi]
  · rw [hw.sound.byteAt_high hn hself haddrs hd (hw.grown.covered hcov |>.at hi),
      hw.rest i (hcov.at hi) hout]

def Refused (x : Dinode) (off n : Nat) : Prop :=
  x.size < off ∨ 2 ^ 32 ≤ off + n ∨ MAXFILE * BSIZE < off + n

lemma writei_written (hlay : Layout sb start) (h : Consistent sb start d)
    (hn : inum < sb.ninodes) (hx : dinodeAt sb d inum = x) (ht : x.type ≠ 0) (src : Mem)
    (hok : ¬ Refused x off n) :
    (writei sb inum x src off n).Yields (· = .ballocOutOfBlocks) d fun p d' =>
      p.1 = some n ∧ Written sb start inum src off n d x d' p.2 := by
  unfold Refused at hok
  have hs : Sound sb start d (update (tableAddrs sb d) inum x.addrs) := by
    rw [← hx, tableAddrs_update]
    exact h.sound
  have hcov : Covered d x x.size := hx ▸ h.covered inum hn (hx ▸ ht)
  unfold writei
  rw [if_neg (by omega), if_neg (by omega)]
  refine (writeBlocks_wrote hlay hn n (by omega) (by omega) hs (hcov.mono (by omega))).bind
    fun x' d' hw => ?_
  rw [Nat.sub_zero, show shift src 0 = src from funext fun i => by rw [shift_apply, zero_add]] at hw
  have hsize : x'.size = x.size := by rw [hw.grown.fields]
  split
  · next hgrow =>
    have hlt := hlay.inodes inum hn
    have hnew : ({ x' with size := off + n } : Dinode).Typed := by
      have htyped := hw.grown.typed hlay hw.sound hn (hx ▸ dinodeAt_typed sb d inum)
      refine { htyped with size := ?_ }
      change off + n < 2 ^ 32
      omega
    refine .of_run rfl ⟨rfl, hw.written_back hlay h hn hx ht (fun k hk => storeInode_ne (by omega))
      (fun b hb => used_set (hlay.iblock_offBitmap hn) hb)
      (fun m _ hm => dinodeAt_storeInode_ne hm) (dinodeAt_storeInode hnew inum) ?_⟩
    rw [Nat.max_eq_right (by omega)]
  · next hgrow =>
    have hsame : x' = x := hw.same (hcov.mono (by omega))
    have hstored := (hw.grown.dinodeAt hlay hs hn hn).trans (hx.trans hsame.symm)
    refine .of_run rfl ⟨rfl, hw.written_back hlay h hn hx ht (fun _ _ => rfl) (fun _ _ => rfl)
      (fun _ _ _ => rfl) hstored ?_⟩
    rw [Nat.max_eq_left (by omega), ← hsize]

end Proninx.Native
