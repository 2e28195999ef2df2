import Proninx.Kern.Exec
import Proninx.Lib.Stateful

/-!
# What exec does with its pages

`growths` are the sizes between which `exec` grows the new image, as the
headers of the file give them; which of these calls of `allocuvm` fails
first depends on the number of free pages only (`Fails`). `exec_spec` says
how the call ends: with the new image, or with the account of what came
back to the free list.
-/

namespace Proninx.Vm

open Bool Nat Option

variable {m m₀ : Kmem} {s : Space} {out : Multiset Frame} {img : Image} {elf : Elfhdr}

/-! ## Sizes -/

/-- All the reads of a segment from offset `i` on succeed. -/
def Image.loadsFrom (img : Image) (seg : Nat) (ph : Proghdr) : Nat → Nat → Bool
  | 0, _ => true
  | turns + 1, i =>
    if i < ph.filesz then
      let n := piece ph.vaddr ph.filesz i
      (img.bytes (.segment seg i) (ph.off % 2 ^ 32 + i) n).length == n &&
        img.loadsFrom seg ph turns (i + n)
    else true

def Image.loads (img : Image) (seg : Nat) (ph : Proghdr) : Bool :=
  img.loadsFrom seg ph ph.filesz 0

def stackGrowth (sz : Nat) : Nat × Nat := (pages sz * PGSIZE, pages sz * PGSIZE + 2 * PGSIZE)

/-- The old and new sizes of the growths of `exec` from program header `i` on,
if each of them works. -/
def Image.growths (img : Image) (elf : Elfhdr) : Nat → Nat → Nat → List (Nat × Nat)
  | 0, _, sz => [stackGrowth sz]
  | n + 1, i, sz =>
    match img.proghdr elf i with
    | none => []
    | some ph =>
      if ph.type ≠ ELF_PROG_LOAD then img.growths elf n (i + 1) sz
      else if ph.memsz < ph.filesz ∨ 2 ^ 64 ≤ ph.vaddr + ph.memsz then []
      else (sz, ph.vaddr + ph.memsz) ::
        if max sz (ph.vaddr + ph.memsz) = 0 ∨ img.loads i ph = false then []
        else img.growths elf n (i + 1) (max sz (ph.vaddr + ph.memsz))

/-- The growths of `exec`; there are none if it gives up before it has a
page table. -/
def Image.plan (img : Image) : List (Nat × Nat) :=
  if img.found = true ∧ img.executable = true then
    match img.elfhdr with
    | none => []
    | some elf => if elf.magic = ELF_MAGIC then img.growths elf elf.phnum 0 0 else []
  else []

/-- With `room` free pages at the start of `exec`, this growth fails: the new
size is an address of the kernel, or the pages run out. -/
def Fails (room : Nat) (g : Nat × Nat) : Prop :=
  KERNBASE ≤ g.2 ∨ g.1 ≤ g.2 ∧ room < need (pages g.2) + 1

instance (room : Nat) (g : Nat × Nat) : Decidable (Fails room g) :=
  inferInstanceAs (Decidable (_ ∨ _ ∧ _))

/-- The first growth that fails starts above size 0. -/
def Starved (room : Nat) : List (Nat × Nat) → Prop
  | [] => False
  | g :: gs => if Fails room g then 0 < g.1 else Starved room gs

/-- A growth that works ends below the sizes that an `int` can hold, and one
that runs out of pages stays in the user half. -/
def Sized (room : Nat) (g : Nat × Nat) : Prop :=
  KERNBASE ≤ g.2 ∨ g.2 < 2 ^ 31 ∨ g.2 ≤ UPAGES * PGSIZE ∧ Fails room g

/-- Every growth up to the first that fails is sized. -/
def Fits (room : Nat) : List (Nat × Nat) → Prop
  | [] => True
  | g :: gs => Sized room g ∧ (Fails room g ∨ Fits room gs)

lemma signExtend_mod {x : Nat} (h : x < 2 ^ 31) : signExtend (x % 2 ^ 32) = x := by
  rw [mod_eq_of_lt (by omega), signExtend, if_pos h]

/-! ## Filling pages -/

/-- The pages may have other contents. -/
structure Filled (m₀ : Kmem) (out : Multiset Frame) (s s' : Space) : Prop where
  sound : s'.Sound m₀ out
  pgdir : s'.pgdir = s.pgdir
  freelist : s'.kmem.freelist = s.kmem.freelist

lemma Filled.refl (h : s.Sound m₀ out) : Filled m₀ out s s := ⟨h, rfl, rfl⟩

lemma Filled.trans {s' s'' : Space} (h : Filled m₀ out s s') (h' : Filled m₀ out s' s'') :
    Filled m₀ out s s'' :=
  ⟨h'.sound, h'.pgdir.trans h.pgdir, h'.freelist.trans h.freelist⟩

lemma filled_store (h : s.Sound m₀ out) {k : Nat} {pte : Pte} (hget : s.pgdir.get k = some pte)
    (off : Nat) (bytes : List UInt8) :
    Filled m₀ out s { s with kmem := s.kmem.store pte.frame off bytes } :=
  ⟨h.write (h.mem_frames (mem_frames_of_get hget)) _, rfl, rfl⟩

lemma uva2ka_some {va : Nat} {f : Frame} (h : s.uva2ka va = some f) :
    ∃ pte, s.pgdir.get (va / PGSIZE) = some pte ∧ pte.frame = f := by
  unfold Space.uva2ka at h
  split at h
  · cases hget : s.pgdir.get (va / PGSIZE) with
    | none => rw [hget] at h; cases h
    | some pte => ?_
    rw [hget] at h
    exact ⟨pte, rfl, some.inj (ite_none_right_eq_some.mp h).2⟩
  · cases h

lemma filled_copyParts (turns : Nat) : ∀ (va : Nat) (bytes : List UInt8) {s : Space},
    s.Sound m₀ out → Filled m₀ out s (Space.copyParts turns va bytes s).1 := by
  induction turns with
  | zero => exact fun _ _ _ h => .refl h
  | succ turns ih => ?_
  intro va bytes s h
  rw [Space.copyParts]
  split
  · exact .refl h
  cases hka : s.uva2ka va with
  | none => exact .refl h
  | some f => ?_
  obtain ⟨pte, hget, rfl⟩ := uva2ka_some hka
  have hfill := filled_store h hget (va % PGSIZE) (bytes.take (PGSIZE - va % PGSIZE))
  exact hfill.trans (ih _ _ hfill.sound)

lemma filled_copyout (va : Nat) (bytes : List UInt8) (h : s.Sound m₀ out) :
    Filled m₀ out s (s.copyout va bytes).1 :=
  filled_copyParts bytes.length va bytes h

lemma filled_pushArgs (argv : List (List UInt8)) : ∀ (sp : Nat) (ustack : List Nat) {s : Space},
    s.Sound m₀ out → Filled m₀ out s (pushArgs argv sp ustack s).1 := by
  induction argv with
  | nil => exact fun _ _ _ h => .refl h
  | cons arg argv ih => ?_
  intro sp ustack s h
  rw [pushArgs]
  split
  · exact .refl h
  have hcopy := filled_copyout (minus sp (arg.length + 1) / 8 * 8) (arg ++ [0]) h
  dsimp only
  split
  · exact hcopy.trans (ih _ _ hcopy.sound)
  · exact hcopy

lemma filled_pushStack (argv : List (List UInt8)) (sz : Nat) (h : s.Sound m₀ out) :
    Filled m₀ out s (pushStack argv sz s).1 := by
  have hargs := filled_pushArgs argv sz [] h
  unfold pushStack
  generalize pushArgs argv sz [] s = r at hargs
  obtain ⟨t, _ | ⟨sp, ustack⟩⟩ := r
  · exact hargs
  exact hargs.trans (filled_copyout _ _ hargs.sound)

variable {p : Nat}

lemma Holds.slot {t : Pgdir} {k : Nat} (h : Holds t p) (hp : p ≤ UPAGES) (hk : k < p) :
    ∃ pte, t.get k = some pte ∧ t.slot k = some (some pte) := by
  obtain ⟨pte, hpte⟩ := isSome_iff_exists.mp ((h k (hk.trans_le hp)).mpr hk)
  exact ⟨pte, hpte, Radix.Tree.slot_of_get hpte⟩

variable {ph : Proghdr}

lemma loadPieces_spec (img : Image) (seg : Nat) (hp : p ≤ UPAGES)
    (hend : ph.vaddr + ph.filesz ≤ p * PGSIZE) (turns : Nat) : ∀ (i : Nat) {s : Space},
      s.Sound m₀ out → Holds s.pgdir p →
      ∃ s', Space.loadPieces img seg ph turns i s = .ok (s', img.loadsFrom seg ph turns i) ∧
        Filled m₀ out s s' := by
  induction turns with
  | zero => exact fun _ _ h _ => ⟨_, rfl, .refl h⟩
  | succ turns ih => ?_
  intro i s hsound hholds
  rw [Space.loadPieces, Image.loadsFrom]
  by_cases hi : i < ph.filesz
  · have hva : ph.vaddr + i < p * PGSIZE := by omega
    have hk : (ph.vaddr + i) / PGSIZE < p := Nat.div_lt_of_lt_mul (by rwa [mul_comm])
    have hwrap : (ph.vaddr + i) % 2 ^ 64 = ph.vaddr + i :=
      mod_eq_of_lt (hva.trans_le ((Nat.mul_le_mul_right _ hp).trans (by decide)))
    obtain ⟨pte, hget, hslot⟩ := hholds.slot hp hk
    simp only [if_pos hi, hwrap, if_pos (userHalf_of_lt (hk.trans_le hp)), hslot]
    generalize img.bytes (.segment seg i) (ph.off % 2 ^ 32 + i) (piece ph.vaddr ph.filesz i) = b
    have hfill := filled_store hsound hget ((ph.vaddr + i) % PGSIZE) b
    by_cases hlen : b.length = piece ph.vaddr ph.filesz i
    · obtain ⟨s', hok, hfill'⟩ := ih (i + piece ph.vaddr ph.filesz i) hfill.sound hholds
      refine ⟨s', ?_, hfill.trans hfill'⟩
      rw [if_pos hlen, hok, beq_iff_eq.mpr hlen, Bool.true_and]
    · refine ⟨_, ?_, hfill⟩
      rw [if_neg hlen, beq_eq_false_iff_ne.mpr hlen, Bool.false_and]
  · exact ⟨s, by rw [if_neg hi, if_neg hi], .refl hsound⟩

lemma clearpteu_spec (uva : Nat) (hp : p ≤ UPAGES) (huva : uva < p * PGSIZE)
    (hsound : s.Sound m₀ out) (hholds : Holds s.pgdir p) :
    ∃ s', s.clearpteu uva = .ok s' ∧ s'.Sound m₀ out ∧ Holds s'.pgdir p := by
  have hk : uva / PGSIZE < p := Nat.div_lt_of_lt_mul (by rwa [mul_comm])
  have hu := hk.trans_le hp
  obtain ⟨pte, hget, hslot⟩ := hholds.slot hp hk
  refine ⟨_, by rw [Space.clearpteu, if_pos (userHalf_of_lt hu), hslot], ?_, fun k hku => ?_⟩
  · refine ⟨?_, hsound.kept, rooted_alter hsound.rooted _ _, fun k hk => ?_⟩
    · have hweight := Radix.weight_alter (t := s.pgdir) (fun pte => {pte.frame}) (uva / PGSIZE)
        fun pte => some { pte with user := false }
      rw [hget] at hweight
      have hframes := add_right_cancel hweight
      rw [← hsound.books, frames, hframes]
      rfl
    · exact (Radix.Tree.get_alter_ne _ (mod_ne_of_kernel hu hk)).trans (hsound.half k hk)
  · rw [← hholds k hku]
    by_cases hka : k = uva / PGSIZE
    · rw [hka, Radix.Tree.get_alter_self, hget]
      rfl
    · rw [Radix.Tree.get_alter_ne _ (mod_ne hu hku hka)]

/-! ## Loading -/

/-- The image as `exec` has built it up to size `sz`. -/
structure Loaded (m₀ : Kmem) (s : Space) (sz : Nat) : Prop where
  sound : s.Sound m₀ 0
  holds : Holds s.pgdir (pages sz)
  grown : s.pgdir.Grown (pages sz)
  room : s.kmem.freelist.length + need (pages sz) + 1 = m₀.freelist.length

/-- What `bad` is left with: `freevm` of size `sz` does not reach all the
pages exactly if the call is `starved`. -/
structure Stopped (m₀ : Kmem) (s : Space) (sz : Nat) (starved : Prop) : Prop where
  sound : s.Sound m₀ 0
  size : sz ≤ UPAGES * PGSIZE
  held : ∃ p ≤ UPAGES, Holds s.pgdir p ∧ pages sz ≤ p ∧ (starved ↔ pages sz < p)

variable {sz : Nat}

lemma Loaded.filled {s' : Space} (h : Loaded m₀ s sz) (hfill : Filled m₀ 0 s s') :
    Loaded m₀ s' sz :=
  ⟨hfill.sound, hfill.pgdir ▸ h.holds, hfill.pgdir ▸ h.grown, hfill.freelist ▸ h.room⟩

lemma le_upages (h : sz < 2 ^ 31) : sz ≤ UPAGES * PGSIZE := h.le.trans (by decide)

lemma Loaded.stopped (h : Loaded m₀ s sz) (hsz : sz < 2 ^ 31) : Stopped m₀ s sz False :=
  ⟨h.sound, le_upages hsz, pages sz, pages_le_upages (le_upages hsz), h.holds, le_rfl, by simp⟩

lemma loaded_setupkvm (h : setupkvm m = some s) : Loaded m s 0 := by
  obtain ⟨f, hfree, -, -⟩ := setupkvm_some h
  exact ⟨sound_setupkvm h, holds_setupkvm h, grown_setupkvm h, by rw [hfree]; rfl⟩

lemma grow_spec {new : Nat} (h : Loaded m₀ s sz) (hsz : new < sz → sz < 2 ^ 31)
    (hsized : Sized m₀.freelist.length (sz, new)) :
    ∃ s' r, s.allocuvm sz new = .ok (s', r) ∧
      (Fails m₀.freelist.length (sz, new) → r = 0 ∧ s'.Sound m₀ 0 ∧ Holds s'.pgdir (pages sz)) ∧
      (¬Fails m₀.freelist.length (sz, new) →
        signExtend r = max sz new ∧ max sz new < 2 ^ 31 ∧ Loaded m₀ s' (max sz new)) := by
  by_cases hkern : KERNBASE ≤ new
  · refine ⟨s, 0, by rw [Space.allocuvm, if_pos hkern], fun _ => ⟨rfl, h.sound, h.holds⟩,
      fun hnot => absurd (.inl hkern) hnot⟩
  by_cases hlt : new < sz
  · refine ⟨s, sz % 2 ^ 32, by rw [Space.allocuvm, if_neg hkern, if_pos hlt], fun hfails => ?_,
      fun _ => ?_⟩
    · rcases hfails with hk | ⟨hle, -⟩
      · exact absurd hk hkern
      · exact absurd hle (Nat.not_le_of_lt hlt)
    · rw [Nat.max_eq_left hlt.le]
      exact ⟨signExtend_mod (hsz hlt), hsz hlt, h⟩
  have hle : sz ≤ new := not_lt.mp hlt
  have htop : new ≤ UPAGES * PGSIZE := by
    rcases hsized with hk | hlow | ⟨htop, -⟩
    · exact absurd hk hkern
    · exact hlow.le.trans (by decide)
    · exact htop
  obtain ⟨s', b, hok, hgrew⟩ := allocuvm_spec htop hle h.sound h.holds
  have henough := hgrew.enough h.grown
  have hroom := h.room
  have hiff : Fails m₀.freelist.length (sz, new) ↔ b = false := by
    rw [← not_eq_true, henough]
    constructor
    · rintro (hk | ⟨-, hshort⟩)
      · exact absurd hk hkern
      change m₀.freelist.length < need (pages new) + 1 at hshort
      omega
    · intro hshort
      exact .inr ⟨hle, by change _ < need (pages new) + 1; omega⟩
  refine ⟨s', _, hok, fun hfails => ?_, fun hworks => ?_⟩
  · have hb := hiff.mp hfails
    refine ⟨by rw [hb]; rfl, hgrew.sound, fun k hk => ?_⟩
    by_cases hks : k < pages sz
    · rw [hgrew.below k hk hks, h.holds k hk]
    rw [hgrew.undone hb k hk (not_lt.mp hks)]
    exact iff_of_false nofun hks
  have hb : b := of_not_eq_false fun hb => hworks (hiff.mpr hb)
  have hlow : new < 2 ^ 31 := by
    rcases hsized with hk | hlow | ⟨-, hfails⟩
    · exact absurd hk hkern
    · exact hlow
    · exact absurd hfails hworks
  rw [Nat.max_eq_right hle, if_pos hb]
  have hleft := hgrew.left h.grown hb
  exact ⟨signExtend_mod hlow, hlow, hgrew.sound, hgrew.holds hb, hgrew.grown h.grown hb, by omega⟩

lemma readLe8_lt (b : ByteMem.Mem) (a : Nat) : ByteMem.readLe 8 b a < 2 ^ 64 :=
  ByteMem.readLe_lt 8 b a

lemma proghdr_lt {i : Nat} (h : img.proghdr elf i = some ph) :
    ph.vaddr < 2 ^ 64 ∧ ph.memsz < 2 ^ 64 := by
  obtain ⟨b, -, rfl⟩ := map_eq_some_iff.mp h
  exact ⟨readLe8_lt b 16, readLe8_lt b 40⟩

/-- How the loop over the program headers ends. -/
structure Segments (m₀ : Kmem) (gs : List (Nat × Nat)) (s : Space) (sz : Nat) (b : Bool) :
    Prop where
  loaded : b = true → Loaded m₀ s sz
  small : b = true → sz < 2 ^ 31
  fits : b = true → Fits m₀.freelist.length [stackGrowth sz]
  starved : b = true →
    (Starved m₀.freelist.length gs ↔ Starved m₀.freelist.length [stackGrowth sz])
  stopped : b = false → Stopped m₀ s sz (Starved m₀.freelist.length gs)

lemma Loaded.segments_nil (h : Loaded m₀ s sz) (hsz : sz < 2 ^ 31) : Segments m₀ [] s sz false :=
  ⟨nofun, nofun, nofun, nofun, fun _ => h.stopped hsz⟩

lemma Segments.cons {g : Nat × Nat} {gs : List (Nat × Nat)} {b : Bool}
    (hworks : ¬Fails m₀.freelist.length g) (h : Segments m₀ gs s sz b) :
    Segments m₀ (g :: gs) s sz b := by
  have hstarved : Starved m₀.freelist.length (g :: gs) = Starved m₀.freelist.length gs := by
    rw [Starved, if_neg hworks]
  refine { h with starved := ?_, stopped := ?_ }
  · rw [hstarved]
    exact h.starved
  rw [hstarved]
  exact h.stopped

lemma pages_pos_iff {x : Nat} : 0 < pages x ↔ 0 < x := by
  rw [pages, Nat.div_pos_iff]
  simp only [PGSIZE]
  omega

lemma loaduvm_spec (img : Image) (i : Nat) (h : Loaded m₀ s sz)
    (hsz : sz < 2 ^ 31) (hend : ph.vaddr + ph.filesz ≤ sz) :
    ∃ s', s.loaduvm img i ph = .ok (s', img.loads i ph) ∧ Loaded m₀ s' sz := by
  have hround : sz ≤ pages sz * PGSIZE := by
    simp only [pages, PGSIZE]
    omega
  obtain ⟨s', hok, hfill⟩ := loadPieces_spec img i (pages_le_upages (le_upages hsz))
    (hend.trans hround) ph.filesz 0 h.sound h.holds
  exact ⟨s', hok, h.filled hfill⟩

lemma stopped_of_fails (hsz : sz ≤ UPAGES * PGSIZE) (hsound : s.Sound m₀ 0)
    (hholds : Holds s.pgdir (pages sz)) : Stopped m₀ s 0 (0 < sz) :=
  ⟨hsound, zero_le _, pages sz, pages_le_upages hsz, hholds, zero_le _, pages_pos_iff.symm⟩

lemma loadSegments_spec (n : Nat) : ∀ {i sz : Nat} {s : Space}, Loaded m₀ s sz → sz < 2 ^ 31 →
    Fits m₀.freelist.length (img.growths elf n i sz) →
    ∃ s' sz' b, loadSegments img elf n i s sz = .ok (s', sz', b) ∧
      Segments m₀ (img.growths elf n i sz) s' sz' b := by
  induction n with
  | zero =>
    intro i sz s h hsz hfits
    exact ⟨s, sz, true, rfl, fun _ => h, fun _ => hsz, fun _ => hfits, fun _ => .rfl, nofun⟩
  | succ n ih => ?_
  intro i sz s h hsz hfits
  rw [Image.growths] at hfits ⊢
  rw [loadSegments]
  cases hph : img.proghdr elf i with
  | none => exact ⟨s, sz, false, rfl, h.segments_nil hsz⟩
  | some ph => ?_
  obtain ⟨hvaddr, hmemsz⟩ := proghdr_lt hph
  rw [hph] at hfits
  dsimp only at hfits ⊢
  by_cases htype : ph.type ≠ ELF_PROG_LOAD
  · rw [if_pos htype] at hfits ⊢
    rw [if_pos htype]
    exact ih h hsz hfits
  rw [if_neg htype] at hfits ⊢
  rw [if_neg htype]
  by_cases hbad : ph.memsz < ph.filesz ∨ 2 ^ 64 ≤ ph.vaddr + ph.memsz
  · rw [if_pos hbad]
    refine ⟨s, sz, false, ?_, h.segments_nil hsz⟩
    rcases hbad with hsize | hsum
    · rw [if_pos hsize]
    · rw [if_pos (show (ph.vaddr + ph.memsz) % 2 ^ 64 < ph.vaddr by omega), ite_self]
  obtain ⟨hsize, hsum⟩ := not_or.mp hbad
  rw [if_neg hbad] at hfits ⊢
  have hwrap : (ph.vaddr + ph.memsz) % 2 ^ 64 = ph.vaddr + ph.memsz :=
    mod_eq_of_lt (not_le.mp hsum)
  rw [if_neg hsize, hwrap, if_neg (by omega)]
  obtain ⟨t, r, hok, hfail, hwork⟩ := grow_spec h (fun _ => hsz) hfits.1
  rw [hok]
  by_cases hfails : Fails m₀.freelist.length (sz, ph.vaddr + ph.memsz)
  · obtain ⟨rfl, hsound, hholds⟩ := hfail hfails
    refine ⟨t, 0, false, rfl, nofun, nofun, nofun, nofun, fun _ => ?_⟩
    rw [Starved, if_pos hfails]
    exact stopped_of_fails (le_upages hsz) hsound hholds
  obtain ⟨hr, hsz', hloaded⟩ := hwork hfails
  have hrest := hfits.2.resolve_left hfails
  suffices hsuff : ∃ s' sz' b, _ = Except.ok (s', sz', b) ∧ Segments m₀ _ s' sz' b by
    obtain ⟨s', sz', b, hok', hseg⟩ := hsuff
    exact ⟨s', sz', b, hok', hseg.cons hfails⟩
  by_cases hzero : max sz (ph.vaddr + ph.memsz) = 0
  · rw [hzero] at hr hloaded
    refine ⟨t, 0, false, ?_, ?_⟩
    · change (if signExtend r = 0 then _ else _) = _
      rw [if_pos hr]
      rfl
    · rw [if_pos (.inl hzero)]
      exact hloaded.segments_nil (by decide)
  obtain ⟨t', hload, hloaded'⟩ := loaduvm_spec img i hloaded hsz'
    (show ph.vaddr + ph.filesz ≤ _ by omega)
  cases hloads : img.loads i ph with
  | false =>
    refine ⟨t', max sz (ph.vaddr + ph.memsz), false, ?_, ?_⟩
    · change (if signExtend r = 0 then _ else _) = _
      rw [hr, if_neg hzero]
      rw [hload, hloads]
      rfl
    · rw [if_pos (.inr rfl)]
      exact hloaded'.segments_nil hsz'
  | true => ?_
  rw [hloads, if_neg (by simpa using hzero)] at hrest
  obtain ⟨s', sz', b, hok', hseg⟩ := ih hloaded' hsz' hrest
  refine ⟨s', sz', b, ?_, ?_⟩
  · change (if signExtend r = 0 then _ else _) = _
    rw [hr, if_neg hzero]
    change (t.loaduvm img i ph >>= _) = _
    rw [hload, hloads]
    exact hok'
  · rwa [if_neg (by simpa using hzero)]

/-! ## The call -/

/-- The call has failed: the process is as it was, no page outside the free
list was written, and everything is back on it unless the call was
`starved`. -/
structure Failed (m₀ : Kmem) (p : Proc) (starved : Prop) (r : Except Panic (Kmem × Proc × Bool)) :
    Prop where
  back : ∃ m, r = .ok (m, p, false) ∧ (∀ f, f ∉ m₀.freelist → m.page f = m₀.page f) ∧
    (m.freelist.Perm m₀.freelist ↔ ¬starved)

lemma Failed.congr {p : Proc} {a b : Prop} {r : Except Panic (Kmem × Proc × Bool)}
    (h : Failed m₀ p a r) (hab : a ↔ b) : Failed m₀ p b r := by
  rwa [← hab]

lemma failed_at_once (m : Kmem) (p : Proc) : Failed m p False (.ok (m, p, false)) :=
  ⟨m, rfl, fun _ _ => rfl, iff_of_true (.refl _) id⟩

lemma bad_spec {starved : Prop} (p : Proc) (h : Stopped m₀ s sz starved) :
    Failed m₀ p starved (bad p s sz) := by
  obtain ⟨held, hheld, hholds, hle, hstarved⟩ := h.held
  obtain ⟨m, hok, hkept, hperm⟩ := freevm_spec h.size h.sound
  refine ⟨m, by rw [bad, hok]; rfl, hkept, ?_⟩
  rw [hperm, hstarved]
  constructor
  · intro hnone hlt
    have hk := hlt.trans_le hheld
    exact absurd (hnone _ hk le_rfl) (isSome_iff_ne_none.mp ((hholds _ hk).mpr hlt))
  · intro hnot k hk hk'
    exact hholds.none hk (by omega)

/-- The call has worked: it ends with the new image, of a size below `2 ^ 31`,
and frees the old one. -/
structure Worked (m₀ : Kmem) (p : Proc) (r : Except Panic (Kmem × Proc × Bool)) : Prop where
  image : ∃ (s : Space) (p' : Proc), r = (do
      let m ← (⟨s.kmem, p.pgdir⟩ : Space).freevm p.sz
      return (m, p', true)) ∧
    p'.pgdir = s.pgdir ∧ s.Sound m₀ 0 ∧ Holds s.pgdir (pages p'.sz) ∧ 0 < p'.sz ∧ p'.sz < 2 ^ 31

lemma pages_mul (n : Nat) : pages (n * PGSIZE) = n := by
  simp only [pages, PGSIZE]
  omega

/-- From the pages of the stack on, nothing but a full stack or too many
arguments can go wrong. -/
lemma commit_spec {top : Nat} (path : List UInt8) (argv : List (List UInt8)) (elf : Elfhdr)
    (p : Proc) (hpos : 0 < top) (htop : top < 2 ^ 31) (hsound : s.Sound m₀ 0)
    (hholds : Holds s.pgdir (pages top)) :
    Failed m₀ p False (commit path argv elf p s top) ∨
      Worked m₀ p (commit path argv elf p s top) := by
  unfold commit
  have hfill := filled_pushStack argv top hsound
  generalize pushStack argv top s = r at hfill
  obtain ⟨t, _ | sp⟩ := r
  · have hholds' : Holds t.pgdir (pages top) := hfill.pgdir ▸ hholds
    exact .inl (bad_spec p ⟨hfill.sound, le_upages htop, pages top,
      pages_le_upages (le_upages htop), hholds', le_rfl, by simp⟩)
  · exact .inr ⟨t, _, rfl, rfl, hfill.sound, hfill.pgdir ▸ hholds, hpos, htop⟩

lemma growStack_spec (path : List UInt8) (argv : List (List UInt8)) (elf : Elfhdr)
    (p : Proc) (h : Loaded m₀ s sz) (hsz : sz < 2 ^ 31)
    (hfits : Fits m₀.freelist.length [stackGrowth sz]) :
    Failed m₀ p (Starved m₀.freelist.length [stackGrowth sz]) (growStack path argv elf p s sz) ∨
      ¬Starved m₀.freelist.length [stackGrowth sz] ∧ Worked m₀ p (growStack path argv elf p s sz) := by
  have hround : pgroundup sz = pages sz * PGSIZE := by
    rw [← pgroundup_div (hsz.trans (by decide)), pgroundup, Nat.mul_div_cancel _ (by decide)]
  have hpages := pages_mul (pages sz)
  have hbound : pages sz ≤ 2 ^ 19 := (pages_mono hsz.le).trans (by decide)
  have hle : pages sz * PGSIZE ≤ UPAGES * PGSIZE :=
    Nat.mul_le_mul_right _ (hbound.trans (by decide))
  have hloaded : Loaded m₀ s (pages sz * PGSIZE) := by
    refine ⟨h.sound, ?_, ?_, ?_⟩ <;> rw [hpages]
    exacts [h.holds, h.grown, h.room]
  have hlow : pages sz * PGSIZE + 2 * PGSIZE < 2 ^ 64 := by
    simp only [PGSIZE] at *
    omega
  obtain ⟨t, r, hok, hfail, hwork⟩ := grow_spec hloaded (by omega) hfits.1
  by_cases hfails : Fails m₀.freelist.length (stackGrowth sz)
  · obtain ⟨rfl, hsound, hholds⟩ := hfail hfails
    left
    rw [Starved, if_pos hfails, growStack, hround, mod_eq_of_lt hlow, hok]
    exact bad_spec p (stopped_of_fails hle hsound hholds)
  obtain ⟨hr, hsz', hnew⟩ := hwork hfails
  have hstarved : ¬Starved m₀.freelist.length [stackGrowth sz] := by
    rw [Starved, if_neg hfails]
    exact id
  rw [Nat.max_eq_right (by omega)] at hr hsz' hnew
  have htop : pages (pages sz * PGSIZE + 2 * PGSIZE) = pages sz + 2 := by rw [← add_mul, pages_mul]
  have hguard : minus (pages sz * PGSIZE + 2 * PGSIZE) (2 * PGSIZE) = pages sz * PGSIZE := by
    simp only [minus, PGSIZE] at *
    omega
  obtain ⟨t', hclear, hsound, hholds⟩ := clearpteu_spec (pages sz * PGSIZE)
    (pages_le_upages (le_upages hsz')) (by rw [htop]; simp only [PGSIZE]; omega)
    hnew.sound hnew.holds
  have heq : growStack path argv elf p s sz =
      commit path argv elf p t' (pages sz * PGSIZE + 2 * PGSIZE) := by
    unfold growStack
    rw [hround, mod_eq_of_lt hlow, hok]
    change (if signExtend r = 0 then _ else _) = _
    rw [hr, if_neg (by simp [PGSIZE]), hguard]
    change (t.clearpteu (pages sz * PGSIZE) >>= _) = _
    rw [hclear]
    rfl
  rw [heq]
  rcases commit_spec path argv elf p (by simp [PGSIZE]) hsz' hsound hholds with hfailed | hworked
  · exact .inl (hfailed.congr (iff_of_false id hstarved))
  · exact .inr ⟨hstarved, hworked⟩

lemma setupkvm_none (h : setupkvm m = none) : m.freelist = [] :=
  kalloc_none (map_eq_none_iff.mp h)

lemma growths_head (n : Nat) : ∀ i, ∀ g ∈ (img.growths elf n i 0).head?, g.1 = 0 := by
  induction n with
  | zero =>
    intro i g hg
    obtain rfl : stackGrowth 0 = g := some.inj hg
    rfl
  | succ n ih => ?_
  intro i g hg
  rw [Image.growths] at hg
  cases hph : img.proghdr elf i with
  | none => rw [hph] at hg; cases hg
  | some ph => ?_
  rw [hph] at hg
  dsimp only at hg
  split at hg
  · exact ih _ g hg
  split at hg
  · cases hg
  · cases hg; rfl

lemma not_starved_zero (n i : Nat) : ¬Starved 0 (img.growths elf n i 0) := by
  cases hgs : img.growths elf n i 0 with
  | nil => exact id
  | cons g gs => ?_
  have hzero := growths_head n i g (by rw [hgs]; rfl)
  have hfails : Fails 0 g := .inr ⟨by omega, by omega⟩
  rw [Starved, if_pos hfails]
  omega

lemma load_spec (path : List UInt8) (argv : List (List UInt8)) (p : Proc)
    (hsetup : setupkvm m = some s)
    (hfits : Fits m.freelist.length (img.growths elf elf.phnum 0 0)) :
    let r := loadSegments img elf elf.phnum 0 s 0 >>= fun r =>
      if r.2.2 then growStack path argv elf p r.1 r.2.1 else bad p r.1 r.2.1
    Failed m p (Starved m.freelist.length (img.growths elf elf.phnum 0 0)) r ∨
      ¬Starved m.freelist.length (img.growths elf elf.phnum 0 0) ∧ Worked m p r := by
  obtain ⟨t, sz, b, hok, hseg⟩ :=
    loadSegments_spec elf.phnum (loaded_setupkvm hsetup) (by decide) hfits
  simp only [hok, bind, Except.bind]
  cases b with
  | false => exact .inl (bad_spec p (hseg.stopped rfl))
  | true => ?_
  rw [hseg.starved rfl, if_pos rfl]
  exact growStack_spec path argv elf p (hseg.loaded rfl) (hseg.small rfl) (hseg.fits rfl)

lemma exec_spec (path : List UInt8) (argv : List (List UInt8)) (p : Proc)
    (hfits : 0 < m.freelist.length → Fits m.freelist.length img.plan) :
    Failed m p (Starved m.freelist.length img.plan) (exec img path argv m p) ∨
      ¬Starved m.freelist.length img.plan ∧ Worked m p (exec img path argv m p) := by
  unfold exec Image.plan at *
  cases hfound : img.found with
  | false => exact .inl (failed_at_once m p)
  | true =>
  cases hexec : img.executable with
  | false => exact .inl (failed_at_once m p)
  | true =>
  rw [hfound, hexec, if_pos ⟨rfl, rfl⟩] at hfits
  rw [if_pos ⟨rfl, rfl⟩]
  cases helf : img.elfhdr with
  | none => exact .inl (failed_at_once m p)
  | some elf =>
  rw [helf] at hfits
  dsimp only at hfits ⊢
  by_cases hmagic : elf.magic = ELF_MAGIC
  · rw [if_pos hmagic] at hfits ⊢
    rw [if_neg (not_not.mpr hmagic)]
    cases hsetup : setupkvm m with
    | none =>
      have hempty := setupkvm_none hsetup
      refine .inl ((failed_at_once m p).congr (iff_of_false id ?_))
      rw [hempty]
      exact not_starved_zero _ _
    | some s =>
      obtain ⟨f, hfree, -, -⟩ := setupkvm_some hsetup
      exact load_spec path argv p hsetup (hfits (by rw [hfree]; exact succ_pos _))
  · rw [if_neg hmagic, if_pos hmagic]
    exact .inl (failed_at_once m p)

/-! ## All or nothing -/

def Proc.byte (m : Kmem) (p : Proc) (va : Nat) : Option UInt8 :=
  (p.pgdir.get (va / PGSIZE)).map fun pte => m.page pte.frame (va % PGSIZE)

/-- If `exec` returns -1, the process and its memory are as before, and so are
the free pages. -/
def Restores (img : Image) (path : List UInt8) (argv : List (List UInt8)) (m : Kmem) (p : Proc) :
    Prop :=
  ∀ m' p', exec img path argv m p = .ok (m', p', false) →
    p' = p ∧ (∀ va, p'.byte m' va = p.byte m va) ∧ m'.freelist.Perm m.freelist

lemma byte_congr {m' : Kmem} {p : Proc}
    (hown : ∀ k pte, p.pgdir.get k = some pte → pte.frame ∉ m.freelist)
    (hkept : ∀ f ∉ m.freelist, m'.page f = m.page f) (va : Nat) :
    p.byte m' va = p.byte m va := by
  unfold Proc.byte
  cases hget : p.pgdir.get (va / PGSIZE) with
  | none => rfl
  | some pte => exact congrArg some (congrFun (hkept _ (hown _ _ hget)) _)

/-- A program header of a segment without bytes in the file. -/
def bssHeader (vaddr memsz : Nat) : List UInt8 :=
  [1, 0, 0, 0, 0, 0, 0, 0] ++ le64 0 ++ le64 vaddr ++ le64 0 ++ le64 0 ++ le64 memsz ++ le64 0

/-- A file with two segments, a page at 0 and a page of the kernel. -/
def twoSegments : Image where
  found := true
  executable := true
  readi
    | .elfhdr, _, _ => [0x7f, 0x45, 0x4c, 0x46] ++ List.replicate 20 0 ++ le64 0 ++ le64 64 ++
        List.replicate 16 0 ++ [2, 0] ++ List.replicate 6 0
    | .proghdr 0, _, _ => bssHeader 0 PGSIZE
    | .proghdr _, _, _ => bssHeader KERNBASE PGSIZE
    | .segment _ _, _, _ => []

/-- Twelve free pages. -/
def pool : Kmem where
  freelist := (List.range 12).map fun i => ⟨i + 1, succ_pos i⟩
  page := fun _ _ => 0

def onePage : Proc where
  pgdir := (Radix.Tree.insert 0 ⟨⟨21, by decide⟩, true, true⟩ 4
    (.node ⟨22, by decide⟩ fun _ => .empty) [⟨23, by decide⟩, ⟨24, by decide⟩, ⟨25, by decide⟩]).1
  sz := PGSIZE
  kstack := ⟨26, by decide⟩
  rip := 0
  rsp := PGSIZE
  rax := 0
  name := []

lemma twoSegments_plan : twoSegments.plan =
    [(0, PGSIZE), (PGSIZE, KERNBASE + PGSIZE), (KERNBASE + PGSIZE, KERNBASE + 3 * PGSIZE)] := by
  decide +kernel

lemma onePage_own (k : Nat) (pte : Pte) (h : onePage.pgdir.get k = some pte) :
    pte.frame ∉ pool.freelist := by
  by_cases hk : k % NPTENTRIES ^ 4 = 0 % NPTENTRIES ^ 4
  · rw [Radix.Tree.get_congr hk] at h
    obtain rfl : (⟨⟨21, by decide⟩, true, true⟩ : Pte) = pte := some.inj h
    decide
  · rw [onePage, Radix.get_insert_ne _ _ _ _ hk] at h
    cases h

end Proninx.Vm
