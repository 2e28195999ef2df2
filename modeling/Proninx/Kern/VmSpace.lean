import Proninx.Kern.Vm

/-!
# What growing and shrinking do to a space

`Sound` is the account of the pages: the free list, the pages in the page
table and those a call has in hand are together the free list that a call
started with, and no other page has been written. `Holds p` says that the
pages below `p` are mapped and no others of the user half. Every function
of `vm.c` keeps the first, and the second says what each is for.
-/

namespace Proninx.Vm

open Function List Multiset Nat Option Radix Tree

variable {m m₀ : Kmem} {s : Space} {out : Multiset Frame} {f : Frame}

/-- The frames of the tables and of the pages they map. -/
def frames (t : Pgdir) : Multiset Frame := t.weight fun pte => {pte.frame}

structure Space.Sound (m₀ : Kmem) (out : Multiset Frame) (s : Space) : Prop where
  books : (s.kmem.freelist : Multiset Frame) + frames s.pgdir + out = m₀.freelist
  kept : ∀ f, f ∉ m₀.freelist → s.kmem.page f = m₀.page f
  rooted : ∃ f e, s.pgdir = .node f e
  half : ∀ k, userHalf k = false → s.pgdir.get k = none

open Space

/-- The pages below `p` are mapped, and no others. -/
def Holds (t : Pgdir) (p : Nat) : Prop := ∀ k < UPAGES, (t.get k).isSome = true ↔ k < p

/-! ## Page numbers -/

variable {a : Nat}

lemma mod_of_upages (h : a < UPAGES) : a % NPTENTRIES ^ 4 = a :=
  mod_eq_of_lt (h.trans (by decide))

lemma userHalf_of_lt (h : a < UPAGES) : userHalf a := by
  rw [userHalf, mod_of_upages h]
  exact decide_eq_true h

variable {k : Nat}

lemma mod_ne_of_kernel (ha : a < UPAGES) (hk : userHalf k = false) :
    k % NPTENTRIES ^ 4 ≠ a % NPTENTRIES ^ 4 := fun heq => by
  rw [userHalf, heq, mod_of_upages ha] at hk
  exact of_decide_eq_false hk ha

lemma mod_ne (ha : a < UPAGES) (hk : k < UPAGES) (h : k ≠ a) :
    k % NPTENTRIES ^ 4 ≠ a % NPTENTRIES ^ 4 := by
  rwa [mod_of_upages ha, mod_of_upages hk]

lemma pages_mono {x y : Nat} (h : x ≤ y) : pages x ≤ pages y :=
  Nat.div_le_div_right (by omega)

lemma pages_le_upages {sz : Nat} (h : sz ≤ UPAGES * PGSIZE) : pages sz ≤ UPAGES :=
  (pages_mono h).trans (by decide)

lemma pgroundup_div {x : Nat} (h : x < KERNBASE) : pgroundup x / PGSIZE = pages x := by
  have hlt : x + PGSIZE - 1 < 2 ^ 64 := by
    simp only [KERNBASE, PGSIZE] at *
    omega
  rw [pgroundup, mod_eq_of_lt hlt, Nat.mul_div_cancel _ (by decide)]
  rfl

/-! ## The account -/

lemma Space.Sound.mem_frames (h : s.Sound m₀ out) (hf : f ∈ frames s.pgdir) : f ∈ m₀.freelist := by
  rw [← mem_coe, ← h.books]
  exact mem_add.mpr (.inl (mem_add.mpr (.inr hf)))

lemma Space.Sound.mem_out (h : s.Sound m₀ out) (hf : f ∈ out) : f ∈ m₀.freelist := by
  rw [← mem_coe, ← h.books]
  exact mem_add.mpr (.inr hf)

lemma mem_frames_of_get {t : Pgdir} {pte : Pte} (h : t.get k = some pte) : pte.frame ∈ frames t :=
  Multiset.mem_of_le (tags_add_le_weight _ h)
    (Multiset.mem_add.mpr (.inr (Multiset.mem_singleton_self _)))

lemma Space.Sound.write (h : s.Sound m₀ out) (hf : f ∈ m₀.freelist) (bytes : ByteMem.Mem) :
    ({ s with kmem := s.kmem.write f bytes } : Space).Sound m₀ out := by
  refine { h with kept := fun g hg => ?_ }
  rw [← h.kept g hg]
  exact update_of_ne (ne_of_mem_of_not_mem hf hg).symm _ _

lemma Space.Sound.kfree (h : s.Sound m₀ ({f} + out)) :
    ({ s with kmem := s.kmem.kfree f } : Space).Sound m₀ out where
  books := by
    rw [← h.books]
    change ((f :: s.kmem.freelist : List Frame) : Multiset Frame) + _ + _ = _
    rw [← cons_coe, ← singleton_add]
    abel
  kept := (h.write (h.mem_out (Multiset.mem_add.mpr (.inl (Multiset.mem_singleton_self f)))) _).kept
  rooted := h.rooted
  half := h.half

lemma kalloc_none (h : m.kalloc = none) : m.freelist = [] := by
  unfold Kmem.kalloc at h
  cases hfree : m.freelist with
  | nil => rfl
  | cons g rest => rw [hfree] at h; cases h

lemma kalloc_some {m' : Kmem} (h : m.kalloc = some (f, m')) :
    m.freelist = f :: m'.freelist ∧ m'.page = m.page := by
  unfold Kmem.kalloc at h
  cases hfree : m.freelist with
  | nil => rw [hfree] at h; cases h
  | cons g rest => rw [hfree] at h; cases h; exact ⟨rfl, rfl⟩

lemma Space.Sound.kalloc (h : s.Sound m₀ out) {m : Kmem} (hm : s.kmem.kalloc = some (f, m)) :
    ({ s with kmem := m } : Space).Sound m₀ ({f} + out) := by
  obtain ⟨hfree, hpage⟩ := kalloc_some hm
  refine ⟨?_, fun g hg => (congrFun hpage g).trans (h.kept g hg), h.rooted, h.half⟩
  rw [← h.books, hfree, ← cons_coe, ← singleton_add]
  abel

lemma setupkvm_some (h : setupkvm m = some s) :
    ∃ f, m.freelist = f :: s.kmem.freelist ∧ s.kmem.page = m.page ∧
      s.pgdir = .node f fun _ => .empty := by
  obtain ⟨⟨f, m'⟩, hm, rfl⟩ := map_eq_some_iff.mp h
  obtain ⟨hfree, hpage⟩ := kalloc_some hm
  exact ⟨f, hfree, hpage, rfl⟩

lemma sound_setupkvm (h : setupkvm m = some s) : s.Sound m 0 := by
  obtain ⟨f, hfree, hpage, hpgdir⟩ := setupkvm_some h
  refine ⟨?_, fun g _ => congrFun hpage g, ⟨_, _, hpgdir⟩, fun k _ => by rw [hpgdir]; rfl⟩
  have hframes : frames s.pgdir = {f} := by simp [hpgdir, frames, weight]
  rw [hframes, hfree, ← cons_coe, ← singleton_add]
  abel

lemma holds_setupkvm (h : setupkvm m = some s) : Holds s.pgdir 0 := by
  obtain ⟨f, -, -, hpgdir⟩ := setupkvm_some h
  intro k _
  rw [hpgdir]
  exact iff_of_false nofun (not_lt_zero k)

lemma grown_setupkvm (h : setupkvm m = some s) : s.pgdir.Grown 0 := by
  obtain ⟨f, -, -, hpgdir⟩ := setupkvm_some h
  rw [hpgdir]
  intro i
  change min _ (0 - _) = 0
  rw [Nat.zero_sub, Nat.min_zero]

/-! ## Shrinking -/

lemma rooted_alter {t : Pgdir} (h : ∃ f e, t = .node f e) (k : Nat) (g : Pte → Option Pte) :
    ∃ f e, t.alter k g = .node f e := by
  obtain ⟨f, e, rfl⟩ := h
  exact ⟨_, _, rfl⟩

lemma Space.Sound.freePage (h : s.Sound m₀ out) (ha : a < UPAGES) :
    (s.freePage a).Sound m₀ out := by
  unfold Space.freePage
  cases hget : s.pgdir.get a with
  | none => exact h
  | some pte => ?_
  have hweight := weight_alter (t := s.pgdir) (fun pte => {pte.frame}) a fun _ => none
  rw [hget] at hweight
  change frames (s.pgdir.alter a fun _ => none) + {pte.frame} = frames s.pgdir + 0 at hweight
  have htaken : (⟨s.kmem, s.pgdir.alter a fun _ => none⟩ : Space).Sound m₀ ({pte.frame} + out) := by
    refine ⟨?_, h.kept, rooted_alter h.rooted a _, fun k hk => ?_⟩
    swap
    · rw [get_alter_ne _ (mod_ne_of_kernel ha hk)]
      exact h.half k hk
    rw [← h.books, ← add_zero (frames s.pgdir), ← hweight]
    abel
  exact htaken.kfree

lemma get_freePage (ha : a < UPAGES) (hk : k < UPAGES) :
    (s.freePage a).pgdir.get k = if k = a then none else s.pgdir.get k := by
  unfold freePage
  by_cases hka : k = a
  · cases hget : s.pgdir.get a with
    | none => rw [if_pos hka, hka, hget]
    | some pte => ?_
    rw [if_pos hka, hka]
    exact (get_alter_self a _).trans (by rw [hget]; rfl)
  · rw [if_neg hka]
    cases s.pgdir.get a with
    | none => rfl
    | some pte => exact get_alter_ne _ (mod_ne ha hk hka)

lemma freePages_spec {n : Nat} : ∀ {a : Nat} {s : Space}, a + n ≤ UPAGES → s.Sound m₀ out →
    ∃ s', freePages n a s = .ok s' ∧ s'.Sound m₀ out ∧
      ∀ k < UPAGES, s'.pgdir.get k = if a ≤ k ∧ k < a + n then none else s.pgdir.get k := by
  induction n with
  | zero =>
    intro a s _ hsound
    exact ⟨s, rfl, hsound, fun k _ => (if_neg (by omega)).symm⟩
  | succ n ih => ?_
  intro a s hle hsound
  have ha : a < UPAGES := by omega
  obtain ⟨s', hok, hsound', hget⟩ := ih (a := a + 1) (by omega) (hsound.freePage ha)
  refine ⟨s', by rw [freePages, if_pos (userHalf_of_lt ha), hok], hsound', fun k hk => ?_⟩
  rw [hget k hk, get_freePage ha hk]
  by_cases hka : k = a
  · rw [if_pos hka, ite_self, if_pos (by omega)]
  rw [if_neg hka]
  exact if_congr (by omega) rfl rfl

lemma deallocuvm_spec {oldsz : Nat} (newsz : Nat) (hold : oldsz ≤ UPAGES * PGSIZE)
    (hsound : s.Sound m₀ out) :
    ∃ s', s.deallocuvm oldsz newsz = .ok (s', min oldsz newsz % 2 ^ 32) ∧ s'.Sound m₀ out ∧
      ∀ k < UPAGES, s'.pgdir.get k =
        if pages newsz ≤ k ∧ k < pages oldsz then none else s.pgdir.get k := by
  unfold deallocuvm
  by_cases hle : oldsz ≤ newsz
  · have hpages := pages_mono hle
    refine ⟨s, by rw [if_pos hle, Nat.min_eq_left hle], hsound, fun k _ => ?_⟩
    exact (if_neg (by omega)).symm
  have hround : pgroundup newsz / PGSIZE = pages newsz :=
    pgroundup_div (lt_of_lt_of_le (not_le.mp hle) (hold.trans (by decide)))
  have hpages := pages_mono (Nat.le_of_not_le hle)
  have htop := pages_le_upages hold
  obtain ⟨s', hok, hsound', hget⟩ :=
    freePages_spec (n := pages oldsz - pages newsz) (a := pages newsz) (by omega) hsound
  refine ⟨s', ?_, hsound', fun k hk => ?_⟩
  · dsimp only
    rw [if_neg hle, hround, hok, Nat.min_eq_right (Nat.le_of_not_le hle)]
    rfl
  · rw [hget k hk, Nat.add_sub_cancel' hpages]

/-! ## Growing -/

def Space.mapped (s : Space) (a : Nat) (pte : Pte) : Space :=
  ⟨{ s.kmem with freelist := s.kmem.freelist.drop (s.pgdir.missing a) },
    (s.pgdir.insert a pte 4 s.kmem.freelist).1⟩

/-- There are pages for the tables that `a` needs. -/
def Space.fits (s : Space) (a : Nat) : Bool := s.pgdir.missing a ≤ s.kmem.freelist.length

section Mapped

variable {a : Nat} {pte : Pte}

lemma insert_outcome (pte : Pte) (hnone : s.pgdir.get a = none) :
    (s.pgdir.insert a pte 4 s.kmem.freelist).2.2 = if s.fits a then .done else .full := by
  have hfull := insert_full_iff a pte 4 s.pgdir s.kmem.freelist
  have hocc := insert_occupied_iff a pte 4 s.pgdir s.kmem.freelist
  rw [hnone] at hocc
  cases hout : (s.pgdir.insert a pte 4 s.kmem.freelist).2.2 with
  | occupied => exact absurd (hocc.mp hout) (by simp)
  | full =>
    have hlt := hfull.mp hout
    rw [if_neg (by simpa [fits] using hlt)]
  | done => ?_
  have hle : s.fits a := by
    by_contra hnot
    exact absurd (hout.symm.trans (hfull.mpr (by simpa [fits] using hnot))) (by simp)
  rw [if_pos hle]

lemma mappages_eq (ha : a < UPAGES) (hnone : s.pgdir.get a = none) :
    s.mappages a pte = .ok (s.mapped a pte, s.fits a) := by
  have hout := insert_outcome pte hnone
  have hfree := free_insert a pte 4 s.pgdir s.kmem.freelist
  unfold mappages mapped
  rw [if_pos (userHalf_of_lt ha), ← hfree]
  generalize s.pgdir.insert a pte 4 s.kmem.freelist = r at hout
  obtain ⟨t, free, o⟩ := r
  obtain rfl : o = _ := hout
  cases s.fits a <;> rfl

lemma get_mapped (ha : a < UPAGES) (hnone : s.pgdir.get a = none) (hk : k < UPAGES) :
    (s.mapped a pte).pgdir.get k = if k = a ∧ s.fits a then some pte else s.pgdir.get k := by
  by_cases hka : k = a
  · have hself := get_insert_self a pte 4 s.pgdir s.kmem.freelist
    rw [insert_outcome pte hnone] at hself
    subst hka
    refine hself.trans ?_
    cases s.fits k <;> simp
  · rw [if_neg fun h => hka h.1]
    exact get_insert_ne pte 4 s.pgdir s.kmem.freelist (mod_ne ha hk hka)

lemma Space.Sound.mapped (h : s.Sound m₀ ({pte.frame} + out)) (ha : a < UPAGES)
    (hnone : s.pgdir.get a = none) :
    (s.mapped a pte).Sound m₀ (if s.fits a then out else {pte.frame} + out) := by
  have hweight := weight_insert (fun pte => {pte.frame}) a pte 4 s.pgdir s.kmem.freelist
  rw [insert_outcome pte hnone, free_insert] at hweight
  refine ⟨?_, h.kept, ?_, fun k hk => ?_⟩
  · rw [← h.books, add_comm ((s.mapped a pte).kmem.freelist : Multiset Frame)]
    refine (congrArg (· + _) hweight).trans ?_
    change frames s.pgdir + _ + _ + _ = _
    cases s.fits a
    · simp only [Bool.false_eq_true, if_false, reduceCtorEq]
      abel
    abel
  · obtain ⟨f, e, he⟩ := h.rooted
    exact ⟨f, _, by rw [Space.mapped, he, insert_node]⟩
  · rw [Space.mapped, get_insert_ne _ _ _ _ (mod_ne_of_kernel ha hk)]
    exact h.half k hk

end Mapped

lemma Holds.none {t : Pgdir} {p : Nat} (h : Holds t p) (hk : k < UPAGES) (hp : p ≤ k) :
    t.get k = none :=
  not_isSome_iff_eq_none.mp fun hsome => not_lt.mpr hp ((h k hk).mp hsome)

lemma Holds.mapped {pte : Pte} (h : Holds s.pgdir a) (ha : a < UPAGES) (hfits : s.fits a) :
    Holds (s.mapped a pte).pgdir (a + 1) := by
  intro k hk
  rw [get_mapped ha (h.none ha le_rfl) hk]
  by_cases hka : k = a
  · rw [if_pos ⟨hka, hfits⟩]
    exact iff_of_true rfl (by omega)
  rw [if_neg fun hc => hka hc.1, h k hk]
  omega

lemma deallocuvm_undo (oldsz : Nat) {newsz : Nat} (hnew : newsz ≤ UPAGES * PGSIZE)
    (ha : a ≤ pages newsz) (hsound : s.Sound m₀ out) (hholds : Holds s.pgdir a) :
    ∃ s' r, s.deallocuvm newsz oldsz = .ok (s', r) ∧ s'.Sound m₀ out ∧
      ∀ k < UPAGES, s'.pgdir.get k = if k < pages oldsz then s.pgdir.get k else none := by
  obtain ⟨s', hok, hsound', hget⟩ := deallocuvm_spec oldsz hnew hsound
  refine ⟨s', _, hok, hsound', fun k hk => ?_⟩
  rw [hget k hk]
  by_cases hkold : k < pages oldsz
  · rw [if_neg (by omega), if_pos hkold]
  rw [if_neg hkold]
  by_cases hknew : k < pages newsz
  · exact if_pos ⟨not_lt.mp hkold, hknew⟩
  · exact (if_neg (by omega)).trans (hholds.none hk (by omega))

/-- The frames that a page table takes for the pages below `p`, the top
table apart. -/
def need (p : Nat) : Nat := p + nodes NPTENTRIES p 3

lemma need_succ (p : Nat) : need (p + 1) = need p + 1 + starts NPTENTRIES p 3 := by
  rw [need, need, nodes_succ]
  omega

lemma need_mono {p q : Nat} (h : p ≤ q) : need p ≤ need q := by
  induction h with
  | refl => exact le_rfl
  | step _ ih => exact ih.trans (by rw [need_succ]; omega)

lemma Space.Sound.missing (h : s.Sound m₀ out) (ha : a < UPAGES) (hgrown : s.pgdir.Grown a) :
    s.pgdir.missing a = starts NPTENTRIES a 3 := by
  obtain ⟨f, e, he⟩ := h.rooted
  rw [he] at hgrown ⊢
  exact Grown.missing (by rwa [mod_of_upages ha])

/-- A page that is allocated, written and mapped as page `a`; `b` tells
whether there were pages for the tables. -/
structure Put (m₀ : Kmem) (out : Multiset Frame) (a : Nat) (mem : Frame) (s s' : Space)
    (b : Bool) : Prop where
  sound : s'.Sound m₀ (if b then out else {mem} + out)
  holds : Holds s'.pgdir (if b then a + 1 else a)
  others : ∀ k < UPAGES, k ≠ a → s'.pgdir.get k = s.pgdir.get k
  enough : s.pgdir.Grown a → (b = true ↔ need (a + 1) ≤ s.kmem.freelist.length + need a)
  left : s.pgdir.Grown a → b = true →
    s'.kmem.freelist.length + need (a + 1) = s.kmem.freelist.length + need a
  grown : s.pgdir.Grown a → b = true → s'.pgdir.Grown (a + 1)

lemma put_spec {mem : Frame} {kmem : Kmem} (ha : a < UPAGES) (hsound : s.Sound m₀ out)
    (hholds : Holds s.pgdir a) (hkalloc : s.kmem.kalloc = some (mem, kmem)) (bytes : ByteMem.Mem)
    (pte : Pte) (hpte : pte.frame = mem) :
    ∃ s' b, ({ s with kmem := kmem.write mem bytes } : Space).mappages a pte = .ok (s', b) ∧
      Put m₀ out a mem s s' b := by
  obtain ⟨hfree, -⟩ := kalloc_some hkalloc
  have hnone := hholds.none ha le_rfl
  have hin := (hsound.kalloc hkalloc).mem_out
    (Multiset.mem_add.mpr (.inl (Multiset.mem_singleton_self mem)))
  have hsound' := (hsound.kalloc hkalloc).write hin bytes
  generalize ht : ({ s with kmem := kmem.write mem bytes } : Space) = t at hsound'
  have hpgdir : t.pgdir = s.pgdir := by rw [← ht]
  have hlist : s.kmem.freelist.length = t.kmem.freelist.length + 1 := by rw [hfree, ← ht]; rfl
  rw [← hpgdir] at hholds hnone
  subst hpte
  have hmiss : t.pgdir.Grown a → t.pgdir.missing a = starts NPTENTRIES a 3 := hsound'.missing ha
  refine ⟨_, _, mappages_eq ha hnone, hsound'.mapped ha hnone, ?_, fun k hk hka => ?_, ?_, ?_, ?_⟩
  · cases hfits : t.fits a with
    | true => exact hholds.mapped ha hfits
    | false => ?_
    intro k hk
    rw [get_mapped ha hnone hk, hfits, if_neg nofun]
    exact hholds k hk
  · rw [get_mapped ha hnone hk, if_neg fun hc => hka hc.1, hpgdir]
  · rw [← hpgdir]
    intro hgrown
    rw [fits, decide_eq_true_iff, hmiss hgrown, need_succ]
    omega
  · rw [← hpgdir]
    intro hgrown hfits
    rw [fits, decide_eq_true_iff, hmiss hgrown] at hfits
    rw [need_succ, mapped, length_drop, hmiss hgrown]
    omega
  rw [← hpgdir]
  intro hgrown hfits
  have hmod := mod_of_upages ha
  have hdone := insert_outcome pte hnone
  rw [if_pos hfits] at hdone
  have hdense := Grown.insert t.kmem.freelist (by rwa [hmod]) hdone
  rw [hmod] at hdense
  exact hdense.grown

/-- What `allocuvm` has done when it ends with `b`: the pages up to `newsz`
are mapped, or those from `oldsz` on are gone again. -/
structure Grew (m₀ : Kmem) (out : Multiset Frame) (oldsz newsz a : Nat) (s s' : Space)
    (b : Bool) : Prop where
  sound : s'.Sound m₀ out
  holds : b = true → Holds s'.pgdir (pages newsz)
  below : ∀ k < UPAGES, k < pages oldsz → s'.pgdir.get k = s.pgdir.get k
  undone : b = false → ∀ k < UPAGES, pages oldsz ≤ k → s'.pgdir.get k = none
  enough : s.pgdir.Grown a →
    (b = true ↔ need (pages newsz) ≤ s.kmem.freelist.length + need a)
  left : s.pgdir.Grown a → b = true →
    s'.kmem.freelist.length + need (pages newsz) = s.kmem.freelist.length + need a
  grown : s.pgdir.Grown a → b = true → s'.pgdir.Grown (pages newsz)

lemma allocPages_spec {oldsz newsz : Nat} (hnew : newsz ≤ UPAGES * PGSIZE) {n : Nat} :
    ∀ {a : Nat} {s : Space}, a + n = pages newsz → pages oldsz ≤ a → s.Sound m₀ out →
      Holds s.pgdir a →
      ∃ s' b, allocPages oldsz newsz n a s = .ok (s', b) ∧ Grew m₀ out oldsz newsz a s s' b := by
  induction n with
  | zero =>
    intro a s hn _ hsound hholds
    obtain rfl : a = pages newsz := hn
    exact ⟨s, true, rfl, hsound, fun _ => hholds, fun _ _ _ => rfl, nofun,
      fun _ => iff_of_true rfl (by omega), fun _ _ => rfl, fun hgrown _ => hgrown⟩
  | succ n ih => ?_
  intro a s hn hold hsound hholds
  have ha : a < UPAGES := by
    have := pages_le_upages hnew
    omega
  have hmore := need_mono (show a + 1 ≤ pages newsz by omega)
  cases hkalloc : s.kmem.kalloc with
  | none =>
    obtain ⟨s', r, hok, hsound', hget⟩ :=
      deallocuvm_undo oldsz hnew (by omega) hsound hholds
    refine ⟨s', false, by rw [allocPages, hkalloc, hok]; rfl, hsound', nofun,
      fun k hk hkold => (hget k hk).trans (if_pos hkold),
      fun _ k hk hkold => (hget k hk).trans (if_neg (not_lt.mpr hkold)),
      fun _ => iff_of_false nofun ?_, nofun, nofun⟩
    rw [kalloc_none hkalloc, length_nil]
    rw [need_succ] at hmore
    omega
  | some r => ?_
  obtain ⟨mem, kmem⟩ := r
  obtain ⟨t, b, hmap, hput⟩ := put_spec ha hsound hholds hkalloc
    (ByteMem.fill (kmem.page mem) 0 0 PGSIZE) ⟨mem, true, true⟩ rfl
  cases b with
  | true =>
    obtain ⟨s', b, hok, hgrew⟩ := ih (a := a + 1) (by omega) (by omega) hput.sound hput.holds
    refine ⟨s', b, ?_, hgrew.sound, hgrew.holds, fun k hk hkold => ?_, hgrew.undone,
      fun hgrown => ?_, fun hgrown hb => ?_,
      fun hgrown => hgrew.grown (hput.grown hgrown rfl)⟩
    · rw [allocPages, hkalloc]
      exact (congrArg (· >>= _) hmap).trans hok
    · rw [hgrew.below k hk hkold, hput.others k hk (by omega)]
    · rw [hgrew.enough (hput.grown hgrown rfl), hput.left hgrown rfl]
    · rw [hgrew.left (hput.grown hgrown rfl) hb, hput.left hgrown rfl]
  | false => ?_
  obtain ⟨t', r, hok, hsound', hget⟩ :=
    deallocuvm_undo oldsz (a := a) hnew (by omega) hput.sound hput.holds
  refine ⟨{ t' with kmem := t'.kmem.kfree mem }, false, ?_, hsound'.kfree, nofun,
    fun k hk hkold => ?_, fun _ k hk hkold => ?_, fun hgrown => ?_, nofun, nofun⟩
  · rw [allocPages, hkalloc]
    refine (congrArg (· >>= _) hmap).trans ?_
    change (t.deallocuvm newsz oldsz >>= _) = _
    rw [hok]
    rfl
  · rw [hget k hk, if_pos hkold, hput.others k hk (by omega)]
  · exact (hget k hk).trans (if_neg (not_lt.mpr hkold))
  · have := (hput.enough hgrown).not.mp nofun
    exact iff_of_false nofun (by omega)

lemma allocuvm_spec {oldsz newsz : Nat} (hnew : newsz ≤ UPAGES * PGSIZE) (hle : oldsz ≤ newsz)
    (hsound : s.Sound m₀ out) (hholds : Holds s.pgdir (pages oldsz)) :
    ∃ s' b, s.allocuvm oldsz newsz = .ok (s', if b then newsz % 2 ^ 32 else 0) ∧
      Grew m₀ out oldsz newsz (pages oldsz) s s' b := by
  have hlt : newsz < KERNBASE := lt_of_le_of_lt hnew (by decide)
  have hpages := pages_mono hle
  obtain ⟨s', b, hok, hgrew⟩ :=
    allocPages_spec (n := pages newsz - pages oldsz) hnew (by omega) le_rfl hsound hholds
  refine ⟨s', b, ?_, hgrew⟩
  unfold allocuvm
  dsimp only
  rw [if_neg (Nat.not_le_of_lt hlt), if_neg (not_lt.mpr hle),
    pgroundup_div (lt_of_le_of_lt hle hlt), hok]
  rfl

/-! ## Freeing a page table -/

lemma foldl_kfree : ∀ (l : List Frame) (m : Kmem),
    (l.foldl Kmem.kfree m).freelist = l.reverse ++ m.freelist ∧
      ∀ g ∉ l, (l.foldl Kmem.kfree m).page g = m.page g
  | [], _ => ⟨rfl, fun _ _ => rfl⟩
  | f :: l, m => by
    obtain ⟨hfree, hpage⟩ := foldl_kfree l (m.kfree f)
    refine ⟨?_, fun g hg => ?_⟩
    · rw [List.foldl_cons, hfree, List.reverse_cons, List.append_assoc]
      rfl
    rw [List.foldl_cons, hpage g fun h => hg (List.mem_cons_of_mem f h)]
    exact Function.update_of_ne (List.ne_of_not_mem_cons hg) _ _

lemma Space.Sound.tags_sub (h : s.Sound m₀ out) {g : Frame} (hg : g ∈ s.pgdir.tags) :
    g ∈ m₀.freelist := by
  refine h.mem_frames (mem_of_le (weight_mono (fun _ => zero_le _) _) ?_)
  rwa [← coe_tags, mem_coe]

lemma freeTables_perm_iff (hsound : s.Sound m₀ 0) :
    s.freeTables.freelist.Perm m₀.freelist ↔ ∀ k < UPAGES, s.pgdir.get k = none := by
  have hlist : (s.freeTables.freelist : Multiset Frame) =
      (s.kmem.freelist : Multiset Frame) + s.pgdir.tags := by
    rw [freeTables, (foldl_kfree _ _).1, ← coe_add, coe_reverse, add_comm]
  have hbooks := hsound.books
  rw [add_zero] at hbooks
  rw [← coe_eq_coe, hlist, ← hbooks]
  constructor
  · intro heq k hk
    cases hget : s.pgdir.get k with
    | none => rfl
    | some pte => ?_
    have hle := tags_add_le_weight (fun pte : Pte => {pte.frame}) hget
    have hcard := card_le_card hle
    have := congrArg Multiset.card (add_left_cancel heq)
    change _ = Multiset.card (s.pgdir.weight _) at this
    rw [card_add, card_singleton, ← this] at hcard
    omega
  · intro hnone
    refine congrArg _ (weight_of_get_none _ fun k => ?_).symm
    cases hhalf : userHalf k with
    | false => exact hsound.half k hhalf
    | true => ?_
    have hlt : k % NPTENTRIES ^ 4 < UPAGES := of_decide_eq_true hhalf
    rw [← hnone _ hlt]
    exact get_congr (mod_mod ..).symm

/-- What `freevm` gives back: everything, if it reaches every page that is
mapped, and not everything otherwise. -/
lemma freevm_spec {utop : Nat} (htop : utop ≤ UPAGES * PGSIZE) (hsound : s.Sound m₀ 0) :
    ∃ m, s.freevm utop = .ok m ∧ (∀ f ∉ m₀.freelist, m.page f = m₀.page f) ∧
      (m.freelist.Perm m₀.freelist ↔ ∀ k < UPAGES, pages utop ≤ k → s.pgdir.get k = none) := by
  obtain ⟨t, hok, hsound', hget⟩ := deallocuvm_spec 0 htop hsound
  refine ⟨t.freeTables, ?_, fun f hf => ?_, ?_⟩
  · obtain ⟨f, e, he⟩ := hsound.rooted
    unfold freevm
    rw [he, hok]
    rfl
  · rw [freeTables, (foldl_kfree _ _).2 f fun hmem => hf (hsound'.tags_sub hmem)]
    exact hsound'.kept f hf
  rw [freeTables_perm_iff hsound']
  refine forall_congr' fun k => forall_congr' fun hk => ?_
  rw [hget k hk]
  by_cases hkt : k < pages utop
  · rw [if_pos ⟨zero_le k, hkt⟩]
    exact iff_of_true rfl fun hle => absurd hkt (not_lt.mpr hle)
  rw [if_neg fun h => hkt h.2]
  exact ⟨fun h _ => h, fun h => h (not_lt.mp hkt)⟩

/-! ## Copying -/

/-- What is mapped are copies of pages of the parent. -/
def Copies (m₀ : Kmem) (parent : Pgdir) (s : Space) : Prop :=
  ∀ k < UPAGES, ∀ pte, s.pgdir.get k = some pte → ∃ f,
    parent.get k = some { pte with frame := f } ∧ s.kmem.page pte.frame = m₀.page f

lemma Space.Sound.free_ne (h : s.Sound m₀ out) (hnodup : m₀.freelist.Nodup) {g : Frame}
    (hf : f ∈ s.kmem.freelist) (hg : g ∈ frames s.pgdir) : g ≠ f := by
  rintro rfl
  rw [← coe_nodup, ← h.books, add_assoc] at hnodup
  exact disjoint_left.mp (nodup_add.mp hnodup).2.2 hf (mem_add.mpr (.inl hg))

lemma Copies.put {parent : Pgdir} {mem : Frame} {kmem : Kmem} {pte : Pte} {t : Space}
    (h : Copies m₀ parent s) (ha : a < UPAGES) (hsound : s.Sound m₀ out) (hholds : Holds s.pgdir a)
    (hnodup : m₀.freelist.Nodup) (hpte : parent.get a = some pte) (hown : pte.frame ∉ m₀.freelist)
    (hkalloc : s.kmem.kalloc = some (mem, kmem))
    (hmap : ({ s with kmem := kmem.write mem (kmem.page pte.frame) } : Space).mappages a
      { pte with frame := mem } = .ok (t, true)) : Copies m₀ parent t := by
  obtain ⟨hfree, hpage⟩ := kalloc_some hkalloc
  have hnone : ({ s with kmem := kmem.write mem (kmem.page pte.frame) } : Space).pgdir.get a =
      none := hholds.none ha le_rfl
  rw [mappages_eq ha hnone] at hmap
  obtain ⟨rfl, hfits⟩ := Prod.mk.inj (Except.ok.inj hmap)
  intro k hk pte' hget
  rw [get_mapped ha hnone hk, hfits] at hget
  by_cases hka : k = a
  · rw [if_pos ⟨hka, rfl⟩] at hget
    cases hget
    refine ⟨pte.frame, hka ▸ hpte, (update_self ..).trans ?_⟩
    rw [hpage, hsound.kept _ hown]
  rw [if_neg fun hc => hka hc.1] at hget
  obtain ⟨f, hf, heq⟩ := h k hk pte' hget
  refine ⟨f, hf, (update_of_ne ?_ ..).trans (hpage ▸ heq)⟩
  exact hsound.free_ne hnodup (hfree ▸ mem_cons_self) (mem_frames_of_get hget)

lemma copyPages_spec {parent : Pgdir} {p : Nat} (hparent : Holds parent p) (hp : p ≤ UPAGES)
    {n : Nat} : ∀ {a : Nat} {s : Space}, a + n = p → s.Sound m₀ 0 → Holds s.pgdir a →
      ∃ s' b q, copyPages parent n a s = .ok (s', b) ∧ s'.Sound m₀ 0 ∧ Holds s'.pgdir q ∧ q ≤ p ∧
        (b → q = p ∧ (m₀.freelist.Nodup → (∀ f ∈ frames parent, f ∉ m₀.freelist) →
          Copies m₀ parent s → Copies m₀ parent s')) := by
  induction n with
  | zero =>
    intro a s hn hsound hholds
    exact ⟨s, true, a, rfl, hsound, hholds, hn.le, fun _ => ⟨hn, fun _ _ h => h⟩⟩
  | succ n ih => ?_
  intro a s hn hsound hholds
  have ha : a < UPAGES := by omega
  obtain ⟨pte, hpte⟩ := isSome_iff_exists.mp ((hparent a ha).mpr (by omega))
  have hslot := slot_of_get hpte
  cases hkalloc : s.kmem.kalloc with
  | none =>
    refine ⟨s, false, a, ?_, hsound, hholds, by omega, nofun⟩
    rw [copyPages, if_pos (userHalf_of_lt ha), hslot, hkalloc]
  | some r => ?_
  obtain ⟨mem, kmem⟩ := r
  obtain ⟨t, b, hmap, hput⟩ := put_spec ha hsound hholds hkalloc
    (kmem.page pte.frame) { pte with frame := mem } rfl
  cases b with
  | true =>
    obtain ⟨s', b, q, hok, hsound', hholds', hq, hall⟩ :=
      ih (a := a + 1) (by omega) hput.sound hput.holds
    refine ⟨s', b, q, ?_, hsound', hholds', hq, fun hb => ⟨(hall hb).1, ?_⟩⟩
    · rw [copyPages, if_pos (userHalf_of_lt ha), hslot, hkalloc]
      exact (congrArg (· >>= _) hmap).trans hok
    intro hnodup hown h
    exact (hall hb).2 hnodup hown (h.put ha hsound hholds hnodup hpte
      (hown _ (mem_frames_of_get hpte)) hkalloc hmap)
  | false =>
    refine ⟨{ t with kmem := t.kmem.kfree mem }, false, a, ?_, hput.sound.kfree,
      hput.holds, by omega, nofun⟩
    rw [copyPages, if_pos (userHalf_of_lt ha), hslot, hkalloc]
    exact (congrArg (· >>= _) hmap).trans rfl

lemma copyuvm_spec {parent : Pgdir} {sz : Nat} (hparent : Holds parent (pages sz))
    (hsz : sz ≤ UPAGES * PGSIZE) :
    ∃ m' t, copyuvm m parent sz = .ok (m', t) ∧ (∀ f ∉ m.freelist, m'.page f = m.page f) ∧
      (t = .empty ∧ m'.freelist.Perm m.freelist ∨
        (⟨m', t⟩ : Space).Sound m 0 ∧ Holds t (pages sz) ∧ (m.freelist.Nodup →
          (∀ f ∈ frames parent, f ∉ m.freelist) → Copies m parent ⟨m', t⟩)) := by
  cases hsetup : setupkvm m with
  | none => exact ⟨m, .empty, by rw [copyuvm, hsetup], fun _ _ => rfl, .inl ⟨rfl, .refl _⟩⟩
  | some s => ?_
  obtain ⟨t, b, q, hok, hsound, hholds, hq, hall⟩ :=
    copyPages_spec hparent (pages_le_upages hsz) (zero_add _) (sound_setupkvm hsetup)
      (holds_setupkvm hsetup)
  cases b with
  | true =>
    obtain ⟨rfl, hcopies⟩ := hall rfl
    refine ⟨t.kmem, t.pgdir, ?_, hsound.kept, .inr ⟨hsound, hholds, fun hnodup hown => ?_⟩⟩
    · rw [copyuvm, hsetup]
      exact (congrArg (· >>= _) hok).trans rfl
    refine hcopies hnodup hown fun k hk pte hget => ?_
    exact absurd (hget ▸ (holds_setupkvm hsetup).none hk (zero_le k)) nofun
  | false => ?_
  obtain ⟨m', hfreevm, hkept, hperm⟩ := freevm_spec hsz hsound
  refine ⟨m', .empty, ?_, hkept, .inl ⟨rfl, hperm.mpr fun k hk hle => hholds.none hk (by omega)⟩⟩
  rw [copyuvm, hsetup]
  refine (congrArg (· >>= _) hok).trans ?_
  change (t.freevm sz >>= _) = _
  rw [hfreevm]
  rfl

end Proninx.Vm
