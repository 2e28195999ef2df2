import Proninx.Kern.Boot.Bootinfo
import Proninx.Lib.LargePages

/-!
# The kernel's page table

`kvmalloc` of `vm.c`: the direct map over the spans of real memory, the
kernel image, and the top level entry of the ioremap window. Addresses are
page aligned everywhere and are counted in pages where tables are meant;
`free` is the number of pages that `kalloc` still has.
-/

namespace Proninx.Boot

open LargePages Nat Option Vm

def SIZE_2M : Nat := 0x200000

/-- The pages that four levels of tables translate. -/
def PAGES : Nat := NPTENTRIES ^ 4

/-- The page table: `true` is `PTE_W`. -/
abbrev Pml4 : Type := Entry Bool

/-- Where an address is mapped to. -/
def translate (pgdir : Pml4) (va : Nat) : Option Nat :=
  (get NPTENTRIES 4 pgdir (va / PGSIZE)).map fun f => f * PGSIZE + va % PGSIZE

/-- The size of the next page: a leaf of level 2 is 1G, one of level 1 is
2M. -/
def pageLevel (have1g : Bool) (v f n : Nat) : Nat :=
  if have1g ∧ v % NPTENTRIES ^ 2 = 0 ∧ f % NPTENTRIES ^ 2 = 0 ∧ n ≥ NPTENTRIES ^ 2 then 2
  else if v % NPTENTRIES = 0 ∧ f % NPTENTRIES = 0 ∧ n ≥ NPTENTRIES then 1
  else 0

/-- The loop of `map_range` for `n` pages; `none` where `do_walk` fails. -/
def mapLoop {π : Type} (have1g : Bool) (perm : π) :
    (rounds : Nat) → Entry π → (free v f n : Nat) → Option (Entry π × Nat)
  | 0, e, free, _, _, _ => some (e, free)
  | rounds + 1, e, free, v, f, n =>
    if n = 0 then some (e, free)
    else
      let level := pageLevel have1g v f n
      match walk NPTENTRIES level v (fun _ => .leaf f perm) 4 e free with
      | none => none
      | some (e, free) =>
        let size := NPTENTRIES ^ level
        mapLoop have1g perm rounds e free ((v + size) % 2 ^ 52) (f + size) (n - size)

def mapRange {π : Type} (have1g : Bool) (perm : π) (e : Entry π) (free va pa size : Nat) :
    Option (Entry π × Nat) :=
  let n := pgroundup size / PGSIZE
  mapLoop have1g perm n e free (va / PGSIZE) (pa / PGSIZE) n

/-! ## The sweep over the ranges -/

/-- Ranges that follow each other in the map, each starting no higher than
the ends before it: the highest end, and the start of the first RAM. -/
structure Span where
  stop : Nat
  ram : Option Nat
  deriving DecidableEq, Repr

def Span.single (r : MemRange) : Span := ⟨r.stop, if r.type = .ram then some r.base else none⟩

def Span.add (s : Span) (r : MemRange) : Span :=
  ⟨if r.stop > s.stop then r.stop else s.stop,
    match s.ram with
    | none => if r.type = .ram then some r.base else none
    | some base => some base⟩

/-- The spans of a map, after the span under way. -/
def spansFrom (s : Span) : List MemRange → List Span
  | [] => [s]
  | r :: rs => if r.base > s.stop then s :: spansFrom (.single r) rs else spansFrom (s.add r) rs

def spans : List MemRange → List Span
  | [] => []
  | r :: rs => spansFrom (.single r) rs

/-- The first byte of a span that is mapped. -/
def spanLo (base : Nat) : Nat := base / SIZE_2M * SIZE_2M

/-- Its end, not above `phys_map_top`. -/
def spanHi (mapTop : Nat) (s : Span) : Nat :=
  let hi := (s.stop + SIZE_2M - 1) % 2 ^ 64 / SIZE_2M * SIZE_2M
  if hi > mapTop then mapTop else hi

/-- The parts of the direct map, each above those before. -/
def parts (mapTop : Nat) : (done : Nat) → List Span → List (Nat × Nat)
  | _, [] => []
  | done, s :: ss =>
    match s.ram with
    | none => parts mapTop done ss
    | some base =>
      let hi := spanHi mapTop s
      let lo := if spanLo base < done then done else spanLo base
      if lo ≥ hi then parts mapTop done ss else (lo, hi) :: parts mapTop hi ss

def mapPart (have1g : Bool) (s : Pml4 × Nat) (part : Nat × Nat) : Option (Pml4 × Nat) :=
  mapRange have1g true s.1 s.2 (p2v part.1) part.1 (part.2 - part.1)

/-- The kernel image: the first megabyte, the text, and from `data` on. -/
def mapImage (have1g : Bool) (img : Image) (s : Pml4 × Nat) : Option (Pml4 × Nat) := do
  let s ← mapRange have1g true s.1 s.2 KERNBASE 0 EXTMEM
  let s ← mapRange have1g false s.1 s.2 KERNLINK EXTMEM (img.data - EXTMEM)
  mapRange have1g true s.1 s.2 (KERNBASE + img.data) img.data (pgroundup img.stop - img.data)

/-- `kvmalloc` with `phys_map_top` and the free pages; `none` is a panic. -/
def kvmalloc (have1g : Bool) (img : Image) (mem : List MemRange) (mapTop free : Nat) :
    Option (Pml4 × Nat) :=
  if free = 0 then none
  else if parts mapTop 0 (spans mem) = [] then none
  else do
    let s ← (parts mapTop 0 (spans mem)).foldlM (mapPart have1g)
      (.table fun _ => .empty, free - 1)
    let s ← mapImage have1g img s
    walk NPTENTRIES 2 (IOMAP_BASE / PGSIZE) id 4 s.1 s.2

/-! ## What `map_range` maps -/

/-- The last of the `n` pages from `v` on that has the place of page `k`. -/
@[mk_iff]
structure LastAt (v n k j : Nat) : Prop where
  lt : j < n
  at_ : (v + j) % PAGES = k % PAGES
  last : ∀ i, i < n → (v + i) % PAGES = k % PAGES → i ≤ j

/-- None of the `n` pages from `v` on has the place of page `k`. -/
def Misses (v n k : Nat) : Prop := ∀ j, j < n → (v + j) % PAGES ≠ k % PAGES

/-- `e'` has the `n` pages from `v` on at the frames from `f` on, where they
go round the tables the last one, and the other pages where `e` has them. -/
def Maps (e e' : Pml4) (v n f : Nat) : Prop :=
  ∀ k q, get NPTENTRIES 4 e' k = some q ↔
    (∃ j, LastAt v n k j ∧ q = f + j) ∨ Misses v n k ∧ get NPTENTRIES 4 e k = some q

/-- The same for any map: page `j` from `v` on goes to `r j`. -/
def Sets {α : Type} (g g' : Nat → Option α) (v n : Nat) (r : Nat → α) : Prop :=
  ∀ k q, g' k = some q ↔ (∃ j, LastAt v n k j ∧ q = r j) ∨ Misses v n k ∧ g k = some q

variable {have1g : Bool} {free free' v f n k : Nat}

lemma pageLevel_spec (hn : 0 < n) :
    pageLevel have1g v f n ≤ 4 ∧ NPTENTRIES ^ pageLevel have1g v f n ∣ v ∧
      NPTENTRIES ^ pageLevel have1g v f n ≤ n := by
  unfold pageLevel
  split_ifs with h1 h2
  · exact ⟨by decide, dvd_of_mod_eq_zero h1.2.1, h1.2.2.2⟩
  · exact ⟨by decide, dvd_of_mod_eq_zero (by simpa using h2.1), by simpa using h2.2.2⟩
  · exact ⟨by decide, one_dvd v, hn⟩

lemma misses_add {m : Nat} : Misses v (m + n) k ↔ Misses v m k ∧ Misses (v + m) n k := by
  constructor
  · intro h
    refine ⟨fun j hj => h j (by omega), fun j hj => ?_⟩
    rw [add_assoc]
    exact h (m + j) (by omega)
  rintro ⟨hm, hn⟩ j hj
  rcases lt_or_ge j m with hlt | hge
  · exact hm j hlt
  have := hn (j - m) (by omega)
  rwa [add_assoc, Nat.add_sub_cancel' hge] at this

lemma lastAt_add {m j : Nat} : LastAt v (m + n) k j ↔
      (∃ i, LastAt (v + m) n k i ∧ j = m + i) ∨ LastAt v m k j ∧ Misses (v + m) n k := by
  constructor
  · rintro ⟨hlt, hat, hlast⟩
    have hrest : ∀ i < n, (v + m + i) % PAGES = k % PAGES → m + i ≤ j := fun i hi hk =>
      hlast (m + i) (by omega) (by rwa [← add_assoc])
    rcases lt_or_ge j m with hj | hj
    · refine .inr ⟨⟨hj, hat, fun i hi => hlast i (by omega)⟩, fun i hi hk => ?_⟩
      have := hrest i hi hk
      omega
    refine .inl ⟨j - m, ⟨by omega, ?_, fun i hi hk => ?_⟩, by omega⟩
    · rwa [add_assoc, Nat.add_sub_cancel' hj]
    have := hrest i hi hk
    omega
  · rintro (⟨i, ⟨hlt, hat, hlast⟩, rfl⟩ | ⟨⟨hlt, hat, hlast⟩, hmiss⟩)
    · refine ⟨by omega, by rwa [← add_assoc], fun i' hi' hk => ?_⟩
      rcases lt_or_ge i' m with hlow | hhigh
      · omega
      have := hlast (i' - m) (by omega) (by rwa [add_assoc, Nat.add_sub_cancel' hhigh])
      omega
    · refine ⟨by omega, hat, fun i hi hk => ?_⟩
      rcases lt_or_ge i m with hlow | hhigh
      · exact hlast i hlow hk
      · exact absurd (by rwa [add_assoc, Nat.add_sub_cancel' hhigh]) (hmiss (i - m) (by omega))

lemma mod_pages (v j : Nat) : (v % 2 ^ 52 + j) % PAGES = (v + j) % PAGES := by
  rw [add_mod, mod_mod_of_dvd v (show PAGES ∣ 2 ^ 52 by decide), ← add_mod]

lemma lastAt_mod {j : Nat} : LastAt (v % 2 ^ 52) n k j ↔ LastAt v n k j := by
  rw [lastAt_iff, lastAt_iff]
  simp only [mod_pages]

lemma misses_mod : Misses (v % 2 ^ 52) n k ↔ Misses v n k := by
  unfold Misses
  simp only [mod_pages]

section

variable {α : Type} {g g' g'' : Nat → Option α} {r : Nat → α}

lemma Sets.nothing (g : Nat → Option α) (v : Nat) (r : Nat → α) : Sets g g v 0 r := fun _ _ =>
  ⟨fun hq => .inr ⟨fun _ hj => absurd hj (Nat.not_lt_zero _), hq⟩, fun hq =>
    hq.elim (fun ⟨_, hj, _⟩ => absurd hj.lt (Nat.not_lt_zero _)) And.right⟩

lemma Sets.trans {m : Nat} (h : Sets g g' v m r)
    (h' : Sets g' g'' (v + m) n fun j => r (m + j)) : Sets g g'' v (m + n) r := by
  intro k q
  rw [h' k q, h k q, misses_add]
  simp only [lastAt_add]
  constructor
  · rintro (⟨j, hj, rfl⟩ | ⟨hmiss, ⟨j, hj, rfl⟩ | ⟨hmiss', hq⟩⟩)
    · exact .inl ⟨m + j, .inl ⟨j, hj, rfl⟩, rfl⟩
    · exact .inl ⟨j, .inr ⟨hj, hmiss⟩, rfl⟩
    · exact .inr ⟨⟨hmiss', hmiss⟩, hq⟩
  rintro (⟨j, ⟨i, hi, rfl⟩ | ⟨hj, hmiss⟩, rfl⟩ | ⟨⟨hmiss', hmiss⟩, hq⟩)
  · exact .inl ⟨i, hi, rfl⟩
  · exact .inr ⟨hmiss, .inl ⟨j, hj, rfl⟩⟩
  · exact .inr ⟨hmiss, .inr ⟨hmiss', hq⟩⟩

lemma sets_mod : Sets g g' (v % 2 ^ 52) n r ↔ Sets g g' v n r := by
  unfold Sets
  simp only [lastAt_mod, misses_mod]

end

lemma Maps.trans {e e' e'' : Pml4} {m : Nat} (h : Maps e e' v m f)
    (h' : Maps e' e'' (v + m) n (f + m)) : Maps e e'' v (m + n) f :=
  Sets.trans h fun k q => by rw [h' k q]; simp only [add_assoc]

section

variable {π : Type} {perm : π} {e e' : Entry π}

lemma walk_sets {level : Nat} (hlevel : level ≤ 4) (hdvd : NPTENTRIES ^ level ∣ v)
    (h : walk NPTENTRIES level v (fun _ => .leaf f perm) 4 e free = some (e', free')) :
    Sets (look NPTENTRIES 4 e) (look NPTENTRIES 4 e') v (NPTENTRIES ^ level)
      fun j => (f + j, perm) := by
  intro k q
  rw [look_walk_leaf (by decide) hlevel hdvd h]
  refine or_congr ⟨?_, ?_⟩ .rfl
  · rintro ⟨j, hj, hat, rfl⟩
    refine ⟨j, ⟨hj, hat, fun i hi hk => le_of_eq ?_⟩, rfl⟩
    rw [offset_eq hlevel hdvd hi hk, offset_eq hlevel hdvd hj hat]
  · rintro ⟨j, hj, rfl⟩
    exact ⟨j, hj.lt, hj.at_, rfl⟩

lemma mapLoop_sets {rounds : Nat} (hrounds : n ≤ rounds)
    (h : mapLoop have1g perm rounds e free v f n = some (e', free')) :
    Sets (look NPTENTRIES 4 e) (look NPTENTRIES 4 e') v n fun j => (f + j, perm) := by
  induction rounds generalizing e free v f n with
  | zero =>
    obtain rfl : n = 0 := Nat.le_zero.mp hrounds
    rw [mapLoop] at h
    cases h
    exact .nothing _ v _
  | succ rounds ih => ?_
  rw [mapLoop] at h
  split_ifs at h with hn
  · subst hn
    cases h
    exact .nothing _ v _
  obtain ⟨hlevel, hdvd, hle⟩ := @pageLevel_spec have1g v f _ (Nat.pos_of_ne_zero hn)
  have hpos : 0 < NPTENTRIES ^ pageLevel have1g v f n := Nat.pow_pos (by decide)
  dsimp only at h
  split at h
  · cases h
  rename_i e1 free1 hwalk
  have hrest := sets_mod.mp (ih (by omega) h)
  simp only [add_assoc] at hrest
  have hall := (walk_sets hlevel hdvd hwalk).trans hrest
  rwa [Nat.add_sub_cancel' hle] at hall

end

lemma mapRange_maps {perm : Bool} {e e' : Pml4} {va pa size : Nat}
    (hva : va / PGSIZE = v % 2 ^ 52) (hpa : pa / PGSIZE = f)
    (hsize : size = n * PGSIZE) (hlt : size < 2 ^ 63)
    (h : mapRange have1g perm e free va pa size = some (e', free')) : Maps e e' v n f := by
  have hn : pgroundup size / PGSIZE = n := by
    unfold pgroundup PGSIZE at *
    omega
  rw [mapRange, hn, hva, hpa] at h
  have hsets := sets_mod.mp (mapLoop_sets le_rfl h)
  intro k q
  simp only [get_eq_look, map_eq_some_iff, hsets k]
  constructor
  · rintro ⟨a, ⟨j, hj, rfl⟩ | ⟨hmiss, ha⟩, rfl⟩
    · exact .inl ⟨j, hj, rfl⟩
    · exact .inr ⟨hmiss, a, ha, rfl⟩
  rintro (⟨j, hj, rfl⟩ | ⟨hmiss, a, ha, rfl⟩)
  · exact ⟨_, .inl ⟨j, hj, rfl⟩, rfl⟩
  · exact ⟨a, .inr ⟨hmiss, ha⟩, rfl⟩

/-! ## Byte by byte -/

/-- Where an address is mapped to and with which permission. -/
def lookup {π : Type} (pgdir : Entry π) (va : Nat) : Option (Nat × π) :=
  (look NPTENTRIES 4 pgdir (va / PGSIZE)).map fun q => (q.1 * PGSIZE + va % PGSIZE, q.2)

/-- The addresses that the processor translates: bits 48 to 63 are copies of
bit 47. -/
def Canonical (va : Nat) : Prop := va < 2 ^ 47 ∨ 2 ^ 64 - 2 ^ 47 ≤ va ∧ va < 2 ^ 64

/-- In one half of the addresses `map_range` is the mapping of every byte of
the range, and of nothing else. -/
theorem mapRange_lookup {π : Type} (have1g : Bool) (perm : π) (e e' : Entry π)
    (free free' va pa size : Nat) (hva : va % PGSIZE = 0) (hpa : pa % PGSIZE = 0)
    (hhalf : va + pgroundup size ≤ 2 ^ 47 ∨ 2 ^ 64 - 2 ^ 47 ≤ va ∧ va + pgroundup size ≤ 2 ^ 64)
    (hphys : pa + pgroundup size ≤ 2 ^ 52)
    (h : mapRange have1g perm e free va pa size = some (e', free')) (a : Nat) (ha : Canonical a) :
    lookup e' a = if va ≤ a ∧ a < va + pgroundup size then some (pa + (a - va), perm)
      else lookup e a := by
  have hsets := mapLoop_sets le_rfl h
  have hround : pgroundup size % PGSIZE = 0 := Nat.mul_mod_left _ _
  have hpages : PAGES = 2 ^ 36 := rfl
  -- two pages of these addresses never have one place in the tables
  have hplace : ∀ j, j < pgroundup size / PGSIZE →
      ((va / PGSIZE + j) % PAGES = a / PGSIZE % PAGES ↔ va / PGSIZE + j = a / PGSIZE) := by
    intro j hj
    unfold Canonical at ha
    rw [hpages]
    unfold PGSIZE at *
    omega
  unfold lookup
  split_ifs with hin
  · have hlook : look NPTENTRIES 4 e' (a / PGSIZE) =
        some (pa / PGSIZE + (a / PGSIZE - va / PGSIZE), perm) := by
      refine (hsets _ _).mpr (.inl ⟨_, ⟨?_, ?_, fun i hi hk => ?_⟩, rfl⟩)
      · unfold PGSIZE at *
        omega
      · refine (hplace _ ?_).mpr ?_ <;> unfold PGSIZE at * <;> omega
      have := (hplace i hi).mp hk
      omega
    rw [hlook]
    refine congrArg some (Prod.ext ?_ rfl)
    unfold PGSIZE at *
    dsimp only
    omega
  · have hmiss : Misses (va / PGSIZE) (pgroundup size / PGSIZE) (a / PGSIZE) := by
      intro j hj hk
      have := (hplace j hj).mp hk
      unfold PGSIZE at *
      omega
    have hsame : look NPTENTRIES 4 e' (a / PGSIZE) = look NPTENTRIES 4 e (a / PGSIZE) := by
      refine Option.ext fun q => (hsets _ q).trans ⟨?_, fun hq => .inr ⟨hmiss, hq⟩⟩
      rintro (⟨j, hj, -⟩ | ⟨-, hq⟩)
      · exact absurd hj.at_ (hmiss j hj.lt)
      · exact hq
    rw [hsame]

theorem mapRange_lookup_page : ∃ s, mapRange false true (.table fun _ => .empty) 3 0 PGSIZE 5 = some s ∧
    lookup s.1 7 = some (PGSIZE + 7, true) := by
  have hsome : (mapRange false true (.table fun _ => .empty) 3 0 PGSIZE 5).isSome = true := by decide
  obtain ⟨s, hs⟩ := isSome_iff_exists.mp hsome
  exact ⟨s, hs, mapRange_lookup false true _ s.1 3 s.2 0 PGSIZE 5 rfl rfl (.inl (by decide))
    (by decide) hs 7 (.inl (by decide))⟩

/-- Two pages from the last one below the hole in the addresses: the second
has the place of the first page of the direct map. -/
theorem mapRange_crosses : ∃ s,
    mapRange false () (.table fun _ => .empty) 6 (2 ^ 47 - PGSIZE) 0 (2 * PGSIZE) = some s ∧
      lookup s.1 DMAP_BASE = some (PGSIZE, ()) ∧
      lookup (.table fun _ => .empty : Entry Unit) DMAP_BASE = none := by
  exact ⟨_, rfl, by decide, rfl⟩

def Image.pages (img : Image) : Nat := pgroundup img.stop / PGSIZE

lemma mapImage_maps {img : Image} {s t : Pml4 × Nat} (h : mapImage have1g img s = some t) :
    Maps s.1 t.1 (KERNBASE / PGSIZE) img.pages 0 := by
  obtain ⟨s1, h₁, h⟩ := bind_eq_some_iff.mp h
  obtain ⟨s2, h₂, h3⟩ := bind_eq_some_iff.mp h
  obtain ⟨horder, hdata⟩ := img.order
  have haligned := img.data_aligned
  have hlinked := img.linked
  have hpages : img.pages = EXTMEM / PGSIZE + (img.data / PGSIZE - EXTMEM / PGSIZE) +
      (img.pages - img.data / PGSIZE) := by
    unfold Image.pages pgroundup EXTMEM PGSIZE at *
    omega
  have hm1 : Maps s.1 s1.1 (KERNBASE / PGSIZE) (EXTMEM / PGSIZE) 0 :=
    mapRange_maps (by decide) rfl (by decide) (by decide) h₁
  have hm2 : Maps s1.1 s2.1 (KERNBASE / PGSIZE + EXTMEM / PGSIZE)
      (img.data / PGSIZE - EXTMEM / PGSIZE) (0 + EXTMEM / PGSIZE) := by
    refine mapRange_maps (by decide) (by decide) ?_ ?_ h₂
    · unfold EXTMEM PGSIZE at *
      omega
    · omega
  have hm3 : Maps s2.1 t.1
      (KERNBASE / PGSIZE + (EXTMEM / PGSIZE + (img.data / PGSIZE - EXTMEM / PGSIZE)))
      (img.pages - img.data / PGSIZE)
      (0 + (EXTMEM / PGSIZE + (img.data / PGSIZE - EXTMEM / PGSIZE))) := by
    refine mapRange_maps ?_ ?_ ?_ ?_ h3
    · unfold KERNBASE EXTMEM PGSIZE at *
      omega
    · omega
    · unfold Image.pages pgroundup EXTMEM PGSIZE at *
      omega
    unfold pgroundup PGSIZE at *
    omega
  rw [hpages]
  exact (hm1.trans hm2).trans hm3

end Proninx.Boot
