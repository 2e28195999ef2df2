import Proninx.Kern.Boot.Kvmalloc

/-!
# What the direct map covers

The ranges are sorted, so the spans of `kvmalloc` come in rising order and
all RAM is in one of the parts that are mapped. A page of RAM is then found
at its address in the direct map unless the same entry of the tables is
written once more, for the kernel image or for a page so far above that the
four levels do not tell them apart.
-/

namespace Proninx.Boot

open LargePages List Nat Vm

def mapTop (mem : List MemRange) : Nat :=
  (rangeTop mem (ramTop mem) + SIZE_2M - 1) % 2 ^ 64 / SIZE_2M * SIZE_2M

/-- A byte of a span with RAM, from the first RAM on, as far as it is
mapped. -/
def Swept (mem : List MemRange) (p : Nat) : Prop :=
  ∃ s ∈ spans mem, ∃ base, s.ram = some base ∧ spanLo base ≤ p ∧ p < spanHi (mapTop mem) s

/-- In the reach of the tables, the address of the byte in the direct map is
not one of the kernel image and not that of a byte of the direct map further
up. -/
structure Sole (img : Image) (mem : List MemRange) (p : Nat) : Prop where
  image : ∀ j, j < pgroundup img.stop → p2v p % 2 ^ 48 ≠ (KERNBASE + j) % 2 ^ 48
  last : ∀ q, Swept mem q → q % 2 ^ 48 = p % 2 ^ 48 → q ≤ p

/-! ## Spans -/

variable {mem rs : List MemRange} {r : MemRange} {s : Span} {p : Nat}

lemma add_stop (s : Span) (r : MemRange) : (s.add r).stop = max s.stop r.stop := by
  unfold Span.add
  dsimp only
  split_ifs with h
  · exact (max_eq_right h.le).symm
  · exact (max_eq_left (not_lt.mp h)).symm

lemma single_ram_eq_some {b : Nat} : (Span.single r).ram = some b ↔ r.type = .ram ∧ r.base = b := by
  rw [Span.single, Option.ite_none_right_eq_some, Option.some_inj]

lemma add_ram_eq_some {b : Nat} :
    (s.add r).ram = some b ↔ s.ram = some b ∨ s.ram = none ∧ (Span.single r).ram = some b := by
  rw [Span.add]
  cases s.ram with
  | none => simp [Span.single]
  | some b' => simp

lemma exists_grown (s : Span) (rs : List MemRange) : ∃ s' ∈ spansFrom s rs,
    s.stop ≤ s'.stop ∧ ∀ b, s.ram = some b → s'.ram = some b := by
  induction rs generalizing s with
  | nil => exact ⟨s, mem_singleton_self s, le_rfl, fun _ hb => hb⟩
  | cons r rs ih => ?_
  rw [spansFrom]
  split_ifs
  · exact ⟨s, mem_cons_self, le_rfl, fun _ hb => hb⟩
  obtain ⟨s', hs', hstop, hram⟩ := ih (s.add r)
  refine ⟨s', hs', le_trans ?_ hstop, fun b hb => hram b (add_ram_eq_some.mpr (.inl hb))⟩
  rw [add_stop]
  exact le_max_left ..

/-- The RAM of a span starts no higher than what is still to come. -/
def Span.Before (s : Span) (rs : List MemRange) : Prop :=
  ∀ b, s.ram = some b → ∀ r ∈ rs, b ≤ r.base

lemma before_single (h : ∀ r' ∈ rs, r.base ≤ r'.base) : (Span.single r).Before rs := by
  intro b hb r' hr'
  exact (single_ram_eq_some.mp hb).2 ▸ h r' hr'

lemma Span.Before.add (hs : s.Before (r :: rs)) (h : ∀ r' ∈ rs, r.base ≤ r'.base) :
    (s.add r).Before rs := by
  intro b hb r' hr'
  rcases add_ram_eq_some.mp hb with hb | ⟨-, hb⟩
  · exact hs b hb r' (mem_cons_of_mem r hr')
  · exact before_single h b hb r' hr'

lemma exists_span_from (hs : s.Before rs) (hsorted : rs.Pairwise fun a b => a.base ≤ b.base)
    (hr : r ∈ rs) (hram : r.type = .ram) :
    ∃ s' ∈ spansFrom s rs, (∃ b, s'.ram = some b ∧ b ≤ r.base) ∧ r.stop ≤ s'.stop := by
  induction rs generalizing s with
  | nil => cases hr
  | cons r' rs ih => ?_
  obtain ⟨hle, hsorted⟩ := pairwise_cons.mp hsorted
  rw [spansFrom]
  rcases mem_cons.mp hr with rfl | hr
  · have hself : (Span.single r).ram = some r.base := single_ram_eq_some.mpr ⟨hram, rfl⟩
    split_ifs
    · obtain ⟨s', hs', hstop, hkeep⟩ := exists_grown (.single r) rs
      exact ⟨s', mem_cons_of_mem s hs', ⟨r.base, hkeep _ hself, le_rfl⟩, hstop⟩
    obtain ⟨s', hs', hstop, hkeep⟩ := exists_grown (s.add r) rs
    rw [add_stop] at hstop
    refine ⟨s', hs', ?_, (le_max_right ..).trans hstop⟩
    cases hsram : s.ram with
    | none => exact ⟨r.base, hkeep _ (add_ram_eq_some.mpr (.inr ⟨hsram, hself⟩)), le_rfl⟩
    | some b =>
      exact ⟨b, hkeep b (add_ram_eq_some.mpr (.inl hsram)), hs b hsram r mem_cons_self⟩
  · split_ifs
    · obtain ⟨s', hs', hspan⟩ := ih (before_single hle) hsorted hr
      exact ⟨s', mem_cons_of_mem s hs', hspan⟩
    · exact ih (hs.add hle) hsorted hr

lemma exists_span (hsorted : mem.Pairwise fun a b => a.base ≤ b.base) (hr : r ∈ mem)
    (hram : r.type = .ram) :
    ∃ s ∈ spans mem, (∃ b, s.ram = some b ∧ b ≤ r.base) ∧ r.stop ≤ s.stop := by
  cases mem with
  | nil => cases hr
  | cons r' rs => ?_
  obtain ⟨hle, hsorted⟩ := pairwise_cons.mp hsorted
  rcases mem_cons.mp hr with rfl | hr
  · obtain ⟨s, hs, hstop, hkeep⟩ := exists_grown (.single r) rs
    exact ⟨s, hs, ⟨r.base, hkeep _ (single_ram_eq_some.mpr ⟨hram, rfl⟩), le_rfl⟩, hstop⟩
  · exact exists_span_from (before_single hle) hsorted hr hram

lemma spansFrom_mem {bound : Nat} (hsorted : rs.Pairwise fun a b => a.base ≤ b.base)
    (hs : s.Before rs) (hstop : s.stop ≤ bound) (hrs : ∀ r ∈ rs, r.stop ≤ bound) :
    (spansFrom s rs).Pairwise (fun s s' => ∀ b b', s.ram = some b → s'.ram = some b' → b ≤ b') ∧
      ∀ s' ∈ spansFrom s rs, s'.stop ≤ bound ∧
        ∀ b', s'.ram = some b' → s.ram = some b' ∨ ∃ r ∈ rs, r.base = b' := by
  induction rs generalizing s with
  | nil =>
    refine ⟨pairwise_singleton _ _, fun s' hs' => ?_⟩
    obtain rfl := mem_singleton.mp hs'
    exact ⟨hstop, fun b' hb' => .inl hb'⟩
  | cons r rs ih => ?_
  obtain ⟨hle, hsorted⟩ := pairwise_cons.mp hsorted
  have hrstop := hrs r mem_cons_self
  have hrest := fun r' hr' => hrs r' (mem_cons_of_mem r hr')
  rw [spansFrom]
  split_ifs
  · obtain ⟨hpair, hmem⟩ := ih hsorted (before_single hle) hrstop hrest
    have hbase : ∀ s' ∈ spansFrom (.single r) rs, ∀ b', s'.ram = some b' →
        ∃ r' ∈ r :: rs, r'.base = b' := by
      intro s' hs' b' hb'
      rcases (hmem s' hs').2 b' hb' with hsingle | ⟨r', hr', heq⟩
      · exact ⟨r, mem_cons_self, (single_ram_eq_some.mp hsingle).2⟩
      · exact ⟨r', mem_cons_of_mem r hr', heq⟩
    refine ⟨pairwise_cons.mpr ⟨fun s' hs' b b' hb hb' => ?_, hpair⟩, fun s' hs' => ?_⟩
    · obtain ⟨r', hr', rfl⟩ := hbase s' hs' b' hb'
      exact hs b hb r' hr'
    rcases mem_cons.mp hs' with rfl | hs'
    · exact ⟨hstop, fun b' hb' => .inl hb'⟩
    · exact ⟨(hmem s' hs').1, fun b' hb' => .inr (hbase s' hs' b' hb')⟩
  · obtain ⟨hpair, hmem⟩ := ih hsorted (hs.add hle) (by rw [add_stop]; exact max_le hstop hrstop)
      hrest
    refine ⟨hpair, fun s' hs' => ⟨(hmem s' hs').1, fun b' hb' => ?_⟩⟩
    rcases (hmem s' hs').2 b' hb' with hadd | ⟨r', hr', heq⟩
    · rcases add_ram_eq_some.mp hadd with hb | ⟨-, hb⟩
      · exact .inl hb
      · exact .inr ⟨r, mem_cons_self, (single_ram_eq_some.mp hb).2⟩
    · exact .inr ⟨r', mem_cons_of_mem r hr', heq⟩

lemma spans_rising (hsorted : mem.Pairwise fun a b => a.base ≤ b.base) :
    (spans mem).Pairwise (fun s s' => ∀ b b', s.ram = some b → s'.ram = some b' → b ≤ b') ∧
      ∀ s ∈ spans mem, s.stop ≤ 2 ^ 52 := by
  cases mem with
  | nil => exact ⟨.nil, nofun⟩
  | cons r rs => ?_
  obtain ⟨hle, hsorted⟩ := pairwise_cons.mp hsorted
  obtain ⟨hpair, hmem⟩ := spansFrom_mem hsorted (before_single hle) r.physical
    fun r' _ => r'.physical
  exact ⟨hpair, fun s hs => (hmem s hs).1⟩

/-! ## Parts -/

/-- Parts in rising order from `done` on. -/
def Rising : (done : Nat) → List (Nat × Nat) → Prop
  | _, [] => True
  | done, part :: ps =>
    done ≤ part.1 ∧ part.1 < part.2 ∧ part.1 % PGSIZE = 0 ∧ part.2 % PGSIZE = 0 ∧
      part.2 < 2 ^ 63 ∧ Rising part.2 ps

def InParts (ps : List (Nat × Nat)) (p : Nat) : Prop := ∃ part ∈ ps, part.1 ≤ p ∧ p < part.2

variable {top done : Nat} {ss : List Span} {ps : List (Nat × Nat)}

lemma inParts_cons {part : Nat × Nat} :
    InParts (part :: ps) p ↔ part.1 ≤ p ∧ p < part.2 ∨ InParts ps p := by
  simp only [InParts, mem_cons, exists_eq_or_imp]

lemma parts_rising (htop : top % SIZE_2M = 0) (hlt : top < 2 ^ 63) (hdone : done % SIZE_2M = 0) :
    Rising done (parts top done ss) := by
  induction ss generalizing done with
  | nil => exact trivial
  | cons s ss ih => ?_
  rw [parts]
  split
  · exact ih hdone
  rename_i base _
  have hhi : spanHi top s % SIZE_2M = 0 ∧ spanHi top s ≤ top := by
    rw [spanHi]
    split_ifs with h
    · exact ⟨htop, le_rfl⟩
    · exact ⟨mul_mod_left .., not_lt.mp h⟩
  have hlo : spanLo base % SIZE_2M = 0 := mul_mod_left ..
  have hpage : ∀ x, x % SIZE_2M = 0 → x % PGSIZE = 0 := fun x hx => by
    unfold SIZE_2M PGSIZE at *
    omega
  dsimp only
  split_ifs with hbelow hempty hempty
  · exact ih hdone
  · exact ⟨le_rfl, by omega, hpage _ hdone, hpage _ hhi.1, by omega, ih hhi.1⟩
  · exact ih hdone
  · exact ⟨by omega, by omega, hpage _ hlo, hpage _ hhi.1, by omega, ih hhi.1⟩

lemma swept_of_inParts (h : InParts (parts top done ss) p) :
    ∃ s ∈ ss, ∃ base, s.ram = some base ∧ spanLo base ≤ p ∧ p < spanHi top s := by
  induction ss generalizing done with
  | nil => exact absurd h (by rintro ⟨_, hmem, -⟩; cases hmem)
  | cons s ss ih => ?_
  have hrest : ∀ {done}, InParts (parts top done ss) p → ∃ s' ∈ s :: ss, ∃ base,
      s'.ram = some base ∧ spanLo base ≤ p ∧ p < spanHi top s' := fun h => by
    obtain ⟨s', hs', hspan⟩ := ih h
    exact ⟨s', mem_cons_of_mem s hs', hspan⟩
  rw [parts] at h
  split at h
  · exact hrest h
  rename_i base hram
  dsimp only at h
  split_ifs at h with hbelow
  · exact hrest h
  · rcases inParts_cons.mp h with hpart | h
    · exact ⟨s, mem_cons_self, base, hram, hbelow.le.trans hpart.1, hpart.2⟩
    · exact hrest h
  · exact hrest h
  rcases inParts_cons.mp h with hpart | h
  · exact ⟨s, mem_cons_self, base, hram, hpart⟩
  · exact hrest h

lemma inParts_of_swept
    (hrising : ss.Pairwise fun s s' => ∀ b b', s.ram = some b → s'.ram = some b' → b ≤ b')
    (hs : s ∈ ss) {base : Nat} (hram : s.ram = some base) (hlo : spanLo base ≤ p)
    (hhi : p < spanHi top s) (hdone : done ≤ p) : InParts (parts top done ss) p := by
  induction ss generalizing done with
  | nil => cases hs
  | cons s' ss ih => ?_
  obtain ⟨hle, hrising⟩ := pairwise_cons.mp hrising
  rw [parts]
  rcases mem_cons.mp hs with rfl | hs
  · rw [hram]
    dsimp only
    rw [if_neg (by split_ifs <;> omega), inParts_cons]
    exact .inl ⟨by dsimp only; split_ifs <;> omega, hhi⟩
  cases hram' : s'.ram with
  | none => exact ih hrising hs hdone
  | some base' => ?_
  have hbase : spanLo base' ≤ spanLo base :=
    mul_le_mul_right _ (Nat.div_le_div_right (hle s hs base' base hram' hram))
  dsimp only
  by_cases hempty : (if spanLo base' < done then done else spanLo base') ≥ spanHi top s'
  · rw [if_pos hempty]
    exact ih hrising hs hdone
  rw [if_neg hempty, inParts_cons]
  rcases lt_or_ge p (spanHi top s') with hlt | hge
  · exact .inl ⟨by dsimp only; split_ifs <;> omega, hlt⟩
  · exact .inr (ih hrising hs hge)

lemma inParts_iff_swept (hsorted : mem.Pairwise fun a b => a.base ≤ b.base) :
    InParts (parts (mapTop mem) 0 (spans mem)) p ↔ Swept mem p := by
  constructor
  · exact swept_of_inParts
  rintro ⟨s, hs, base, hram, hlo, hhi⟩
  exact inParts_of_swept (spans_rising hsorted).1 hs hram hlo hhi (zero_le p)

lemma ramTop_le : ramTop mem ≤ 2 ^ 52 := highest_le (zero_le _) fun r _ => r.physical

lemma rangeTop_le : rangeTop mem (ramTop mem) ≤ 2 ^ 52 :=
  highest_le ramTop_le fun r _ => r.physical

lemma rangeTop_le_mapTop : rangeTop mem (ramTop mem) ≤ mapTop mem ∧ mapTop mem % SIZE_2M = 0 ∧
    mapTop mem < 2 ^ 63 := by
  have hle : rangeTop mem (ramTop mem) ≤ 2 ^ 52 := rangeTop_le
  unfold mapTop
  generalize rangeTop mem (ramTop mem) = x at *
  unfold SIZE_2M
  omega

lemma InRam.swept (hsorted : mem.Pairwise fun a b => a.base ≤ b.base) (h : InRam mem p) :
    Swept mem p := by
  obtain ⟨r, hr, hram, hbase, hstop⟩ := h
  obtain ⟨s, hs, ⟨b, hb, hble⟩, hrs⟩ := exists_span hsorted hr hram
  have hbound := (spans_rising hsorted).2 s hs
  have htop : r.stop ≤ ramTop mem := stop_le_highest hr fun _ _ => decide_eq_true hram
  have hmap : ramTop mem ≤ mapTop mem := le_highest.trans rangeTop_le_mapTop.1
  refine ⟨s, hs, b, hb, ?_, ?_⟩
  · exact (div_mul_le_self ..).trans (hble.trans hbase)
  rw [spanHi]
  split_ifs
  · omega
  unfold SIZE_2M
  omega

/-! ## Pages of the direct map -/

def DMAP_PAGE : Nat := DMAP_BASE / PGSIZE

/-- The last of the pages in `c` that has the place of page `k` in the
direct map. -/
structure LastIn (c : Nat → Prop) (k q : Nat) : Prop where
  mem : c q
  at_ : (DMAP_PAGE + q) % PAGES = k % PAGES
  last : ∀ q', c q' → (DMAP_PAGE + q') % PAGES = k % PAGES → q' ≤ q

/-- The table has the pages of `c` in the direct map and nothing else. -/
def Direct (e : Pml4) (c : Nat → Prop) : Prop :=
  ∀ k q, get NPTENTRIES 4 e k = some q ↔ LastIn c k q

variable {e e' : Pml4} {c c' : Nat → Prop}

lemma Direct.congr (h : Direct e c) (hc : ∀ q, c q ↔ c' q) : Direct e c' := by
  obtain rfl : c = c' := funext fun q => propext (hc q)
  exact h

lemma direct_empty : Direct (.table fun _ => .empty) fun _ => False := by
  intro k q
  rw [LargePages.get, LargePages.get]
  exact ⟨(by simp), fun h => h.mem.elim⟩

lemma Direct.part {lo n : Nat} (h : Direct e c) (habove : ∀ q, c q → q < lo)
    (hmaps : Maps e e' (DMAP_PAGE + lo) n lo) :
    Direct e' fun q => c q ∨ lo ≤ q ∧ q < lo + n := by
  intro k q
  rw [hmaps k q, h k q]
  constructor
  · rintro (⟨j, hj, rfl⟩ | ⟨hmiss, hlast⟩)
    · refine ⟨.inr ⟨by omega, by have := hj.lt; omega⟩, by rw [← add_assoc]; exact hj.at_, ?_⟩
      rintro q' (hq' | ⟨hlo, hlt⟩) hat
      · have := habove q' hq'
        omega
      have := hj.last (q' - lo) (by omega) (by rwa [add_assoc, Nat.add_sub_cancel' hlo])
      omega
    · refine ⟨.inl hlast.mem, hlast.at_, ?_⟩
      rintro q' (hq' | ⟨hlo, hlt⟩) hat
      · exact hlast.last q' hq' hat
      · exact absurd (by rwa [add_assoc, Nat.add_sub_cancel' hlo]) (hmiss (q' - lo) (by omega))
  · rintro ⟨hmem | ⟨hlo, hlt⟩, hat, hlast⟩
    · have hq := habove q hmem
      refine .inr ⟨fun j hj hat' => ?_, hmem, hat, fun q' hq' => hlast q' (.inl hq')⟩
      have := hlast (lo + j) (.inr ⟨by omega, by omega⟩) (by rwa [← add_assoc])
      omega
    refine .inl ⟨q - lo, ⟨by omega, ?_, fun i hi hat' => ?_⟩, by omega⟩
    · rwa [add_assoc, Nat.add_sub_cancel' hlo]
    have := hlast (lo + i) (.inr ⟨by omega, by omega⟩) (by rwa [← add_assoc])
    omega

variable {have1g : Bool} {t : Pml4 × Nat}

lemma mapPart_maps {s : Pml4 × Nat} {part : Nat × Nat} (hlo : part.1 % PGSIZE = 0)
    (hhi : part.2 % PGSIZE = 0) (hle : part.1 < part.2) (hlt : part.2 < 2 ^ 63)
    (h : mapPart have1g s part = some t) :
    Maps s.1 t.1 (DMAP_PAGE + part.1 / PGSIZE) (part.2 / PGSIZE - part.1 / PGSIZE)
      (part.1 / PGSIZE) := by
  refine mapRange_maps ?_ rfl ?_ (by omega) h
  · unfold p2v DMAP_PAGE DMAP_BASE PGSIZE at *
    omega
  unfold PGSIZE at *
  omega

lemma Direct.parts {s : Pml4 × Nat} (h : Direct s.1 c) (hbelow : ∀ q, c q → q * PGSIZE < done)
    (hps : Rising done ps) (hrun : ps.foldlM (mapPart have1g) s = some t) :
    Direct t.1 fun q => c q ∨ InParts ps (q * PGSIZE) := by
  induction ps generalizing s c done with
  | nil =>
    cases hrun
    exact h.congr fun q => ⟨.inl, fun hq => hq.resolve_right fun ⟨_, hmem, _⟩ => nomatch hmem⟩
  | cons part ps ih => ?_
  obtain ⟨hdone, hlt, hlo, hhi, hbound, hps⟩ := hps
  rw [foldlM_cons] at hrun
  obtain ⟨u, hu, hrun⟩ := Option.bind_eq_some_iff.mp hrun
  have habove : ∀ q, c q → q < part.1 / PGSIZE := fun q hq => by
    have := hbelow q hq
    unfold PGSIZE at *
    omega
  have hpart := h.part habove (mapPart_maps hlo hhi hlt hbound hu)
  refine (ih hpart ?_ hps hrun).congr fun q => ?_
  · rintro q (hq | hq)
    · have := hbelow q hq
      omega
    unfold PGSIZE at *
    omega
  · rw [inParts_cons, or_assoc]
    refine or_congr_right (or_congr_left ?_)
    unfold PGSIZE at *
    omega

/-- What `kvmalloc` leaves: the kernel image, and where it is not, the
direct map. -/
lemma kvmalloc_get {img : Image} {top free : Nat} (htop : top % SIZE_2M = 0) (hlt : top < 2 ^ 63)
    (h : kvmalloc have1g img mem top free = some t) (k q : Nat) :
    get NPTENTRIES 4 t.1 k = some q ↔ (∃ j, LastAt (KERNBASE / PGSIZE) img.pages k j ∧ q = j) ∨
        Misses (KERNBASE / PGSIZE) img.pages k ∧
          LastIn (fun q => InParts (parts top 0 (spans mem)) (q * PGSIZE)) k q := by
  obtain ⟨-, h⟩ := Option.ite_none_left_eq_some.mp h
  obtain ⟨-, h⟩ := Option.ite_none_left_eq_some.mp h
  obtain ⟨s, hparts, h⟩ := Option.bind_eq_some_iff.mp h
  obtain ⟨u, himage, h⟩ := Option.bind_eq_some_iff.mp h
  have hdirect : Direct s.1 fun q => InParts (parts top 0 (spans mem)) (q * PGSIZE) :=
    (direct_empty.parts nofun (parts_rising htop hlt rfl) hparts).congr fun q =>
      iff_of_eq (false_or _)
  rw [get_walk_id (by decide) (by decide) h, mapImage_maps himage k q, hdirect k q]
  simp only [zero_add]

/-! ## Bytes -/

variable {img : Image} {free : Nat} {t : Pml4 × Nat}

lemma translate_eq_some {pgdir : Pml4} : translate pgdir (p2v p) = some p ↔
      get NPTENTRIES 4 pgdir (p2v p / PGSIZE) = some (p / PGSIZE) := by
  have hmod : p2v p % PGSIZE = p % PGSIZE := by
    unfold p2v DMAP_BASE PGSIZE
    omega
  rw [translate, Option.map_eq_some_iff, hmod]
  constructor
  · rintro ⟨f, hf, heq⟩
    rw [hf, show f = p / PGSIZE by unfold PGSIZE at *; omega]
  intro hf
  refine ⟨_, hf, ?_⟩
  unfold PGSIZE
  omega

lemma p2v_place (p : Nat) : p2v p / PGSIZE % PAGES = (DMAP_PAGE + p / PGSIZE) % PAGES := by
  unfold p2v DMAP_PAGE DMAP_BASE PGSIZE PAGES NPTENTRIES
  omega

lemma image_ne_direct {n j : Nat}
    (h : LastAt (KERNBASE / PGSIZE) n (p2v p / PGSIZE) j) : p / PGSIZE ≠ j := by
  have hat := h.at_
  rw [p2v_place p] at hat
  unfold DMAP_PAGE DMAP_BASE KERNBASE PGSIZE PAGES NPTENTRIES at *
  omega

lemma misses_image_iff : Misses (KERNBASE / PGSIZE) img.pages (p2v p / PGSIZE) ↔
      ∀ j < pgroundup img.stop, p2v p % 2 ^ 48 ≠ (KERNBASE + j) % 2 ^ 48 := by
  have hpages : pgroundup img.stop = img.pages * PGSIZE := by
    unfold Image.pages pgroundup PGSIZE
    omega
  rw [hpages]
  unfold Misses
  rw [p2v_place p]
  constructor
  · intro h j hj heq
    refine h (j / PGSIZE) ?_ ?_
    · unfold PGSIZE at *
      omega
    unfold p2v DMAP_PAGE DMAP_BASE KERNBASE PGSIZE PAGES NPTENTRIES at *
    omega
  intro h j hj heq
  refine h (j * PGSIZE + p % PGSIZE) ?_ ?_
  · unfold PGSIZE at *
    omega
  unfold p2v DMAP_PAGE DMAP_BASE KERNBASE PGSIZE PAGES NPTENTRIES at *
  omega

lemma inParts_page (h : Rising done ps) : InParts ps (p / PGSIZE * PGSIZE) ↔ InParts ps p := by
  induction ps generalizing done with
  | nil => exact ⟨fun ⟨_, hmem, _⟩ => (nomatch hmem), fun ⟨_, hmem, _⟩ => nomatch hmem⟩
  | cons part ps ih => ?_
  obtain ⟨-, -, hlo, hhi, -, hps⟩ := h
  rw [inParts_cons, inParts_cons, ih hps]
  refine or_congr_left ?_
  unfold PGSIZE at *
  omega

lemma InRam.mapped_iff (hsorted : mem.Pairwise fun a b => a.base ≤ b.base) (hp : InRam mem p)
    (h : kvmalloc have1g img mem (mapTop mem) free = some t) :
    translate t.1 (p2v p) = some p ↔ Sole img mem p := by
  obtain ⟨-, htop, hlt⟩ : _ ∧ mapTop mem % SIZE_2M = 0 ∧ mapTop mem < 2 ^ 63 := rangeTop_le_mapTop
  have hrising : Rising 0 (parts (mapTop mem) 0 (spans mem)) := parts_rising htop hlt rfl
  have hpage : ∀ q, InParts (parts (mapTop mem) 0 (spans mem)) (q / PGSIZE * PGSIZE) ↔
      Swept mem q := fun q => (inParts_page hrising).trans (inParts_iff_swept hsorted)
  rw [translate_eq_some, kvmalloc_get htop hlt h, misses_image_iff]
  constructor
  · rintro (⟨j, hj, heq⟩ | ⟨himage, hlast⟩)
    · exact absurd heq (image_ne_direct hj)
    refine ⟨himage, fun q hq hmod => ?_⟩
    have hle := hlast.last (q / PGSIZE) ((hpage q).mpr hq) (by
      rw [p2v_place p]
      unfold PAGES NPTENTRIES PGSIZE
      omega)
    unfold PGSIZE at hle
    omega
  intro hsole
  refine .inr ⟨hsole.image, (hpage p).mpr (hp.swept hsorted), (p2v_place p).symm,
    fun q hq hat => ?_⟩
  rw [p2v_place p] at hat
  have hdiv : (q * PGSIZE + p % PGSIZE) / PGSIZE = q := by
    unfold PGSIZE
    omega
  have hle := hsole.last (q * PGSIZE + p % PGSIZE) ((hpage _).mp (by rwa [hdiv])) (by
    unfold DMAP_PAGE DMAP_BASE PAGES NPTENTRIES PGSIZE at *
    omega)
  unfold PGSIZE at *
  omega

lemma sole_of_le (htop : mapTop mem ≤ KERNBASE - DMAP_BASE) (hp : Swept mem p) :
    Sole img mem p := by
  have hbelow : ∀ {q}, Swept mem q → q < KERNBASE - DMAP_BASE := by
    rintro q ⟨s, -, base, -, -, hq⟩
    refine lt_of_lt_of_le hq (le_trans ?_ htop)
    rw [spanHi]
    split_ifs with h
    · exact le_rfl
    · exact not_lt.mp h
  have hlt := hbelow hp
  have hlinked := img.linked
  constructor
  · intro j hj
    unfold p2v pgroundup KERNBASE DMAP_BASE PGSIZE at *
    omega
  intro q hq hmod
  have hq := hbelow hq
  unfold KERNBASE DMAP_BASE at *
  omega

/-- Whatever the order of the map and the sizes of pages, `kvmalloc` maps
every byte of RAM at its place in the direct map, where that place is not
also one of the kernel image or of a byte further up; below the addresses
of the kernel image, that is all of RAM. -/
theorem directMap_covers (given : Info) (img : Image) (have1g : Bool) (free : Nat) {t : Pml4 × Nat}
    (h : kvmalloc have1g img (bootinfoInit given).mem (mapTop (bootinfoInit given).mem) free =
      some t) :
    (∀ p, InRam given.mem p →
        (translate t.1 (p2v p) = some p ↔ Sole img (bootinfoInit given).mem p)) ∧
      (mapTop (bootinfoInit given).mem ≤ KERNBASE - DMAP_BASE →
        ∀ p, InRam given.mem p → translate t.1 (p2v p) = some p) := by
  have hsorted := bootinfoInit_sorted given
  have hram : ∀ {p}, InRam given.mem p → InRam (bootinfoInit given).mem p := fun hp =>
    hp.mono fun r hr => (bootinfoInit_perm given).mem_iff.mpr hr
  refine ⟨fun p hp => (hram hp).mapped_iff hsorted h, fun htop p hp => ?_⟩
  exact ((hram hp).mapped_iff hsorted h).mpr (sole_of_le htop ((hram hp).swept hsorted))

/-- A kernel of two pages. -/
def smallImage : Image :=
  ⟨EXTMEM + 4096, EXTMEM + 8192, by decide, by decide, by decide⟩

/-- Two ranges of RAM in falling order. -/
def fallingMap : Info :=
  ⟨[⟨0x1000000, 0x800000, .ram, by decide⟩, ⟨0x100000, 0x400000, .ram, by decide⟩], []⟩

theorem directMap_covers_two : ∃ t, kvmalloc false smallImage (bootinfoInit fallingMap).mem
        (mapTop (bootinfoInit fallingMap).mem) 1000 = some t ∧
      translate t.1 (p2v 0x200000) = some 0x200000 := by
  have hsome : (kvmalloc false smallImage (bootinfoInit fallingMap).mem
      (mapTop (bootinfoInit fallingMap).mem) 1000).isSome = true := by decide +kernel
  obtain ⟨t, ht⟩ := Option.isSome_iff_exists.mp hsome
  refine ⟨t, ht, (directMap_covers fallingMap smallImage false 1000 ht).2 (by decide) _ ?_⟩
  exact ⟨_, mem_cons_of_mem _ mem_cons_self, rfl, by decide⟩

/-- A kernel of four megabytes and a little more. -/
def largeImage : Image := ⟨0x400000, 0x402000, by decide, by decide, by decide⟩

/-- RAM where the direct map meets the kernel image. -/
def highMap : Info :=
  ⟨[⟨0x100000, 0x400000, .ram, by decide⟩, ⟨0x7fff80200000, 0x200000, .ram, by decide⟩], []⟩

/-- The third megabyte of the kernel is mapped over the RAM there. -/
theorem directMap_overwritten : ∃ t, kvmalloc false largeImage (bootinfoInit highMap).mem
        (mapTop (bootinfoInit highMap).mem) 1000 = some t ∧
      InRam highMap.mem 0x7fff80200000 ∧
      translate t.1 (p2v 0x7fff80200000) = some 0x200000 := by
  have heval : ((kvmalloc false largeImage (bootinfoInit highMap).mem
      (mapTop (bootinfoInit highMap).mem) 1000).map fun t => translate t.1 (p2v 0x7fff80200000)) =
      some (some 0x200000) := by decide +kernel
  obtain ⟨t, ht, htranslate⟩ := Option.map_eq_some_iff.mp heval
  refine ⟨t, ht, ?_, htranslate⟩
  exact ⟨_, mem_cons_of_mem _ mem_cons_self, rfl, by decide⟩

end Proninx.Boot
