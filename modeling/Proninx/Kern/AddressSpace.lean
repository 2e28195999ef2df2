import Proninx.Kern.ExecSpec
import Proninx.Lib.Runs

/-!
# The address space of a process

`exec`, `fork` and `sbrk` on the processes of the table. Between the calls
the rest of the kernel may take and return pages, so memory can run out at
any point of any call.
-/

namespace Proninx.Vm

open Function Runs

def NPROC : Nat := 64

instance : NeZero NPROC := ⟨by decide⟩

abbrev Slot := Fin NPROC

/-! ## The calls -/

/-- What `growproc` makes of the size that `allocuvm` or `deallocuvm` returns:
0 is failure, and the size stays. -/
def Proc.resized (p : Proc) (r : Space × Nat) : Kmem × Proc × Bool :=
  if r.2 = 0 then (r.1.kmem, { p with pgdir := r.1.pgdir }, false)
  else (r.1.kmem, { p with pgdir := r.1.pgdir, sz := r.2 }, true)

/-- `growproc`; `false` is -1. Its `sz` is a `uint`. -/
def growproc (m : Kmem) (p : Proc) (n : Int32) : Except Panic (Kmem × Proc × Bool) :=
  let sz := p.sz % 2 ^ 32
  let new := ((sz + n.toInt) % 2 ^ 32).toNat
  if 0 < n.toInt then p.resized <$> (⟨m, p.pgdir⟩ : Space).allocuvm sz new
  else if n.toInt < 0 then p.resized <$> (⟨m, p.pgdir⟩ : Space).deallocuvm sz new
  else .ok (m, { p with sz := sz }, true)

structure State where
  kmem : Kmem
  procs : Slot → Option Proc

inductive Act where
  | exec (c : Slot) (img : Image) (path : List UInt8) (argv : List (List UInt8))
  | fork (c : Slot)
  | sbrk (c : Slot) (n : Int32)
  /-- The rest of the kernel takes and returns pages. -/
  | elsewhere (m : Kmem)

inductive Reply where
  /-- The result of `sbrk` or `exec`. -/
  | value (v : Int)
  | forked (np : Slot)
  /-- The slot has no process. -/
  | nobody
  deriving DecidableEq, Repr

def State.put (s : State) (c : Slot) (m : Kmem) (p : Proc) : State :=
  ⟨m, update s.procs c (some p)⟩

/-- The slot that `allocproc` takes. -/
def State.unused (s : State) : Option Slot :=
  (List.finRange NPROC).find? fun c => (s.procs c).isNone

/-- `fork`; -1 if there is no slot, no page for the kernel stack or no memory
for the copy. -/
def State.fork (s : State) (p : Proc) : Except Panic (State × Reply) :=
  match s.unused with
  | none => .ok (s, .value (-1))
  | some np =>
    match s.kmem.kalloc with
    | none => .ok (s, .value (-1))
    | some (kstack, m) => do
      let r ← copyuvm m p.pgdir p.sz
      match r.2 with
      | .empty => return ({ s with kmem := r.1.kfree kstack }, .value (-1))
      | t => return (s.put np r.1 { p with pgdir := t, kstack := kstack, rax := 0 }, .forked np)

def step (s : State) : Act → Except Panic (State × Reply)
  | .elsewhere m => .ok ({ s with kmem := m }, .nobody)
  | .exec c img path argv =>
    match s.procs c with
    | none => .ok (s, .nobody)
    | some p => do
      let r ← exec img path argv s.kmem p
      return (s.put c r.1 r.2.1, .value (if r.2.2 then 0 else -1))
  | .fork c =>
    match s.procs c with
    | none => .ok (s, .nobody)
    | some p => s.fork p
  | .sbrk c n =>
    match s.procs c with
    | none => .ok (s, .nobody)
    | some p => do
      let r ← growproc s.kmem p n
      return (s.put c r.1 r.2.1, .value (if r.2.2 then p.sz else -1))

/-- `inituvm` of the first process, at address 0. -/
def inituvm (s : Space) (code : List UInt8) : Except Panic Space :=
  if PGSIZE ≤ code.length then .error .inituvmTooBig
  else
    match s.kmem.kalloc with
    | none => .error .inituvmNoMemory
    | some (mem, m) => do
      -- the result of `mappages` is not looked at
      let r ← ({ s with kmem := m.clear mem } : Space).mappages 0 ⟨mem, true, true⟩
      return { r.1 with kmem := r.1.kmem.store mem 0 code }

/-- `userinit`, in slot 0. -/
def userinit (m : Kmem) (code : List UInt8) : Except Panic State :=
  match m.kalloc with
  | none => .error .userinitNoMemory
  | some (kstack, m) =>
    match setupkvm m with
    | none => .error .userinitNoMemory
    | some s => do
      let s ← inituvm s code
      return ⟨s.kmem, update (fun _ => none) 0 (some
        { pgdir := s.pgdir
          sz := PGSIZE
          kstack := kstack
          rip := 0
          rsp := PGSIZE
          rax := 0
          name := ByteMem.ascii "initcode" })⟩

/-! ## Processes with the pages below their size -/

structure Proc.Mapped (p : Proc) : Prop where
  rooted : ∃ f e, p.pgdir = .node f e
  half : ∀ k, userHalf k = false → p.pgdir.get k = none
  holds : Holds p.pgdir (pages p.sz)
  pos : 0 < p.sz
  small : p.sz < 2 ^ 32

variable {p : Proc}

lemma Proc.Mapped.sound (h : p.Mapped) (m : Kmem) : ∃ m0, (⟨m, p.pgdir⟩ : Space).Sound m0 0 :=
  ⟨⟨((m.freelist : Multiset Frame) + frames p.pgdir).toList, m.page⟩,
    by rw [add_zero, Multiset.coe_toList], fun _ _ => rfl, h.rooted, h.half⟩

lemma Space.Sound.mapped_proc {m0 : Kmem} {s : Space} (h : s.Sound m0 0)
    (hpgdir : p.pgdir = s.pgdir) (hholds : Holds s.pgdir (pages p.sz)) (hpos : 0 < p.sz)
    (hsmall : p.sz < 2 ^ 32) : p.Mapped :=
  ⟨hpgdir ▸ h.rooted, hpgdir ▸ h.half, hpgdir ▸ hholds, hpos, hsmall⟩

/-- The increments that `growproc` handles: a shrink leaves something, and a
growth does not wrap. -/
def Increment (sz : Nat) (n : Int) : Prop := (n < 0 → -n < sz) ∧ (0 < n → sz + n < 2 ^ 32)

lemma le_upages_of_uint {sz : Nat} (h : sz < 2 ^ 32) : sz ≤ UPAGES * PGSIZE :=
  h.le.trans (by decide)

/-- What `sbrk` owes for an increment: the new size on success, and no change
of the size or of any mapping on failure. -/
structure Resized (p : Proc) (n : Int) (p' : Proc) (b : Bool) : Prop where
  mapped : p'.Mapped
  success : b = true → (p'.sz : Int) = p.sz + n
  failure : b = false → p'.sz = p.sz ∧ ∀ a < UPAGES, p'.pgdir.get a = p.pgdir.get a

lemma Proc.Mapped.grow (h : p.Mapped) (m : Kmem) {new : Nat} (hlt : p.sz < new)
    (hnew : new < 2 ^ 32) :
    ∃ s r, (⟨m, p.pgdir⟩ : Space).allocuvm p.sz new = .ok (s, r) ∧
      Resized p (new - p.sz) (p.resized (s, r)).2.1 (p.resized (s, r)).2.2 := by
  obtain ⟨m0, hsound⟩ := h.sound m
  obtain ⟨s, b, hok, hgrew⟩ := allocuvm_spec (le_upages_of_uint hnew) hlt.le hsound h.holds
  refine ⟨s, _, hok, ?_⟩
  cases b with
  | true =>
    rw [if_pos rfl, Nat.mod_eq_of_lt hnew, Proc.resized, if_neg (show ¬new = 0 by omega)]
    exact ⟨hgrew.sound.mapped_proc rfl (hgrew.holds rfl) (show 0 < new by omega) hnew,
      fun _ => (add_sub_cancel _ _).symm, nofun⟩
  | false => ?_
  have hget : ∀ a < UPAGES, s.pgdir.get a = p.pgdir.get a := fun a ha => by
    by_cases hold : a < pages p.sz
    · exact hgrew.below a ha hold
    · rw [hgrew.undone rfl a ha (not_lt.mp hold), h.holds.none ha (not_lt.mp hold)]
  refine ⟨hgrew.sound.mapped_proc rfl (fun a ha => ?_) h.pos h.small, nofun, fun _ => ⟨rfl, hget⟩⟩
  rw [hget a ha]
  exact h.holds a ha

lemma Proc.Mapped.shrink (h : p.Mapped) (m : Kmem) {new : Nat} (hpos : 0 < new) (hlt : new < p.sz) :
    ∃ s r, (⟨m, p.pgdir⟩ : Space).deallocuvm p.sz new = .ok (s, r) ∧
      Resized p (new - p.sz) (p.resized (s, r)).2.1 (p.resized (s, r)).2.2 := by
  obtain ⟨m0, hsound⟩ := h.sound m
  obtain ⟨s, hok, hsound', hget⟩ := deallocuvm_spec new (le_upages_of_uint h.small) hsound
  have hsmall : new < 2 ^ 32 := hlt.trans h.small
  have hpages := pages_mono hlt.le
  refine ⟨s, _, hok, ?_⟩
  rw [Nat.min_eq_right hlt.le, Nat.mod_eq_of_lt hsmall, Proc.resized,
    if_neg (show ¬new = 0 by omega)]
  refine ⟨hsound'.mapped_proc rfl (fun a ha => ?_) hpos hsmall,
    fun _ => (add_sub_cancel _ _).symm, (by simp)⟩
  change _ ↔ a < pages new
  rw [hget a ha]
  split
  · exact iff_of_false (by simp) (by omega)
  rw [h.holds a ha]
  omega

lemma growproc_spec (m : Kmem) {n : Int32} (h : p.Mapped) (hn : Increment p.sz n.toInt) :
    ∃ m' p' b, growproc m p n = .ok (m', p', b) ∧ Resized p n.toInt p' b := by
  have hsmall := h.small
  have hmod : p.sz % 2 ^ 32 = p.sz := Nat.mod_eq_of_lt hsmall
  obtain ⟨hdown, hup⟩ := hn
  obtain ⟨new, hnew⟩ := Int.eq_ofNat_of_zero_le (show 0 ≤ p.sz + n.toInt by omega)
  have hwrap : ((p.sz + n.toInt) % 2 ^ 32).toNat = new := by omega
  have hinc : (new : Int) - p.sz = n.toInt := by omega
  unfold growproc
  dsimp only
  rw [hmod, hwrap]
  rcases lt_trichotomy 0 n.toInt with hpos | hzero | hneg
  · obtain ⟨s, r, hok, hres⟩ := h.grow m (show p.sz < new by omega) (by omega)
    rw [if_pos hpos, hok]
    exact ⟨_, _, _, rfl, hinc ▸ hres⟩
  · rw [if_neg (by omega), if_neg (by omega)]
    exact ⟨m, p, true, rfl, h, fun _ => by omega, nofun⟩
  obtain ⟨s, r, hok, hres⟩ := h.shrink m (show 0 < new by omega) (by omega)
  rw [if_neg (by omega), if_pos hneg, hok]
  exact ⟨_, _, _, rfl, hinc ▸ hres⟩

/-! ## The run -/

def State.Inv (s : State) : Prop := ∀ c p, s.procs c = some p → p.Mapped

/-- The arguments for which the sizes do not leave their types. -/
def Proper (s : State) : Act → Prop
  | .sbrk c n => ∀ p, s.procs c = some p → Increment p.sz n.toInt
  | .exec _ img _ _ => 0 < s.kmem.freelist.length → Fits s.kmem.freelist.length img.plan
  | .fork _ => True
  | .elsewhere _ => True

variable {s : State}

lemma State.Inv.put (h : s.Inv) (c : Slot) (m : Kmem) (hp : p.Mapped) : (s.put c m p).Inv := by
  intro c' p' hp'
  change update s.procs c (some p) c' = some p' at hp'
  by_cases hc : c' = c
  · rw [hc, update_self] at hp'
    exact Option.some.inj hp' ▸ hp
  rw [update_of_ne hc] at hp'
  exact h c' p' hp'

variable {m : Kmem}

lemma exec_mapped {img : Image} (path : List UInt8) (argv : List (List UInt8)) (h : p.Mapped)
    (hfits : 0 < m.freelist.length → Fits m.freelist.length img.plan) :
    ∃ m' p' b, exec img path argv m p = .ok (m', p', b) ∧ p'.Mapped := by
  rcases exec_spec path argv p hfits with
    ⟨m', hok, -⟩ | ⟨-, s, p', hok, hpgdir, hsound, hholds, hpos, hsz⟩
  · exact ⟨m', p, false, hok, h⟩
  obtain ⟨m0, hold⟩ := h.sound s.kmem
  obtain ⟨m', hfree, -⟩ := freevm_spec (le_upages_of_uint h.small) hold
  refine ⟨m', p', true, by rw [hok, hfree]; rfl, hsound.mapped_proc hpgdir hholds hpos (by omega)⟩

lemma fork_inv (h : s.Inv) (hp : p.Mapped) : ∃ s' r, s.fork p = .ok (s', r) ∧ s'.Inv := by
  unfold State.fork
  cases s.unused with
  | none => exact ⟨s, _, rfl, h⟩
  | some np => ?_
  cases s.kmem.kalloc with
  | none => exact ⟨s, _, rfl, h⟩
  | some r => ?_
  obtain ⟨kstack, m⟩ := r
  obtain ⟨m', t, hok, -, hcopy⟩ := copyuvm_spec (m := m) hp.holds (le_upages_of_uint hp.small)
  dsimp only
  rw [hok]
  rcases hcopy with ⟨rfl, -⟩ | ⟨hsound, hholds, -⟩
  · exact ⟨_, _, rfl, h⟩
  obtain ⟨f, e, rfl⟩ := hsound.rooted
  exact ⟨_, _, rfl, h.put np m' (hsound.mapped_proc rfl hholds hp.pos hp.small)⟩

lemma step_inv {act : Act} (h : s.Inv) (hproper : Proper s act) :
    ∃ s' r, step s act = .ok (s', r) ∧ s'.Inv := by
  cases act with
  | elsewhere m => exact ⟨_, _, rfl, h⟩
  | exec c img path argv =>
    cases hp : s.procs c with
    | none => exact ⟨s, _, by rw [step, hp], h⟩
    | some p => ?_
    obtain ⟨m', p', b, hok, hp'⟩ := exec_mapped path argv (h c p hp) hproper
    exact ⟨_, _, by simp only [step, hp, hok]; rfl, h.put c m' hp'⟩
  | fork c =>
    cases hp : s.procs c with
    | none => exact ⟨s, _, by rw [step, hp], h⟩
    | some p => ?_
    obtain ⟨s', r, hok, h'⟩ := fork_inv h (h c p hp)
    exact ⟨s', r, by simp only [step, hp, hok], h'⟩
  | sbrk c n => ?_
  cases hp : s.procs c with
  | none => exact ⟨s, _, by rw [step, hp], h⟩
  | some p => ?_
  obtain ⟨m', p', b, hok, hres⟩ := growproc_spec s.kmem (h c p hp) (hproper p hp)
  exact ⟨_, _, by simp only [step, hp, hok]; rfl, h.put c m' hres.mapped⟩

def ProperStep (s : State) (act : Act) (s' : State) : Prop :=
  Proper s act ∧ ∃ r, step s act = .ok (s', r)

lemma ProperStep.inv {s' : State} {act : Act} (hstep : ProperStep s act s') (h : s.Inv) :
    s'.Inv := by
  obtain ⟨hproper, r, hok⟩ := hstep
  obtain ⟨s'', r', hok', h'⟩ := step_inv h hproper
  cases hok.symm.trans hok'
  exact h'

lemma inituvm_spec {t u : Space} {code : List UInt8} (hsetup : setupkvm m = some t)
    (hroom : 4 ≤ t.kmem.freelist.length) (hok : inituvm t code = .ok u) :
    u.Sound m 0 ∧ Holds u.pgdir 1 := by
  have hsound := sound_setupkvm hsetup
  have hholds := holds_setupkvm hsetup
  unfold inituvm at hok
  split at hok
  · cases hok
  cases hkalloc : t.kmem.kalloc with
  | none => simp only [hkalloc] at hok; cases hok
  | some r => ?_
  obtain ⟨mem, m1⟩ := r
  obtain ⟨u', b, hmap, hput⟩ := put_spec (by decide) hsound hholds hkalloc
    (ByteMem.fill (m1.page mem) 0 0 PGSIZE) ⟨mem, true, true⟩ rfl
  have hin := (hsound.kalloc hkalloc).mem_out
    (Multiset.mem_add.mpr (.inl (Multiset.mem_singleton_self mem)))
  obtain rfl : b := (hput.enough (grown_setupkvm hsetup)).mpr (hroom.trans (by simp))
  simp only [hkalloc, Kmem.clear, hmap] at hok
  cases hok
  exact ⟨hput.sound.write hin _, hput.holds⟩

/-- Six pages are enough for the first process: its kernel stack, its page
and four tables. -/
lemma userinit_inv {code : List UInt8} (hroom : 6 ≤ m.freelist.length)
    (hboot : userinit m code = .ok s) : s.Inv := by
  unfold userinit at hboot
  cases hkstack : m.kalloc with
  | none => rw [hkstack] at hboot; cases hboot
  | some r => ?_
  obtain ⟨kstack, m1⟩ := r
  rw [hkstack] at hboot
  cases hsetup : setupkvm m1 with
  | none => simp only [hsetup] at hboot; cases hboot
  | some t => ?_
  simp only [hsetup] at hboot
  cases hinit : inituvm t code with
  | error e => rw [hinit] at hboot; cases hboot
  | ok u => ?_
  obtain ⟨f, hfree, -, -⟩ := setupkvm_some hsetup
  obtain ⟨hsound, hholds⟩ := inituvm_spec hsetup (by
    rw [(kalloc_some hkstack).1, hfree] at hroom
    simpa using hroom) hinit
  rw [hinit] at hboot
  cases hboot
  have hempty : (⟨u.kmem, fun _ => none⟩ : State).Inv := nofun
  have hpage : pages PGSIZE = 1 := by decide
  exact hempty.put 0 u.kmem (hsound.mapped_proc rfl (hpage ▸ hholds)
    (show 0 < PGSIZE by decide) (show PGSIZE < 2 ^ 32 by decide))

lemma lt_pgroundup_iff {sz a : Nat} (hsz : sz < 2 ^ 32) :
    a * PGSIZE < pgroundup sz ↔ a < pages sz := by
  have hround : pgroundup sz = pages sz * PGSIZE := by
    rw [← pgroundup_div (hsz.trans (by decide)), pgroundup, Nat.mul_div_cancel _ (by decide)]
  rw [hround, Nat.mul_lt_mul_right (by decide)]

/-- In every run of `exec`, `fork` and `sbrk` with proper arguments, the pages
of a process are those below its size, a call returns, and `sbrk` changes
the size by its argument or nothing at all. -/
theorem user_pages_exact {m : Kmem} {code : List UInt8} {s₀ s : State} {acts : List Act}
    (hroom : 6 ≤ m.freelist.length) (hboot : userinit m code = .ok s₀)
    (hrun : Run ProperStep s₀ acts s) :
    (∀ c p, s.procs c = some p →
      ∀ a < UPAGES, (p.pgdir.get a).isSome = true ↔ a * PGSIZE < pgroundup p.sz) ∧
    (∀ act, Proper s act → ∃ s' r, step s act = .ok (s', r)) ∧
    ∀ c p n, s.procs c = some p → Proper s (.sbrk c n) →
      ∃ s' p' v, step s (.sbrk c n) = .ok (s', .value v) ∧ s'.procs = update s.procs c (some p') ∧
        (v ≠ -1 → (p'.sz : Int) = p.sz + n.toInt) ∧
        (v = -1 → p'.sz = p.sz ∧ ∀ a < UPAGES, p'.pgdir.get a = p.pgdir.get a) := by
  have hinv : s.Inv := hrun.invariant (userinit_inv hroom hboot) fun _ _ _ h hstep => hstep.inv h
  refine ⟨fun c p hp a ha => ?_, fun act hproper => ?_, fun c p n hp hproper => ?_⟩
  · have hmapped := hinv c p hp
    rw [lt_pgroundup_iff hmapped.small, hmapped.holds a ha]
  · obtain ⟨s', r, hok, -⟩ := step_inv hinv hproper
    exact ⟨s', r, hok⟩
  obtain ⟨m', p', b, hok, hres⟩ := growproc_spec s.kmem (hinv c p hp) (hproper p hp)
  refine ⟨s.put c m' p', p', if b then p.sz else -1, by simp only [step, hp, hok]; rfl, rfl,
    fun hv => ?_, fun hv => ?_⟩
  · cases b with
    | true => exact hres.success rfl
    | false => exact absurd rfl hv
  cases b with
  | true =>
    rw [if_pos rfl] at hv
    omega
  | false => exact hres.failure rfl

/-- The first process, of one page, grows by a page. -/
theorem user_pages_exact_sbrk : ∃ s₀ s, userinit pool [] = .ok s₀ ∧
    Run ProperStep s₀ [.sbrk 0 4096] s ∧ ∀ c p, s.procs c = some p →
      ∀ a < UPAGES, (p.pgdir.get a).isSome = true ↔ a * PGSIZE < pgroundup p.sz := by
  have hview : (userinit pool []).toOption.map (fun s => (s.procs 0).map Proc.sz) =
      some (some 4096) := by
    decide +kernel
  obtain ⟨s₀, hboot, hsz⟩ := Option.map_eq_some_iff.mp hview
  have hboot := Stateful.toOption_eq_some.mp hboot
  have hproper : Proper s₀ (.sbrk 0 4096) := fun p hp => by
    rw [hp] at hsz
    obtain hsz : p.sz = 4096 := Option.some.inj hsz
    rw [hsz]
    exact ⟨by decide, by decide⟩
  obtain ⟨s, r, hok, -⟩ := step_inv (userinit_inv (by decide) hboot) hproper
  have hrun : Run ProperStep s₀ [.sbrk 0 4096] s := .cons ⟨hproper, r, hok⟩ .nil
  exact ⟨s₀, s, hboot, hrun, (user_pages_exact (by decide) hboot hrun).1⟩

/-- `sbrk` of minus the whole size fails, and the page is gone. -/
theorem sbrk_whole_size_unmaps : (userinit pool []).toOption.bind (fun s =>
    (step s (.sbrk 0 (-4096))).toOption.map fun r =>
      (r.2, (r.1.procs 0).map fun p => (p.sz, (p.pgdir.get 0).isSome))) =
    some (.value (-1), some (4096, false)) := by
  decide +kernel

end Proninx.Vm
