import Mathlib.Data.Finset.Card
import Proninx.Kern.Prog
import Proninx.Lib.LinkRing
import Proninx.Lib.Runs
import Proninx.Lib.Writes

/-!
# The buffer cache (`bio.c`)

The cache is `NBUF` buffers on a doubly linked ring in order of use, with
a sentinel `head`. Any number of processes call `bread`, change the data
of buffers they hold, hand them to `log_write` or `bwrite`, and release
them. A critical section of `bcache.lock` is one step, so is one
`acquiresleep` that succeeds, one transfer by the driver and one store to
a held buffer; a process waiting for a buffer lock is a process that has
not taken its next step.

After `binit` every buffer carries the label (0, 0), so labels do not
identify buffers. What holds is an order property: of the buffers with
one label, all but the most recently used are still untouched
(`Ordered`). Lookups search from the most recent end and so never reach
the others.

`written` and `touched` are history: the contents handed to `log_write`
and `bwrite`, oldest first, and the buffers changed since. A transfer is
assumed to succeed; a failed one is the driver's `panic`.
-/

namespace Proninx.Bio

open Finset Function LinkRing List Option Writes

/-- Device and block number. -/
abbrev Label := Nat × Nat

structure Buf where
  label : Label
  valid : Bool
  dirty : Bool
  refcnt : Nat
  lock : Option Nat
  data : Block

inductive Pc where
  | ready
  /-- In `bget`, past the critical section, about to lock buffer `x`. -/
  | locking (x : Nat) (k : Label)
  /-- In `bread`, waiting for the transfer. -/
  | reading (x : Nat) (k : Label)
  /-- In `bwrite`, waiting for the transfer. -/
  | writing (x : Nat)
  /-- In `brelse`, past `releasesleep`. -/
  | releasing (x : Nat)
  deriving DecidableEq, Repr

structure State where
  links : Links Nat
  buf : Nat → Buf
  disk : Label → Block
  pc : Nat → Pc
  written : List (Label × Block)
  touched : Nat → Bool

open State

/-- Buffers are numbered below `NBUF`; the next number is `bcache.head`. -/
def head : Nat := NBUF

/-- The state `binit` leaves over a disk. -/
def binit (disk : Label → Block) : State where
  links := (List.range NBUF).foldl (fun l b => pushFront l head b) (single head)
  buf := fun _ =>
    { label := (0, 0), valid := false, dirty := false, refcnt := 0, lock := none,
      data := fun _ => 0 }
  disk := disk
  pc := fun _ => .ready
  written := []
  touched := fun _ => false

def State.setBuf (s : State) (x : Nat) (b : Buf) : State :=
  { s with buf := update s.buf x b }

def State.goto (s : State) (p : Nat) (pc : Pc) : State :=
  { s with pc := update s.pc p pc }

/-- The critical section of `bget`: the buffer to lock, with one more
reference. `none` is the panic `bget: no buffers`. -/
def State.bget (s : State) (k : Label) : Option (Nat × State) :=
  match scan s.links.next head (fun x => decide ((s.buf x).label = k)) (NBUF + 1)
      (s.links.next head) with
  | some x => some (x, s.setBuf x { s.buf x with refcnt := (s.buf x).refcnt + 1 })
  | none =>
    match scan s.links.prev head
        (fun x => decide ((s.buf x).refcnt = 0) && !(s.buf x).dirty) (NBUF + 1)
        (s.links.prev head) with
    | some x => some (x, s.setBuf x
        { s.buf x with label := k, valid := false, dirty := false, refcnt := 1 })
    | none => none

/-- One transfer of `blockdev_rw`: a dirty buffer goes to the disk, any
other is filled from it. -/
def State.blockdevRw (s : State) (x : Nat) : State :=
  let b := s.buf x
  if b.dirty then
    { s.setBuf x { b with valid := true, dirty := false } with
      disk := update s.disk b.label b.data }
  else s.setBuf x { b with data := s.disk b.label, valid := true, dirty := false }

/-- What `log_write` and the first half of `bwrite` do to the buffer. -/
def State.markDirty (s : State) (x : Nat) : State :=
  { s.setBuf x { s.buf x with dirty := true } with
    written := s.written ++ [((s.buf x).label, (s.buf x).data)]
    touched := update s.touched x false }

def State.brelse (s : State) (x : Nat) : State :=
  let s := s.setBuf x { s.buf x with refcnt := (s.buf x).refcnt - 1 }
  if (s.buf x).refcnt = 0 then
    { s with links := pushFront (unlink s.links x) head x }
  else s

inductive Act where
  | bread (p : Nat) (k : Label)
  | acquiresleep (p : Nat)
  | blockdevRw (p : Nat)
  /-- A store to the data of a held buffer. -/
  | modify (p x : Nat) (data : Block)
  | logWrite (p x : Nat)
  | bwrite (p x : Nat)
  | brelse (p x : Nat)
  | brelseDone (p : Nat)

/-- One step of process `p`; `none` when it is not at that point of the
code, has to wait, or panics. A buffer changed since its last `log_write`
or `bwrite` is not released. -/
def step (s : State) : Act → Option State
  | .bread p k => match s.pc p with
      | .ready => (s.bget k).map fun (x, t) => t.goto p (.locking x k)
      | _ => none
  | .acquiresleep p => match s.pc p with
      | .locking x k =>
        if (s.buf x).lock = none then
          let t := s.setBuf x { s.buf x with lock := some p }
          some (t.goto p (if (s.buf x).valid then .ready else .reading x k))
        else none
      | _ => none
  | .blockdevRw p => match s.pc p with
      | .reading x _ => some ((s.blockdevRw x).goto p .ready)
      | .writing x => some ((s.blockdevRw x).goto p .ready)
      | _ => none
  | .modify p x data =>
    if s.pc p = .ready ∧ (s.buf x).lock = some p then
      some { s.setBuf x { s.buf x with data := data } with
        touched := update s.touched x true }
    else none
  | .logWrite p x =>
    if s.pc p = .ready ∧ (s.buf x).lock = some p then some (s.markDirty x) else none
  | .bwrite p x =>
    if s.pc p = .ready ∧ (s.buf x).lock = some p then
      some ((s.markDirty x).goto p (.writing x))
    else none
  | .brelse p x =>
    if s.pc p = .ready ∧ (s.buf x).lock = some p ∧ s.touched x = false then
      some ((s.setBuf x { s.buf x with lock := none }).goto p (.releasing x))
    else none
  | .brelseDone p => match s.pc p with
      | .releasing x => some ((s.brelse x).goto p .ready)
      | _ => none

/-! ## Invariant -/

/-- A buffer nobody has used since its label was set. -/
def Buf.Fresh (b : Buf) : Prop := b.refcnt = 0 ∧ b.valid = false ∧ b.dirty = false

/-- Of the buffers with one label, all but the first are fresh. -/
def Ordered (buf : Nat → Buf) (xs : List Nat) : Prop :=
  xs.Pairwise fun x y => (buf x).label = (buf y).label → (buf y).Fresh

/-- The buffer a process counts as a user of without holding its lock. -/
def Pc.waits : Pc → Option Nat
  | .locking x _ => some x
  | .releasing x => some x
  | _ => none

/-- `refcnt` counts the holder of the lock and those that wait. -/
def Counted (b : Buf) (pc : Nat → Pc) (x : Nat) : Prop :=
  ∃ S : Finset Nat, (∀ p, p ∈ S ↔ (pc p).waits = some x) ∧
    b.refcnt = S.card + if b.lock.isSome then 1 else 0

/-- What was last written to a block, or the initial disk's contents. -/
def content (disk₀ : Label → Block) (s : State) : Label → Block :=
  apply disk₀ s.written

/-- What a process may rely on at its program point. -/
def PcOk (s : State) (p : Nat) : Prop :=
  match s.pc p with
  | .ready => True
  | .locking x k => x < NBUF ∧ (s.buf x).label = k
  | .reading x k => (s.buf x).label = k ∧ (s.buf x).lock = some p ∧ (s.buf x).valid = false
  | .writing x => (s.buf x).lock = some p ∧ (s.buf x).dirty ∧ s.touched x = false
  | .releasing x => x < NBUF

structure BufOk (disk₀ : Label → Block) (s : State) (x : Nat) : Prop where
  counted : Counted (s.buf x) s.pc x
  lock_lt : (s.buf x).lock.isSome → x < NBUF
  valid_lt : (s.buf x).valid → x < NBUF
  dirty_valid : (s.buf x).dirty → (s.buf x).valid
  held : ∀ p, (s.buf x).lock = some p → (s.buf x).valid ∨ ∃ k, s.pc p = .reading x k
  touched : s.touched x → (s.buf x).lock.isSome
  /-- A valid buffer that is not being changed shows the current contents. -/
  current : (s.buf x).valid → s.touched x = false →
    (s.buf x).data = content disk₀ s (s.buf x).label

structure Inv (disk₀ : Label → Block) (s : State) : Prop where
  ring : ∃ xs, IsRing s.links head xs ∧ xs.Perm (range NBUF) ∧ Ordered s.buf xs
  pc : ∀ p, PcOk s p
  buf : ∀ x, BufOk disk₀ s x
  /-- The disk shows the current contents, except for blocks with a dirty buffer. -/
  stored : ∀ k, s.disk k = content disk₀ s k ∨ ∃ x, (s.buf x).label = k ∧ (s.buf x).dirty

/-! ### The ring -/

lemma binit_ring (disk : Label → Block) :
    IsRing (binit disk).links head (List.range NBUF).reverse := by
  have hfold : ∀ (n : Nat), n ≤ head → IsRing
      ((List.range n).foldl (fun l b => pushFront l head b) (single head)) head
      (List.range n).reverse := by
    intro n
    induction n with
    | zero => intro _; exact isRing_single head
    | succ n ih => ?_
    intro hn
    rw [range_succ, foldl_append, reverse_append]
    refine (ih (by omega)).pushFront ?_
    simp
    omega
  exact hfold NBUF le_rfl

variable {buf : Nat → Buf} {as bs : List Nat} {x : Nat} {b : Buf}

/-- Changing one buffer keeps the order if no more recently used buffer
has its new label and the less recently used ones that have it are fresh. -/
lemma Ordered.set (h : Ordered buf (as ++ x :: bs)) (hnd : (as ++ x :: bs).Nodup)
    (has : ∀ a ∈ as, (buf a).label ≠ b.label)
    (hbs : ∀ y ∈ bs, b.label = (buf y).label → (buf y).Fresh) :
    Ordered (update buf x b) (as ++ x :: bs) := by
  have hx : x ∉ as ∧ x ∉ bs := by
    rw [nodup_append, nodup_cons] at hnd
    exact ⟨fun hm => hnd.2.2 x hm x mem_cons_self rfl, hnd.2.1.1⟩
  have hne : ∀ y, y ∈ as ∨ y ∈ bs → update buf x b y = buf y := by
    rintro y hy
    refine update_of_ne ?_ ..
    rintro rfl
    exact hy.elim hx.1 hx.2
  unfold Ordered at h ⊢
  rw [List.pairwise_append, List.pairwise_cons] at h ⊢
  obtain ⟨hA, ⟨-, hB⟩, hAB⟩ := h
  refine ⟨hA.imp_of_mem fun hu hv hr => ?_, ⟨fun y hy => ?_, hB.imp_of_mem fun hu hv hr => ?_⟩,
    fun a ha y hy => ?_⟩
  · rw [hne _ (.inl hu), hne _ (.inl hv)]
    exact hr
  · rw [update_self, hne y (.inr hy)]
    exact hbs y hy
  · rw [hne _ (.inr hu), hne _ (.inr hv)]
    exact hr
  rw [hne a (.inl ha)]
  rcases mem_cons.mp hy with rfl | hy'
  · rw [update_self]
    exact fun heq => absurd heq (has a ha)
  rw [hne y (.inr hy')]
  exact hAB a ha y hy

lemma Ordered.first (h : Ordered buf (as ++ x :: bs)) (hx : ¬ (buf x).Fresh) :
    (∀ a ∈ as, (buf a).label ≠ (buf x).label) ∧
      ∀ y ∈ bs, (buf x).label = (buf y).label → (buf y).Fresh := by
  unfold Ordered at h
  rw [List.pairwise_append, List.pairwise_cons] at h
  exact ⟨fun a ha heq => hx (h.2.2 a ha x List.mem_cons_self heq), h.2.1.1⟩

lemma Ordered.move
    (h : Ordered buf (as ++ x :: bs)) (has : ∀ a ∈ as, (buf a).label ≠ (buf x).label) :
    Ordered buf (x :: (as ++ bs)) := by
  unfold Ordered at h ⊢
  rw [List.pairwise_append, List.pairwise_cons] at h
  rw [List.pairwise_cons, List.pairwise_append]
  refine ⟨fun y hy => ?_, h.1, h.2.1.2, fun a ha y hy => h.2.2 a ha y (mem_cons_of_mem _ hy)⟩
  rcases mem_append.mp hy with hy | hy
  · exact fun heq => absurd heq.symm (has y hy)
  · exact h.2.1.1 y hy

variable {y : Nat} {disk₀ : Label → Block} {s : State}

lemma Inv.unique (h : Inv disk₀ s) (hx : x < NBUF) (hy : y < NBUF)
    (hl : (s.buf x).label = (s.buf y).label) (hfx : ¬ (s.buf x).Fresh) (hfy : ¬ (s.buf y).Fresh) :
    x = y := by
  obtain ⟨xs, -, hperm, hord⟩ := h.ring
  have hxs : x ∈ xs := hperm.mem_iff.mpr (List.mem_range.mpr hx)
  have hys : y ∈ xs := hperm.mem_iff.mpr (List.mem_range.mpr hy)
  obtain ⟨as, bs, rfl⟩ := List.append_of_mem hxs
  obtain ⟨has, hbs⟩ := hord.first hfx
  rcases mem_append.mp hys with hya | hyb
  · exact absurd hl.symm (has y hya)
  rcases mem_cons.mp hyb with rfl | hyb
  · rfl
  · exact absurd (hbs y hyb hl) hfy

/-! ### Reference counts -/

variable {pc : Nat → Pc} {p : Nat}

lemma Counted.pos_of_waits (h : Counted b pc x) (hp : (pc p).waits = some x) : 0 < b.refcnt := by
  obtain ⟨S, hS, hc⟩ := h
  have hpos : 0 < S.card := card_pos.mpr ⟨p, (hS p).mpr hp⟩
  omega

lemma Counted.pos_of_lock (h : Counted b pc x) (hl : b.lock.isSome) : 0 < b.refcnt := by
  obtain ⟨S, hS, hc⟩ := h
  rw [if_pos hl] at hc
  omega

def Buf.holds (b : Buf) : Nat := if b.lock.isSome then 1 else 0

variable {pc' : Pc}

lemma Counted.other (h : Counted b pc x) (hp : (pc p).waits ≠ some x) (hp' : pc'.waits ≠ some x) :
    Counted b (update pc p pc') x := by
  obtain ⟨S, hS, hc⟩ := h
  refine ⟨S, fun q => ?_, hc⟩
  by_cases hq : q = p
  · simp [hq, hS, hp, hp']
  · rw [update_of_ne hq, hS]

lemma Counted.join {b' : Buf} (h : Counted b pc x)
    (hp : (pc p).waits ≠ some x) (hp' : pc'.waits = some x)
    (href : b'.refcnt + b.holds = b.refcnt + 1 + b'.holds) :
    Counted b' (update pc p pc') x := by
  obtain ⟨S, hS, hc⟩ := h
  have hpS : p ∉ S := by simp [hS, hp]
  refine ⟨insert p S, fun q => ?_, ?_⟩
  · by_cases hq : q = p
    · simp [hq, hp']
    rw [update_of_ne hq, mem_insert, hS]
    simp [hq]
  · rw [card_insert_of_notMem hpS]
    unfold Buf.holds at href
    omega

lemma Counted.leave {b' : Buf} (h : Counted b pc x)
    (hp : (pc p).waits = some x) (hp' : pc'.waits ≠ some x)
    (href : b'.refcnt + b.holds + 1 = b.refcnt + b'.holds) :
    Counted b' (update pc p pc') x := by
  obtain ⟨S, hS, hc⟩ := h
  have hpS : p ∈ S := (hS p).mpr hp
  refine ⟨S.erase p, fun q => ?_, ?_⟩
  · by_cases hq : q = p
    · simp [hq, hp']
    rw [update_of_ne hq, mem_erase, hS]
    simp [hq]
  rw [card_erase_of_mem hpS]
  have hpos : 0 < S.card := card_pos.mpr ⟨p, hpS⟩
  unfold Buf.holds at href
  omega

/-! ### One step -/

variable {t : State} {k : Label}

/-- What the critical section of `bget` finds: the most recently used
buffer with the label, or, when there is none, an unused clean one. -/
lemma bget_cases (h : Inv disk₀ s) (hb : s.bget k = some (x, t)) : x < NBUF ∧
      ((∃ as bs, IsRing s.links head (as ++ x :: bs) ∧ (as ++ x :: bs).Perm (range NBUF) ∧
          Ordered s.buf (as ++ x :: bs) ∧ (∀ a ∈ as, (s.buf a).label ≠ k) ∧
          (s.buf x).label = k ∧
          t = s.setBuf x { s.buf x with refcnt := (s.buf x).refcnt + 1 }) ∨
       ((∀ y < NBUF, (s.buf y).label ≠ k) ∧ (s.buf x).refcnt = 0 ∧ (s.buf x).dirty = false ∧
          t = s.setBuf x
            { s.buf x with label := k, valid := false, dirty := false, refcnt := 1 })) := by
  obtain ⟨xs, hring, hperm, hord⟩ := h.ring
  have hlen : xs.length < NBUF + 1 := by simp [hperm.length_eq]
  have hmem : ∀ y, y ∈ xs ↔ y < NBUF := fun y => hperm.mem_iff.trans List.mem_range
  unfold bget at hb
  rw [hring.scan_next _ hlen, hring.scan_prev _ hlen] at hb
  cases hhit : xs.find? fun x => decide ((s.buf x).label = k) with
  | some y =>
    rw [hhit] at hb
    obtain ⟨hy, as, bs, rfl, has⟩ := find?_eq_some_iff_append.mp hhit
    cases hb
    refine ⟨(hmem x).mp (by simp), .inl ⟨as, bs, hring, hperm, hord, fun a ha => ?_, ?_, rfl⟩⟩
    · simpa using has a ha
    · simpa using hy
  | none => ?_
  rw [hhit] at hb
  have hno : ∀ y < NBUF, (s.buf y).label ≠ k := fun y hy => by
    simpa using find?_eq_none.mp hhit y ((hmem y).mpr hy)
  cases hfree : xs.reverse.find? fun x => decide ((s.buf x).refcnt = 0) && !(s.buf x).dirty with
  | none => simp only [hfree, reduceCtorEq] at hb
  | some y => ?_
  simp only [hfree] at hb
  cases hb
  have hx := find?_some hfree
  have hxs : x ∈ xs := mem_reverse.mp (mem_of_find?_eq_some hfree)
  refine ⟨(hmem x).mp hxs, .inr ⟨hno, ?_, ?_, rfl⟩⟩
  · simpa using (Bool.and_eq_true_iff.mp hx).1
  · simpa using (Bool.and_eq_true_iff.mp hx).2

section Step

variable {disk₀ : Label → Block} {s : State}

section

variable (h : Inv disk₀ s)
include h

lemma Inv.ring_set (hx : x < NBUF) (hf : ¬ (s.buf x).Fresh) (hl : b.label = (s.buf x).label) :
    ∃ xs, IsRing s.links head xs ∧ xs.Perm (range NBUF) ∧ Ordered (update s.buf x b) xs := by
  obtain ⟨xs, hring, hperm, hord⟩ := h.ring
  obtain ⟨as, bs, rfl⟩ := List.append_of_mem (hperm.mem_iff.mpr (List.mem_range.mpr hx))
  obtain ⟨has, hbs⟩ := hord.first hf
  refine ⟨_, hring, hperm, hord.set (nodup_cons.mp hring.nodup).2 ?_ ?_⟩
  · rwa [hl]
  · rwa [hl]

lemma Inv.not_fresh_of_lock (hx : (s.buf x).lock.isSome) : ¬ (s.buf x).Fresh := fun hf => by
  have := (h.buf x).counted.pos_of_lock hx
  have := hf.1
  omega

lemma Inv.not_fresh_of_waits (hx : (s.pc p).waits = some x) : ¬ (s.buf x).Fresh := fun hf => by
  have := (h.buf x).counted.pos_of_waits hx
  have := hf.1
  omega

/-- A step that changes one process `p` and one buffer `x`: what has to
be shown of `p`, of `x` and of the disk, and what the change must respect
for the other processes and buffers. -/
lemma Inv.change (hbuf : ∀ y ≠ x, t.buf y = s.buf y) (hpc : ∀ q ≠ p, t.pc q = s.pc q)
    (htouched : ∀ y ≠ x, t.touched y = s.touched y)
    (hring : ∃ xs, IsRing t.links head xs ∧ xs.Perm (range NBUF) ∧ Ordered t.buf xs)
    (hstored : ∀ k, t.disk k = content disk₀ t k ∨ ∃ x, (t.buf x).label = k ∧ (t.buf x).dirty)
    (hp : PcOk t p) (hx : BufOk disk₀ t x)
    (hwaits : ∀ y ≠ x, (s.pc p).waits ≠ some y ∧ (t.pc p).waits ≠ some y)
    (hreading : ∀ y k, y ≠ x → s.pc p ≠ .reading y k)
    (hlabel : (t.buf x).label = (s.buf x).label ∨ (s.buf x).refcnt = 0)
    (hlock : ∀ q ≠ p, (s.buf x).lock = some q → (t.buf x).lock = some q ∧
      (t.buf x).valid = (s.buf x).valid ∧ ((s.buf x).dirty → (t.buf x).dirty) ∧
      t.touched x = s.touched x) (hcontent : ∀ y ≠ x, (s.buf y).valid →
      content disk₀ t (s.buf y).label = content disk₀ s (s.buf y).label) : Inv disk₀ t := by
  refine ⟨hring, fun q => ?_, fun y => ?_, hstored⟩
  · by_cases hq : q = p
    · exact hq ▸ hp
    have hold := h.pc q
    have hlab : ∀ y, (s.pc q).waits = some y ∨ (s.buf y).lock = some q →
        (t.buf y).label = (s.buf y).label := by
      intro y hy
      by_cases hyx : y = x
      · subst hyx
        refine hlabel.resolve_right fun h0 => ?_
        rcases hy with hy | hy
        · exact absurd ((h.buf y).counted.pos_of_waits hy) (by omega)
        · exact absurd ((h.buf y).counted.pos_of_lock (by simp [hy])) (by omega)
      · rw [hbuf y hyx]
    unfold PcOk at hold ⊢
    rw [hpc q hq]
    split at hold
    · trivial
    · next y k heq => exact ⟨hold.1, (hlab y (.inl (by rw [heq]; rfl))).trans hold.2⟩
    · next y k heq =>
        refine ⟨(hlab y (.inr hold.2.1)).trans hold.1, ?_⟩
        by_cases hyx : y = x
        · subst hyx
          obtain ⟨hl, hv, -⟩ := hlock q hq hold.2.1
          exact ⟨hl, hv.trans hold.2.2⟩
        · rw [hbuf y hyx]
          exact hold.2
    · next y heq =>
        by_cases hyx : y = x
        · subst hyx
          obtain ⟨hl, -, hd, ht⟩ := hlock q hq hold.1
          exact ⟨hl, hd hold.2.1, ht.trans hold.2.2⟩
        · rw [hbuf y hyx, htouched y hyx]
          exact hold
    · exact hold
  · by_cases hy : y = x
    · exact hy ▸ hx
    have hold := h.buf y
    refine ⟨?_, ?_, ?_, ?_, ?_, ?_, ?_⟩
    · rw [hbuf y hy]
      obtain ⟨S, hS, hc⟩ := hold.counted
      refine ⟨S, fun q => ?_, hc⟩
      by_cases hq : q = p
      · rw [hS, hq]
        exact iff_of_false (hwaits y hy).1 (hwaits y hy).2
      · rw [hS, hpc q hq]
    · rw [hbuf y hy]
      exact hold.lock_lt
    · rw [hbuf y hy]
      exact hold.valid_lt
    · rw [hbuf y hy]
      exact hold.dirty_valid
    · intro q hlk
      rw [hbuf y hy] at hlk ⊢
      refine (hold.held q hlk).imp_right fun ⟨k, hk⟩ => ⟨k, ?_⟩
      have hqp : q ≠ p := by
        rintro rfl
        exact hreading y k hy hk
      rw [hpc q hqp, hk]
    · rw [hbuf y hy, htouched y hy]
      exact hold.touched
    · rw [hbuf y hy, htouched y hy]
      intro hv ht
      rw [hcontent y hy hv]
      exact hold.current hv ht

/-- A step of the holder of `x` that leaves `x` valid and keeps its
label, lock and references. -/
lemma Inv.change_held (b : Buf) (pc : Pc) (tch : Bool) (written : List (Label × Block))
    (disk : Label → Block) (hx : (s.buf x).lock = some p) (hlab : b.label = (s.buf x).label)
    (hlk : b.lock = (s.buf x).lock) (href : b.refcnt = (s.buf x).refcnt) (hvalid : b.valid)
    (hpc : ∀ y, (s.pc p).waits ≠ some y) (hpc' : ∀ y, pc.waits ≠ some y)
    (hreading : ∀ y k, y ≠ x → s.pc p ≠ .reading y k)
    (hwriting : ∀ y, pc = .writing y → y = x ∧ b.dirty ∧ tch = false)
    (hnotreading : ∀ y k, pc ≠ .reading y k)
    (hcurrent : tch = false → b.data = apply disk₀ written b.label)
    (hstored : ∀ k, disk k = apply disk₀ written k ∨ (b.label = k ∧ b.dirty) ∨
      ∃ y ≠ x, (s.buf y).label = k ∧ (s.buf y).dirty)
    (hcontent : ∀ y ≠ x, (s.buf y).valid → apply disk₀ written (s.buf y).label
      = content disk₀ s (s.buf y).label) :
    Inv disk₀
      { links := s.links, buf := update s.buf x b, disk := disk,
        pc := update s.pc p pc, written := written,
        touched := update s.touched x tch } := by
  have hlock : (s.buf x).lock.isSome := by simp [hx]
  refine h.change (p := p) (x := x) (fun y hy => update_of_ne hy ..)
    (fun q hq => update_of_ne hq ..) (fun y hy => update_of_ne hy ..)
    (h.ring_set ((h.buf x).lock_lt hlock) (h.not_fresh_of_lock hlock) hlab) ?_ ?_ ?_ ?_
    hreading (.inl ?_) (fun q hq hl => ?_) hcontent
  · intro k
    refine (hstored k).imp_right fun hd => ?_
    rcases hd with ⟨hl, hd⟩ | ⟨y, hy, hl, hd⟩
    · exact ⟨x, by simpa using hl, by simpa using hd⟩
    · exact ⟨y, by simpa [hy] using hl, by simpa [hy] using hd⟩
  · unfold PcOk
    simp only [update_self]
    cases pc with
    | ready => trivial
    | locking y k => exact absurd rfl (hpc' y)
    | reading y k => exact absurd rfl (hnotreading y k)
    | writing y =>
      obtain ⟨rfl, hd, ht⟩ := hwriting y rfl
      simp [hlk, hx, hd, ht]
    | releasing y => exact absurd rfl (hpc' y)
  · have hold := h.buf x
    refine ⟨?_, ?_, ?_, ?_, ?_, ?_, ?_⟩ <;> simp only [update_self]
    · obtain ⟨S, hS, hc⟩ := hold.counted
      refine Counted.other ⟨S, hS, ?_⟩ (hpc x) (hpc' x)
      rw [href, hlk, hc]
    · exact fun _ => hold.lock_lt hlock
    · exact fun _ => hold.lock_lt hlock
    · exact fun _ => hvalid
    · exact fun _ _ => .inl hvalid
    · rw [hlk]
      exact fun _ => hlock
    · exact fun _ => hcurrent
  · intro y _
    simp only [update_self]
    exact ⟨hpc y, hpc' y⟩
  · simpa using hlab
  · rw [hx] at hl
    cases hl
    exact absurd rfl hq

lemma Inv.holder_valid (hp : s.pc p = .ready) (hx : (s.buf x).lock = some p) : (s.buf x).valid :=
  ((h.buf x).held p hx).resolve_right fun ⟨k, hk⟩ => by rw [hp] at hk; cases hk

lemma Inv.stored_ne (x : Nat) (k : Label) :
    s.disk k = content disk₀ s k ∨ ((s.buf x).label = k ∧ (s.buf x).dirty) ∨
      ∃ y ≠ x, (s.buf y).label = k ∧ (s.buf y).dirty := by
  refine (h.stored k).imp_right fun ⟨y, hl, hd⟩ => ?_
  by_cases hy : y = x
  · exact .inl ⟨hy ▸ hl, hy ▸ hd⟩
  · exact .inr ⟨y, hy, hl, hd⟩

lemma Inv.stored_set (hb : (s.buf x).dirty → b.dirty ∧ b.label = (s.buf x).label) (k : Label) :
    s.disk k = content disk₀ s k ∨ ∃ y, (update s.buf x b y).label = k ∧
      (update s.buf x b y).dirty := by
  refine (h.stored_ne x k).imp_right fun hd => ?_
  rcases hd with ⟨hl, hd⟩ | ⟨y, hy, hl, hd⟩
  · exact ⟨x, by simp [(hb hd).2, hl], by simp [(hb hd).1]⟩
  · exact ⟨y, by simp [hy, hl], by simp [hy, hd]⟩

lemma modify_inv {data : Block} (hp : s.pc p = .ready) (hx : (s.buf x).lock = some p) :
    Inv disk₀ { s.setBuf x { s.buf x with data := data } with
      touched := update s.touched x true } := by
  have hpc : update s.pc p .ready = s.pc := by rw [← hp, update_eq_self]
  have hnew := h.change_held { s.buf x with data := data } .ready true s.written s.disk hx
    rfl rfl rfl (h.holder_valid hp hx) (by simp [hp, Pc.waits]) (by simp [Pc.waits])
    (by simp [hp]) nofun nofun nofun (h.stored_ne x) (fun _ _ _ => rfl)
  rw [hpc] at hnew
  exact hnew

end

lemma apply_snoc (k : Label) (data : Block) (written : List (Label × Block)) :
    apply disk₀ (written ++ [(k, data)]) = update (apply disk₀ written) k data := by
  rw [apply_append, apply_cons, apply_nil]

section

variable (h : Inv disk₀ s)
include h

lemma Inv.label_ne (hx : (s.buf x).lock.isSome) (hne : y ≠ x) (hy : (s.buf y).valid) :
    (s.buf y).label ≠ (s.buf x).label := by
  intro hl
  refine hne (h.unique ((h.buf y).valid_lt hy) ((h.buf x).lock_lt hx) hl (fun hf => ?_)
    (h.not_fresh_of_lock hx))
  rw [hf.2.1] at hy
  cases hy

lemma markDirty_inv {pc : Pc} (hp : s.pc p = .ready) (hx : (s.buf x).lock = some p)
    (hpc : pc = .ready ∨ pc = .writing x) :
    Inv disk₀ ((s.markDirty x).goto p pc) := by
  have hlock : (s.buf x).lock.isSome := by simp [hx]
  refine h.change_held { s.buf x with dirty := true } pc false
    (s.written ++ [((s.buf x).label, (s.buf x).data)]) s.disk hx rfl rfl rfl
    (h.holder_valid hp hx) (by simp [hp, Pc.waits]) ?_ (by simp [hp]) ?_ ?_ ?_ ?_ ?_
  · rcases hpc with rfl | rfl <;> simp [Pc.waits]
  · rcases hpc with rfl | rfl
    · exact nofun
    rintro y ⟨⟩
    exact ⟨rfl, rfl, rfl⟩
  · rcases hpc with rfl | rfl <;> exact nofun
  · intro _
    rw [apply_snoc, update_self]
  · intro k
    rw [apply_snoc]
    by_cases hk : (s.buf x).label = k
    · exact .inr (.inl ⟨hk, rfl⟩)
    rw [update_of_ne (Ne.symm hk)]
    exact (h.stored_ne x k).imp_right fun hd => hd.imp_left fun hd => absurd hd.1 hk
  · intro y hy hv
    rw [apply_snoc, update_of_ne (h.label_ne hlock hy hv)]
    rfl

/-- While a buffer waits to be filled it is clean and the disk has the
current contents, since no other buffer can be dirty for its block. -/
lemma Inv.reading_disk (hp : s.pc p = .reading x k) :
    (s.buf x).label = k ∧ (s.buf x).lock = some p ∧ (s.buf x).dirty = false ∧
      s.disk (s.buf x).label = content disk₀ s (s.buf x).label := by
  have hok := h.pc p
  unfold PcOk at hok
  rw [hp] at hok
  obtain ⟨hlab, hx, hinvalid⟩ := hok
  have hlock : (s.buf x).lock.isSome := by simp [hx]
  have hclean : (s.buf x).dirty = false := by
    cases hd : (s.buf x).dirty with
    | false => rfl
    | true => ?_
    have := (h.buf x).dirty_valid hd
    rw [hinvalid] at this
    cases this
  refine ⟨hlab, hx, hclean, ?_⟩
  rcases h.stored_ne x (s.buf x).label with hd | ⟨-, hd⟩ | ⟨y, hy, hl, hd⟩
  · exact hd
  · rw [hclean] at hd
    cases hd
  · exact absurd hl (h.label_ne hlock hy ((h.buf y).dirty_valid hd))

lemma blockdevRw_reading_inv (hp : s.pc p = .reading x k) :
    Inv disk₀ ((s.blockdevRw x).goto p .ready) := by
  obtain ⟨-, hx, hclean, hdisk⟩ := h.reading_disk hp
  have htouched : update s.touched x (s.touched x) = s.touched :=
    update_eq_self ..
  have hnew := h.change_held
    { s.buf x with data := s.disk (s.buf x).label, valid := true, dirty := false } .ready
    (s.touched x) s.written s.disk hx rfl rfl rfl rfl (by simp [hp, Pc.waits])
    (by simp [Pc.waits]) (by simp only [hp]; rintro y k' hy ⟨⟩; exact hy rfl) nofun nofun
    (fun _ => hdisk)
    (fun k' => (h.stored_ne x k').imp_right fun hd => hd.imp_left fun hd => by
      rw [hclean] at hd; exact absurd hd.2 nofun)
    (fun _ _ _ => rfl)
  rw [htouched] at hnew
  simpa [blockdevRw, hclean, goto, setBuf] using hnew

lemma blockdevRw_writing_inv (hp : s.pc p = .writing x) :
    Inv disk₀ ((s.blockdevRw x).goto p .ready) := by
  have hok := h.pc p
  unfold PcOk at hok
  rw [hp] at hok
  obtain ⟨hx, hdirty, hquiet⟩ := hok
  have hvalid := (h.buf x).dirty_valid hdirty
  have hcur := (h.buf x).current hvalid hquiet
  have htouched : update s.touched x (s.touched x) = s.touched :=
    update_eq_self ..
  have hnew := h.change_held { s.buf x with valid := true, dirty := false } .ready
    (s.touched x) s.written (update s.disk (s.buf x).label (s.buf x).data) hx
    rfl rfl rfl rfl (by simp [hp, Pc.waits]) (by simp [Pc.waits]) (by simp [hp]) nofun nofun
    (fun _ => hcur)
    (fun k => by
      by_cases hk : k = (s.buf x).label
      · rw [hk, update_self]
        exact .inl hcur
      rw [update_of_ne hk]
      exact (h.stored_ne x k).imp_right fun hd => hd.imp_left fun hd => absurd hd.1.symm hk)
    (fun _ _ _ => rfl)
  rw [htouched] at hnew
  simpa [blockdevRw, hdirty, goto, setBuf] using hnew

lemma Inv.recount {links : Links Nat} {pc : Pc} (hlt : x < NBUF)
    (hb : b = { s.buf x with refcnt := b.refcnt, lock := b.lock })
    (hring : ∃ xs, IsRing links head xs ∧ xs.Perm (range NBUF) ∧ Ordered (update s.buf x b) xs)
    (hp : PcOk { s with links := links, buf := update s.buf x b, pc := update s.pc p pc } p)
    (hcount : Counted b (update s.pc p pc) x)
    (hheld : ∀ q, b.lock = some q → (s.buf x).valid ∨ ∃ k, update s.pc p pc q = .reading x k)
    (htouched : s.touched x → b.lock.isSome)
    (hwaits : ∀ y ≠ x, (s.pc p).waits ≠ some y ∧ pc.waits ≠ some y)
    (hreading : ∀ y k, s.pc p ≠ .reading y k)
    (hlock : ∀ q ≠ p, (s.buf x).lock = some q → b.lock = some q) :
    Inv disk₀ { s with links := links, buf := update s.buf x b, pc := update s.pc p pc } := by
  have hold := h.buf x
  have hlab : b.label = (s.buf x).label := by rw [hb]
  have hvalid : b.valid = (s.buf x).valid := by rw [hb]
  have hdirty : b.dirty = (s.buf x).dirty := by rw [hb]
  have hdata : b.data = (s.buf x).data := by rw [hb]
  refine h.change (p := p) (x := x) (fun y hy => update_of_ne hy ..)
    (fun q hq => update_of_ne hq ..) (fun _ _ => rfl) hring
    (h.stored_set fun hd => ⟨hdirty.trans hd, hlab⟩) hp ?_ ?_ (fun y k _ => hreading y k) ?_ ?_
    (fun _ _ _ => rfl)
  · refine ⟨?_, ?_, ?_, ?_, ?_, ?_, ?_⟩ <;> simp only [update_self]
    · exact hcount
    · exact fun _ => hlt
    · exact fun _ => hlt
    · simpa only [hvalid, hdirty] using hold.dirty_valid
    · simpa only [hvalid] using hheld
    · exact htouched
    · rw [hvalid, hdata, hlab]
      exact hold.current
  · simpa only [update_self] using hwaits
  · simp only [update_self]
    exact .inl hlab
  · intro q hq hl
    simp only [update_self]
    exact ⟨hlock q hq hl, hvalid, hdirty.trans, trivial⟩

lemma acquiresleep_inv (hp : s.pc p = .locking x k) (hfree : (s.buf x).lock = none) :
    Inv disk₀ ((s.setBuf x { s.buf x with lock := some p }).goto p
      (if (s.buf x).valid then .ready else .reading x k)) := by
  have hok := h.pc p
  unfold PcOk at hok
  rw [hp] at hok
  obtain ⟨hlt, hlab⟩ := hok
  have hwaits : (s.pc p).waits = some x := by rw [hp]; rfl
  refine h.recount hlt rfl (h.ring_set hlt (h.not_fresh_of_waits hwaits) rfl) ?_ ?_ ?_
    (fun _ => rfl) (fun y hy => ⟨?_, ?_⟩) (by simp [hp]) (by simp [hfree])
  · cases hv : (s.buf x).valid with
    | true => simp [PcOk]
    | false => simp [PcOk, hlab, hv]
  · refine (h.buf x).counted.leave hwaits ?_ ?_
    · split <;> exact nofun
    · simp [Buf.holds, hfree]
  · rintro q ⟨⟩
    cases hv : (s.buf x).valid with
    | true => exact .inl rfl
    | false => exact .inr ⟨k, by simp⟩
  · exact hwaits ▸ fun heq => hy (some.inj heq).symm
  · split <;> exact nofun

lemma releasesleep_inv (hp : s.pc p = .ready) (hx : (s.buf x).lock = some p)
    (hquiet : s.touched x = false) :
    Inv disk₀ ((s.setBuf x { s.buf x with lock := none }).goto p (.releasing x)) := by
  have hlock : (s.buf x).lock.isSome := by simp [hx]
  have hlt := (h.buf x).lock_lt hlock
  refine h.recount hlt rfl (h.ring_set hlt (h.not_fresh_of_lock hlock) rfl) ?_ ?_ nofun
    (by simp [hquiet]) (fun y hy => ⟨?_, fun heq => hy (some.inj heq).symm⟩) (by simp [hp]) ?_
  · simpa [PcOk] using hlt
  · refine (h.buf x).counted.join ?_ rfl ?_
    · simp [hp, Pc.waits]
    · simp [Buf.holds, hx]
  · simp [hp, Pc.waits]
  intro q hq hl
  rw [hx] at hl
  exact absurd (some.inj hl).symm hq

lemma Inv.held_update {pc : Pc} (hp : ∀ k, s.pc p ≠ .reading x k) (q : Nat)
    (hq : (s.buf x).lock = some q) :
    (s.buf x).valid ∨ ∃ k, update s.pc p pc q = .reading x k := by
  refine ((h.buf x).held q hq).imp_right fun ⟨k, hk⟩ => ⟨k, ?_⟩
  rwa [update_of_ne]
  rintro rfl
  exact hp k hk

end

/-- The references of `x` after `brelse` drops one. -/
def dropped (b : Buf) : Buf := { b with refcnt := b.refcnt - 1 }

/-- `brelse` keeps the ring a permutation and in order: the buffer it
moves to the front was in use until now. -/
lemma brelse_ring (h : Inv disk₀ s) (hp : s.pc p = .releasing x) (hlt : x < NBUF) :
    ∃ xs, IsRing (s.brelse x).links head xs ∧ xs.Perm (range NBUF) ∧
      Ordered (update s.buf x (dropped (s.buf x))) xs := by
  have hfresh := h.not_fresh_of_waits (p := p) (x := x) (by rw [hp]; rfl)
  unfold State.brelse
  simp only [State.setBuf, update_self]
  split
  · obtain ⟨xs, hring, hperm, hord⟩ := h.ring
    have hxs : x ∈ xs := hperm.mem_iff.mpr (List.mem_range.mpr hlt)
    obtain ⟨as, bs, rfl⟩ := List.append_of_mem hxs
    have hnd := (nodup_cons.mp hring.nodup).2
    obtain ⟨has, hbs⟩ := hord.first hfresh
    have hord' := hord.set (b := dropped (s.buf x)) hnd has hbs
    refine ⟨x :: (as ++ bs), hring.unlink.pushFront ?_, ?_, hord'.move fun a ha => ?_⟩
    · have hhead : x ≠ head := fun heq => absurd hlt (by rw [heq]; exact lt_irrefl _)
      rw [List.nodup_append, List.nodup_cons] at hnd
      simp only [List.mem_cons, List.mem_append, not_or]
      exact ⟨hhead, fun hm => hnd.2.2 x hm x List.mem_cons_self rfl, hnd.2.1.1⟩
    · exact perm_middle.symm.trans hperm
    have hax : a ≠ x := by
      rintro rfl
      exact has a ha rfl
    rw [update_of_ne hax, update_self]
    exact has a ha
  · exact h.ring_set hlt hfresh rfl

lemma brelse_inv (h : Inv disk₀ s) (hp : s.pc p = .releasing x) :
    Inv disk₀ ((s.brelse x).goto p .ready) := by
  have hlt : x < NBUF := by
    have hok := h.pc p
    unfold PcOk at hok
    rwa [hp] at hok
  have hwaits : (s.pc p).waits = some x := by rw [hp]; rfl
  have hring := brelse_ring h hp hlt
  -- apart from the links both branches leave the same state
  obtain ⟨l, hl⟩ : ∃ l, s.brelse x = { s.setBuf x (dropped (s.buf x)) with links := l } := by
    unfold State.brelse
    simp only [dropped]
    split
    · exact ⟨_, rfl⟩
    · exact ⟨s.links, rfl⟩
  rw [hl] at hring ⊢
  refine h.recount hlt rfl hring (by simp [PcOk]) ?_ (h.held_update (by simp [hp]))
    (h.buf x).touched (fun y hy => ⟨?_, nofun⟩) (by simp [hp]) fun _ _ => id
  · refine (h.buf x).counted.leave hwaits nofun ?_
    have := (h.buf x).counted.pos_of_waits hwaits
    show (s.buf x).refcnt - 1 + (s.buf x).holds + 1 = (s.buf x).refcnt + (s.buf x).holds
    omega
  · exact hwaits ▸ fun heq => hy (some.inj heq).symm

lemma bget_inv (h : Inv disk₀ s) (hp : s.pc p = .ready)
    (hb : s.bget k = some (x, t)) : Inv disk₀ (t.goto p (.locking x k)) := by
  obtain ⟨hlt, hcase⟩ := bget_cases h hb
  have hwaits : ∀ y, (s.pc p).waits ≠ some y := by simp [hp, Pc.waits]
  have hother : ∀ y ≠ x, (s.pc p).waits ≠ some y ∧ (Pc.locking x k).waits ≠ some y :=
    fun y hy => ⟨hwaits y, fun heq => hy (some.inj heq).symm⟩
  have hold := h.buf x
  rcases hcase with ⟨as, bs, hring, hperm, hord, has, hlab, rfl⟩ | ⟨hno, href, hclean, rfl⟩
  · have hnd := (nodup_cons.mp hring.nodup).2
    have hbs : ∀ y ∈ bs, (s.buf x).label = (s.buf y).label → (s.buf y).Fresh := by
      unfold Ordered at hord
      rw [List.pairwise_append, List.pairwise_cons] at hord
      exact hord.2.1.1
    exact h.recount hlt rfl ⟨_, hring, hperm, hord.set hnd (fun a ha => hlab ▸ has a ha) hbs⟩
      (by simp [PcOk, hlt, hlab]) (hold.counted.join (hwaits x) rfl rfl)
      (h.held_update (by simp [hp])) hold.touched hother (by simp [hp]) fun _ _ => id
  obtain ⟨xs, hring, hperm, hord⟩ := h.ring
  have hmem : ∀ y ∈ xs, y < NBUF := fun y hy => List.mem_range.mp (hperm.mem_iff.mp hy)
  have hxs : x ∈ xs := hperm.mem_iff.mpr (List.mem_range.mpr hlt)
  have hunlocked : (s.buf x).lock = none := by
    cases hl : (s.buf x).lock with
    | none => rfl
    | some q => exact absurd (hold.counted.pos_of_lock (by simp [hl])) (by omega)
  obtain ⟨as, bs, rfl⟩ := append_of_mem hxs
  have hnd := (nodup_cons.mp hring.nodup).2
  refine h.change (p := p) (x := x) (fun y hy => update_of_ne hy ..)
    (fun q hq => update_of_ne hq ..) (fun _ _ => rfl)
    ⟨_, hring, hperm, hord.set hnd (fun a ha => hno a (hmem a (by simp [ha])))
      (fun y hy heq => absurd heq.symm (hno y (hmem y (by simp [hy]))))⟩
    (h.stored_set fun hd => by rw [hclean] at hd; cases hd)
    ?_ ?_ (fun y hy => ?_) (by simp [hp]) (.inr href) ?_ (fun _ _ _ => rfl)
  · simp [PcOk, goto, setBuf, hlt]
  · refine ⟨?_, ?_, ?_, ?_, ?_, ?_, ?_⟩ <;>
      simp only [goto, setBuf, update_self]
    · refine hold.counted.join (hwaits x) rfl ?_
      simp only [Buf.holds]
      omega
    · exact hold.lock_lt
    · exact nofun
    · exact nofun
    · rw [hunlocked]
      exact nofun
    · exact hold.touched
    · exact nofun
  · simpa only [goto, update_self] using hother y hy
  · intro q _ hq
    rw [hunlocked] at hq
    cases hq

end Step

/-! ## Runs -/

variable {a : Act}

/-- What a step can be. -/
inductive Step (s : State) : Act → State → Prop where
  | bread {p x : Nat} {k : Label} {u : State} : s.pc p = .ready → s.bget k = some (x, u) →
      Step s (.bread p k) (u.goto p (.locking x k))
  | acquiresleep {p x : Nat} {k : Label} : s.pc p = .locking x k → (s.buf x).lock = none →
      Step s (.acquiresleep p) ((s.setBuf x { s.buf x with lock := some p }).goto p
        (if (s.buf x).valid then .ready else .reading x k))
  | reading {p x : Nat} {k : Label} : s.pc p = .reading x k →
      Step s (.blockdevRw p) ((s.blockdevRw x).goto p .ready)
  | writing {p x : Nat} : s.pc p = .writing x →
      Step s (.blockdevRw p) ((s.blockdevRw x).goto p .ready)
  | modify {p x : Nat} {data : Block} : s.pc p = .ready → (s.buf x).lock = some p →
      Step s (.modify p x data) { s.setBuf x { s.buf x with data := data } with
        touched := update s.touched x true }
  | logWrite {p x : Nat} : s.pc p = .ready → (s.buf x).lock = some p →
      Step s (.logWrite p x) ((s.markDirty x).goto p .ready)
  | bwrite {p x : Nat} : s.pc p = .ready → (s.buf x).lock = some p →
      Step s (.bwrite p x) ((s.markDirty x).goto p (.writing x))
  | brelse {p x : Nat} : s.pc p = .ready → (s.buf x).lock = some p → s.touched x = false →
      Step s (.brelse p x) ((s.setBuf x { s.buf x with lock := none }).goto p (.releasing x))
  | brelseDone {p x : Nat} : s.pc p = .releasing x →
      Step s (.brelseDone p) ((s.brelse x).goto p .ready)

lemma step_cases (h : step s a = some t) : Step s a t := by
  cases a with
  | bread p k =>
    simp only [step] at h
    split at h
    · next hp =>
      obtain ⟨⟨x, u⟩, hb, rfl⟩ := map_eq_some_iff.mp h
      exact .bread hp hb
    · cases h
  | acquiresleep p =>
    simp only [step] at h
    split at h
    · next x k hp =>
      obtain ⟨hl, ⟨⟩⟩ := ite_none_right_eq_some.mp h
      exact .acquiresleep hp hl
    · cases h
  | blockdevRw p =>
    simp only [step] at h
    split at h
    · next x k hp => cases h; exact .reading hp
    · next x hp => cases h; exact .writing hp
    · cases h
  | modify p x data =>
    obtain ⟨hg, ⟨⟩⟩ := ite_none_right_eq_some.mp h
    exact .modify hg.1 hg.2
  | logWrite p x =>
    obtain ⟨hg, ⟨⟩⟩ := ite_none_right_eq_some.mp h
    have heq : (s.markDirty x).goto p .ready = s.markDirty x := by
      simp [goto, markDirty, setBuf, ← hg.1]
    exact heq ▸ .logWrite hg.1 hg.2
  | bwrite p x =>
    obtain ⟨hg, ⟨⟩⟩ := ite_none_right_eq_some.mp h
    exact .bwrite hg.1 hg.2
  | brelse p x =>
    obtain ⟨hg, ⟨⟩⟩ := ite_none_right_eq_some.mp h
    exact .brelse hg.1 hg.2.1 hg.2.2
  | brelseDone p =>
    simp only [step] at h
    split at h
    · next x hp => cases h; exact .brelseDone hp
    · cases h

lemma binit_inv (disk₀ : Label → Block) : Inv disk₀ (binit disk₀) where
  ring := by
    refine ⟨_, binit_ring disk₀, reverse_perm _, ?_⟩
    exact pairwise_of_forall fun _ _ _ => ⟨rfl, rfl, rfl⟩
  pc p := by simp [PcOk, binit]
  buf x :=
    { counted := ⟨∅, by simp [binit, Pc.waits], rfl⟩, lock_lt := nofun, valid_lt := nofun,
      dirty_valid := nofun, held := nofun, touched := nofun, current := nofun }
  stored k := .inl rfl

lemma step_inv (h : Inv disk₀ s) (hs : step s a = some t) : Inv disk₀ t := by
  cases step_cases hs with
  | bread hp hb => exact bget_inv h hp hb
  | acquiresleep hp hl => exact acquiresleep_inv h hp hl
  | reading hp => exact blockdevRw_reading_inv h hp
  | writing hp => exact blockdevRw_writing_inv h hp
  | modify hp hl => exact modify_inv h hp hl
  | logWrite hp hl => exact markDirty_inv h hp hl (.inl rfl)
  | bwrite hp hl => exact markDirty_inv h hp hl (.inr rfl)
  | brelse hp hl ht => exact releasesleep_inv h hp hl ht
  | brelseDone hp => exact brelse_inv h hp

/-- The system takes the actions `as`, in that order, from `s` to `t`. -/
abbrev Steps (s : State) (as : List Act) (t : State) : Prop :=
  Runs.Run (fun s a t => step s a = some t) s as t

lemma steps_inv {as : List Act} (h : Steps (binit disk₀) as s) : Inv disk₀ s :=
  h.invariant (binit_inv disk₀) fun _ _ _ => step_inv

/-- Process `p` has called `bread` for buffer `x` and not finished `brelse`. -/
def Uses (s : State) (p x : Nat) : Prop := (s.buf x).lock = some p ∨ (s.pc p).waits = some x

/-- The step `a` from `s` to `t` is the one in which `bread` by `p` for
block `k` returns with buffer `x`: it takes the lock of a valid buffer,
or its transfer is done. -/
def Returns (s : State) (a : Act) (t : State) (p x : Nat) (k : Label) : Prop :=
  (a = .acquiresleep p ∧ s.pc p = .locking x k ∨ a = .blockdevRw p ∧ s.pc p = .reading x k) ∧
    t.pc p = .ready

lemma Inv.uses (h : Inv disk₀ s) (hu : Uses s p x) : x < NBUF ∧ ¬ (s.buf x).Fresh := by
  rcases hu with hl | hw
  · have hlock : (s.buf x).lock.isSome := by simp [hl]
    exact ⟨(h.buf x).lock_lt hlock, h.not_fresh_of_lock hlock⟩
  refine ⟨?_, h.not_fresh_of_waits hw⟩
  have hok := h.pc p
  unfold PcOk at hok
  cases hpc : s.pc p <;> rw [hpc] at hok hw <;> cases hw
  · exact hok.1
  · exact hok

lemma step_returns (h : Inv disk₀ s) (hs : step s a = some t) (hr : Returns s a t p x k) :
    (t.buf x).label = k ∧ (t.buf x).lock = some p ∧ (t.buf x).valid ∧
      (t.buf x).data = content disk₀ t k := by
  obtain ⟨⟨rfl, hp⟩ | ⟨rfl, hp⟩, hready⟩ := hr
  · have hok := h.pc p
    unfold PcOk at hok
    rw [hp] at hok
    simp only [step, hp] at hs
    split at hs
    · next hfree =>
      cases hs
      have hvalid : (s.buf x).valid := by
        cases hv : (s.buf x).valid with
        | true => rfl
        | false => simp [goto, hv] at hready
      have hquiet : s.touched x = false := by
        cases ht : s.touched x with
        | false => rfl
        | true => ?_
        have := (h.buf x).touched ht
        rw [hfree] at this
        cases this
      have hcur := (h.buf x).current hvalid hquiet
      rw [hok.2] at hcur
      simp only [goto, setBuf, update_self]
      exact ⟨hok.2, trivial, hvalid, hcur⟩
    · cases hs
  · obtain ⟨hlab, hlock, hclean, hdisk⟩ := h.reading_disk hp
    simp only [step, hp] at hs
    cases hs
    rw [hlab] at hdisk
    simp only [blockdevRw, hclean, goto, setBuf, Bool.false_eq_true, if_false, update_self, hlab]
    exact ⟨trivial, hlock, trivial, hdisk⟩

/-- Buffer `x` keeps its label, and its contents are on the disk once it
is no longer dirty. -/
def Kept (s t : State) (x : Nat) : Prop :=
  (t.buf x).label = (s.buf x).label ∧ (t.buf x).valid ∧
    ((t.buf x).dirty ∨ t.disk (s.buf x).label = (t.buf x).data)

lemma kept_of_update (ht : t.buf = update s.buf y b) (hd : (s.buf x).dirty) (hv : (s.buf x).valid)
    (hb : (s.buf y).dirty → b.label = (s.buf y).label ∧ ((s.buf y).valid → b.valid) ∧
      (b.dirty ∨ t.disk (s.buf y).label = b.data)) : Kept s t x := by
  unfold Kept
  rw [ht]
  by_cases hy : x = y
  · subst hy
    obtain ⟨hl, hv', hd'⟩ := hb hd
    rw [update_self]
    exact ⟨hl, hv' hv, hd'⟩
  · rw [update_of_ne hy]
    exact ⟨rfl, hv, .inl hd⟩

lemma step_kept (h : Inv disk₀ s) (hs : step s a = some t) (hd : (s.buf x).dirty) : Kept s t x := by
  have hv := (h.buf x).dirty_valid hd
  cases step_cases hs with
  | bread hq hb =>
    obtain ⟨-, ⟨-, -, -, -, -, -, -, rfl⟩ | ⟨-, -, hclean, rfl⟩⟩ := bget_cases h hb
    · exact kept_of_update rfl hd hv fun hd => ⟨rfl, id, .inl hd⟩
    · exact kept_of_update rfl hd hv fun hd => by rw [hclean] at hd; cases hd
  | acquiresleep hq hl => exact kept_of_update rfl hd hv fun hd => ⟨rfl, id, .inl hd⟩
  | @reading q y k hq =>
    obtain ⟨-, -, hclean, -⟩ := h.reading_disk hq
    have hbuf : (s.blockdevRw y).buf = update s.buf y
        { s.buf y with data := s.disk (s.buf y).label, valid := true, dirty := false } := by
      simp [blockdevRw, hclean, setBuf]
    exact kept_of_update hbuf hd hv fun hd => by rw [hclean] at hd; cases hd
  | @writing q y hq =>
    have hok := h.pc q
    unfold PcOk at hok
    rw [hq] at hok
    have hbuf : (s.blockdevRw y).buf = update s.buf y
        { s.buf y with valid := true, dirty := false } := by
      simp [blockdevRw, hok.2.1, setBuf]
    refine kept_of_update hbuf hd hv fun _ => ⟨rfl, fun _ => rfl, .inr ?_⟩
    simp [blockdevRw, hok.2.1, goto, setBuf]
  | modify hq hl => exact kept_of_update rfl hd hv fun hd => ⟨rfl, id, .inl hd⟩
  | logWrite hq hl => exact kept_of_update rfl hd hv fun _ => ⟨rfl, id, .inl rfl⟩
  | bwrite hq hl => exact kept_of_update rfl hd hv fun _ => ⟨rfl, id, .inl rfl⟩
  | brelse hq hl ht => exact kept_of_update rfl hd hv fun hd => ⟨rfl, id, .inl hd⟩
  | @brelseDone q y hq =>
    have hbuf : (s.brelse y).buf = update s.buf y (dropped (s.buf y)) := by
      unfold State.brelse
      dsimp only
      split <;> rfl
    exact kept_of_update hbuf hd hv fun hd => ⟨rfl, id, .inl hd⟩

/-- The cache refines the disk, for every interleaving of its callers:
the ring stays a permutation of the buffers; buffers with valid or dirty
contents have distinct labels; two users of one block use one buffer;
and from every state reached, `bread` returns the contents last written
to its block (or the disk's, if none were), while a dirty buffer keeps
its label until a transfer has put its contents on the disk. -/
theorem cache_refines_disk {disk₀ : Label → Block} {as : List Act} {s : State}
    (h : Steps (binit disk₀) as s) :
    (∃ xs, IsRing s.links head xs ∧ xs.Perm (range NBUF)) ∧
    (∀ x y, (s.buf x).label = (s.buf y).label → (s.buf x).valid ∨ (s.buf x).dirty →
      (s.buf y).valid ∨ (s.buf y).dirty → x = y) ∧
    (∀ p q x y, Uses s p x → Uses s q y → (s.buf x).label = (s.buf y).label → x = y) ∧
    ∀ a t, step s a = some t →
      (∀ p x k, Returns s a t p x k → (t.buf x).label = k ∧ (t.buf x).lock = some p ∧
        (t.buf x).valid ∧ (t.buf x).data = apply disk₀ t.written k) ∧
      (∀ x, (s.buf x).dirty → Kept s t x) := by
  have hinv := steps_inv h
  refine ⟨?_, fun x y hl hx hy => ?_, fun p q x y hx hy hl => ?_, fun a t hs => ⟨?_, ?_⟩⟩
  · obtain ⟨xs, hring, hperm, -⟩ := hinv.ring
    exact ⟨xs, hring, hperm⟩
  · have hused : ∀ z, (s.buf z).valid ∨ (s.buf z).dirty → z < NBUF ∧ ¬ (s.buf z).Fresh := by
      intro z hz
      have hv : (s.buf z).valid := hz.elim id (hinv.buf z).dirty_valid
      refine ⟨(hinv.buf z).valid_lt hv, fun hf => ?_⟩
      rw [hf.2.1] at hv
      cases hv
    exact hinv.unique (hused x hx).1 (hused y hy).1 hl (hused x hx).2 (hused y hy).2
  · exact hinv.unique (hinv.uses hx).1 (hinv.uses hy).1 hl (hinv.uses hx).2 (hinv.uses hy).2
  · exact fun p x k hr => step_returns hinv hs hr
  · exact fun x hd => step_kept hinv hs hd

/-- Process 0 reads block 0 of device 0, changes and logs it and releases
it; process 1 then looks the block up. -/
def sampleActs : List Act :=
  [.bread 0 (0, 0), .acquiresleep 0, .blockdevRw 0, .modify 0 29 (fun _ => 7), .logWrite 0 29,
   .brelse 0 29, .brelseDone 0, .bread 1 (0, 0)]

def sampleState : State :=
  (Runs.follow step (binit fun _ _ => 0) sampleActs).getD (binit fun _ _ => 0)

lemma sampleState_steps : Steps (binit fun _ _ => 0) sampleActs sampleState :=
  Runs.run_of_follow rfl

theorem cache_refines_disk_sample : ∃ t, step sampleState (.acquiresleep 1) = some t ∧
    Returns sampleState (.acquiresleep 1) t 1 29 (0, 0) ∧ (t.buf 29).data = fun _ => 7 := by
  have hstep : step sampleState (.acquiresleep 1) = some
      ((sampleState.setBuf 29 { sampleState.buf 29 with lock := some 1 }).goto 1 .ready) := rfl
  have hret : Returns sampleState (.acquiresleep 1)
      ((sampleState.setBuf 29 { sampleState.buf 29 with lock := some 1 }).goto 1 .ready)
      1 29 (0, 0) := ⟨.inl ⟨rfl, rfl⟩, rfl⟩
  refine ⟨_, hstep, hret, ?_⟩
  exact (((cache_refines_disk sampleState_steps).2.2.2 _ _ hstep).1 _ _ _ hret).2.2.2

end Proninx.Bio
