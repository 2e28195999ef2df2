import Mathlib.Data.List.Chain
import Mathlib.Data.Nat.ModEq
import Proninx.Lib.Runs

/-!
# The console arena

`vmem_init`, `vmem_alloc` and `vmem_free` of `kalloc.c`: the headers in the
order of their `next` links. Addresses count from the start of the arena.
-/

namespace Proninx.Vmem

open List Option Runs

def VMEM_ALIGN : Nat := 4096

def VMEM_HDR : Nat := 64

/-- `used` also says what was asked for. -/
structure Block where
  addr : Nat
  size : Nat
  used : Option Nat
  deriving DecidableEq

def vmemInit (size : Nat) : List Block := [⟨0, size, none⟩]

def need (bytes : Nat) : Nat := (VMEM_HDR + bytes + VMEM_ALIGN - 1) / VMEM_ALIGN * VMEM_ALIGN

/-- `vmem_alloc` from a block on: the address and the new list. -/
def vmemAlloc (bytes : Nat) : List Block → Option (Nat × List Block)
  | [] => none
  | b :: bs =>
    if b.used ≠ none ∨ b.size < need bytes then
      (vmemAlloc bytes bs).map fun r => (r.1, b :: r.2)
    else if (need bytes + 2 * VMEM_ALIGN) % 2 ^ 64 ≤ b.size then
      some (b.addr + VMEM_HDR, ⟨b.addr, need bytes, some bytes⟩ ::
        ⟨b.addr + need bytes, b.size - need bytes, none⟩ :: bs)
    else some (b.addr + VMEM_HDR, { b with used := some bytes } :: bs)

/-- The loop of `vmem_free` at block `b`. -/
def coalesce (b : Block) : List Block → List Block
  | [] => [b]
  | n :: bs =>
    if b.used = none ∧ n.used = none then coalesce { b with size := b.size + n.size } bs
    else b :: coalesce n bs

def mark (p : Nat) (b : Block) : Block :=
  { b with used := if b.addr + VMEM_HDR = p then none else b.used }

def vmemFree (p : Nat) (bs : List Block) : List Block :=
  match bs.map (mark p) with
  | [] => []
  | b :: bs => coalesce b bs

inductive Act where
  | alloc (bytes : Nat)
  | free (p : Nat)

/-- The rounding of a size does not overflow, and what is freed is live. -/
def step (bs : List Block) : Act → Option (List Block)
  | .alloc bytes =>
    if VMEM_HDR + bytes + VMEM_ALIGN - 1 < 2 ^ 64 then
      some (if bytes = 0 then bs else (vmemAlloc bytes bs).elim bs Prod.snd)
    else none
  | .free p =>
    if ∃ b ∈ bs, b.addr + VMEM_HDR = p ∧ b.used ≠ none then some (vmemFree p bs) else none

abbrev Steps : List Block → List Act → List Block → Prop := Run fun bs a bs' => step bs a = some bs'

def Tiles : (start stop : Nat) → List Block → Prop
  | start, stop, [] => start = stop
  | start, stop, b :: bs => b.addr = start ∧ Tiles (start + b.size) stop bs

/-- There is room for what was asked for. -/
def Block.Roomy (b : Block) : Prop := ∀ n, b.used = some n → VMEM_HDR + n ≤ b.size

def Apart (b c : Block) : Prop := b.used ≠ none ∨ c.used ≠ none

/-- The blocks after block `x`. -/
structure Sound (x : Block) (stop : Nat) (bs : List Block) : Prop where
  tiles : Tiles (x.addr + x.size) stop bs
  roomy : ∀ b ∈ bs, b.Roomy
  apart : (x :: bs).IsChain Apart

variable {bytes start stop size : Nat} {x b : Block} {bs bs' : List Block}

lemma Sound.cons (hb : b.addr = x.addr + x.size) (hr : b.Roomy) (hx : Apart x b)
    (h : Sound b stop bs) : Sound x stop (b :: bs) :=
  ⟨⟨hb, hb ▸ h.tiles⟩, forall_mem_cons.mpr ⟨hr, h.roomy⟩, h.apart.cons_cons hx⟩

lemma Sound.tail (h : Sound x stop (b :: bs)) : Sound b stop bs :=
  ⟨h.tiles.1 ▸ h.tiles.2, (forall_mem_cons.mp h.roomy).2, h.apart.tail⟩

/-- What follows a free block may follow any block that ends there. -/
lemma Sound.front (h : Sound b stop bs) (hb : b.used = none)
    (hx : x.addr + x.size = b.addr + b.size) : Sound x stop bs := by
  refine ⟨hx ▸ h.tiles, h.roomy, ?_⟩
  cases bs with
  | nil => exact isChain_singleton _
  | cons c bs =>
    obtain ⟨hbc, hbs⟩ := isChain_cons_cons.mp h.apart
    exact hbs.cons_cons (.inr (hbc.resolve_left (not_not.mpr hb)))

lemma roomy_of_free (h : b.used = none) : b.Roomy := fun n hn => by
  rw [h] at hn
  cases hn

lemma roomy_of_need {a n : Nat} (h : need bytes ≤ n) : Block.Roomy ⟨a, n, some bytes⟩ := by
  rintro _ ⟨⟩
  unfold need at h
  unfold VMEM_HDR VMEM_ALIGN at *
  dsimp only
  omega

lemma Sound.alloc {p : Nat} (hs : Sound x stop bs) (h : vmemAlloc bytes bs = some (p, bs')) :
    Sound x stop bs' ∧ bs' ≠ [] := by
  induction bs generalizing x bs' p with
  | nil => cases h
  | cons b bs ih => ?_
  have hb := hs.tiles.1
  rw [vmemAlloc] at h
  split_ifs at h with hskip
  · obtain ⟨⟨q, cs⟩, hcs, hr⟩ := map_eq_some_iff.mp h
    obtain rfl := (Prod.mk.inj hr).2
    exact ⟨.cons hb (hs.roomy b mem_cons_self) (isChain_cons_cons.mp hs.apart).1 (ih hs.tail hcs).1,
      cons_ne_nil _ _⟩
  all_goals
    obtain ⟨hfree, hsize⟩ := not_or.mp hskip
    have hfree := not_not.mp hfree
    obtain rfl := (Prod.mk.inj (some.inj h)).2
    refine ⟨?_, cons_ne_nil _ _⟩
  · refine .cons hb (roomy_of_need le_rfl) (.inr (some_ne_none _))
      (.cons rfl (roomy_of_free rfl) (.inl (some_ne_none _)) (hs.tail.front hfree ?_))
    dsimp only
    omega
  · exact .cons hb (roomy_of_need (not_lt.mp hsize)) (.inr (some_ne_none _))
      (hs.tail.front hfree rfl)

lemma sound_coalesce (hx : Apart x b) (ht : Tiles (x.addr + x.size) stop (b :: bs))
    (h : ∀ c ∈ b :: bs, c.Roomy) : Sound x stop (coalesce b bs) ∧ coalesce b bs ≠ [] := by
  induction bs generalizing x b with
  | nil => exact ⟨⟨ht, h, .cons_cons hx (isChain_singleton _)⟩, cons_ne_nil _ _⟩
  | cons n bs ih =>
    obtain ⟨hb, hn, ht⟩ := ht
    obtain ⟨hr, hrs⟩ := forall_mem_cons.mp h
    rw [coalesce]
    split_ifs with hfree
    · refine ih hx ⟨hb, ?_⟩ (forall_mem_cons.mpr ⟨roomy_of_free hfree.1, (forall_mem_cons.mp hrs).2⟩)
      rw [← Nat.add_assoc]
      exact ht
    · rw [← hb] at hn ht
      exact ⟨.cons hb hr hx (ih (not_and_or.mp hfree) ⟨hn, ht⟩ hrs).1, cons_ne_nil _ _⟩

lemma tiles_mark (p : Nat) : Tiles start stop (bs.map (mark p)) ↔ Tiles start stop bs := by
  induction bs generalizing start with
  | nil => rfl
  | cons b bs ih => exact and_congr_right fun _ => ih

lemma Block.Roomy.mark (h : b.Roomy) (p : Nat) : (mark p b).Roomy := by
  unfold Vmem.mark
  split_ifs
  · exact roomy_of_free rfl
  · exact h

/-- A used block before the first. -/
def origin : Block := ⟨0, 0, some 0⟩

lemma Sound.step {act : Act} (h : Sound origin size bs ∧ bs ≠ []) (hstep : step bs act = some bs') :
    Sound origin size bs' ∧ bs' ≠ [] := by
  cases act with
  | alloc bytes =>
    rw [Vmem.step] at hstep
    split_ifs at hstep
    · cases hstep
      exact h
    cases halloc : vmemAlloc bytes bs with
    | none => exact (some.inj hstep) ▸ halloc ▸ h
    | some r => exact (some.inj hstep) ▸ halloc ▸ h.1.alloc halloc
  | free p =>
    rw [Vmem.step] at hstep
    split_ifs at hstep
    obtain rfl := some.inj hstep
    have ht := (tiles_mark p).mpr h.1.tiles
    have hr := forall_mem_map.mpr fun b hb => (h.1.roomy b hb).mark p
    cases bs with
    | nil => exact absurd rfl h.2
    | cons b bs => exact sound_coalesce (.inl (some_ne_none 0)) ht hr

lemma Tiles.isChain (h : Tiles start stop bs) :
    bs.IsChain fun b c => b.addr + b.size ≤ c.addr := by
  induction bs generalizing start with
  | nil => exact .nil
  | cons b bs ih => ?_
  cases bs with
  | nil => exact isChain_singleton _
  | cons c bs => exact (ih h.2).cons_cons (by rw [h.1, h.2.1])

end Proninx.Vmem
