import Proninx.Lib.Bytes

/-!
# Finding the processors

`mpinit` of `mp.c` with `acpi_mp_init` of `acpi.c`. A table is the memory
from its first byte on: a walker that reads past the end of its table reads
what follows. The answers of `ioremap` may depend on all that was asked
before. The IMCR ports are left out.
-/

namespace Proninx.Mp

open ByteMem Option

def NCPU : Nat := 8

/-- `ncpu` is the number of `cpus`, the last found first. -/
structure Machine where
  cpus : List UInt8
  ioapicid : UInt8
  ioapic : Nat
  lapic : Nat
  /-- What `ioremap` was asked for, the last first. -/
  mapped : List Nat
  few : cpus.length ≤ NCPU

def Machine.addCpu (s : Machine) (apicid : UInt8) : Machine :=
  if h : s.cpus.length < NCPU then { s with cpus := apicid :: s.cpus, few := h } else s

variable (ioremap : List Nat → Nat)

def Machine.setIoapic (s : Machine) (id : UInt8) (addr : Nat) : Machine :=
  { s with ioapicid := id, ioapic := ioremap (addr :: s.mapped), mapped := addr :: s.mapped }

def Machine.setLapic (s : Machine) (addr : Nat) : Machine :=
  { s with lapic := ioremap (addr :: s.mapped), mapped := addr :: s.mapped }

/-- An entry of the MADT; the number is `lapic_phys`. -/
def madtEntry (t : Mem) (p : Nat) (s : Machine × Nat) : Machine × Nat :=
  match (t p).toNat with
  | 0 => if readLe 4 t (p + 4) % 4 ≠ 0 then (s.1.addCpu (t (p + 3)), s.2) else s
  | 1 => if s.1.ioapic = 0 then (s.1.setIoapic ioremap (t (p + 2)) (readLe 4 t (p + 4)), s.2) else s
  | 5 => (s.1, readLe 8 t (p + 4))
  | _ => s

def madtWalk (t : Mem) (stop p : Nat) (s : Machine × Nat) : Machine × Nat :=
  let length := (t (p + 1)).toNat
  if _ : p < stop ∧ 2 ≤ length ∧ p + length ≤ stop then
    madtWalk t stop (p + length) (madtEntry ioremap t p s)
  else s
termination_by stop - p

/-- `acpi_mp_init`; `false` is -1. -/
def acpiMpInit (madt : Option Mem) (s : Machine) : Machine × Bool :=
  match madt with
  | none => (s, false)
  | some t =>
    let r := madtWalk ioremap t (readLe 4 t 4) 44
      ({ s with cpus := [], ioapic := 0, few := Nat.zero_le _ }, readLe 4 t 36)
    if r.1.cpus = [] ∨ r.1.ioapic = 0 ∨ r.2 = 0 then (r.1, false)
    else (r.1.setLapic ioremap r.2, true)

/-- `mpconfig` for what the floating pointer leads to. -/
def mpconfig (found : Option Mem) : Option Mem :=
  found.filter fun t => toList t 0 4 = ascii "PCMP" ∧ (t 6 = 1 ∨ t 6 = 4) ∧
    (toList t 0 (readLe 2 t 4)).foldl (· + ·) 0 = 0

/-- One turn of the loop: the next place and `ismp`. The `break` of an
unknown entry leaves only the `switch`. -/
def confEntry (t : Mem) (p : Nat) (s : Machine × Bool) : Nat × Machine × Bool :=
  match (t p).toNat with
  | 0 => (p + 20, s.1.addCpu (t (p + 1)), s.2)
  | 2 => (p + 8, s.1.setIoapic ioremap (t (p + 1)) (readLe 4 t (p + 4)), s.2)
  | 1 | 3 | 4 => (p + 8, s)
  | _ => (p, s.1, false)

/-- `none` if the loop needs more than `turns` turns. -/
def confWalk (t : Mem) (stop : Nat) : (turns p : Nat) → Machine × Bool → Option (Machine × Bool)
  | 0, _, _ => none
  | turns + 1, p, s =>
    if p < stop then confWalk t stop turns (confEntry ioremap t p s).1 (confEntry ioremap t p s).2
    else some s

inductive Outcome where
  | returns (s : Machine)
  | expectSmp
  | notSuitable

def mpinit (madt found : Option Mem) (s : Machine) (turns : Nat) : Option Outcome :=
  let a := acpiMpInit ioremap madt s
  if a.2 then some (.returns a.1)
  else
    match mpconfig found with
    | none => some .expectSmp
    | some t =>
      (confWalk ioremap t (readLe 2 t 4) turns 44 (a.1.setLapic ioremap (readLe 4 t 36), true)).map
        fun r => if r.2 then .returns r.1 else .notSuitable

/-- The places of the entries, to the first of unknown type. -/
inductive Entry (t : Mem) : Nat → Prop where
  | first : Entry t 44
  | next {p : Nat} : Entry t p → p < readLe 2 t 4 → (t p).toNat ≤ 4 →
      Entry t (p + if (t p).toNat = 0 then 20 else 8)

variable {ioremap} {t : Mem} {stop p : Nat}

lemma confEntry_place (t : Mem) (p : Nat) (s : Machine × Bool) : (confEntry ioremap t p s).1 =
    if 4 < (t p).toNat then p else p + if (t p).toNat = 0 then 20 else 8 := by
  unfold confEntry
  split <;> simp_all
  omega

lemma confWalk_unknown (hp : p < stop) (h : 4 < (t p).toNat) :
    ∀ (turns : Nat) (s : Machine × Bool), confWalk ioremap t stop turns p s = none
  | 0, _ => rfl
  | turns + 1, s => by
    rw [confWalk, if_pos hp, confEntry_place, if_pos h]
    exact confWalk_unknown hp h turns _

/-- A loop that does not end from an entry on does not end. -/
lemma Entry.confWalk_none (he : Entry t p) (h : ∀ turns s,
    confWalk ioremap t (readLe 2 t 4) turns p s = none) (turns : Nat) (s : Machine × Bool) :
    confWalk ioremap t (readLe 2 t 4) turns 44 s = none := by
  induction he with
  | first => exact h turns s
  | next _ hp hknown ih => ?_
  refine ih fun turns s => ?_
  cases turns with
  | zero => rfl
  | succ turns => rw [confWalk, if_pos hp, confEntry_place, if_neg (not_lt.mpr hknown), h]

lemma Entry.confWalk_ends (hall : ∀ p, Entry t p → p < readLe 2 t 4 → (t p).toNat ≤ 4)
    (he : Entry t p) {turns : Nat} (h : readLe 2 t 4 - p < turns) (s : Machine × Bool) :
    (confWalk ioremap t (readLe 2 t 4) turns p s).isSome := by
  induction turns generalizing p s with
  | zero => omega
  | succ turns ih => ?_
  rw [confWalk]
  split_ifs with hp
  · have hknown := hall p he hp
    rw [confEntry_place, if_neg (not_lt.mpr hknown)]
    refine ih (he.next hp hknown) ?_ _
    split_ifs <;> omega
  · rfl

/-- `mpinit` ends, with no more processors than there is room for, unless it
comes to an entry of unknown type in the MP configuration table. -/
theorem mpinit_ends_iff (ioremap : List Nat → Nat) (madt found : Option Mem) (s : Machine) :
    (∃ turns o, mpinit ioremap madt found s turns = some o ∧
      ∀ s', o = .returns s' → s'.cpus.length ≤ NCPU) ↔
      (acpiMpInit ioremap madt s).2 = true ∨ ∀ t, mpconfig found = some t →
        ∀ p, Entry t p → p < readLe 2 t 4 → (t p).toNat ≤ 4 := by
  have hfew : ∀ o : Outcome, ∀ s', o = .returns s' → s'.cpus.length ≤ NCPU := fun _ s' _ => s'.few
  simp only [hfew, implies_true, and_true, ← isSome_iff_exists, mpinit]
  cases hacpi : (acpiMpInit ioremap madt s).2 with
  | true => exact iff_of_true ⟨0, rfl⟩ (.inl rfl)
  | false => ?_
  cases hconf : mpconfig found with
  | none => exact iff_of_true ⟨0, rfl⟩ (.inr fun _ h => by cases h)
  | some t => ?_
  simp only [Bool.false_eq_true, if_false, isSome_map, false_or, some.injEq, forall_eq']
  constructor
  · rintro ⟨turns, hturns⟩ p he hp
    by_contra hunknown
    rw [he.confWalk_none (confWalk_unknown hp (not_le.mp hunknown))] at hturns
    cases hturns
  · exact fun hall => ⟨_, Entry.confWalk_ends hall .first (Nat.lt_succ_self _) _⟩

/-- A table of 52 bytes with one entry, of type 5. -/
def typeFive : Mem := fun i => [80, 67, 77, 80, 52, 0, 4, 147].getD i (if i = 44 then 5 else 0)

theorem typeFive_loops : mpconfig (some typeFive) = some typeFive ∧ ∀ turns,
    mpinit (fun _ => 1) none (some typeFive) ⟨[], 0, 0, 0, [], Nat.zero_le _⟩ turns = none := by
  have hconf : mpconfig (some typeFive) = some typeFive := by
    rw [mpconfig, filter_some, if_pos (by decide)]
  refine ⟨hconf, fun turns => ?_⟩
  simp only [mpinit, acpiMpInit, hconf, Bool.false_eq_true, if_false]
  rw [confWalk_unknown (by decide) (by decide)]
  rfl

end Proninx.Mp
