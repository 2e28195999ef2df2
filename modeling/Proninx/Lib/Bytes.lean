import Mathlib.Data.Nat.ModEq

/-!
# Byte memories

A byte memory is a total function from addresses to bytes. Only the
cells a program touches matter, so a fixed-size buffer and a whole disk
are the same kind of object and every bound is a side condition on the
addresses, never part of the type.

The little-endian accessors are generic in the width: `readLe w` and
`writeLe w` cover the 2-, 4- and 8-byte accessors of a program with one
round-trip law (`readLe_writeLe`) and one frame law (`readLe_congr`).
-/

namespace ByteMem

open List Nat

abbrev Mem := Nat → UInt8

/-! ## Agreement on a range -/

/-- `m` and `m'` hold the same bytes on `[a, a + n)`. -/
def Agree (m m' : Mem) (a n : Nat) : Prop :=
  ∀ i, a ≤ i → i < a + n → m i = m' i

variable {m m' : Mem} {a n : Nat} {b : Nat}

lemma Agree.mono {k : Nat} (h : Agree m m' a n)
    (hb : a ≤ b) (hk : b + k ≤ a + n) : Agree m m' b k :=
  fun i hi hj => h i (by omega) (by omega)

/-! ## Bulk writes -/

/-- Copy `n` bytes of `src` (from its address 0) to address `a`. -/
def blit (m : Mem) (a : Nat) (src : Mem) (n : Nat) : Mem :=
  fun i => if a ≤ i ∧ i < a + n then src (i - a) else m i

/-- Fill `[a, a + n)` with one byte. -/
def fill (m : Mem) (a : Nat) (v : UInt8) (n : Nat) : Mem :=
  fun i => if a ≤ i ∧ i < a + n then v else m i

/-- Store one byte. -/
def poke (m : Mem) (a : Nat) (v : UInt8) : Mem :=
  fun i => if i = a then v else m i

/-- Store a list of bytes at a list of addresses. -/
def scatter : List Nat → List UInt8 → Mem → Mem
  | a :: as, v :: vs, m => scatter as vs (poke m a v)
  | _, _, m => m

/-- The memory seen from address `a` on. -/
def shift (m : Mem) (a : Nat) : Mem := fun i => m (a + i)

/-- A byte string as a memory; past its end it reads as zero. -/
def ofList (l : List UInt8) : Mem := fun i => l.getD i 0

def ascii (s : String) : List UInt8 := s.toList.map fun c => UInt8.ofNat c.toNat

/-- The `n` bytes at address `a`. -/
def toList (m : Mem) (a n : Nat) : List UInt8 := (List.range n).map fun i => m (a + i)

variable {src : Mem} {i : Nat}

lemma blit_in (h : a ≤ i) (h' : i < a + n) : blit m a src n i = src (i - a) := if_pos ⟨h, h'⟩

lemma blit_out (h : i < a ∨ a + n ≤ i) : blit m a src n i = m i := if_neg (by omega)

variable {v : UInt8}

lemma fill_in (h : a ≤ i) (h' : i < a + n) : fill m a v n i = v := if_pos ⟨h, h'⟩

lemma fill_out (h : i < a ∨ a + n ≤ i) : fill m a v n i = m i := if_neg (by omega)

@[simp] lemma poke_self (m : Mem) (a : Nat) (v : UInt8) : poke m a v a = v := if_pos rfl

lemma poke_ne (h : i ≠ a) : poke m a v i = m i :=
  if_neg h

@[simp] lemma shift_apply (m : Mem) (a i : Nat) : shift m a i = m (a + i) := rfl

@[simp] lemma blit_zero (m src : Mem) (a : Nat) : blit m a src 0 = m := by
  funext i
  exact blit_out (by omega)

lemma scatter_of_notMem : ∀ {as : List Nat} {vs : List UInt8} {m : Mem}, i ∉ as →
    scatter as vs m i = m i
  | [], _, _, _ => rfl
  | _ :: _, [], _, _ => rfl
  | a :: as, v :: vs, m, h => by
    obtain ⟨ha, has⟩ := not_or.mp (mem_cons.not.mp h)
    rw [scatter, scatter_of_notMem has, poke_ne ha]

lemma map_scatter : ∀ {as : List Nat} {vs : List UInt8} {m : Mem}, as.Nodup →
    as.length = vs.length → as.map (scatter as vs m) = vs
  | [], [], _, _, _ => rfl
  | a :: as, v :: vs, m, hnodup, hlen => by
    obtain ⟨ha, has⟩ := nodup_cons.mp hnodup
    rw [map_cons, scatter, scatter_of_notMem ha, map_scatter has (succ.inj hlen), poke, if_pos rfl]

lemma blit_congr {src' : Mem} (h : Agree src src' 0 n) : blit m a src n = blit m a src' n := by
  funext i
  by_cases hi : a ≤ i ∧ i < a + n
  · rw [blit_in hi.1 hi.2, blit_in hi.1 hi.2, h _ (by omega) (by omega)]
  · rw [blit_out (by omega), blit_out (by omega)]

lemma blit_blit (m src : Mem) (a : Nat) {c : Nat} (h : c ≤ n) :
    blit (blit m a src c) (a + c) (shift src c) (n - c) = blit m a src n := by
  funext i
  by_cases h1 : a ≤ i ∧ i < a + c
  · rw [blit_out (by omega), blit_in h1.1 h1.2, blit_in h1.1 (by omega)]
  by_cases h2 : a + c ≤ i ∧ i < a + n
  · rw [blit_in h2.1 (by omega), blit_in (by omega) h2.2, shift_apply]
    congr 1
    omega
  · rw [blit_out (by omega), blit_out (by omega), blit_out (by omega)]

lemma shift_shift (m : Mem) (a b : Nat) : shift (shift m a) b = shift m (a + b) := by
  funext i
  simp [add_assoc]

@[simp] lemma length_toList (m : Mem) (a n : Nat) : (toList m a n).length = n := by
  simp [toList]

lemma toList_congr (h : Agree m m' a n) : toList m a n = toList m' a n :=
  map_congr_left fun i hi => h _ (by omega) (by have := mem_range.mp hi; omega)

lemma toList_eq_iff {l : List UInt8} :
    toList m a l.length = l ↔ ∀ i < l.length, m (a + i) = ofList l i := by
  constructor
  · intro h i hi
    have hlen : i < (toList m a l.length).length := by simpa using hi
    have hget : (toList m a l.length)[i] = l[i] := by simp [h]
    simpa [toList, ofList, List.getD, hi] using hget
  · intro h
    refine ext_getElem (by simp) fun i hi hi' => ?_
    simpa [toList, ofList, List.getD, hi'] using h i hi'

/-! ## Little-endian words -/

/-- The `w`-byte little-endian word at `a`. -/
def readLe : Nat → Mem → Nat → Nat
  | 0, _, _ => 0
  | w + 1, m, a => (m a).toNat + 256 * readLe w m (a + 1)

/-- Store the low `w` bytes of `v`, little-endian, at `a`. -/
def writeLe (w : Nat) (m : Mem) (a v : Nat) : Mem :=
  fun i => if a ≤ i ∧ i < a + w then UInt8.ofNat (v / 256 ^ (i - a)) else m i

variable {w : Nat}

lemma writeLe_out {v : Nat} (h : i < a ∨ a + w ≤ i) : writeLe w m a v i = m i := if_neg (by omega)

lemma readLe_congr : ∀ {m m' : Mem} {a : Nat}, Agree m m' a w → readLe w m a = readLe w m' a := by
  induction w with
  | zero => intros; rfl
  | succ w ih => ?_
  intro m m' a h
  rw [readLe, readLe, h a (by omega) (by omega), ih (h.mono (by omega) (by omega))]

lemma readLe_lt (w : Nat) : ∀ (m : Mem) (a : Nat), readLe w m a < 256 ^ w := by
  induction w with
  | zero => intros; simp [readLe]
  | succ w ih => ?_
  intro m a
  have h1 := ih m (a + 1)
  have h2 := (m a).toNat_lt
  rw [readLe, pow_succ]
  omega

lemma readLe_writeLe (w : Nat) : ∀ (m : Mem) (a v : Nat),
    readLe w (writeLe w m a v) a = v % 256 ^ w := by
  induction w with
  | zero => intros; simp [readLe, mod_one]
  | succ w ih => ?_
  intro m a v
  -- past its first byte the wide store is the narrow store of `v / 256`
  have hrest : Agree (writeLe (w + 1) m a v) (writeLe w m (a + 1) (v / 256)) (a + 1) w := by
    intro i hi hj
    have hpow : i - a = (i - (a + 1)) + 1 := by omega
    simp only [writeLe]
    rw [if_pos (by omega), if_pos (by omega), hpow, pow_succ, mul_comm,
      ← Nat.div_div_eq_div_mul]
  have hfirst : (writeLe (w + 1) m a v a).toNat = v % 256 := by simp [writeLe]
  rw [readLe, readLe_congr hrest, ih, hfirst, pow_succ, mul_comm (256 ^ w), mod_mul]

lemma readLe_writeLe_of_lt {v : Nat} (h : v < 256 ^ w) : readLe w (writeLe w m a v) a = v := by
  rw [readLe_writeLe, mod_eq_of_lt h]

lemma readLe_writeLe_disjoint {u : Nat} {v : Nat}
    (h : b + w ≤ a ∨ a + u ≤ b) : readLe w (writeLe u m a v) b = readLe w m b :=
  readLe_congr fun _ _ _ => writeLe_out (by omega)

lemma readLe_eq_zero : ∀ {m : Mem} {a : Nat},
    readLe w m a = 0 ↔ ∀ i, a ≤ i → i < a + w → m i = 0 := by
  induction w with
  | zero => intro m a; simp [readLe]; intro i h h'; omega
  | succ w ih => ?_
  intro m a
  rw [readLe, Nat.add_eq_zero_iff, Nat.mul_eq_zero, ih]
  constructor
  · rintro ⟨h0, h⟩ i hi hj
    rcases eq_or_lt_of_le hi with rfl | hlt
    · exact UInt8.toNat_inj.mp h0
    · exact h.resolve_left (by decide) i hlt (by omega)
  · intro h
    exact ⟨by rw [h a (by omega) (by omega)]; rfl, .inr fun i hi hj => h i (by omega) (by omega)⟩

end ByteMem
