import Mathlib.Data.List.GetD
import Proninx.Lib.Bytes

/-!
# C strings

A C string is a stretch of a byte memory up to its first zero byte. The
byte list `l` stands for the string with these bytes; `ofList l` is a
memory that holds it at address 0, because it reads as zero from its end
on. `strncmp` stops at the first difference, at a terminator or after `n`
bytes, and what it accepts is said here once, for memories and for lists.
-/

namespace ByteMem

open List Option

/-- `strncmp(p, q, n) == 0`, from byte `i` on. -/
def strncmpEq (p q : Mem) : (n i : Nat) → Bool
  | 0, _ => true
  | n + 1, i => if p i ≠ 0 ∧ p i = q i then strncmpEq p q n (i + 1) else p i == q i

/-- The bytes of the string at `a`, if it ends within `n` bytes. -/
def cstring (m : Mem) (a n : Nat) : Option (List UInt8) :=
  ((List.range n).find? fun i => m (a + i) == 0).map (toList m a)

lemma strncmpEq_iff {p q : Mem} (n : Nat) : ∀ i, strncmpEq p q n i ↔
    ∃ k ≤ n, (∀ j < k, p (i + j) ≠ 0 ∧ p (i + j) = q (i + j)) ∧
      (k = n ∨ (p (i + k) = 0 ∧ q (i + k) = 0)) := by
  induction n with
  | zero =>
    intro i
    exact iff_of_true rfl ⟨0, le_rfl, fun j hj => by omega, .inl rfl⟩
  | succ n ih => ?_
  intro i
  unfold strncmpEq
  split
  · next h =>
    rw [ih]
    constructor
    · rintro ⟨k, hk, hall, hend⟩
      refine ⟨k + 1, by omega, fun j hj => ?_, ?_⟩
      · cases j with
        | zero => exact h
        | succ j => ?_
        have := hall j (by omega)
        rwa [add_assoc, add_comm 1] at this
      · rw [add_assoc, add_comm 1] at hend
        exact hend.imp_left fun heq => by omega
    rintro ⟨k, hk, hall, hend⟩
    cases k with
    | zero => exact absurd (hend.resolve_left (by omega)).1 h.1
    | succ k => ?_
    refine ⟨k, by omega, fun j hj => ?_, ?_⟩
    · have := hall (j + 1) (by omega)
      rwa [add_comm j, ← add_assoc] at this
    rw [add_comm k, ← add_assoc] at hend
    exact hend.imp_left fun heq => by omega
  · next h =>
    rw [beq_iff_eq]
    constructor
    · intro heq
      have hzero : p i = 0 := by
        by_contra hne
        exact h ⟨hne, heq⟩
      exact ⟨0, by omega, fun j hj => by omega, .inr ⟨hzero, heq ▸ hzero⟩⟩
    rintro ⟨k, hk, hall, hend⟩
    cases k with
    | zero =>
      obtain ⟨hp, hq⟩ := hend.resolve_left (by omega)
      exact hp.trans hq.symm
    | succ k => exact absurd (hall 0 (by omega)) h

/-- A string does not hold its terminator. -/
def Nonzero (l : List UInt8) : Prop := ∀ b ∈ l, b ≠ 0

instance (l : List UInt8) : Decidable (Nonzero l) :=
  decidable_of_iff (0 ∉ l) ⟨fun h _ hb h0 => h (h0 ▸ hb), fun h h0 => h 0 h0 rfl⟩

variable {l : List UInt8}

lemma ofList_lt {i : Nat} (h : i < l.length) : ofList l i = l[i] :=
  (getD_eq_getElem _ _ h)

lemma ofList_ge {i : Nat} (h : l.length ≤ i) : ofList l i = 0 :=
  getD_eq_default _ _ h

lemma Nonzero.ofList_ne (hl : Nonzero l) {i : Nat} (h : i < l.length) : ofList l i ≠ 0 := by
  rw [ofList_lt h]
  exact hl _ (getElem_mem h)

lemma strncmpEq_ofList {k : List UInt8} (hl : Nonzero l) (hk : Nonzero k) {n : Nat}
    (hn : l.length < n ∨ k.length < n ∨ (l.length = n ∧ k.length = n)) :
    strncmpEq (ofList l) (ofList k) n 0 ↔ l = k := by
  rw [strncmpEq_iff]
  simp only [zero_add]
  constructor
  · rintro ⟨c, hc, hall, hend⟩
    have hl' : c ≤ l.length := by
      by_contra hlt
      exact (hall l.length (by omega)).1 (ofList_ge le_rfl)
    have hk' : c ≤ k.length := by
      by_contra hlt
      have := hall k.length (by omega)
      exact this.1 (this.2.trans (ofList_ge le_rfl))
    have hlen : l.length = c ∧ k.length = c := by
      rcases hend with rfl | ⟨h1, h2⟩
      · omega
      constructor
      · by_contra hne
        exact hl.ofList_ne (show c < l.length by omega) h1
      by_contra hne
      exact hk.ofList_ne (show c < k.length by omega) h2
    refine ext_getElem (hlen.1.trans hlen.2.symm) fun i h1 h2 => ?_
    rw [← ofList_lt h1, ← ofList_lt h2]
    exact (hall i (by omega)).2
  · rintro rfl
    refine ⟨min l.length n, min_le_right .., fun j hj => ⟨hl.ofList_ne (by omega), rfl⟩, ?_⟩
    by_cases h : l.length < n
    · exact .inr ⟨ofList_ge (by omega), ofList_ge (by omega)⟩
    · exact .inl (by omega)

lemma strncmpEq_congr {p p' q : Mem} {e : Nat} (hp : ∀ i ≤ e, p i = p' i) (he : p e = 0)
    (n : Nat) : ∀ i ≤ e, strncmpEq p q n i = strncmpEq p' q n i := by
  induction n with
  | zero => exact fun _ _ => rfl
  | succ n ih => ?_
  intro i hi
  unfold strncmpEq
  rw [← hp i hi]
  split
  · next h =>
    have hne : i ≠ e := by
      rintro rfl
      exact h.1 he
    exact ih (i + 1) (by omega)
  · rfl

structure IsString (m : Mem) (a : Nat) (l : List UInt8) : Prop where
  nonzero : Nonzero l
  bytes : ∀ i, i ≤ l.length → m (a + i) = ofList l i

lemma cstring_some {m : Mem} {a n : Nat} (h : cstring m a n = some l) : IsString m a l := by
  obtain ⟨k, hk, rfl⟩ := map_eq_some_iff.mp h
  obtain ⟨hzero, -, hbefore⟩ := List.find?_range_eq_some.mp hk
  have hlen : (toList m a k).length = k := by simp [toList]
  have hget : ∀ i < k, ofList (toList m a k) i = m (a + i) := fun i hi => by
    rw [ofList_lt (by omega)]
    simp [toList]
  refine ⟨fun b hb => ?_, fun i hi => ?_⟩
  · obtain ⟨i, hi, rfl⟩ := mem_map.mp hb
    simpa using hbefore i (mem_range.mp hi)
  rcases Nat.lt_or_eq_of_le (hlen ▸ hi) with hlt | rfl
  · rw [hget i hlt]
  rw [ofList_ge (by omega)]
  simpa using hzero

end ByteMem
