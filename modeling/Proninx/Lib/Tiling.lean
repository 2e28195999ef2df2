import Proninx.Lib.Bytes

/-!
# Byte ranges tiled by variable-length records

A record format says how long the record at an address is and whether it
is acceptable; both may only look at the bytes of the record itself.
`Tiles f m lo hi os` says that records at the addresses `os` cover
`[lo, hi)` one after the other.

The main lemma is `Tiles.splice`: rewriting the bytes of one record into
a range that is tiled again leaves the whole range tiled, with the other
records where they were.
-/

namespace Tiling

open ByteMem List

structure Format where
  len : Mem → Nat → Nat
  ok : Mem → Nat → Prop
  pos : ∀ {m o}, ok m o → 0 < len m o
  /-- Neither depends on bytes outside the record. -/
  loc : ∀ {m m' o}, ok m o → Agree m m' o (len m o) → len m' o = len m o ∧ ok m' o

variable (f : Format)

inductive Tiles (m : Mem) : Nat → Nat → List Nat → Prop where
  | nil {hi : Nat} : Tiles m hi hi []
  | cons {lo hi : Nat} {os : List Nat} (hok : f.ok m lo)
      (h : Tiles m (lo + f.len m lo) hi os) : Tiles m lo hi (lo :: os)

/-- The addresses of the records from `lo` on. -/
def walk (m : Mem) (hi : Nat) : (fuel lo : Nat) → List Nat
  | 0, _ => []
  | fuel + 1, lo => if lo < hi then lo :: walk m hi fuel (lo + f.len m lo) else []

variable {f} {m m' : Mem} {lo hi : Nat} {os : List Nat}

lemma Tiles.le (h : Tiles f m lo hi os) : lo ≤ hi := by
  induction h with
  | nil => exact le_rfl
  | cons _ _ ih => omega

variable {o : Nat}

lemma Tiles.lt_of_cons (h : Tiles f m lo hi (o :: os)) : o = lo ∧ lo < hi := by
  cases h with
  | cons hok hrest =>
    have := f.pos hok
    have := hrest.le
    exact ⟨rfl, by omega⟩

lemma Tiles.ok_of_lt (h : Tiles f m lo hi os) (hlt : lo < hi) : f.ok m lo := by
  cases h with
  | nil => omega
  | cons hok _ => exact hok

lemma tiles_append {ps : List Nat} : ∀ {lo : Nat},
    Tiles f m lo hi (os ++ ps) ↔ ∃ mid, Tiles f m lo mid os ∧ Tiles f m mid hi ps := by
  induction os with
  | nil =>
    intro lo
    constructor
    · exact fun h => ⟨lo, .nil, h⟩
    rintro ⟨mid, h, h'⟩
    cases h
    exact h'
  | cons o os ih => ?_
  intro lo
  constructor
  · intro h
    cases h with
    | cons hok hrest =>
      obtain ⟨mid, h1, h2⟩ := ih.mp hrest
      exact ⟨mid, .cons hok h1, h2⟩
  · rintro ⟨mid, h, h'⟩
    cases h with
    | cons hok hrest => exact .cons hok (ih.mpr ⟨mid, hrest, h'⟩)

/-- Each record of a tiling is acceptable and ends inside the range. -/
lemma Tiles.mem (h : Tiles f m lo hi os) (ho : o ∈ os) :
    f.ok m o ∧ lo ≤ o ∧ o + f.len m o ≤ hi := by
  induction h with
  | nil => cases ho
  | cons hok hrest ih => ?_
  rcases mem_cons.mp ho with rfl | ho
  · exact ⟨hok, le_rfl, hrest.le⟩
  obtain ⟨h1, h2, h3⟩ := ih ho
  exact ⟨h1, by omega, h3⟩

lemma Tiles.congr (h : Tiles f m lo hi os)
    (ha : Agree m m' lo (hi - lo)) : Tiles f m' lo hi os := by
  induction h with
  | nil => exact .nil
  | @cons lo hi os hok hrest ih => ?_
  have hle := hrest.le
  obtain ⟨hlen, hok'⟩ := f.loc hok (ha.mono le_rfl (by omega))
  refine .cons hok' ?_
  rw [hlen]
  exact ih (ha.mono (by omega) (by omega))

lemma Tiles.splice {pre post mid : List Nat} (h : Tiles f m lo hi (pre ++ o :: post))
    (hout : ∀ i, i < o ∨ o + f.len m o ≤ i → m' i = m i)
    (hmid : Tiles f m' o (o + f.len m o) mid) : Tiles f m' lo hi (pre ++ (mid ++ post)) := by
  obtain ⟨x, hpre, hrest⟩ := tiles_append.mp h
  obtain ⟨rfl, -⟩ := hrest.lt_of_cons
  cases hrest with
  | cons hok hpost =>
    have h1 := hpre.le
    refine tiles_append.mpr ⟨o, hpre.congr fun i _ hi => (hout i (by omega)).symm, ?_⟩
    exact tiles_append.mpr ⟨_, hmid, hpost.congr fun i hi _ => (hout i (by omega)).symm⟩

lemma Tiles.around {pre post : List Nat} (h : Tiles f m lo hi (pre ++ o :: post)) :
    (∀ p ∈ pre, p + f.len m p ≤ o) ∧ ∀ p ∈ post, o + f.len m o ≤ p := by
  obtain ⟨x, hpre, hrest⟩ := tiles_append.mp h
  obtain ⟨rfl, -⟩ := hrest.lt_of_cons
  cases hrest with
  | cons hok hpost =>
    exact ⟨fun p hp => (hpre.mem hp).2.2, fun p hp => (hpost.mem hp).2.1⟩

lemma Tiles.suffix {mid : Nat} {ps : List Nat} (hp : Tiles f m lo mid ps)
    (ho : Tiles f m lo hi os) (hle : mid ≤ hi) : ∃ rest, Tiles f m mid hi rest := by
  induction hp generalizing os with
  | nil => exact ⟨os, ho⟩
  | @cons lo mid ps hok hrest ih => ?_
  have h1 := f.pos hok
  have h2 := hrest.le
  cases ho with
  | nil => omega
  | cons _ ho' => exact ih ho' hle

lemma Tiles.walk_eq (h : Tiles f m lo hi os) :
    ∀ {fuel : Nat}, os.length < fuel → walk f m hi fuel lo = os := by
  induction h with
  | nil =>
    intro fuel hf
    obtain ⟨n, rfl⟩ : ∃ n, fuel = n + 1 := ⟨fuel - 1, by omega⟩
    simp [walk]
  | @cons lo hi os hok hrest ih => ?_
  intro fuel hf
  rw [length_cons] at hf
  obtain ⟨n, rfl⟩ : ∃ n, fuel = n + 1 := ⟨fuel - 1, by omega⟩
  have h1 := f.pos hok
  have h2 := hrest.le
  rw [walk, if_pos (by omega), ih (by omega)]

lemma Tiles.length_mul_le {k : Nat} (h : Tiles f m lo hi os)
    (hk : ∀ o, f.ok m o → k ≤ f.len m o) : k * os.length ≤ hi - lo := by
  induction h with
  | nil => simp
  | @cons lo hi os hok hrest ih => ?_
  have h1 := hk lo hok
  have h2 := hrest.le
  rw [length_cons, Nat.mul_succ]
  omega

end Tiling
