import Mathlib.Data.List.Nodup

/-!
# Circular doubly linked lists

Nodes carry a `prev` and a `next` pointer and a sentinel node `h` closes
the circle. `IsRing l h xs` says that following `next` from `h` visits
`xs` and comes back, and that `prev` undoes every step. The two pointer
operations are proved against the obvious list operations: `unlink`
removes a node and `pushFront` puts one right after the sentinel. A walk
around the ring in either direction is `List.find?` on `xs` or its
reverse.
-/

namespace LinkRing

open Function List

variable {ν : Type}

structure Links (ν : Type) where
  prev : ν → ν
  next : ν → ν

/-- The stretch of the list from `a` over `xs` to `b`. -/
def Seg (l : Links ν) (a : ν) : List ν → ν → Prop
  | [], b => l.next a = b ∧ l.prev b = a
  | x :: xs, b => (l.next a = x ∧ l.prev x = a) ∧ Seg l x xs b

structure IsRing (l : Links ν) (h : ν) (xs : List ν) : Prop where
  seg : Seg l h xs h
  nodup : (h :: xs).Nodup

/-- The ring of the sentinel alone. -/
def single (h : ν) : Links ν where
  prev := fun _ => h
  next := fun _ => h

/-! ## Segments -/

variable {l : Links ν} {xs : List ν} {x : ν}

lemma seg_append {ys : List ν} {b : ν} : ∀ {a : ν},
    Seg l a (xs ++ x :: ys) b ↔ Seg l a xs x ∧ Seg l x ys b := by
  induction xs with
  | nil => intro a; rfl
  | cons y xs ih => ?_
  intro a
  rw [cons_append, Seg, ih, Seg, ← and_assoc]

lemma Seg.congr {l' : Links ν} {b : ν} : ∀ {a : ν}, Seg l a xs b →
    (∀ u ∈ a :: xs, l'.next u = l.next u) → (∀ v, v ∈ xs ∨ v = b → l'.prev v = l.prev v) →
      Seg l' a xs b := by
  induction xs with
  | nil =>
    intro a h hn hp
    rw [Seg, hn a mem_cons_self, hp b (.inr rfl)]
    exact h
  | cons x xs ih => ?_
  intro a h hn hp
  rw [Seg, hn a mem_cons_self, hp x (.inl mem_cons_self)]
  exact ⟨h.1, ih h.2 (fun u hu => hn u (mem_cons_of_mem _ hu))
    (fun v hv => hp v (hv.imp_left (mem_cons_of_mem _)))⟩

lemma Seg.last {a : ν} (h : Seg l a xs x) : ∃ u ∈ a :: xs, l.next u = x ∧ l.prev x = u ∧
      ∀ (l' : Links ν) (y : ν), (∀ v ∈ a :: xs, v ≠ u → l'.next v = l.next v) →
        (∀ v ∈ xs, l'.prev v = l.prev v) → l'.next u = y → l'.prev y = u →
          (a :: xs).Nodup → Seg l' a xs y := by
  rcases eq_nil_or_concat xs with rfl | ⟨ys, u, rfl⟩
  · exact ⟨a, mem_cons_self, h.1, h.2, fun l' y _ _ hn hp _ => ⟨hn, hp⟩⟩
  rw [concat_eq_append] at h ⊢
  rw [seg_append] at h
  obtain ⟨hys, hn, hp⟩ := h
  refine ⟨u, by simp, hn, hp, fun l' y hnext hprev hn' hp' hnd => ?_⟩
  rw [seg_append]
  refine ⟨hys.congr (fun v hv => hnext v ?_ ?_) (fun v hv => hprev v (by simpa using hv)), hn', hp'⟩
  · rw [mem_cons] at hv ⊢
    exact hv.imp_right (mem_append_left _)
  rintro rfl
  rw [← cons_append] at hnd
  exact disjoint_of_nodup_append hnd hv (by simp)

lemma Seg.first {b : ν} (h : Seg l x xs b) : ∃ v, (v ∈ xs ∨ v = b) ∧ l.next x = v ∧ l.prev v = x ∧
      ∀ (l' : Links ν) (y : ν), (∀ w ∈ xs, l'.next w = l.next w) →
        (∀ w, w ∈ xs ∨ w = b → w ≠ v → l'.prev w = l.prev w) → l'.next y = v → l'.prev v = y →
          (b :: xs).Nodup → Seg l' y xs b := by
  cases xs with
  | nil => exact ⟨b, .inr rfl, h.1, h.2, fun l' y _ _ hn hp _ => ⟨hn, hp⟩⟩
  | cons v xs => ?_
  obtain ⟨⟨hn, hp⟩, hxs⟩ := h
  refine ⟨v, .inl mem_cons_self, hn, hp, fun l' y hnext hprev hn' hp' hnd => ?_⟩
  refine ⟨⟨hn', hp'⟩, hxs.congr hnext fun w hw => hprev w ?_ ?_⟩
  · exact hw.imp_left (mem_cons_of_mem _)
  rintro rfl
  rw [nodup_cons, nodup_cons] at hnd
  rcases hw with hw | rfl
  · exact hnd.2.1 hw
  · exact hnd.1 mem_cons_self

lemma Seg.reverse {b : ν} : ∀ {a : ν}, Seg l a xs b → Seg ⟨l.next, l.prev⟩ b xs.reverse a := by
  induction xs with
  | nil => intro a h; exact ⟨h.2, h.1⟩
  | cons x xs ih => ?_
  intro a h
  rw [reverse_cons, seg_append]
  exact ⟨ih h.2, h.1.2, h.1.1⟩

lemma isRing_single (h : ν) : IsRing (single h) h [] := ⟨⟨rfl, rfl⟩, by simp⟩

/-! ## The operations -/

variable [DecidableEq ν]

/-- Take `x` out: `x->next->prev = x->prev; x->prev->next = x->next`. -/
def unlink (l : Links ν) (x : ν) : Links ν :=
  let l : Links ν := { l with prev := update l.prev (l.next x) (l.prev x) }
  { l with next := update l.next (l.prev x) (l.next x) }

/-- Put `x` after `h`: `x->next = h->next; x->prev = h; h->next->prev = x;
h->next = x`. -/
def pushFront (l : Links ν) (h x : ν) : Links ν :=
  let l : Links ν := { l with next := update l.next x (l.next h) }
  let l : Links ν := { l with prev := update l.prev x h }
  let l : Links ν := { l with prev := update l.prev (l.next h) x }
  { l with next := update l.next h x }

/-- Walk from `x` along `step` until the sentinel or the first node that
passes the test; `none` also when the fuel runs out. -/
def scan (step : ν → ν) (h : ν) (p : ν → Bool) : Nat → ν → Option ν
  | 0, _ => none
  | fuel + 1, x => if x = h then none else if p x then some x else scan step h p fuel (step x)

lemma unlink_next (h : l.next x ≠ x) : (unlink l x).next = update l.next (l.prev x) (l.next x) := by
  simp [unlink, update_of_ne h.symm]

lemma unlink_prev (l : Links ν) (x : ν) :
    (unlink l x).prev = update l.prev (l.next x) (l.prev x) := rfl

variable {h : ν}

lemma IsRing.unlink {as bs : List ν} (hr : IsRing l h (as ++ x :: bs)) :
    IsRing (unlink l x) h (as ++ bs) := by
  have hnd : (h :: as ++ x :: bs).Nodup := hr.nodup
  have hnd' : (h :: as ++ bs).Nodup :=
    hnd.sublist ((List.Sublist.refl _).append (sublist_cons_self ..))
  refine ⟨?_, hnd'⟩
  obtain ⟨has, hbs⟩ := seg_append.mp hr.seg
  obtain ⟨u, hu, -, hup, hredir⟩ := has.last
  have hdisj := disjoint_of_nodup_append hnd
  have hnx : ∀ v ∈ h :: as, v ≠ x := fun v hv => by
    rintro rfl
    exact hdisj hv mem_cons_self
  have hndl : (h :: as).Nodup := hnd.of_append_left
  cases bs with
  | nil =>
    obtain ⟨hn, -⟩ := hbs
    have hne : l.next x ≠ x := hn ▸ hnx h mem_cons_self
    rw [append_nil]
    refine hredir _ h (fun v _ hv => ?_) (fun v hv => ?_) ?_ ?_ hndl
    · rw [unlink_next hne, hup, update_of_ne hv]
    · rw [unlink_prev, hn, update_of_ne]
      rintro rfl
      exact (nodup_cons.mp hndl).1 hv
    · rw [unlink_next hne, hup, hn, update_self]
    · rw [unlink_prev, hup, hn, update_self]
  | cons y bs => ?_
  obtain ⟨⟨hn, -⟩, hrest⟩ := hbs
  have hndr := hnd.of_append_right
  rw [nodup_cons, nodup_cons] at hndr
  have hyx : y ≠ x := fun heq => hndr.1 (heq ▸ mem_cons_self)
  have hne : l.next x ≠ x := hn ▸ hyx
  have hy : y ∉ h :: as := fun hm =>
    hdisj hm (mem_cons_of_mem _ mem_cons_self)
  rw [seg_append]
  refine ⟨hredir _ y (fun v _ hv => ?_) (fun v hv => ?_) ?_ ?_ hndl, ?_⟩
  · rw [unlink_next hne, hup, update_of_ne hv]
  · rw [unlink_prev, hn, update_of_ne]
    rintro rfl
    exact hy (mem_cons_of_mem _ hv)
  · rw [unlink_next hne, hup, hn, update_self]
  · rw [unlink_prev, hup, hn, update_self]
  refine hrest.congr (fun v hv => ?_) (fun v hv => ?_)
  · rw [unlink_next hne, hup, update_of_ne]
    rintro rfl
    exact hdisj hu (mem_cons_of_mem _ hv)
  rw [unlink_prev, hn, update_of_ne]
  rintro rfl
  rcases hv with hv | rfl
  · exact hndr.2.1 hv
  · exact hy mem_cons_self

lemma IsRing.pushFront (hr : IsRing l h xs) (hx : x ∉ h :: xs) :
    IsRing (pushFront l h x) h (x :: xs) := by
  have hxh : x ≠ h := fun heq => hx (heq ▸ mem_cons_self)
  obtain ⟨v, hv, hn, -, hredir⟩ := hr.seg.first
  have hvx : v ≠ x := by
    rintro rfl
    exact hx (hv.elim (mem_cons_of_mem _) (fun heq => heq ▸ mem_cons_self))
  have hnext : (LinkRing.pushFront l h x).next = update (update l.next x v) h x := by
    simp [LinkRing.pushFront, hn]
  have hprev : (LinkRing.pushFront l h x).prev = update (update l.prev x h) v x := by
    simp [LinkRing.pushFront, update_of_ne hxh.symm, hn]
  have hndx : (h :: xs).Nodup := hr.nodup
  refine ⟨⟨⟨?_, ?_⟩, hredir _ x (fun w hw => ?_) (fun w hw hwv => ?_) ?_ ?_ hndx⟩, ?_⟩
  · rw [hnext, update_self]
  · rw [hprev, update_of_ne hvx.symm, update_self]
  · have hwh : w ≠ h := fun heq => (nodup_cons.mp hndx).1 (heq ▸ hw)
    have hwx : w ≠ x := fun heq => hx (heq ▸ mem_cons_of_mem _ hw)
    rw [hnext, update_of_ne hwh, update_of_ne hwx]
  · have hwx : w ≠ x := by
      rintro rfl
      exact hx (hw.elim (mem_cons_of_mem _) (fun heq => heq ▸ mem_cons_self))
    rw [hprev, update_of_ne hwv, update_of_ne hwx]
  · rw [hnext, update_of_ne hxh, update_self]
  · rw [hprev, update_self]
  rw [nodup_cons, mem_cons, nodup_cons]
  rw [mem_cons] at hx
  rw [nodup_cons] at hndx
  exact ⟨fun hm => hm.elim (fun heq => hxh heq.symm) hndx.1, fun hm => hx (.inr hm), hndx.2⟩

/-! ## Walks -/

lemma Seg.scan_next {p : ν → Bool} : ∀ {a : ν} {fuel : Nat},
    Seg l a xs h → h ∉ xs → xs.length < fuel → scan l.next h p fuel (l.next a) = xs.find? p := by
  induction xs with
  | nil =>
    intro a fuel hs _ hf
    obtain ⟨fuel, rfl⟩ := Nat.exists_eq_add_of_lt hf
    simp [hs.1, scan]
  | cons x xs ih => ?_
  intro a fuel hs hh hf
  rw [length_cons] at hf
  obtain ⟨fuel, rfl⟩ : ∃ n, fuel = n + 1 := ⟨fuel - 1, by omega⟩
  rw [mem_cons, not_or] at hh
  rw [hs.1.1, scan, if_neg (Ne.symm hh.1), List.find?_cons]
  cases hp : p x with
  | true => rfl
  | false => exact ih hs.2 hh.2 (by omega)

lemma IsRing.scan_next (hr : IsRing l h xs) (p : ν → Bool) {fuel : Nat} (hf : xs.length < fuel) :
    scan l.next h p fuel (l.next h) = xs.find? p :=
  hr.seg.scan_next (nodup_cons.mp hr.nodup).1 hf

lemma IsRing.scan_prev (hr : IsRing l h xs) (p : ν → Bool) {fuel : Nat} (hf : xs.length < fuel) :
    scan l.prev h p fuel (l.prev h) = xs.reverse.find? p :=
  hr.seg.reverse.scan_next (by simpa using (nodup_cons.mp hr.nodup).1) (by simpa using hf)

end LinkRing
