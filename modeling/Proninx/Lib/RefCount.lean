import Mathlib.Algebra.Order.BigOperators.Group.Finset

/-!
# Reference counts

Holders of a type `ι` hold references to objects of a type `β`, several
to one object if they like, and every object has a count. `Counted` says
that the counts add up. A step in which one holder changes what it holds
has to change the counts by the same amount; a reference that moves from
one holder to another changes none.
-/

namespace RefCount

open Finset Function

variable {ι β : Type} [Fintype ι]

def Counted (ref : β → Nat) (held : ι → β → Nat) : Prop := ∀ b, ref b = ∑ p, held p b

variable {ref ref' : β → Nat} {held held' : ι → β → Nat}

lemma Counted.le (h : Counted ref held) (p : ι) (b : β) : held p b ≤ ref b := by
  rw [h b]
  exact Finset.single_le_sum (f := fun q => held q b) (fun _ _ => Nat.zero_le _) (Finset.mem_univ p)

variable [DecidableEq ι]

lemma sum_off (F G : ι → Nat) (i : ι) (h : ∀ j ≠ i, G j = F j) :
    ∑ j, G j + F i = ∑ j, F j + G i := by
  have herase : ∑ j ∈ Finset.univ.erase i, G j = ∑ j ∈ Finset.univ.erase i, F j :=
    sum_congr rfl fun j hj => h j (ne_of_mem_erase hj)
  have hF := add_sum_erase Finset.univ F (mem_univ i)
  have hG := add_sum_erase Finset.univ G (mem_univ i)
  omega

lemma Counted.one (h : Counted ref held) {p : ι} (hother : ∀ q ≠ p, ∀ b, held' q b = held q b)
    (hp : ∀ b, ref' b + held p b = ref b + held' p b) : Counted ref' held' := by
  intro b
  have hsum := sum_off (held · b) (held' · b) p fun q hq => hother q hq b
  have href := h b
  have hpb := hp b
  omega

lemma Counted.move (h : Counted ref held) {p q : ι} (hpq : q ≠ p)
    (hother : ∀ r ≠ p, r ≠ q → ∀ b, held' r b = held r b)
    (hsum : ∀ b, held p b + held q b = held' p b + held' q b) : Counted ref held' := by
  intro b
  -- First `q` gets its new references, then `p` loses them.
  obtain ⟨mid, hq, hmid⟩ : ∃ mid : ι → Nat, mid q = held' q b ∧ ∀ r ≠ q, mid r = held r b :=
    ⟨update (held · b) q (held' q b), update_self .., fun r hr =>
      update_of_ne hr _ _⟩
  have h1 := sum_off (held · b) mid q hmid
  have h2 := sum_off mid (held' · b) p fun r hr => by
    by_cases hrq : r = q
    · rw [hrq, hq]
    · rw [hmid r hrq, hother r hr hrq b]
  have hp := hmid p hpq.symm
  have href := h b
  have hb := hsum b
  omega

lemma Counted.add_le (h : Counted ref held) {p q : ι} (hpq : p ≠ q) (b : β) :
    held p b + held q b ≤ ref b := by
  rw [h b, ← Finset.add_sum_erase _ _ (Finset.mem_univ p)]
  refine Nat.add_le_add_left ?_ _
  exact Finset.single_le_sum (f := fun q => held q b) (fun _ _ => Nat.zero_le _)
    (mem_erase.mpr ⟨hpq.symm, mem_univ q⟩)

end RefCount
