import Mathlib.Tactic.Common

/-!
# Holders and marks

Holders of a type `ι` hold units of a type `β`, and every unit has a mark.
The ledger is balanced when exactly the units that are reserved or held
are marked, nobody holds a reserved unit and no two holders have the same
one. An allocator takes unmarked units for its holders and gives them
back; the rules here are what it has to show at each of these steps.
-/

namespace Ledger

variable {ι β : Type}

/-- The marks of the units of `domain` agree with what is held. -/
structure Balanced (domain reserved marked : β → Prop) (holds : ι → β → Prop) : Prop where
  once : ∀ p q b, holds p b → holds q b → p = q
  inside : ∀ p b, holds p b → domain b ∧ ¬ reserved b
  marked_iff : ∀ b, domain b → (marked b ↔ reserved b ∨ ∃ p, holds p b)

variable {domain reserved marked marked' : β → Prop} {holds holds' : ι → β → Prop}

section

variable (h : Balanced domain reserved marked holds)
include h

lemma Balanced.mark {p : ι} {b : β} (hp : holds p b) : marked b :=
  (h.marked_iff b (h.inside p b hp).1).mpr (.inr ⟨p, hp⟩)

lemma Balanced.congr (hmark : ∀ b, domain b → (marked' b ↔ marked b))
    (hholds : ∀ p b, holds' p b ↔ holds p b) :
    Balanced domain reserved marked' holds' where
  once p q b hp hq := h.once p q b ((hholds p b).mp hp) ((hholds q b).mp hq)
  inside p b hp := h.inside p b ((hholds p b).mp hp)
  marked_iff b hb := by
    rw [hmark b hb, h.marked_iff b hb]
    simp only [hholds]

lemma Balanced.widen {domain' : β → Prop} (hsub : ∀ b, domain b → domain' b)
    (hnew : ∀ b, domain' b → ¬ domain b → ¬ marked b ∧ ¬ reserved b) :
    Balanced domain' reserved marked holds where
  once := h.once
  inside p b hp := ⟨hsub b (h.inside p b hp).1, (h.inside p b hp).2⟩
  marked_iff b hb := by
    by_cases hd : domain b
    · exact h.marked_iff b hd
    refine ⟨fun hm => absurd hm (hnew b hb hd).1, ?_⟩
    rintro (hr | ⟨p, hp⟩)
    · exact absurd hr (hnew b hb hd).2
    · exact absurd (h.inside p b hp).1 hd

lemma Balanced.take {p : ι} {b : β} (hb : domain b) (hfree : ¬ marked b)
    (hmark : ∀ c, domain c → (marked' c ↔ marked c ∨ c = b))
    (hholds : ∀ q c, holds' q c ↔ holds q c ∨ (q = p ∧ c = b)) :
    Balanced domain reserved marked' holds' where
  once q r c hq hr := by
    rcases (hholds q c).mp hq with hq | ⟨rfl, rfl⟩ <;> rcases (hholds r c).mp hr with hr | ⟨rfl, hc⟩
    · exact h.once q r c hq hr
    · exact absurd (h.mark (hc ▸ hq)) hfree
    · exact absurd (h.mark hr) hfree
    · rfl
  inside q c hq := by
    rcases (hholds q c).mp hq with hq | ⟨rfl, rfl⟩
    · exact h.inside q c hq
    · exact ⟨hb, fun hr => hfree ((h.marked_iff c hb).mpr (.inl hr))⟩
  marked_iff c hc := by
    rw [hmark c hc, h.marked_iff c hc, or_assoc]
    refine or_congr_right ⟨?_, ?_⟩
    · rintro (⟨q, hq⟩ | rfl)
      · exact ⟨q, (hholds q c).mpr (.inl hq)⟩
      · exact ⟨p, (hholds p c).mpr (.inr ⟨rfl, rfl⟩)⟩
    · rintro ⟨q, hq⟩
      exact ((hholds q c).mp hq).imp (fun hq => ⟨q, hq⟩) And.right

lemma Balanced.drop {p : ι} {b : β} (hp : holds p b) (honly : ∀ c, holds p c → c = b)
    (hmark : ∀ c, domain c → (marked' c ↔ marked c ∧ c ≠ b))
    (hholds : ∀ q c, holds' q c ↔ holds q c ∧ q ≠ p) :
    Balanced domain reserved marked' holds' where
  once q r c hq hr := h.once q r c ((hholds q c).mp hq).1 ((hholds r c).mp hr).1
  inside q c hq := h.inside q c ((hholds q c).mp hq).1
  marked_iff c hc := by
    rw [hmark c hc, h.marked_iff c hc]
    constructor
    · rintro ⟨hr | ⟨q, hq⟩, hne⟩
      · exact .inl hr
      refine .inr ⟨q, (hholds q c).mpr ⟨hq, ?_⟩⟩
      rintro rfl
      exact hne (honly c hq)
    · rintro (hr | ⟨q, hq⟩)
      · exact ⟨.inl hr, fun hcb => (h.inside p b hp).2 (hcb ▸ hr)⟩
      obtain ⟨hq, hne⟩ := (hholds q c).mp hq
      exact ⟨.inr ⟨q, hq⟩, fun hcb => hne (h.once q p c hq (hcb ▸ hp))⟩

lemma Balanced.move {p q : ι} {b : β} (hp : holds p b) (honly : ∀ c, holds p c → c = b)
    (hholds : ∀ r c, holds' r c ↔ holds r c ∧ r ≠ p ∨ r = q ∧ c = b) :
    Balanced domain reserved marked holds' where
  once r r' c hr hr' := by
    rcases (hholds r c).mp hr with ⟨hr, hne⟩ | ⟨rfl, rfl⟩ <;>
      rcases (hholds r' c).mp hr' with ⟨hr', hne'⟩ | ⟨rfl, hc⟩
    · exact h.once r r' c hr hr'
    · exact absurd (h.once r p c hr (hc ▸ hp)) hne
    · exact absurd (h.once r' p c hr' hp) hne'
    · rfl
  inside r c hr := by
    rcases (hholds r c).mp hr with ⟨hr, -⟩ | ⟨-, rfl⟩
    · exact h.inside r c hr
    · exact h.inside p c hp
  marked_iff c hc := by
    rw [h.marked_iff c hc]
    refine or_congr_right ⟨?_, ?_⟩
    · rintro ⟨r, hr⟩
      by_cases hne : r = p
      · subst hne
        exact ⟨q, (hholds q c).mpr (.inr ⟨rfl, honly c hr⟩)⟩
      · exact ⟨r, (hholds r c).mpr (.inl ⟨hr, hne⟩)⟩
    · rintro ⟨r, hr⟩
      rcases (hholds r c).mp hr with ⟨hr, -⟩ | ⟨-, rfl⟩
      · exact ⟨r, hr⟩
      · exact ⟨p, hp⟩

end

end Ledger
