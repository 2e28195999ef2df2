import Mathlib.Data.Nat.ModEq

/-!
# Page tables with pages of several sizes

Tables of `w` entries in levels. An entry of level `l` stands for `w ^ l`
pages: it is empty, or a leaf that takes all of them to consecutive frames,
or a table of entries of the level below. `walk` goes down to the entry of
a level, with new tables where there are none, and changes it; a leaf on
the way stops it, and so does the end of the free pages.
-/

namespace LargePages

open Function Nat Option

variable {π : Type}

inductive Entry (π : Type) where
  | empty
  | leaf (frame : Nat) (perm : π)
  | table (entry : Nat → Entry π)

/-- The index of a page in a table whose entries have level `l`. -/
def index (w l k : Nat) : Nat := k / w ^ l % w

/-- The frame of page `k`. -/
def get (w : Nat) : Nat → Entry π → Nat → Option Nat
  | _, .empty, _ => none
  | l, .leaf f _, k => some (f + k % w ^ l)
  | 0, .table _, _ => none
  | l + 1, .table t, k => get w l (t (index w l k)) k

/-- The frame of page `k` with its permission. -/
def look (w : Nat) : Nat → Entry π → Nat → Option (Nat × π)
  | _, .empty, _ => none
  | l, .leaf f perm, k => some (f + k % w ^ l, perm)
  | 0, .table _, _ => none
  | l + 1, .table t, k => look w l (t (index w l k)) k

/-- Change the entry of level `stop` for page `k` by `f`, with `free` pages
for new tables. -/
def walk (w stop k : Nat) (f : Entry π → Entry π) : Nat → Entry π → Nat → Option (Entry π × Nat)
  | 0, e, free => if 0 = stop then some (f e, free) else none
  | l + 1, e, free =>
    if l + 1 = stop then some (f e, free)
    else
      match e, free with
      | .leaf _ _, _ => none
      | .table t, free =>
        (walk w stop k f l (t (index w l k)) free).map fun r =>
          (.table (update t (index w l k) r.1), r.2)
      | .empty, 0 => none
      | .empty, free + 1 =>
        (walk w stop k f l .empty free).map fun r =>
          (.table (update (fun _ => .empty) (index w l k) r.1), r.2)

/-- Pages `k` and `j` have the same entry of level `stop` under one of level
`l`. -/
def Together (w stop l k j : Nat) : Prop := k % w ^ l / w ^ stop = j % w ^ l / w ^ stop

variable {w stop l k j : Nat}

lemma together_top : Together w l l k j := by
  unfold Together
  rcases Nat.eq_zero_or_pos (w ^ l) with h | h
  · rw [h, Nat.div_zero, Nat.div_zero]
  · rw [div_eq_of_lt (mod_lt k h), div_eq_of_lt (mod_lt j h)]

lemma together_succ (hw : 0 < w) (hstop : stop ≤ l) :
    Together w stop (l + 1) k j ↔ index w l k = index w l j ∧ Together w stop l k j := by
  obtain ⟨d, rfl⟩ := Nat.exists_eq_add_of_le hstop
  have hpos : 0 < w ^ stop := Nat.pow_pos hw
  have hsplit : ∀ x, x % w ^ (stop + d + 1) / w ^ stop =
      x % w ^ (stop + d) / w ^ stop + w ^ d * index w (stop + d) x := by
    intro x
    rw [mod_pow_succ, Nat.pow_add, mul_assoc, add_mul_div_left _ _ hpos, index, Nat.pow_add]
  have hlt : ∀ x, x % w ^ (stop + d) / w ^ stop < w ^ d := by
    intro x
    rw [Nat.div_lt_iff_lt_mul hpos, Nat.mul_comm, ← Nat.pow_add]
    exact mod_lt _ (Nat.pow_pos hw)
  unfold Together
  rw [hsplit, hsplit]
  constructor
  · intro h
    have hdiv := congrArg (· / w ^ d) h
    have hmod := congrArg (· % w ^ d) h
    simp only [add_mul_div_left _ _ (Nat.pow_pos hw), div_eq_of_lt (hlt _), Nat.zero_add,
      add_mul_mod_self_left, mod_eq_of_lt (hlt _)] at hdiv hmod
    exact ⟨hdiv, hmod⟩
  · rintro ⟨hindex, hlow⟩
    rw [hindex, hlow]

variable {f : Entry π → Entry π} {e : Entry π} {free : Nat}

lemma walk_stop : walk w l k f l e free = some (f e, free) := by
  cases l with
  | zero => rw [walk, if_pos rfl]
  | succ l => rw [walk.eq_def]; exact if_pos rfl

lemma walk_succ {e' : Entry π} {free' : Nat} (hstop : stop ≤ l)
    (h : walk w stop k f (l + 1) e free = some (e', free')) :
    ∃ t e1 free1, (e = .table t ∨ e = .empty ∧ t = fun _ => .empty) ∧
      walk w stop k f l (t (index w l k)) free1 = some (e1, free') ∧
      e' = .table (update t (index w l k) e1) := by
  rw [walk.eq_def] at h
  dsimp only at h
  rw [if_neg (by omega)] at h
  split at h
  · cases h
  · obtain ⟨⟨e1, free1⟩, hwalk, heq⟩ := map_eq_some_iff.mp h
    cases heq
    exact ⟨_, _, _, .inl rfl, hwalk, rfl⟩
  · cases h
  obtain ⟨⟨e1, free1⟩, hwalk, heq⟩ := map_eq_some_iff.mp h
  cases heq
  exact ⟨_, _, _, .inr ⟨rfl, rfl⟩, hwalk, rfl⟩

lemma look_succ {t : Nat → Entry π} (h : e = .table t ∨ e = .empty ∧ t = fun _ => .empty)
    (j : Nat) : look w (l + 1) e j = look w l (t (index w l j)) j := by
  rcases h with rfl | ⟨rfl, rfl⟩
  · rw [look]
  · rw [look, look]

/-- The pages under the entry that a walk changes have what that entry says,
before and after, and the others have what they had. -/
lemma look_walk (hw : 0 < w) : ∀ {l : Nat} {e e' : Entry π} {free free' : Nat}, stop ≤ l →
      walk w stop k f l e free = some (e', free') → ∃ e0, ∀ j,
        (Together w stop l k j → look w l e' j = look w stop (f e0) j ∧ look w l e j = look w stop e0 j) ∧
        (¬ Together w stop l k j → look w l e' j = look w l e j) := by
  intro l
  induction l with
  | zero =>
    intro e e' free free' hstop h
    obtain rfl : stop = 0 := Nat.le_zero.mp hstop
    rw [walk_stop] at h
    cases h
    exact ⟨e, fun j => ⟨fun _ => ⟨rfl, rfl⟩, fun hnot => absurd together_top hnot⟩⟩
  | succ l ih => ?_
  intro e e' free free' hstop h
  rcases hstop.lt_or_eq with hlt | rfl
  · have hle : stop ≤ l := le_of_lt_succ hlt
    obtain ⟨t, e1, free1, hcases, hwalk, rfl⟩ := walk_succ hle h
    obtain ⟨e0, hih⟩ := ih hle hwalk
    refine ⟨e0, fun j => ?_⟩
    rw [together_succ hw hle, look_succ (.inl rfl), look_succ hcases]
    by_cases hindex : index w l k = index w l j
    · rw [← hindex, update_self]
      exact ⟨fun hsame => (hih j).1 hsame.2, fun hnot => (hih j).2 fun hlow => hnot ⟨rfl, hlow⟩⟩
    rw [update_of_ne (Ne.symm hindex)]
    exact ⟨fun hsame => absurd hsame.1 hindex, fun _ => rfl⟩
  · rw [walk_stop] at h
    cases h
    exact ⟨e, fun j => ⟨fun _ => ⟨rfl, rfl⟩, fun hnot => absurd together_top hnot⟩⟩

lemma look_walk_id (hw : 0 < w) {e' : Entry π} {free' : Nat} (hstop : stop ≤ l)
    (h : walk w stop k id l e free = some (e', free')) : look w l e' j = look w l e j := by
  obtain ⟨e0, hlook⟩ := look_walk hw hstop h
  by_cases htogether : Together w stop l k j
  · obtain ⟨hnew, hold⟩ := (hlook j).1 htogether
    exact hnew.trans hold.symm
  · exact (hlook j).2 htogether

lemma get_eq_look : ∀ (l : Nat) (e : Entry π) (k : Nat), get w l e k = (look w l e k).map Prod.fst
  | 0, .empty, _ | _ + 1, .empty, _ | 0, .leaf _ _, _ | _ + 1, .leaf _ _, _ | 0, .table _, _ => rfl
  | l + 1, .table t, k => get_eq_look l (t (index w l k)) k

lemma get_walk_id (hw : 0 < w) {e' : Entry π} {free' : Nat} (hstop : stop ≤ l)
    (h : walk w stop k id l e free = some (e', free')) : get w l e' j = get w l e j := by
  rw [get_eq_look, get_eq_look, look_walk_id hw hstop h]

/-! ## Leaves -/

/-- The pages under the entry of an aligned page are the `w ^ stop` pages
from there on, counted around the `w ^ l` pages of the whole. -/
lemma together_iff (hw : 0 < w) (hstop : stop ≤ l) (hdvd : w ^ stop ∣ k) :
    Together w stop l k j ↔ (k + j % w ^ stop) % w ^ l = j % w ^ l := by
  obtain ⟨d, rfl⟩ := Nat.exists_eq_add_of_le hstop
  obtain ⟨a, rfl⟩ := hdvd
  have hpos : 0 < w ^ stop := Nat.pow_pos hw
  rw [Together, Nat.pow_add, mod_mul_right_div_self, mod_mul_right_div_self,
    Nat.mul_div_cancel_left a hpos]
  constructor
  · intro h
    have hmod : w ^ stop * a ≡ w ^ stop * (j / w ^ stop) [MOD w ^ stop * w ^ d] :=
      Nat.ModEq.mul_left' (w ^ stop) h
    have hadd := hmod.add_right (j % w ^ stop)
    rwa [div_add_mod] at hadd
  intro h
  have hadd : w ^ stop * a + j % w ^ stop ≡ w ^ stop * (j / w ^ stop) + j % w ^ stop
      [MOD w ^ stop * w ^ d] := by
    rw [div_add_mod]
    exact h
  exact Nat.ModEq.mul_left_cancel' hpos.ne' (Nat.ModEq.add_right_cancel' _ hadd)

lemma offset_eq (hstop : stop ≤ l) (hdvd : w ^ stop ∣ k) {i : Nat}
    (hi : i < w ^ stop) (h : (k + i) % w ^ l = j % w ^ l) : i = j % w ^ stop := by
  have hmod : k + i ≡ j [MOD w ^ stop] :=
    Nat.ModEq.of_dvd (Nat.pow_dvd_pow w hstop) h
  have hk : k ≡ 0 [MOD w ^ stop] := (modEq_zero_iff_dvd).mpr hdvd
  have hij : i ≡ j [MOD w ^ stop] := by simpa using (hk.add_right i).symm.trans hmod
  rw [← mod_eq_of_lt hi]
  exact hij

/-- A walk that puts a leaf in takes the pages from `k` on to the frames
from `f` on with its permission, and leaves the others. -/
lemma look_walk_leaf (hw : 0 < w) (hstop : stop ≤ l) (hdvd : w ^ stop ∣ k) {f : Nat} {perm : π} {q : Nat × π}
    {e' : Entry π} {free' : Nat}
    (h : walk w stop k (fun _ => .leaf f perm) l e free = some (e', free')) :
    look w l e' j = some q ↔ (∃ i < w ^ stop, (k + i) % w ^ l = j % w ^ l ∧ q = (f + i, perm)) ∨
      (∀ i < w ^ stop, (k + i) % w ^ l ≠ j % w ^ l) ∧ look w l e j = some q := by
  obtain ⟨e0, hlook⟩ := look_walk hw hstop h
  obtain ⟨hin, hout⟩ := hlook j
  by_cases htogether : Together w stop l k j
  · have hoff := (together_iff hw hstop hdvd).mp htogether
    have hlt : j % w ^ stop < w ^ stop := mod_lt j (Nat.pow_pos hw)
    rw [(hin htogether).1, look]
    constructor
    · intro hq
      exact .inl ⟨_, hlt, hoff, (some.inj hq).symm⟩
    rintro (⟨i, hi, hmod, rfl⟩ | ⟨hnone, -⟩)
    · rw [offset_eq hstop hdvd hi hmod]
    · exact absurd hoff (hnone _ hlt)
  · have hnone : ∀ i < w ^ stop, (k + i) % w ^ l ≠ j % w ^ l := fun i hi hmod =>
      htogether ((together_iff hw hstop hdvd).mpr (offset_eq hstop hdvd hi hmod ▸ hmod))
    rw [hout htogether]
    constructor
    · exact fun hq => .inr ⟨hnone, hq⟩
    rintro (⟨i, hi, hmod, -⟩ | ⟨-, hq⟩)
    · exact absurd hmod (hnone i hi)
    · exact hq

end LargePages
