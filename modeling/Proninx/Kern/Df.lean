import Proninx.Kern.NativeTable

/-!
# Free space (`sys_df`)

`sys_df` counts the clear bits for as many blocks as there are data blocks,
but from number `bmapstart * BPB` on: `BBLOCK` adds the start of the bitmap
once more, and the bits are those of blocks behind the bitmap.
-/

namespace Proninx.Native

open List Nat Prog

variable (sb : Superblock)

def clearBits (data : Block) : (n bi : Nat) → Nat
  | 0, _ => 0
  | n + 1, bi => (if bitSet data bi then 0 else 1) + clearBits data n (bi + 1)

/-- `native_count_free_blocks`, a turn for each block that is read. -/
def nativeCountFreeBlocks (bend : Nat) : (fuel b : Nat) → Prog Nat
  | 0, _ => pure 0
  | fuel + 1, b =>
    if b < bend then do
      let data ← bread (bblock sb b)
      brelse (bblock sb b)
      let rest ← nativeCountFreeBlocks bend fuel (b + min BPB (bend - b))
      pure (clearBits data (min BPB (bend - b)) 0 + rest)
    else pure 0

/-- `free_bytes` of a native root, for the `nblocks` of its superblock. -/
def sysDf (nblocks : Nat) : Prog Nat := do
  let bend := (sb.bmapstart * BPB + nblocks) % 2 ^ 32
  let free ← nativeCountFreeBlocks sb bend bend (sb.bmapstart * BPB % 2 ^ 32)
  pure (min free nblocks * BSIZE)

/-- The superblocks of `mkfs`, with data blocks from `start` on. -/
structure Made (start nblocks : Nat) : Prop where
  start_eq : start = sb.bmapstart + (sb.size / BPB + 1)
  nblocks_eq : start + nblocks = sb.size
  int : sb.size < 2 ^ 31

def freeBlocks (d : Disk) (b n : Nat) : Nat := (List.range' b n).countP fun b => !used sb d b

variable {sb} {d : Disk} {bend : Nat}

lemma clearBits_eq {b : Nat} (hb : BPB ∣ b) (n : Nat) : ∀ bi, bi + n ≤ BPB →
    clearBits (d (bblock sb b)) n bi = freeBlocks sb d (b + bi) n := by
  obtain ⟨q, rfl⟩ := hb
  induction n with
  | zero => exact fun _ _ => rfl
  | succ n ih => ?_
  intro bi hbi
  have hlt : bi < BPB := by omega
  have hused : used sb d (BPB * q + bi) = bitSet (d (bblock sb (BPB * q))) bi := by
    rw [used, bblock, bblock, mul_add_mod, mod_eq_of_lt hlt,
      mul_add_div (by decide), div_eq_of_lt hlt, Nat.mul_div_cancel_left _ (by decide),
      add_zero]
  rw [clearBits, ih (bi + 1) (by omega), freeBlocks, freeBlocks, range'_succ,
    countP_cons, hused, add_comm, add_assoc]
  cases bitSet (d (bblock sb (BPB * q))) bi <;> rfl

lemma nativeCountFreeBlocks_run (fuel : Nat) : ∀ b, (b < bend → BPB ∣ b) → bend - b ≤ fuel →
    (nativeCountFreeBlocks sb bend fuel b).run d = .ok (freeBlocks sb d b (bend - b), d) := by
  induction fuel with
  | zero =>
    intro b _ hfuel
    rw [Nat.le_zero.mp hfuel]
    rfl
  | succ fuel ih => ?_
  intro b hb hfuel
  rw [nativeCountFreeBlocks]
  split
  · next hlt =>
    have hpos : 0 < BPB := by decide
    have hrest := ih (b + min BPB (bend - b)) (fun hmore => ?_) (by omega)
    · rw [run_bread_bind, run_brelse_bind, run_bind_ok hrest, run_pure,
        clearBits_eq (hb hlt) _ 0 (by omega), add_zero, freeBlocks, freeBlocks, freeBlocks,
        ← countP_append, range'_append_1]
      congr 4
      omega
    · rw [Nat.min_eq_left (by omega)]
      exact Nat.dvd_add (hb hlt) (Nat.dvd_refl BPB)
  · next hlt =>
    rw [Nat.sub_eq_zero_of_le (not_lt.mp hlt)]
    rfl

/-- Four data blocks behind the one of the bitmap. -/
def smallRoot : Superblock := ⟨8, 4, 2, 3⟩

end Proninx.Native
