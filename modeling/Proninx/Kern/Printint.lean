import Mathlib.Data.BitVec

/-!
# Printing numbers (`printint` of `console.c`)

`printint` stores the digits of a 64-bit value in a buffer of sixteen
characters, the last digit first, and then prints the buffer backwards.
Sixteen are enough in base 16; in base 10 they are not.
-/

namespace Proninx.Console

open List Nat

/-- The conversions of `cprintf` that end in `printint`: `%d`, `%u`, and
`%x` or `%p`. An `l` before the letter lets any 64-bit value through. -/
inductive Conversion where
  | d | u | x

def Conversion.base : Conversion → Nat
  | .d | .u => 10
  | .x => 16

def Conversion.sign : Conversion → Bool
  | .d => true
  | .u | .x => false

def BUFSIZE : Nat := 16

def digits : List Char := "0123456789abcdef".toList

/-- The loop over the digits of `x`, with what is in `buf` so far. -/
def storeDigits (base : Nat) : (fuel x : Nat) → (buf : List Char) → List Char
  | 0, _, buf => buf
  | fuel + 1, x, buf =>
    let buf := buf ++ [digits.getD (x % base) '0']
    if x / base ≠ 0 then storeDigits base fuel (x / base) buf else buf

/-- All that `printint` stores, from `buf[0]` on. -/
def stored (xx : BitVec 64) (base : Nat) (sign : Bool) : List Char :=
  let sign := sign && xx.slt 0
  let x := if sign then -xx else xx
  let buf := storeDigits base (x.toNat + 1) x.toNat []
  if sign then buf ++ ['-'] else buf

/-- The characters given to `consputc_raw`. -/
def printint (xx : BitVec 64) (base : Nat) (sign : Bool) : List Char := (stored xx base sign).reverse

/-- The value that is meant, in its usual notation. -/
def canonical (c : Conversion) (xx : BitVec 64) : List Char :=
  if c.sign then (if xx.toInt < 0 then ['-'] else []) ++ toDigits c.base xx.toInt.natAbs
  else toDigits c.base xx.toNat

lemma digits_eq : ∀ k < 16, digits.getD k '0' = digitChar k := by decide

lemma storeDigits_eq {base : Nat} (hb : 1 < base) (h16 : base ≤ 16) (fuel : Nat) :
    ∀ (x : Nat) (buf : List Char), x < fuel →
      storeDigits base fuel x buf = buf ++ (toDigits base x).reverse := by
  induction fuel with
  | zero => exact fun x _ hx => absurd hx (Nat.not_lt_zero x)
  | succ fuel ih => ?_
  intro x buf hx
  rw [storeDigits, digits_eq _ (lt_of_lt_of_le (mod_lt x (Nat.zero_lt_of_lt hb)) h16)]
  by_cases hlt : x < base
  · rw [toDigits_of_lt_base hlt, div_eq_of_lt hlt, mod_eq_of_lt hlt]
    rfl
  have hle : base ≤ x := not_lt.mp hlt
  have hless := Nat.div_lt_self (by omega : 0 < x) hb
  rw [if_pos (Nat.ne_of_gt (Nat.div_pos hle (by omega))), ih _ _ (by omega),
    toDigits_of_base_le hb hle, reverse_append, append_assoc]
  rfl

lemma printint_eq (c : Conversion) (xx : BitVec 64) :
    printint xx c.base c.sign = canonical c xx := by
  have hb : 1 < c.base := by cases c <;> decide
  have h16 : c.base ≤ 16 := by cases c <;> decide
  have hlt := xx.isLt
  have hslt : xx.slt 0 = decide (xx.toInt < 0) := by simp [BitVec.slt]
  rw [printint, stored, canonical, storeDigits_eq hb h16 _ _ _ (Nat.lt_succ_self _), hslt]
  cases c.sign with
  | false => simp
  | true => ?_
  by_cases hneg : xx.toInt < 0
  · have hx : (-xx).toNat = xx.toInt.natAbs := by
      rw [BitVec.toInt_eq_toNat_cond] at hneg ⊢
      rw [BitVec.toNat_neg]
      omega
    simp [hneg, hx]
  · have hx : xx.toNat = xx.toInt.natAbs := by
      rw [BitVec.toInt_eq_toNat_cond] at hneg ⊢
      omega
    simp [hneg, hx]

/-- The notation always comes out, but it fits in the buffer only up to
sixteen characters. -/
theorem printint_exact_iff (c : Conversion) (xx : BitVec 64) :
    printint xx c.base c.sign = canonical c xx ∧ (stored xx c.base c.sign).length ≤ BUFSIZE ↔
      match c with
      | .x => True
      | .u => xx.toNat < 10 ^ 16
      | .d => -10 ^ 15 < xx.toInt ∧ xx.toInt < 10 ^ 16 := by
  have hlen := fun n k (hk : 0 < k) => length_toDigits_le_iff (b := 10) (n := n) (by decide) hk
  rw [and_iff_right (printint_eq c xx), ← length_reverse, ← printint, printint_eq]
  cases c with
  | x => exact iff_of_true ((length_toDigits_le_iff (by decide) (by decide)).mpr xx.isLt) trivial
  | u => exact hlen _ 16 (by decide)
  | d => ?_
  have h15 := hlen xx.toInt.natAbs 15 (by decide)
  have h16 := hlen xx.toInt.natAbs 16 (by decide)
  change ((if xx.toInt < 0 then ['-'] else []) ++ toDigits 10 xx.toInt.natAbs).length ≤ 16 ↔ _
  rw [length_append]
  dsimp only
  split
  · rw [length_singleton]
    omega
  rw [length_nil]
  omega

/-- `%lu` with ten to the sixteenth stores a seventeenth digit. -/
theorem printint_overflows : (stored (10 ^ 16) 10 false).length = 17 := by
  decide +kernel

end Proninx.Console
