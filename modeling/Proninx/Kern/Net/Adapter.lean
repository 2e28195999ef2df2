import Mathlib.Data.UInt

/-!
# What the socket calls share

The calls of `net/lwip/lwip.c` work on a table of slots, each with a lock
of its own. The code between taking a slot's lock and giving it up, by
`release` or by `sleep`, is one step, so a call that sleeps is several
steps with those of other processes and of lwIP's callbacks in between,
and a loop over the slots is one step for each slot.
-/

namespace Proninx.Net

structure Endpoint where
  address : UInt8 × UInt8 × UInt8 × UInt8
  port : UInt16
  deriving DecidableEq, Repr

/-- How a stretch of a call under the lock ends. -/
inductive Outcome (ρ : Type) where
  | sleeps
  /-- `return -1` -/
  | fails
  | returns (r : ρ)
  deriving DecidableEq, Repr

/-- `(int)(sys_now() - deadline) >= 0` -/
def expired (now deadline : UInt32) : Bool := (now - deadline).toNat < 2 ^ 31

/-- The slot of a handle in a table of `n` slots, handles counted from 1. -/
def slotFor (n : Nat) (handle : Int) : Option (Fin n) :=
  if h : 1 ≤ handle ∧ handle ≤ n then some ⟨(handle - 1).toNat, by omega⟩ else none

lemma slotFor_handle {n : Nat} (i : Fin n) : slotFor n (i.val + 1 : Nat) = some i := by
  have hi := i.isLt
  rw [slotFor, dif_pos (by omega)]
  congr
  omega

end Proninx.Net
