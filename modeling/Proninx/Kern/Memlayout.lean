import Proninx.Kern.Vm

/-!
# The kernel's view of physical memory

`memlayout.h`: all of physical memory is mapped from `DMAP_BASE` on, up to
`DMAP_MAX`, and the kernel image once more from `KERNBASE` on.
-/

namespace Proninx.Vm

def EXTMEM : Nat := 0x100000

def DMAP_MAX : Nat := 0x0000400000000000

def IOMAP_BASE : Nat := 0xffffc00000000000

def KERNLINK : Nat := KERNBASE + EXTMEM

def v2p (va : Nat) : Nat :=
  if KERNBASE ≤ va then va - KERNBASE else (va + 2 ^ 64 - DMAP_BASE) % 2 ^ 64

def p2v (pa : Nat) : Nat := (DMAP_BASE + pa) % 2 ^ 64

/-- Kernel memory that `V2P` takes to physical memory in one piece. -/
def InKernel (va n : Nat) : Prop :=
  DMAP_BASE ≤ va ∧ va + n ≤ KERNBASE ∨ KERNBASE ≤ va ∧ va + n ≤ 2 ^ 64

lemma InKernel.v2p_add {va n k : Nat} (h : InKernel va n) (hk : k < n) :
    v2p (va + k) = v2p va + k := by
  rcases h with h | h
  · have hlow : ∀ {x}, DMAP_BASE ≤ x → x < KERNBASE → v2p x = x - DMAP_BASE := by
      intro x hx hlt
      rw [v2p, if_neg (not_le.mpr hlt), show x + 2 ^ 64 - DMAP_BASE = x - DMAP_BASE + 2 ^ 64 by
        omega, Nat.add_mod_right, Nat.mod_eq_of_lt (by unfold KERNBASE at hlt; omega)]
    rw [hlow (by omega) (by omega), hlow h.1 (by omega)]
    omega
  · rw [v2p, v2p, if_pos h.1, if_pos (Nat.le_add_right_of_le h.1)]
    omega

lemma InKernel.drop {va n k : Nat} (h : InKernel va n) (hk : k ≤ n) :
    InKernel (va + k) (n - k) := by
  unfold InKernel at *
  omega

lemma inKernel_image {k n : Nat} (h : k + n ≤ 2 ^ 31) : InKernel (KERNBASE + k) n := by
  unfold InKernel KERNBASE
  omega

lemma inKernel_dmap {k n : Nat} (h : k + n ≤ DMAP_MAX) : InKernel (DMAP_BASE + k) n := by
  unfold InKernel KERNBASE DMAP_BASE
  unfold DMAP_MAX at h
  omega

lemma v2p_lt {va : Nat} (h : va < 2 ^ 64) : v2p va < 2 ^ 64 := by
  rw [v2p]
  split_ifs <;> omega

end Proninx.Vm
