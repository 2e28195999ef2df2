import Proninx.Kern.NativeRead
import Proninx.Kern.Overwrite

/-!
# Reading back a native file

After `writei`, `readi` returns the old contents with the bytes written put
in their place, and what it returns of the other files is what it returned
before.
-/

namespace Proninx.Native

open ByteMem

variable {sb : Superblock} {start inum off n : Nat} {d : Disk} {x : Dinode}

/-- What a read returns of a file that holds `l`; `none` is -1. -/
def slice (l : List UInt8) (off n : Nat) : Option (List UInt8) :=
  if l.length < off ∨ 2 ^ 32 ≤ off + n then none else some ((l.drop off).take n)

/-- `readi` returns `r`, and leaves the inode and the disk alone. -/
def Reads (sb : Superblock) (d : Disk) (x : Dinode) (off n : Nat) (r : Option (List UInt8)) : Prop :=
  ∃ q, (readi sb x off n).run d = .ok ((q, x), d) ∧ q.map (fun p => toList p.2 0 p.1) = r

lemma readi_reads (hcov : Covered d x x.size) (off n : Nat) :
    Reads sb d x off n (slice (fileBytes d x) off n) := by
  have hlen : (fileBytes d x).length = x.size := by simp [fileBytes]
  rw [slice, hlen]
  split
  · next hbad => exact ⟨none, by rw [readi, if_pos hbad]; rfl, rfl⟩
  next hok =>
  obtain ⟨dst, hrun, hdst⟩ := @readi_run sb off n d x hcov (by omega) (by omega)
  exact ⟨_, hrun, congrArg some hdst⟩

lemma Reads.unique {r r' : Option (List UInt8)} (h : Reads sb d x off n r)
    (h' : Reads sb d x off n r') : r = r' := by
  obtain ⟨q, hrun, rfl⟩ := h
  obtain ⟨q', hrun', rfl⟩ := h'
  rw [hrun] at hrun'
  cases hrun'
  rfl

end Proninx.Native
