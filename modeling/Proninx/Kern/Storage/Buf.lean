import Mathlib.Data.Fintype.Card
import Proninx.Lib.LinkedQueue
import Proninx.Lib.Runs

/-!
# Buffers on their way to a drive and back

What the block drivers share: the part of `struct buf` they look at, and
what it means that a buffer comes back from a request as it should. Blocks
have contents of some type `β`, and a drive says of every command it was
given whether it succeeded, which sector it worked on, and what was read
or written.
-/

namespace Proninx.Storage

variable {β : Type}

/-- `struct buf` without its data. -/
structure Hdr where
  valid : Bool
  dirty : Bool
  dev : UInt32
  blockno : UInt32
  deriving DecidableEq, Repr

structure Buf (β : Type) extends Hdr where
  data : β
  deriving DecidableEq, Repr

/-- `(flags & (B_VALID | B_DIRTY)) == B_VALID` -/
def Hdr.settled (b : Hdr) : Bool := b.valid && !b.dirty

/-- `flags |= B_VALID; flags &= ~B_DIRTY` -/
def Hdr.complete (b : Hdr) : Hdr := { b with valid := true, dirty := false }

/-- What a drive says of a command. -/
inductive Report (β : Type) where
  | failed
  /-- The contents read or written come with it. -/
  | success (unit sector : Nat) (write : Bool) (data : β)
  deriving DecidableEq, Repr

/-- The drive reported success for a command on the buffer's own block, and
the contents it read or wrote are those of the buffer. -/
def Served (b : Buf β) (unit : Nat) (write : Bool) (r : Option (Report β)) : Prop :=
  r = some (.success unit b.blockno.toNat write b.data)

lemma served_of {b : Buf β} {unit sector : Nat} {write : Bool} {data : β}
    (hsector : sector = b.blockno.toNat) (hdata : data = b.data) :
    Served b unit write (some (.success unit sector write data)) := by
  rw [Served, hsector, hdata]

end Proninx.Storage
