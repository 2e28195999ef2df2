import Proninx.Lib.Bytes

/-!
# The digest of `auth.c`

`sha_init`, `sha_update`, `sha_final` and the compression function
`sha_block`, on the running state `struct sha256`.
-/

namespace Proninx.Sha256

open ByteMem

/-- `state[8]` -/
structure Words where
  a : UInt32
  b : UInt32
  c : UInt32
  d : UInt32
  e : UInt32
  f : UInt32
  g : UInt32
  h : UInt32
  deriving DecidableEq, Repr

/-- `struct sha256` -/
structure Running where
  state : Words
  bits : UInt64
  block : Mem
  used : Nat

def shaK : List UInt32 :=
  [0x428a2f98, 0x71374491, 0xb5c0fbcf, 0xe9b5dba5, 0x3956c25b, 0x59f111f1, 0x923f82a4, 0xab1c5ed5,
    0xd807aa98, 0x12835b01, 0x243185be, 0x550c7dc3, 0x72be5d74, 0x80deb1fe, 0x9bdc06a7, 0xc19bf174,
    0xe49b69c1, 0xefbe4786, 0x0fc19dc6, 0x240ca1cc, 0x2de92c6f, 0x4a7484aa, 0x5cb0a9dc, 0x76f988da,
    0x983e5152, 0xa831c66d, 0xb00327c8, 0xbf597fc7, 0xc6e00bf3, 0xd5a79147, 0x06ca6351, 0x14292967,
    0x27b70a85, 0x2e1b2138, 0x4d2c6dfc, 0x53380d13, 0x650a7354, 0x766a0abb, 0x81c2c92e, 0x92722c85,
    0xa2bfe8a1, 0xa81a664b, 0xc24b8b70, 0xc76c51a3, 0xd192e819, 0xd6990624, 0xf40e3585, 0x106aa070,
    0x19a4c116, 0x1e376c08, 0x2748774c, 0x34b0bcb5, 0x391c0cb3, 0x4ed8aa4a, 0x5b9cca4f, 0x682e6ff3,
    0x748f82ee, 0x78a5636f, 0x84c87814, 0x8cc70208, 0x90befffa, 0xa4506ceb, 0xbef9a3f7, 0xc67178f2]

def rr (x n : UInt32) : UInt32 := (x >>> n) ||| (x <<< (32 - n))

/-- The big-endian word `i` of a block. -/
def word (p : Mem) (i : Nat) : UInt32 :=
  (p (4 * i)).toUInt32 <<< 24 ||| (p (4 * i + 1)).toUInt32 <<< 16 |||
    (p (4 * i + 2)).toUInt32 <<< 8 ||| (p (4 * i + 3)).toUInt32

/-- One more word of `w`, from those already there. -/
def extend (w : Array UInt32) : Array UInt32 :=
  let at' (k : Nat) := w.getD (w.size - k) 0
  w.push ((rr (at' 15) 7 ^^^ rr (at' 15) 18 ^^^ (at' 15 >>> 3)) + at' 16 +
    (rr (at' 2) 17 ^^^ rr (at' 2) 19 ^^^ (at' 2 >>> 10)) + at' 7)

/-- The array `w` of `sha_block`. -/
def schedule (p : Mem) : Array UInt32 :=
  Nat.iterate extend 48 ((List.range 16).map (word p)).toArray

/-- One round of `sha_block`, with its constant and its word. -/
def round (s : Words) (k w : UInt32) : Words :=
  let t1 := s.h + (rr s.e 6 ^^^ rr s.e 11 ^^^ rr s.e 25) + ((s.e &&& s.f) ^^^ (~~~s.e &&& s.g)) + k + w
  let t2 := (rr s.a 2 ^^^ rr s.a 13 ^^^ rr s.a 22) +
    ((s.a &&& s.b) ^^^ (s.a &&& s.c) ^^^ (s.b &&& s.c))
  ⟨t1 + t2, s.a, s.b, s.c, s.d + t1, s.e, s.f, s.g⟩

def shaBlock (s : Words) (p : Mem) : Words :=
  let t := (shaK.zip (schedule p).toList).foldl (fun s kw => round s kw.1 kw.2) s
  ⟨s.a + t.a, s.b + t.b, s.c + t.c, s.d + t.d, s.e + t.e, s.f + t.f, s.g + t.g, s.h + t.h⟩

def shaInit : Running where
  state := ⟨0x6a09e667, 0xbb67ae85, 0x3c6ef372, 0xa54ff53a, 0x510e527f, 0x9b05688c, 0x1f83d9ab,
    0x5be0cd19⟩
  bits := 0
  block := fun _ => 0
  used := 0

/-- One byte of `sha_update`, the bit count apart. -/
def Running.feed (s : Running) (x : UInt8) : Running :=
  let block := poke s.block s.used x
  if s.used + 1 = 64 then { s with state := shaBlock s.state block, block := block, used := 0 }
  else { s with block := block, used := s.used + 1 }

def Running.update (s : Running) (data : List UInt8) : Running :=
  data.foldl Running.feed { s with bits := s.bits + UInt64.ofNat data.length * 8 }

/-- Zero bytes up to position `n` of the block. -/
def Running.pad (s : Running) (n : Nat) : Running :=
  { s with block := fill s.block s.used 0 (n - s.used), used := max s.used n }

/-- The bytes of a word, from the high one. -/
def wordBytes (w : UInt32) : List UInt8 :=
  [(w >>> 24).toUInt8, (w >>> 16).toUInt8, (w >>> 8).toUInt8, w.toUInt8]

def Running.final (s : Running) : List UInt8 :=
  let s1 := { s with block := poke s.block s.used 0x80, used := s.used + 1 }
  let s2 := if 56 < s1.used then
      let s2 := s1.pad 64
      { s2 with state := shaBlock s2.state s2.block, used := 0 }
    else s1
  let s3 := s2.pad 56
  let block := (List.range 8).foldl
    (fun m i => poke m (56 + i) (s.bits >>> UInt64.ofNat (8 * (7 - i))).toUInt8) s3.block
  let t := shaBlock s3.state block
  [t.a, t.b, t.c, t.d, t.e, t.f, t.g, t.h].flatMap wordBytes

def digest (m : List UInt8) : List UInt8 := (shaInit.update m).final

end Proninx.Sha256
