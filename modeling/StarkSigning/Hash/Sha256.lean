import StarkSigning.Bytes

/-!
# StarkSigning.Hash.Sha256

SHA-256: big-endian words of 32 bits, a schedule of sixty-four words for each block of sixteen,
and eight chaining words.

* `length_hash`: a digest has 32 bytes.
-/

namespace StarkSigning
namespace Sha256

def rotateRight (w : UInt32) (count : UInt32) : UInt32 :=
  (w >>> count) ||| (w <<< (32 - count))

structure Chain where
  a : UInt32
  b : UInt32
  c : UInt32
  d : UInt32
  e : UInt32
  f : UInt32
  g : UInt32
  h : UInt32

namespace Chain

def initial : Chain :=
  ⟨0x6a09e667, 0xbb67ae85, 0x3c6ef372, 0xa54ff53a, 0x510e527f, 0x9b05688c, 0x1f83d9ab, 0x5be0cd19⟩

def add (s t : Chain) : Chain :=
  ⟨s.a + t.a, s.b + t.b, s.c + t.c, s.d + t.d, s.e + t.e, s.f + t.f, s.g + t.g, s.h + t.h⟩

/-- One round, with its constant and its word of the schedule. -/
def round (s : Chain) (constant word : UInt32) : Chain :=
  let sum1 := rotateRight s.e 6 ^^^ rotateRight s.e 11 ^^^ rotateRight s.e 25
  let choice := (s.e &&& s.f) ^^^ (~~~ s.e &&& s.g)
  let first := s.h + sum1 + choice + constant + word
  let sum0 := rotateRight s.a 2 ^^^ rotateRight s.a 13 ^^^ rotateRight s.a 22
  let majority := (s.a &&& s.b) ^^^ (s.a &&& s.c) ^^^ (s.b &&& s.c)
  ⟨first + sum0 + majority, s.a, s.b, s.c, s.d + first, s.e, s.f, s.g⟩

def words (s : Chain) : List UInt32 :=
  [s.a, s.b, s.c, s.d, s.e, s.f, s.g, s.h]

end Chain

def roundConstants : List UInt32 :=
  [0x428a2f98, 0x71374491, 0xb5c0fbcf, 0xe9b5dba5, 0x3956c25b, 0x59f111f1, 0x923f82a4, 0xab1c5ed5,
   0xd807aa98, 0x12835b01, 0x243185be, 0x550c7dc3, 0x72be5d74, 0x80deb1fe, 0x9bdc06a7, 0xc19bf174,
   0xe49b69c1, 0xefbe4786, 0x0fc19dc6, 0x240ca1cc, 0x2de92c6f, 0x4a7484aa, 0x5cb0a9dc, 0x76f988da,
   0x983e5152, 0xa831c66d, 0xb00327c8, 0xbf597fc7, 0xc6e00bf3, 0xd5a79147, 0x06ca6351, 0x14292967,
   0x27b70a85, 0x2e1b2138, 0x4d2c6dfc, 0x53380d13, 0x650a7354, 0x766a0abb, 0x81c2c92e, 0x92722c85,
   0xa2bfe8a1, 0xa81a664b, 0xc24b8b70, 0xc76c51a3, 0xd192e819, 0xd6990624, 0xf40e3585, 0x106aa070,
   0x19a4c116, 0x1e376c08, 0x2748774c, 0x34b0bcb5, 0x391c0cb3, 0x4ed8aa4a, 0x5b9cca4f, 0x682e6ff3,
   0x748f82ee, 0x78a5636f, 0x84c87814, 0x8cc70208, 0x90befffa, 0xa4506ceb, 0xbef9a3f7, 0xc67178f2]

/-- The word of four bytes that starts at byte `4 * index`. -/
def blockWord (block : List UInt8) (index : Nat) : UInt32 :=
  ((block.drop (4 * index)).take 4).foldl (fun w byte => (w <<< 8) ||| byte.toUInt32) 0

/-- The word behind sixteen or more words of a schedule. -/
def nextWord (words : Array UInt32) : UInt32 :=
  let back (k : Nat) : UInt32 := words.getD (words.size - k) 0
  let w15 := back 15
  let w2 := back 2
  back 16 + (rotateRight w15 7 ^^^ rotateRight w15 18 ^^^ (w15 >>> 3)) + back 7
    + (rotateRight w2 17 ^^^ rotateRight w2 19 ^^^ (w2 >>> 10))

/-- The first sixteen words are the block; each later one follows from those before it. -/
def schedule (block : List UInt8) : Array UInt32 :=
  (List.range 48).foldl (fun words _ => words.push (nextWord words))
    ((List.range 16).map (blockWord block)).toArray

def compress (s : Chain) (block : List UInt8) : Chain :=
  let rounds := (roundConstants.zip (schedule block).toList).foldl
    (fun s pair => s.round pair.1 pair.2) s
  s.add rounds

def blockSize : Nat := 64

/-- A one bit, zeros, and the length in bits as eight bytes, up to the end of a block. -/
def padding (length : Nat) : List UInt8 :=
  0x80 :: List.replicate ((119 - length % 64) % 64) 0x00 ++ Bytes.ofNumber 8 (8 * length)

/-- Consecutive blocks of a padded message. -/
def blocks (bytes : List UInt8) : List (List UInt8) :=
  (List.range (bytes.length / blockSize)).map fun i => (bytes.drop (blockSize * i)).take blockSize

/-- The 32 bytes of the digest. -/
def hash (message : List UInt8) : List UInt8 :=
  let padded := message ++ padding message.length
  ((blocks padded).foldl compress .initial).words.flatMap fun w => Bytes.ofNumber 4 w.toNat

theorem length_hash (message : List UInt8) : (hash message).length = 32 := by
  simp [hash, Chain.words, Bytes.length_ofNumber]

end Sha256
end StarkSigning
