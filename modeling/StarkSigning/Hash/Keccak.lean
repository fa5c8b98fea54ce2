import StarkSigning.Bytes

/-!
# StarkSigning.Hash.Keccak

Keccak-256 with the padding of the first submission, a single one bit, and not that of SHA-3. The
state is twenty-five lanes of 64 bits, lane `x + 5 * y` in column `x` and row `y`; each map of a
round is given lane by lane.

* `length_hash`: a digest has 32 bytes.
-/

namespace StarkSigning
namespace Keccak

abbrev Lanes := Vector UInt64 25

def rotateLeft (w : UInt64) (count : Nat) : UInt64 :=
  let k := UInt64.ofNat count
  (w <<< k) ||| (w >>> (64 - k))

/-- The lane in column `x` and row `y`, both taken modulo five. -/
def lane (s : Lanes) (x y : Nat) : UInt64 :=
  s.get ⟨x % 5 + 5 * (y % 5), by omega⟩

def ofLanes (f : Nat → Nat → UInt64) : Lanes :=
  Vector.ofFn fun i : Fin 25 => f (i.val % 5) (i.val / 5)

def parity (s : Lanes) (x : Nat) : UInt64 :=
  lane s x 0 ^^^ lane s x 1 ^^^ lane s x 2 ^^^ lane s x 3 ^^^ lane s x 4

/-- Adds to each lane the parities of the column before and of the rotated column behind. -/
def theta (s : Lanes) : Lanes :=
  let parities := Vector.ofFn fun x : Fin 5 => parity s x.val
  let at' (x : Nat) : UInt64 := parities.get ⟨x % 5, by omega⟩
  ofLanes fun x y => lane s x y ^^^ at' (x + 4) ^^^ rotateLeft (at' (x + 1)) 1

/-- Rotation counts, lane by lane. -/
def rotations : Vector Nat 25 :=
  #v[0, 1, 62, 28, 27, 36, 44, 6, 55, 20, 3, 10, 43, 25, 39, 41, 45, 15, 21, 8, 18, 2, 61, 56, 14]

/-- Rotates each lane by its count and moves it to its new place. -/
def rhoPi (s : Lanes) : Lanes :=
  ofLanes fun x y =>
    let column := (x + 3 * y) % 5
    rotateLeft (lane s column x) (rotations.get ⟨column + 5 * (x % 5), by omega⟩)

def chi (s : Lanes) : Lanes :=
  ofLanes fun x y => lane s x y ^^^ ((~~~ lane s (x + 1) y) &&& lane s (x + 2) y)

def iota (constant : UInt64) (s : Lanes) : Lanes :=
  s.set 0 (s.get 0 ^^^ constant)

def roundConstants : List UInt64 :=
  [0x0000000000000001, 0x0000000000008082, 0x800000000000808a, 0x8000000080008000,
   0x000000000000808b, 0x0000000080000001, 0x8000000080008081, 0x8000000000008009,
   0x000000000000008a, 0x0000000000000088, 0x0000000080008009, 0x000000008000000a,
   0x000000008000808b, 0x800000000000008b, 0x8000000000008089, 0x8000000000008003,
   0x8000000000008002, 0x8000000000000080, 0x000000000000800a, 0x800000008000000a,
   0x8000000080008081, 0x8000000000008080, 0x0000000080000001, 0x8000000080008008]

def permute (s : Lanes) : Lanes :=
  roundConstants.foldl (fun s constant => iota constant (chi (rhoPi (theta s)))) s

/-- The bytes absorbed between two permutations. -/
def rate : Nat := 136

/-- Fills the last block: a one bit behind the message, another at the end of the block. -/
def padding (length : Nat) : List UInt8 :=
  let missing := rate - length % rate
  if missing = 1 then [0x81] else 0x01 :: List.replicate (missing - 2) 0x00 ++ [0x80]

/-- The little-endian lane at byte `8 * index` of a block; missing bytes count as zero. -/
def blockLane (block : List UInt8) (index : Nat) : UInt64 :=
  ((block.drop (8 * index)).take 8).foldr (fun byte w => (w <<< 8) ||| byte.toUInt64) 0

def absorb (s : Lanes) (block : List UInt8) : Lanes :=
  permute (Vector.ofFn fun i : Fin 25 => s.get i ^^^ blockLane block i.val)

/-- Consecutive pieces of `size` bytes. -/
def blocks (size : Nat) (bytes : List UInt8) : List (List UInt8) :=
  (List.range (bytes.length / size)).map fun i => (bytes.drop (size * i)).take size

def laneBytes (w : UInt64) : List UInt8 :=
  (List.range 8).map fun i => (w >>> UInt64.ofNat (8 * i)).toUInt8

/-- The 32 bytes of the digest. -/
def hash (message : List UInt8) : List UInt8 :=
  let padded := message ++ padding message.length
  let final := (blocks rate padded).foldl absorb (Vector.replicate 25 0)
  (List.range 4).flatMap fun x => laneBytes (lane final x 0)

theorem length_hash (message : List UInt8) : (hash message).length = 32 := by
  simp [hash, laneBytes, List.range_succ]

end Keccak
end StarkSigning
