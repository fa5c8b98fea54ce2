import StarkSigning.Curve.Point
import StarkSigning.Hash.Hmac

/-!
# StarkSigning.Signing.Nonce

Deterministic nonces after RFC 6979 over HMAC-SHA256. Two byte strings, a key and a value, are
seeded with the private key, the message hash and the extra seed without its leading zero bytes,
and then give one block after another. The leading 252 bits of a block are a candidate; the first
candidate from one up to below the group order is the nonce.
-/

namespace StarkSigning
namespace Nonce

/-- The key and the value of the generator, of 32 bytes each. -/
structure Generator where
  key : List UInt8
  value : List UInt8
deriving DecidableEq

namespace Generator

/-- Ones for the value and zeros for the key. -/
def blank : Generator :=
  ⟨List.replicate 32 0x00, List.replicate 32 0x01⟩

/-- Mixes the seed material in, behind a byte that numbers the round. -/
def mix (material : List UInt8) (g : Generator) (round : UInt8) : Generator :=
  let key := Hmac.hash g.key (g.value ++ round :: material)
  ⟨key, Hmac.hash key g.value⟩

def seed (material : List UInt8) : Generator :=
  mix material (mix material blank 0x00) 0x01

/-- The next block of output. -/
def block (g : Generator) : List UInt8 :=
  Hmac.hash g.key g.value

/-- The generator behind that block. -/
def advance (g : Generator) : Generator :=
  let key := Hmac.hash g.key (g.block ++ [0x00])
  ⟨key, Hmac.hash key g.block⟩

end Generator

/-- The leading 252 bits of a block. -/
def candidate (block : List UInt8) : Word :=
  Word.ofNat (Bytes.number block >>> 4)

def accepts (k : Word) : Bool :=
  k ≠ 0 ∧ k.toNat < Curve.order

/-- The first accepted candidate among so many blocks. -/
def search? : Nat → Generator → Option Word
  | 0, _ => none
  | left + 1, g =>
    if accepts (candidate g.block) then some (candidate g.block) else search? left g.advance

/-- The number of pairs of 32 bytes each. The output repeats after so many blocks at the latest, so a
candidate that is not among them never comes. -/
def generatorCount : Nat := Nat.pow 2 512

/-- The private key, the message hash, and the seed without its leading zero bytes. -/
def material (messageHash privateKey : Felt) (seed : Word) : List UInt8 :=
  privateKey.toBytes ++ messageHash.toBytes ++ seed.significantBytes

/-- The nonce, if the output ever holds one. -/
def derive? (messageHash privateKey : Felt) (seed : Word) : Option Word :=
  search? generatorCount (Generator.seed (material messageHash privateKey seed))

/-- The nonce; zero, which signs nothing, stands for an output without one. -/
def derive (messageHash privateKey : Felt) (seed : Word) : Word :=
  (derive? messageHash privateKey seed).getD 0

end Nonce
end StarkSigning
