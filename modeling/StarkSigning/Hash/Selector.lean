import StarkSigning.Hash.Keccak
import StarkSigning.Felt.Basic

/-!
# StarkSigning.Hash.Selector

Keccak digests as field elements. Two hundred and fifty bits always fit below the prime, so the
top six bits of the digest are cleared. Entry points of contracts are selected by the hash of
their name in UTF-8, and types of typed data by the hash of their text.
-/

namespace StarkSigning
namespace Selector

/-- The bound of 250 bits. -/
def bound : Nat :=
  0x400000000000000000000000000000000000000000000000000000000000000

/-- The low 250 bits of the Keccak digest. -/
def ofBytes (bytes : List UInt8) : Felt :=
  ⟨Bytes.number (Keccak.hash bytes) % bound,
    Nat.lt_trans (Nat.mod_lt _ (by decide)) (by decide)⟩

/-- The selector of an entry point. -/
def ofName (name : String) : Felt :=
  ofBytes (Bytes.ofText name)

end Selector
end StarkSigning
