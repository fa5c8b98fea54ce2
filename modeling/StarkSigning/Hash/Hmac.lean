import StarkSigning.Hash.Sha256

/-!
# StarkSigning.Hash.Hmac

Keyed hashing with SHA-256: the hash of the key against one pad in front of the hash of the key
against another pad in front of the message. A key longer than a block is hashed first.
-/

namespace StarkSigning
namespace Hmac

/-- The key at the length of a block. -/
def blockKey (key : List UInt8) : List UInt8 :=
  let short := if Sha256.blockSize < key.length then Sha256.hash key else key
  short ++ List.replicate (Sha256.blockSize - short.length) 0x00

def hash (key message : List UInt8) : List UInt8 :=
  let inner := (blockKey key).map (· ^^^ 0x36)
  let outer := (blockKey key).map (· ^^^ 0x5c)
  Sha256.hash (outer ++ Sha256.hash (inner ++ message))

theorem length_hash (key message : List UInt8) : (hash key message).length = 32 :=
  Sha256.length_hash _

end Hmac
end StarkSigning
