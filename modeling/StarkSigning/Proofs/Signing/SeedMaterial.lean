import StarkSigning.Proofs.Signing.NonceSearch

/-!
# StarkSigning.Proofs.Signing.SeedMaterial

The seed material of a nonce tells its inputs apart. The private key and the message hash have 32
bytes each, so they can be cut off the front, and what remains is the seed without leading zero
bytes, which writes no other seed. Whatever two runs with different inputs have in common behind a
round of the start is therefore owed to HMAC: each round hashes the whole material, behind a value
of 32 bytes and the number of the round.

* `material_injective`: the material determines the hash, the key and the seed.
* `roundMessage_ne`: different material gives different messages to HMAC, in either round.
* `distinct_inputs_collide_only_in_hmac`: one key for two runs is a collision of HMAC.
-/

namespace StarkSigning

theorem Felt.toBytes_injective {a b : Felt} (h : a.toBytes = b.toBytes) : a = b := by
  have read := ofBytes_toBytes a
  rw [h, ofBytes_toBytes] at read
  exact (Except.ok.inj read).symm

theorem Word.significantBytes_injective {a b : Word} (h : a.significantBytes = b.significantBytes) :
    a = b := by
  apply BitVec.eq_of_toNat_eq
  rw [← number_significantBytes a, h, number_significantBytes]

/-- Two different messages that HMAC under one key does not tell apart. -/
structure Hmac.Collides (key message message' : List UInt8) : Prop where
  distinct : message ≠ message'
  alike : hash key message = hash key message'

namespace Nonce

open Generator

theorem material_injective {messageHash messageHash' privateKey privateKey' : Felt}
    {seed seed' : Word}
    (same : material messageHash privateKey seed = material messageHash' privateKey' seed') :
    messageHash = messageHash' ∧ privateKey = privateKey' ∧ seed = seed' := by
  have width (e e' : Felt) : e.toBytes.length = e'.toBytes.length := by
    rw [Felt.toBytes, Felt.toBytes, Bytes.length_ofNumber, Bytes.length_ofNumber]
  -- The seed may have any length, so the parts of known width are cut off the front.
  simp only [material, List.append_assoc] at same
  obtain ⟨keys, same⟩ := List.append_inj same (width privateKey privateKey')
  obtain ⟨hashes, seeds⟩ := List.append_inj same (width messageHash messageHash')
  exact ⟨Felt.toBytes_injective hashes, Felt.toBytes_injective keys,
    Word.significantBytes_injective seeds⟩

/-! ## The rounds of the start -/

/-- What a round hashes under the key so far. -/
def roundMessage (material : List UInt8) (g : Generator) (round : UInt8) : List UInt8 :=
  g.value ++ round :: material

theorem key_mix (material : List UInt8) (g : Generator) (round : UInt8) :
    (mix material g round).key = Hmac.hash g.key (roundMessage material g round) := rfl

/-- The generator behind the first of the two rounds. -/
def firstRound (material : List UInt8) : Generator :=
  mix material blank 0x00

theorem seed_eq_mix (material : List UInt8) :
    Generator.seed material = mix material (firstRound material) 0x01 := rfl

theorem roundMessage_ne {material material' : List UInt8} (distinct : material ≠ material')
    {g g' : Generator} (width : g.value.length = g'.value.length) (round : UInt8) :
    roundMessage material g round ≠ roundMessage material' g' round := by
  intro same
  obtain ⟨-, behind⟩ := List.append_inj same width
  exact distinct (List.cons.inj behind).2

/-- Different inputs give different material. Behind the first round their keys are the same
exactly where HMAC under zeros collides on the two messages of that round, and the generators that
the runs start from are the same only where HMAC takes the two messages of the second round, which
are different again, to one key. -/
theorem distinct_inputs_collide_only_in_hmac
    {messageHash messageHash' privateKey privateKey' : Felt} {seed seed' : Word}
    (distinct : (messageHash, privateKey, seed) ≠ (messageHash', privateKey', seed')) :
    let m := material messageHash privateKey seed
    let m' := material messageHash' privateKey' seed'
    m ≠ m' ∧
    ((firstRound m).key = (firstRound m').key ↔
      Hmac.Collides (List.replicate 32 0x00) (roundMessage m blank 0x00)
        (roundMessage m' blank 0x00)) ∧
    (Generator.seed m = Generator.seed m' →
      roundMessage m (firstRound m) 0x01 ≠ roundMessage m' (firstRound m') 0x01 ∧
      Hmac.hash (firstRound m).key (roundMessage m (firstRound m) 0x01) =
        Hmac.hash (firstRound m').key (roundMessage m' (firstRound m') 0x01)) := by
  intro m m'
  have materials : m ≠ m' := by
    intro same
    obtain ⟨rfl, rfl, rfl⟩ := material_injective same
    exact distinct rfl
  have value (material : List UInt8) : (firstRound material).value.length = 32 :=
    Hmac.length_hash _ _
  refine ⟨materials, ⟨fun same => ?_, fun collision => collision.alike⟩, fun same => ⟨?_, ?_⟩⟩
  · exact ⟨roundMessage_ne materials rfl 0x00, same⟩
  · exact roundMessage_ne materials ((value m).trans (value m').symm) 0x01
  · rw [← key_mix, ← key_mix, ← seed_eq_mix, ← seed_eq_mix, same]

/-- The bytes of the seed 256 continue those of the seed 1. -/
theorem distinct_inputs_collide_only_in_hmac_continued_seed :
    let m := material Felt.zero Felt.one 1
    let m' := material Felt.zero Felt.one 256
    (Felt.zero, Felt.one, (1 : Word)) ≠ (Felt.zero, Felt.one, 256) ∧
      m' = m ++ [0x00] ∧ m ≠ m' ∧
      ((firstRound m).key = (firstRound m').key ↔
        Hmac.Collides (List.replicate 32 0x00) (roundMessage m blank 0x00)
          (roundMessage m' blank 0x00)) := by
  intro m m'
  have distinct : (Felt.zero, Felt.one, (1 : Word)) ≠ (Felt.zero, Felt.one, 256) := by decide
  obtain ⟨materials, keys, -⟩ := distinct_inputs_collide_only_in_hmac distinct
  exact ⟨distinct, by decide, materials, keys⟩

end Nonce
end StarkSigning
