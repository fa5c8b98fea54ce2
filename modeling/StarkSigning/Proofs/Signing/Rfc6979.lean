import StarkSigning.Proofs.Signing.NonceSearch

/-!
# StarkSigning.Proofs.Signing.Rfc6979

Nonces against RFC 6979. Section 3.2 of the standard is written down for any HMAC and any group
order, with the extra data of section 3.6: the octets of the seed material, the chain of keys and
values, and the candidates, each gathered from as many blocks as its digits need. The generator here
renews key and value behind every block, the standard only behind a rejected candidate; what is
renewed behind an accepted one is never read. For the order of the curve one block of 256 digits
holds the 252 digits of a candidate.

* `Standard.IsNonce`: what the standard asks of a nonce.
* `Standard.gathers_iff`, `Standard.bits2int_block`: a candidate is one block without its last four
  digits.
* `exists_selects_iff`: the candidates of the standard are those of the generator.
* `derive?_eq_some_iff_isNonce`: the nonces of the library are those of the standard.
-/

namespace StarkSigning
namespace Nonce

open Curve Generator

namespace Standard

section Definitions

variable (hmac : List UInt8 → List UInt8 → List UInt8) (q : Nat)

/-- The length of the order in binary digits. -/
def qlen : Nat :=
  q.log2 + 1

/-- The number that the leading `qlen` digits of octets write; all of them if there are no more. -/
def bits2int (octets : List UInt8) : Nat :=
  if qlen q < 8 * octets.length then Bytes.number octets >>> (8 * octets.length - qlen q)
  else Bytes.number octets

/-- A number in as many octets as the order needs. -/
def int2octets (x : Nat) : List UInt8 :=
  Bytes.ofNumber ((qlen q + 7) / 8) x

/-- The octets of a hash, given as the number that `bits2int` reads from it. -/
def bits2octets (z : Nat) : List UInt8 :=
  int2octets q (z % q)

/-- Steps b to g: the key and the value that the seed material leads to, of `width` octets each. -/
def start (width : Nat) (material : List UInt8) : List UInt8 × List UInt8 :=
  let value := List.replicate width 0x01
  let key := List.replicate width 0x00
  let key := hmac key (value ++ [0x00] ++ material)
  let value := hmac key value
  let key := hmac key (value ++ [0x01] ++ material)
  let value := hmac key value
  (key, value)

/-- Step h.2: from a value and the octets so far, blocks are appended until they hold `qlen` digits.
-/
inductive Gathers (key : List UInt8) :
    List UInt8 → List UInt8 → List UInt8 → List UInt8 → Prop
  | enough {value octets : List UInt8} :
      qlen q ≤ 8 * octets.length → Gathers key value octets value octets
  | more {value octets value' octets' : List UInt8} :
      8 * octets.length < qlen q →
      Gathers key (hmac key value) (octets ++ hmac key value) value' octets' →
      Gathers key value octets value' octets'

/-- Step h: from a key and a value, the candidates in this list are out of range one after another,
and the next one is in range. -/
inductive Selects : List UInt8 → List UInt8 → List Nat → Nat → Prop
  | accept {key value value' octets : List UInt8} :
      Gathers hmac q key value [] value' octets →
      0 < bits2int q octets ∧ bits2int q octets < q →
      Selects key value [] (bits2int q octets)
  | reject {key value value' octets : List UInt8} {rejected : List Nat} {k : Nat} :
      Gathers hmac q key value [] value' octets →
      bits2int q octets = 0 ∨ q ≤ bits2int q octets →
      Selects (hmac key (value' ++ [0x00])) (hmac (hmac key (value' ++ [0x00])) value') rejected k →
      Selects key value (bits2int q octets :: rejected) k

/-- The nonce for a private key, a hash and extra data, and the candidates rejected before it. -/
def IsNonce (width x z : Nat) (extra : List UInt8) (rejected : List Nat) (k : Nat) : Prop :=
  let state := start hmac width (int2octets q x ++ bits2octets q z ++ extra)
  Selects hmac q state.1 state.2 rejected k

end Definitions

theorem Selects.in_range {hmac : List UInt8 → List UInt8 → List UInt8} {q : Nat}
    {key value : List UInt8} {rejected : List Nat} {k : Nat}
    (h : Selects hmac q key value rejected k) :
    (0 < k ∧ k < q) ∧ ∀ c ∈ rejected, c = 0 ∨ q ≤ c := by
  induction h with
  | accept _ range => exact ⟨range, fun c member => absurd member List.not_mem_nil⟩
  | reject _ outside _ ih =>
    rw [List.forall_mem_cons]
    exact ⟨ih.1, outside, ih.2⟩

/-! ## At the order of the curve -/

theorem qlen_order : qlen order = 252 := by
  decide

theorem int2octets_val (e : Felt) : int2octets order e.val = e.toBytes := by
  rw [int2octets, qlen_order, Felt.toBytes]

theorem bits2octets_val {e : Felt} (reduced : e.val < order) :
    bits2octets order e.val = e.toBytes := by
  rw [bits2octets, Nat.mod_eq_of_lt reduced, int2octets_val]

/-- One block is enough for a candidate. -/
theorem gathers_iff {key value value' octets : List UInt8} :
    Gathers Hmac.hash order key value [] value' octets ↔
      value' = Hmac.hash key value ∧ octets = Hmac.hash key value := by
  constructor
  · intro gathered
    cases gathered with
    | enough digits =>
      rw [qlen_order] at digits
      exact absurd digits (by decide)
    | more _ rest =>
      cases rest with
      | enough digits => exact ⟨rfl, rfl⟩
      | more missing rest =>
        rw [List.nil_append, Hmac.length_hash, qlen_order] at missing
        exact absurd missing (by decide)
  · rintro ⟨rfl, rfl⟩
    refine .more ?_ (.enough ?_)
    · rw [qlen_order]
      decide
    · rw [List.nil_append, Hmac.length_hash, qlen_order]
      decide

theorem bits2int_block {block : List UInt8} (length : block.length = 32) :
    bits2int order block = Bytes.number block >>> 4 := by
  rw [bits2int, length, qlen_order]
  rfl

theorem toNat_candidate {block : List UInt8} (length : block.length = 32) :
    (candidate block).toNat = bits2int order block := by
  have below := Bytes.number_lt block
  rw [length] at below
  have small : Bytes.number block >>> 4 < Word.size := by
    rw [Nat.shiftRight_eq_div_pow]
    exact Nat.lt_of_le_of_lt (Nat.div_le_self _ _) below
  rw [candidate, Word.toNat_ofNat small, bits2int_block length]

theorem toNat_candidate_block (g : Generator) :
    (candidate g.block).toNat = bits2int order g.block :=
  toNat_candidate (Hmac.length_hash _ _)

theorem accepts_eq_true_iff {k : Word} : accepts k = true ↔ 0 < k.toNat ∧ k.toNat < order := by
  have zero : k ≠ 0 ↔ k.toNat ≠ 0 := not_congr BitVec.toNat_inj.symm
  rw [accepts, decide_eq_true_iff, zero, Nat.pos_iff_ne_zero]

theorem accepts_eq_false_iff {k : Word} : accepts k = false ↔ k.toNat = 0 ∨ order ≤ k.toNat := by
  rw [← Bool.not_eq_true, accepts_eq_true_iff]
  omega

theorem start_eq_seed (material : List UInt8) :
    start Hmac.hash 32 material = ((seed material).key, (seed material).value) := by
  simp [start, seed, mix, blank]

/-! ## The two chains -/

theorem FirstAccepted.selects {g : Generator} {n : Nat} {k : Word} (first : FirstAccepted g n k) :
    ∃ rejected, Selects Hmac.hash order g.key g.value rejected k.toNat := by
  induction n generalizing g with
  | zero =>
    obtain ⟨rfl, accepted, -⟩ := first
    rw [candidateAt_zero, accepts_eq_true_iff, toNat_candidate_block] at accepted
    rw [candidateAt_zero, toNat_candidate_block]
    exact ⟨[], .accept (gathers_iff.mpr ⟨rfl, rfl⟩) accepted⟩
  | succ n ih =>
    have here : accepts (candidate g.block) = false := first.2.2 0 (Nat.succ_pos n)
    obtain ⟨m, next, first⟩ := (firstAccepted_iff_of_rejects here).mp first
    cases next
    obtain ⟨rejected, later⟩ := ih first
    rw [accepts_eq_false_iff, toNat_candidate_block] at here
    -- Behind a rejected candidate the standard renews key and value as the generator always does.
    exact ⟨_, .reject (gathers_iff.mpr ⟨rfl, rfl⟩) here later⟩

theorem Selects.firstAccepted {key value : List UInt8} {rejected : List Nat} {k : Nat}
    (selected : Selects Hmac.hash order key value rejected k) :
    ∃ n w, FirstAccepted ⟨key, value⟩ n w ∧ w.toNat = k := by
  induction selected with
  | @accept key value value' octets gathered range =>
    obtain ⟨rfl, rfl⟩ := gathers_iff.mp gathered
    have number := toNat_candidate_block ⟨key, value⟩
    rw [block] at number
    refine ⟨0, _, (firstAccepted_iff_of_accepts ?_).mpr ⟨rfl, rfl⟩, number⟩
    rw [accepts_eq_true_iff, block, number]
    exact range
  | @reject key value value' octets rejected k gathered outside _ ih =>
    obtain ⟨rfl, rfl⟩ := gathers_iff.mp gathered
    obtain ⟨n, w, first, same⟩ := ih
    have number := toNat_candidate_block ⟨key, value⟩
    rw [block] at number
    refine ⟨n + 1, w, (firstAccepted_iff_of_rejects ?_).mpr ⟨n, rfl, first⟩, same⟩
    rw [accepts_eq_false_iff, block, number]
    exact outside

theorem exists_selects_iff {g : Generator} {k : Word} :
    (∃ rejected, Selects Hmac.hash order g.key g.value rejected k.toNat) ↔
      ∃ n, FirstAccepted g n k := by
  constructor
  · rintro ⟨rejected, selected⟩
    obtain ⟨n, w, first, same⟩ := selected.firstAccepted
    cases BitVec.eq_of_toNat_eq same
    exact ⟨n, first⟩
  · rintro ⟨n, first⟩
    exact FirstAccepted.selects first

end Standard

open Standard

/-- The library returns a nonce exactly where the standard has one, and the same, with the bytes of
the seed without leading zero bytes as extra data. The nonce is in range, and no candidate before it
is; each is one block without its last four digits. -/
theorem derive?_eq_some_iff_isNonce {messageHash : Felt} (reduced : messageHash.val < order)
    (privateKey : Felt) (seed : Word) :
    (qlen order = 252 ∧
      ∀ block, block.length = 32 → bits2int order block = Bytes.number block >>> 4) ∧
    (Bytes.number seed.significantBytes = seed.toNat ∧ seed.significantBytes.head? ≠ some 0 ∧
      (seed = 0 → seed.significantBytes = [])) ∧
    ∀ k : Word,
      (derive? messageHash privateKey seed = some k ↔
        ∃ rejected, IsNonce Hmac.hash order 32 privateKey.val messageHash.val
          seed.significantBytes rejected k.toNat) ∧
      ∀ rejected,
        IsNonce Hmac.hash order 32 privateKey.val messageHash.val seed.significantBytes rejected
          k.toNat →
        (0 < k.toNat ∧ k.toNat < order) ∧ ∀ c ∈ rejected, c = 0 ∨ order ≤ c := by
  refine ⟨⟨qlen_order, fun block length => bits2int_block length⟩, ⟨seed.number_significantBytes,
    seed.head?_significantBytes, ?_⟩, fun k => ⟨?_, fun rejected nonce => nonce.in_range⟩⟩
  · rintro rfl
    decide
  · simp only [IsNonce, int2octets_val, bits2octets_val reduced, start_eq_seed]
    rw [derive?, search?_generatorCount_eq_some_iff (sized_seed _), ← exists_selects_iff, material]

/-- The nonce of the key one for the hash two, without extra data. -/
theorem derive?_eq_some_iff_isNonce_no_extra :
    let messageHash : Felt := ⟨2, by decide⟩
    let k : Word := 0x6469f458a715461e96a1bc8c2112dd2c56c0e63a8af96697e98ff6b5e60a541
    messageHash.val < order ∧ derive? messageHash Felt.one 0 = some k ∧
      ∃ rejected, IsNonce Hmac.hash order 32 1 2 [] rejected k.toNat := by
  intro messageHash k
  have reduced : messageHash.val < order := by decide
  have derived : derive? messageHash Felt.one 0 = some k := by decide +kernel
  obtain ⟨-, ⟨-, -, noExtra⟩, nonces⟩ := derive?_eq_some_iff_isNonce reduced Felt.one 0
  obtain ⟨rejected, nonce⟩ := (nonces k).1.mp derived
  rw [noExtra rfl] at nonce
  exact ⟨reduced, derived, rejected, nonce⟩

end Nonce
end StarkSigning
