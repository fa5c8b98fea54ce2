import StarkSigning.Proofs.Felt.Written
import StarkSigning.Proofs.Hash.Formula
import StarkSigning.Proofs.Signing.Keys
import StarkSigning.Proofs.TypedData.Hashing
import StarkSigning.TypedData.Hashing

/-!
# StarkSigning.Proofs.Erasure

Elements without their bound. An element carries a proof that it lies below the prime; here every
operation that makes elements by arithmetic is written once more on bare words, and hands on the
word that the arithmetic leaves: short strings, masked digests, the `x` of a sum of points, `r` and
`s` of a signature, and whatever is hashed from them. Nothing compares these words with the prime.
Each operation gives the words of the elements that the library computes, and so all of them lie
below the prime for reasons of their own:

* a short string has at most 31 bytes, and a digest keeps 250 bits;
* a walk along the rows stays in the group, whose coordinates are reduced (`hash?_map`);
* `r` is below `2 ^ 251`, and `s` below the order of the group (`ofNonce?_toWord`).

From there the bound passes through folds (`fold?_map`), the encodings of values
(`structHash?_eq`) and the attempts of signing (`firstUsable?_eq`).

* `every_element_below_prime`: readers and operations together.
-/

namespace StarkSigning

open Outcome

/-- The element is this number, which is therefore below the prime. -/
def Felt.Holds (e : Felt) (n : Nat) : Prop :=
  e.val = n ∧ n < fieldPrime

theorem Felt.holds_of_val_eq {e : Felt} {n : Nat} (h : e.val = n) : e.Holds n :=
  ⟨h, h ▸ e.val_lt⟩

namespace Erased

/-- The bare computation has the outcome of the one on elements, and a word that it gives is below
the prime. -/
def Agrees {ε : Type} (erased : Except ε Word) (outcome : Except ε Felt) : Prop :=
  erased = outcome.map Felt.toWord ∧ ∀ w, erased = .ok w → w.toNat < fieldPrime

theorem agrees_of_eq {ε : Type} {erased : Except ε Word} {outcome : Except ε Felt}
    (h : erased = outcome.map Felt.toWord) : Agrees erased outcome := by
  refine ⟨h, ?_⟩
  intro w given
  rw [h] at given
  cases outcome with
  | error e => cases given
  | ok e =>
    cases given
    rw [Felt.toNat_toWord]
    exact e.val_lt

/-! ## Short strings, counts and digests -/

def ofShortString? (input : String) : Except FeltError Word :=
  let bytes := Bytes.ofText input
  if bytes.length ≤ Felt.maxShortStringLength then .ok (Word.ofNat (Bytes.number bytes))
  else .error (.tooManyBytes bytes.length)

def ofUInt64 (n : UInt64) : Word :=
  n.toBitVec.setWidth 256

/-- The digest behind a mask of 250 bits. -/
def selector (bytes : List UInt8) : Word :=
  Word.ofNat (Bytes.number (Keccak.hash bytes)) &&& Word.ofNat (Selector.bound - 1)

theorem ofShortString?_eq (input : String) :
    ofShortString? input = (Felt.ofShortString? input).map Felt.toWord := by
  simp only [ofShortString?, Felt.ofShortString?]
  split
  · rfl
  · rfl

theorem ofUInt64_eq (n : UInt64) : ofUInt64 n = (Felt.ofUInt64 n).toWord := by
  apply BitVec.eq_of_toNat_eq
  rw [Felt.toNat_toWord, ofUInt64, BitVec.toNat_setWidth_of_le (by decide)]
  rfl

theorem selector_eq (bytes : List UInt8) : selector bytes = (Selector.ofBytes bytes).toWord := by
  have digest : Bytes.number (Keccak.hash bytes) < Word.size := by
    have bound := Bytes.number_lt (Keccak.hash bytes)
    rw [Keccak.length_hash] at bound
    exact bound
  have mask : (Word.ofNat (Selector.bound - 1)).toNat = 2 ^ 250 - 1 :=
    Word.toNat_ofNat (by decide)
  apply BitVec.eq_of_toNat_eq
  rw [selector, BitVec.toNat_and, Word.toNat_ofNat digest, mask, Nat.and_two_pow_sub_one_eq_mod,
    Felt.toNat_toWord]
  rfl

theorem holds_selector (bytes : List UInt8) :
    (Selector.ofBytes bytes).Holds (selector bytes).toNat := by
  apply Felt.holds_of_val_eq
  rw [selector_eq, Felt.toNat_toWord]

/-! ## Pedersen hashes -/

open Pedersen Point Curve

def absorb? (sum : Point) : List (Word × List Point) → Except Error Point
  | [] => .ok sum
  | (w, row) :: rest =>
    match walk? sum ((lowBits w.toNat elementBits).zip row) with
    | .error e => .error e
    | .ok next => absorb? next rest

/-- The `x` of a finite sum as it stands. -/
def result? : Point → Except Error Word
  | .infinity => .error (.point .pedersenInfinity)
  | .affine x _ => .ok x

def hash? (words : List Word) : Except Error Word :=
  if maxInputs < words.length then .error (.outOfRange .pedersenInputCount words.length)
  else do
    let table ← table?
    let sum ← absorb? Curve.shift (words.zip table)
    result? sum

def fold? (start : Word) : List Word → Except Error Word
  | [] => .ok start
  | w :: rest => do
    let next ← hash? [start, w]
    fold? next rest

def hashList? : List Word → Except Error Word
  | [] => hash? [0, 0]
  | words => fold? 0 words

def hashWithLength? (words : List Word) : Except Error Word :=
  hashList? (words ++ [ofUInt64 (UInt64.ofNat words.length)])

theorem absorb?_map (sum : Point) (items : List (Felt × List Point)) :
    absorb? sum (items.map (Prod.map Felt.toWord id)) = Pedersen.absorb? sum items := by
  induction items generalizing sum with
  | nil => rfl
  | cons item rest ih =>
    obtain ⟨e, row⟩ := item
    rw [List.map_cons, Prod.map_apply, absorb?, Pedersen.absorb?, Felt.toNat_toWord, id]
    cases walk? sum ((lowBits e.val elementBits).zip row) with
    | error _ => rfl
    | ok next => exact ih next

/-- Points of the group have reduced coordinates, so that no sum is refused for its `x`. -/
theorem result?_ofGroup (g : Curve.Group) :
    result? (ofGroup g) = (Pedersen.result? (ofGroup g)).map Felt.toWord := by
  have reduced := reduced_ofGroup g
  cases point : ofGroup g with
  | infinity => rfl
  | affine x y =>
    rw [point] at reduced
    obtain ⟨e, read, same⟩ := Word.exists_toFelt?_eq_ok reduced.1
    rw [result?, Pedersen.result?, read, map_ok, same]

theorem hash?_map (elements : List Felt) :
    hash? (elements.map Felt.toWord) = (Pedersen.hash? elements).map Felt.toWord := by
  rw [hash?, List.length_map]
  rcases Nat.lt_or_ge maxInputs elements.length with many | few
  · rw [Pedersen.hash?, if_pos many, if_pos many, map_error]
  · rw [hash?_eq_absorb? few, if_neg (Nat.not_lt_of_le few), table?_eq, ok_bind,
      List.zip_map_left, absorb?_map, zip_rows, ← ofGroup_shiftElement]
    refine bind_eq_map fun sum absorbed => ?_
    rw [absorb?_eq_ok absorbed]
    exact result?_ofGroup _

theorem fold?_map (start : Felt) (elements : List Felt) :
    fold? start.toWord (elements.map Felt.toWord) =
      (Pedersen.fold? start elements).map Felt.toWord := by
  induction elements generalizing start with
  | nil => rfl
  | cons e rest ih =>
    have first : hash? [start.toWord, e.toWord] = (Pedersen.hash? [start, e]).map Felt.toWord :=
      hash?_map [start, e]
    rw [List.map_cons, fold?, Pedersen.fold?, first]
    exact map_bind_eq ih

theorem hashList?_map (elements : List Felt) :
    hashList? (elements.map Felt.toWord) = (Pedersen.hashList? elements).map Felt.toWord := by
  cases elements with
  | nil => exact hash?_map [Felt.zero, Felt.zero]
  | cons e rest => exact fold?_map Felt.zero (e :: rest)

theorem hashWithLength?_map (elements : List Felt) :
    hashWithLength? (elements.map Felt.toWord) =
      (Pedersen.hashWithLength? elements).map Felt.toWord := by
  rw [hashWithLength?, Pedersen.hashWithLength?, ← hashList?_map, List.map_append, List.map_cons,
    List.map_nil, List.length_map, Felt.ofLength, ofUInt64_eq]

/-! ## Signatures -/

open Signature

/-- One attempt; `r` and `s` are left as the words they are. -/
def ofNonce? (privateKey messageHash k : Word) : Except Error (Word × Word) := do
  match ← multiple? k Curve.generator with
  | .infinity => .error (.point .infiniteNoncePoint)
  | .affine r _ =>
    requireBelow .signatureR r.toNat elementBound
    let sum := Modular.add (Modular.mul r privateKey orderWord) messageHash orderWord
    let w ← Modular.div? k sum orderWord
    requireBelow .signatureW w.toNat elementBound
    let s ← Modular.inverse? w orderWord
    return (r, s)

def firstUsable? (nonce : Nat → Word) (privateKey messageHash : Word) :
    Nat → Nat → Option (Word × Word)
  | 0, _ => none
  | left + 1, attempt =>
    match ofNonce? privateKey messageHash (nonce attempt) with
    | .ok sig => some sig
    | .error _ => firstUsable? nonce privateKey messageHash left (attempt + 1)

def signWith? (nonce : Felt → Felt → Word → Word) (privateKey messageHash seed : Felt)
    (budget : Nat) : Except Error (Word × Word) := do
  requireBelow .messageHash messageHash.val elementBound
  requireBelow .privateKey privateKey.val order
  let nonceOf (attempt : Nat) : Word :=
    nonce messageHash privateKey (Word.ofNat (seed.val + attempt))
  match firstUsable? nonceOf privateKey.toWord messageHash.toWord budget 0 with
  | some sig => .ok sig
  | none => .error (.nonceExhausted budget)

/-- The words of both components. -/
def words (sig : Signature) : Word × Word :=
  (sig.r.toWord, sig.s.toWord)

/-- The range check leaves `r` below `2 ^ 251`, and an inverse is below the order of the group;
both bounds are below the prime. -/
theorem ofNonce?_toWord (privateKey messageHash : Felt) (k : Word) :
    ofNonce? privateKey.toWord messageHash.toWord k =
      (Signature.ofNonce? privateKey messageHash k).map words := by
  rw [ofNonce?, Signature.ofNonce?]
  refine bind_eq_map fun point _ => ?_
  cases point with
  | infinity => rfl
  | affine r y =>
    -- The check of `r`, the quotient, the check of `w`, and the inverse of `w`.
    refine bind_eq_map fun _ rInRange => bind_eq_map fun w _ => bind_eq_map fun _ _ =>
      bind_eq_map fun s inverse => ?_
    have rReduced : r.Reduced :=
      Nat.lt_trans (requireBelow_eq_ok_iff.mp rInRange).2 (by decide)
    have sReduced : s.Reduced := by
      have reduced := (Modular.inverse?_eq_ok_iff.mp inverse).2.1
      rw [toNat_orderWord] at reduced
      exact Nat.lt_trans reduced (by decide)
    obtain ⟨rFelt, readR, sameR⟩ := Word.exists_toFelt?_eq_ok rReduced
    obtain ⟨sFelt, readS, sameS⟩ := Word.exists_toFelt?_eq_ok sReduced
    rw [readR, ok_bind, readS, ok_bind]
    show _ = Except.ok (rFelt.toWord, sFelt.toWord)
    rw [sameR, sameS]
    rfl

theorem firstUsable?_eq (nonce : Nat → Word) (privateKey messageHash : Felt)
    (left attempt : Nat) :
    firstUsable? nonce privateKey.toWord messageHash.toWord left attempt =
      (Signature.firstUsable? nonce privateKey messageHash left attempt).map words := by
  induction left generalizing attempt with
  | zero => rfl
  | succ left ih =>
    rw [firstUsable?, Signature.firstUsable?, ofNonce?_toWord]
    cases Signature.ofNonce? privateKey messageHash (nonce attempt) with
    | error _ => exact ih (attempt + 1)
    | ok sig => rfl

theorem signWith?_eq (nonce : Felt → Felt → Word → Word) (privateKey messageHash seed : Felt)
    (budget : Nat) :
    signWith? nonce privateKey messageHash seed budget =
      (Signature.signWith? nonce privateKey messageHash seed budget).map words := by
  rw [signWith?, Signature.signWith?]
  refine bind_eq_map fun _ _ => bind_eq_map fun _ _ => ?_
  dsimp only
  rw [firstUsable?_eq]
  cases Signature.firstUsable? _ privateKey messageHash budget 0 with
  | none => rfl
  | some sig => rfl

theorem below_of_signWith? {nonce : Felt → Felt → Word → Word}
    {privateKey messageHash seed : Felt} {budget : Nat} {r s : Word}
    (h : signWith? nonce privateKey messageHash seed budget = .ok (r, s)) :
    r.toNat < fieldPrime ∧ s.toNat < fieldPrime := by
  rw [signWith?_eq] at h
  cases made : Signature.signWith? nonce privateKey messageHash seed budget with
  | error e =>
    rw [made] at h
    cases h
  | ok sig =>
    rw [made] at h
    cases h
    rw [Felt.toNat_toWord, Felt.toNat_toWord]
    exact ⟨sig.r.val_lt, sig.s.val_lt⟩

/-! ## Typed values -/

def scalar? : Scalar → Except FeltError Word
  | .felt e => .ok e.toWord
  | .shortString s => ofShortString? s
  | .hex s => (Felt.ofHex? s).map Felt.toWord

def element? : TypedValue → Except Error Word
  | .scalar s => (scalar? s).mapError .felt
  | other => .error (.schema (.scalarExpected other.shape))

def arrayHash? : TypedValue → Except Error Word
  | .array items => do
    let words ← items.mapM element?
    hashWithLength? words
  | other => .error (.schema (.arrayExpected other.shape))

def typeHash? (s : Schema) (name : String) : Except SchemaFault Word :=
  (s.typeText? name).map fun text => selector (Bytes.ofText text)

mutual

def structHash? (s : Schema) (typeName : String) : TypedValue → Except Error Word
  | .record fields => do
    let fieldDecls ← (s.resolve? typeName).mapError .schema
    let hash ← (typeHash? s typeName).mapError .schema
    let encodings ← fieldDecls.mapM fun f =>
      match fieldEncoding? s f.typeName f.name fields with
      | none => .error (.schema (.missingField typeName f.name))
      | some (.error e) => .error (e.inField typeName f.name)
      | some (.ok encoding) => .ok encoding
    hashWithLength? (hash :: encodings)
  | other => do
    let _ ← (s.resolve? typeName).mapError .schema
    .error (.schema (.structExpected typeName other.shape))

def fieldEncoding? (s : Schema) (typeName name : String) :
    List (String × TypedValue) → Option (Except Error Word)
  | [] => none
  | (key, v) :: rest =>
    if key = name then
      some (
        if typeName = TypeName.felt then element? v
        else if typeName = TypeName.feltArray then arrayHash? v
        else structHash? s typeName v)
    else fieldEncoding? s typeName name rest

end

def domainHash? (s : Schema) : Except Error Word :=
  structHash? s TypeName.domain s.domain.toValue

def messageHash? (s : Schema) (account : Word) (v : TypedValue) : Except Error Word := do
  let first ← (ofShortString? Schema.messagePrefix).mapError .felt
  let domainHash ← domainHash? s
  let valueHash ← structHash? s s.primary v
  hashWithLength? [first, domainHash, account, valueHash]

theorem scalar?_eq (x : Scalar) : scalar? x = x.toFelt?.map Felt.toWord := by
  cases x with
  | felt e => rfl
  | shortString s => exact ofShortString?_eq s
  | hex s => rfl

theorem element?_eq (v : TypedValue) : element? v = v.toFelt?.map Felt.toWord := by
  cases v with
  | scalar x => rw [element?, scalar?_eq, mapError_map, TypedValue.toFelt?]
  | array items => rfl
  | record fields => rfl

theorem arrayHash?_eq (v : TypedValue) : arrayHash? v = v.arrayHash?.map Felt.toWord := by
  cases v with
  | scalar x => rfl
  | array items =>
    rw [arrayHash?, TypedValue.arrayHash?_array, TypedValue.toFelts?_eq_mapM,
      mapM_eq_map element?_eq]
    exact map_bind_eq hashWithLength?_map
  | record fields => rfl

theorem typeHash?_eq (s : Schema) (name : String) :
    typeHash? s name = (s.typeHash? name).map Felt.toWord := by
  rw [typeHash?, Schema.typeHash?]
  cases s.typeText? name with
  | error e => rfl
  | ok text => rw [map_ok, map_ok, map_ok, selector_eq, Selector.ofName]

mutual

-- By the recursion of the definitions: a record on its list of fields, and the list on the value of
-- its first field and on the rest.

/-- The bound passes from the encodings of the fields to the hash of the record. -/
theorem structHash?_eq (s : Schema) (typeName : String) (v : TypedValue) :
    structHash? s typeName v = (s.structHash? typeName v).map Felt.toWord := by
  cases v with
  | scalar x =>
    rw [structHash?, Schema.structHash?]
    · exact bind_eq_map fun _ _ => rfl
    · exact TypedValue.scalar_ne_record x
    · exact TypedValue.scalar_ne_record x
  | array items =>
    rw [structHash?, Schema.structHash?]
    · exact bind_eq_map fun _ _ => rfl
    · exact TypedValue.array_ne_record items
    · exact TypedValue.array_ne_record items
  | record fields =>
    rw [structHash?, Schema.structHash?]
    refine bind_eq_map fun fieldDecls _ => ?_
    rw [typeHash?_eq, mapError_map]
    refine map_bind_eq fun hash => ?_
    rw [mapM_eq_map fun f => ?_]
    · exact map_bind_eq fun encodings => hashWithLength?_map (hash :: encodings)
    · rw [fieldEncoding?_eq s f.typeName f.name fields]
      cases s.fieldEncoding? f.typeName f.name fields with
      | none => rfl
      | some encoding =>
        cases encoding with
        | error _ => rfl
        | ok _ => rfl

theorem fieldEncoding?_eq (s : Schema) (typeName name : String)
    (fields : List (String × TypedValue)) :
    fieldEncoding? s typeName name fields =
      (s.fieldEncoding? typeName name fields).map (Except.map Felt.toWord) := by
  cases fields with
  | nil => rw [fieldEncoding?, Schema.fieldEncoding?, Option.map_none]
  | cons pair rest =>
    obtain ⟨key, v⟩ := pair
    rw [fieldEncoding?, Schema.fieldEncoding?, element?_eq, arrayHash?_eq,
      structHash?_eq s typeName v, fieldEncoding?_eq s typeName name rest]
    split_ifs
    · rfl
    · rfl
    · rfl
    · rfl

end

theorem messageHash?_eq (s : Schema) (account : Felt) (v : TypedValue) :
    messageHash? s account.toWord v = (s.messageHash? account v).map Felt.toWord := by
  rw [messageHash?, Schema.messageHash?, ofShortString?_eq, mapError_map]
  refine map_bind_eq fun first => ?_
  rw [domainHash?, Schema.domainHash?, structHash?_eq]
  refine map_bind_eq fun domainHash => ?_
  rw [structHash?_eq]
  exact map_bind_eq fun valueHash =>
    hashWithLength?_map [first, domainHash, account, valueHash]

end Erased

/-- Every element is below the prime. A reader gives the number that was written, and only where
that is below the prime; an operation gives the word that bare arithmetic leaves from the words of
its arguments, and that is below the prime without being compared with it. Signing has this under
any choice of nonces, `Nonce.derive` among them. -/
theorem every_element_below_prime :
    (∀ n e, Felt.ofNat? n = .ok e → e.Holds n) ∧
    (∀ bytes e, Felt.ofBytes? bytes = .ok e → e.Holds (Bytes.number bytes)) ∧
    (∀ s e, Felt.ofHex? s = .ok e →
      e.Holds (Text.hexValue (Text.dropHexMarker s.toList))) ∧
    (∀ s e, Felt.ofDecimal? s = .ok e → e.Holds (Text.decimalValue s.toList)) ∧
    (∀ s e, Felt.ofString? s = .ok e → e.Holds (Text.writtenNumber s.toList)) ∧
    (∀ j e, Felt.ofJson? j = .ok e → ∃ n, j.writtenNumber? = some n ∧ e.Holds n) ∧
    (∀ n : UInt64, (Felt.ofUInt64 n).Holds n.toNat) ∧
    (∀ n : BitVec 128, (Felt.ofBitVec n (by decide)).Holds n.toNat) ∧
    (∀ s, Erased.Agrees (Erased.ofShortString? s) (Felt.ofShortString? s)) ∧
    (∀ bytes, (Selector.ofBytes bytes).Holds (Erased.selector bytes).toNat) ∧
    (∀ name, (Selector.ofName name).Holds (Erased.selector (Bytes.ofText name)).toNat) ∧
    (∀ elements, Erased.Agrees (Erased.hash? (elements.map Felt.toWord))
      (Pedersen.hash? elements)) ∧
    (∀ elements, Erased.Agrees (Erased.hashList? (elements.map Felt.toWord))
      (Pedersen.hashList? elements)) ∧
    (∀ elements, Erased.Agrees (Erased.hashWithLength? (elements.map Felt.toWord))
      (Pedersen.hashWithLength? elements)) ∧
    (∀ v, Erased.Agrees (Erased.element? v) v.toFelt?) ∧
    (∀ s name, Erased.Agrees (Erased.typeHash? s name) (s.typeHash? name)) ∧
    (∀ s typeName v, Erased.Agrees (Erased.structHash? s typeName v) (s.structHash? typeName v)) ∧
    (∀ s, Erased.Agrees (Erased.domainHash? s) s.domainHash?) ∧
    (∀ s account v, Erased.Agrees (Erased.messageHash? s account.toWord v)
      (s.messageHash? account v)) ∧
    ∀ nonce privateKey messageHash seed budget,
      Erased.signWith? nonce privateKey messageHash seed budget =
        (Signature.signWith? nonce privateKey messageHash seed budget).map Erased.words ∧
      ∀ r s, Erased.signWith? nonce privateKey messageHash seed budget = .ok (r, s) →
        r.toNat < fieldPrime ∧ s.toNat < fieldPrime := by
  refine ⟨fun n e read => ?_, fun bytes e read => ?_, fun s e read => ?_, fun s e read => ?_,
    fun s e read => ?_, fun j e read => ?_, fun n => ?_, fun n => ?_, fun s => ?_,
    fun bytes => ?_, fun name => ?_, fun elements => ?_, fun elements => ?_, fun elements => ?_,
    fun v => ?_, fun s name => ?_, fun s typeName v => ?_, fun s => ?_, fun s account v => ?_,
    fun nonce privateKey messageHash seed budget => ⟨?_, fun r s made => ?_⟩⟩
  · exact Felt.holds_of_val_eq (Felt.ofNat?_eq_ok_iff.mp read)
  · exact Felt.holds_of_val_eq (Felt.ofNat?_eq_ok_iff.mp read)
  · exact Felt.holds_of_val_eq (Felt.val_of_ofHex? read)
  · exact Felt.holds_of_val_eq (Felt.val_of_ofDecimal? read)
  · exact Felt.holds_of_val_eq (Felt.val_of_ofString? read)
  · exact ⟨e.val, Felt.writtenNumber?_of_ofJson? read, Felt.holds_of_val_eq rfl⟩
  · exact Felt.holds_of_val_eq rfl
  · exact Felt.holds_of_val_eq rfl
  · exact Erased.agrees_of_eq (Erased.ofShortString?_eq s)
  · exact Erased.holds_selector bytes
  · exact Erased.holds_selector (Bytes.ofText name)
  · exact Erased.agrees_of_eq (Erased.hash?_map elements)
  · exact Erased.agrees_of_eq (Erased.hashList?_map elements)
  · exact Erased.agrees_of_eq (Erased.hashWithLength?_map elements)
  · exact Erased.agrees_of_eq (Erased.element?_eq v)
  · exact Erased.agrees_of_eq (Erased.typeHash?_eq s name)
  · exact Erased.agrees_of_eq (Erased.structHash?_eq s typeName v)
  · exact Erased.agrees_of_eq (Erased.structHash?_eq s TypeName.domain s.domain.toValue)
  · exact Erased.agrees_of_eq (Erased.messageHash?_eq s account v)
  · exact Erased.signWith?_eq nonce privateKey messageHash seed budget
  · exact Erased.below_of_signWith? made

end StarkSigning
