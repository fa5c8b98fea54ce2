import Mathlib.Data.List.TakeWhile
import StarkSigning.Proofs.Felt.Written
import StarkSigning.Proofs.Json.Strings

/-!
# StarkSigning.Proofs.Felt.Canonical

The written forms of an element lose nothing, and the hexadecimal one is canonical. Digits in
lowercase that do not start with a zero are the numeral of the number they write, so the form of
an element that was read is the text itself, tidied: without its marker, in lowercase, without
leading zeros.

* `toDigits_hexValue`: lowercase digits behind no zero are a numeral.
* `ofHex?_eq_ofNat?`, `digits_of_ofHex?`: which texts are hexadecimal, and what they are read as.
* `toHex_of_ofHex?`: the form of what was read.
* `forms_lossless_and_canonical`: all forms together.
-/

namespace StarkSigning
namespace Text

/-- The digits of a text as the canonical form has them: without a marker, in lowercase and without
leading zeros, or one zero where no digit remains. -/
def canonicalDigits (text : List Char) : List Char :=
  let significant := ((dropHexMarker text).map Char.toLower).dropWhile (· == '0')
  if significant.isEmpty then ['0'] else significant

/-- The canonical form of a hexadecimal text. -/
def canonicalHex (s : String) : String :=
  "0x" ++ String.ofList (canonicalDigits s.toList)

theorem toNat_lt_of_isHexDigit {c : Char} (h : isHexDigit c = true) : c.toNat < 128 := by
  have digit0 : '0'.toNat = 48 := rfl
  have digit9 : '9'.toNat = 57 := rfl
  have lowerF : 'f'.toNat = 102 := rfl
  have upperF : 'F'.toNat = 70 := rfl
  by_contra high
  simp only [isHexDigit, hexDigit?] at h
  rw [if_neg (by omega), if_neg (by omega), if_neg (by omega)] at h
  cases h

/-- A digit of either case has a value, which its lowercase form writes. -/
theorem exists_toLower_eq_digitChar {c : Char} (h : isHexDigit c = true) :
    ∃ d < 16, hexDigit? c = some d ∧ c.toLower = d.digitChar := by
  have all : ∀ n < 128, isHexDigit (Char.ofNat n) = true →
      ∃ d < 16, hexDigit? (Char.ofNat n) = some d ∧ (Char.ofNat n).toLower = d.digitChar := by
    decide +kernel
  have here := all c.toNat (toNat_lt_of_isHexDigit h)
  rw [Char.ofNat_toNat] at here
  exact here h

theorem byteLength_of_isHexDigit {digits : List Char} (h : ∀ c ∈ digits, isHexDigit c = true) :
    byteLength digits = digits.length := by
  induction digits with
  | nil => rfl
  | cons c rest ih =>
    rw [List.forall_mem_cons] at h
    have ascii : c.val ≤ 127 := by
      have small := toNat_lt_of_isHexDigit h.1
      rw [UInt32.le_iff_toNat_le]
      exact Nat.le_of_lt_succ small
    have one : c.utf8Size = 1 := Char.utf8Size_eq_one_iff.mpr ascii
    have tail : rest.foldr (fun c rest => c.utf8Size + rest) 0 = rest.length := ih h.2
    rw [byteLength, List.foldr_cons, tail, one, List.length_cons, Nat.add_comm]

/-- The case of digits does not count. -/
theorem hexValue_map_toLower {digits : List Char} (h : ∀ c ∈ digits, isHexDigit c = true) :
    hexValue (digits.map Char.toLower) = hexValue digits := by
  -- The fold is followed from any number on, the digits before having been read.
  have general (value : Nat) :
      digits.foldl (fun value c => 16 * value + (hexDigit? c.toLower).getD 0) value =
        digits.foldl (fun value c => 16 * value + (hexDigit? c).getD 0) value := by
    induction digits generalizing value with
    | nil => rfl
    | cons c rest ih =>
      rw [List.forall_mem_cons] at h
      obtain ⟨d, small, read, lower⟩ := exists_toLower_eq_digitChar h.1
      rw [List.foldl_cons, List.foldl_cons, lower, read, hexDigit?_digitChar small]
      exact ih h.2 _
  rw [hexValue, List.foldl_map]
  exact general 0

/-- Digits behind a numeral other than zero continue it. -/
theorem toDigits_append {value : Nat} (positive : 0 < value) {digits : List Char}
    (written : ∀ c ∈ digits, ∃ d < 16, c = d.digitChar) :
    Nat.toDigits 16 value ++ digits =
      Nat.toDigits 16 (digits.foldl (fun value c => 16 * value + (hexDigit? c).getD 0) value) := by
  induction digits generalizing value with
  | nil => rw [List.append_nil, List.foldl_nil]
  | cons c rest ih =>
    rw [List.forall_mem_cons] at written
    obtain ⟨⟨d, small, rfl⟩, written⟩ := written
    have next : Nat.toDigits 16 value ++ [d.digitChar] = Nat.toDigits 16 (16 * value + d) := by
      rw [← Nat.toDigits_of_lt_base small]
      exact Nat.toDigits_append_toDigits (by decide) positive small
    rw [List.foldl_cons, hexDigit?_digitChar small, Option.getD_some, ← ih (by omega) written,
      ← next, List.append_assoc, List.singleton_append]

theorem toDigits_hexValue {c : Char} {rest : List Char} (lead : c ≠ '0')
    (written : ∀ c' ∈ c :: rest, ∃ d < 16, c' = d.digitChar) :
    Nat.toDigits 16 (hexValue (c :: rest)) = c :: rest := by
  rw [List.forall_mem_cons] at written
  obtain ⟨⟨d, small, rfl⟩, written⟩ := written
  have positive : 0 < d := by
    rcases Nat.eq_zero_or_pos d with zero | positive
    · rw [zero] at lead
      exact absurd rfl lead
    · exact positive
  have first : hexValue (d.digitChar :: rest) =
      rest.foldl (fun value c => 16 * value + (hexDigit? c).getD 0) d := by
    rw [hexValue, List.foldl_cons, hexDigit?_digitChar small, Option.getD_some, Nat.mul_zero,
      Nat.zero_add]
  rw [first, ← toDigits_append positive written, Nat.toDigits_of_lt_base small,
    List.singleton_append]

/-- The canonical digits of a hexadecimal text are the numeral of its number. -/
theorem canonicalDigits_eq {text : List Char}
    (h : ∀ c ∈ dropHexMarker text, isHexDigit c = true) :
    canonicalDigits text = Nat.toDigits 16 (hexValue (dropHexMarker text)) := by
  have lowercase : ∀ c ∈ (dropHexMarker text).map Char.toLower, ∃ d < 16, c = d.digitChar := by
    intro c member
    obtain ⟨c', member', rfl⟩ := List.mem_map.mp member
    obtain ⟨d, small, -, lower⟩ := exists_toLower_eq_digitChar (h c' member')
    exact ⟨d, small, lower⟩
  rw [← hexValue_map_toLower h, ← hexValue_dropWhile_zero, canonicalDigits]
  cases remain : ((dropHexMarker text).map Char.toLower).dropWhile (· == '0') with
  | nil => rfl
  | cons c rest =>
    have lead : c ≠ '0' := by
      have head := List.head_dropWhile_not (p := (· == '0'))
        (l := (dropHexMarker text).map Char.toLower) (by simp [remain])
      simpa [remain] using head
    have written : ∀ c' ∈ c :: rest, ∃ d < 16, c' = d.digitChar := by
      intro c' member
      rw [← remain] at member
      exact lowercase c' ((List.dropWhile_sublist _).subset member)
    rw [toDigits_hexValue lead written]
    rfl

theorem isHexDigit_of_mem_toDigits {n : Nat} {c : Char} (h : c ∈ Nat.toDigits 16 n) :
    isHexDigit c = true := by
  induction n using Nat.strongRecOn with
  | ind n ih =>
    rw [Nat.toDigits_eq_if (by decide)] at h
    split at h
    · rename_i small
      rw [List.mem_singleton.mp h, isHexDigit, hexDigit?_digitChar small]
      rfl
    · rcases List.mem_append.mp h with before | last
      · exact ih (n / 16) (by omega) before
      · rw [List.mem_singleton.mp last, isHexDigit,
          hexDigit?_digitChar (Nat.mod_lt n (by decide))]
        rfl

theorem isDecimal_toDigits (n : Nat) : isDecimal (Nat.toDigits 10 n) = true := by
  simp only [isDecimal, Bool.and_eq_true, Bool.not_eq_true', List.isEmpty_eq_false_iff,
    List.all_eq_true]
  exact ⟨Nat.toDigits_ne_nil, fun c => Nat.isDigit_of_mem_toDigits (by decide) (by decide)⟩

/-- No other character among the significant digits, and so none at all. -/
theorem forall_isHexDigit_of_significant {digits : List Char}
    (noOther : (digits.dropWhile (· == '0')).dropWhile isHexDigit = []) :
    ∀ c ∈ digits, isHexDigit c = true := by
  intro c member
  rw [List.dropWhile_eq_nil_iff] at noOther
  rw [← List.takeWhile_append_dropWhile (p := (· == '0')) (l := digits)] at member
  rcases List.mem_append.mp member with zero | significant
  · have isZero := List.mem_takeWhile_imp zero
    rw [beq_iff_eq] at isZero
    rw [isZero]
    rfl
  · exact noOther c significant

end Text

namespace Felt

open Text

/-- A text of hexadecimal digits behind at most one marker is read as its number. -/
theorem ofHex?_eq_ofNat? {s : String} (nonempty : dropHexMarker s.toList ≠ [])
    (digits : ∀ c ∈ dropHexMarker s.toList, isHexDigit c = true)
    (short : ((dropHexMarker s.toList).dropWhile (· == '0')).length ≤ 64) :
    ofHex? s = ofNat? (hexValue (dropHexMarker s.toList)) := by
  have significant : ∀ c ∈ (dropHexMarker s.toList).dropWhile (· == '0'),
      isHexDigit c = true := by
    intro c member
    exact digits c ((List.dropWhile_sublist _).subset member)
  have noOther :
      ((dropHexMarker s.toList).dropWhile (· == '0')).dropWhile isHexDigit = [] := by
    rw [List.dropWhile_eq_nil_iff]
    exact significant
  have length := byteLength_of_isHexDigit significant
  simp only [ofHex?, List.isEmpty_iff, if_neg nonempty]
  rw [if_neg (by omega), noOther, hexValue_dropWhile_zero]

theorem digits_of_ofHex? {s : String} {e : Felt} (h : ofHex? s = .ok e) :
    dropHexMarker s.toList ≠ [] ∧ ∀ c ∈ dropHexMarker s.toList, isHexDigit c = true := by
  simp only [ofHex?] at h
  split at h
  · cases h
  · rename_i nonempty
    split at h
    · cases h
    · split at h
      · rename_i noOther
        exact ⟨fun empty => nonempty (by rw [empty]; rfl),
          forall_isHexDigit_of_significant noOther⟩
      · cases h

theorem toHex_of_ofHex? {s : String} {e : Felt} (h : ofHex? s = .ok e) :
    e.toHex = canonicalHex s := by
  rw [canonicalHex, canonicalDigits_eq (digits_of_ofHex? h).2, ← val_of_ofHex? h]
  rfl

theorem toList_toHex (e : Felt) : e.toHex.toList = '0' :: 'x' :: Nat.toDigits 16 e.val := by
  rw [toHex, hex, hexDigits, String.toList_append, String.toList_ofList]
  simp

theorem ofHex?_toHex (e : Felt) : ofHex? e.toHex = .ok e := by
  have digits : dropHexMarker e.toHex.toList = Nat.toDigits 16 e.val := by
    rw [toList_toHex]
    rfl
  have small : e.val < 16 ^ 64 := Nat.lt_trans e.val_lt (by decide)
  have length := (Nat.length_toDigits_le_iff (by decide) (by decide)).mpr small
  have sublist := (List.dropWhile_sublist (· == '0') (l := Nat.toDigits 16 e.val)).length_le
  rw [ofHex?_eq_ofNat?]
  · rw [digits, hexValue_toDigits, ofNat?_val]
  · rw [digits]
    exact Nat.toDigits_ne_nil
  · rw [digits]
    intro c
    exact isHexDigit_of_mem_toDigits
  · rw [digits]
    omega

theorem toHex_injective {a b : Felt} (h : a.toHex = b.toHex) : a = b := by
  have read := ofHex?_toHex a
  rw [h, ofHex?_toHex] at read
  exact (Except.ok.inj read).symm

theorem ofString?_toHex (e : Felt) : ofString? e.toHex = .ok e := by
  have marked : hasHexMarker e.toHex.toList = true := by
    rw [toList_toHex]
    rfl
  rw [ofString?, if_pos marked, ofHex?_toHex]

theorem ofDecimal?_toDecimal (e : Felt) : ofDecimal? e.toDecimal = .ok e := by
  have fits : e.val < Word.size := Nat.lt_trans e.val_lt (by decide)
  simp only [ofDecimal?, toDecimal, String.toList_ofList, if_pos (isDecimal_toDigits e.val),
    decimalValue_toDigits, if_neg (Nat.not_le_of_lt fits), ofNat?_val]

theorem ofJson?_toJson (e : Felt) : ofJson? e.toJson = .ok e := by
  rw [toJson, ofJson?, ofString?_toHex]
  rfl

/-- Every written form of an element is read back as the element: hexadecimal, decimal, the 32
bytes, and the JSON value, which itself survives its JSON text. A hexadecimal text that is read
has the element's form as its canonical one, so two of them are read as one element exactly if
they have one canonical form. -/
theorem forms_lossless_and_canonical :
    (∀ e : Felt, ofHex? e.toHex = .ok e ∧ ofString? e.toHex = .ok e ∧
      ofBytes? e.toBytes = .ok e ∧ e.toBytes.length = 32 ∧ ofDecimal? e.toDecimal = .ok e ∧
      ofJson? e.toJson = .ok e ∧ Json.read? e.toJson.render = some e.toJson) ∧
    ∀ (s : String) (e : Felt), ofHex? s = .ok e →
      e.toHex = canonicalHex s ∧
      ∀ (s' : String) (e' : Felt), ofHex? s' = .ok e' →
        (e = e' ↔ canonicalHex s = canonicalHex s') := by
  refine ⟨fun e => ?_, fun s e read => ⟨toHex_of_ofHex? read, fun s' e' read' => ?_⟩⟩
  · exact ⟨ofHex?_toHex e, ofString?_toHex e, ofBytes_toBytes e, Bytes.length_ofNumber 32 e.val,
      ofDecimal?_toDecimal e, ofJson?_toJson e, Json.read?_render_string e.toHex⟩
  · rw [← toHex_of_ofHex? read, ← toHex_of_ofHex? read']
    exact ⟨fun same => by rw [same], toHex_injective⟩

/-- A marker, zeros in front and capitals do not count, and a text of zeros has one of them left. -/
theorem forms_lossless_and_canonical_spellings :
    let e : Felt := ⟨0xcd2a, by decide⟩
    ofHex? "0X00Cd2A" = .ok e ∧ ofHex? "cd2a" = .ok e ∧ ofHex? "0X000" = .ok zero ∧
      e.toHex = canonicalHex "0X00Cd2A" ∧ canonicalHex "0X00Cd2A" = canonicalHex "cd2a" ∧
      canonicalHex "cd2a" ≠ canonicalHex "0X000" ∧ canonicalHex "0X000" = "0x0" := by
  intro e
  have capitals : ofHex? "0X00Cd2A" = .ok e := Outcome.eq_ok_of_toOption (by decide +kernel)
  have bare : ofHex? "cd2a" = .ok e := Outcome.eq_ok_of_toOption (by decide +kernel)
  have zeros : ofHex? "0X000" = .ok zero := Outcome.eq_ok_of_toOption (by decide +kernel)
  obtain ⟨-, canonical⟩ := forms_lossless_and_canonical
  obtain ⟨form, -⟩ := canonical _ _ capitals
  obtain ⟨-, alike⟩ := canonical _ _ bare
  exact ⟨capitals, bare, zeros, form, ((alike _ _ capitals).mp rfl).symm,
    fun same => absurd ((alike _ _ zeros).mpr same) (by decide), (canonical _ _ zeros).1.symm⟩

end Felt
end StarkSigning
