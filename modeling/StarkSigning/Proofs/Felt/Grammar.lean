import StarkSigning.Proofs.Text.Positional

/-!
# StarkSigning.Proofs.Felt.Grammar

Which texts are read as elements. A hexadecimal text is a numeral behind at most one marker, a
decimal text is a numeral and nothing else. A text in the grammar whose number is below the prime
is read as that number; one whose number is not, but fits a word, is out of range; every other
text is badly encoded. A hexadecimal number fits a word if at most 64 digits are left behind its
leading zeros.

* `hexText_iff`: a text has one reading by the grammar, its digits without the marker.
* `ofHex?_of_hexText`, `ofDecimal?_of_numeral`: what a text in the grammar is read as.
* `Answers`: the three answers of a reader, and which texts get them.
* `readers_accept_grammar`: the answers of all readers of texts.
-/

namespace StarkSigning
namespace Text

/-- The two markers of hexadecimal texts. -/
def hexMarkers : List (List Char) := [['0', 'x'], ['0', 'X']]

def Marked (text : List Char) : Prop :=
  ∃ marker ∈ hexMarkers, marker <+: text

/-- A hexadecimal text, its digits and their number. -/
inductive HexText : List Char → List Char → Nat → Prop
  | bare {digits : List Char} {n : Nat} : Numeral 16 digits n → HexText digits digits n
  | marked {marker digits : List Char} {n : Nat} :
      marker ∈ hexMarkers → Numeral 16 digits n → HexText (marker ++ digits) digits n

theorem hasHexMarker_iff {text : List Char} : hasHexMarker text = true ↔ Marked text := by
  constructor
  · intro marked
    unfold hasHexMarker at marked
    split at marked
    · exact ⟨['0', 'x'], by decide, List.prefix_append ['0', 'x'] _⟩
    · exact ⟨['0', 'X'], by decide, List.prefix_append ['0', 'X'] _⟩
    · cases marked
  · rintro ⟨marker, known, rest, rfl⟩
    simp only [hexMarkers, List.mem_cons, List.not_mem_nil, or_false] at known
    rcases known with rfl | rfl
    · rfl
    · rfl

/-- The second character of a marker is no digit. -/
theorem not_marked_of_numeral {base n : Nat} {digits : List Char} (le : base ≤ 16)
    (numeral : Numeral base digits n) : ¬ Marked digits := by
  rintro ⟨marker, known, rest, rfl⟩
  obtain ⟨-, each⟩ := exists_numeral_iff.mp ⟨n, numeral⟩
  have noDigit : ∀ marker ∈ hexMarkers, marker.all isHexDigit = false := by decide
  obtain ⟨c, member, other⟩ := List.all_eq_false.mp (noDigit marker known)
  obtain ⟨d, digit⟩ := each c (List.mem_append_left _ member)
  exact other (isHexDigit_iff.mpr ⟨d, Nat.lt_of_lt_of_le digit.lt_base le, digit.written⟩)

theorem hexText_iff {text digits : List Char} {n : Nat} :
    HexText text digits n ↔ dropHexMarker text = digits ∧ Numeral 16 digits n := by
  have two : ∀ marker ∈ hexMarkers, marker.length = 2 := by decide
  constructor
  · intro hexText
    cases hexText with
    | bare numeral =>
      have unmarked : hasHexMarker text ≠ true := fun marked =>
        not_marked_of_numeral (Nat.le_refl 16) numeral (hasHexMarker_iff.mp marked)
      exact ⟨by rw [dropHexMarker, if_neg unmarked], numeral⟩
    | @marked marker digits n known numeral =>
      have marked := hasHexMarker_iff.mpr ⟨marker, known, List.prefix_append marker digits⟩
      rw [dropHexMarker, if_pos marked, ← two marker known, List.drop_left]
      exact ⟨rfl, numeral⟩
  · rintro ⟨rfl, numeral⟩
    by_cases marked : hasHexMarker text = true
    · obtain ⟨marker, known, digits, rfl⟩ := hasHexMarker_iff.mp marked
      rw [dropHexMarker, if_pos marked, ← two marker known, List.drop_left] at numeral ⊢
      exact .marked known numeral
    · rw [dropHexMarker, if_neg marked] at numeral ⊢
      exact .bare numeral

/-- At most 64 digits are left behind the leading zeros. -/
def FitsWord (digits : List Char) : Prop :=
  (digits.dropWhile (· == '0')).length ≤ 64

/-- Any more digits write a number above the prime. -/
theorem Numeral.fitsWord_of_lt {digits : List Char} {n : Nat} (numeral : Numeral 16 digits n)
    (below : n < fieldPrime) : FitsWord digits := by
  by_contra long
  have above := numeral.pow_le_of_significant (by decide) (Nat.lt_of_not_le long)
  have wide : fieldPrime ≤ Nat.pow 16 64 := by decide
  exact absurd below (Nat.not_lt_of_le (Nat.le_trans wide above))

end Text

namespace Felt

open Text

/-- A reader accepts the texts of elements, finds others out of range, and the rest badly encoded.
-/
structure Answers (answer : Except FeltError Felt) (accepted : Felt → Prop) (outOfRange : Prop) :
    Prop where
  ok_iff (e : Felt) : answer = .ok e ↔ accepted e
  outOfRange_iff : (∃ cause, answer = .error cause ∧ cause.kind = .outOfRange) ↔ outOfRange
  invalidEncoding_iff : (∃ cause, answer = .error cause ∧ cause.kind = .invalidEncoding) ↔
    (¬ ∃ e, accepted e) ∧ ¬ outOfRange

/-- A failure is of one kind or the other, so the first two answers determine the third. -/
theorem Answers.of_iff {answer : Except FeltError Felt} {accepted : Felt → Prop}
    {outOfRange : Prop} (ok_iff : ∀ e, answer = .ok e ↔ accepted e)
    (outOfRange_iff :
      (∃ cause, answer = .error cause ∧ cause.kind = .outOfRange) ↔ outOfRange) :
    Answers answer accepted outOfRange := by
  refine ⟨ok_iff, outOfRange_iff, ?_⟩
  constructor
  · rintro ⟨cause, failed, kind⟩
    constructor
    · rintro ⟨e, read⟩
      rw [(ok_iff e).mpr read] at failed
      cases failed
    · intro large
      obtain ⟨cause', failed', kind'⟩ := outOfRange_iff.mpr large
      cases failed.symm.trans failed'
      cases kind.symm.trans kind'
  · rintro ⟨noElement, notLarge⟩
    cases answer with
    | ok e => exact absurd ⟨e, (ok_iff e).mp rfl⟩ noElement
    | error cause =>
      rcases cause.kind_cases with large | bad
      · exact absurd (outOfRange_iff.mp ⟨cause, rfl, large⟩) notLarge
      · exact ⟨cause, rfl, bad⟩

theorem ofNat?_of_le {n : Nat} (above : fieldPrime ≤ n) : ofNat? n = .error (.outOfRange n) := by
  rw [ofNat?, dif_neg (Nat.not_lt_of_le above)]

/-- Where the texts of some form are read as the numbers they write, and any other text is badly
encoded, the prime decides between the first two answers. -/
theorem Answers.of_number {answer : Except FeltError Felt} {writes : Nat → Prop}
    (read : ∀ n, writes n → answer = ofNat? n)
    (refused : (¬ ∃ n, writes n) →
      ∃ cause, answer = .error cause ∧ cause.kind = .invalidEncoding) :
    Answers answer (fun e => writes e.val) (∃ n, writes n ∧ fieldPrime ≤ n) := by
  refine .of_iff (fun e => ⟨fun found => ?_, fun written => ?_⟩) ⟨?_, ?_⟩
  · by_cases number : ∃ n, writes n
    · obtain ⟨n, written⟩ := number
      rw [read n written, ofNat?_eq_ok_iff] at found
      rw [found]
      exact written
    · obtain ⟨cause, failed, -⟩ := refused number
      cases found.symm.trans failed
  · rw [read e.val written, ofNat?_val]
  · rintro ⟨cause, failed, kind⟩
    by_cases number : ∃ n, writes n
    · obtain ⟨n, written⟩ := number
      refine ⟨n, written, Nat.le_of_not_lt fun below => ?_⟩
      rw [read n written, ofNat?, dif_pos below] at failed
      cases failed
    · obtain ⟨cause', failed', kind'⟩ := refused number
      cases failed.symm.trans failed'
      cases kind.symm.trans kind'
  · rintro ⟨n, written, above⟩
    exact ⟨_, (read n written).trans (ofNat?_of_le above), rfl⟩

/-! ## Hexadecimal texts -/

theorem ofHex?_of_hexText {s : String} {digits : List Char} {n : Nat}
    (hexText : HexText s.toList digits n) (fits : FitsWord digits) : ofHex? s = ofNat? n := by
  obtain ⟨rfl, numeral⟩ := hexText_iff.mp hexText
  obtain ⟨nonempty, each⟩ := exists_numeral_iff.mp ⟨n, numeral⟩
  rw [ofHex?_eq_ofNat? nonempty (fun c member => isHexDigit_iff.mpr (each c member)) fits,
    numeral.hexValue_eq]

theorem ofHex?_of_no_hexText {s : String}
    (other : ¬ ∃ n digits, HexText s.toList digits n ∧ FitsWord digits) :
    ∃ cause, ofHex? s = .error cause ∧ cause.kind = .invalidEncoding := by
  simp only [ofHex?]
  split
  · exact ⟨_, rfl, rfl⟩
  · rename_i nonempty
    split
    · exact ⟨_, rfl, rfl⟩
    · rename_i short
      split
      · -- Digits that fit are a hexadecimal text.
        rename_i noOther
        have each := forall_isHexDigit_of_significant noOther
        have length := byteLength_of_isHexDigit (List.dropWhile_eq_nil_iff.mp noOther)
        rw [List.isEmpty_iff] at nonempty
        obtain ⟨n, numeral⟩ := exists_numeral_iff.mpr
          ⟨nonempty, fun c member => isHexDigit_iff.mp (each c member)⟩
        rw [length] at short
        exact absurd ⟨n, _, hexText_iff.mpr ⟨rfl, numeral⟩, Nat.le_of_not_lt short⟩ other
      · exact ⟨_, rfl, rfl⟩

theorem ofHex?_answers (s : String) :
    Answers (ofHex? s) (fun e => ∃ digits, HexText s.toList digits e.val)
      (∃ digits n, HexText s.toList digits n ∧ FitsWord digits ∧ fieldPrime ≤ n) := by
  have answers : Answers (ofHex? s)
      (fun e => ∃ digits, HexText s.toList digits e.val ∧ FitsWord digits)
      (∃ n, (∃ digits, HexText s.toList digits n ∧ FitsWord digits) ∧ fieldPrime ≤ n) :=
    .of_number (fun n ⟨digits, hexText, fits⟩ => ofHex?_of_hexText hexText fits)
      ofHex?_of_no_hexText
  refine .of_iff (fun e => ?_) ?_
  · rw [answers.ok_iff]
    constructor
    · rintro ⟨digits, hexText, -⟩
      exact ⟨digits, hexText⟩
    · rintro ⟨digits, hexText⟩
      exact ⟨digits, hexText, (hexText_iff.mp hexText).2.fitsWord_of_lt e.val_lt⟩
  · rw [answers.outOfRange_iff]
    constructor
    · rintro ⟨n, ⟨digits, hexText, fits⟩, above⟩
      exact ⟨digits, n, hexText, fits, above⟩
    · rintro ⟨digits, n, hexText, fits, above⟩
      exact ⟨n, ⟨digits, hexText, fits⟩, above⟩

/-! ## Decimal texts -/

theorem ofDecimal?_of_numeral {s : String} {n : Nat} (numeral : Numeral 10 s.toList n)
    (fits : n < Word.size) : ofDecimal? s = ofNat? n := by
  simp only [ofDecimal?, if_pos (isDecimal_iff.mpr ⟨n, numeral⟩), numeral.decimalValue_eq,
    if_neg (Nat.not_le_of_lt fits)]

theorem ofDecimal?_of_no_numeral {s : String}
    (other : ¬ ∃ n, Numeral 10 s.toList n ∧ n < Word.size) :
    ∃ cause, ofDecimal? s = .error cause ∧ cause.kind = .invalidEncoding := by
  by_cases decimal : isDecimal s.toList = true
  · obtain ⟨n, numeral⟩ := isDecimal_iff.mp decimal
    have large : Word.size ≤ n := Nat.le_of_not_lt fun fits => other ⟨n, numeral, fits⟩
    simp only [ofDecimal?, if_pos decimal, numeral.decimalValue_eq, if_pos large]
    exact ⟨_, rfl, rfl⟩
  · simp only [ofDecimal?, if_neg decimal]
    exact ⟨_, rfl, rfl⟩

theorem ofDecimal?_answers (s : String) :
    Answers (ofDecimal? s) (fun e => Numeral 10 s.toList e.val)
      (∃ n, Numeral 10 s.toList n ∧ fieldPrime ≤ n ∧ n < Word.size) := by
  have answers : Answers (ofDecimal? s)
      (fun e => Numeral 10 s.toList e.val ∧ e.val < Word.size)
      (∃ n, (Numeral 10 s.toList n ∧ n < Word.size) ∧ fieldPrime ≤ n) :=
    .of_number (fun n ⟨numeral, fits⟩ => ofDecimal?_of_numeral numeral fits)
      ofDecimal?_of_no_numeral
  refine .of_iff (fun e => ?_) ?_
  · have fits : e.val < Word.size := Nat.lt_trans e.val_lt (by decide)
    rw [answers.ok_iff, and_iff_left fits]
  · rw [answers.outOfRange_iff]
    exact exists_congr fun n => and_assoc.trans (and_congr_right fun _ => and_comm)

/-! ## Both -/

theorem ofString?_of_marked {s : String} (marked : Marked s.toList) : ofString? s = ofHex? s := by
  rw [ofString?, if_pos (hasHexMarker_iff.mpr marked)]

theorem ofString?_of_unmarked {s : String} (unmarked : ¬ Marked s.toList) :
    ofString? s = ofDecimal? s := by
  rw [ofString?, if_neg (mt hasHexMarker_iff.mp unmarked)]

/-- A hexadecimal text is accepted where its number is below the prime, and is out of range where
the number is not and 64 digits hold it; a decimal text likewise, where a word holds the number.
Every other text is badly encoded. What starts with a marker is read as hexadecimal and everything
else as decimal. -/
theorem readers_accept_grammar (s : String) :
    Answers (ofHex? s) (fun e => ∃ digits, HexText s.toList digits e.val)
      (∃ digits n, HexText s.toList digits n ∧ FitsWord digits ∧ fieldPrime ≤ n) ∧
    Answers (ofDecimal? s) (fun e => Numeral 10 s.toList e.val)
      (∃ n, Numeral 10 s.toList n ∧ fieldPrime ≤ n ∧ n < Word.size) ∧
    (Marked s.toList → ofString? s = ofHex? s) ∧
    (¬ Marked s.toList → ofString? s = ofDecimal? s) :=
  ⟨ofHex?_answers s, ofDecimal?_answers s, ofString?_of_marked, ofString?_of_unmarked⟩

/-- Capitals, and a zero in front, behind a marker. -/
theorem readers_accept_grammar_capitals :
    let e : Felt := ⟨0xfe, by decide⟩
    HexText "0X0Fe".toList ['0', 'F', 'e'] e.val ∧ ofHex? "0X0Fe" = .ok e ∧
      ofString? "0X0Fe" = ofHex? "0X0Fe" := by
  intro e
  have zero : IsDigit 16 '0' 0 := ⟨by decide, .inl rfl⟩
  have capital : IsDigit 16 'F' 15 := ⟨by decide, .inr rfl⟩
  have small : IsDigit 16 'e' 14 := ⟨by decide, .inl rfl⟩
  have marker : ['0', 'X'] ∈ hexMarkers := by decide
  have hexText : HexText "0X0Fe".toList ['0', 'F', 'e'] e.val :=
    .marked marker (.cons zero (.cons capital (.digit small)))
  obtain ⟨hexadecimal, -, marked, -⟩ := readers_accept_grammar "0X0Fe"
  exact ⟨hexText, (hexadecimal.ok_iff e).mpr ⟨_, hexText⟩,
    marked ⟨['0', 'X'], marker, List.prefix_append _ ['0', 'F', 'e']⟩⟩

end Felt
end StarkSigning
