import StarkSigning.Proofs.Felt.Canonical

/-!
# StarkSigning.Proofs.Text.Positional

Numerals by the places of their digits: a digit counts its value times a power of the base, one
power for each digit behind it. The readers of digits go through a text once, from the front, and
multiply what they have by the base at every digit. Both come to one number.

* `hexDigit?_eq_some_iff`, `isDigit_iff`: which characters are digits.
* `exists_numeral_iff`: the numerals are the texts of one digit or more.
* `Numeral.hexValue_eq`, `Numeral.decimalValue_eq`: reading from the front gives the number.
* `numeral_toDigits`: the written form of a number is a numeral.
* `Numeral.lt_pow`, `Numeral.pow_le_of_significant`: how large a number of so many digits is.
-/

namespace StarkSigning
namespace Text

/-- The character writes a digit of this value, as a small letter or a capital. -/
structure IsDigit (base : Nat) (c : Char) (d : Nat) : Prop where
  lt_base : d < base
  written : c = d.digitChar ∨ c = d.digitChar.toUpper

/-- One digit or more, with the number that they write. -/
inductive Numeral (base : Nat) : List Char → Nat → Prop
  | digit {c : Char} {d : Nat} : IsDigit base c d → Numeral base [c] d
  | cons {c : Char} {d : Nat} {rest : List Char} {n : Nat} :
      IsDigit base c d → Numeral base rest n →
      Numeral base (c :: rest) (d * Nat.pow base rest.length + n)

/-! ## Digits -/

theorem hexDigit?_eq_some_iff {c : Char} {d : Nat} : hexDigit? c = some d ↔ IsDigit 16 c d := by
  constructor
  · intro read
    have ascii : c.toNat < 128 := toNat_lt_of_isHexDigit (by rw [isHexDigit, read]; rfl)
    have all : ∀ n < 128, (hexDigit? (Char.ofNat n)).all fun d =>
        d < 16 ∧ (Char.ofNat n = d.digitChar ∨ Char.ofNat n = d.digitChar.toUpper) := by
      decide +kernel
    have here := all c.toNat ascii
    rw [Char.ofNat_toNat, read, Option.all_some, decide_eq_true_iff] at here
    exact ⟨here.1, here.2⟩
  · rintro ⟨small, written⟩
    have all : ∀ d < 16, hexDigit? d.digitChar = some d ∧ hexDigit? d.digitChar.toUpper = some d := by
      decide
    rcases written with rfl | rfl
    · exact (all d small).1
    · exact (all d small).2

theorem isHexDigit_iff {c : Char} : isHexDigit c = true ↔ ∃ d, IsDigit 16 c d := by
  rw [isHexDigit, Option.isSome_iff_exists]
  exact exists_congr fun d => hexDigit?_eq_some_iff

theorem IsDigit.eq_digitChar {c : Char} {d : Nat} (digit : IsDigit 10 c d) : c = d.digitChar := by
  have same : ∀ d < 10, d.digitChar.toUpper = d.digitChar := by decide
  rcases digit.written with small | capital
  · exact small
  · rw [capital, same d digit.lt_base]

theorem isDigit_iff {c : Char} : c.isDigit = true ↔ ∃ d, IsDigit 10 c d := by
  constructor
  · intro digit
    have all : ∀ n < 58, (Char.ofNat n).isDigit = true →
        ∃ d < 10, Char.ofNat n = d.digitChar := by decide
    have bound : c.toNat < 58 := Nat.lt_succ_of_le (Char.isDigit_iff_toNat.mp digit).2
    have here := all c.toNat bound
    rw [Char.ofNat_toNat] at here
    obtain ⟨d, small, written⟩ := here digit
    exact ⟨d, small, .inl written⟩
  · rintro ⟨d, digit⟩
    rw [digit.eq_digitChar, Nat.isDigit_digitChar, decide_eq_true_iff]
    exact digit.lt_base

/-! ## Numerals -/

variable {base : Nat}

theorem exists_numeral_iff {digits : List Char} :
    (∃ n, Numeral base digits n) ↔ digits ≠ [] ∧ ∀ c ∈ digits, ∃ d, IsDigit base c d := by
  constructor
  · rintro ⟨n, numeral⟩
    induction numeral with
    | @digit c d digit => exact ⟨List.cons_ne_nil c [], List.forall_mem_singleton.mpr ⟨d, digit⟩⟩
    | @cons c d rest n digit _ ih =>
      exact ⟨List.cons_ne_nil c rest, List.forall_mem_cons.mpr ⟨⟨d, digit⟩, ih.2⟩⟩
  · rintro ⟨nonempty, each⟩
    -- No text writes a number without digits, so the last digit ends the induction.
    induction digits with
    | nil => exact absurd rfl nonempty
    | cons c rest ih =>
      rw [List.forall_mem_cons] at each
      obtain ⟨⟨d, digit⟩, each⟩ := each
      by_cases last : rest = []
      · rw [last]
        exact ⟨d, .digit digit⟩
      · obtain ⟨n, numeral⟩ := ih last each
        exact ⟨_, .cons digit numeral⟩

/-- From any number on, the digits move it to the left by as many places and are added to it. -/
theorem Numeral.foldl_eq {digits : List Char} {n : Nat} (numeral : Numeral base digits n)
    {value : Char → Nat} (reads : ∀ c d, IsDigit base c d → value c = d) (start : Nat) :
    digits.foldl (fun number c => base * number + value c) start =
      start * Nat.pow base digits.length + n := by
  induction numeral generalizing start with
  | digit digit =>
    rw [List.foldl_cons, List.foldl_nil, reads _ _ digit, List.length_singleton, Nat.pow_eq,
      Nat.pow_one, Nat.mul_comm]
  | @cons c d rest n digit _ ih =>
    rw [List.foldl_cons, reads _ _ digit, ih, List.length_cons, Nat.pow_eq, Nat.pow_eq,
      Nat.pow_succ, Nat.add_mul, Nat.add_assoc, Nat.mul_comm base start, Nat.mul_assoc,
      Nat.mul_comm base]

theorem Numeral.hexValue_eq {digits : List Char} {n : Nat} (numeral : Numeral 16 digits n) :
    hexValue digits = n := by
  have reads (c : Char) (d : Nat) (digit : IsDigit 16 c d) : (hexDigit? c).getD 0 = d := by
    rw [hexDigit?_eq_some_iff.mpr digit, Option.getD_some]
  rw [hexValue, numeral.foldl_eq reads 0, Nat.zero_mul, Nat.zero_add]

theorem Numeral.decimalValue_eq {digits : List Char} {n : Nat} (numeral : Numeral 10 digits n) :
    decimalValue digits = n := by
  have reads (c : Char) (d : Nat) (digit : IsDigit 10 c d) : c.toNat - '0'.toNat = d := by
    rw [digit.eq_digitChar]
    exact Nat.toNat_digitChar_sub_48_of_lt_ten digit.lt_base
  rw [decimalValue, Nat.ofDigitChars, numeral.foldl_eq reads 0, Nat.zero_mul, Nat.zero_add]

theorem isDecimal_iff {text : List Char} : isDecimal text = true ↔ ∃ n, Numeral 10 text n := by
  rw [exists_numeral_iff]
  simp only [isDecimal, Bool.and_eq_true, Bool.not_eq_true', List.isEmpty_eq_false_iff,
    List.all_eq_true, isDigit_iff]

theorem numeral_toDigits (n : Nat) : Numeral 10 (Nat.toDigits 10 n) n := by
  obtain ⟨m, numeral⟩ := isDecimal_iff.mp (isDecimal_toDigits n)
  have same := numeral.decimalValue_eq
  rw [decimalValue_toDigits] at same
  subst same
  exact numeral

theorem Numeral.lt_pow {digits : List Char} {n : Nat} (numeral : Numeral base digits n) :
    n < Nat.pow base digits.length := by
  induction numeral with
  | digit digit => simpa using digit.lt_base
  | @cons c d rest n digit _ ih =>
    calc d * Nat.pow base rest.length + n
        < d * Nat.pow base rest.length + Nat.pow base rest.length := Nat.add_lt_add_left ih _
      _ = (d + 1) * Nat.pow base rest.length := (Nat.succ_mul _ _).symm
      _ ≤ base * Nat.pow base rest.length := Nat.mul_le_mul_right _ digit.lt_base
      _ = Nat.pow base rest.length * base := Nat.mul_comm _ _

theorem Numeral.pow_le {c : Char} {rest : List Char} {n : Nat}
    (numeral : Numeral base (c :: rest) n) (lead : c ≠ '0') : Nat.pow base rest.length ≤ n := by
  have positive {d : Nat} (digit : IsDigit base c d) : 0 < d := by
    rcases Nat.eq_zero_or_pos d with rfl | positive
    · exact absurd (digit.written.elim id id) lead
    · exact positive
  cases numeral with
  | digit digit => exact positive digit
  | cons digit _ =>
    exact Nat.le_trans (Nat.le_mul_of_pos_left _ (positive digit)) (Nat.le_add_right _ _)

/-- The lower bound counts digits from the first that is not zero. -/
theorem Numeral.pow_le_of_significant {digits : List Char} {n width : Nat} (positive : 0 < base)
    (numeral : Numeral base digits n)
    (long : width < (digits.dropWhile (· == '0')).length) : Nat.pow base width ≤ n := by
  induction numeral with
  | @digit c d digit =>
    by_cases zero : c = '0'
    · rw [zero, List.dropWhile_cons_of_pos (by decide)] at long
      exact absurd long (Nat.not_lt_zero width)
    · rw [List.dropWhile_cons_of_neg (by simpa using zero), List.length_singleton] at long
      rw [Nat.lt_one_iff.mp long]
      exact (Numeral.digit digit).pow_le zero
  | @cons c d rest n digit numeral ih =>
    by_cases zero : c = '0'
    · rw [zero, List.dropWhile_cons_of_pos (by decide)] at long
      exact Nat.le_trans (ih long) (Nat.le_add_left _ _)
    · rw [List.dropWhile_cons_of_neg (by simpa using zero), List.length_cons] at long
      exact Nat.le_trans (Nat.pow_le_pow_right positive (Nat.le_of_lt_succ long))
        ((Numeral.cons digit numeral).pow_le zero)

end Text
end StarkSigning
