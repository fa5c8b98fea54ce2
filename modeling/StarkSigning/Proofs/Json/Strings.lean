import StarkSigning.Json.Reader

/-!
# StarkSigning.Proofs.Json.Strings

Strings in JSON texts. A string is written with its marks, backslashes and control characters
escaped, and reading the text gives the string back, whatever characters it has.

* `foldlM_step_escape`: an escaped character is read as itself.
* `read?_render_string`: so is a whole string.
-/

namespace StarkSigning
namespace Json
namespace Token

/-- Inside a string the characters that write `c` are read as `c`, and the string goes on. -/
theorem foldlM_step_escape (tokens : List Token) (reversed : List Char) (c : Char) :
    (Json.escape c).foldlM step (tokens, .text reversed) =
      some (tokens, .text (c :: reversed)) := by
  rw [Json.escape]
  split
  · rename_i special
    rcases special with rfl | rfl
    · rfl
    · rfl
  · rename_i ordinary
    simp only [not_or] at ordinary
    split
    · -- A control character is its code in four digits, which is no half of a surrogate pair.
      rename_i control
      have high : c.toNat / 16 < 16 := by omega
      have low : c.toNat % 16 < 16 := by omega
      have whole : 16 * (c.toNat / 16) + c.toNat % 16 = c.toNat := by omega
      have zero : Text.hexDigit? '0' = some 0 := rfl
      have noHalf : ¬ 0xd800 ≤ c.toNat := by omega
      have noHalf' : ¬ 0xdc00 ≤ c.toNat := by omega
      have mark : '\\' ≠ Text.doubleMark := by decide
      simp [List.foldlM, step, mark, zero, Text.hexDigit?_digitChar high,
        Text.hexDigit?_digitChar low, whole, endUnit, noHalf, noHalf']
    · rename_i shown
      simp [List.foldlM, step, ordinary, shown]

theorem foldlM_step_flatMap_escape (tokens : List Token) (reversed text : List Char) :
    (text.flatMap Json.escape).foldlM step (tokens, .text reversed) =
      some (tokens, .text (text.reverse ++ reversed)) := by
  induction text generalizing reversed with
  | nil => rfl
  | cons c rest ih =>
    rw [List.flatMap_cons, List.foldlM_append, foldlM_step_escape]
    simp [ih]

theorem scan?_renderText (s : String) : scan? (renderText s) = some [scalar (.string s)] := by
  have opening : step ([], .between) Text.doubleMark = some ([], .text []) := rfl
  have closing (reversed : List Char) : step ([], .text reversed) Text.doubleMark =
      some ([scalar (.string (String.ofList reversed.reverse))], .between) := rfl
  simp only [scan?, renderText, List.foldlM_append, List.foldlM_cons, List.foldlM_nil,
    List.cons_append, opening, Option.bind_eq_bind, Option.bind_some, foldlM_step_flatMap_escape,
    closing, Option.pure_def, finish, List.append_nil, List.reverse_reverse, String.ofList_toList,
    List.reverse_singleton]

end Token

theorem read?_render_string (s : String) : read? (render (.string s)) = some (.string s) := by
  rw [read?, render, String.toList_ofList, renderChars, Token.scan?_renderText]
  rfl

end Json
end StarkSigning
