import StarkSigning.Bytes

/-!
# StarkSigning.Text.Utf8

Texts measured by their UTF-8 form.

* `byteLength_eq_length`: the byte length of a text is the number of its bytes.
-/

namespace StarkSigning
namespace Text

/-- Length in bytes. -/
def byteLength (text : List Char) : Nat :=
  text.foldr (fun c rest => c.utf8Size + rest) 0

/-- The first byte of a character, as the character of that code point. -/
def leadByte (c : Char) : Char :=
  Char.ofNat ((String.utf8EncodeChar c).headD 0).toNat

theorem byteLength_eq_length (s : String) : byteLength s.toList = (Bytes.ofText s).length := by
  rw [Bytes.ofText]
  induction s.toList with
  | nil => rfl
  | cons c rest ih =>
    rw [List.flatMap_cons, List.length_append, ← ih, String.length_utf8EncodeChar]
    rfl

end Text
end StarkSigning
