import StarkSigning.Text.Quoted

/-!
# StarkSigning.Text.Wording

The two sentences that messages share: a number outside its domain, and a text that cannot be
read.
-/

namespace StarkSigning
namespace Text

def outOfRange (what : String) (value : Nat) : String :=
  what ++ " out of range: " ++ hex value

def invalidEncoding (input reason : String) : String :=
  "invalid encoding of " ++ quoted input ++ ": " ++ reason

end Text
end StarkSigning
