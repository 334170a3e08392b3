-- SUMMARY: Lower case of ASCII words.

/-!
# Case

Words that name a setting may be written in either case. Only the letters of
ASCII have a case here.
-/
namespace SegregatedFit.Text

/-- The word with its ASCII letters in lower case; other letters stay as they are. -/
def lowerCase (word : List Char) : List Char := word.map Char.toLower

example : lowerCase "Off-É".toList = "off-É".toList := by decide

end SegregatedFit.Text
