-- SUMMARY: Blank characters (Unicode White_Space) and trimming.

/-!
# Blank characters

`isBlank` is the property `White_Space` of the Unicode standard. It is wider
than the blanks of ASCII: the no-break space and the ideographic space are
blank, the zero-width space is not.
-/
namespace SegregatedFit.Text

/-- The ranges of the Unicode property `White_Space`, ends included. -/
def blankRanges : List (Nat × Nat) :=
  [(0x9, 0xd), (0x20, 0x20), (0x85, 0x85), (0xa0, 0xa0), (0x1680, 0x1680), (0x2000, 0x200a),
   (0x2028, 0x2029), (0x202f, 0x202f), (0x205f, 0x205f), (0x3000, 0x3000)]

/-- Whether the character is blank. -/
def isBlank (c : Char) : Bool :=
  blankRanges.any fun (first, last) => first ≤ c.toNat && c.toNat ≤ last

/-- The text without the blanks at its two ends. -/
def trim (text : List Char) : List Char :=
  ((text.dropWhile isBlank).reverse.dropWhile isBlank).reverse

theorem trim_cons_of_isBlank {c : Char} (h : isBlank c) (text : List Char) :
    trim (c :: text) = trim text := by
  simp [trim, h]

theorem trim_append_of_isBlank {c : Char} (h : isBlank c) (text : List Char) :
    trim (text ++ [c]) = trim text := by
  induction text with
  | nil => simp [trim, h]
  | cons d text ih =>
    by_cases hd : isBlank d
    · simpa [trim_cons_of_isBlank hd] using ih
    · simp [trim, hd, h]

example : trim "\u3000 8\u200b\t".toList = ['8', '\u200b'] := by decide

end SegregatedFit.Text
