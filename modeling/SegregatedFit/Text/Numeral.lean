-- SUMMARY: Reading a word written in decimal digits, and the number with which a text ends.
import SegregatedFit.Word

/-!
# Numerals

A word is written in decimal digits, with at most one plus sign in front.
Leading zeros are allowed; a value that no word holds is no numeral. Main
statements: the digits that print a word read back as it (`readWord?_toDigits`),
also at the end of a text (`endingNumber?_toDigits`).
-/
namespace SegregatedFit.Text

/-- The value of the digits, if there is a digit and nothing else. -/
def readDigits? (digits : List Char) : Option Nat :=
  if digits ≠ [] ∧ digits.all Char.isDigit then some (Nat.ofDigitChars 10 digits 0) else none

/-- The text without one plus sign in front. -/
def dropPlus : List Char → List Char
  | '+' :: text => text
  | text => text

/-- The word that the text writes, if it writes one. -/
def readWord? (text : List Char) : Option Nat :=
  (readDigits? (dropPlus text)).filter (· < wordCount)

/-- The number with which the text ends, if its last character is a digit. -/
def endingNumber? (text : List Char) : Option Nat :=
  readDigits? (text.reverse.takeWhile Char.isDigit).reverse

theorem readDigits?_toDigits (n : Nat) : readDigits? (Nat.toDigits 10 n) = some n := by
  have hne : Nat.toDigits 10 n ≠ [] := Nat.toDigits_ne_nil
  have hall : (Nat.toDigits 10 n).all Char.isDigit := by
    simpa using fun c hc => Nat.isDigit_of_mem_toDigits (by decide) (by decide) hc
  rw [readDigits?, if_pos ⟨hne, hall⟩, Nat.ofDigitChars_toDigits (by decide) (by decide)]

/-- Digits have no plus sign to drop. -/
theorem dropPlus_of_isDigit {digits : List Char} (h : ∀ c ∈ digits, c.isDigit) :
    dropPlus digits = digits := by
  unfold dropPlus
  split
  · rename_i rest
    have hplus := h '+' List.mem_cons_self
    simp [Char.isDigit] at hplus
  · rfl

/-- What prints a word reads back as it. -/
theorem readWord?_toDigits {n : Nat} (h : n < wordCount) :
    readWord? (Nat.toDigits 10 n) = some n := by
  have hplus : dropPlus (Nat.toDigits 10 n) = Nat.toDigits 10 n :=
    dropPlus_of_isDigit fun c hc => Nat.isDigit_of_mem_toDigits (by decide) (by decide) hc
  simp [readWord?, hplus, readDigits?_toDigits, h]

/-- Digits at the end of a text are read back to where they begin. -/
theorem endingNumber?_toDigits {c : Char} (hc : c.isDigit = false) (before : List Char) (n : Nat) :
    endingNumber? (before ++ c :: Nat.toDigits 10 n) = some n := by
  have hdigits : ∀ d ∈ (Nat.toDigits 10 n).reverse, d.isDigit := fun d hd =>
    Nat.isDigit_of_mem_toDigits (by decide) (by decide) (List.mem_reverse.1 hd)
  have hreverse : (before ++ c :: Nat.toDigits 10 n).reverse =
      (Nat.toDigits 10 n).reverse ++ c :: before.reverse := by
    simp
  rw [endingNumber?, hreverse, List.takeWhile_append_of_pos hdigits,
    List.takeWhile_cons_of_neg (by simp [hc]), List.append_nil, List.reverse_reverse,
    readDigits?_toDigits]

example : readWord? "+0012".toList = some 12 ∧ readWord? "+".toList = none ∧
    readWord? "".toList = none ∧ readWord? "-1".toList = none := by decide

example : readWord? "18446744073709551615".toList = some 18446744073709551615 ∧
    readWord? "18446744073709551616".toList = none := by decide

end SegregatedFit.Text
