-- SUMMARY: Hexadecimal text of a number, with or without a fixed width.

/-!
# Hexadecimal text

Offsets are written as `0x40`; record numbers are written in sixteen digits. Main
statement: `exists_hexPadded`, a number that fits the width is written in that many
digits, which read as it.
-/
namespace SegregatedFit.Text

/-- The number in lower-case hexadecimal digits, after `0x`. -/
def hex (n : Nat) : String :=
  "0x" ++ String.ofList (Nat.toDigits 16 n)

/-- The number in lower-case hexadecimal digits, with zeros in front up to `width`. -/
def hexPadded (width n : Nat) : String :=
  let digits := Nat.toDigits 16 n
  String.ofList (List.replicate (width - digits.length) '0' ++ digits)

example : hex 0 = "0x0" ∧ hex 0x40 = "0x40" ∧ hex 0xab = "0xab" := by decide

/-! ## Reading the digits -/

/-- The number that these digits of base sixteen write, the first counting most. -/
def ofHexDigits (digits : List Nat) : Nat := digits.foldl (fun n d => 16 * n + d) 0

theorem ofHexDigits_concat (digits : List Nat) (d : Nat) :
    ofHexDigits (digits ++ [d]) = 16 * ofHexDigits digits + d := by
  simp [ofHexDigits]

/-- Zeros in front do not count. -/
theorem ofHexDigits_zeros (k : Nat) (digits : List Nat) :
    ofHexDigits (List.replicate k 0 ++ digits) = ofHexDigits digits := by
  induction k with
  | zero => rfl
  | succ k ih => exact ih

theorem exists_toDigits (n : Nat) :
    ∃ digits : List Nat, Nat.toDigits 16 n = digits.map Nat.digitChar ∧ (∀ d ∈ digits, d < 16) ∧
      ofHexDigits digits = n := by
  induction n using Nat.strongRecOn with
  | ind n ih =>
    by_cases hn : n < 16
    · exact ⟨[n], Nat.toDigits_of_lt_base hn, by simpa using hn, by simp [ofHexDigits]⟩
    · obtain ⟨digits, hdigits, hlt, hvalue⟩ := ih (n / 16) (by omega)
      refine ⟨digits ++ [n % 16], ?_, ?_, ?_⟩
      · rw [Nat.toDigits_of_base_le (by decide) (by omega), hdigits, List.map_append]
        rfl
      · intro d hd
        rcases List.mem_append.1 hd with hd | hd
        · exact hlt d hd
        · rw [List.mem_singleton.1 hd]
          exact Nat.mod_lt n (by decide)
      · rw [ofHexDigits_concat, hvalue]
        omega

/-- A number with no more digits than there is room for is written in exactly so many. -/
theorem exists_hexPadded {width n : Nat} (hn : (Nat.toDigits 16 n).length ≤ width) :
    ∃ digits : List Nat, hexPadded width n = String.ofList (digits.map Nat.digitChar) ∧
      digits.length = width ∧ (∀ d ∈ digits, d < 16) ∧ ofHexDigits digits = n := by
  obtain ⟨digits, hdigits, hlt, hvalue⟩ := exists_toDigits n
  have hlength : digits.length ≤ width := by
    rwa [hdigits, List.length_map] at hn
  refine ⟨List.replicate (width - digits.length) 0 ++ digits, ?_, ?_, ?_, ?_⟩
  · rw [hexPadded, hdigits, List.length_map, List.map_append, List.map_replicate]
    rfl
  · rw [List.length_append, List.length_replicate]
    omega
  · intro d hd
    rcases List.mem_append.1 hd with hd | hd
    · rw [List.eq_of_mem_replicate hd]
      decide
    · exact hlt d hd
  · rw [ofHexDigits_zeros, hvalue]

example : hexPadded 4 0x1f = "001f" := by decide

end SegregatedFit.Text
