-- SUMMARY: Boundary tags: a block's size and whether it is allocated, in one word.
import SegregatedFit.Word

/-!
# Tags

A tag says how large a block is and whether it is allocated. Sizes are
multiples of `pairSize`, which leaves the four lowest bits of a word free; the
lowest one marks an allocated block. Main statement: `decode_encode`.
-/
namespace SegregatedFit

/-- The size of a block, and whether it is allocated. -/
structure Tag where
  size : Nat
  allocated : Bool
  deriving DecidableEq, Repr, Inhabited

namespace Tag

/-- The word of a tag: the size, with the lowest bit set for an allocated block. -/
def encode (tag : Tag) : Nat :=
  if tag.allocated then tag.size / 2 * 2 + 1 else tag.size

/-- The tag that a word stores: the size is the word without its four lowest
bits, the mark the lowest one. -/
def decode (word : Nat) : Tag := ⟨word / pairSize * pairSize, word % 2 = 1⟩

/-- A tag with a proper size reads back as it was written. -/
theorem decode_encode {tag : Tag} (h : pairSize ∣ tag.size) : decode tag.encode = tag := by
  obtain ⟨size, allocated⟩ := tag
  simp only [pairSize] at h
  cases allocated <;> simp only [encode, decode, pairSize] <;> simp <;> omega

theorem dvd_size_decode (word : Nat) : pairSize ∣ (decode word).size := Nat.dvd_mul_left _ _

theorem encode_lt {tag : Tag} (hdvd : pairSize ∣ tag.size) (h : tag.size < wordCount) :
    tag.encode < wordCount := by
  obtain ⟨size, allocated⟩ := tag
  simp only [pairSize, wordCount] at hdvd h ⊢
  cases allocated <;> simp only [encode] <;> simp <;> omega

end Tag
end SegregatedFit
