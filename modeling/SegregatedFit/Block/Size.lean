-- SUMMARY: The block size that serves a request, and the one of a number of words.
import SegregatedFit.Word

/-!
# Block sizes

A block of size `s` has `s - pairSize` payload bytes between its tags. `sizeFor`
is the least block size that leaves room for a request. Main statement:
`exists_sizeFor_le_iff`, a request is served by a block exactly when it is at
most the payload, so that `sizeFor` is the lower adjoint of `payloadSize`.

A heap grows by words. `sizeOfWords` is the size of the block that they become, and
counting a block size in words loses nothing of it (`sizeOfWords_div`).
-/
namespace SegregatedFit.Block

/-- The payload bytes of a block of the given size. -/
abbrev payloadSize (size : Nat) : Nat := size - pairSize

/-- The least block size whose payload holds `n` bytes, if a word holds it. -/
def sizeFor (n : Nat) : Option Nat := (Word.roundUp? (n + pairSize) pairSize).map (max · minBlock)

theorem sizeFor_eq_none_iff {n : Nat} : sizeFor n = none ↔ wordCount < n + minBlock := by
  simp only [sizeFor, Option.map_eq_none_iff, Word.roundUp?_eq_none_iff, Word.roundUp, pairSize,
    minBlock, wordCount]
  omega

theorem sizeFor_eq_some_iff {n size : Nat} :
    sizeFor n = some size ↔
      max (Word.roundUp (n + pairSize) pairSize) minBlock = size ∧ n + minBlock ≤ wordCount := by
  simp only [sizeFor, Option.map_eq_some_iff, Word.roundUp?_eq_some_iff, Word.roundUp, pairSize,
    minBlock, wordCount]
  constructor
  · rintro ⟨a, ⟨rfl, ha⟩, rfl⟩
    exact ⟨rfl, by omega⟩
  · rintro ⟨rfl, h⟩
    exact ⟨_, ⟨rfl, by omega⟩, rfl⟩

/-- A block size is a multiple of `pairSize` and not below `minBlock`. -/
theorem proper_of_sizeFor {n size : Nat} (h : sizeFor n = some size) :
    pairSize ∣ size ∧ minBlock ≤ size ∧ size < wordCount := by
  simp only [sizeFor_eq_some_iff, Word.roundUp, pairSize, minBlock, wordCount] at h ⊢
  omega

/-- A proper block size serves a request exactly when its payload holds it. -/
theorem sizeFor_le_iff {n size s : Nat} (h : sizeFor n = some size) (hdvd : pairSize ∣ s)
    (hs : minBlock ≤ s) : size ≤ s ↔ n ≤ payloadSize s := by
  simp only [sizeFor_eq_some_iff, Word.roundUp, payloadSize, pairSize, minBlock, wordCount] at *
  omega

/-- A request has a size within a proper block size exactly when the payload holds it. -/
theorem exists_sizeFor_le_iff {n s : Nat} (hdvd : pairSize ∣ s) (hs : minBlock ≤ s)
    (hlt : s < wordCount) : (∃ size, sizeFor n = some size ∧ size ≤ s) ↔ n ≤ payloadSize s := by
  constructor
  · rintro ⟨size, hsize, hle⟩
    exact (sizeFor_le_iff hsize hdvd hs).1 hle
  · intro hfits
    obtain ⟨size, hsize⟩ : ∃ size, sizeFor n = some size := by
      refine Option.ne_none_iff_exists'.1 fun hnone => ?_
      have hover := sizeFor_eq_none_iff.1 hnone
      simp only [payloadSize, pairSize, minBlock, wordCount] at *
      omega
    exact ⟨size, hsize, (sizeFor_le_iff hsize hdvd hs).2 hfits⟩

/-- The block size for a whole payload is the size of its block. -/
theorem sizeFor_payloadSize {s : Nat} (hdvd : pairSize ∣ s) (hs : minBlock ≤ s)
    (hlt : s < wordCount) : sizeFor (payloadSize s) = some s := by
  obtain ⟨size, hsize, hle⟩ := (exists_sizeFor_le_iff hdvd hs hlt).2 (Nat.le_refl (payloadSize s))
  obtain ⟨hdvd', hs', -⟩ := proper_of_sizeFor hsize
  have hfits := (sizeFor_le_iff hsize hdvd' hs').1 (Nat.le_refl size)
  rw [hsize, Option.some.injEq]
  simp only [payloadSize, pairSize, minBlock] at hfits hs
  omega

/-- A smaller request is served, by no larger a block, where a larger one is. -/
theorem sizeFor_mono {n k size : Nat} (hle : n ≤ k) (hsize : sizeFor k = some size) :
    ∃ size', sizeFor n = some size' ∧ size' ≤ size := by
  obtain ⟨hdvd, hs, hlt⟩ := proper_of_sizeFor hsize
  have hfits := (sizeFor_le_iff hsize hdvd hs).1 (Nat.le_refl size)
  exact (exists_sizeFor_le_iff hdvd hs hlt).2 (Nat.le_trans hle hfits)

/-! ## Sizes in words -/

/-- The size of a block of that many words, or of the next even number of them, and no less
than the smallest block; none where no word holds it. -/
def sizeOfWords (words : Nat) : Option Nat :=
  (Word.roundUp? (max words (minBlock / wordSize)) 2).bind (Word.mul? · wordSize)

theorem proper_of_sizeOfWords {words size : Nat} (h : sizeOfWords words = some size) :
    pairSize ∣ size ∧ minBlock ≤ size ∧ size < wordCount ∧ words * wordSize ≤ size := by
  obtain ⟨even, heven, hsize⟩ := Option.bind_eq_some_iff.1 h
  obtain ⟨rfl, -⟩ := Word.roundUp?_eq_some_iff.1 heven
  obtain ⟨hlt, ⟨⟩⟩ := Option.ite_none_right_eq_some.1 hsize
  simp only [Word.roundUp, pairSize, minBlock, wordSize, wordCount] at hlt ⊢
  omega

/-- A proper block size is that of its words. -/
theorem sizeOfWords_div {size : Nat} (hdvd : pairSize ∣ size) (hmin : minBlock ≤ size)
    (hlt : size < wordCount) : sizeOfWords (size / wordSize) = some size := by
  have hround : Word.roundUp (max (size / wordSize) (minBlock / wordSize)) 2 = size / wordSize := by
    simp only [Word.roundUp, pairSize, minBlock, wordSize] at *
    omega
  have hmul : size / wordSize * wordSize = size :=
    Nat.div_mul_cancel (Nat.dvd_trans (by decide) hdvd)
  have hword : size / wordSize < wordCount := Nat.lt_of_le_of_lt (Nat.div_le_self _ _) hlt
  rw [sizeOfWords, Word.roundUp?_eq_some_iff.2 ⟨hround, hword⟩, Option.bind_some, Word.mul?, hmul,
    if_pos hlt]

example : sizeOfWords 5 = some 48 ∧ sizeOfWords 2305843009213693952 = none := by decide

end SegregatedFit.Block
