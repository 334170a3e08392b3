-- SUMMARY: Machine words: their sizes, checked and wrapping arithmetic, rounding up to a multiple.
import SegregatedFit.Failure

/-!
# Machine words

Offsets, sizes and stored words are natural numbers below `wordCount`. The
bound is not part of their type: each operation that could leave the range says
what it does there, by trapping (`fit`, `add`, `sub`), by answering `none`
(`roundUp?`, `mul?`) or by wrapping around (`wrapAdd`, `wrapSub`).
-/
namespace SegregatedFit

/-- The number of values of a word of 64 bits. -/
abbrev wordCount : Nat := 18446744073709551616

/-- Bytes in a word: the size of a header, a footer or a link. -/
abbrev wordSize : Nat := 8

/-- Bytes in two words: block sizes and payload offsets are multiples of it. -/
abbrev pairSize : Nat := 16

/-- The smallest block: header, footer and two links. -/
abbrev minBlock : Nat := 32

namespace Word

/-- The number itself, where a word holds it. -/
def fit (n : Nat) : Except Trap Nat :=
  if n < wordCount then .ok n else .error .overflow

/-- The sum, where a word holds it. -/
def add (a b : Nat) : Except Trap Nat := fit (a + b)

/-- The difference, where it is not negative. -/
def sub (a b : Nat) : Except Trap Nat :=
  if b ≤ a then .ok (a - b) else .error .underflow

/-- The product, if a word holds it. -/
def mul? (a b : Nat) : Option Nat :=
  if a * b < wordCount then some (a * b) else none

/-- The sum of two words, modulo `wordCount`. -/
def wrapAdd (a b : Nat) : Nat := (a + b) % wordCount

/-- The difference of two words, modulo `wordCount`. -/
def wrapSub (a b : Nat) : Nat := if b ≤ a then a - b else a + wordCount - b

/-- The least multiple of `k` that is not below `n`. -/
def roundUp (n k : Nat) : Nat := (n + (k - 1)) / k * k

/-- The least multiple of `k` that is not below `n`, if a word holds it. -/
def roundUp? (n k : Nat) : Option Nat :=
  if roundUp n k < wordCount then some (roundUp n k) else none

theorem fit_of_lt {n : Nat} (h : n < wordCount) : fit n = .ok n := if_pos h

theorem fit_eq_ok_iff {n k : Nat} : fit n = .ok k ↔ n < wordCount ∧ n = k := by
  unfold fit
  split <;> simp <;> omega

theorem fit_eq_error_iff {n : Nat} {trap : Trap} :
    fit n = .error trap ↔ wordCount ≤ n ∧ trap = .overflow := by
  unfold fit
  split
  · simp; omega
  · simp [eq_comm]; omega

theorem add_of_lt {a b : Nat} (h : a + b < wordCount) : add a b = .ok (a + b) := if_pos h

theorem sub_of_le {a b : Nat} (h : b ≤ a) : sub a b = .ok (a - b) := if_pos h

theorem wrapSub_of_le {a b : Nat} (h : b ≤ a) : wrapSub a b = a - b := if_pos h

theorem wrapAdd_of_lt {a b : Nat} (h : a + b < wordCount) : wrapAdd a b = a + b :=
  Nat.mod_eq_of_lt h

theorem roundUp?_eq_some_iff {n k m : Nat} :
    roundUp? n k = some m ↔ roundUp n k = m ∧ m < wordCount := by
  unfold roundUp?
  split <;> simp <;> omega

theorem roundUp?_eq_none_iff {n k : Nat} : roundUp? n k = none ↔ wordCount ≤ roundUp n k := by
  unfold roundUp?
  split <;> simp <;> omega

theorem dvd_roundUp (n k : Nat) : k ∣ roundUp n k := Nat.dvd_mul_left k _

theorem le_roundUp (n : Nat) {k : Nat} (hk : 0 < k) : n ≤ roundUp n k := by
  have h := Nat.div_add_mod (n + (k - 1)) k
  have hlt := Nat.mod_lt (n + (k - 1)) hk
  rw [Nat.mul_comm] at h
  simp only [roundUp]
  omega

/-- Rounding up gives the least multiple. -/
theorem roundUp_le {n k m : Nat} (hk : 0 < k) (hm : k ∣ m) (h : n ≤ m) : roundUp n k ≤ m := by
  obtain ⟨c, rfl⟩ := hm
  have hlt : (n + (k - 1)) / k < c + 1 :=
    (Nat.div_lt_iff_lt_mul hk).2 (by rw [Nat.add_mul, Nat.mul_comm c k]; omega)
  rw [roundUp, Nat.mul_comm k c]
  exact Nat.mul_le_mul_right k (Nat.lt_succ_iff.1 hlt)

end Word
end SegregatedFit
