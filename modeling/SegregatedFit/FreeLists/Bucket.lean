-- SUMMARY: Size classes and the bucket at which a search begins.
import SegregatedFit.FreeLists.Policy

/-!
# Buckets

Free blocks are kept in fifteen buckets by size. Bucket `i` holds the sizes
from `2 ^ i` to `2 ^ (i + 1)`, and the last one all sizes above. Larger sizes are
in later buckets (`ofSize_mono`).
-/
namespace SegregatedFit

/-- The number of buckets. -/
abbrev bucketCount : Nat := 15

/-- A size class of free blocks. -/
abbrev Bucket := Fin bucketCount

namespace Bucket

/-- The last bucket, which has no upper bound. -/
def last : Bucket := 14

/-- The bucket for blocks of the given size. -/
def ofSize (size : Nat) : Bucket := ⟨min size.log2 14, by simp only [bucketCount]; omega⟩

/-- The first bucket that a search for `size` bytes looks at. -/
def searchFrom (size : Nat) (policy : SearchPolicy) : Bucket :=
  let canonical := ofSize size
  match policy with
  | .canonical => canonical
  | .skipCanonical =>
    if h : canonical.val + 1 < bucketCount then ⟨canonical.val + 1, h⟩ else canonical

/-- The buckets from the given one on, in order. -/
def upFrom (first : Bucket) : List Bucket := (List.finRange bucketCount).filter (first ≤ ·)

theorem mem_upFrom {first b : Bucket} : b ∈ Bucket.upFrom first ↔ first ≤ b := by
  simp [Bucket.upFrom]

theorem ofSize_mono {a b : Nat} (h : a ≤ b) : ofSize a ≤ ofSize b := by
  rcases Nat.eq_zero_or_pos a with rfl | ha
  · exact Nat.zero_le _
  · have hlog : a.log2 ≤ b.log2 :=
      (Nat.le_log2 (by omega)).2 (Nat.le_trans (Nat.log2_self_le (by omega)) h)
    simp only [ofSize, Fin.mk_le_mk]
    omega

end Bucket
end SegregatedFit
