-- SUMMARY: Links of the free lists and the words that store them.
import SegregatedFit.FreeLists.Bucket
import SegregatedFit.Word

/-!
# Links

A free list is a ring: it leads from the sentinel of its bucket through its
blocks back to the sentinel. A link names either kind of node. In memory, a
block is stored as its offset, which is even and not zero, and a sentinel as an
odd word; zero is no link. Main statement: `decode_encode`.
-/
namespace SegregatedFit

/-- A node of a free list. -/
inductive Link where
  | sentinel (bucket : Bucket)
  | block (bp : Nat)
  deriving DecidableEq, Repr, Inhabited

namespace Link

/-- The word that stands for the sentinel of a bucket. -/
def sentinelWord (bucket : Nat) : Nat := bucket * 2 % wordCount + 1

/-- The word that stores a link. -/
def encode : Link → Nat
  | .sentinel bucket => sentinelWord bucket.val
  | .block bp => bp

/-- The link that a word stores: none for zero, nor for the sentinel of a
bucket that does not exist. -/
def decode (word : Nat) : Option Link :=
  if word = 0 then none
  else if word % 2 = 1 then
    if h : word / 2 < bucketCount then some (.sentinel ⟨word / 2, h⟩) else none
  else some (.block word)

/-- The offsets that a link can name. -/
def Storable : Link → Prop
  | .sentinel _ => True
  | .block bp => bp ≠ 0 ∧ bp % 2 = 0

theorem sentinelWord_val (bucket : Bucket) : sentinelWord bucket.val = bucket.val * 2 + 1 := by
  have := bucket.isLt
  simp only [sentinelWord, wordCount, bucketCount] at *
  omega

/-- A link reads back as it was stored. -/
theorem decode_encode {link : Link} (h : link.Storable) : decode link.encode = some link := by
  cases link with
  | sentinel bucket =>
    have := bucket.isLt
    simp only [encode, sentinelWord_val, decode, bucketCount] at *
    rw [if_neg (by omega), if_pos (by omega), dif_pos (by omega)]
    simp only [Option.some.injEq, Link.sentinel.injEq, Fin.ext_iff]
    omega
  | block bp =>
    obtain ⟨h0, h2⟩ := h
    rw [encode, decode, if_neg h0, if_neg (by omega)]

end Link
end SegregatedFit
