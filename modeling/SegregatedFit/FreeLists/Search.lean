-- SUMMARY: First-fit search through the free lists.
import SegregatedFit.FreeLists.Basic

/-!
# Searching for a block

A search looks at the buckets from the one that the policy names, in order, and
at the blocks of each from its front; the first block that is large enough is
found. A ring that leads back to one of its blocks without meeting a sentinel
has no end: such a search is trapped.
-/
namespace SegregatedFit.FreeLists

/-- The first block of at least `size` bytes from a node on, before a sentinel.
At most `steps` blocks are looked at. A block that is passed over has a link
inside the memory, so more steps than the memory has bytes run out only if a
block was met twice. -/
def firstFit (m : Memory) (size : Nat) :
    (steps : Nat) → Link → Except (Failure HeapError) (Option Nat)
  | _, .sentinel _ => .ok none
  | 0, .block _ => .error (.trapped .endless)
  | steps + 1, .block bp => do
    let tag ← Block.header m bp
    if size ≤ tag.size then return some bp
    let next ← readLink m bp
    firstFit m size steps next

/-- The first block of at least `size` bytes. -/
def find? (lists : FreeLists) (m : Memory) (size : Nat) (policy : SearchPolicy) :
    Except (Failure HeapError) (Option Nat) :=
  (Bucket.upFrom (Bucket.searchFrom size policy)).findSomeM? fun bucket =>
    firstFit m size (m.size + 1) (lists.first bucket)

end SegregatedFit.FreeLists
