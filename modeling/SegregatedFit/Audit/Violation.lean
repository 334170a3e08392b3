-- SUMMARY: The ways in which a heap can be inconsistent, as data and as text.
import SegregatedFit.Text.Hex

/-!
# Violations

A violation is one broken rule of the heap, with the numbers that show it. It
reads as a sentence (`message`) and as a kind with named numbers (`kind`,
`fields`).
-/
namespace SegregatedFit

open Text (hex)

/-- A broken rule, with the numbers that show it. -/
inductive Violation where
  /-- There is no heap. -/
  | uninitialized
  | badPrologue (offset : Nat)
  | badEpilogue (offset : Nat)
  | misaligned (offset : Nat)
  /-- The two tags of a block differ. -/
  | tagMismatch (offset header footer : Nat)
  | undersized (offset size : Nat)
  | outOfBounds (offset : Nat)
  /-- A free block follows a free block. -/
  | adjacentFree (offset : Nat)
  /-- A free block is in no bucket. -/
  | untracked (offset : Nat)
  | allocatedInFreeList (offset bucket : Nat)
  | duplicateFreeListEntry (offset bucket : Nat)
  | wrongBucket (offset bucket expected : Nat)
  /-- The two directions of a ring differ. -/
  | brokenLink (offset bucket : Nat)
  /-- A bucket leads to an offset at which no block begins. -/
  | unknownFreeListEntry (offset bucket : Nat)
  | freeCountMismatch (indexed walked : Nat)
  deriving DecidableEq, Repr, Inhabited

namespace Violation

/-- The name of the broken rule. -/
def kind : Violation → String
  | uninitialized => "uninitialized"
  | badPrologue _ => "bad_prologue"
  | badEpilogue _ => "bad_epilogue"
  | misaligned _ => "misaligned"
  | tagMismatch .. => "tag_mismatch"
  | undersized .. => "undersized"
  | outOfBounds _ => "out_of_bounds"
  | adjacentFree _ => "adjacent_free"
  | untracked _ => "untracked"
  | allocatedInFreeList .. => "allocated_in_free_list"
  | duplicateFreeListEntry .. => "duplicate_free_list_entry"
  | wrongBucket .. => "wrong_bucket"
  | brokenLink .. => "broken_link"
  | unknownFreeListEntry .. => "unknown_free_list_entry"
  | freeCountMismatch .. => "free_count_mismatch"

/-- The numbers of a violation by name. -/
def fields : Violation → List (String × Nat)
  | uninitialized => []
  | badPrologue offset | badEpilogue offset | misaligned offset | outOfBounds offset
  | adjacentFree offset | untracked offset => [("offset", offset)]
  | tagMismatch offset header footer =>
    [("offset", offset), ("header", header), ("footer", footer)]
  | undersized offset size => [("offset", offset), ("size", size)]
  | allocatedInFreeList offset bucket | duplicateFreeListEntry offset bucket
  | brokenLink offset bucket | unknownFreeListEntry offset bucket =>
    [("offset", offset), ("bucket", bucket)]
  | wrongBucket offset bucket expected =>
    [("offset", offset), ("bucket", bucket), ("expected", expected)]
  | freeCountMismatch indexed walked => [("indexed", indexed), ("walked", walked)]

/-- The violation as a sentence. -/
def message : Violation → String
  | uninitialized => "heap is not initialized"
  | badPrologue offset => s!"bad prologue at {hex offset}"
  | badEpilogue offset => s!"bad epilogue at {hex offset}"
  | misaligned offset => s!"block {hex offset} is not doubleword aligned"
  | tagMismatch offset header footer =>
    s!"block {hex offset}: header {hex header} does not match footer {hex footer}"
  | undersized offset size =>
    s!"block {hex offset} is smaller than the minimum block ({size} bytes)"
  | outOfBounds offset => s!"block {hex offset} runs past the end of the heap"
  | adjacentFree offset => s!"free block {hex offset} follows another free block"
  | untracked offset => s!"free block {hex offset} is not in any free list"
  | allocatedInFreeList offset bucket => s!"allocated block {hex offset} is in bucket {bucket}"
  | duplicateFreeListEntry offset bucket =>
    s!"block {hex offset} appears more than once in the free lists (bucket {bucket})"
  | wrongBucket offset bucket expected =>
    s!"block {hex offset} is in bucket {bucket}, expected bucket {expected}"
  | brokenLink offset bucket => s!"broken link at {hex offset} in bucket {bucket}"
  | unknownFreeListEntry offset bucket =>
    s!"bucket {bucket} links to {hex offset}, which is not a heap block"
  | freeCountMismatch indexed walked =>
    s!"index counts {indexed} free blocks, heap walk found {walked}"

end Violation
end SegregatedFit
