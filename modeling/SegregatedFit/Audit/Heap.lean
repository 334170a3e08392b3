-- SUMMARY: The audit of a heap: blocks, rings and counts together.
import SegregatedFit.Audit.Rings
import SegregatedFit.Audit.Walk
import SegregatedFit.Heap.Basic

/-!
# The audit of a heap

An audit walks the blocks, tours the rings and compares the two. It changes
nothing and repairs nothing, and it takes no word of the memory for granted.
-/
namespace SegregatedFit

namespace Audit

/-- What is wrong with the prologue: both its tags say sixteen allocated bytes. -/
def prologueFaults (m : Memory) (prologue : Nat) : List Violation :=
  let expected : Tag := ⟨pairSize, true⟩
  if (Block.header m prologue).toOption = some expected
      ∧ (Block.footer m prologue).toOption = some expected then []
  else [.badPrologue prologue]

/-- The free blocks that the tour did not meet, in address order. -/
def untrackedFaults (blocks : List BlockEntry) (seen : List Nat) : List Violation :=
  (blocks.filter fun info => !info.header.allocated && info.offset ∉ seen).map
    (.untracked ·.offset)

/-- The lists must count as many free blocks as there are. -/
def countFaults (indexed walked : Nat) : List Violation :=
  if indexed ≠ walked then [.freeCountMismatch indexed walked] else []

end Audit

namespace Heap

variable {R : Type} [Region R]

open Audit

/-- What is in the heap and what is wrong with it. -/
def audit (h : Heap R) : Except Trap Report := do
  match h.prologue with
  | none => return { violations := [.uninitialized] }
  | some prologue =>
    let heapSize ← h.heapSize
    let m := h.memory
    let found := walk m (← Word.add prologue pairSize) false
    let (seen, ringFaults) := tour h.lists m found.blocks
    let freeBlocks := found.blocks.filter (!·.header.allocated)
    return {
      blocks := found.blocks
      allocatedBlocks := found.blocks.countP (·.header.allocated)
      freeBlocks := freeBlocks.length
      freeBytes := (freeBlocks.map (·.header.size)).foldr (· + ·) 0
      heapSize
      endOfHeap := found.endOfHeap
      violations :=
        prologueFaults m prologue ++ found.violations ++ ringFaults
          ++ untrackedFaults found.blocks seen
          ++ countFaults h.lists.size freeBlocks.length }

end Heap
end SegregatedFit
