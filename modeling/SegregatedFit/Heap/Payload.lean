-- SUMMARY: Reading and writing the payload of a live block.
import SegregatedFit.Heap.Allocation

/-!
# Payloads

The payload of a block is what lies between its tags. It is reached through the
pointer of a live block only, and a write stops at its end.
-/
namespace SegregatedFit.Heap

variable {R : Type} [Region R]

/-- The number of payload bytes of the live block at `ptr`. -/
def payloadSize? (h : Heap R) (ptr : Nat) : Option Nat :=
  (h.blockAt ptr).toOption.map (Block.payloadSize ·.size)

/-- The payload of the live block at `ptr`. -/
def payload (h : Heap R) (ptr : Nat) : Except HeapError (List UInt8) := do
  let tag ← h.blockAt ptr
  return h.memory.slice ptr (Block.payloadSize tag.size)

/-- Writes the bytes into the payload at `ptr`, `start` bytes behind its
beginning, as far as they fit, and returns how many did. -/
def writePayload (ptr start : Nat) (bytes : List UInt8) : HeapM R Nat := do
  let tag ← (← get).blockAt ptr
  let fitting := bytes.take (Block.payloadSize tag.size - start)
  write fun m => .ok () (m.setSlice (ptr + start) fitting)
  return fitting.length

end SegregatedFit.Heap
