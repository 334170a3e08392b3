-- SUMMARY: Laying a heap out in its region, and taking everything back.
import SegregatedFit.Heap.FreeSpace

/-!
# The life of a heap

`init` lays out a heap behind whatever the region already holds, and may be used
again: the old heap is then forgotten and its bytes stay where they are.
`reset` empties the region as well.
-/
namespace SegregatedFit.Heap

variable {R : Type} [Region R]

/-- Writes the padding word, the prologue and the epilogue header from `base` on. -/
def writeSentinels (base : Nat) : HeapM R Unit := do
  write (Memory.writeWord base 0)
  write (Memory.writeWord (← Word.add base 8) (Tag.encode ⟨pairSize, true⟩))
  write (Memory.writeWord (← Word.add base 16) (Tag.encode ⟨pairSize, true⟩))
  write (Memory.writeWord (← Word.add base 24) (Tag.encode ⟨0, true⟩))

/-- Frees the first chunk of a heap whose sentinels are written. Without a chunk
there is no heap. -/
def firstChunk : HeapM R Unit := do
  let config := (← get).config
  match ← Action.attempt (extend (config.chunkSize / wordSize)) with
  | .error cause =>
    modify fun h => { h with prologue := none }
    Action.refuse cause
  | .ok _ => logEvent (.laidOut (← get).base config.chunkSize config.search)

/-- Lays out a heap at the end of the region: padding up to a multiple of
`pairSize`, prologue, one free chunk, epilogue. -/
def init : HeapM R Unit := do
  modify fun h => { h with lists := .empty, counters := {}, prologue := none }
  let used := Region.size (← get).region
  let aligned ← Word.fit (Word.roundUp used pairSize)
  let pad ← Word.sub aligned used
  match ← growRegion (pad + sentinelBytes) with
  | .error cause =>
    logEvent (.initFailed (pad + sentinelBytes) cause)
    Action.refuse (.arena cause)
  | .ok start =>
    let base ← Word.add start pad
    writeSentinels base
    let prologue ← Word.add base pairSize
    modify fun h => { h with base, prologue := some prologue }
    firstChunk

/-- Empties the region and forgets the heap. Settings and log are kept. -/
def reset (h : Heap R) : Heap R :=
  { h with
    region := Region.reset h.region
    lists := .empty
    counters := {}
    base := 0
    prologue := none }

end SegregatedFit.Heap
