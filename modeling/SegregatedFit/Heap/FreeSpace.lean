-- SUMMARY: Free space of a heap: merging free neighbours, growing at the end, carving a block out.
import SegregatedFit.Block.Size
import SegregatedFit.Heap.Basic

/-!
# Free space

No two free blocks are neighbours: a block that becomes free is merged with the
free blocks around it before it enters a free list (`coalesce`). `extend` adds
words of free space at the end, where the new block takes the place of the
epilogue. `carve` takes the front of a free block and frees the rest again if it
is large enough to be a block.
-/
namespace SegregatedFit.Heap

variable {R : Type} [Region R]

/-- The block before `bp`, with its size. -/
def previousBlock (bp : Nat) : HeapM R (Nat × Nat) := do
  let previous ← read (Block.previous · bp)
  let tag ← read (Block.header · previous)
  return (previous, tag.size)

/-- Takes the free neighbours of the block of `size` bytes at `bp` out of their
lists. The answer is the extent of the block with them. -/
def absorbNeighbours (bp size : Nat) : HeapM R (Nat × Nat × Merge) := do
  let below ← Word.sub bp pairSize
  let previousAllocated := (← read (Block.readTag · below)).allocated
  let next ← read (Block.next · bp)
  let nextTag ← read (Block.header · next)
  match previousAllocated, nextTag.allocated with
  | true, true => return (bp, size, .alone)
  | true, false =>
    edit (FreeLists.remove next)
    let merged ← Word.add size nextTag.size
    return (bp, merged, .withNext)
  | false, true =>
    let (previous, previousSize) ← previousBlock bp
    edit (FreeLists.remove previous)
    let merged ← Word.add size previousSize
    return (previous, merged, .withPrevious)
  | false, false =>
    let (previous, previousSize) ← previousBlock bp
    edit (FreeLists.remove previous)
    edit (FreeLists.remove next)
    let merged ← Word.add (← Word.add size previousSize) nextTag.size
    return (previous, merged, .withBoth)

/-- Merges the free block at `bp`, which is in no list yet, with the free blocks
around it, and puts the result into its list. The answer is where it begins. -/
def coalesce (bp : Nat) : HeapM R Nat := do
  let tag ← read (Block.header · bp)
  let (start, merged, merge) ← absorbNeighbours bp tag.size
  write (Block.writeTags start ⟨merged, false⟩)
  edit (FreeLists.insert start (.ofSize merged))
  logEvent (.coalesced merge start merged)
  return start

/-- Adds `size` free bytes, a proper block size, at the end. The header of the
new block takes the place of the epilogue, and a new epilogue follows it. The
answer is the free block in which the new bytes are. -/
def grow (size : Nat) : HeapM R Nat := do
  match ← growRegion size with
  | .error cause =>
    logEvent (.growthFailed size cause)
    Action.refuse (.arena cause)
  | .ok bp =>
    write (Block.writeTags bp ⟨size, false⟩)
    write (Block.writeEpilogue (← Word.add bp size))
    count fun c => return { c with extendCalls := ← Word.add c.extendCalls 1 }
    logEvent (.grown bp size)
    coalesce bp

/-- Adds free space of `words` words at the end, rounded up to the size of a block. -/
def extend (words : Nat) : HeapM R Nat :=
  match Block.sizeOfWords words with
  | none => Action.refuse (.sizeOverflow words)
  | some size => grow size

/-- Extending by the words of a proper block size grows by that size. -/
theorem extend_div {size : Nat} (hdvd : pairSize ∣ size) (hmin : minBlock ≤ size)
    (hlt : size < wordCount) : (extend (size / wordSize) : HeapM R Nat) = grow size := by
  simp only [extend, Block.sizeOfWords_div hdvd hmin hlt]

/-- The first free block that a search under the heap's policy finds. -/
def find? (h : Heap R) (size : Nat) : Except (Failure HeapError) (Option Nat) :=
  h.lists.find? h.memory size h.config.search

/-- Splits the block of `whole` bytes at `bp`: `size` bytes are allocated and the
`rest` is free. -/
def split (bp size rest : Nat) : HeapM R Unit := do
  write (Block.writeTags bp ⟨size, true⟩)
  let next ← Word.add bp size
  write (Block.writeTags next ⟨rest, false⟩)
  edit (FreeLists.insert next (.ofSize rest))

/-- Takes `size` bytes from the front of the free block at `bp`. What is left
becomes a block of its own if it can hold one; otherwise the block is taken
whole. The answer is the number of bytes taken. -/
def carve (bp size : Nat) : HeapM R Nat := do
  let whole := (← read (Block.header · bp)).size
  edit (FreeLists.remove bp)
  let rest ← Word.sub whole size
  let placed := if minBlock ≤ rest then size else whole
  if minBlock ≤ rest then
    split bp size rest
  else
    write (Block.writeTags bp ⟨whole, true⟩)
  count fun c => return { c with
    allocatedBlocks := ← Word.add c.allocatedBlocks 1
    allocatedBytes := ← Word.add c.allocatedBytes placed }
  if placed ≠ whole then
    logEvent (.split (bp + size) rest)
  return placed

end SegregatedFit.Heap
