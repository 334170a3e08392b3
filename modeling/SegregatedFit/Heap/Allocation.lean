-- SUMMARY: Allocating, freeing and resizing blocks.
import SegregatedFit.Block.Size
import SegregatedFit.Heap.FreeSpace

/-!
# Allocation

`allocate` hands out the payload of a block, `free` takes it back, `resize`
keeps the block if it covers the new size and moves it otherwise. A pointer is
taken for a block only after `blockAt` has found sensible tags around it. A
refused operation says why; the variants with a question mark answer `none`.
-/
namespace SegregatedFit.Heap

variable {R : Type} [Region R]

/-- The tag of the allocated block at `ptr`. The pointer must be aligned and
inside the heap, and the header must name a block inside the memory that ends
in a footer of the same size. -/
def blockAt (h : Heap R) (ptr : Nat) : Except HeapError Tag := do
  let prologue ← h.requirePrologue
  let m := h.memory
  if ptr % pairSize ≠ 0 ∨ ptr ≤ prologue ∨ m.size ≤ ptr then
    throw (.invalidPointer ptr)
  let header ← Block.header m ptr
  if header.size < minBlock ∨ wordCount ≤ ptr + header.size ∨ m.size < ptr + header.size then
    throw (.invalidPointer ptr)
  let footer ← Block.readTag m (Block.footerOffset ptr header.size)
  if footer.size ≠ header.size then
    throw (.invalidPointer ptr)
  if !header.allocated then
    throw (.doubleFree ptr)
  return header

/-! ## Allocating -/

/-- A free block of at least `size` bytes, for a request of `n`: one from the
free lists, or else one that the heap grows for. -/
def findOrGrow (n size : Nat) : HeapM R (Nat × Source) := do
  match ← find? (← get) size with
  | some bp => return (bp, .freeList)
  | none =>
    let chunk := max size (← get).config.chunkSize
    match ← Action.attempt (extend (chunk / wordSize)) with
    | .ok bp => return (bp, .growth)
    | .error cause =>
      logEvent (.allocFailed n size cause)
      Action.refuse cause

/-- The payload offset of a new block for `n` bytes. -/
def allocate (n : Nat) : HeapM R Nat := do
  let _ ← (← get).requirePrologue
  if n = 0 then
    logEvent .askedNothing
    Action.refuse (.invalidArgument "zero-size allocation")
  else
    match Block.sizeFor n with
    | none =>
      logEvent (.askedTooMuch n)
      Action.refuse (.sizeOverflow n)
    | some size =>
      let (bp, source) ← findOrGrow n size
      let placed ← carve bp size
      logEvent (.allocated bp n size placed source)
      return bp

/-! ## Freeing -/

/-- Frees the allocated block of `size` bytes at `ptr`. -/
def release (ptr size : Nat) : HeapM R Unit := do
  write (Block.writeTags ptr ⟨size, false⟩)
  count fun c => return { c with
    allocatedBlocks := ← Word.sub c.allocatedBlocks 1
    allocatedBytes := ← Word.sub c.allocatedBytes size }
  let merged ← coalesce ptr
  logEvent (.freed ptr size merged)

/-- Frees the block at `ptr`. The null pointer is freed without an effect. -/
def free (ptr : Nat) : HeapM R Unit := do
  if ptr = nullPtr then
    logEvent .freedNull
  else
    match (← get).blockAt ptr with
    | .error cause =>
      logEvent (.freeRefused ptr cause)
      Action.refuse cause
    | .ok tag => release ptr tag.size

/-! ## Resizing -/

/-- Moves the payload of the block at `ptr`, of `current` bytes, to a new block
for `n` bytes times the factor of the settings. -/
def relocate (ptr current n : Nat) : HeapM R Nat := do
  match Word.mul? n (← get).config.resizeFactor with
  | none => Action.refuse (.sizeOverflow n)
  | some target =>
    match ← Action.attempt (allocate target) with
    | .error cause =>
      logEvent (.resizeFailed ptr target cause)
      Action.refuse cause
    | .ok dest =>
      let copied := Block.payloadSize current
      write (Memory.copy ptr copied dest)
      free ptr
      count fun c => return { c with resizeMoves := ← Word.add c.resizeMoves 1 }
      logEvent (.moved ptr dest n copied target)
      return dest

/-- Resizes the block at `ptr` to hold `n` bytes and returns where it is then. A
resize to nothing frees the block and returns nothing; a resize of the null
pointer allocates. -/
def resize (ptr n : Nat) : HeapM R (Option Nat) := do
  if ptr = nullPtr then
    return some (← allocate n)
  else if n = 0 then
    free ptr
    logEvent (.resizedToNothing ptr)
    return none
  else
    let current := (← (← get).blockAt ptr).size
    match Block.sizeFor n with
    | none => Action.refuse (.sizeOverflow n)
    | some size =>
      if size ≤ current then
        count fun c => return { c with resizeInPlace := ← Word.add c.resizeInPlace 1 }
        logEvent (.resizedInPlace ptr n current size)
        return some ptr
      else
        return some (← relocate ptr current n)

/-! ## Variants that answer nothing when refused -/

def allocate? (n : Nat) : HeapM R (Option Nat) := Action.attempt? (allocate n)

def free? (ptr : Nat) : HeapM R (Option Unit) := Action.attempt? (free ptr)

def resize? (ptr n : Nat) : HeapM R (Option Nat) := return (← Action.attempt? (resize ptr n)).join

end SegregatedFit.Heap
