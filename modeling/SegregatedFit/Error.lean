-- SUMMARY: Causes of refused operations, and their messages.
import SegregatedFit.Text.Hex

/-!
# Errors

`ArenaError` is what a growing region refuses, `HeapError` what the heap
refuses. Each constructor is one cause; its wording is in `message` alone.
-/
namespace SegregatedFit

open Text (hex)

/-- A region of memory cannot grow. -/
inductive ArenaError where
  /-- `requested` more bytes do not fit beside `used` under `limit`. -/
  | exhausted (requested used limit : Nat)
  deriving DecidableEq, Repr, Inhabited

/-- The heap refuses an operation. -/
inductive HeapError where
  /-- The arena cannot grow. -/
  | arena (cause : ArenaError)
  /-- The request itself makes no sense. -/
  | invalidArgument (reason : String)
  /-- No word holds the size of a block for `size` bytes. -/
  | sizeOverflow (size : Nat)
  /-- There is no heap yet. -/
  | uninitialized
  /-- The word at `offset` is not inside the `limit` bytes of memory. -/
  | outOfBounds (offset limit : Nat)
  /-- No block of this heap has its payload at `ptr`. -/
  | invalidPointer (ptr : Nat)
  /-- The block at `ptr` is free. -/
  | doubleFree (ptr : Nat)
  deriving DecidableEq, Repr, Inhabited

/-- The cause as a sentence. -/
def ArenaError.message : ArenaError → String
  | .exhausted requested used limit =>
    s!"arena exhausted: requested {requested} bytes with {used} of {limit} in use"

/-- The cause as a sentence. -/
def HeapError.message : HeapError → String
  | .arena cause => cause.message
  | .invalidArgument reason => s!"invalid argument: {reason}"
  | .sizeOverflow size => s!"requested size {size} overflows block size computation"
  | .uninitialized => "heap is not initialized"
  | .outOfBounds offset limit =>
    s!"word access at offset {offset} is outside the heap (limit {limit})"
  | .invalidPointer ptr => s!"pointer {hex ptr} does not reference a block in this heap"
  | .doubleFree ptr => s!"block at {hex ptr} is already free"

end SegregatedFit
