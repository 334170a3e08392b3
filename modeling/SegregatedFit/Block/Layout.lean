-- SUMMARY: Where the tags of a block lie, reading and writing them, and the neighbours of a block.
import SegregatedFit.Block.Tag
import SegregatedFit.Memory

/-!
# The layout of a block

```text
  bp - 8        bp                                bp + size - 16
  ┌────────────┬─────────────────────────────────┬────────────┐
  │ header     │ payload (two links when free)   │ footer     │
  └────────────┴─────────────────────────────────┴────────────┘
```

A block is named by the offset `bp` of its payload. Header and footer hold the
same tag, so the blocks around a block are found from its own words: the next
one through its header, the one before through the footer just below it.
Offsets are computed modulo `wordCount`, and each access is checked, so a
nonsensical block is refused and never misread.
-/
namespace SegregatedFit.Block

/-- Where the header of the block lies. -/
def headerOffset (bp : Nat) : Nat := Word.wrapSub bp wordSize

/-- Where the footer of the block lies. -/
def footerOffset (bp size : Nat) : Nat := Word.wrapSub (Word.wrapAdd bp size) pairSize

/-- The tag stored at `off`. -/
def readTag (m : Memory) (off : Nat) : Except HeapError Tag := return .decode (← m.readWord off)

/-- The header of the block. -/
def header (m : Memory) (bp : Nat) : Except HeapError Tag := readTag m (headerOffset bp)

/-- The footer of the block, found through the size in its header. -/
def footer (m : Memory) (bp : Nat) : Except HeapError Tag := do
  let tag ← header m bp
  readTag m (footerOffset bp tag.size)

/-- Writes the tag as header and as footer. If one of the two words is not in
the memory, neither is written. -/
def writeTags (bp : Nat) (tag : Tag) : Action HeapError Memory Unit := fun m =>
  let first := headerOffset bp
  let last := footerOffset bp tag.size
  if m.size < first + wordSize then .error (.refused (.outOfBounds first m.size)) m
  else if m.size < last + wordSize then .error (.refused (.outOfBounds last m.size)) m
  else .ok () ((m.store first tag.encode wordSize).store last tag.encode wordSize)

/-- Writes the header of an allocated block of no bytes, which ends the heap. -/
def writeEpilogue (bp : Nat) : Action HeapError Memory Unit :=
  Memory.writeWord (headerOffset bp) (Tag.encode ⟨0, true⟩)

/-- The block after the one at `bp`. -/
def next (m : Memory) (bp : Nat) : Except HeapError Nat := do
  let tag ← header m bp
  if bp + tag.size < wordCount then .ok (bp + tag.size) else .error (.outOfBounds bp m.size)

/-- The block before the one at `bp`, found through the footer below its header. -/
def previous (m : Memory) (bp : Nat) : Except HeapError Nat := do
  let tag ← readTag m (Word.wrapSub bp pairSize)
  if tag.size ≤ bp then .ok (bp - tag.size) else .error (.outOfBounds bp m.size)

/-! ## Blocks inside the memory -/

theorem headerOffset_of_le {bp : Nat} (h : wordSize ≤ bp) : headerOffset bp = bp - wordSize :=
  Word.wrapSub_of_le h

theorem footerOffset_of_le {bp size : Nat} (h : pairSize ≤ bp + size)
    (hlt : bp + size < wordCount) : footerOffset bp size = bp + size - pairSize := by
  rw [footerOffset, Word.wrapAdd_of_lt hlt, Word.wrapSub_of_le h]

theorem header_of_le {m : Memory} {bp : Nat} (h : wordSize ≤ bp) (hm : bp ≤ m.size) :
    header m bp = .ok (.decode (m.load (bp - wordSize) wordSize)) := by
  have hin : bp - wordSize + wordSize ≤ m.size := by rwa [Nat.sub_add_cancel h]
  simp only [header, readTag, headerOffset_of_le h, Memory.readWord, if_pos hin]
  rfl

end SegregatedFit.Block
