-- SUMMARY: The free lists: fifteen doubly linked rings threaded through free payloads.
import SegregatedFit.Block.Layout
import SegregatedFit.FreeLists.Link

/-!
# The free lists

```text
  sentinel ──next──▶ block A ──next──▶ block B ──next──▶ sentinel
      ▲                 │                 │
      └──────prev───────┴──────prev───────┘
```

Each bucket is a ring through its sentinel. Sentinels are kept in a table; the
links of a block are its first two payload words, next before previous, so the
lists and the memory change together. A block is taken out without a search and
without being told its bucket.
-/
namespace SegregatedFit

/-- The head of a ring: its first and its last node, or itself twice. -/
structure Sentinel where
  next : Link
  prev : Link
  deriving DecidableEq, Repr, Inhabited

/-- The table of sentinels. The blocks themselves are in a memory. -/
structure FreeLists where
  sentinels : Vector Sentinel bucketCount
  /-- The number of blocks in all rings together. -/
  size : Nat
  deriving DecidableEq, Repr

namespace FreeLists

/-- No block in any ring. -/
def empty : FreeLists where
  sentinels := Vector.ofFn fun bucket => ⟨.sentinel bucket, .sentinel bucket⟩
  size := 0

instance : Inhabited FreeLists := ⟨empty⟩

/-- Whether there is no block in any ring. -/
def isEmpty (lists : FreeLists) : Bool := lists.size == 0

/-- The first node after the sentinel of a bucket. -/
def first (lists : FreeLists) (bucket : Bucket) : Link := lists.sentinels[bucket].next

/-- Whether the bucket leads straight back to itself. -/
def isEmptyAt (lists : FreeLists) (bucket : Bucket) : Bool :=
  lists.first bucket == .sentinel bucket

/-! ## Following links -/

/-- The link stored at `off`. -/
def readLink (m : Memory) (off : Nat) : Except HeapError Link := do
  match Link.decode (← m.readWord off) with
  | some link => return link
  | none => throw (.invalidPointer off)

/-- The node after the given one. -/
def after (lists : FreeLists) (m : Memory) : Link → Except HeapError Link
  | .sentinel bucket => .ok lists.sentinels[bucket].next
  | .block bp => readLink m bp

/-- The node before the given one. -/
def before (lists : FreeLists) (m : Memory) : Link → Except (Failure HeapError) Link
  | .sentinel bucket => .ok lists.sentinels[bucket].prev
  | .block bp => do
    let off ← Word.add bp wordSize
    readLink m off

/-! ## Changing links -/

/-- An operation on the lists and the memory that holds their blocks. -/
abbrev Edit (α : Type) : Type := Action HeapError (FreeLists × Memory) α

/-- Changes the sentinel of a bucket. -/
def setSentinel (bucket : Bucket) (f : Sentinel → Sentinel) : Edit Unit :=
  fun (lists, m) =>
    let ⟨sentinels, size⟩ := lists
    .ok () (⟨sentinels.set bucket (f sentinels[bucket]), size⟩, m)

/-- Stores the word of a link into the memory. -/
def storeLink (off word : Nat) : Edit Unit := Action.onSecond (Memory.writeWord off word)

/-- Changes the node after the given one. -/
def setAfter (value : Link) : Link → Edit Unit
  | .sentinel bucket => setSentinel bucket ({ · with next := value })
  | .block bp => storeLink bp value.encode

/-- Changes the node before the given one. -/
def setBefore (value : Link) : Link → Edit Unit
  | .sentinel bucket => setSentinel bucket ({ · with prev := value })
  | .block bp => do
    let off ← Word.add bp wordSize
    storeLink off value.encode

/-- Changes the count of blocks. -/
def setSize (size : Nat) : Edit Unit :=
  fun (lists, m) => .ok () ({ lists with size }, m)

/-- Puts the block in front of all others of its bucket. -/
def insert (bp : Nat) (bucket : Bucket) : Edit Unit := do
  let head := (← get).1.first bucket
  storeLink (← Word.add bp wordSize) (Link.sentinel bucket).encode
  storeLink bp head.encode
  setBefore (.block bp) head
  setAfter (.block bp) (.sentinel bucket)
  setSize (← Word.add (← get).1.size 1)

/-- Takes the block out of its ring and clears its links. -/
def remove (bp : Nat) : Edit Unit := do
  let (lists, m) ← get
  let next ← lists.after m (.block bp)
  let prev ← lists.before m (.block bp)
  setAfter next prev
  setBefore prev next
  setSize (← Word.sub (← get).1.size 1)
  storeLink bp 0
  storeLink (← Word.add bp wordSize) 0

end FreeLists
end SegregatedFit
