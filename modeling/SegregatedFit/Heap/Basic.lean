-- SUMMARY: The heap, its figures, and the effects from which its operations are made.
import SegregatedFit.Arena
import SegregatedFit.Config
import SegregatedFit.FreeLists.Search
import SegregatedFit.Log.Basic

/-!
# The heap

```text
  base                                                          end
  ┌─────┬───────────────┬──────────┬──────────┬─────┬──────────┐
  │ pad │ prologue 16|a │ block    │ block    │ ... │ epi 0|a  │
  └─────┴───────────────┴──────────┴──────────┴─────┴──────────┘
```

A heap owns a region, the lists of the free blocks in it, and a log. Between the
prologue and the epilogue, two allocated blocks without payload, blocks follow
one another without a gap, so that every block has a neighbour on either side.
Pointers are payload offsets; zero is no payload.
-/
namespace SegregatedFit

/-- The pointer that names no block. -/
def nullPtr : Nat := 0

/-- The bytes of the padding word, the prologue and the epilogue header. -/
abbrev sentinelBytes : Nat := 32

/-- What a heap counts since it was laid out. -/
structure Counters where
  allocatedBlocks : Nat := 0
  /-- The bytes of allocated blocks, tags included. -/
  allocatedBytes : Nat := 0
  extendCalls : Nat := 0
  resizeMoves : Nat := 0
  resizeInPlace : Nat := 0
  deriving DecidableEq, Repr, Inhabited

/-- The figures of a heap. -/
structure Stats where
  /-- The bytes from the base of the heap to its end. -/
  heapSize : Nat
  /-- The bytes of free blocks, tags included. -/
  freeBytes : Nat
  freeBlocks : Nat
  allocatedBlocks : Nat
  /-- How often the heap grew, when it was laid out included. -/
  extendCalls : Nat
  /-- Resizes that moved the block. -/
  resizeMoves : Nat
  /-- Resizes that the block already covered. -/
  resizeInPlace : Nat
  deriving DecidableEq, Repr, Inhabited

/-- A heap in a region of type `R`. -/
structure Heap (R : Type) where
  region : R
  lists : FreeLists
  config : Config
  /-- The offset of the padding word. -/
  base : Nat
  /-- The payload offset of the prologue, once the heap is laid out. -/
  prologue : Option Nat
  counters : Counters
  log : Log
  deriving Inhabited

/-- An operation on a heap. -/
abbrev HeapM (R : Type) (α : Type) : Type := Action HeapError (Heap R) α

namespace Heap

variable {R : Type} {α : Type}

/-- A heap over the given region, not laid out yet. -/
def ofRegion (region : R) (config : Config) : Heap R where
  region := region
  lists := .empty
  config := config.normalized
  base := 0
  prologue := none
  counters := {}
  log := { threshold := config.normalized.logLevel }

/-- A heap over an arena of the default limit, with the default settings. -/
def standard : Heap Arena := ofRegion {} {}

/-- Whether the heap is laid out. -/
def isInitialized (h : Heap R) : Bool := h.prologue.isSome

/-- The payload offset of the prologue; refused without a heap. -/
def requirePrologue (h : Heap R) : Except HeapError Nat :=
  match h.prologue with
  | some prologue => .ok prologue
  | none => .error .uninitialized

/-! ## Figures -/

section Figures

variable [Region R]

/-- The bytes of the heap and of all that is in its region. -/
def memory (h : Heap R) : Memory := Region.memory h.region

/-- The bytes from the base of the heap to its end; zero without a heap. -/
def heapSize (h : Heap R) : Except Trap Nat :=
  if h.isInitialized then Word.sub (Region.size h.region) h.base else .ok 0

/-- The bytes that are neither sentinels nor allocated. -/
def freeBytes (h : Heap R) (heapSize : Nat) : Nat :=
  heapSize - sentinelBytes - h.counters.allocatedBytes

/-- The figures that go into a record. -/
def snapshot (h : Heap R) : Except Trap Snapshot := do
  let heapSize ← h.heapSize
  return {
    heapSize
    freeBytes := h.freeBytes heapSize
    allocatedBlocks := h.counters.allocatedBlocks }

/-- All figures. -/
def stats (h : Heap R) : Except Trap Stats := do
  let heapSize ← h.heapSize
  return {
    heapSize
    freeBytes := h.freeBytes heapSize
    freeBlocks := h.lists.size
    allocatedBlocks := h.counters.allocatedBlocks
    extendCalls := h.counters.extendCalls
    resizeMoves := h.counters.resizeMoves
    resizeInPlace := h.counters.resizeInPlace }

end Figures

/-! ## Effects -/

/-- Looks at the memory. -/
def read [Region R] (f : Memory → Except HeapError α) : HeapM R α := fun h =>
  match f h.memory with
  | .ok a => .ok a h
  | .error cause => .error (.refused cause) h

/-- Changes the free lists and the memory. -/
def edit [Region R] (x : FreeLists.Edit α) : HeapM R α := fun h =>
  let ⟨region, lists, config, base, prologue, counters, log⟩ := h
  let ((answer, lists), region) := Region.update region fun m =>
    match x (lists, m) with
    | .ok a (lists, m) => ((Except.ok a, lists), m)
    | .error failure (lists, m) => ((Except.error failure, lists), m)
  match answer with
  | .ok a => .ok a ⟨region, lists, config, base, prologue, counters, log⟩
  | .error failure => .error failure ⟨region, lists, config, base, prologue, counters, log⟩

/-- Changes the memory. -/
def write [Region R] (x : Action HeapError Memory α) : HeapM R α := edit (Action.onSecond x)

/-- Grows the region and returns its old size, or why it cannot grow. -/
def growRegion [Region R] (delta : Nat) : HeapM R (Except ArenaError Nat) := fun h =>
  let ⟨region, lists, config, base, prologue, counters, log⟩ := h
  match Region.grow delta region with
  | .ok used region => .ok (.ok used) ⟨region, lists, config, base, prologue, counters, log⟩
  | .error (.refused cause) region =>
    .ok (.error cause) ⟨region, lists, config, base, prologue, counters, log⟩
  | .error (.trapped trap) region =>
    .error (.trapped trap) ⟨region, lists, config, base, prologue, counters, log⟩

/-- Changes the counters. -/
def count (f : Counters → Except Trap Counters) : HeapM R Unit := do
  let counters ← f (← get).counters
  modify ({ · with counters })

/-- Logs an event, if the log keeps its level. -/
def logEvent [Region R] (event : Event) : HeapM R Unit := do
  if (← get).log.keeps event.level then
    let snapshot ← (← get).snapshot
    modify fun h => { h with log := h.log.record event snapshot }

/-! ## Effects on a heap over an arena -/

/-- The heap with other lists and other bytes. -/
def withLists (h : Heap Arena) (lists : FreeLists) (m : Memory) : Heap Arena :=
  { h with lists, region := { h.region with memory := m } }

@[simp] theorem memory_arena (h : Heap Arena) : h.memory = h.region.memory := rfl

theorem edit_apply (x : FreeLists.Edit α) (h : Heap Arena) :
    edit x h =
      match x (h.lists, h.region.memory) with
      | .ok a (lists, m) => .ok a (h.withLists lists m)
      | .error failure (lists, m) => .error failure (h.withLists lists m) := by
  obtain ⟨⟨m, limit, growCalls⟩, lists, config, base, prologue, counters, log⟩ := h
  simp only [edit, Arena.region_update]
  cases x (lists, m) <;> rfl

theorem write_apply (x : Action HeapError Memory α) (h : Heap Arena) :
    write x h =
      match x h.region.memory with
      | .ok a m => .ok a (h.withLists h.lists m)
      | .error failure m => .error failure (h.withLists h.lists m) := by
  rw [write, edit_apply, Action.onSecond_apply]
  cases x h.region.memory <;> rfl

theorem read_apply (f : Memory → Except HeapError α) (h : Heap Arena) :
    read f h =
      match f h.region.memory with
      | .ok a => .ok a h
      | .error cause => .error (.refused cause) h := rfl

theorem count_of_ok {f : Counters → Except Trap Counters} {h : Heap R} {counters : Counters}
    (hf : f h.counters = .ok counters) : count f h = .ok () { h with counters } := by
  simp [count, Action.bind_apply, Action.get_apply, hf, Action.lift_trap_ok, Action.modify_apply]

/-- Logging changes the log and nothing else. -/
theorem logEvent_of_snapshot [Region R] {h : Heap R} {snapshot : Snapshot} (event : Event)
    (hs : h.snapshot = .ok snapshot) :
    logEvent event h = .ok () { h with log := h.log.record event snapshot } := by
  cases hkeeps : h.log.keeps event.level with
  | true =>
    simp [logEvent, Action.bind_apply, Action.get_apply, hkeeps, hs, Action.lift_trap_ok,
      Action.modify_apply]
  | false =>
    simp [logEvent, Action.bind_apply, Action.get_apply, hkeeps, Log.record_of_not_keeps hkeeps,
      Action.pure_apply]

end Heap
end SegregatedFit
