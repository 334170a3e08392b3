-- SUMMARY: Plain heaps: what a heap decides by, without its bytes, and the operations on that.
import SegregatedFit.Proofs.Client.Session
import SegregatedFit.Proofs.Heap.Carving

/-!
# Plain heaps

A plain heap has no bytes: it is a row of blocks and a ring of offsets for each
bucket, with the figures of the heap and the number of bytes of its arena. The
operations of a heap are said once more on plain heaps, line by line, with tags
and links replaced by the blocks and rings that they stand for, and the words of
a growth by the size that they come to. The modules beside this one prove that a
heap does the same as the plain heap that it shows, so whatever is decided here is
decided without a look at any payload.
-/
namespace SegregatedFit

open Block

/-! ## State -/

/-- An arena without its bytes. -/
structure Room where
  /-- The number of bytes in use. -/
  size : Nat
  limit : Nat
  growCalls : Nat
  deriving DecidableEq, Repr

/-- What there is of a heap beside its bytes and lists. -/
structure Outline where
  room : Room
  config : Config
  base : Nat
  prologue : Option Nat
  counters : Counters
  log : Log

/-- A heap without bytes: its outline, its blocks and its rings. -/
structure Plain extends Outline where
  spans : List Span
  rings : Bucket → List Nat

/-- An operation on a plain heap. -/
abbrev PlainM (α : Type) : Type := Action HeapError Plain α

def Arena.room (a : Arena) : Room := ⟨a.memory.size, a.limit, a.growCalls⟩

def Heap.outline (h : Heap Arena) : Outline :=
  ⟨h.region.room, h.config, h.base, h.prologue, h.counters, h.log⟩

/-- Adds `delta` bytes and returns how many there were. -/
def Room.grow (delta : Nat) : Action ArenaError Room Nat := fun room =>
  if room.limit < room.size + delta ∨ wordCount ≤ room.size + delta then
    .error (.refused (.exhausted delta room.size room.limit)) room
  else if wordCount ≤ 2 * (room.size + delta) then
    .error (.trapped .capacity) room
  else if wordCount ≤ room.growCalls + 1 then
    .error (.trapped .overflow) room
  else
    .ok room.size { room with size := room.size + delta, growCalls := room.growCalls + 1 }

/-- The figures that go into a record. -/
def Outline.figures (o : Outline) : Snapshot :=
  let heapSize := if o.prologue.isSome then o.room.size - o.base else 0
  { heapSize
    freeBytes := heapSize - sentinelBytes - o.counters.allocatedBytes
    allocatedBlocks := o.counters.allocatedBlocks }

/-! ## Looking up blocks -/

namespace Block

/-- The block at `bp` between the blocks before it and those behind it. -/
def cut? (bp : Nat) : List Span → Option (List Span × Span × List Span)
  | [] => none
  | s :: rest =>
    if s.offset = bp then some ([], s, rest)
    else (cut? bp rest).map fun (front, t, back) => (s :: front, t, back)

/-- Whether there is a block of at least `size` bytes at `bp`. -/
def fits (spans : List Span) (size bp : Nat) : Bool :=
  spans.any fun s => s.offset = bp ∧ size ≤ s.size

theorem cut?_middle {front back : List Span} {s : Span}
    (h : ∀ t ∈ front, t.offset ≠ s.offset) :
    cut? s.offset (front ++ s :: back) = some (front, s, back) := by
  induction front with
  | nil => simp [cut?]
  | cons t front ih =>
    rw [List.cons_append, cut?, if_neg (h t List.mem_cons_self),
      ih fun u hu => h u (List.mem_cons_of_mem t hu)]
    rfl

theorem cut?_eq_none {spans : List Span} {bp : Nat} (h : ∀ t ∈ spans, t.offset ≠ bp) :
    cut? bp spans = none := by
  induction spans with
  | nil => rfl
  | cons t spans ih =>
    rw [cut?, if_neg (h t List.mem_cons_self), ih fun u hu => h u (List.mem_cons_of_mem t hu)]
    rfl

/-- No two blocks of a row begin at one offset. -/
theorem Row.cut?_eq {m : Memory} {prologue : Nat} {front back : List Span} {s : Span}
    (h : Row m prologue (front ++ s :: back)) :
    cut? s.offset (front ++ s :: back) = some (front, s, back) := by
  refine cut?_middle fun t ht hoff => ?_
  have heq : t = s := h.eq_of_offset (List.mem_append_left _ ht)
    (List.mem_append_right _ List.mem_cons_self) hoff
  exact (List.nodup_append.1 h.nodup).2.2 t ht s List.mem_cons_self heq

end Block

/-! ## Operations -/

namespace Plain

/-- A plain heap that is not laid out, and nothing is left of an earlier one. -/
def cleared (p : Plain) : Plain :=
  { p with counters := {}, prologue := none, spans := [], rings := fun _ => [] }

/-- The plain heap after it logged the event. -/
def logged (p : Plain) (event : Event) : Plain :=
  { p with log := p.log.record event p.figures }

def logEvent (event : Event) : PlainM Unit := modify (·.logged event)

/-- Changes the counters. -/
def count (f : Counters → Except Trap Counters) : PlainM Unit := do
  let counters ← f (← get).counters
  modify ({ · with counters })

/-- Grows the room and returns its old size, or why it cannot grow. -/
def growRegion (delta : Nat) : PlainM (Except ArenaError Nat) := fun p =>
  match Room.grow delta p.room with
  | .ok used room => .ok (.ok used) { p with room }
  | .error (.refused cause) room => .ok (.error cause) { p with room }
  | .error (.trapped trap) room => .error (.trapped trap) { p with room }

/-- The block at `bp`, with the blocks before it and those behind it. -/
def lookUp (bp : Nat) : PlainM (List Span × Span × List Span) := do
  match cut? bp (← get).spans with
  | some parts => return parts
  | none => Action.refuse (.invalidPointer bp)

/-! ### Free space -/

/-- Puts the block, which is free and in no ring, between the two rows and merges
it with its free neighbours. -/
def coalesce (front : List Span) (s : Span) (back : List Span) : PlainM Nat := do
  let t := joined (freeRun front s back)
  modify fun p => { p with
    spans := merged front s back
    rings := Heap.relisted p.rings front s back }
  logEvent (.coalesced (Heap.mergeKind front back) t.offset t.size)
  return t.offset

/-- Adds a free block of `size` bytes at the end. -/
def grow (size : Nat) : PlainM Nat := do
  match ← growRegion size with
  | .error cause =>
    logEvent (.growthFailed size cause)
    Action.refuse (.arena cause)
  | .ok bp =>
    modify fun p => { p with counters.extendCalls := p.counters.extendCalls + 1 }
    logEvent (.grown bp size)
    coalesce (← get).spans ⟨bp, size, false⟩ []

/-- The first block of at least `size` bytes in the first ring that has one. -/
def find? (p : Plain) (size : Nat) : Option Nat :=
  (Bucket.upFrom (Bucket.searchFrom size p.config.search)).findSome? fun bucket =>
    (p.rings bucket).find? (fits p.spans size)

/-- Takes `size` bytes from the front of the free block at `bp`. -/
def carve (bp size : Nat) : PlainM Nat := do
  let (front, s, back) ← lookUp bp
  let t := taken s size
  modify fun p => { p with
    spans := front ++ t :: leftover s size ++ back
    rings := carvedRings p.rings s size
    counters := p.counters.added t.size }
  if Splits s size then
    logEvent (.split (bp + size) (s.size - size))
  return t.size

/-- The plain heap after `size` bytes were taken from the front of the block `s`. -/
def carved (p : Plain) (front : List Span) (s : Span) (back : List Span) (size : Nat) : Plain :=
  let q := { p with
    spans := front ++ taken s size :: leftover s size ++ back
    rings := carvedRings p.rings s size
    counters := p.counters.added (taken s size).size }
  if Splits s size then q.logged (.split (s.offset + size) (s.size - size)) else q

section Carved

variable (p : Plain) (front : List Span) (s : Span) (back : List Span) (size : Nat)

@[simp] theorem carved_spans :
    (p.carved front s back size).spans = front ++ taken s size :: leftover s size ++ back := by
  unfold carved
  split <;> rfl

@[simp] theorem carved_rings :
    (p.carved front s back size).rings = carvedRings p.rings s size := by
  unfold carved
  split <;> rfl

end Carved

theorem carve_of_cut {p : Plain} {front : List Span} {s : Span} {back : List Span} (size : Nat)
    (hcut : cut? s.offset p.spans = some (front, s, back)) :
    carve s.offset size p = .ok (taken s size).size (p.carved front s back size) := by
  simp only [carve, lookUp, carved, Action.bind_apply, Action.get_apply, hcut, Action.pure_apply,
    Action.modify_apply]
  split <;> rfl

/-! ### Allocating, freeing and resizing -/

def findOrGrow (n size : Nat) : PlainM (Nat × Source) := do
  match (← get).find? size with
  | some bp => return (bp, .freeList)
  | none =>
    let chunk := max size (← get).config.chunkSize
    match ← Action.attempt (grow chunk) with
    | .ok bp => return (bp, .growth)
    | .error cause =>
      logEvent (.allocFailed n size cause)
      Action.refuse cause

def allocate (n : Nat) : PlainM Nat := do
  if (← get).prologue = none then
    Action.refuse .uninitialized
  else if n = 0 then
    logEvent .askedNothing
    Action.refuse (.invalidArgument "zero-size allocation")
  else
    match sizeFor n with
    | none =>
      logEvent (.askedTooMuch n)
      Action.refuse (.sizeOverflow n)
    | some size =>
      let (bp, source) ← findOrGrow n size
      let placed ← carve bp size
      logEvent (.allocated bp n size placed source)
      return bp

/-- The tag of the allocated block at `ptr`. -/
def blockAt (p : Plain) (ptr : Nat) : Except HeapError Tag :=
  if p.prologue = none then .error .uninitialized
  else match cut? ptr p.spans with
    | none => .error (.invalidPointer ptr)
    | some (_, s, _) => if s.allocated then .ok s.tag else .error (.doubleFree ptr)

def release (ptr size : Nat) : PlainM Unit := do
  let (front, s, back) ← lookUp ptr
  modify fun p => { p with counters := p.counters.removed size }
  let merged ← coalesce front s.freed back
  logEvent (.freed ptr size merged)

def free (ptr : Nat) : PlainM Unit := do
  if ptr = nullPtr then
    logEvent .freedNull
  else
    match (← get).blockAt ptr with
    | .error cause =>
      logEvent (.freeRefused ptr cause)
      Action.refuse cause
    | .ok tag => release ptr tag.size

def relocate (ptr current n : Nat) : PlainM Nat := do
  match Word.mul? n (← get).config.resizeFactor with
  | none => Action.refuse (.sizeOverflow n)
  | some target =>
    match ← Action.attempt (allocate target) with
    | .error cause =>
      logEvent (.resizeFailed ptr target cause)
      Action.refuse cause
    | .ok dest =>
      free ptr
      count fun c => return { c with resizeMoves := ← Word.add c.resizeMoves 1 }
      logEvent (.moved ptr dest n (payloadSize current) target)
      return dest

def resize (ptr n : Nat) : PlainM (Option Nat) := do
  if ptr = nullPtr then
    return some (← allocate n)
  else if n = 0 then
    free ptr
    logEvent (.resizedToNothing ptr)
    return none
  else
    let current := (← (← get).blockAt ptr).size
    match sizeFor n with
    | none => Action.refuse (.sizeOverflow n)
    | some size =>
      if size ≤ current then
        count fun c => return { c with resizeInPlace := ← Word.add c.resizeInPlace 1 }
        logEvent (.resizedInPlace ptr n current size)
        return some ptr
      else
        return some (← relocate ptr current n)

/-! ### Laying out -/

def firstChunk : PlainM Unit := do
  let config := (← get).config
  match ← Action.attempt (grow config.chunkSize) with
  | .error cause =>
    modify fun p => { p with prologue := none }
    Action.refuse cause
  | .ok _ => logEvent (.laidOut (← get).base config.chunkSize config.search)

def init : PlainM Unit := do
  modify cleared
  let used := (← get).room.size
  let base ← Word.fit (Word.roundUp used pairSize)
  match ← growRegion (base - used + sentinelBytes) with
  | .error cause =>
    logEvent (.initFailed (base - used + sentinelBytes) cause)
    Action.refuse (.arena cause)
  | .ok _ =>
    modify fun p => { p with base, prologue := some (base + pairSize) }
    firstChunk

def reset (p : Plain) : Plain :=
  { p.cleared with room := { p.room with size := 0, growCalls := 0 }, base := 0 }

/-- A call on a plain heap. What a client stores in its payloads has no part in it. -/
def run : Call → PlainM (Option Nat)
  | .init => do
    init
    return none
  | .reset => do
    modify reset
    return none
  | .allocate n => return some (← allocate n)
  | .free ptr => do
    free ptr
    return none
  | .resize ptr n => resize ptr n
  | .store ptr _ _ => do
    let _ ← (← get).blockAt ptr
    return none

end Plain
end SegregatedFit
