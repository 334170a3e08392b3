-- SUMMARY: The events in the life of a heap, and how each reads in the log.
import SegregatedFit.Error
import SegregatedFit.FreeLists.Bucket
import SegregatedFit.Log.Level

/-!
# Events

An event is something that a heap did or refused. Its constructor carries what
is known about it; the fields that a log shows (`level`, `symbol`, `name`,
`outcome`, `ptr`, `size`, `bucket`, `details`) are computed from that.
-/
namespace SegregatedFit

open Text (hex)

/-- Which neighbours a freed block was merged with. -/
inductive Merge where
  | alone
  | withNext
  | withPrevious
  | withBoth
  deriving DecidableEq, Repr, Inhabited

/-- Where an allocated block came from. -/
inductive Source where
  /-- A free list held it. -/
  | freeList
  /-- The heap grew for it. -/
  | growth
  deriving DecidableEq, Repr, Inhabited

/-- Something that a heap did or refused. -/
inductive Event where
  /-- The sentinels of a new heap, of `size` bytes with padding, found no room. -/
  | initFailed (size : Nat) (cause : ArenaError)
  /-- A heap was laid out from `base` on. -/
  | laidOut (base chunkSize : Nat) (policy : SearchPolicy)
  /-- An allocation asked for no bytes. -/
  | askedNothing
  /-- An allocation asked for more than a block can hold. -/
  | askedTooMuch (size : Nat)
  /-- An allocation of `size` bytes, in a block of `blockSize`, found no room. -/
  | allocFailed (size blockSize : Nat) (cause : HeapError)
  /-- An allocation of `size` bytes, for which `blockSize` would do, got `placed`. -/
  | allocated (ptr size blockSize placed : Nat) (source : Source)
  /-- The rest of a block became a free block of its own. -/
  | split (ptr size : Nat)
  /-- The null pointer was freed. -/
  | freedNull
  /-- A pointer could not be freed. -/
  | freeRefused (ptr : Nat) (cause : HeapError)
  /-- A block of `size` bytes was freed and is now part of the one at `merged`. -/
  | freed (ptr size merged : Nat)
  /-- A block of `size` bytes, merged with its free neighbours, entered its free list. -/
  | coalesced (merge : Merge) (ptr size : Nat)
  /-- The arena refused to grow. -/
  | growthFailed (size : Nat) (cause : ArenaError)
  /-- The heap grew by `size` bytes. -/
  | grown (ptr size : Nat)
  /-- A block was resized to nothing and so freed. -/
  | resizedToNothing (ptr : Nat)
  /-- A block of `current` bytes already covered a resize that needs `blockSize`. -/
  | resizedInPlace (ptr size current blockSize : Nat)
  /-- A block could not move to a larger one with `target` payload bytes. -/
  | resizeFailed (ptr target : Nat) (cause : HeapError)
  /-- A resize to `size` bytes copied the `copied` payload bytes at `ptr` to a new block at
  `dest`, allocated for `target` bytes. -/
  | moved (ptr dest size copied target : Nat)
  deriving DecidableEq, Repr, Inhabited

/-- The neighbours by name. -/
def Merge.name : Merge → String
  | .alone => "none"
  | .withNext => "next"
  | .withPrevious => "prev"
  | .withBoth => "both"

/-- The way to the block by name. -/
def Source.name : Source → String
  | .freeList => "free_list_hit"
  | .growth => "heap_extended"

namespace Event

/-- How severe the event is. -/
def level : Event → Level
  | .initFailed .. | .askedTooMuch .. | .allocFailed .. | .freeRefused .. | .growthFailed ..
  | .resizeFailed .. => .warn
  | .laidOut .. => .info
  | .grown .. => .debug
  | .askedNothing | .allocated .. | .split .. | .freedNull | .freed .. | .coalesced ..
  | .resizedToNothing .. | .resizedInPlace .. | .moved .. => .trace

/-- The operation to which the event belongs. -/
def symbol : Event → String
  | .initFailed .. | .laidOut .. => "init"
  | .askedNothing | .askedTooMuch .. | .allocFailed .. | .allocated .. | .split .. => "malloc"
  | .freedNull | .freeRefused .. | .freed .. | .coalesced .. => "free"
  | .growthFailed .. | .grown .. => "sbrk"
  | .resizedToNothing .. | .resizedInPlace .. | .resizeFailed .. | .moved .. => "realloc"

/-- The kind of the event. -/
def name : Event → String
  | .initFailed .. => "init_failed"
  | .laidOut .. => "init"
  | .askedNothing => "alloc_zero"
  | .askedTooMuch .. => "alloc_overflow"
  | .allocFailed .. => "alloc_oom"
  | .allocated .. => "alloc"
  | .split .. => "split"
  | .freedNull => "free_null"
  | .freeRefused _ (.doubleFree _) => "double_free_detected"
  | .freeRefused .. => "invalid_free_pointer"
  | .freed .. => "free"
  | .coalesced .. => "coalesce"
  | .growthFailed .. => "extend_failed"
  | .grown .. => "extend"
  | .resizedToNothing .. => "realloc_zero_as_free"
  | .resizedInPlace .. => "realloc_in_place"
  | .resizeFailed .. => "realloc_oom"
  | .moved .. => "realloc_move"

/-- How the event ended. -/
def outcome : Event → String
  | .initFailed .. | .allocFailed .. | .growthFailed .. | .resizeFailed .. => "oom"
  | .askedNothing => "null"
  | .askedTooMuch .. => "denied"
  | .freedNull => "noop"
  | .freeRefused .. => "ignored"
  | .resizedToNothing .. => "freed"
  | .coalesced merge .. => merge.name
  | .laidOut .. | .allocated .. | .split .. | .freed .. | .grown .. | .resizedInPlace ..
  | .moved .. => "success"

/-- The offset that the event is about. -/
def ptr : Event → Option Nat
  | .initFailed .. | .askedNothing | .askedTooMuch .. | .allocFailed .. | .growthFailed .. => none
  | .freedNull => some 0
  | .laidOut base .. => some base
  | .moved _ dest .. => some dest
  | .allocated ptr .. | .split ptr _ | .freeRefused ptr _ | .freed ptr .. | .coalesced _ ptr _
  | .grown ptr _ | .resizedToNothing ptr | .resizedInPlace ptr .. | .resizeFailed ptr .. => some ptr

/-- The number of bytes that the event is about. -/
def size : Event → Option Nat
  | .askedNothing | .freedNull | .freeRefused .. | .resizedToNothing .. => none
  | .laidOut _ chunkSize _ => some chunkSize
  | .resizeFailed _ target _ => some target
  | .initFailed size _ | .askedTooMuch size | .allocFailed size .. | .allocated _ size ..
  | .split _ size | .freed _ size _ | .coalesced _ _ size | .growthFailed size _ | .grown _ size
  | .resizedInPlace _ size .. | .moved _ _ size .. => some size

/-- The bucket that the event is about. -/
def bucket : Event → Option Bucket
  | .allocFailed _ blockSize _ | .allocated _ _ blockSize .. => some (.ofSize blockSize)
  | .split _ size | .coalesced _ _ size => some (.ofSize size)
  | _ => none

/-- What else is known about the event. -/
def details : Event → String
  | .initFailed _ cause | .growthFailed _ cause => cause.message
  | .allocFailed _ _ cause | .freeRefused _ cause | .resizeFailed _ _ cause => cause.message
  | .laidOut _ _ policy => s!"search_start={policy.name}"
  | .askedNothing => "zero_size_request"
  | .askedTooMuch _ => "adjusted_size_overflow"
  | .allocated _ _ blockSize placed source =>
    s!"path={source.name} asize={blockSize} block_size={placed}"
  | .freedNull => "null_pointer"
  | .freed _ _ merged => s!"coalesced_into={hex merged}"
  | .resizedToNothing _ => "new_size_was_zero"
  | .resizedInPlace _ _ current blockSize => s!"block_size={current} asize={blockSize}"
  | .moved ptr _ _ copied target => s!"old_ptr={hex ptr} copied={copied} target={target}"
  | .split .. | .coalesced .. | .grown .. => ""

end Event
end SegregatedFit
