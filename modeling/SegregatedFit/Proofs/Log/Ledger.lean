-- SUMMARY: The ledger of allocated blocks that a reader of the log can keep.
import Mathlib.Algebra.GroupWithZero.Nat
import Mathlib.Data.List.Induction
import SegregatedFit.Heap.Basic
import SegregatedFit.Log.Replay

/-!
# Ledgers

The record of an allocation or of a free shows a pointer and the size of its block. Whoever
reads the records in order can keep a ledger of the allocated blocks, and hold the figures
of each record against it (`Ledger.Tells`). The pointers in the ledger are those that a
replay of the records makes live (`Tells.replayAll?_eq`).
-/
namespace SegregatedFit

/-- Blocks, each by its pointer and its size. -/
abbrev Ledger := List (Nat × Nat)

namespace Ledger

def pointers (ledger : Ledger) : List Nat := ledger.map Prod.fst

@[simp] theorem pointers_cons (block : Nat × Nat) (ledger : Ledger) :
    pointers (block :: ledger) = block.1 :: ledger.pointers := rfl

/-- The bytes of all its blocks, tags included. -/
def bytes (ledger : Ledger) : Nat := (ledger.map Prod.snd).sum

/-- The ledger after the event, if it makes sense. -/
def post? (ledger : Ledger) (event : Event) : Option Ledger :=
  if event.name = "alloc" then do
    let block ← event.block?
    if block.1 ∈ ledger.pointers then none else some (block :: ledger)
  else if event.name = "free" then do
    let block ← event.block?
    if block ∈ ledger then some (ledger.erase block) else none
  else some ledger

end Ledger

/-- The figures count the blocks of the ledger, and leave their bytes when the sentinels and
the free bytes are taken off the size of the heap. -/
structure Snapshot.Shows (snapshot : Snapshot) (ledger : Ledger) : Prop where
  allocatedBlocks_eq : snapshot.allocatedBlocks = ledger.length
  heapSize_eq : snapshot.heapSize = sentinelBytes + snapshot.freeBytes + ledger.bytes

namespace Ledger

/-- The records lead from one ledger to another: each of them makes sense, and that of an
allocation or a free shows the ledger after it. -/
inductive Tells (ledger : Ledger) : List Record → Ledger → Prop
  | nil : ledger.Tells [] ledger
  | snoc {records : List Record} {record : Record} {before after : Ledger} :
    ledger.Tells records before → before.post? record.event = some after →
    (record.event.Books → record.snapshot.Shows after) → ledger.Tells (records ++ [record]) after

variable {ledger before after : Ledger} {event : Event} {records more : List Record}

theorem post?_of_not_books (h : ¬ event.Books) (ledger : Ledger) :
    ledger.post? event = some ledger := by
  obtain ⟨halloc, hfree⟩ := not_or.1 h
  rw [post?, if_neg halloc, if_neg hfree]

theorem post?_allocated {ptr : Nat} (hptr : ptr ∉ ledger.pointers) (n size placed : Nat)
    (source : Source) :
    ledger.post? (.allocated ptr n size placed source) = some ((ptr, placed) :: ledger) := by
  simp [post?, Event.name, hptr]

theorem post?_freed {ptr size : Nat} (hmem : (ptr, size) ∈ ledger) (merged : Nat) :
    ledger.post? (.freed ptr size merged) = some (ledger.erase (ptr, size)) := by
  simp [post?, Event.name, hmem]

theorem Tells.append (h : ledger.Tells records before) (hmore : before.Tells more after) :
    ledger.Tells (records ++ more) after := by
  induction hmore with
  | nil => rwa [List.append_nil]
  | snoc _ hpost hshows ih =>
    rw [← List.append_assoc]
    exact ih.snoc hpost hshows

/-- Other records have no part in the ledger. -/
theorem tells_of_not_books (hrecords : ∀ r ∈ records, ¬ r.event.Books) (ledger : Ledger) :
    ledger.Tells records ledger := by
  induction records using List.reverseRecOn with
  | nil => exact .nil
  | append_singleton records record ih =>
    obtain ⟨hbefore, hrecord⟩ := List.forall_mem_append.1 hrecords
    have hevent := hrecord record List.mem_cons_self
    exact (ih hbefore).snoc (post?_of_not_books hevent ledger) fun hbooks => (hevent hbooks).elim

/-! ## The pointers of a ledger -/

/-- As long as no pointer is in it twice, a block is as good as its pointer. -/
theorem pointers_erase {ptr size : Nat} (hnodup : ledger.pointers.Nodup)
    (hmem : (ptr, size) ∈ ledger) :
    pointers (ledger.erase (ptr, size)) = ledger.pointers.erase ptr := by
  induction ledger with
  | nil => cases hmem
  | cons block rest ih =>
    obtain ⟨hfresh, hrest⟩ := List.nodup_cons.1 hnodup
    rcases List.mem_cons.1 hmem with rfl | hmem
    · simp [pointers]
    · have hne : block.1 ≠ ptr := fun heq => hfresh (heq ▸ List.mem_map_of_mem hmem)
      have hne' : block ≠ (ptr, size) := fun heq => hne (congrArg Prod.fst heq)
      have hcons := congrArg (block.1 :: ·) (ih hrest hmem)
      simpa [pointers, List.erase_cons_tail, hne, hne'] using hcons

/-- What the event makes of the ledger, a replay makes of its pointers. -/
theorem replay?_eq_of_post? (hnodup : before.pointers.Nodup) (h : before.post? event = some after) :
    event.replay? before.pointers = some after.pointers := by
  by_cases hbooks : event.Books
  · obtain ⟨ptr, n, size, placed, source, rfl⟩ | ⟨ptr, size, merged, rfl⟩ :=
      Event.books_iff.1 hbooks
    · have hfresh : ptr ∉ before.pointers := fun hmem => by simp [post?, Event.name, hmem] at h
      rw [post?_allocated hfresh] at h
      cases h
      simp [Event.replay?, Event.name, Event.ptr, hfresh]
    · have hmem : (ptr, size) ∈ before := by
        by_contra hmem
        simp [post?, Event.name, hmem] at h
      rw [post?_freed hmem] at h
      cases h
      have hlive : ptr ∈ before.pointers := List.mem_map_of_mem hmem
      simp [Event.replay?, Event.name, Event.ptr, hlive, pointers_erase hnodup hmem]
  · rw [post?_of_not_books hbooks] at h
    cases h
    obtain ⟨halloc, hfree⟩ := not_or.1 hbooks
    rw [Event.replay?, if_neg halloc, if_neg hfree]

/-- A replay of the events goes through, and ends with the pointers of the ledger. -/
theorem Tells.replayAll?_eq (h : ledger.Tells records after) (hnodup : ledger.pointers.Nodup) :
    Event.replayAll? ledger.pointers (records.map Record.event) = some after.pointers ∧
      after.pointers.Nodup := by
  induction h with
  | nil => exact ⟨rfl, hnodup⟩
  | snoc _ hpost _ ih =>
    obtain ⟨hreplay, hbefore⟩ := ih
    have hevent := replay?_eq_of_post? hbefore hpost
    refine ⟨?_, Event.nodup_replay? hbefore hevent⟩
    rw [List.map_append, Event.replayAll?_append, hreplay]
    simp [Event.replayAll?, hevent]

end Ledger
end SegregatedFit
