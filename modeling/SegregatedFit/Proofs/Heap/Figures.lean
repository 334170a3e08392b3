-- SUMMARY: What the statistics and the audit of an arranged heap say of its blocks.
import SegregatedFit.Proofs.Audit.Heap
import SegregatedFit.Proofs.Heap.Founding

/-!
# Figures

A heap counts the bytes of its allocated blocks and the entries of its lists, and
computes the rest from the length of its memory. An arranged heap gets the sums
over its blocks in this way (`Arranged.stats_eq`), which are what an audit finds
by walking them (`Arranged.audit_eq`). A blank heap has no figures at all
(`Blank.stats_eq`).
-/
namespace SegregatedFit

open Block

namespace Block

/-- The bytes of all these blocks, tags included. -/
def bytes (spans : List Span) : Nat := (spans.map Span.size).sum

/-- The free ones of the blocks. -/
def unheld (spans : List Span) : List Span := spans.filter Span.isFree

/-- Every block is allocated or free. -/
theorem bytes_eq_add (spans : List Span) : bytes spans = bytes (held spans) + bytes (unheld spans) := by
  induction spans with
  | nil => rfl
  | cons s rest ih =>
    cases halloc : s.allocated with
    | true =>
      have hfree : s.isFree = false := by simp [Span.isFree, halloc]
      simp only [bytes, unheld, held_cons_allocated halloc, List.filter_cons, hfree,
        Bool.false_eq_true, if_false, List.map_cons, List.sum_cons] at ih ⊢
      omega
    | false =>
      have hfree : s.isFree = true := Span.isFree_iff.2 halloc
      simp only [bytes, unheld, held_cons_free hfree, List.filter_cons, hfree, if_true,
        List.map_cons, List.sum_cons] at ih ⊢
      omega

end Block

namespace Heap

variable {h : Heap Arena} {spans : List Span} {rings : Bucket → List Nat}

/-- The blocks and the sentinels fill the memory from the base on. -/
theorem Arranged.memory_size_eq (h' : h.Arranged spans rings) :
    h.region.memory.size = h.base + (sentinelBytes + bytes spans) := by
  have hsum := h'.row.tiles.sum_size
  simp only [bytes, sentinelBytes, pairSize] at *
  omega

theorem Arranged.heapSize_eq (h' : h.Arranged spans rings) :
    h.heapSize = .ok (sentinelBytes + bytes spans) := by
  have hinit : h.isInitialized = true := by simp [isInitialized, h'.prologue_eq]
  rw [heapSize, if_pos hinit, Arena.region_size, h'.memory_size_eq,
    Word.sub_of_le (Nat.le_add_right _ _), Nat.add_sub_cancel_left]

/-- The allocated bytes are no more than there are, so no difference is cut off. -/
theorem Arranged.allocatedBytes_eq (h' : h.Arranged spans rings) :
    h.counters.allocatedBytes + bytes (unheld spans) = bytes spans := by
  rw [h'.count.bytes_eq, bytes_eq_add spans]
  rfl

theorem Arranged.freeBytes_eq (h' : h.Arranged spans rings) :
    h.freeBytes (sentinelBytes + bytes spans) = bytes (unheld spans) := by
  rw [freeBytes, Nat.add_sub_cancel_left, ← h'.allocatedBytes_eq, Nat.add_sub_cancel_left]

/-- The statistics count the blocks. -/
theorem Arranged.stats_eq (h' : h.Arranged spans rings) :
    h.stats = .ok
      { heapSize := sentinelBytes + bytes spans
        freeBytes := bytes (unheld spans)
        freeBlocks := (unheld spans).length
        allocatedBlocks := (held spans).length
        extendCalls := h.counters.extendCalls
        resizeMoves := h.counters.resizeMoves
        resizeInPlace := h.counters.resizeInPlace } := by
  have hfreeBlocks : h.lists.size = (unheld spans).length := by
    rw [h'.indexed.size_eq, List.countP_eq_length_filter]
    rfl
  simp only [stats, h'.heapSize_eq, bind, Except.bind, h'.freeBytes_eq, hfreeBlocks,
    h'.count.blocks_eq]
  rfl

/-- So do the figures that go into a record. -/
theorem Arranged.figures_eq (h' : h.Arranged spans rings) :
    h.figures =
      { heapSize := sentinelBytes + bytes spans
        freeBytes := bytes (unheld spans)
        allocatedBlocks := (held spans).length } := by
  have hinit : h.isInitialized = true := by simp [isInitialized, h'.prologue_eq]
  have hsize : h.region.memory.size - h.base = sentinelBytes + bytes spans := by
    rw [h'.memory_size_eq, Nat.add_sub_cancel_left]
  simp only [figures, if_pos hinit, Arena.region_size, hsize, h'.freeBytes_eq, h'.count.blocks_eq]

/-- An audit lists the blocks up to the end of the memory and finds nothing wrong. -/
theorem Arranged.audit_eq (h' : h.Arranged spans rings) :
    h.audit = .ok
      { blocks := spans.map Audit.entry
        allocatedBlocks := (held spans).length
        freeBlocks := (unheld spans).length
        freeBytes := bytes (unheld spans)
        heapSize := sentinelBytes + bytes spans
        endOfHeap := some h.region.memory.size
        violations := [] } := by
  have hbase := h'.base_le
  have hm := h'.memory_lt
  have hprologue : h.base + pairSize + pairSize < wordCount := by
    simp only [sentinelBytes, pairSize] at *
    omega
  have hpaved := (Audit.row_and_separated_iff.1 ⟨h'.row, h'.consistent.separated⟩).2
  have hfaults : Audit.faults h.lists h.region.memory (h.base + pairSize) = [] :=
    (Audit.faults_eq_nil_iff hm).2 ⟨spans, rings, h'.consistent⟩
  rw [audit_eq_ok h'.prologue_eq hprologue (Nat.le_trans (Nat.le_add_right _ _) hbase)]
  simp only [memory_arena, hpaved.walk_eq hm, hfaults, Arena.region_size,
    List.filter_map, List.map_map, List.length_map, h'.memory_size_eq, Nat.add_sub_cancel_left,
    List.countP_eq_length_filter]
  rfl

/-- A blank heap counts nothing. -/
theorem Blank.stats_eq (hblank : h.Blank) : h.stats = .ok ⟨0, 0, 0, 0, 0, 0, 0⟩ := by
  simp only [stats, heapSize, freeBytes, isInitialized, hblank.prologue_eq, hblank.counters_eq,
    hblank.lists_eq]
  rfl

/-- All that an audit finds in a blank heap is that there is none. -/
theorem Blank.audit_eq (hblank : h.Blank) :
    h.audit = .ok { violations := [.uninitialized] } := by
  simp only [audit, hblank.prologue_eq]
  rfl

end Heap
end SegregatedFit
