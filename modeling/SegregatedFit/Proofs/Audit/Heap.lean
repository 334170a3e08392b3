-- SUMMARY: An audit finds nothing wrong exactly with a heap whose lists and memory are consistent.
import SegregatedFit.Audit.Heap
import SegregatedFit.Heap.Allocation
import SegregatedFit.Heap.Lifecycle
import SegregatedFit.Proofs.Audit.Rings
import SegregatedFit.Proofs.Heap.Arrangement

/-!
# The verdict of an audit

The parts of an audit are sound and complete one by one; what the tour and the
counts are compared with is the row that the walk found. Main statement:
`audit_violations_eq_nil_iff`, for a heap with any bytes, any sentinels and any
count, consistent or not.
-/
namespace SegregatedFit

open Block

namespace Audit

variable {m : Memory} {prologue : Nat} {spans : List Span} {seen : List Nat}

theorem prologueFaults_eq_nil_iff :
    prologueFaults m prologue = [] ↔ (prologueSpan prologue).TaggedIn m := by
  have hfooter : header m prologue = .ok ⟨pairSize, true⟩ →
      footer m prologue = readTag m (footerOffset prologue pairSize) := by
    intro hheader
    simp only [footer, hheader]
    rfl
  rw [prologueFaults, Span.TaggedIn, ite_eq_left_iff]
  simp only [toOption_eq_some_iff, Span.tag, prologueSpan, reduceCtorEq, imp_false, not_not]
  exact and_congr_right fun hheader => by rw [hfooter hheader]

/-- Every free block was met. -/
theorem untrackedFaults_eq_nil_iff :
    untrackedFaults (spans.map entry) seen = [] ↔
      ∀ s ∈ spans, s.isFree = true → s.offset ∈ seen := by
  simp only [untrackedFaults, List.map_eq_nil_iff, List.filter_eq_nil_iff, List.forall_mem_map,
    entry, Span.tag, Span.isFree, Bool.and_eq_true, decide_eq_true_eq, not_and, not_not]

theorem countFaults_eq_nil_iff {indexed walked : Nat} :
    countFaults indexed walked = [] ↔ indexed = walked := by
  rw [countFaults, check_eq_nil_iff, not_not]

/-- The entries of free blocks are as many as the free blocks. -/
theorem length_freeEntries (spans : List Span) :
    ((spans.map entry).filter (!·.header.allocated)).length = spans.countP Span.isFree := by
  rw [← List.countP_eq_length_filter, List.countP_map]
  rfl

/-- The prologue and the blocks behind it are a row. -/
theorem row_and_separated_iff :
    Row m prologue spans ∧ Separated spans ↔
      (prologueSpan prologue).TaggedIn m ∧ Paved m (prologue + pairSize) false spans := by
  constructor
  · rintro ⟨⟨hprologue, htiles, htagged, hproper, hepilogue⟩, hseparated⟩
    exact ⟨hprologue, htiles, htagged, hproper, separatedAfter_false_iff.2 hseparated, hepilogue⟩
  · rintro ⟨hprologue, htiles, htagged, hproper, hseparated, hepilogue⟩
    exact ⟨⟨hprologue, htiles, htagged, hproper, hepilogue⟩, separatedAfter_false_iff.1 hseparated⟩

/-- All that an audit notes about lists and memory. -/
def faults (lists : FreeLists) (m : Memory) (prologue : Nat) : List Violation :=
  let found := walk m (prologue + pairSize) false
  let toured := tour lists m found.blocks
  prologueFaults m prologue ++ found.violations ++ toured.2
    ++ untrackedFaults found.blocks toured.1
    ++ countFaults lists.size (found.blocks.filter (!·.header.allocated)).length

/-- Nothing is noted exactly about a consistent heap. -/
theorem faults_eq_nil_iff {lists : FreeLists} (hm : m.size < wordCount) :
    faults lists m prologue = [] ↔ ∃ spans rings, Consistent lists m prologue spans rings := by
  simp only [faults, List.append_eq_nil_iff, prologueFaults_eq_nil_iff, countFaults_eq_nil_iff]
  constructor
  · rintro ⟨⟨⟨⟨hprologue, hwalk⟩, htour⟩, huntracked⟩, hcount⟩
    obtain ⟨spans, hpaved⟩ := exists_paved_of_walk hwalk
    obtain ⟨hrow, hseparated⟩ := row_and_separated_iff.2 ⟨hprologue, hpaved⟩
    rw [hpaved.walk_eq hm] at htour huntracked hcount
    obtain ⟨rings, hsound⟩ := exists_soundRings_of_tour htour
    obtain ⟨met, hmet, hmem⟩ := tour_of_soundRings hrow hsound
    rw [hmet] at huntracked
    rw [length_freeEntries] at hcount
    refine ⟨spans, rings, hrow, hseparated, (indexed_iff hrow).2 ⟨hsound, ?_,
      hcount⟩⟩
    intro s hs hfree
    exact (hmem _).1 (untrackedFaults_eq_nil_iff.1 huntracked s hs hfree)
  · rintro ⟨spans, rings, hrow, hseparated, hindexed⟩
    obtain ⟨hprologue, hpaved⟩ := row_and_separated_iff.1 ⟨hrow, hseparated⟩
    obtain ⟨hsound, hheld, hcount⟩ := (indexed_iff hrow).1 hindexed
    obtain ⟨met, hmet, hmem⟩ := tour_of_soundRings hrow hsound
    rw [hpaved.walk_eq hm]
    simp only [hmet, length_freeEntries]
    refine ⟨⟨⟨⟨hprologue, trivial⟩, trivial⟩, ?_⟩, hcount⟩
    exact untrackedFaults_eq_nil_iff.2 fun s hs hfree => (hmem _).2 (hheld s hs hfree)

end Audit

namespace Heap

open Audit

variable {R : Type} [Region R] {h : Heap R} {prologue : Nat}

/-- What an audit of a heap that is laid out answers. -/
theorem audit_eq_ok (hprologue : h.prologue = some prologue) (hlt : prologue + pairSize < wordCount)
    (hbase : h.base ≤ Region.size h.region) :
    h.audit = .ok
      (let found := walk h.memory (prologue + pairSize) false
      let freeBlocks := found.blocks.filter (!·.header.allocated)
      { blocks := found.blocks
        allocatedBlocks := found.blocks.countP (·.header.allocated)
        freeBlocks := freeBlocks.length
        freeBytes := (freeBlocks.map (·.header.size)).sum
        heapSize := Region.size h.region - h.base
        endOfHeap := found.endOfHeap
        violations := faults h.lists h.memory prologue }) := by
  have hsize : h.heapSize = .ok (Region.size h.region - h.base) := by
    rw [heapSize, isInitialized, hprologue]
    exact Word.sub_of_le hbase
  simp only [audit, hprologue, hsize, Word.add_of_lt hlt, bind, Except.bind]
  rfl

/-- An audit finds nothing wrong exactly if the heap is a row of blocks, no two
free ones next to one another, with exactly the free ones in the rings of their
sizes, whatever its bytes and its lists are. -/
theorem audit_violations_eq_nil_iff (hprologue : h.prologue = some prologue)
    (hlt : prologue + pairSize < wordCount) (hbase : h.base ≤ Region.size h.region)
    (hm : h.memory.size < wordCount) :
    ∃ report, h.audit = .ok report ∧
      (report.violations = [] ↔
        ∃ spans rings, Consistent h.lists h.memory prologue spans rings) := by
  exact ⟨_, audit_eq_ok hprologue hlt hbase, faults_eq_nil_iff hm⟩

/-- A heap with an allocated block and a listed free one, and one of zeros, which has no
prologue where it should be. -/
theorem audit_violations_of_allocated :
    (∃ g report, (do init; allocate 20 : HeapM Arena Nat) (ofRegion {} { chunkSize := 128 }) =
        .ok 32 g ∧ g.audit = .ok report ∧ report.allocatedBlocks = 1 ∧ report.freeBlocks = 1 ∧
      report.violations = [] ∧ ∃ spans rings, Consistent g.lists g.memory 16 spans rings) ∧
    ∃ report, ({ ofRegion { memory := .zeros 64 } {} with prologue := some 16 } : Heap Arena).audit =
        .ok report ∧ report.violations ≠ [] := by
  constructor
  · have hrun : (match (do init; allocate 20 : HeapM Arena Nat)
          (ofRegion {} { chunkSize := 128 }) with
        | .ok p g => decide (p = 32 ∧ g.prologue = some 16 ∧ g.base = 0 ∧ g.memory.size = 160 ∧
            g.audit.toOption.map (fun report =>
              (report.allocatedBlocks, report.freeBlocks, report.violations)) = some (1, 1, []))
        | .error _ _ => false) = true := by
      decide +kernel
    split at hrun
    case h_1 p g hallocated =>
      obtain ⟨rfl, hprologue, hbase, hsize, hfigures⟩ := of_decide_eq_true hrun
      simp only [Option.map_eq_some_iff, Prod.mk.injEq] at hfigures
      obtain ⟨found, hfound, hallocatedBlocks, hfree, hnil⟩ := hfigures
      obtain ⟨report, haudit, hiff⟩ := audit_violations_eq_nil_iff hprologue (by decide)
        (hbase ▸ Nat.zero_le _) (hsize ▸ by decide)
      rw [haudit] at hfound
      obtain rfl : report = found := Option.some.inj hfound
      exact ⟨g, report, hallocated, haudit, hallocatedBlocks, hfree, hnil, hiff.1 hnil⟩
    case h_2 => cases hrun
  · obtain ⟨report, haudit, hiff⟩ := audit_violations_eq_nil_iff
      (h := ({ ofRegion { memory := .zeros 64 } {} with prologue := some 16 } : Heap Arena))
      rfl (by decide) (by decide) (by decide)
    refine ⟨report, haudit, ?_⟩
    intro hnil
    obtain ⟨spans, rings, hconsistent⟩ := hiff.1 hnil
    have hheader : header (.zeros 64) 16 = .ok ⟨0, false⟩ := by decide
    have htag := hheader.symm.trans hconsistent.row.prologue_tagged.1
    simp [prologueSpan, Span.tag] at htag

end Heap
end SegregatedFit
