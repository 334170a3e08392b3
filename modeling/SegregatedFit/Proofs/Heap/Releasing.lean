-- SUMMARY: What freeing a block makes of a heap.
import SegregatedFit.Proofs.Heap.Coalescing
import SegregatedFit.Proofs.Heap.Pointers

/-!
# Releasing

Freeing an allocated block always succeeds: the block is marked free and merged
(`release_apply`), and all else is kept (`Frees`). A pointer that is not taken for
a block is refused, with no effect but in the log (`free_of_refused`).
-/
namespace SegregatedFit

open Block FreeLists

/-- The counters with one allocated block less. -/
def Counters.removed (counters : Counters) (bytes : Nat) : Counters :=
  { counters with
    allocatedBlocks := counters.allocatedBlocks - 1
    allocatedBytes := counters.allocatedBytes - bytes }

/-- The block, marked free. -/
def Block.Span.freed (s : Span) : Span := { s with allocated := false }

theorem Counters.Count.removed {counters : Counters} {front back : List Span} {s : Span}
    (h : counters.Count (front ++ s :: back)) (hs : s.allocated = true) :
    (counters.removed s.size).Count (merged front s.freed back) := by
  have hheld : held (front ++ s :: back) = held front ++ s :: held back := by
    rw [held_append, held_cons_allocated hs]
  have hheld' : held (merged front s.freed back) = held front ++ held back :=
    held_merged front s.freed back
  constructor
  · rw [Counters.removed, h.blocks_eq, hheld, hheld']
    simp
  · rw [Counters.removed, h.bytes_eq, hheld, hheld']
    simp
    omega

namespace Heap

variable {h : Heap Arena} {front back spans : List Span} {s : Span} {ptr : Nat}
variable {rings : Bucket → List Nat}

/-! ## Freeing -/

/-- Counting one of the allocated blocks less. -/
theorem countRemoved_apply (hcount : h.counters.Count (front ++ s :: back))
    (hs : s.allocated = true) :
    count (fun c => return { c with
      allocatedBlocks := ← Word.sub c.allocatedBlocks 1
      allocatedBytes := ← Word.sub c.allocatedBytes s.size }) h =
      .ok () (h.withCounters (h.counters.removed s.size)) := by
  have hheld : held (front ++ s :: back) = held front ++ s :: held back := by
    rw [held_append, held_cons_allocated hs]
  have hblocks : Word.sub h.counters.allocatedBlocks 1 = .ok (h.counters.allocatedBlocks - 1) := by
    apply Word.sub_of_le
    rw [hcount.blocks_eq, hheld, List.length_append, List.length_cons]
    omega
  have hbytes : Word.sub h.counters.allocatedBytes s.size =
      .ok (h.counters.allocatedBytes - s.size) := by
    apply Word.sub_of_le
    rw [hcount.bytes_eq, hheld]
    simp only [List.map_append, List.map_cons, List.sum_append, List.sum_cons]
    omega
  apply count_apply
  rw [hblocks, hbytes]
  rfl

/-- An allocated block is not listed. -/
theorem Arranged.indexed_others (h' : h.Arranged (front ++ s :: back) rings)
    (hs : s.allocated = true) : h.lists.Indexed h.region.memory (front ++ back) rings :=
  (indexed_cons_allocated hs).1 (h'.indexed.perm List.perm_middle)

/-- Marking a block free and merging it always succeeds. After the tags of the block
no more is written than merging needs. -/
theorem release_apply (h' : h.Arranged (front ++ s :: back) rings) (hs : s.allocated = true) :
    ∃ lists m,
      release s.offset s.size h =
        .ok () ((((h.withLists lists m).withCounters (h.counters.removed s.size)).logged
          (.coalesced (mergeKind front back) (joined (freeRun front s.freed back)).offset
            (joined (freeRun front s.freed back)).size)).logged
          (.freed s.offset s.size (joined (freeRun front s.freed back)).offset)) ∧
      Arranged ((h.withLists lists m).withCounters (h.counters.removed s.size))
        (merged front s.freed back) (relisted rings front s.freed back) ∧
      m.size = h.region.memory.size ∧ h.region.memory.Kept m (HeldBytes (front ++ back)) ∧
      s.freed.Inside h.region.memory ∧
      (tagged h.region.memory s.freed).Rewritten m (MergeBytes rings front s.freed back) [] := by
  have hm := h'.memory_lt
  obtain ⟨hin, hedit, hrow⟩ := h'.row.mark hm false
  obtain ⟨hfront, hback, -⟩ := separated_middle.1 h'.consistent.separated
  have hindexed : h.lists.Indexed (tagged h.region.memory s.freed) (front ++ back) rings :=
    (h'.indexed_others hs).edited_block h'.row hm hedit
  have hwrite : write (writeTags s.offset ⟨s.size, false⟩) h =
      .ok () (h.withLists h.lists (tagged h.region.memory s.freed)) := by
    have hrun := writeTags_apply hin.fits
    exact write_of_ok hrun
  have hcount := countRemoved_apply
    (h := h.withLists h.lists (tagged h.region.memory s.freed)) h'.count hs
  obtain ⟨lists, m, hmerge, hconsistent, hedit'⟩ :=
    coalesce_apply (h := (h.withLists h.lists (tagged h.region.memory s.freed)).withCounters
      (h.counters.removed s.size)) (s := s.freed) hrow ((size_tagged _ _).symm ▸ hm) hindexed
      hfront hback
  have hsize : m.size = h.region.memory.size := hedit'.size_eq.trans hedit.size_eq
  have harranged : Arranged ((h.withLists lists m).withCounters (h.counters.removed s.size))
      (merged front s.freed back) (relisted rings front s.freed back) :=
    h'.updated hsize hconsistent (h'.count.removed hs) rfl
  have hmerge' : coalesce s.offset ((h.withLists h.lists (tagged h.region.memory
      s.freed)).withCounters (h.counters.removed s.size)) =
      .ok (joined (freeRun front s.freed back)).offset
        (logged ((h.withLists lists m).withCounters (h.counters.removed s.size))
          (.coalesced (mergeKind front back) (joined (freeRun front s.freed back)).offset
            (joined (freeRun front s.freed back)).size)) := hmerge
  refine ⟨lists, m, ?_, harranged, hsize, ⟨Nat.le_of_eq hsize.symm, ?_⟩, hin, hedit'⟩
  · simp only [release, Action.bind_apply, hwrite, hcount, withLists_counters, hmerge',
      (harranged.logged _).logEvent]
  · intro i hi
    obtain ⟨t, ht, hti⟩ := hi
    have ht' : t ∈ held (front ++ s.freed :: back) := by
      rw [held_append] at ht
      rw [held_append, held_cons_free (show s.freed.isFree = true from rfl)]
      exact ht
    have hout := hrow.not_freeBytes ht' hti
    rw [hedit'.byteAt_eq i fun hi => hout (freeBytes_of_mergeBytes hindexed hrow rfl hi)]
    have hmem : s.freed ∈ front ++ s.freed :: back :=
      List.mem_append_right _ List.mem_cons_self
    exact hedit.byteAt_eq i fun hsi => hout ⟨s.freed, hmem, rfl, hsi⟩

theorem free_null (hbase : h.isInitialized = true → h.base ≤ h.region.memory.size) :
    free nullPtr h = .ok () (h.logged .freedNull) := by
  simp only [free, if_true]
  exact logEvent_apply hbase _

/-- A pointer that is not taken for a block is refused and has no effect. -/
theorem free_of_refused {cause : HeapError}
    (hbase : h.isInitialized = true → h.base ≤ h.region.memory.size) (hptr : ptr ≠ nullPtr)
    (hblock : h.blockAt ptr = .error cause) :
    free ptr h = .error (.refused cause) (h.logged (.freeRefused ptr cause)) := by
  have hlog := logEvent_apply hbase (.freeRefused ptr cause)
  simp only [free, if_neg hptr, Action.bind_apply, Action.get_apply, hblock, hlog,
    Action.refuse_apply]

theorem ne_null_of_held (h' : h.Arranged spans rings) (hs : s ∈ held spans) :
    s.offset ≠ nullPtr := by
  have hbounds := (h'.row.bounds (mem_held.1 hs).1).1
  simp only [pairSize, nullPtr] at *
  omega

/-- Freeing a block is releasing it. -/
theorem free_eq_release (h' : h.Arranged spans rings) (hs : s ∈ held spans) :
    free s.offset h = release s.offset s.size h := by
  simp only [free, if_neg (ne_null_of_held h' hs), Action.bind_apply, Action.get_apply,
    blockAt_of_held h' hs, Span.tag]

/-- `g` is `h` after the block `s` between `front` and `back` was freed. -/
structure Frees (h g : Heap Arena) (front : List Span) (s : Span) (back : List Span)
    (rings : Bucket → List Nat) : Prop where
  config_eq : g.config = h.config
  base_eq : g.base = h.base
  limit_eq : g.region.limit = h.region.limit
  growCalls_eq : g.region.growCalls = h.region.growCalls
  size_eq : g.region.memory.size = h.region.memory.size
  counters_eq : g.counters = h.counters.removed s.size
  arranged : g.Arranged (merged front s.freed back) (relisted rings front s.freed back)
  /-- The allocated blocks that are left keep their bytes. -/
  kept : h.region.memory.Kept g.region.memory (HeldBytes (front ++ back))

/-- Freeing an allocated block merges it with the free blocks next to it. -/
theorem free_middle (h' : h.Arranged (front ++ s :: back) rings) (hs : s.allocated = true) :
    ∃ g, free s.offset h = .ok () g ∧ h.Frees g front s back rings := by
  have hheld : s ∈ held (front ++ s :: back) :=
    mem_held.2 ⟨List.mem_append_right _ List.mem_cons_self, hs⟩
  obtain ⟨lists, m, hrun, harranged, hsize, hkept, -⟩ := release_apply h' hs
  refine ⟨_, (free_eq_release h' hheld).trans hrun, ?_⟩
  exact {
    config_eq := rfl
    base_eq := rfl
    limit_eq := rfl
    growCalls_eq := rfl
    size_eq := hsize
    counters_eq := rfl
    arranged := (harranged.logged _).logged _
    kept := hkept }

/-- Freeing a block writes its tags, and then no more than merging needs. -/
theorem rewritten_of_freed {g : Heap Arena} (h' : h.Arranged (front ++ s :: back) rings)
    (hs : s.allocated = true) (hrun : free s.offset h = .ok () g) :
    s.freed.Inside h.region.memory ∧ (tagged h.region.memory s.freed).Rewritten g.region.memory
      (MergeBytes rings front s.freed back) [] := by
  have hheld : s ∈ held (front ++ s :: back) :=
    mem_held.2 ⟨List.mem_append_right _ List.mem_cons_self, hs⟩
  obtain ⟨lists, m, hrelease, -, -, -, hin, hmerge⟩ := release_apply h' hs
  rw [free_eq_release h' hheld, hrelease] at hrun
  cases hrun
  exact ⟨hin, hmerge⟩

/-- That a block was freed is logged last. -/
theorem exists_concludes_of_freed {g : Heap Arena} (h' : h.Arranged spans rings)
    (hs : s ∈ held spans) (hrun : free s.offset h = .ok () g) :
    ∃ merged, h.Concludes g (.freed s.offset s.size merged) := by
  rw [free_eq_release h' hs] at hrun
  obtain ⟨front, back, rfl, halloc⟩ := exists_middle_of_held hs
  obtain ⟨lists, m, hrelease, -⟩ := release_apply h' halloc
  rw [hrelease] at hrun
  cases hrun
  exact ⟨_, _, Log.quiet_record (by simp [Event.books_iff]) _ _, rfl⟩

/-- From the allocated blocks freeing takes away the one that is freed. -/
theorem Frees.exchanged {g : Heap Arena} (hfrees : h.Frees g front s back rings)
    (hs : s.allocated = true) :
    h.Exchanged g (front ++ s :: back) (merged front s.freed back) [s] [] := by
  have hheld : held (merged front s.freed back) = held front ++ held back :=
    held_merged front s.freed back
  refine ⟨hfrees.config_eq, ⟨_, hfrees.arranged⟩, ?_, ?_⟩
  · rw [hheld, held_append, held_cons_allocated hs]
    change (s :: (held front ++ held back)).Perm (held front ++ s :: held back)
    exact List.perm_middle.symm
  · intro u _ hu i hi
    exact hfrees.kept.byteAt_eq i ⟨u, by rwa [held_append, ← hheld], hi⟩

/-- Freeing an allocated block takes it away and nothing else. -/
theorem free_of_held (h' : h.Arranged spans rings) (hs : s ∈ held spans) :
    ∃ g spans', free s.offset h = .ok () g ∧ h.Exchanged g spans spans' [s] [] := by
  obtain ⟨front, back, rfl, halloc⟩ := exists_middle_of_held hs
  obtain ⟨g, hrun, hfrees⟩ := free_middle h' halloc
  exact ⟨g, _, hrun, hfrees.exchanged halloc⟩

end Heap
end SegregatedFit
