-- SUMMARY: Allocating the size of a block that was just freed gives the same block, and restores the heap.
import SegregatedFit.Proofs.FreeLists.Selection
import SegregatedFit.Proofs.FreeLists.Words
import SegregatedFit.Proofs.Heap.Readings
import SegregatedFit.Proofs.Heap.Undoing

/-!
# Reusing a block

A block between two allocated ones is freed by other tags and a place in front of its
ring, and nothing else is written (`edited_of_freed`). If the next search begins in that
ring, it finds the block at once (`find?_of_head`), and takes it whole if the size is its
own. Then the rings are those from before, and so are their links; the tags are the same
words again. Only the links of the block itself are gone (`Restores`). Main statement: `exists_restores`.
-/
namespace SegregatedFit

open Block FreeLists SegregatedFit.Action

namespace Block

variable {front back : List Span} {s : Span}

/-- A free block between two allocated ones is a run of its own. -/
theorem joined_freeRun_alone (hbelow : (tagBelow front).allocated = true)
    (habove : (tagAbove back).allocated = true) (hfree : s.isFree = true) :
    joined (freeRun front s back) = s := by
  obtain ⟨offset, size, allocated⟩ := s
  obtain rfl : allocated = false := Span.isFree_iff.1 hfree
  rw [freeRun, (freeBelow_of_allocated hbelow).1, (freeAbove_of_allocated habove).1]
  simp [joined]

theorem merged_alone (hbelow : (tagBelow front).allocated = true)
    (habove : (tagAbove back).allocated = true) (hfree : s.isFree = true) :
    merged front s back = front ++ s :: back := by
  rw [merged, joined_freeRun_alone hbelow habove hfree, (freeBelow_of_allocated hbelow).2,
    (freeAbove_of_allocated habove).2]

theorem not_splits_self (s : Span) : ¬ Splits s s.size := by
  simp [Splits]

/-- A block is taken whole for its own size. -/
theorem taken_self (s : Span) : taken s s.size = { s with allocated := true } := by
  unfold taken
  split <;> rfl

end Block

namespace Heap

/-- `k` is `h` but for the log, and for the two words at `p`, which are zero in `k`. -/
structure Restores (h k : Heap Arena) (p : Nat) : Prop where
  config_eq : k.config = h.config
  prologue_eq : k.prologue = h.prologue
  base_eq : k.base = h.base
  lists_eq : k.lists = h.lists
  counters_eq : k.counters = h.counters
  limit_eq : k.region.limit = h.region.limit
  growCalls_eq : k.region.growCalls = h.region.growCalls
  size_eq : k.region.memory.size = h.region.memory.size
  cleared : ∀ i, p ≤ i → i < p + pairSize → k.region.memory.byteAt i = 0
  restored : ∀ i, i < p ∨ p + pairSize ≤ i → k.region.memory.byteAt i = h.region.memory.byteAt i

variable {h g : Heap Arena} {front back spans : List Span} {s : Span} {n size : Nat}
variable {rings : Bucket → List Nat}

theorem relisted_alone (rings : Bucket → List Nat) (hbelow : (tagBelow front).allocated = true)
    (habove : (tagAbove back).allocated = true) (hfree : s.isFree = true) :
    relisted rings front s back = pushed rings (.ofSize s.size) s.offset := by
  rw [relisted, joined_freeRun_alone hbelow habove hfree, unlisted,
    (freeBelow_of_allocated hbelow).1, (freeAbove_of_allocated habove).1]
  simp

/-! ## Freeing -/

/-- Freeing a block between two allocated ones writes its tags, and links. -/
theorem edited_of_freed (h' : h.Arranged (front ++ s :: back) rings) (hs : s.allocated = true)
    (hbelow : (tagBelow front).allocated = true) (habove : (tagAbove back).allocated = true)
    (hrun : free s.offset h = .ok () g) :
    h.region.memory.Edited g.region.memory fun i =>
      s.InTags i ∨ LinkBytes rings i ∨ (Link.block s.offset).Owns i := by
  obtain ⟨hin, hmerge⟩ := rewritten_of_freed h' hs hrun
  have hjoined : joined (freeRun front s.freed back) = s.freed :=
    joined_freeRun_alone hbelow habove rfl
  refine ((edited_tagged hin.fits).mono fun i => Or.inl).trans (hmerge.toEdited.mono fun i hi => ?_)
  rw [MergeBytes, hjoined] at hi
  rcases hi with hi | hi | hi
  · exact Or.inr (Or.inl hi)
  · exact Or.inl hi
  · exact Or.inr (Or.inr hi)

/-! ## Finding the block again -/

/-- A search that begins in the ring of a block that comes first in it finds that block. -/
theorem find?_of_head {rest : List Nat} (h' : h.Arranged spans rings) (hs : s ∈ spans)
    (hring : rings (.ofSize s.size) = s.offset :: rest) (hfit : size ≤ s.size)
    (hstart : Bucket.searchFrom size h.config.search = .ofSize s.size) :
    h.find? size = .ok (some s.offset) := by
  rw [h'.find?_eq, Except.ok.injEq, hstart, Bucket.findSome?_upFrom_eq_some_iff]
  refine ⟨_, Nat.le_refl _, ?_, fun c hle hlt => (Nat.not_lt.2 hle hlt).elim⟩
  have hfit' : size ≤ sizeAt h.region.memory s.offset := sizeAt_of_mem h'.row hs ▸ hfit
  simp [firstOf, hring, hfit']

/-! ## Taking it whole -/

/-- A block that is taken whole leaves its ring, with zeros for its links, and gets other
tags. Nothing else is written. -/
theorem edited_of_taken {k : Heap Arena} (h' : h.Arranged spans rings) (hs : s ∈ spans)
    (hfree : s.isFree = true)
    (hcarves : Carves h.lists h.region.memory k.region.memory s s.size) :
    (h.region.memory.Edited k.region.memory fun i => s.InTags i ∨ LinkBytes rings i) ∧
      ∀ i, (Link.block s.offset).Owns i → k.region.memory.byteAt i = 0 := by
  have hm := h'.memory_lt
  have hthreaded := h'.indexed.threaded h'.row fun _ ht => ht
  have hlisted : s.offset ∈ rings (.ofSize s.size) :=
    (h'.indexed.mem_iff _ _).2 ⟨s, hs, rfl, hfree, rfl⟩
  have hone : 1 ≤ h.lists.size := h'.indexed.size_eq ▸ List.countP_pos_iff.2 ⟨s, hs, hfree⟩
  obtain ⟨lists, m, hremove, hmemory⟩ := hcarves.whole (not_splits_self s)
  have hlinks := (hthreaded.rewritten_remove hm (h'.indexed.aligned h'.row fun _ ht => ht)
    hlisted hone hremove).toEdited
  have hin : (taken s s.size).Inside m := by
    have hinside := (h'.row.inside hm hs).of_size_eq hlinks.size_eq
    rw [taken_self]
    exact ⟨hinside.start_le, hinside.pair_le, hinside.stop_le, hinside.size_lt⟩
  have htags : m.Edited k.region.memory s.InTags := by
    have hedit := edited_tagged hin.fits
    rw [← hmemory] at hedit
    rwa [taken_self] at hedit
  refine ⟨(hlinks.mono fun i => Or.inr).trans (htags.mono fun i => Or.inl), fun i hi => ?_⟩
  have hpayload := inPayload_of_owns (h'.row.bounds hs).2.1 hi
  rw [htags.byteAt_eq i (Span.not_inTags_of_inPayload hpayload)]
  exact hthreaded.cleared_removed hm hlisted hone hremove hi

/-- A block that was put in front of its ring and then taken whole is not missed there. -/
theorem carvedRings_pushed {lists : FreeLists} {m : Memory} {row : List Span}
    (hindexed : lists.Indexed m row (pushed rings (.ofSize s.size) s.offset)) :
    carvedRings (pushed rings (.ofSize s.size) s.offset) s s.size = rings := by
  have hnew : ∀ b, ∀ p ∈ [s.offset], p ∉ rings b := by
    intro b p hp
    obtain rfl := List.mem_singleton.1 hp
    exact hindexed.not_mem_of_pushed b
  rw [carvedRings, if_neg (not_splits_self s), dropped_pushed _ _ List.mem_cons_self,
    dropped_of_not_mem hnew]

/-! ## Both -/

/-- Where no more than the tags of a block and links were written, stamping the block as it
was and going back to the rings from before brings all other bytes back. -/
theorem byteAt_restored {k : Heap Arena} (h' : h.Arranged spans rings)
    (k' : k.Arranged spans rings) (hs : s ∈ spans) (hstamped : s.Stamped h.region.memory)
    (hstamped' : s.Stamped k.region.memory)
    (hedit : h.region.memory.Edited k.region.memory fun i =>
      s.InTags i ∨ LinkBytes rings i ∨ (Link.block s.offset).Owns i)
    {i : Nat} (hi : ¬ (Link.block s.offset).Owns i) :
    k.region.memory.byteAt i = h.region.memory.byteAt i := by
  by_cases htags : s.InTags i
  · exact hstamped.byteAt_eq hstamped' (h'.row.inside h'.memory_lt hs).fits htags
  by_cases hlinks : LinkBytes rings i
  · exact (h'.indexed.threaded h'.row fun _ ht => ht).byteAt_eq
      (k'.indexed.threaded k'.row fun _ ht => ht) h'.memory_lt k'.memory_lt hlinks
  · refine hedit.byteAt_eq i ?_
    rintro (htags' | hlinks' | howns)
    · exact htags htags'
    · exact hlinks hlinks'
    · exact hi howns

/-- The blocks decide the counts of the allocated ones. -/
theorem counters_eq_of_count {counters counters' : Counters} (hcount : counters.Count spans)
    (hcount' : counters'.Count spans) (hextend : counters'.extendCalls = counters.extendCalls)
    (hmoves : counters'.resizeMoves = counters.resizeMoves)
    (hinPlace : counters'.resizeInPlace = counters.resizeInPlace) : counters' = counters := by
  obtain ⟨hblocks, hbytes⟩ := hcount
  obtain ⟨hblocks', hbytes'⟩ := hcount'
  cases counters
  cases counters'
  simp_all

/-- A block between two allocated ones can be freed, and the next allocation for its own
size takes it again, if the search begins in its ring. Then all is as before but for the
links of the block, and the log. -/
theorem exists_restores (h' : h.Arranged (front ++ s :: back) rings) (hs : s.allocated = true)
    (hstamped : s.Stamped h.region.memory) (hbelow : (tagBelow front).allocated = true)
    (habove : (tagAbove back).allocated = true) (hn : n ≠ 0) (hsize : sizeFor n = some s.size)
    (hstart : Bucket.searchFrom s.size h.config.search = .ofSize s.size) :
    ∃ g k, free s.offset h = .ok () g ∧ allocate n g = .ok s.offset k ∧
      h.Restores k s.offset := by
  obtain ⟨g, hfree, hfrees⟩ := free_middle h' hs
  have g' : g.Arranged (front ++ s.freed :: back) (pushed rings (.ofSize s.size) s.offset) := by
    have hmerged := hfrees.arranged
    rwa [merged_alone hbelow habove rfl, relisted_alone rings hbelow habove rfl] at hmerged
  have hmem : s.freed ∈ front ++ s.freed :: back := List.mem_append_right _ List.mem_cons_self
  have hfind : g.find? s.size = .ok (some s.freed.offset) :=
    find?_of_head g' hmem (pushed_self ..) (Nat.le_refl _) (hfrees.config_eq ▸ hstart)
  obtain ⟨k, hrun, htakes, -, hcarves, -⟩ := allocate_of_readied g' hn hsize
    (findOrGrow_of_found hfind) (readied_of_found g' hfind (Nat.le_refl _))
  have htaken : taken s.freed s.size = s :=
    (taken_self s.freed).trans (congrArg (Span.mk s.offset s.size) hs.symm)
  have k' : k.Arranged (front ++ s :: back) rings := by
    have hcarved := htakes.arranged
    have hleft : leftover s.freed s.size = [] := if_neg (not_splits_self s.freed)
    have hrings : carvedRings (pushed rings (.ofSize s.size) s.offset) s.freed s.size = rings :=
      carvedRings_pushed (s := s.freed) g'.indexed
    rw [htaken, hleft, hrings] at hcarved
    simpa using hcarved
  have hs' : s ∈ front ++ s :: back := List.mem_append_right _ List.mem_cons_self
  obtain ⟨htakenEdit, hcleared⟩ := edited_of_taken g' hmem rfl hcarves
  have hedit := (edited_of_freed h' hs hbelow habove hfree).trans
    (htakenEdit.mono fun i hi => hi.imp_right linkBytes_of_pushed)
  have hbase : k.base = h.base := htakes.base_eq.trans hfrees.base_eq
  refine ⟨g, k, hfree, hrun, ?_⟩
  exact {
    config_eq := htakes.config_eq.trans hfrees.config_eq
    prologue_eq := by rw [k'.prologue_eq, h'.prologue_eq, hbase]
    base_eq := hbase
    lists_eq := h'.indexed.lists_eq k'.indexed
    counters_eq := by
      refine counters_eq_of_count h'.count k'.count ?_ ?_ ?_ <;>
        rw [htakes.counters_eq, hfrees.counters_eq] <;> rfl
    limit_eq := htakes.limit_eq.trans hfrees.limit_eq
    growCalls_eq := htakes.growCalls_eq.trans hfrees.growCalls_eq
    size_eq := hedit.size_eq
    cleared := fun i hlow hhigh => hcleared i ⟨hlow, hhigh⟩
    restored := fun i hout => byteAt_restored h' k' hs' hstamped (htaken ▸ hcarves.stamped) hedit
      fun howns => by
        simp only [Link.Owns] at howns
        omega }

end Heap
end SegregatedFit
