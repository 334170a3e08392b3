-- SUMMARY: What a heap finds around a pointer that was freed just before.
import SegregatedFit.Proofs.Heap.Figures
import SegregatedFit.Proofs.Heap.Releasing

/-!
# Freeing again

A block that was freed and not merged downwards begins where the merged block begins,
which reads as a free one. If it was merged with a block below, its own header is still
in the payload of the merged block. Its footer is there as well if it was also merged
with a block above. If it was not, the footer is that of the merged block, whose size is
another one. Main statement: `blockAt_freed`, how the pointer is refused in each case.
-/
namespace SegregatedFit.Heap

open Block FreeLists

variable {h g : Heap Arena} {m : Memory} {prologue : Nat} {front back : List Span} {t : Span}
variable {rings : Bucket → List Nat}

/-- How far the merged block reaches beyond the one that became free. -/
theorem extent_joined (hrow : Row m prologue (front ++ t :: back)) :
    (joined (freeRun front t back)).offset + bytes (freeBelow front) = t.offset ∧
      t.stop + bytes (freeAbove back) = (joined (freeRun front t back)).stop := by
  have htiles := hrow.tiles
  rw [middle_eq_freeRun] at htiles
  obtain ⟨stop, hfirst, -⟩ := tiles_append.1 htiles
  obtain ⟨start, -, hrun⟩ := tiles_append.1 hfirst
  obtain ⟨rfl, rfl⟩ := tiles_joined hrun (freeRun_ne_nil front t back)
  obtain ⟨mid, hbelow, hoff, habove⟩ := tiles_append.1 hrun
  exact ⟨hbelow.sum_size.trans hoff.symm, habove.sum_size⟩

/-- Blocks that are there take some bytes. -/
theorem minBlock_le_bytes {spans : List Span} (hne : spans ≠ [])
    (hmin : ∀ s ∈ spans, minBlock ≤ s.size) : minBlock ≤ bytes spans := by
  obtain ⟨s, rest, rfl⟩ := List.exists_cons_of_ne_nil hne
  have hs := hmin s List.mem_cons_self
  rw [bytes, List.map_cons, List.sum_cons]
  exact Nat.le_add_right_of_le hs

/-- Merging leaves alone what lies in the middle of the run and in the block itself. -/
theorem not_mergeBytes {lists : FreeLists} {m' : Memory}
    (hindexed : lists.Indexed m' (front ++ back) rings)
    (hrow : Row m prologue (front ++ t :: back)) {i : Nat} (hi : t.Covers i)
    (hlow : (joined (freeRun front t back)).offset + pairSize ≤ i)
    (hhigh : i + pairSize < (joined (freeRun front t back)).stop) :
    ¬ MergeBytes rings front t back i := by
  have hperm : (front ++ t :: back).Perm (t :: (front ++ back)) := List.perm_middle
  have hsub : ∀ u ∈ front ++ back, u ∈ front ++ t :: back :=
    fun u hu => hperm.mem_iff.2 (List.mem_cons_of_mem t hu)
  rintro (hlinks | htags | howns)
  · obtain ⟨u, hu, -, hui⟩ := hindexed.freePayload (fun u hu => (hrow.bounds (hsub u hu)).2.1) hlinks
    have hnodup := List.nodup_cons.1 (hperm.nodup_iff.1 hrow.nodup)
    have heq := hrow.eq_of_covers (by simp) (hsub u hu) hi (.of_inPayload hui)
    exact hnodup.1 (heq ▸ hu)
  · simp only [Span.InTags, wordSize, pairSize] at *
    omega
  · simp only [Link.Owns, pairSize] at *
    omega

/-! ## The tags of a block that was freed -/

/-- The row right after the tags of a block were written, before it is merged. -/
theorem row_freed (h' : h.Arranged (front ++ t :: back) rings) :
    Row (tagged h.region.memory t.freed) (h.base + pairSize) (front ++ t.freed :: back) :=
  (h'.row.mark h'.memory_lt false).2.2

theorem minBlock_le_freeBelow (h' : h.Arranged (front ++ t :: back) rings)
    (hbelow : freeBelow front ≠ []) : minBlock ≤ bytes (freeBelow front) :=
  minBlock_le_bytes hbelow fun _ hu =>
    (h'.row.bounds (List.mem_append_left _ ((List.rtakeWhile_suffix _ _).subset hu))).2.1

theorem minBlock_le_freeAbove (h' : h.Arranged (front ++ t :: back) rings)
    (habove : freeAbove back ≠ []) : minBlock ≤ bytes (freeAbove back) :=
  minBlock_le_bytes habove fun _ hu => (h'.row.bounds (List.mem_append_right _
    (List.mem_cons_of_mem t ((List.takeWhile_prefix _).subset hu)))).2.1

/-- The two words of a block that became free, before it is merged. -/
theorem readTag_freed (h' : h.Arranged (front ++ t :: back) rings) :
    readTag (tagged h.region.memory t.freed) (t.offset - wordSize) = .ok ⟨t.size, false⟩ ∧
      readTag (tagged h.region.memory t.freed) (t.stop - pairSize) = .ok ⟨t.size, false⟩ := by
  have hrow := row_freed h'
  have hm : (tagged h.region.memory t.freed).size < wordCount := by
    rw [size_tagged]
    exact h'.memory_lt
  exact (taggedIn_iff (hrow.inside hm (by simp)).fits).1 (hrow.tagged t.freed (by simp))

/-- A tag of the block that is not at an end of the run is still there after merging. -/
theorem readTag_kept (h' : h.Arranged (front ++ t :: back) rings) (halloc : t.allocated = true)
    (hrun : free t.offset h = .ok () g) {off : Nat}
    (hcovers : ∀ i, off ≤ i → i < off + wordSize → t.Covers i)
    (hlow : (joined (freeRun front t.freed back)).offset + pairSize ≤ off)
    (hhigh : off + wordSize + pairSize ≤ (joined (freeRun front t.freed back)).stop) :
    readTag g.region.memory off = readTag (tagged h.region.memory t.freed) off := by
  refine readTag_edited (rewritten_of_freed h' halloc hrun).2.toEdited fun i hi hlt => ?_
  exact not_mergeBytes (h'.indexed_others halloc) (row_freed h') (hcovers i hi hlt) (by omega)
    (by omega)

/-- The header of a block that was merged downwards is where it was. -/
theorem header_freed (h' : h.Arranged (front ++ t :: back) rings) (halloc : t.allocated = true)
    (hrun : free t.offset h = .ok () g) (hbelow : freeBelow front ≠ []) :
    readTag g.region.memory (t.offset - wordSize) = .ok ⟨t.size, false⟩ := by
  obtain ⟨hfirst, hlast⟩ := extent_joined (row_freed h')
  have hsmall := minBlock_le_freeBelow h' hbelow
  obtain ⟨hlow, hmin, -⟩ := h'.row.bounds (s := t) (by simp)
  refine (readTag_kept h' halloc hrun ?_ ?_ ?_).trans (readTag_freed h').1
  all_goals
    simp only [Span.freed, Span.Covers, Span.stop, wordSize, pairSize, minBlock] at *
    omega

/-- The footer of a block that was merged with both its neighbours is where it was. -/
theorem footer_freed (h' : h.Arranged (front ++ t :: back) rings) (halloc : t.allocated = true)
    (hrun : free t.offset h = .ok () g) (hbelow : freeBelow front ≠ [])
    (habove : freeAbove back ≠ []) :
    readTag g.region.memory (t.offset + t.size - pairSize) = .ok ⟨t.size, false⟩ := by
  obtain ⟨hfirst, hlast⟩ := extent_joined (row_freed h')
  have hsmall := minBlock_le_freeBelow h' hbelow
  have hsmall' := minBlock_le_freeAbove h' habove
  obtain ⟨hlow, hmin, -⟩ := h'.row.bounds (s := t) (by simp)
  refine (readTag_kept h' halloc hrun ?_ ?_ ?_).trans (readTag_freed h').2
  all_goals
    simp only [Span.freed, Span.Covers, Span.stop, wordSize, pairSize, minBlock] at *
    omega

/-- Why a pointer is refused that was freed just before, by what its block was merged
with. -/
def secondCause (below above : List Span) (ptr : Nat) : HeapError :=
  if below ≠ [] ∧ above = [] then .invalidPointer ptr else .doubleFree ptr

/-- A pointer that was freed just before is taken for no block: it is refused as already
free, or as no pointer to a block if its own was merged downwards only. -/
theorem blockAt_freed (h' : h.Arranged (front ++ t :: back) rings) (halloc : t.allocated = true)
    (hrun : free t.offset h = .ok () g) :
    g.blockAt t.offset = .error (secondCause (freeBelow front) (freeAbove back) t.offset) := by
  obtain ⟨k, hrun', hfrees⟩ := free_middle h' halloc
  obtain ⟨-, rfl⟩ := EStateM.Result.ok.inj (hrun'.symm.trans hrun)
  obtain ⟨run, hjoined⟩ : ∃ run, run = joined (freeRun front t.freed back) := ⟨_, rfl⟩
  have g' := hfrees.arranged
  have hmem : run ∈ merged front t.freed back := by simp [hjoined, merged]
  have htag : run.tag = ⟨run.size, false⟩ := hjoined ▸ tag_joined _
  obtain ⟨hheader, hfooter⟩ :=
    (taggedIn_iff (g'.row.inside g'.memory_lt hmem).fits).1 (g'.row.tagged run hmem)
  rw [htag] at hheader hfooter
  obtain ⟨hfirst, hlast⟩ := extent_joined (row_freed h')
  rw [← hjoined] at hfirst hlast
  obtain ⟨hdvd, -, -⟩ := h'.row.proper t (by simp)
  obtain ⟨hlow, hmin, hstop⟩ := h'.row.bounds (s := t) (by simp)
  obtain ⟨-, hmin', hstop'⟩ := g'.row.bounds hmem
  have hlow' : k.base + pairSize < t.offset := by
    rw [hfrees.base_eq]
    simp only [pairSize] at *
    omega
  have hin : t.offset + t.size ≤ k.region.memory.size := hfrees.size_eq.symm ▸ hstop
  simp only [Span.freed, Span.stop] at hfirst hlast
  by_cases hbelow : freeBelow front = []
  · -- the merged block begins where the one began that was freed
    have hoff : t.offset = run.offset := by simpa [hbelow, bytes] using hfirst.symm
    rw [secondCause, if_neg fun hcase => hcase.1 hbelow]
    rw [hoff] at hdvd hlow' ⊢
    rw [blockAt_of_free_header g' hdvd hlow' hmin' hstop' hheader hfooter, if_pos rfl]
  · have hheader' := header_freed h' halloc hrun hbelow
    by_cases habove : freeAbove back = []
    · -- the footer is the one of the merged block, which is longer
      have hend : t.offset + t.size = run.offset + run.size := by simpa [habove, bytes] using hlast
      have hlonger : run.size ≠ t.size := by
        have hsmall := minBlock_le_freeBelow h' hbelow
        simp only [minBlock] at hsmall
        omega
      have hfooter' : readTag k.region.memory (t.offset + t.size - pairSize) =
          .ok ⟨run.size, false⟩ := by rw [hend]; exact hfooter
      rw [secondCause, if_pos ⟨hbelow, habove⟩,
        blockAt_of_free_header g' hdvd hlow' hmin hin hheader' hfooter', if_neg hlonger]
    · have hfooter' := footer_freed h' halloc hrun hbelow habove
      rw [secondCause, if_neg fun hcase => habove hcase.2,
        blockAt_of_free_header g' hdvd hlow' hmin hin hheader' hfooter', if_pos rfl]

end SegregatedFit.Heap
