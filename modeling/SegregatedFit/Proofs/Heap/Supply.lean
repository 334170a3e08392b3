-- SUMMARY: Where the block of an allocation comes from, and why there may be none.
import SegregatedFit.Proofs.FreeLists.FirstFit
import SegregatedFit.Proofs.Heap.Carving
import SegregatedFit.Proofs.Heap.Growth

/-!
# Supply

An allocation takes a block that the search finds. The search finds one exactly
if there is one in the buckets that it looks at (`find?_eq_none_iff`). Where there
is none, the heap grows by a chunk, and the block is the chunk with the free block
before it, if there is one (`Supplies`). `Denies` lists the reasons for which an
allocation is refused, of which no two hold at once (`Denies.unique`).
-/
namespace SegregatedFit.Heap

open Block FreeLists

/-- One of the buckets that a search for `size` bytes looks at holds a block of at
least that size. -/
def Offers (h : Heap Arena) (size : Nat) : Prop :=
  ∃ bucket blocks, Bucket.searchFrom size h.config.search ≤ bucket ∧
    h.lists.Ring h.region.memory bucket blocks ∧ ∃ bp ∈ blocks, size ≤ sizeAt h.region.memory bp

/-- The number of bytes by which the heap grows for a block of `size` bytes. -/
def chunkFor (h : Heap Arena) (size : Nat) : Nat := max size h.config.chunkSize

/-- The reasons for which an allocation of `n` bytes is refused. -/
inductive Denies (h : Heap Arena) (n : Nat) : HeapError → Prop
  | uninitialized : h.isInitialized = false → h.Denies n .uninitialized
  | nothing : h.isInitialized = true → n = 0 →
      h.Denies n (.invalidArgument "zero-size allocation")
  /-- No word holds the size of the block. -/
  | tooMuch : h.isInitialized = true → wordCount - minBlock < n → h.Denies n (.sizeOverflow n)
  /-- There is no block, and a chunk for it would pass the limit of the arena. -/
  | exhausted {size : Nat} : h.isInitialized = true → n ≠ 0 → n ≤ wordCount - minBlock →
      size = max (Word.roundUp (n + pairSize) pairSize) minBlock → ¬ h.Offers size →
      h.region.limit < h.region.memory.size + h.chunkFor size →
      h.Denies n (.arena (.exhausted (h.chunkFor size) h.region.memory.size h.region.limit))

/-- The blocks of a heap with `spans`, ready for an allocation of `size` bytes: the
block to be carved lies between `front` and `back`, after `growths` growths. -/
inductive Supplies (h : Heap Arena) (size : Nat) (spans : List Span) :
    (growths : Nat) → (front : List Span) → (block : Span) → (back : List Span) → Prop
  | found {front back : List Span} {block : Span} :
      h.find? size = .ok (some block.offset) → spans = front ++ block :: back →
      h.Supplies size spans 0 front block back
  /-- The chunk is added to the last block, which is free. -/
  | lengthened {front : List Span} {last : Span} :
      h.find? size = .ok none → spans = front ++ [last] → last.isFree = true →
      h.Supplies size spans 1 front ⟨last.offset, last.size + h.chunkFor size, false⟩ []
  /-- The chunk is the new last block. -/
  | added : h.find? size = .ok none → (tagBelow spans).allocated = true →
      h.Supplies size spans 1 spans ⟨h.region.memory.size, h.chunkFor size, false⟩ []

variable {h : Heap Arena} {front back spans : List Span} {s : Span} {n size growths : Nat}
variable {rings rings' : Bucket → List Nat}

/-! ## Searching -/

/-- The search through the rings of an arranged heap. -/
theorem Arranged.find?_eq (h' : h.Arranged spans rings) (size : Nat) :
    h.find? size =
      .ok ((Bucket.upFrom (Bucket.searchFrom size h.config.search)).findSome? fun bucket =>
        firstOf h.region.memory size (rings bucket)) :=
  h'.indexed.find?_eq h'.row (fun _ ht => ht) size h.config.search

/-- The search finds nothing only if there is nothing. -/
theorem Arranged.find?_eq_none_iff (h' : h.Arranged spans rings) :
    h.find? size = .ok none ↔ ¬ h.Offers size := by
  have hnone : ∀ bucket, firstOf h.region.memory size (rings bucket) = none ↔
      ∀ bp ∈ rings bucket, ¬ size ≤ sizeAt h.region.memory bp := by
    intro bucket
    simp only [firstOf, List.find?_eq_none, decide_eq_true_eq]
  rw [h'.find?_eq, Except.ok.injEq, List.findSome?_eq_none_iff]
  simp only [Bucket.mem_upFrom, hnone, Offers]
  constructor
  · rintro hall ⟨bucket, blocks, hfrom, hring, bp, hbp, hfit⟩
    obtain rfl := hring.unique (h'.indexed.ring bucket)
    exact hall bucket hfrom bp hbp hfit
  · intro hoffers bucket hfrom bp hbp hfit
    exact hoffers ⟨bucket, _, hfrom, h'.indexed.ring bucket, bp, hbp, hfit⟩

/-- What the search finds is a free block of the row that is large enough. -/
theorem Arranged.exists_of_find? {bp : Nat} (h' : h.Arranged spans rings)
    (hfind : h.find? size = .ok (some bp)) :
    ∃ front s back, spans = front ++ s :: back ∧ s.offset = bp ∧ s.isFree = true ∧
      size ≤ s.size := by
  obtain ⟨s, hs, hoff, hfree, hfit⟩ := h'.indexed.exists_of_find? h'.row (fun _ ht => ht) hfind
  obtain ⟨front, back, hsplit⟩ := List.append_of_mem hs
  exact ⟨front, s, back, hsplit, hoff, hfree, hfit⟩

/-! ## Supplies -/

/-- A supplied block is free. -/
theorem Supplies.isFree (hsupply : h.Supplies size spans growths front s back)
    (h' : h.Arranged spans rings) : s.isFree = true := by
  cases hsupply with
  | found hfind hsplit =>
    subst hsplit
    obtain ⟨t, ht, hoff, hfree, -⟩ := h'.indexed.exists_of_find? h'.row (fun _ ht => ht) hfind
    exact h'.row.eq_of_offset ht (by simp) hoff ▸ hfree
  | lengthened => rfl
  | added => rfl

/-- A supply leaves the allocated blocks as they are. -/
theorem Supplies.held_eq (hsupply : h.Supplies size spans growths front s back) :
    held (front ++ s :: back) = held spans := by
  cases hsupply with
  | found _ hsplit => rw [hsplit]
  | lengthened _ hsplit hfree =>
    rw [hsplit, held_append, held_append, held_cons_free hfree, held_cons_free rfl]
  | added =>
    rw [held_append, held_cons_free rfl]
    exact List.append_nil _

/-- The chunk of a growth, merged with the last block if that is free. -/
theorem Arranged.supplies_of_grown (h' : h.Arranged spans rings)
    (hfind : h.find? size = .ok none)
    (hs : s = ⟨h.region.memory.size, h.chunkFor size, false⟩) :
    h.Supplies size spans 1 (spans.rdropWhile Span.isFree) (joined (freeRun spans s [])) [] := by
  rcases freeBelow_cases h'.consistent.separated with
    hbelow | ⟨front, last, rfl, hlast, hrun, hdrop, -, -⟩
  · obtain ⟨hrun, hdrop⟩ := freeBelow_of_allocated hbelow
    have hjoined : joined (freeRun spans s []) =
        ⟨h.region.memory.size, h.chunkFor size, false⟩ := by
      simp [freeRun, hrun, freeAbove, joined, hs]
    rw [hjoined, hdrop]
    exact .added hfind hbelow
  · have hjoined : joined (freeRun (front ++ [last]) s []) =
        ⟨last.offset, last.size + h.chunkFor size, false⟩ := by
      simp [freeRun, hrun, freeAbove, joined, hs]
    rw [hjoined, hdrop]
    exact .lengthened hfind rfl hlast

/-- Up to the supplied block itself, growth leaves the rings as they are. -/
theorem dropped_relisted_nil (hseparated : Separated spans) :
    dropped (relisted rings spans s []) [(joined (freeRun spans s [])).offset] =
      dropped rings [(joined (freeRun spans s [])).offset] := by
  rw [relisted, dropped_pushed _ _ List.mem_cons_self, unlisted]
  rcases freeBelow_cases hseparated with hbelow | ⟨front, last, rfl, -, hrun, -, -, -⟩
  · simp [(freeBelow_of_allocated hbelow).1, freeAbove]
  · simp [freeRun, hrun, freeAbove, joined, dropped_idem]

/-- A carved block leaves its ring, so the rings count without it only. -/
theorem carvedRings_congr (hrings : dropped rings' [s.offset] = dropped rings [s.offset])
    (size : Nat) : carvedRings rings' s size = carvedRings rings s size := by
  simp only [carvedRings, hrings]

/-! ## Denials -/

/-- No two reasons hold at once. -/
theorem Denies.unique {cause cause' : HeapError} (hdenies : h.Denies n cause)
    (hdenies' : h.Denies n cause') : cause = cause' := by
  cases hdenies <;> cases hdenies' <;> simp_all <;> omega

end SegregatedFit.Heap
