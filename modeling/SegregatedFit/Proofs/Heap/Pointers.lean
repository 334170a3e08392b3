-- SUMMARY: Which pointers are taken for blocks: by the tags of allocated blocks, or by forged ones.
import SegregatedFit.Heap.Allocation
import SegregatedFit.Proofs.Heap.Arrangement

/-!
# Pointers

A heap takes a pointer for a block if the words around it read as the tags of an
allocated block (`Marked`). A pointer that is misaligned or outside the heap is
refused (`blockAt_foreign`), and that of an allocated block is taken for it
(`blockAt_of_held`). The heap cannot tell who wrote the words: payloads may hold
such words as well, and then a pointer between them is taken for a block that
does not exist (`Forged`). Main statement: `Marked.held_or_forged`, there is no
third way to be taken for a block.
-/
namespace SegregatedFit.Block

variable {m : Memory} {prologue ptr size : Nat} {spans : List Span}

/-- The words around `ptr` read as the tags of an allocated block of `size` bytes
inside the memory. Only the size of the footer counts. -/
structure Marked (m : Memory) (ptr size : Nat) : Prop where
  aligned : pairSize ∣ ptr
  header_eq : header m ptr = .ok ⟨size, true⟩
  footer_size : ∃ mark, readTag m (footerOffset ptr size) = .ok ⟨size, mark⟩
  min_le : minBlock ≤ size
  stop_le : ptr + size ≤ m.size

/-- Words that are taken for tags, although both are payload bytes of blocks. -/
structure Forged (m : Memory) (spans : List Span) (ptr size : Nat) : Prop where
  marked : Marked m ptr size
  header_in : ∃ t ∈ spans, ∀ i, ptr ≤ i + wordSize → i < ptr → t.InPayload i
  footer_in : ∃ t ∈ spans, ∀ i, ptr + size ≤ i + pairSize → i + wordSize < ptr + size →
    t.InPayload i

/-- Forged tags are those of a pointer behind the beginning of the row. -/
theorem Forged.prologue_lt (hforged : Forged m spans ptr size) (h : Row m prologue spans)
    (hptr : 0 < ptr) : prologue + pairSize < ptr := by
  obtain ⟨t, ht, hin⟩ := hforged.header_in
  have hstart := (h.bounds ht).1
  have hbyte := (hin (ptr - 1) (by simp only [wordSize]; omega) (by omega)).1
  omega

/-- Just below an aligned offset is the header of the block that begins there, or
payload. -/
theorem Row.header_or_payload (h : Row m prologue spans) (hlow : prologue + pairSize ≤ ptr)
    (hhigh : ptr < m.size) (hptr : pairSize ∣ ptr) :
    (∃ t ∈ spans, t.offset = ptr) ∨
      ∃ t ∈ spans, ∀ i, ptr ≤ i + wordSize → i < ptr → t.InPayload i := by
  obtain ⟨t, ht, hstart, hstop⟩ : ∃ t ∈ spans, t.Covers (ptr - wordSize) :=
    h.tiles.exists_covers (by simp only [wordSize, pairSize] at *; omega)
      (by simp only [wordSize, pairSize] at *; omega)
  obtain ⟨hdvd, hsize, -⟩ := h.proper t ht
  by_cases hoff : t.offset = ptr
  · exact Or.inl ⟨t, ht, hoff⟩
  · refine Or.inr ⟨t, ht, fun i hi hlt => ?_⟩
    simp only [Span.InPayload, Span.stop, wordSize, pairSize] at *
    omega

/-- Two words below an aligned offset is the footer of the block that ends there,
or payload. -/
theorem Row.footer_or_payload (h : Row m prologue spans) (stop : Nat)
    (hlow : prologue + pairSize < stop) (hhigh : stop ≤ m.size) (hprologue : pairSize ∣ prologue)
    (hstop : pairSize ∣ stop) :
    (∃ t ∈ spans, t.stop = stop) ∨
      ∃ t ∈ spans, ∀ i, stop ≤ i + pairSize → i + wordSize < stop → t.InPayload i := by
  obtain ⟨t, ht, hfirst, hlast⟩ : ∃ t ∈ spans, t.Covers (stop - pairSize) :=
    h.tiles.exists_covers (by simp only [wordSize, pairSize] at *; omega)
      (by simp only [wordSize, pairSize] at *; omega)
  obtain ⟨hdvd, hsize, -⟩ := h.proper t ht
  by_cases hend : t.stop = stop
  · exact Or.inl ⟨t, ht, hend⟩
  · refine Or.inr ⟨t, ht, fun i hi hlt => ?_⟩
    simp only [Span.InPayload, Span.stop, wordSize, pairSize] at *
    omega

/-- What is taken for a block of the row is an allocated one, or both its tags are
forged. -/
theorem Marked.held_or_forged (hmarked : Marked m ptr size) (h : Row m prologue spans)
    (hprologue : pairSize ∣ prologue) (hm : m.size < wordCount) (hlow : prologue < ptr) :
    (∃ t ∈ held spans, t.offset = ptr) ∨ Forged m spans ptr size := by
  obtain ⟨hptr, hheader, ⟨mark, hfooter⟩, hmin, hle⟩ := hmarked
  have hsize : pairSize ∣ size := by
    obtain ⟨-, htag⟩ := readTag_eq_ok_iff.1 hheader
    have hword : (Tag.decode _).size = size := congrArg Tag.size htag
    exact hword ▸ Tag.dvd_size_decode _
  have hstart : prologue + pairSize ≤ ptr := by
    simp only [pairSize] at *
    omega
  have hlt : ptr < m.size := by
    simp only [minBlock] at hmin
    omega
  -- a block that begins here has the header that was read
  have hbegins : ∀ t ∈ spans, t.offset = ptr → t ∈ held spans := by
    intro t ht hoff
    have htag := (h.tagged t ht).1
    rw [hoff, hheader] at htag
    exact mem_held.2 ⟨ht, (congrArg Tag.allocated (Except.ok.inj htag)).symm⟩
  rcases h.header_or_payload hstart hlt hptr with ⟨t, ht, hoff⟩ | hheaderIn
  · exact Or.inl ⟨t, hbegins t ht hoff, hoff⟩
  · rcases h.footer_or_payload (ptr + size) (by simp only [pairSize, minBlock] at *; omega) hle
      hprologue (Nat.dvd_add hptr hsize) with ⟨t, ht, hstop⟩ | hfooterIn
    · -- a block that ends here has the footer that was read, and so begins here as well
      have htag := ((taggedIn_iff (h.inside hm ht).fits).1 (h.tagged t ht)).2
      rw [footerOffset_of_le (by simp only [pairSize, minBlock] at *; omega) (by omega)] at hfooter
      rw [hstop, hfooter] at htag
      have hsizes : size = t.size := congrArg Tag.size (Except.ok.inj htag)
      have hoff : t.offset = ptr := by
        simp only [Span.stop] at hstop
        omega
      exact Or.inl ⟨t, hbegins t ht hoff, hoff⟩
    · exact Or.inr ⟨⟨hptr, hheader, ⟨mark, hfooter⟩, hmin, hle⟩, hheaderIn, hfooterIn⟩

end SegregatedFit.Block

namespace SegregatedFit.Heap

open Block

variable {h : Heap Arena} {spans : List Span} {rings : Bucket → List Nat} {s : Span}
variable {ptr size : Nat}

/-! ## Pointers that are refused -/

theorem blockAt_uninitialized (hprologue : h.prologue = none) (ptr : Nat) :
    h.blockAt ptr = .error .uninitialized := by
  simp only [blockAt, requirePrologue, hprologue, bind, Except.bind]

/-- The pointer is not aligned, or lies outside the blocks of the heap. -/
def Foreign (h : Heap Arena) (ptr : Nat) : Prop :=
  ptr % pairSize ≠ 0 ∨ (∀ prologue, h.prologue = some prologue → ptr ≤ prologue) ∨
    h.region.memory.size ≤ ptr

instance (h : Heap Arena) (ptr : Nat) : Decidable (h.Foreign ptr) :=
  inferInstanceAs (Decidable (_ ∨ (∀ prologue ∈ h.prologue, ptr ≤ prologue) ∨ _))

theorem blockAt_foreign (h' : h.Arranged spans rings) (hptr : h.Foreign ptr) :
    h.blockAt ptr = .error (.invalidPointer ptr) := by
  have hbad : ptr % pairSize ≠ 0 ∨ ptr ≤ h.base + pairSize ∨ h.memory.size ≤ ptr := by
    rcases hptr with hptr | hptr | hptr
    · exact Or.inl hptr
    · exact Or.inr (Or.inl (hptr _ h'.prologue_eq))
    · exact Or.inr (Or.inr hptr)
  simp only [blockAt, requirePrologue, h'.prologue_eq, bind, Except.bind, if_pos hbad]
  rfl

/-- A pointer is taken for a block if the words around it read so; else it is
refused as one that names no block, or a free one. -/
theorem blockAt_cases (h' : h.Arranged spans rings) (ptr : Nat) :
    (∃ size, Marked h.region.memory ptr size ∧ h.base + pairSize < ptr ∧
      h.blockAt ptr = .ok ⟨size, true⟩) ∨
    h.blockAt ptr = .error (.invalidPointer ptr) ∨ h.blockAt ptr = .error (.doubleFree ptr) := by
  have hm := h'.memory_lt
  by_cases hout : ptr % pairSize ≠ 0 ∨ ptr ≤ h.base + pairSize ∨ h.memory.size ≤ ptr
  · refine Or.inr (Or.inl ?_)
    simp only [blockAt, requirePrologue, h'.prologue_eq, bind, Except.bind, if_pos hout]
    rfl
  · obtain ⟨header, hheader⟩ : ∃ tag, header h.memory ptr = .ok tag :=
      ⟨_, header_of_le (by simp only [wordSize, pairSize] at *; omega) (by omega)⟩
    by_cases hsize : header.size < minBlock ∨ wordCount ≤ ptr + header.size ∨
        h.memory.size < ptr + header.size
    · refine Or.inr (Or.inl ?_)
      simp only [blockAt, requirePrologue, h'.prologue_eq, bind, Except.bind, if_neg hout, hheader,
        if_pos hsize]
      rfl
    · obtain ⟨footer, hfooter⟩ : ∃ tag,
          readTag h.memory (footerOffset ptr header.size) = .ok tag := by
        rw [footerOffset_of_le (by simp only [pairSize, minBlock] at *; omega) (by omega)]
        exact ⟨_, readTag_of_le (by simp only [wordSize, pairSize, minBlock] at *; omega)⟩
      by_cases hsame : footer.size ≠ header.size
      · refine Or.inr (Or.inl ?_)
        simp only [blockAt, requirePrologue, h'.prologue_eq, bind, Except.bind, if_neg hout,
          hheader, if_neg hsize, hfooter, if_pos hsame]
        rfl
      · obtain ⟨size, allocated⟩ := header
        cases allocated with
        | false =>
          refine Or.inr (Or.inr ?_)
          simp only [blockAt, requirePrologue, h'.prologue_eq, bind, Except.bind, if_neg hout,
            hheader, if_neg hsize, hfooter, if_neg hsame, Bool.not_false, if_true]
          rfl
        | true =>
          obtain ⟨_, mark⟩ := footer
          obtain rfl := Decidable.not_not.1 hsame
          refine Or.inl ⟨_, ⟨?_, hheader, ⟨mark, hfooter⟩, ?_, ?_⟩, ?_, ?_⟩
          · exact Nat.dvd_of_mod_eq_zero (by omega)
          · simp only [memory_arena, minBlock] at *
            omega
          · simp only [memory_arena] at *
            omega
          · omega
          · simp only [blockAt, requirePrologue, h'.prologue_eq, bind, Except.bind, if_neg hout,
              hheader, if_neg hsize, hfooter, if_neg hsame, Bool.not_true, Bool.false_eq_true,
              if_false]
            rfl

/-- A pointer behind the header of a free block is refused: as one whose block is already
free, or, if the word that should be its footer has another size, as no pointer to a block. -/
theorem blockAt_of_free_header {footer : Tag} (h' : h.Arranged spans rings)
    (hptr : pairSize ∣ ptr) (hlow : h.base + pairSize < ptr) (hmin : minBlock ≤ size)
    (hstop : ptr + size ≤ h.region.memory.size)
    (hheader : readTag h.region.memory (ptr - wordSize) = .ok ⟨size, false⟩)
    (hfooter : readTag h.region.memory (ptr + size - pairSize) = .ok footer) :
    h.blockAt ptr =
      .error (if footer.size = size then .doubleFree ptr else .invalidPointer ptr) := by
  have hm := h'.memory_lt
  have hheader' : header h.memory ptr = .ok ⟨size, false⟩ := by
    rw [header, headerOffset_of_le (by simp only [wordSize, pairSize] at *; omega)]
    exact hheader
  have hfooter' : readTag h.memory (footerOffset ptr size) = .ok footer := by
    rw [footerOffset_of_le (by simp only [pairSize, minBlock] at *; omega) (by omega)]
    exact hfooter
  have hgood : ¬ (ptr % pairSize ≠ 0 ∨ ptr ≤ h.base + pairSize ∨ h.memory.size ≤ ptr) := by
    simp only [memory_arena, pairSize, minBlock] at *
    omega
  have hinside : ¬ (size < minBlock ∨ wordCount ≤ ptr + size ∨ h.memory.size < ptr + size) := by
    simp only [memory_arena] at *
    omega
  simp only [blockAt, requirePrologue, h'.prologue_eq, bind, Except.bind, if_neg hgood, hheader',
    if_neg hinside, hfooter']
  by_cases hsame : footer.size = size
  · rw [if_neg (Decidable.not_not.2 hsame), if_pos hsame]
    rfl
  · rw [if_pos hsame, if_neg hsame]
    rfl

/-! ## Pointers that are taken for blocks -/

/-- Words that read as the tags of an allocated block are taken for one. -/
theorem blockAt_of_marked (h' : h.Arranged spans rings) (hmarked : Marked h.region.memory ptr size)
    (hlow : h.base + pairSize < ptr) : h.blockAt ptr = .ok ⟨size, true⟩ := by
  obtain ⟨hptr, hword, ⟨mark, hword'⟩, hmin, hle⟩ := hmarked
  have hm := h'.memory_lt
  have hheader : header h.memory ptr = .ok ⟨size, true⟩ := hword
  have hfooter : readTag h.memory (footerOffset ptr size) = .ok ⟨size, mark⟩ := hword'
  have hgood : ¬ (ptr % pairSize ≠ 0 ∨ ptr ≤ h.base + pairSize ∨ h.memory.size ≤ ptr) := by
    simp only [memory_arena, pairSize, minBlock] at *
    omega
  have hinside : ¬ (size < minBlock ∨ wordCount ≤ ptr + size ∨ h.memory.size < ptr + size) := by
    simp only [memory_arena] at *
    omega
  simp only [blockAt, requirePrologue, h'.prologue_eq, bind, Except.bind, if_neg hgood, hheader,
    if_neg hinside, hfooter, ne_eq, not_true_eq_false, if_false, Bool.not_true, Bool.false_eq_true,
    pure, Except.pure]

/-- The tags of an allocated block read so. -/
theorem marked_of_held (h' : h.Arranged spans rings) (hs : s ∈ held spans) :
    Marked h.region.memory s.offset s.size := by
  obtain ⟨hs, halloc⟩ := mem_held.1 hs
  obtain ⟨hdvd, -, hmin⟩ := h'.row.proper s hs
  have htag : s.tag = ⟨s.size, true⟩ := by rw [Span.tag, halloc]
  obtain ⟨hheader, hfooter⟩ := h'.row.tagged s hs
  rw [htag] at hheader hfooter
  exact ⟨hdvd, hheader, ⟨true, hfooter⟩, hmin, (h'.row.bounds hs).2.2⟩

/-- The pointer of an allocated block is taken for it. -/
theorem blockAt_of_held (h' : h.Arranged spans rings) (hs : s ∈ held spans) :
    h.blockAt s.offset = .ok s.tag := by
  have hstart := (h'.row.bounds (mem_held.1 hs).1).1
  rw [blockAt_of_marked h' (marked_of_held h' hs) (by simp only [pairSize] at *; omega), Span.tag,
    (mem_held.1 hs).2]

end SegregatedFit.Heap
