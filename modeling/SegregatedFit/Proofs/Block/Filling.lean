-- SUMMARY: Rows without free neighbours, which are known by their allocated blocks.
import SegregatedFit.Proofs.Block.Merging

/-!
# Filling the gaps

Where no two free blocks are neighbours, every stretch between two allocated
blocks is one free block or nothing. So a row is what one gets by filling the
gaps between its allocated blocks (`Tiles.eq_filled`), and two rows of the same
stretch with the same allocated blocks are equal.
-/
namespace SegregatedFit.Block

/-- A free block from `start` to `stop`, if there is a byte in between. -/
def gap (start stop : Nat) : List Span :=
  if start < stop then [⟨start, stop - start, false⟩] else []

/-- The row from `start` to `stop` with these allocated blocks and free blocks between them. -/
def filled (start : Nat) (blocks : List Span) (stop : Nat) : List Span :=
  match blocks with
  | [] => gap start stop
  | s :: rest => gap start s.offset ++ s :: filled s.stop rest stop

theorem gap_self (start : Nat) : gap start start = [] := if_neg (Nat.lt_irrefl start)

/-- A free block is the gap that it fills. -/
theorem gap_of_free {s : Span} (hfree : s.isFree = true) (hpos : 0 < s.size) :
    gap s.offset s.stop = [s] := by
  obtain ⟨offset, size, allocated⟩ := s
  obtain rfl : allocated = false := Span.isFree_iff.1 hfree
  have hlt : offset < offset + size := Nat.lt_add_of_pos_right hpos
  simp only [gap, Span.stop, if_pos hlt, Nat.add_sub_cancel_left]

/-- A row without free neighbours is its allocated blocks, with the gaps filled. -/
theorem Tiles.eq_filled {start stop : Nat} {spans : List Span} (h : Tiles start spans stop)
    (hseparated : Separated spans) (hpos : ∀ s ∈ spans, 0 < s.size) :
    spans = filled start (held spans) stop := by
  induction spans generalizing start with
  | nil =>
    obtain rfl := tiles_nil.1 h
    exact (gap_self start).symm
  | cons s rest ih =>
    obtain ⟨rfl, hrest⟩ := h
    obtain ⟨hsep, hnext⟩ := separated_cons.1 hseparated
    have hih := ih hrest hsep fun t ht => hpos t (List.mem_cons_of_mem s ht)
    cases halloc : s.allocated with
    | true =>
      rw [held_cons_allocated halloc, filled, gap_self, ← hih]
      rfl
    | false =>
      have hfree : s.isFree = true := Span.isFree_iff.2 halloc
      have hgap := gap_of_free hfree (hpos s List.mem_cons_self)
      rw [held_cons_free hfree]
      -- what follows a free block is allocated, or nothing does
      cases rest with
      | nil =>
        obtain rfl := tiles_nil.1 hrest
        exact hgap.symm
      | cons a rest =>
        have ha : a.allocated = true := hnext.resolve_left (by simp [halloc])
        obtain ⟨hoff, -⟩ := hrest
        rw [held_cons_allocated ha, filled, hoff, gap_self] at hih
        rw [held_cons_allocated ha, filled, hoff, hgap]
        exact congrArg (s :: ·) hih

end SegregatedFit.Block
