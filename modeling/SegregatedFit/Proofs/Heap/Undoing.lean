-- SUMMARY: Freeing the block that an allocation has just taken puts the blocks back as they were.
import SegregatedFit.Proofs.Heap.Allocating
import SegregatedFit.Proofs.Heap.Releasing

/-!
# Undoing an allocation

What an allocation carves out of a block is merged into that block again when it is
freed: the rest of the block, if one was left, is the only free block next to it
(`merged_carved`). The block then comes first in the ring of its size, and the other
blocks are listed as before (`relisted_carvedRings`). Main statement: `Takes.undone`.
-/
namespace SegregatedFit

open Block FreeLists

namespace FreeLists

variable {lists : FreeLists} {m : Memory} {spans : List Span} {rings : Bucket → List Nat}

/-- Dropping what is not listed changes nothing. -/
theorem dropped_of_not_mem {gone : List Nat} (h : ∀ b, ∀ p ∈ gone, p ∉ rings b) :
    dropped rings gone = rings := by
  funext b
  refine List.filter_eq_self.2 fun p hp => ?_
  simpa using fun hgone => h b p hgone hp

/-- What is listed in front of the others was not listed among them. -/
theorem Indexed.not_mem_of_pushed {bucket : Bucket} {bp : Nat}
    (h : Indexed lists m spans (pushed rings bucket bp)) (b : Bucket) : bp ∉ rings b := by
  intro hmem
  by_cases hb : b = bucket
  · subst hb
    have hnodup := h.nodup b
    rw [pushed_self] at hnodup
    exact (List.nodup_cons.1 hnodup).1 hmem
  · have hmem' : bp ∈ pushed rings bucket bp b := mem_pushed.2 (Or.inr hmem)
    exact h.disjoint b bucket hb hmem' (mem_pushed.2 (Or.inl ⟨rfl, rfl⟩))

end FreeLists

namespace Block

variable {front back : List Span} {s : Span} {size : Nat}

/-- The run that is merged when a carved block is freed: the block and what was left of it. -/
theorem freeRun_carved (s : Span) (size : Nat) (hbelow : (tagBelow front).allocated = true)
    (habove : (tagAbove back).allocated = true) :
    freeBelow front = [] ∧ freeAbove (leftover s size ++ back) = leftover s size ∧
      (leftover s size ++ back).dropWhile Span.isFree = back := by
  obtain ⟨htake, hdrop⟩ := freeAbove_of_allocated habove
  have hleft : ∀ t ∈ leftover s size, t.isFree = true := by
    intro t ht
    unfold leftover at ht
    split at ht
    · obtain rfl := List.mem_singleton.1 ht
      rfl
    · exact absurd ht List.not_mem_nil
  refine ⟨(freeBelow_of_allocated hbelow).1, ?_, ?_⟩
  · rw [freeAbove, List.takeWhile_append_of_pos hleft, ← freeAbove, htake, List.append_nil]
  · rw [List.dropWhile_append_of_pos hleft, hdrop]

/-- The two parts of a carved block, merged, are the block. -/
theorem joined_carved (hfree : s.isFree = true) (hfit : size ≤ s.size) :
    joined ((taken s size).freed :: leftover s size) = s := by
  obtain ⟨offset, total, allocated⟩ := s
  obtain rfl : allocated = false := Span.isFree_iff.1 hfree
  by_cases hsplits : Splits ⟨offset, total, false⟩ size
  · simp only [joined, taken, leftover, Span.freed, if_pos hsplits, List.map_cons, List.map_nil,
      List.sum_cons, List.sum_nil, Nat.add_zero, Span.mk.injEq, true_and, and_true]
    exact Nat.add_sub_of_le hfit
  · simp [joined, taken, leftover, Span.freed, hsplits]

/-- Freeing the front of a carved block makes the row what it was. -/
theorem merged_carved (hbelow : (tagBelow front).allocated = true)
    (habove : (tagAbove back).allocated = true) (hfree : s.isFree = true) (hfit : size ≤ s.size) :
    merged front (taken s size).freed (leftover s size ++ back) = front ++ s :: back := by
  obtain ⟨htake, htake', hdrop'⟩ := freeRun_carved s size hbelow habove
  rw [merged, freeRun, htake, htake', hdrop', (freeBelow_of_allocated hbelow).2, List.nil_append,
    joined_carved hfree hfit]

end Block

namespace Heap

variable {h g : Heap Arena} {front back spans : List Span} {s : Span} {size growths : Nat}
variable {rings : Bucket → List Nat}

/-- When the front of a carved block is freed, the block comes first in the ring of its
size. The other blocks are listed as they were before it was carved. -/
theorem relisted_carvedRings (hbelow : (tagBelow front).allocated = true)
    (habove : (tagAbove back).allocated = true) (hfree : s.isFree = true) (hfit : size ≤ s.size)
    {lists : FreeLists} {m : Memory} {row : List Span}
    (hindexed : lists.Indexed m row (carvedRings rings s size)) :
    relisted (carvedRings rings s size) front (taken s size).freed (leftover s size ++ back) =
      pushed (dropped rings [s.offset]) (.ofSize s.size) s.offset := by
  obtain ⟨htake, htake', -⟩ := freeRun_carved s size hbelow habove
  have hunlisted : unlisted (carvedRings rings s size) front (leftover s size ++ back) =
      dropped rings [s.offset] := by
    rw [unlisted, htake, htake', List.nil_append]
    by_cases hsplits : Splits s size
    · rw [carvedRings, if_pos hsplits] at hindexed ⊢
      simp only [leftover, if_pos hsplits, List.map_cons, List.map_nil]
      rw [dropped_pushed _ _ List.mem_cons_self]
      refine dropped_of_not_mem fun b p hp => ?_
      obtain rfl := List.mem_singleton.1 hp
      exact hindexed.not_mem_of_pushed b
    · simp only [carvedRings, leftover, if_neg hsplits, List.map_nil, dropped_nil]
  rw [relisted, hunlisted, freeRun, htake, htake', List.nil_append, joined_carved hfree hfit]

/-- What is next to the supplied block is allocated. -/
theorem Supplies.neighbours (hsupply : h.Supplies size spans growths front s back)
    (h' : h.Arranged spans rings) :
    (tagBelow front).allocated = true ∧ (tagAbove back).allocated = true := by
  have hfree := hsupply.isFree h'
  cases hsupply with
  | found _ hsplit =>
    obtain ⟨-, -, hs⟩ := separated_middle.1 (hsplit ▸ h'.consistent.separated)
    exact hs.resolve_left (by simpa [Span.isFree] using hfree)
  | lengthened _ hsplit hlast =>
    obtain ⟨-, -, hs⟩ := separated_middle.1 (hsplit ▸ h'.consistent.separated)
    exact ⟨(hs.resolve_left (by simpa [Span.isFree] using hlast)).1, rfl⟩
  | added _ hbelow => exact ⟨hbelow, rfl⟩

/-- A block that was taken can be freed at once, and then the blocks are what they were
when it was supplied. -/
theorem Takes.undone (htakes : h.Takes g spans rings size growths front s back)
    (h' : h.Arranged spans rings) :
    ∃ k, free s.offset g = .ok () k ∧
      g.Frees k front (taken s size) (leftover s size ++ back) (carvedRings rings s size) ∧
      k.Arranged (front ++ s :: back)
        (pushed (dropped rings [s.offset]) (.ofSize s.size) s.offset) := by
  have hfree := htakes.supplies.isFree h'
  obtain ⟨hbelow, habove⟩ := htakes.supplies.neighbours h'
  have hrow : front ++ taken s size :: leftover s size ++ back =
      front ++ taken s size :: (leftover s size ++ back) := by
    simp
  have g' := hrow ▸ htakes.arranged
  obtain ⟨k, hrun, hfrees⟩ := free_middle g' rfl
  refine ⟨k, hrun, hfrees, ?_⟩
  rw [← merged_carved hbelow habove hfree htakes.fits,
    ← relisted_carvedRings hbelow habove hfree htakes.fits g'.indexed]
  exact hfrees.arranged

/-- Of what an allocation and a free count, the growths remain. -/
theorem Takes.counters_undone {k : Heap Arena}
    (htakes : h.Takes g spans rings size growths front s back)
    (hfrees : g.Frees k front (taken s size) (leftover s size ++ back) (carvedRings rings s size)) :
    k.counters = { h.counters with extendCalls := h.counters.extendCalls + growths } := by
  rw [hfrees.counters_eq, htakes.counters_eq]
  simp [Counters.removed, Counters.added]

end Heap
end SegregatedFit
