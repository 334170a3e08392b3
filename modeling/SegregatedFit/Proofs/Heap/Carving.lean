-- SUMMARY: What taking the front of a free block makes of blocks, rings and counters.
import SegregatedFit.Proofs.Heap.Arrangement
import SegregatedFit.Heap.FreeSpace

/-!
# Carving

A free block that is large enough gives its front to an allocation. What is left
becomes a free block of its own if it can hold one (`leftover`); otherwise the
block is taken whole (`taken`). Only bytes of free blocks change, and no block is
claimed but the one that is taken. A block that is taken whole only leaves its list and
gets other tags (`Carves`). Main statement: `carve_apply`.
-/
namespace SegregatedFit

open Block FreeLists

namespace Block

/-- Whether the rest of a block can be a block of its own. -/
def Splits (s : Span) (size : Nat) : Prop := minBlock ≤ s.size - size

instance (s : Span) (size : Nat) : Decidable (Splits s size) :=
  inferInstanceAs (Decidable (minBlock ≤ s.size - size))

/-- The allocated block at the front of a carved block. -/
def taken (s : Span) (size : Nat) : Span :=
  ⟨s.offset, if Splits s size then size else s.size, true⟩

/-- The free block that is left of a carved block, if any. -/
def leftover (s : Span) (size : Nat) : List Span :=
  if Splits s size then [⟨s.offset + size, s.size - size, false⟩] else []

/-- The rings after a listed block was carved. -/
def carvedRings (rings : Bucket → List Nat) (s : Span) (size : Nat) : Bucket → List Nat :=
  if Splits s size then
    pushed (dropped rings [s.offset]) (.ofSize (s.size - size)) (s.offset + size)
  else dropped rings [s.offset]

theorem le_size_taken {s : Span} {size : Nat} (h : size ≤ s.size) :
    size ≤ (taken s size).size := by
  unfold taken
  dsimp only
  split
  · exact Nat.le_refl _
  · exact h

/-- A block is taken as large as asked for, or by one unit larger. -/
theorem size_taken_cases {s : Span} {size : Nat} (hdvd : pairSize ∣ size)
    (hdvd' : pairSize ∣ (taken s size).size) (hfit : size ≤ s.size) :
    (taken s size).size = size ∨ (taken s size).size = size + pairSize := by
  by_cases hsplits : Splits s size
  · exact Or.inl (by simp [taken, hsplits])
  · have hwhole : (taken s size).size = s.size := by simp [taken, hsplits]
    rw [hwhole] at hdvd' ⊢
    simp only [Splits, pairSize, minBlock] at *
    omega

theorem size_taken_ne_iff {s : Span} {size : Nat} :
    (taken s size).size ≠ s.size ↔ Splits s size := by
  by_cases hsplits : Splits s size
  · have hrest : minBlock ≤ s.size - size := hsplits
    simp only [taken, hsplits, if_true, iff_true, minBlock] at *
    omega
  · simp [taken, hsplits]

theorem sum_held_le (spans : List Span) :
    ((held spans).map Span.size).sum ≤ (spans.map Span.size).sum := by
  induction spans with
  | nil => exact Nat.le_refl _
  | cons s spans ih =>
    cases halloc : s.allocated with
    | true => simpa [held_cons_allocated halloc] using ih
    | false =>
      rw [held_cons_free (by simp [Span.isFree, halloc]), List.map_cons, List.sum_cons]
      exact Nat.le_trans ih (Nat.le_add_left _ _)

theorem held_carved (front back : List Span) (s : Span) (size : Nat) :
    held (front ++ taken s size :: leftover s size ++ back) =
      held front ++ taken s size :: held back := by
  have hleft : held (leftover s size) = [] := by
    unfold leftover
    split <;> rfl
  simp [held_append, held_cons_allocated (show (taken s size).allocated = true from rfl), hleft]

end Block

/-- The counters with one more allocated block. -/
def Counters.added (counters : Counters) (bytes : Nat) : Counters :=
  { counters with
    allocatedBlocks := counters.allocatedBlocks + 1
    allocatedBytes := counters.allocatedBytes + bytes }

theorem Counters.Count.added {counters : Counters} {front back : List Span} {s : Span}
    (h : counters.Count (front ++ s :: back)) (hfree : s.isFree = true) (size : Nat) :
    (counters.added (taken s size).size).Count
      (front ++ taken s size :: leftover s size ++ back) := by
  have hheld : held (front ++ s :: back) = held front ++ held back := by
    rw [held_append, held_cons_free hfree]
  constructor
  · rw [Counters.added, held_carved, h.blocks_eq, hheld]
    simp only [List.length_append, List.length_cons]
    omega
  · rw [Counters.added, held_carved, h.bytes_eq, hheld]
    simp only [List.map_append, List.map_cons, List.sum_append, List.sum_cons]
    omega

/-- What carving writes into the tags of the block that is taken, and that it writes no
more than them where the block is taken whole, once the block has left its list. -/
structure Carves (lists : FreeLists) (m m' : Memory) (s : Span) (size : Nat) : Prop where
  stamped : (taken s size).Stamped m'
  whole : ¬ Splits s size → ∃ lists₁ m₁,
    FreeLists.remove s.offset (lists, m) = .ok () (lists₁, m₁) ∧ m' = tagged m₁ (taken s size)

namespace Heap

variable {h : Heap Arena} {front back : List Span} {s : Span} {size : Nat}
variable {rings : Bucket → List Nat}

/-- Cutting a block that is in no list: the rest is listed. -/
theorem split_apply {prologue rest : Nat}
    (hrow : Row h.region.memory prologue (front ++ s :: back))
    (hm : h.region.memory.size < wordCount)
    (hindexed : h.lists.Indexed h.region.memory (front ++ back) rings) (hfree : s.isFree = true)
    (hdvd : pairSize ∣ size) (hmin : minBlock ≤ size) (hrest : minBlock ≤ rest)
    (hsize : s.size = size + rest) :
    ∃ lists m, split s.offset size rest h = .ok () (h.withLists lists m) ∧
      lists.Indexed m (front ++ ⟨s.offset, size, true⟩ :: ⟨s.offset + size, rest, false⟩ :: back)
        (pushed rings (.ofSize rest) (s.offset + size)) ∧
      Row m prologue (front ++ ⟨s.offset, size, true⟩ :: ⟨s.offset + size, rest, false⟩ :: back) ∧
      h.region.memory.Rewritten m (FreeBytes (front ++ s :: back)) [s.offset] ∧
      (Span.mk s.offset size true).Stamped m := by
  obtain ⟨hina, hinr, hedit, hrow'⟩ := hrow.cut hm hdvd hmin hrest hsize
  have hbounds := hrow.bounds (s := s) (by simp)
  have hstop : Word.add s.offset size = .ok (s.offset + size) := by
    apply Word.add_of_lt
    simp only [Span.stop] at hbounds
    omega
  have hindexed₁ := hindexed.edited_block hrow hm hedit
  have hperm : (front ++ ⟨s.offset, size, true⟩ :: ⟨s.offset + size, rest, false⟩ :: back).Perm
      (⟨s.offset + size, rest, false⟩ :: ⟨s.offset, size, true⟩ :: (front ++ back)) :=
    List.perm_middle.trans ((List.perm_middle.cons _).trans (List.Perm.swap _ _ _))
  have hlisted := (indexed_cons_allocated (s := ⟨s.offset, size, true⟩) rfl).2 hindexed₁
  obtain ⟨lists, m, hrun, hindexed', hrow'', hlinks⟩ :=
    hlisted.insert hrow' (by simpa using hm) hperm rfl
  have hedit' := hlinks.mono fun i => hlisted.links_pushed
    (fun t ht => (hrow'.proper t (hperm.mem_iff.2 (List.mem_cons_of_mem _ ht))).2.2)
  refine ⟨lists, m, ?_, hindexed', hrow'', ?_, ?_⟩
  · obtain ⟨m₁, hm₁⟩ : ∃ m₁, m₁ = tagged h.region.memory ⟨s.offset, size, true⟩ := ⟨_, rfl⟩
    obtain ⟨m₂, hm₂⟩ : ∃ m₂, m₂ = tagged m₁ ⟨s.offset + size, rest, false⟩ := ⟨_, rfl⟩
    rw [← hm₁, ← hm₂] at hrun
    have hwrite : write (writeTags s.offset ⟨size, true⟩) h = .ok () (h.withLists h.lists m₁) :=
      write_of_ok (hm₁ ▸ writeTags_apply hina.fits)
    have hwrite' : write (writeTags (s.offset + size) ⟨rest, false⟩) (h.withLists h.lists m₁) =
        .ok () (h.withLists h.lists m₂) := by
      rw [← hm₁] at hinr
      exact write_of_ok (hm₂ ▸ writeTags_apply hinr.fits)
    have hinsert : edit (FreeLists.insert (s.offset + size) (.ofSize rest))
        (h.withLists h.lists m₂) = .ok () (h.withLists lists m) := edit_of_ok hrun
    simp only [split, Action.bind_apply, hwrite, hstop, Action.lift_trap_ok, hwrite', hinsert]
  · have hs : FreeBytes [s] ≤ FreeBytes (front ++ s :: back) :=
      fun i hi => hi.mono fun t ht => by simp_all
    obtain ⟨hoff, hdvd, -⟩ := hrow'.proper ⟨s.offset, size, true⟩ (by simp)
    obtain ⟨hoff', hdvd', -⟩ := hrow'.proper ⟨s.offset + size, rest, false⟩ (by simp)
    refine ⟨(hedit.mono fun i hi => hs i ⟨s, by simp, hfree, hi⟩).trans
      (hedit'.toEdited.mono ?_), fun ptr hptr => ?_⟩
    · rintro i (⟨t, ht, htfree, hti⟩ | hi)
      · rcases List.mem_cons.1 ht with rfl | ht
        · cases htfree
        · refine ⟨t, ?_, htfree, .of_inPayload hti⟩
          rcases List.mem_append.1 ht with ht | ht <;> simp [ht]
      · refine hs i ⟨s, by simp, hfree, ?_⟩
        have hcov := Span.Covers.of_inPayload (inPayload_of_owns (s := ⟨_, rest, false⟩) hrest hi)
        simp only [Span.Covers, Span.stop] at *
        omega
    · have htags := (rewritten_tagged_free hinr hoff' hdvd' rfl).claims_of_nil
        (hedit'.claims_of_nil hptr)
      exact (rewritten_tagged hina hoff hdvd).claims ptr htags
  · -- what is written after the tags of the taken block belongs to other blocks
    refine (stamped_tagged hina.fits hdvd).congr (hina.fits.of_size_eq (size_tagged _ _))
      fun i hi => ?_
    have hother : ∀ t ∈ front ++ ⟨s.offset, size, true⟩ :: ⟨s.offset + size, rest, false⟩ :: back,
        t.isFree = true → ¬ t.Covers i := by
      intro t ht htfree htcov
      have heq := hrow''.eq_of_covers (by simp) ht (.of_inTags hina.pair_le hi) htcov
      rw [← heq] at htfree
      cases htfree
    have hrestCovers : ¬ (Span.mk (s.offset + size) rest false).Covers i :=
      hother _ (by simp) rfl
    rw [hedit'.byteAt_eq i, (edited_tagged hinr.fits).byteAt_eq i fun htags =>
      hrestCovers (.of_inTags hinr.pair_le htags)]
    rintro (⟨t, ht, htfree, hti⟩ | howns)
    · refine hother t ?_ htfree (.of_inPayload hti)
      rcases List.mem_cons.1 ht with rfl | ht
      · simp
      · rcases List.mem_append.1 ht with ht | ht <;> simp [ht]
    · exact hrestCovers (.of_inPayload (inPayload_of_owns (s := ⟨_, rest, false⟩) hrest howns))

/-- Writing the tags of a block that is in no list makes the new blocks of it. -/
theorem place_apply {prologue : Nat} (hrow : Row h.region.memory prologue (front ++ s :: back))
    (hm : h.region.memory.size < wordCount)
    (hindexed : h.lists.Indexed h.region.memory (front ++ back) (dropped rings [s.offset]))
    (hfree : s.isFree = true) (hdvd : pairSize ∣ size) (hmin : minBlock ≤ size)
    (hfit : size ≤ s.size) :
    ∃ lists m,
      (if minBlock ≤ s.size - size then split s.offset size (s.size - size)
        else write (writeTags s.offset ⟨s.size, true⟩)) h = .ok () (h.withLists lists m) ∧
      lists.Indexed m (front ++ taken s size :: leftover s size ++ back)
        (carvedRings rings s size) ∧
      Row m prologue (front ++ taken s size :: leftover s size ++ back) ∧
      h.region.memory.Rewritten m (FreeBytes (front ++ s :: back)) [s.offset] ∧
      (taken s size).Stamped m ∧
      (¬ Splits s size → m = tagged h.region.memory (taken s size)) := by
  by_cases hsplits : minBlock ≤ s.size - size
  · have hsplits' : Splits s size := hsplits
    obtain ⟨lists, m, hrun, hindexed', hrow', hedit, hstamped⟩ :=
      split_apply hrow hm hindexed hfree hdvd hmin hsplits (by omega)
    refine ⟨lists, m, ?_, ?_, ?_, hedit, ?_, fun hwhole => (hwhole hsplits').elim⟩
    · rw [if_pos hsplits, hrun]
    · simpa [taken, leftover, carvedRings, hsplits'] using hindexed'
    · simpa [taken, leftover, hsplits'] using hrow'
    · simpa [taken, hsplits'] using hstamped
  · have hwhole : ¬ Splits s size := hsplits
    obtain ⟨hin, hedit, hrow'⟩ := hrow.mark hm true
    have hindexed' := hindexed.edited_block hrow hm hedit
    have hindexed'' := ((indexed_cons_allocated (s := { s with allocated := true }) rfl).2
      hindexed').perm List.perm_middle.symm
    have htaken : taken s size = { s with allocated := true } := by simp [taken, hwhole]
    have hstamped := stamped_tagged hin.fits (hrow.proper s (by simp)).2.1
    refine ⟨h.lists, tagged h.region.memory { s with allocated := true }, ?_, ?_, ?_, ?_,
      htaken ▸ hstamped, fun _ => htaken ▸ rfl⟩
    · have hrun := writeTags_apply hin.fits
      rw [if_neg hsplits]
      exact write_of_ok hrun
    · simpa [taken, leftover, carvedRings, hwhole] using hindexed''
    · simpa [taken, leftover, hwhole] using hrow'
    · obtain ⟨hoff, hsize, -⟩ := hrow.proper s (by simp)
      exact ⟨hedit.mono fun i hi => ⟨s, by simp, hfree, hi⟩,
        (rewritten_tagged hin hoff hsize).claims⟩

/-- No free blocks are neighbours after a block was carved. -/
theorem separated_carved (h : Separated (front ++ s :: back)) (hfree : s.isFree = true) :
    Separated (front ++ taken s size :: leftover s size ++ back) := by
  obtain ⟨hfront, hback, hneighbours⟩ := separated_middle.1 h
  obtain ⟨-, habove⟩ := hneighbours.resolve_left (by simpa [Span.isFree] using hfree)
  have hleft : Separated (leftover s size ++ back) := by
    unfold leftover
    split
    · exact separated_cons.2 ⟨hback, Or.inr habove⟩
    · exact hback
  have hall := (separated_middle (s := taken s size)).2 ⟨hfront, hleft, Or.inl rfl⟩
  simpa using hall

/-- The heap after a block was carved: it counts the block and logs a cut. -/
def carved (h : Heap Arena) (s : Span) (size : Nat) : Heap Arena :=
  let counted := h.withCounters (h.counters.added (taken s size).size)
  if Splits s size then counted.logged (.split (s.offset + size) (s.size - size)) else counted

/-- The log says no more of it than that a block was split. -/
theorem quiet_carved (h : Heap Arena) (s : Span) (size : Nat) :
    h.log.Quiet (h.carved s size).log := by
  simp only [carved]
  split
  · exact Log.quiet_record (by simp [Event.books_iff]) _ _
  · exact .refl h.log

@[simp] theorem carved_region (h : Heap Arena) (s : Span) (size : Nat) :
    (h.carved s size).region = h.region := by
  simp only [carved]
  split <;> rfl

@[simp] theorem carved_config (h : Heap Arena) (s : Span) (size : Nat) :
    (h.carved s size).config = h.config := by
  simp only [carved]
  split <;> rfl

@[simp] theorem carved_base (h : Heap Arena) (s : Span) (size : Nat) :
    (h.carved s size).base = h.base := by
  simp only [carved]
  split <;> rfl

@[simp] theorem carved_counters (h : Heap Arena) (s : Span) (size : Nat) :
    (h.carved s size).counters = h.counters.added (taken s size).size := by
  simp only [carved]
  split <;> rfl

/-- Counting one more of the allocated blocks of a row. -/
theorem countAdded_apply {m : Memory} {prologue bytes : Nat} {spans : List Span}
    (hcount : (h.counters.added bytes).Count spans) (hrow : Row m prologue spans)
    (hm : m.size < wordCount) :
    count (fun c => return { c with
      allocatedBlocks := ← Word.add c.allocatedBlocks 1
      allocatedBytes := ← Word.add c.allocatedBytes bytes }) h =
      .ok () (h.withCounters (h.counters.added bytes)) := by
  have hblocks : Word.add h.counters.allocatedBlocks 1 = .ok (h.counters.allocatedBlocks + 1) := by
    apply Word.add_of_lt
    have hlen := countP_lt hrow hm Span.allocated
    rw [List.countP_eq_length_filter, ← held, ← hcount.blocks_eq] at hlen
    exact Nat.lt_of_succ_lt hlen
  have hbytes : Word.add h.counters.allocatedBytes bytes =
      .ok (h.counters.allocatedBytes + bytes) := by
    apply Word.add_of_lt
    have hsum := hrow.tiles.sum_size
    have hle := sum_held_le spans
    rw [← hcount.bytes_eq] at hle
    change h.counters.allocatedBytes + bytes ≤ _ at hle
    omega
  apply count_apply
  rw [hblocks, hbytes]
  rfl

/-- A cut is logged; what comes after the tags is otherwise the same with a cut
and without one. -/
theorem reportSplit_apply (hlog : ∀ event,
      logEvent event (h.withCounters (h.counters.added (taken s size).size)) =
        .ok () ((h.withCounters (h.counters.added (taken s size).size)).logged event)) :
    (if (taken s size).size ≠ s.size then do
        logEvent (.split (s.offset + size) (s.size - size))
        pure (taken s size).size
      else pure (taken s size).size : HeapM Arena Nat)
      (h.withCounters (h.counters.added (taken s size).size)) =
      .ok (taken s size).size (h.carved s size) := by
  by_cases hsplits : Splits s size
  · rw [if_pos (size_taken_ne_iff.2 hsplits), Action.bind_apply, hlog]
    simp only [Action.pure_apply, carved, if_pos hsplits]
  · rw [if_neg (fun hne => hsplits (size_taken_ne_iff.1 hne))]
    simp only [Action.pure_apply, carved, if_neg hsplits]

/-- Carving takes the front of a free block, and the whole block where nothing
that could be a block would be left. Only that block is claimed by what is written. -/
theorem carve_apply (h' : h.Arranged (front ++ s :: back) rings) (hfree : s.isFree = true)
    (hdvd : pairSize ∣ size) (hmin : minBlock ≤ size) (hfit : size ≤ s.size) :
    ∃ lists m,
      carve s.offset size h = .ok (taken s size).size ((h.withLists lists m).carved s size) ∧
      Arranged ((h.withLists lists m).carved s size)
        (front ++ taken s size :: leftover s size ++ back) (carvedRings rings s size) ∧
      h.region.memory.Rewritten m (FreeBytes (front ++ s :: back)) [s.offset] ∧
      Carves h.lists h.region.memory m s size := by
  have hm := h'.memory_lt
  have hheader : read (header · s.offset) h = .ok s.tag h := read_of_ok h'.row.header_eq
  obtain ⟨lists₁, m₁, hrun₁, hindexed₁, hrow₁, hedit₁⟩ :=
    h'.indexed.remove_middle h'.row hm (List.Sublist.refl _) hfree
  have hm₁ : m₁.size < wordCount := hedit₁.size_eq ▸ hm
  have hremove : edit (remove s.offset) h = .ok () (h.withLists lists₁ m₁) := edit_of_ok hrun₁
  have hrest : Word.sub s.size size = .ok (s.size - size) := Word.sub_of_le hfit
  obtain ⟨lists, m, hplace, hindexed, hrow, hedit, hstamped, hwhole⟩ :=
    place_apply (h := h.withLists lists₁ m₁) hrow₁ hm₁ hindexed₁ hfree hdvd hmin hfit
  have hedit' : h.region.memory.Rewritten m (FreeBytes (front ++ s :: back)) [s.offset] :=
    ((hedit₁.mono fun i hi => freeBytes_of_freePayload (h'.indexed.freePayload
      (fun t ht => (h'.row.bounds ht).2.1) hi)).claiming (List.nil_subset _)).trans hedit
  have hcounted : Arranged ((h.withLists lists m).withCounters
      (h.counters.added (taken s size).size))
      (front ++ taken s size :: leftover s size ++ back) (carvedRings rings s size) :=
    h'.updated hedit'.size_eq
      ⟨hrow, separated_carved h'.consistent.separated hfree, hindexed⟩
      (h'.count.added hfree size) rfl
  have hcount := countAdded_apply (h := h.withLists lists m) hcounted.count hrow
    (hedit'.size_eq ▸ hm)
  have hreport := reportSplit_apply (h := h.withLists lists m) hcounted.logEvent
  refine ⟨lists, m, ?_, ?_, hedit', hstamped, fun hnone => ⟨lists₁, m₁, hrun₁, hwhole hnone⟩⟩
  · have htaken : (if minBlock ≤ s.size - size then size else s.size) = (taken s size).size := rfl
    by_cases hsplits : minBlock ≤ s.size - size
    · rw [if_pos hsplits] at hplace
      simp only [carve, Action.bind_apply, hheader, hremove, Span.tag, hrest, Action.lift_trap_ok,
        htaken, if_pos hsplits]
      simp only [hplace, withLists_withLists, hcount, hreport]
    · rw [if_neg hsplits] at hplace
      simp only [carve, Action.bind_apply, hheader, hremove, Span.tag, hrest, Action.lift_trap_ok,
        htaken, if_neg hsplits]
      simp only [hplace, withLists_withLists, hcount, hreport]
  · unfold carved
    split
    · exact hcounted.logged _
    · exact hcounted

end Heap
end SegregatedFit
