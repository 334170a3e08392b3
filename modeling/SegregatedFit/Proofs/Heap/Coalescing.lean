-- SUMMARY: What merging a free block with its neighbours makes of blocks, rings and bytes.
import SegregatedFit.Heap.FreeSpace
import SegregatedFit.Proofs.Heap.Arrangement

/-!
# Coalescing

A block that became free and is in no list yet stands between two rows. Merging
takes its free neighbours out of their lists (`exists_absorbed`, from one lemma
for each choice of free neighbours), writes the tags of the whole run and lists
it (`coalesce_apply`). It always succeeds. Only bytes of free blocks change, and of
those only links and the tags of the run, so that nothing new is claimed.
-/
namespace SegregatedFit.Heap

open Block FreeLists

variable {h : Heap Arena} {prologue : Nat} {front back : List Span} {s : Span}
variable {rings : Bucket → List Nat}

/-- Which neighbours of a block between two rows are free. -/
def mergeKind (front back : List Span) : Merge :=
  match (tagBelow front).allocated, (tagAbove back).allocated with
  | true, true => .alone
  | true, false => .withNext
  | false, true => .withPrevious
  | false, false => .withBoth

/-- The rings without the free blocks next to a block between two rows. -/
def unlisted (rings : Bucket → List Nat) (front back : List Span) : Bucket → List Nat :=
  dropped rings ((freeBelow front ++ freeAbove back).map Span.offset)

/-- The rings after a free block between two rows was merged. -/
def relisted (rings : Bucket → List Nat) (front : List Span) (s : Span) (back : List Span) :
    Bucket → List Nat :=
  let t := joined (freeRun front s back)
  pushed (unlisted rings front back) (.ofSize t.size) t.offset

/-- The bytes that change when a block between two rows is merged: the links of the
listed blocks, and the tags and the links of the merged one. -/
def MergeBytes (rings : Bucket → List Nat) (front : List Span) (s : Span) (back : List Span)
    (i : Nat) : Prop :=
  LinkBytes rings i ∨ (joined (freeRun front s back)).InTags i ∨
    (Link.block (joined (freeRun front s back)).offset).Owns i

/-! ## Absorbing neighbours -/

/-- The block before a block is the one before it in the row. -/
theorem previousBlock_apply {f : Span}
    (hrow : Row h.region.memory prologue (front ++ f :: s :: back))
    (hm : h.region.memory.size < wordCount) :
    previousBlock s.offset h = .ok (f.offset, f.size) h := by
  have hprevious : read (previous · s.offset) h = .ok f.offset h :=
    read_of_ok (hrow.previous_eq hm)
  have hheader : read (header · f.offset) h = .ok f.tag h := read_of_ok hrow.header_eq
  simp only [previousBlock, Action.bind_apply, hprevious, hheader, Action.pure_apply, Span.tag]

/-- The free neighbours of the block left their lists, and the answer was the
extent of the run. -/
structure Absorbed (h : Heap Arena) (prologue : Nat) (front : List Span) (s : Span)
    (back : List Span) (rings : Bucket → List Nat) (lists : FreeLists) (m : Memory) : Prop where
  run_eq : absorbNeighbours s.offset s.size h =
    .ok ((joined (freeRun front s back)).offset, (joined (freeRun front s back)).size,
      mergeKind front back) (h.withLists lists m)
  indexed : lists.Indexed m (front.rdropWhile Span.isFree ++ back.dropWhile Span.isFree)
    (unlisted rings front back)
  row : Row m prologue (front ++ s :: back)
  rewritten : h.region.memory.Rewritten m (LinkBytes rings) []

/-- What is read of a block and of the tags around it. -/
theorem neighbours_apply (hrow : Row h.region.memory prologue (front ++ s :: back))
    (hm : h.region.memory.size < wordCount) :
    Word.sub s.offset pairSize = .ok (s.offset - pairSize) ∧
      read (readTag · (s.offset - pairSize)) h = .ok (tagBelow front) h ∧
      read (next · s.offset) h = .ok s.stop h ∧
      read (header · s.stop) h = .ok (tagAbove back) h := by
  have hbounds := hrow.bounds (List.mem_append_right front List.mem_cons_self)
  exact ⟨Word.sub_of_le (Nat.le_trans (Nat.le_add_left _ _) hbounds.1),
    read_of_ok (hrow.readTag_below hm), read_of_ok (hrow.next_eq hm), read_of_ok hrow.header_stop⟩

/-- The sizes of neighbours add up to a word. -/
theorem add_sizes {spans : List Span} {m : Memory} {a b : Nat} (hrow : Row m prologue spans)
    (hm : m.size < wordCount) (hle : a + b ≤ (spans.map Span.size).sum) :
    Word.add a b = .ok (a + b) := by
  have hsum := hrow.tiles.sum_size
  exact Word.add_of_lt (by omega)

/-- No neighbour is free. -/
theorem absorbed_alone (hrow : Row h.region.memory prologue (front ++ s :: back))
    (hm : h.region.memory.size < wordCount)
    (hindexed : h.lists.Indexed h.region.memory (front ++ back) rings)
    (hbelowTag : (tagBelow front).allocated = true)
    (haboveTag : (tagAbove back).allocated = true) :
    Absorbed h prologue front s back rings h.lists h.region.memory := by
  obtain ⟨hsub, hbelow, hnext, habove⟩ := neighbours_apply hrow hm
  obtain ⟨hfrun, hfdrop⟩ := freeBelow_of_allocated hbelowTag
  obtain ⟨hgrun, hgdrop⟩ := freeAbove_of_allocated haboveTag
  refine ⟨?_, ?_, hrow, .refl _ _ _⟩
  · simp only [absorbNeighbours, Action.bind_apply, hsub, Action.lift_trap_ok, hbelow, hnext,
      habove, hbelowTag, haboveTag, mergeKind, freeRun, hfrun, hgrun]
    simp [joined, Action.pure_apply]
    rfl
  · rw [hfdrop, hgdrop, unlisted, hfrun, hgrun]
    simpa [dropped_nil] using hindexed

/-- The block above is free, the one below is not. -/
theorem exists_absorbed_next {g : Span}
    (hrow : Row h.region.memory prologue (front ++ s :: g :: back))
    (hm : h.region.memory.size < wordCount)
    (hindexed : h.lists.Indexed h.region.memory (front ++ g :: back) rings)
    (hbelowTag : (tagBelow front).allocated = true) (hg : g.isFree = true)
    (hgrun : freeAbove (g :: back) = [g]) (hgdrop : (g :: back).dropWhile Span.isFree = back) :
    ∃ lists m, Absorbed h prologue front s (g :: back) rings lists m := by
  obtain ⟨hsub, hbelow, hnext, habove⟩ := neighbours_apply hrow hm
  obtain ⟨hfrun, hfdrop⟩ := freeBelow_of_allocated hbelowTag
  obtain ⟨lists, m, hrun, hindexed', hrow', hedit⟩ := hindexed.remove_middle hrow hm (by simp) hg
  have hremove : edit (remove s.stop) h = .ok () (h.withLists lists m) :=
    edit_of_ok (hrow.offset_eq_stop ▸ hrun)
  have hadd : Word.add s.size g.size = .ok (s.size + g.size) := by
    refine add_sizes hrow hm ?_
    simp
    omega
  refine ⟨lists, m, ?_, ?_, hrow', hedit⟩
  · simp only [absorbNeighbours, Action.bind_apply, hsub, Action.lift_trap_ok, hbelow, hnext,
      habove, hbelowTag, mergeKind, freeRun, hfrun, hgrun, tagAbove_cons, Span.tag,
      Span.isFree_iff.1 hg, hremove, hadd]
    simp [joined, Action.pure_apply]
  · rw [hfdrop, hgdrop, unlisted, hfrun, hgrun]
    simpa using hindexed'

/-- The block below is free, the one above is not. -/
theorem exists_absorbed_previous {f : Span}
    (hrow : Row h.region.memory prologue (front ++ [f] ++ s :: back))
    (hm : h.region.memory.size < wordCount)
    (hindexed : h.lists.Indexed h.region.memory (front ++ [f] ++ back) rings)
    (haboveTag : (tagAbove back).allocated = true) (hf : f.isFree = true)
    (hfrun : freeBelow (front ++ [f]) = [f])
    (hfdrop : (front ++ [f]).rdropWhile Span.isFree = front) :
    ∃ lists m, Absorbed h prologue (front ++ [f]) s back rings lists m := by
  obtain ⟨hsub, hbelow, hnext, habove⟩ := neighbours_apply hrow hm
  obtain ⟨hgrun, hgdrop⟩ := freeAbove_of_allocated haboveTag
  have hadd : Word.add s.size f.size = .ok (s.size + f.size) := by
    refine add_sizes hrow hm ?_
    simp
    omega
  rw [List.append_assoc, List.singleton_append] at hrow hindexed
  obtain ⟨lists, m, hrun, hindexed', hrow', hedit⟩ := hindexed.remove_middle hrow hm (by simp) hf
  have hremove : edit (remove f.offset) h = .ok () (h.withLists lists m) := edit_of_ok hrun
  refine ⟨lists, m, ?_, ?_, by simpa using hrow', hedit⟩
  · simp only [absorbNeighbours, Action.bind_apply, hsub, Action.lift_trap_ok, hbelow, hnext,
      habove, tagBelow_concat, Span.tag, Span.isFree_iff.1 hf, haboveTag,
      previousBlock_apply hrow hm, mergeKind, freeRun, hfrun, hgrun, hremove, hadd]
    simp [joined, Action.pure_apply, Nat.add_comm]
  · rw [hfdrop, hgdrop, unlisted, hfrun, hgrun]
    simpa using hindexed'

/-- Both neighbours are free: the one below leaves its list first. -/
theorem exists_absorbed_both {f g : Span}
    (hrow : Row h.region.memory prologue (front ++ [f] ++ s :: g :: back))
    (hm : h.region.memory.size < wordCount)
    (hindexed : h.lists.Indexed h.region.memory (front ++ [f] ++ g :: back) rings)
    (hf : f.isFree = true) (hfrun : freeBelow (front ++ [f]) = [f])
    (hfdrop : (front ++ [f]).rdropWhile Span.isFree = front) (hg : g.isFree = true)
    (hgrun : freeAbove (g :: back) = [g]) (hgdrop : (g :: back).dropWhile Span.isFree = back) :
    ∃ lists m, Absorbed h prologue (front ++ [f]) s (g :: back) rings lists m := by
  obtain ⟨hsub, hbelow, hnext, habove⟩ := neighbours_apply hrow hm
  have hstop := hrow.offset_eq_stop
  have hadd₁ : Word.add s.size f.size = .ok (s.size + f.size) := by
    refine add_sizes hrow hm ?_
    simp
    omega
  have hadd : Word.add (s.size + f.size) g.size = .ok (s.size + f.size + g.size) := by
    refine add_sizes hrow hm ?_
    simp
    omega
  rw [List.append_assoc, List.singleton_append] at hrow hindexed
  obtain ⟨lists₁, m₁, hrun₁, hindexed₁, hrow₁, hedit₁⟩ :=
    hindexed.remove_middle hrow hm (by simp) hf
  obtain ⟨lists, m, hrun, hindexed', hrow', hedit⟩ :=
    hindexed₁.remove_middle hrow₁ (hedit₁.size_eq ▸ hm) (by simp) hg
  have hremove₁ : edit (remove f.offset) h = .ok () (h.withLists lists₁ m₁) := edit_of_ok hrun₁
  have hremove : edit (remove s.stop) (h.withLists lists₁ m₁) = .ok () (h.withLists lists m) :=
    edit_of_ok (hstop ▸ hrun)
  refine ⟨lists, m, ?_, ?_, by simpa using hrow',
    hedit₁.trans (hedit.mono fun i => linkBytes_of_dropped)⟩
  · simp only [absorbNeighbours, Action.bind_apply, hsub, Action.lift_trap_ok, hbelow, hnext,
      habove, tagBelow_concat, tagAbove_cons, Span.tag, Span.isFree_iff.1 hf,
      Span.isFree_iff.1 hg, previousBlock_apply hrow hm, mergeKind, freeRun, hfrun, hgrun,
      hremove₁, hremove, hadd₁, hadd]
    simp [joined, Action.pure_apply]
    omega
  · rw [hfdrop, hgdrop, unlisted, hfrun, hgrun]
    simpa [dropped_dropped] using hindexed'

/-- The free neighbours leave their lists, whichever of them there are. -/
theorem exists_absorbed (hrow : Row h.region.memory prologue (front ++ s :: back))
    (hm : h.region.memory.size < wordCount)
    (hindexed : h.lists.Indexed h.region.memory (front ++ back) rings)
    (hfront : Separated front) (hback : Separated back) :
    ∃ lists m, Absorbed h prologue front s back rings lists m := by
  rcases freeBelow_cases hfront with hbelow | ⟨front', f, rfl, hf, hfrun, hfdrop, -, -⟩ <;>
  rcases freeAbove_cases hback with habove | ⟨g, back', rfl, hg, hgrun, hgdrop, -, -⟩
  · exact ⟨_, _, absorbed_alone hrow hm hindexed hbelow habove⟩
  · exact exists_absorbed_next hrow hm hindexed hbelow hg hgrun hgdrop
  · exact exists_absorbed_previous hrow hm hindexed habove hf hfrun hfdrop
  · exact exists_absorbed_both hrow hm hindexed hf hfrun hfdrop hg hgrun hgdrop

/-! ## Merging -/

/-- What merging changes are bytes of free blocks. -/
theorem freeBytes_of_mergeBytes {lists : FreeLists} {m : Memory}
    (hindexed : lists.Indexed m (front ++ back) rings)
    (hrow : Row m prologue (front ++ s :: back)) (hfree : s.isFree = true) {i : Nat}
    (hi : MergeBytes rings front s back i) : FreeBytes (front ++ s :: back) i := by
  have hmin : minBlock ≤ (joined (freeRun front s back)).size :=
    Nat.le_trans (hrow.bounds (by simp)).2.1 (size_le_joined (s := s) (by simp [freeRun]))
  have hmerged : ∀ j, (joined (freeRun front s back)).Covers j →
      FreeBytes (front ++ s :: back) j := by
    intro j hj
    exact freeBytes_merged hrow.tiles hfree ⟨_, by simp [merged], isFree_joined _, hj⟩
  rcases hi with hi | hi | hi
  · have hsub : ∀ u ∈ front ++ back, u ∈ front ++ s :: back := by
      intro u hu
      rcases List.mem_append.1 hu with hu | hu <;> simp [hu]
    have hpayload := hindexed.freePayload (fun u hu => (hrow.bounds (hsub u hu)).2.1) hi
    exact (freeBytes_of_freePayload hpayload).mono hsub
  · exact hmerged i (.of_inTags (Nat.le_trans (by decide) hmin) hi)
  · exact hmerged i (.of_inPayload (inPayload_of_owns hmin hi))

/-- Merging puts one block in the place of the run, in the rings as among the blocks. -/
theorem coalesce_apply (hrow : Row h.region.memory (h.base + pairSize) (front ++ s :: back))
    (hm : h.region.memory.size < wordCount)
    (hindexed : h.lists.Indexed h.region.memory (front ++ back) rings)
    (hfront : Separated front) (hback : Separated back) :
    ∃ lists m,
      coalesce s.offset h =
        .ok (joined (freeRun front s back)).offset
          ((h.withLists lists m).logged (.coalesced (mergeKind front back)
            (joined (freeRun front s back)).offset (joined (freeRun front s back)).size)) ∧
      Consistent lists m (h.base + pairSize) (merged front s back) (relisted rings front s back) ∧
      h.region.memory.Rewritten m (MergeBytes rings front s back) [] := by
  obtain ⟨lists₁, m₁, hrun₁, hindexed₁, hrow₁, hedit₁⟩ :=
    exists_absorbed hrow hm hindexed hfront hback
  have hm₁ : m₁.size < wordCount := hedit₁.size_eq ▸ hm
  rw [middle_eq_freeRun] at hrow₁
  obtain ⟨hin, heditTags, hrow₂⟩ := hrow₁.join hm₁ (freeRun_ne_nil front s back)
  have hindexed₂ := hindexed₁.edited_between hrow₁ hm₁ heditTags
  have hm₂ : (tagged m₁ (joined (freeRun front s back))).size < wordCount := by simpa using hm₁
  obtain ⟨lists, m, hrun, hindexed', hrow', hlinks⟩ :=
    hindexed₂.insert hrow₂ hm₂ List.perm_middle (isFree_joined _)
  have hheader : read (header · s.offset) h = .ok s.tag h := read_of_ok hrow.header_eq
  have hwrite : write (writeTags (joined (freeRun front s back)).offset
      ⟨(joined (freeRun front s back)).size, false⟩) (h.withLists lists₁ m₁) =
      .ok () (h.withLists lists₁ (tagged m₁ (joined (freeRun front s back)))) :=
    write_of_ok (tag_joined (freeRun front s back) ▸ writeTags_apply hin.fits)
  have hinsert : edit (insert (joined (freeRun front s back)).offset
      (.ofSize (joined (freeRun front s back)).size))
      (h.withLists lists₁ (tagged m₁ (joined (freeRun front s back)))) =
      .ok () (h.withLists lists m) := edit_of_ok hrun
  have hlog : ∀ event, logEvent event (h.withLists lists m) =
      .ok () ((h.withLists lists m).logged event) := by
    intro event
    refine logEvent_apply ?_ event
    intro _
    exact Nat.le_trans (Nat.le_add_right _ _)
      (Nat.le_trans (Nat.le_add_right _ _) hrow'.tiles.le)
  obtain ⟨hoff, hsize, -⟩ := hrow₂.proper (joined (freeRun front s back)) (by simp)
  refine ⟨lists, m, ?_, ⟨hrow', separated_merged hfront hback s, hindexed'⟩, ?_⟩
  · simp only [coalesce, Action.bind_apply, hheader, Span.tag, hrun₁, hwrite, hinsert, hlog,
      Action.pure_apply]
  · have htags := rewritten_tagged_free hin hoff hsize (isFree_joined _)
    refine (hedit₁.mono fun i => Or.inl).trans
      ((htags.mono fun i hi => Or.inr (Or.inl hi)).trans (hlinks.mono fun i hi => ?_))
    rcases linkBytes_of_pushed hi with hi | hi
    · exact Or.inl (linkBytes_of_dropped hi)
    · exact Or.inr (Or.inr hi)

end SegregatedFit.Heap
