-- SUMMARY: The tags of a row of blocks, written in any order and walked both ways.
import SegregatedFit.Proofs.Block.Row

/-!
# Partitions

Any list of tags makes a row of blocks, each beginning where the one before it ends
(`laidFrom`). Two blocks of such a row share no byte of their tags, even where a block
is nothing but tags, so these can be written in any order. From the written tags the row
can then be walked block by block, forward through the headers and backward through the
footers. Main statement: `laid_of_partition`, which also says when tags are refused.
-/
namespace SegregatedFit

/-- The word at an offset, taken modulo `wordCount`, lies inside the memory. -/
def Memory.HasWord (m : Memory) (off : Int) : Prop := off % wordCount + wordSize ≤ m.size

namespace Block

variable {m m' : Memory} {start stop bp : Nat} {tag : Tag} {tags : List Tag} {spans : List Span}

/-- The blocks with these tags, one after the other from `start` on. -/
def laidFrom (start : Nat) : List Tag → List Span
  | [] => []
  | tag :: tags => ⟨start, tag.size, tag.allocated⟩ :: laidFrom (start + tag.size) tags

/-- Writes the tags of the blocks, in the order of the list. -/
def writeAll (spans : List Span) : Action HeapError Memory Unit :=
  spans.forM fun s => writeTags s.offset s.tag

/-- The offsets that `n` steps lead through, from `bp` on. -/
def trail (step : Nat → Except HeapError Nat) : Nat → Nat → Except HeapError (List Nat)
  | 0, bp => return [bp]
  | n + 1, bp => do return bp :: (← trail step n (← step bp))

/-- `m'` is `m` with the tags of the row of blocks from `start` on. Each block reads back
its own tag, the blocks lead from one to the next and back, and no byte but those of the
tags is another one. -/
structure Laid (m m' : Memory) (start : Nat) (tags : List Tag) : Prop where
  header_eq : ∀ s ∈ laidFrom start tags, header m' s.offset = .ok s.tag
  footer_eq : ∀ s ∈ laidFrom start tags, footer m' s.offset = .ok s.tag
  forward : trail (next m') tags.length start =
    .ok ((laidFrom start tags).map Span.offset ++ [start + (tags.map Tag.size).sum])
  backward : trail (previous m') tags.length (start + (tags.map Tag.size).sum) =
    .ok ((start + (tags.map Tag.size).sum) :: ((laidFrom start tags).map Span.offset).reverse)
  edited : m.Edited m' fun i => ∃ s ∈ laidFrom start tags, s.InTags i

/-! ## The row of the tags -/

theorem length_laidFrom (start : Nat) (tags : List Tag) :
    (laidFrom start tags).length = tags.length := by
  induction tags generalizing start with
  | nil => rfl
  | cons tag tags ih => rw [laidFrom, List.length_cons, List.length_cons, ih]

theorem tiles_laidFrom (start : Nat) (tags : List Tag) :
    Tiles start (laidFrom start tags) (start + (tags.map Tag.size).sum) := by
  induction tags generalizing start with
  | nil => rfl
  | cons tag tags ih =>
    refine ⟨rfl, ?_⟩
    have hrest := ih (start + tag.size)
    rwa [Nat.add_assoc] at hrest

theorem tag_mem_of_laidFrom {s : Span} (hs : s ∈ laidFrom start tags) : s.tag ∈ tags := by
  induction tags generalizing start with
  | nil => cases hs
  | cons tag tags ih =>
    rcases List.mem_cons.1 hs with rfl | hs
    · exact List.mem_cons_self
    · exact List.mem_cons_of_mem _ (ih hs)

/-- The blocks of a row lie apart from one another. -/
theorem Tiles.pairwise_apart (h : Tiles start spans stop) :
    spans.Pairwise fun s t => s.stop ≤ t.offset ∨ t.stop ≤ s.offset := by
  induction spans generalizing start with
  | nil => exact .nil
  | cons s spans ih =>
    exact .cons (fun t ht => Or.inl (h.2.mem_bounds ht).1) (ih h.2)

/-! ## Writing the tags -/

/-- Tags of blocks that lie apart can be written one after the other: what is written
later leaves the earlier ones as they are. -/
theorem writeAll_apply (hfits : ∀ s ∈ spans, s.Fits m) (hdvd : ∀ s ∈ spans, pairSize ∣ s.size)
    (hapart : spans.Pairwise fun s t => s.stop ≤ t.offset ∨ t.stop ≤ s.offset) :
    ∃ m', writeAll spans m = .ok () m' ∧ (∀ s ∈ spans, s.TaggedIn m') ∧
      m.Edited m' fun i => ∃ s ∈ spans, s.InTags i := by
  induction spans generalizing m with
  | nil => exact ⟨m, rfl, fun s hs => (List.not_mem_nil hs).elim, .refl m _⟩
  | cons s rest ih =>
    obtain ⟨hfirst, hrest⟩ := List.pairwise_cons.1 hapart
    have hs : s.Fits m := hfits s List.mem_cons_self
    have hs' : s.Fits (tagged m s) := hs.of_size_eq (size_tagged m s)
    have htagged : s.TaggedIn (tagged m s) := taggedIn_tagged hs (hdvd s List.mem_cons_self)
    obtain ⟨m', hrun, hall, hedit⟩ := ih (m := tagged m s)
      (fun t ht => (hfits t (List.mem_cons_of_mem s ht)).of_size_eq (size_tagged m s))
      (fun t ht => hdvd t (List.mem_cons_of_mem s ht)) hrest
    refine ⟨m', ?_, ?_, ?_⟩
    · exact (Action.bind_of_ok (writeTags_apply hs) fun _ => writeAll rest).trans hrun
    · intro t ht
      rcases List.mem_cons.1 ht with rfl | ht
      · refine htagged.edited hs' hedit fun i hi => ?_
        rintro ⟨u, hu, hui⟩
        have hu' : u.Fits m := hfits u (List.mem_cons_of_mem t hu)
        exact Span.Covers.apart (.of_inTags hs.pair_le hi) (.of_inTags hu'.pair_le hui)
          (hfirst u hu)
      · exact hall t ht
    · refine ((edited_tagged hs).mono fun i hi => ⟨s, List.mem_cons_self, hi⟩).trans
        (hedit.mono fun i hi => ?_)
      obtain ⟨t, ht, hti⟩ := hi
      exact ⟨t, List.mem_cons_of_mem s ht, hti⟩

/-! ## Walking the row -/

/-- The headers lead through a row of tagged blocks to its end. -/
theorem Tiles.trail_next (h : Tiles start spans stop) (htagged : ∀ s ∈ spans, s.TaggedIn m)
    (hlt : ∀ s ∈ spans, s.stop < wordCount) :
    trail (next m) spans.length start = .ok (spans.map Span.offset ++ [stop]) := by
  induction spans generalizing start with
  | nil =>
    obtain rfl := h
    rfl
  | cons s spans ih =>
    obtain ⟨rfl, hrest⟩ := h
    have hnext : next m s.offset = .ok s.stop :=
      (htagged s List.mem_cons_self).next_eq (hlt s List.mem_cons_self)
    have htrail := ih hrest (fun t ht => htagged t (List.mem_cons_of_mem s ht))
      fun t ht => hlt t (List.mem_cons_of_mem s ht)
    simp only [List.length_cons, trail, hnext, htrail, bind, Except.bind, pure, Except.pure,
      List.map_cons, List.cons_append]

/-- The footers lead through a row of tagged blocks to its beginning. -/
theorem Tiles.trail_previous (h : Tiles start spans stop) (htagged : ∀ s ∈ spans, s.TaggedIn m)
    (hlt : ∀ s ∈ spans, s.stop < wordCount) :
    trail (previous m) spans.length stop =
      .ok (stop :: (spans.map Span.offset).reverse) := by
  -- backward, the row is taken apart at its end
  induction spans using List.reverseRecOn generalizing stop with
  | nil => rfl
  | append_singleton spans s ih =>
    obtain ⟨mid, hfirst, rfl, rfl⟩ := tiles_append.1 h
    have hs : s ∈ spans ++ [s] := List.mem_append_right _ List.mem_cons_self
    have hprevious : previous m s.stop = .ok s.offset := (htagged s hs).previous_eq (hlt s hs)
    have htrail := ih hfirst (fun t ht => htagged t (List.mem_append_left _ ht))
      fun t ht => hlt t (List.mem_append_left _ ht)
    simp only [List.length_append, List.length_singleton, trail, hprevious, htrail, bind,
      Except.bind, pure, Except.pure, List.map_append, List.map_cons, List.map_nil,
      List.reverse_append, List.reverse_cons, List.reverse_nil, List.nil_append,
      List.singleton_append]

/-! ## Refused tags -/

theorem headerOffset_eq_emod (h : bp < wordCount) :
    (headerOffset bp : Int) = ((bp : Int) - wordSize) % wordCount := by
  rw [headerOffset, Word.wrapSub]
  split <;> simp only [wordSize, wordCount] at * <;> omega

theorem footerOffset_eq_emod (bp size : Nat) :
    (footerOffset bp size : Int) = ((bp : Int) + size - pairSize) % wordCount := by
  rw [footerOffset, Word.wrapSub, Word.wrapAdd]
  split <;> simp only [pairSize, wordCount] at * <;> omega

/-- Tags are refused where one of their two words is not inside the memory. -/
theorem writeTags_eq_error_iff (h : bp < wordCount) :
    (∃ failure m', writeTags bp tag m = .error failure m') ↔
      ¬ (m.HasWord (bp - wordSize) ∧ m.HasWord (bp + tag.size - pairSize)) := by
  have hheader : m.HasWord (bp - wordSize) ↔ ¬ m.size < headerOffset bp + wordSize := by
    rw [Memory.HasWord, ← headerOffset_eq_emod h]
    omega
  have hfooter : m.HasWord (bp + tag.size - pairSize) ↔
      ¬ m.size < footerOffset bp tag.size + wordSize := by
    rw [Memory.HasWord, ← footerOffset_eq_emod]
    omega
  rw [hheader, hfooter]
  simp only [writeTags]
  split
  · simp_all
  · split <;> simp_all

/-- Where tags are refused, nothing was written. -/
theorem eq_of_writeTags_error {failure : Failure HeapError}
    (h : writeTags bp tag m = .error failure m') :
    m' = m ∧ ∃ off, failure = .refused (.outOfBounds off m.size) := by
  simp only [writeTags] at h
  split at h
  · cases h
    exact ⟨rfl, _, rfl⟩
  · split at h
    · cases h
      exact ⟨rfl, _, rfl⟩
    · cases h

/-! ## Both -/

/-- The tags of a row of blocks, of sizes that are positive multiples of a pair, can be
written in any order where all of them fit into the memory (a footer ends one word before
its block does); the row then reads back, can be walked both ways, and no other byte has
changed. Writing any tags anywhere is refused exactly if the word of the header or that of
the footer is not inside the memory, and then leaves it as it was. -/
theorem laid_of_partition :
    (∀ (m : Memory) (start : Nat) (tags : List Tag) (order : List Span),
      m.size + wordSize < wordCount → pairSize ≤ start →
      (∀ tag ∈ tags, pairSize ∣ tag.size ∧ 0 < tag.size) →
      (∀ s ∈ laidFrom start tags, s.stop ≤ m.size + wordSize) →
      order.Perm (laidFrom start tags) →
      ∃ m', writeAll order m = .ok () m' ∧ Laid m m' start tags) ∧
    ∀ (m : Memory) (bp : Nat) (tag : Tag), bp < wordCount →
      ((∃ failure m', writeTags bp tag m = .error failure m') ↔
        ¬ (m.HasWord (bp - wordSize) ∧ m.HasWord (bp + tag.size - pairSize))) ∧
      ∀ failure m', writeTags bp tag m = .error failure m' →
        m' = m ∧ ∃ off, failure = .refused (.outOfBounds off m.size) := by
  refine ⟨?_, fun m bp tag hbp => ⟨writeTags_eq_error_iff hbp, fun _ _ => eq_of_writeTags_error⟩⟩
  intro m start tags order hm hstart htags hin horder
  have htiles := tiles_laidFrom start tags
  have hdvd : ∀ s ∈ laidFrom start tags, pairSize ∣ s.size := fun s hs =>
    (htags s.tag (tag_mem_of_laidFrom hs)).1
  have hfits : ∀ s ∈ laidFrom start tags, s.Fits m := fun s hs => by
    have hstop := hin s hs
    exact {
      start_le := Nat.le_trans (Nat.le_trans (by decide) hstart) (htiles.mem_bounds hs).1
      pair_le := Nat.le_of_dvd (htags s.tag (tag_mem_of_laidFrom hs)).2 (hdvd s hs)
      footer_le := hstop
      stop_lt := Nat.lt_of_le_of_lt hstop hm }
  obtain ⟨m', hrun, htagged, hedit⟩ := writeAll_apply (m := m)
    (fun s hs => hfits s (horder.mem_iff.1 hs)) (fun s hs => hdvd s (horder.mem_iff.1 hs))
    ((horder.pairwise_iff Or.symm).2 htiles.pairwise_apart)
  have htagged' : ∀ s ∈ laidFrom start tags, s.TaggedIn m' := fun s hs =>
    htagged s (horder.mem_iff.2 hs)
  have hlt : ∀ s ∈ laidFrom start tags, s.stop < wordCount := fun s hs => (hfits s hs).stop_lt
  have hlength := length_laidFrom start tags
  refine ⟨m', hrun, ?_⟩
  exact {
    header_eq := fun s hs => (htagged' s hs).1
    footer_eq := fun s hs => (htagged' s hs).footer_eq
    forward := hlength ▸ htiles.trail_next htagged' hlt
    backward := hlength ▸ htiles.trail_previous htagged' hlt
    edited := hedit.mono fun i => by simp only [horder.mem_iff, imp_self] }

/-- Three blocks, the one in the middle nothing but tags, that end with the memory. The
tags of the last one are written first. -/
theorem laid_of_partition_of_three :
    (∃ m', writeAll [⟨64, 48, true⟩, ⟨16, 32, true⟩, ⟨48, 16, false⟩] (Memory.zeros 104) =
      .ok () m' ∧ Laid (Memory.zeros 104) m' 16 [⟨32, true⟩, ⟨16, false⟩, ⟨48, true⟩]) ∧
    ∃ failure m', writeTags 64 ⟨64, true⟩ (Memory.zeros 104) = .error failure m' ∧
      m' = Memory.zeros 104 := by
  obtain ⟨hlaid, hrefused⟩ := laid_of_partition
  constructor
  · refine hlaid (Memory.zeros 104) 16 [⟨32, true⟩, ⟨16, false⟩, ⟨48, true⟩] _ ?_ ?_ ?_ ?_ ?_
    · rw [Memory.size_zeros]
      decide
    · decide
    · decide
    · rw [Memory.size_zeros]
      decide
    · decide
  · obtain ⟨herror, hsame⟩ := hrefused (Memory.zeros 104) 64 ⟨64, true⟩ (by decide)
    obtain ⟨failure, m', hrun⟩ := herror.2 (by
      rw [Memory.HasWord, Memory.HasWord, Memory.size_zeros]
      decide)
    exact ⟨failure, m', hrun, (hsame failure m' hrun).1⟩

end Block
end SegregatedFit
