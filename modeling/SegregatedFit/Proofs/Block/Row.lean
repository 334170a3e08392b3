-- SUMMARY: Rows of tagged blocks between a prologue and an epilogue, and the edits that keep them.
import Mathlib.Data.List.DropRight
import SegregatedFit.Proofs.Block.Claims

/-!
# Rows

`Row m prologue spans` says that the memory holds exactly these blocks between
the prologue and the epilogue at its end. A block finds its neighbours through
the words around it (`Row.readTag_below`, `Row.header_stop`). Main statements:
an edit of payloads keeps the row (`Row.edited_payload`), and so does replacing
some of its blocks by others that fill the same stretch (`Row.replace`).
-/
namespace SegregatedFit.Block

/-- The prologue as a block: two tags and no payload. -/
def prologueSpan (prologue : Nat) : Span := ⟨prologue, pairSize, true⟩

/-- The blocks of a memory from the prologue to the epilogue at its end. -/
structure Row (m : Memory) (prologue : Nat) (spans : List Span) : Prop where
  prologue_tagged : (prologueSpan prologue).TaggedIn m
  tiles : Tiles (prologue + pairSize) spans m.size
  tagged : ∀ s ∈ spans, s.TaggedIn m
  proper : ∀ s ∈ spans, s.Proper
  epilogue : header m m.size = .ok ⟨0, true⟩

/-! ## Tilings -/

/-- Two blocks of a tiling are the same, or one lies before the other. -/
theorem Tiles.eq_or_apart {start stop : Nat} {spans : List Span} (h : Tiles start spans stop)
    {s t : Span} (hs : s ∈ spans) (ht : t ∈ spans) :
    s = t ∨ s.stop ≤ t.offset ∨ t.stop ≤ s.offset := by
  induction spans generalizing start with
  | nil => cases hs
  | cons a rest ih =>
    rcases List.mem_cons.1 hs with rfl | hs' <;> rcases List.mem_cons.1 ht with rfl | ht'
    · exact Or.inl rfl
    · exact Or.inr (Or.inl (h.2.mem_bounds ht').1)
    · exact Or.inr (Or.inr (h.2.mem_bounds hs').1)
    · exact ih h.2 hs' ht'

theorem Tiles.dvd_stop {start stop : Nat} {spans : List Span} (h : Tiles start spans stop)
    (hstart : pairSize ∣ start) (hsizes : ∀ s ∈ spans, pairSize ∣ s.size) : pairSize ∣ stop := by
  induction spans generalizing start with
  | nil => exact h ▸ hstart
  | cons s rest ih =>
    have hs : pairSize ∣ s.stop := Nat.dvd_add (h.1 ▸ hstart) (hsizes s List.mem_cons_self)
    exact ih h.2 hs fun t ht => hsizes t (List.mem_cons_of_mem s ht)

/-- Blocks take at least `minBlock` bytes each. -/
theorem Tiles.length_mul_le {start stop : Nat} {spans : List Span} (h : Tiles start spans stop)
    (hmin : ∀ s ∈ spans, minBlock ≤ s.size) : start + minBlock * spans.length ≤ stop := by
  induction spans generalizing start with
  | nil => exact Nat.le_of_eq h
  | cons s rest ih =>
    have hs := hmin s List.mem_cons_self
    have hrest := ih h.2 fun t ht => hmin t (List.mem_cons_of_mem s ht)
    have hoff := h.1
    simp only [Span.stop, List.length_cons, Nat.mul_add, Nat.mul_one] at *
    omega

/-- No block occurs twice in a tiling. -/
theorem Tiles.nodup {start stop : Nat} {spans : List Span} (h : Tiles start spans stop)
    (hpos : ∀ s ∈ spans, 0 < s.size) : spans.Nodup := by
  induction spans generalizing start with
  | nil => exact List.nodup_nil
  | cons s rest ih =>
    refine List.nodup_cons.2 ⟨?_, ih h.2 fun t ht => hpos t (List.mem_cons_of_mem s ht)⟩
    intro hs
    have hle := (h.2.mem_bounds hs).1
    have hsize := hpos s List.mem_cons_self
    simp only [Span.stop] at hle
    omega

/-! ## Blocks of a row -/

section Row

variable {m m' : Memory} {prologue : Nat} {spans : List Span} {w : Nat → Prop}

theorem Row.wordSize_le_prologue (h : Row m prologue spans) (hm : m.size < wordCount) :
    wordSize ≤ prologue := by
  have hread := (readTag_eq_ok_iff.1 h.prologue_tagged.1).1
  by_contra hlt
  rw [headerOffset, prologueSpan, Word.wrapSub, if_neg hlt] at hread
  simp only [wordSize, wordCount] at *
  omega

theorem Row.prologue_inside (h : Row m prologue spans) (hm : m.size < wordCount) :
    (prologueSpan prologue).Inside m :=
  ⟨h.wordSize_le_prologue hm, Nat.le_refl _, h.tiles.le, hm⟩

theorem Row.bounds (h : Row m prologue spans) {s : Span} (hs : s ∈ spans) :
    prologue + pairSize ≤ s.offset ∧ minBlock ≤ s.size ∧ s.stop ≤ m.size := by
  have hb := h.tiles.mem_bounds hs
  exact ⟨hb.1, (h.proper s hs).2.2, hb.2⟩

/-- The memory of a row that begins at an aligned offset has an aligned end. -/
theorem Row.dvd_size (h : Row m prologue spans) (hdvd : pairSize ∣ prologue) : pairSize ∣ m.size :=
  h.tiles.dvd_stop (Nat.dvd_add hdvd (Nat.dvd_refl _)) fun s hs => (h.proper s hs).2.1

/-- Behind the blocks nothing is claimed: the epilogue has no size. -/
theorem Row.not_claims_end (h : Row m prologue spans) {ptr : Nat} (hptr : m.size ≤ ptr) :
    ¬ Claims m ptr := by
  rintro ⟨-, hpos, size, hmin, htag⟩
  obtain ⟨hin, -⟩ := readTag_eq_ok_iff.1 htag
  have hle := h.tiles.le
  obtain rfl : ptr = m.size := by
    simp only [wordSize, pairSize] at *
    omega
  have hepilogue := h.epilogue
  rw [header, headerOffset_of_le (by simp only [wordSize, pairSize] at *; omega), htag] at hepilogue
  obtain rfl : size = 0 := congrArg Tag.size (Except.ok.inj hepilogue)
  cases hmin

theorem Row.nodup (h : Row m prologue spans) : spans.Nodup :=
  h.tiles.nodup fun _ hs => Nat.lt_of_lt_of_le (by decide) (h.bounds hs).2.1

/-- The tags of the memory leave no choice of the blocks. -/
theorem Row.unique {spans' : List Span} (h : Row m prologue spans)
    (h' : Row m prologue spans') : spans = spans' :=
  h.tiles.unique h'.tiles
    (fun s hs => ⟨h.tagged s hs, Nat.lt_of_lt_of_le (by decide) (h.bounds hs).2.1⟩)
    fun s hs => ⟨h'.tagged s hs, Nat.lt_of_lt_of_le (by decide) (h'.bounds hs).2.1⟩

theorem Row.inside (h : Row m prologue spans) (hm : m.size < wordCount) {s : Span}
    (hs : s ∈ spans) : s.Inside m := by
  have hb := h.bounds hs
  simp only [minBlock, pairSize] at hb
  exact ⟨by simp only [wordSize]; omega, by simp only [pairSize]; omega, hb.2.2, hm⟩

/-- No byte belongs to two blocks. -/
theorem Row.eq_of_covers (h : Row m prologue spans) {s t : Span} (hs : s ∈ spans) (ht : t ∈ spans)
    {i : Nat} (hi : s.Covers i) (hi' : t.Covers i) : s = t := by
  rcases h.tiles.eq_or_apart hs ht with heq | hapart
  · exact heq
  · exact (hi.apart hi' hapart).elim

/-- A block is known by where it begins. -/
theorem Row.eq_of_offset (h : Row m prologue spans) {s t : Span} (hs : s ∈ spans) (ht : t ∈ spans)
    (hoff : s.offset = t.offset) : s = t := by
  have hbs := h.bounds hs
  have hbt := h.bounds ht
  refine h.eq_of_covers hs ht (i := s.offset) ?_ ?_ <;>
    simp only [Span.Covers, Span.stop, wordSize, minBlock] at * <;> omega

theorem Row.prologue_covers (h : Row m prologue spans) {s : Span} (hs : s ∈ spans) {i : Nat}
    (hi : s.Covers i) : ¬ (prologueSpan prologue).Covers i := by
  have hb := h.bounds hs
  simp only [Span.Covers, prologueSpan, Span.stop, wordSize, pairSize] at *
  omega

theorem Row.covers_lt (h : Row m prologue spans) {s : Span} (hs : s ∈ spans) {i : Nat}
    (hi : s.Covers i) : i + wordSize < m.size := by
  have hb := h.bounds hs
  simp only [Span.Covers] at hi
  omega

/-- An edit of payloads keeps the row. -/
theorem Row.edited_payload (h : Row m prologue spans) (hm : m.size < wordCount)
    (hedit : m.Edited m' w) (hw : ∀ i, w i → ∃ s ∈ spans, s.InPayload i) :
    Row m' prologue spans := by
  have hepi : ∀ i, m.size - wordSize ≤ i → ¬ w i := by
    intro i hi hwi
    obtain ⟨s, hs, hsi⟩ := hw i hwi
    have hlt := h.covers_lt hs (.of_inPayload hsi)
    omega
  refine ⟨?_, hedit.size_eq ▸ h.tiles, ?_, h.proper, ?_⟩
  · refine h.prologue_tagged.edited (h.prologue_inside hm).fits hedit ?_
    intro i hi hwi
    obtain ⟨s, hs, hsi⟩ := hw i hwi
    exact h.prologue_covers hs (.of_inPayload hsi) (.of_inTags (Nat.le_refl _) hi)
  · intro s hs
    refine (h.tagged s hs).edited (h.inside hm hs).fits hedit ?_
    intro i hi hwi
    obtain ⟨t, ht, hti⟩ := hw i hwi
    have heq := h.eq_of_covers hs ht (.of_inTags (h.inside hm hs).pair_le hi) (.of_inPayload hti)
    exact Span.not_inTags_of_inPayload hti (heq ▸ hi)
  · have hle := h.tiles.le
    have hfirst : headerOffset m.size = m.size - wordSize :=
      headerOffset_of_le (by simp only [wordSize, pairSize] at *; omega)
    rw [hedit.size_eq, ← h.epilogue, header, header, hfirst]
    exact readTag_edited hedit fun i hi _ => hepi i hi

end Row

/-! ## Neighbours -/

/-- The tag below a block that comes after `front`. -/
def tagBelow (front : List Span) : Tag := (front.getLast?.map Span.tag).getD ⟨pairSize, true⟩

/-- The tag above a block that comes before `back`. -/
def tagAbove (back : List Span) : Tag := (back.head?.map Span.tag).getD ⟨0, true⟩

@[simp] theorem tagBelow_concat (front : List Span) (f : Span) :
    tagBelow (front ++ [f]) = f.tag := by
  simp [tagBelow]

@[simp] theorem tagAbove_cons (g : Span) (back : List Span) : tagAbove (g :: back) = g.tag := rfl

section Neighbours

variable {m : Memory} {prologue : Nat} {front back : List Span} {s : Span}

theorem Row.header_eq (h : Row m prologue (front ++ s :: back)) : header m s.offset = .ok s.tag :=
  (h.tagged s (by simp)).1

/-- Just below a block is the footer of the one before it. -/
theorem Row.readTag_below (h : Row m prologue (front ++ s :: back)) (hm : m.size < wordCount) :
    readTag m (s.offset - pairSize) = .ok (tagBelow front) := by
  obtain ⟨mid, hfront, hs, -⟩ := tiles_append.1 h.tiles
  rcases List.eq_nil_or_concat' front with rfl | ⟨front', f, rfl⟩
  · have hfooter := ((taggedIn_iff (h.prologue_inside hm).fits).1 h.prologue_tagged).2
    simp only [tiles_nil] at hfront
    rw [hs, ← hfront]
    exact hfooter
  · have hmem : f ∈ front' ++ [f] ++ s :: back := by simp
    have hfooter := ((taggedIn_iff (h.inside hm hmem).fits).1 (h.tagged f hmem)).2
    obtain ⟨_, -, -, hstop⟩ := tiles_append.1 hfront
    rw [hs, ← show f.stop = mid from hstop, hfooter]
    simp [tagBelow]

/-- A block begins where the one before it ends. -/
theorem Row.offset_eq_stop {g : Span} (h : Row m prologue (front ++ s :: g :: back)) :
    g.offset = s.stop := by
  obtain ⟨_, -, -, hstop, -⟩ := tiles_append.1 h.tiles
  exact hstop

/-- After a block comes the header of the next one, or the epilogue. -/
theorem Row.header_stop (h : Row m prologue (front ++ s :: back)) :
    header m s.stop = .ok (tagAbove back) := by
  obtain ⟨_, -, -, hback⟩ := tiles_append.1 h.tiles
  cases back with
  | nil =>
    rw [show s.stop = m.size from hback, h.epilogue]
    rfl
  | cons g back =>
    rw [← hback.1, (h.tagged g (by simp)).1]
    rfl

theorem Row.next_eq (h : Row m prologue (front ++ s :: back)) (hm : m.size < wordCount) :
    next m s.offset = .ok s.stop :=
  have hmem : s ∈ front ++ s :: back := List.mem_append_right _ List.mem_cons_self
  (h.tagged s hmem).next_eq (h.inside hm hmem).fits.stop_lt

theorem Row.previous_eq {f : Span} (h : Row m prologue (front ++ f :: s :: back))
    (hm : m.size < wordCount) : previous m s.offset = .ok f.offset := by
  have hmem : f ∈ front ++ f :: s :: back := List.mem_append_right _ List.mem_cons_self
  rw [h.offset_eq_stop]
  exact (h.tagged f hmem).previous_eq (h.inside hm hmem).fits.stop_lt

end Neighbours

/-! ## Changing the blocks of a row -/

section Replace

variable {m m' : Memory} {prologue : Nat} {front mid mid' back : List Span}

/-- Some blocks of a row may be replaced by others that fill the same stretch,
by an edit of the bytes that they cover. -/
theorem Row.replace (h : Row m prologue (front ++ mid ++ back)) (hm : m.size < wordCount)
    (hedit : m.Edited m' fun i => ∃ s ∈ mid, s.Covers i)
    (htiles : ∀ a b, Tiles a mid b → Tiles a mid' b)
    (hmid : ∀ s ∈ mid', s.TaggedIn m' ∧ s.Proper) : Row m' prologue (front ++ mid' ++ back) := by
  have hsub : ∀ s ∈ mid, s ∈ front ++ mid ++ back := by
    intro s hs
    simp [hs]
  obtain ⟨b, hfm, hback⟩ := tiles_append.1 h.tiles
  obtain ⟨a, hfront, hmid₀⟩ := tiles_append.1 hfm
  -- a block that is kept lies wholly before or wholly after those that are replaced
  have hkeep : ∀ s, s ∈ front ∨ s ∈ back → s.TaggedIn m' ∧ s.Proper := by
    intro s hs
    have hs' : s ∈ front ++ mid ++ back := by
      rcases hs with hs | hs <;> simp [hs]
    refine ⟨(h.tagged s hs').edited (h.inside hm hs').fits hedit ?_, h.proper s hs'⟩
    intro i hi
    rintro ⟨t, ht, hti⟩
    have hbt := hmid₀.mem_bounds ht
    refine Span.Covers.apart (.of_inTags (h.inside hm hs').pair_le hi) hti ?_
    rcases hs with hs | hs
    · exact Or.inl (Nat.le_trans (hfront.mem_bounds hs).2 hbt.1)
    · exact Or.inr (Nat.le_trans hbt.2 (hback.mem_bounds hs).1)
  refine ⟨?_, ?_, ?_, ?_, ?_⟩
  · refine h.prologue_tagged.edited (h.prologue_inside hm).fits hedit ?_
    intro i hi
    rintro ⟨t, ht, hti⟩
    exact h.prologue_covers (hsub t ht) hti (.of_inTags (Nat.le_refl _) hi)
  · rw [hedit.size_eq]
    exact tiles_append.2 ⟨b, tiles_append.2 ⟨a, hfront, htiles a b hmid₀⟩, hback⟩
  · intro s hs
    simp only [List.mem_append] at hs
    rcases hs with (hs | hs) | hs
    · exact (hkeep s (Or.inl hs)).1
    · exact (hmid s hs).1
    · exact (hkeep s (Or.inr hs)).1
  · intro s hs
    simp only [List.mem_append] at hs
    rcases hs with (hs | hs) | hs
    · exact (hkeep s (Or.inl hs)).2
    · exact (hmid s hs).2
    · exact (hkeep s (Or.inr hs)).2
  · have hle := h.tiles.le
    have hfirst : headerOffset m.size = m.size - wordSize :=
      headerOffset_of_le (by simp only [wordSize, pairSize] at *; omega)
    rw [hedit.size_eq, ← h.epilogue, header, header, hfirst]
    refine readTag_edited hedit ?_
    intro i hi _
    rintro ⟨t, ht, hti⟩
    have hlt := h.covers_lt (hsub t ht) hti
    omega

end Replace

/-! ## Growing a row -/

section Growth

variable {m : Memory} {prologue : Nat} {spans : List Span} {size : Nat}

/-- The memory with a free block of `size` bytes at its end: the header takes
the place of the epilogue, and a new epilogue follows. -/
def lengthened (m : Memory) (size : Nat) : Memory :=
  (tagged (m.extend size) ⟨m.size, size, false⟩).store (m.size + size - wordSize)
    (Tag.encode ⟨0, true⟩) wordSize

@[simp] theorem size_lengthened (m : Memory) (size : Nat) :
    (lengthened m size).size = m.size + size := by
  simp [lengthened]

theorem writeEpilogue_apply {bp : Nat} (h : wordSize ≤ bp) (hm : bp ≤ m.size) :
    writeEpilogue bp m = .ok () (m.store (bp - wordSize) (Tag.encode ⟨0, true⟩) wordSize) := by
  have hin : bp - wordSize + wordSize ≤ m.size := by rwa [Nat.sub_add_cancel h]
  simp only [writeEpilogue, Memory.writeWord, headerOffset_of_le h, if_pos hin]

/-- A tag is still read where the memory became longer. -/
theorem readTag_extend {off : Nat} {tag : Tag} (h : readTag m off = .ok tag) (n : Nat) :
    readTag (m.extend n) off = .ok tag := by
  obtain ⟨hle, htag⟩ := readTag_eq_ok_iff.1 h
  refine readTag_eq_ok_iff.2 ⟨by simp only [Memory.size_extend]; omega, ?_⟩
  rw [← htag, Memory.load_congr fun i _ _ => m.byteAt_extend n i]

theorem Span.TaggedIn.extend {s : Span} (h : s.TaggedIn m) (n : Nat) : s.TaggedIn (m.extend n) :=
  ⟨readTag_extend h.1 n, readTag_extend h.2 n⟩

/-- Growth touches the old epilogue and the new bytes only. -/
theorem edited_lengthened (hpos : wordSize ≤ m.size) (hsize : pairSize ≤ size)
    (hlt : m.size + size < wordCount) :
    (m.extend size).Edited (lengthened m size) fun i => m.size ≤ i + wordSize := by
  have hs : (Span.mk m.size size false).Inside (m.extend size) :=
    ⟨hpos, hsize, Nat.le_of_eq (Memory.size_extend m size).symm, by simpa using hlt⟩
  refine ((edited_tagged hs.fits).mono fun i hi => (Span.Covers.of_inTags hsize hi).1).trans ?_
  refine (Memory.edited_store _ _ _ _).mono ?_
  intro i hi
  simp only [wordSize, pairSize] at *
  omega

theorem byteAt_lengthened (hpos : wordSize ≤ m.size) (hsize : pairSize ≤ size)
    (hlt : m.size + size < wordCount) {i : Nat} (hi : i + wordSize < m.size) :
    (lengthened m size).byteAt i = m.byteAt i := by
  rw [(edited_lengthened hpos hsize hlt).byteAt_eq i (Nat.not_le.2 hi), Memory.byteAt_extend]

/-- Growth claims nothing: all new words are zero, but for the tags of a free block and
the epilogue. -/
theorem claims_lengthened {ptr : Nat} (hdvd : pairSize ∣ m.size) (hsize : pairSize ∣ size)
    (hpos : wordSize ≤ m.size) (hpair : pairSize ≤ size) (hlt : m.size + size < wordCount)
    (h : Claims (lengthened m size) ptr) : Claims m ptr := by
  have hs : (Span.mk m.size size false).Inside (m.extend size) :=
    ⟨hpos, hpair, Nat.le_of_eq (Memory.size_extend m size).symm, by simpa using hlt⟩
  have hend : m.size + size - wordSize + wordSize ≤
      (tagged (m.extend size) ⟨m.size, size, false⟩).size := by
    rw [size_tagged, Memory.size_extend]
    omega
  have hepilogue : wordSize ∣ m.size + size - wordSize := by
    simp only [wordSize, pairSize] at *
    omega
  have hbefore := (rewritten_store hepilogue hend (by decide)
    (Or.inr (by decide : (Tag.decode (Tag.encode ⟨0, true⟩)).size < minBlock))).claims_of_nil h
  rcases claims_tagged hs hdvd hsize hbefore with ⟨-, halloc⟩ | ⟨-, hextended⟩
  · cases halloc
  · exact claims_extend hdvd hextended

theorem Span.TaggedIn.lengthened {s : Span} (h : s.TaggedIn m) (hs : s.Inside m)
    (hsize : pairSize ≤ size) (hlt : m.size + size < wordCount) :
    s.TaggedIn (lengthened m size) := by
  have hpos : wordSize ≤ m.size := by
    have hstart := hs.start_le
    have hstop := hs.stop_le
    simp only [Span.stop] at hstop
    omega
  have hs' : s.Inside (m.extend size) :=
    ⟨hs.start_le, hs.pair_le, by rw [Memory.size_extend]; exact Nat.le_add_right_of_le hs.stop_le,
      by simpa using hlt⟩
  refine (h.extend size).edited hs'.fits (edited_lengthened hpos hsize hlt) ?_
  intro i hi hle
  have hcov := (Span.Covers.of_inTags hs.pair_le hi).2
  have hstop := hs.stop_le
  omega

/-- A row may be continued by a free block at its end. -/
theorem Row.lengthened (h : Row m prologue spans) (hdvd : pairSize ∣ prologue)
    (hsize : pairSize ∣ size) (hmin : minBlock ≤ size) (hlt : m.size + size < wordCount) :
    Row (lengthened m size) prologue (spans ++ [⟨m.size, size, false⟩]) := by
  have hm : m.size < wordCount := by omega
  have hpair : pairSize ≤ size := Nat.le_trans (by decide) hmin
  have hpos : wordSize ≤ m.size :=
    Nat.le_trans (h.wordSize_le_prologue hm) (Nat.le_trans (Nat.le_add_right _ _) h.tiles.le)
  have hstart : pairSize ∣ m.size := h.dvd_size hdvd
  have hnew : (Span.mk m.size size false).Inside (m.extend size) :=
    ⟨hpos, hpair, Nat.le_of_eq (Memory.size_extend m size).symm, by simpa using hlt⟩
  refine ⟨h.prologue_tagged.lengthened (h.prologue_inside hm) hpair hlt, ?_, ?_, ?_, ?_⟩
  · rw [size_lengthened]
    exact tiles_append.2 ⟨m.size, h.tiles, rfl, rfl⟩
  · intro s hs
    rcases List.mem_append.1 hs with hs | hs
    · exact (h.tagged s hs).lengthened (h.inside hm hs) hpair hlt
    · obtain rfl := List.mem_singleton.1 hs
      have hin : (Span.mk m.size size false).Inside
          (Block.tagged (m.extend size) ⟨m.size, size, false⟩) :=
        ⟨hnew.start_le, hnew.pair_le, by rw [size_tagged]; exact hnew.stop_le,
          by rw [size_tagged]; exact hnew.size_lt⟩
      refine (taggedIn_tagged hnew.fits hsize).edited hin.fits (Memory.edited_store _ _ _ _) ?_
      intro i hi hw
      have hcov := (Span.Covers.of_inTags hpair hi).2
      simp only [Span.stop, wordSize] at hcov hw
      omega
  · intro s hs
    rcases List.mem_append.1 hs with hs | hs
    · exact h.proper s hs
    · obtain rfl := List.mem_singleton.1 hs
      exact ⟨hstart, hsize, hmin⟩
  · have hfirst : headerOffset (m.size + size) = m.size + size - wordSize :=
      headerOffset_of_le (Nat.le_add_right_of_le hpos)
    have hin : m.size + size - wordSize + wordSize ≤ m.size + size := by omega
    have hword : Tag.encode ⟨0, true⟩ < 256 ^ wordSize := by decide
    have hin' : m.size + size - wordSize + wordSize ≤
        (Block.tagged (m.extend size) ⟨m.size, size, false⟩).size := by simpa using hin
    rw [header, size_lengthened, hfirst, readTag_eq_ok_iff, size_lengthened]
    refine ⟨hin, ?_⟩
    rw [Block.lengthened, Memory.load_store hin' hword]
    rfl

attribute [irreducible] lengthened

end Growth

end SegregatedFit.Block
