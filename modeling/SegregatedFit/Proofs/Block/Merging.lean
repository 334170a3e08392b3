-- SUMMARY: Allocated blocks and free runs of a row, and the one block that a run is merged into.
import Mathlib.Data.List.DropRight
import SegregatedFit.Proofs.Block.Row

/-!
# Merging blocks

A block that becomes free is merged with the free blocks on either side of it.
Where no two free blocks are neighbours, there is at most one on each side
(`freeBelow_cases`, `freeAbove_cases`), and the merged row has no such
neighbours again (`separated_merged`). Main statement: `separated_middle`, the
rule for a block between two rows.
-/
namespace SegregatedFit.Block

variable {front back mid spans : List Span} {s : Span} {m : Memory}

/-- The allocated ones of the blocks. -/
def held (spans : List Span) : List Span := spans.filter Span.allocated

/-- The bytes of the free ones of the blocks, tags included. -/
def FreeBytes (spans : List Span) (i : Nat) : Prop := ∃ s ∈ spans, s.isFree = true ∧ s.Covers i

/-- The bytes of the allocated ones of the blocks, tags included. -/
def HeldBytes (spans : List Span) (i : Nat) : Prop := ∃ s ∈ held spans, s.Covers i

/-- One free block in the place of a run of blocks. -/
def joined : List Span → Span
  | [] => default
  | s :: rest => ⟨s.offset, ((s :: rest).map Span.size).sum, false⟩

/-- The free blocks at the end of a row. -/
def freeBelow (front : List Span) : List Span := front.rtakeWhile Span.isFree

/-- The free blocks at the beginning of a row. -/
def freeAbove (back : List Span) : List Span := back.takeWhile Span.isFree

/-- The block between two rows, with the free blocks next to it. -/
def freeRun (front : List Span) (s : Span) (back : List Span) : List Span :=
  freeBelow front ++ s :: freeAbove back

/-- The row in which a free block between two rows is merged with those next to it. -/
def merged (front : List Span) (s : Span) (back : List Span) : List Span :=
  front.rdropWhile Span.isFree ++ joined (freeRun front s back) :: back.dropWhile Span.isFree

/-! ## Allocated blocks -/

theorem mem_held : s ∈ held spans ↔ s ∈ spans ∧ s.allocated = true := List.mem_filter

/-- An allocated block stands between the blocks before it and those behind it. -/
theorem exists_middle_of_held (hs : s ∈ held spans) :
    ∃ front back, spans = front ++ s :: back ∧ s.allocated = true := by
  obtain ⟨hmem, halloc⟩ := mem_held.1 hs
  obtain ⟨front, back, hspans⟩ := List.append_of_mem hmem
  exact ⟨front, back, hspans, halloc⟩

@[simp] theorem held_append (front back : List Span) :
    held (front ++ back) = held front ++ held back :=
  List.filter_append front back

theorem held_cons_allocated (h : s.allocated = true) (spans : List Span) :
    held (s :: spans) = s :: held spans :=
  List.filter_cons_of_pos h

theorem held_cons_free (h : s.isFree = true) (spans : List Span) : held (s :: spans) = held spans :=
  List.filter_cons_of_neg (by simpa [Span.isFree] using h)

theorem FreeBytes.mono {spans' : List Span} (hsub : ∀ t ∈ spans, t ∈ spans') {i : Nat}
    (h : FreeBytes spans i) : FreeBytes spans' i := by
  obtain ⟨t, ht, hfree, hti⟩ := h
  exact ⟨t, hsub t ht, hfree, hti⟩

/-- A byte of an allocated block is no byte of a free one. -/
theorem Row.not_freeBytes {prologue : Nat} (h : Row m prologue spans) (hs : s ∈ held spans)
    {i : Nat} (hi : s.Covers i) : ¬ FreeBytes spans i := by
  rintro ⟨t, ht, hfree, hti⟩
  obtain ⟨hs, halloc⟩ := mem_held.1 hs
  obtain rfl := h.eq_of_covers hs ht hi hti
  simp [Span.isFree, halloc] at hfree

/-- A byte before the prologue is no byte of a free block. -/
theorem Row.not_freeBytes_of_lt {prologue : Nat} (h : Row m prologue spans) {i : Nat}
    (hi : i < prologue) : ¬ FreeBytes spans i := by
  rintro ⟨t, ht, -, hti, -⟩
  have hstart := (h.bounds ht).1
  simp only [wordSize, pairSize] at *
  omega

/-- An edit of free blocks keeps the allocated ones. -/
theorem Row.kept {prologue : Nat} {m' : Memory} (h : Row m prologue spans)
    (hedit : m.Edited m' (FreeBytes spans)) : m.Kept m' (HeldBytes spans) :=
  hedit.kept fun _ ⟨_, hs, hi⟩ => h.not_freeBytes hs hi

/-! ## Neighbours -/

/-- The rule for a block between two rows: it is allocated, or what is next to it is. -/
theorem separated_middle :
    Separated (front ++ s :: back) ↔
      Separated front ∧ Separated back ∧
        (s.allocated = true ∨
          (tagBelow front).allocated = true ∧ (tagAbove back).allocated = true) := by
  induction front with
  | nil =>
    cases back with
    | nil => simp [Separated, tagBelow, tagAbove]
    | cons g back =>
      simp only [List.nil_append, Separated, tagBelow, tagAbove, Span.tag, List.getLast?_nil,
        List.head?_cons, Option.map_none, Option.map_some, Option.getD_none, Option.getD_some,
        true_and, and_comm]
  | cons a front ih =>
    cases front with
    | nil =>
      simp only [List.cons_append, List.nil_append, Separated] at ih ⊢
      rw [ih]
      simp only [tagBelow, Span.tag, List.getLast?_nil, List.getLast?_singleton, Option.map_none,
        Option.map_some, Option.getD_none, Option.getD_some, true_and]
      tauto
    | cons b front =>
      have hbelow : tagBelow (a :: b :: front) = tagBelow (b :: front) := by
        simp [tagBelow, List.getLast?_cons_cons]
      simp only [List.cons_append, Separated] at ih ⊢
      rw [ih, hbelow, and_assoc]

/-- The rule for the first block of a row. -/
theorem separated_cons :
    Separated (s :: back) ↔
      Separated back ∧ (s.allocated = true ∨ (tagAbove back).allocated = true) := by
  cases back with
  | nil => simp [Separated, tagAbove]
  | cons g back => simp only [Separated, tagAbove, Span.tag, List.head?_cons, Option.map_some,
      Option.getD_some, and_comm]

/-- No free block is at the end of a row that ends in an allocated one. -/
theorem freeBelow_of_allocated (h : (tagBelow front).allocated = true) :
    freeBelow front = [] ∧ front.rdropWhile Span.isFree = front := by
  rcases List.eq_nil_or_concat' front with rfl | ⟨front', f, rfl⟩
  · exact ⟨rfl, rfl⟩
  · have hf : f.isFree = false := by
      simpa [tagBelow, Span.tag, Span.isFree] using h
    rw [freeBelow, List.rtakeWhile_concat, List.rdropWhile_concat, hf]
    exact ⟨rfl, rfl⟩

theorem freeAbove_of_allocated (h : (tagAbove back).allocated = true) :
    freeAbove back = [] ∧ back.dropWhile Span.isFree = back := by
  cases back with
  | nil => exact ⟨rfl, rfl⟩
  | cons g back' =>
    have hg : g.isFree = false := by
      simpa [tagAbove, Span.tag, Span.isFree] using h
    rw [freeAbove, List.takeWhile_cons, List.dropWhile_cons, hg]
    exact ⟨rfl, rfl⟩

/-- Where no free blocks are neighbours, at most one free block is at the end. -/
theorem freeBelow_cases (h : Separated front) :
    (tagBelow front).allocated = true ∨
    ∃ front' f, front = front' ++ [f] ∧ f.isFree = true ∧ freeBelow front = [f] ∧
      front.rdropWhile Span.isFree = front' ∧ Separated front' ∧
      (tagBelow front').allocated = true := by
  rcases List.eq_nil_or_concat' front with rfl | ⟨front', f, rfl⟩
  · exact Or.inl rfl
  · obtain ⟨hfront', -, hf⟩ := separated_middle.1 h
    rcases hf with halloc | ⟨hbelow, -⟩
    · exact Or.inl (by simp [tagBelow, Span.tag, halloc])
    · cases halloc : f.allocated with
      | true => exact Or.inl (by simp [tagBelow, Span.tag, halloc])
      | false =>
        have hfree : f.isFree = true := by simp [Span.isFree, halloc]
        obtain ⟨htake, hdrop⟩ := freeBelow_of_allocated hbelow
        refine Or.inr ⟨front', f, rfl, hfree, ?_, ?_, hfront', hbelow⟩
        · rw [freeBelow, List.rtakeWhile_concat, if_pos hfree, ← freeBelow, htake]
          rfl
        · rw [List.rdropWhile_concat, if_pos hfree, hdrop]

/-- Where no free blocks are neighbours, at most one free block is at the beginning. -/
theorem freeAbove_cases (h : Separated back) :
    (tagAbove back).allocated = true ∨
    ∃ g back', back = g :: back' ∧ g.isFree = true ∧ freeAbove back = [g] ∧
      back.dropWhile Span.isFree = back' ∧ Separated back' ∧
      (tagAbove back').allocated = true := by
  cases back with
  | nil => exact Or.inl rfl
  | cons g back' =>
    obtain ⟨hback', hg⟩ := separated_cons.1 h
    rcases hg with halloc | habove
    · exact Or.inl halloc
    · cases halloc : g.allocated with
      | true => exact Or.inl halloc
      | false =>
        have hfree : g.isFree = true := by simp [Span.isFree, halloc]
        obtain ⟨htake, hdrop⟩ := freeAbove_of_allocated habove
        refine Or.inr ⟨g, back', rfl, hfree, ?_, ?_, hback', habove⟩
        · rw [freeAbove, List.takeWhile_cons, if_pos hfree, ← freeAbove, htake]
        · rw [List.dropWhile_cons, if_pos hfree, hdrop]

/-! ## The merged row -/

theorem eq_append_freeBelow (front : List Span) :
    front = front.rdropWhile Span.isFree ++ freeBelow front :=
  List.rdropWhile_append_rtakeWhile.symm

theorem eq_freeAbove_append (back : List Span) :
    back = freeAbove back ++ back.dropWhile Span.isFree :=
  List.takeWhile_append_dropWhile.symm

/-- The row from which a merged row comes, cut where the run begins and ends. -/
theorem middle_eq_freeRun (front : List Span) (s : Span) (back : List Span) :
    front ++ s :: back =
      front.rdropWhile Span.isFree ++ freeRun front s back ++ back.dropWhile Span.isFree := by
  conv_lhs => rw [eq_append_freeBelow front, eq_freeAbove_append back]
  simp [freeRun]

/-- The same, with the free blocks on either side by themselves. -/
theorem middle_eq_neighbours (front : List Span) (s : Span) (back : List Span) :
    front ++ s :: back = front.rdropWhile Span.isFree ++ freeBelow front ++
      s :: freeAbove back ++ back.dropWhile Span.isFree := by
  rw [middle_eq_freeRun, freeRun, ← List.append_assoc]

@[simp] theorem isFree_joined (mid : List Span) : (joined mid).isFree = true := by
  cases mid <;> rfl

theorem isFree_of_mem_freeRun (hs : s.isFree = true) {t : Span} (ht : t ∈ freeRun front s back) :
    t.isFree = true := by
  simp only [freeRun, List.mem_append, List.mem_cons] at ht
  rcases ht with ht | rfl | ht
  · exact List.mem_rtakeWhile_imp ht
  · exact hs
  · exact List.mem_takeWhile_imp ht

/-- Merging leaves the allocated blocks as they are. -/
theorem held_merged (front : List Span) (s : Span) (back : List Span) :
    held (merged front s back) = held front ++ held back := by
  have hnone : ∀ run : List Span, (∀ t ∈ run, t.isFree = true) → held run = [] := by
    intro run hrun
    apply List.filter_eq_nil_iff.2
    intro t ht
    simpa [Span.isFree] using hrun t ht
  have hbelow := hnone (freeBelow front) fun t ht => List.mem_rtakeWhile_imp ht
  have habove := hnone (freeAbove back) fun t ht => List.mem_takeWhile_imp ht
  conv_rhs => rw [eq_append_freeBelow front, eq_freeAbove_append back]
  rw [merged, held_append, held_cons_free (isFree_joined _), held_append, held_append, hbelow,
    habove]
  simp

/-- Below the free blocks at the end of a row is an allocated one. -/
theorem Separated.below_stops (h : Separated front) :
    Separated (front.rdropWhile Span.isFree) ∧
      (tagBelow (front.rdropWhile Span.isFree)).allocated = true := by
  rcases freeBelow_cases h with halloc | ⟨front', f, -, -, -, hdrop, hsep, htag⟩
  · rw [(freeBelow_of_allocated halloc).2]
    exact ⟨h, halloc⟩
  · rw [hdrop]
    exact ⟨hsep, htag⟩

/-- Above the free blocks at the beginning of a row is an allocated one. -/
theorem Separated.above_stops (h : Separated back) :
    Separated (back.dropWhile Span.isFree) ∧
      (tagAbove (back.dropWhile Span.isFree)).allocated = true := by
  rcases freeAbove_cases h with halloc | ⟨g, back', -, -, -, hdrop, hsep, htag⟩
  · rw [(freeAbove_of_allocated halloc).2]
    exact ⟨h, halloc⟩
  · rw [hdrop]
    exact ⟨hsep, htag⟩

/-- No free blocks are neighbours in a merged row. -/
theorem separated_merged (hfront : Separated front) (hback : Separated back) (s : Span) :
    Separated (merged front s back) := by
  obtain ⟨hbelow, hbelowTag⟩ := hfront.below_stops
  obtain ⟨habove, haboveTag⟩ := hback.above_stops
  exact separated_middle.2 ⟨hbelow, habove, Or.inr ⟨hbelowTag, haboveTag⟩⟩

/-! ## The merged block -/

/-- A merged block fills the stretch of its run. -/
theorem tiles_joined {a b : Nat} (h : Tiles a mid b) (hne : mid ≠ []) : Tiles a [joined mid] b := by
  have hsum := h.sum_size
  cases mid with
  | nil => exact (hne rfl).elim
  | cons s rest => exact ⟨h.1, by simpa [joined, Span.stop, h.1] using hsum⟩

theorem proper_joined {a b : Nat} (h : Tiles a mid b) (hproper : ∀ t ∈ mid, t.Proper)
    (hne : mid ≠ []) : (joined mid).Proper := by
  have hsum := h.sum_size
  cases mid with
  | nil => exact (hne rfl).elim
  | cons s rest =>
    obtain ⟨hoff, -, hmin⟩ := hproper s List.mem_cons_self
    have hstart : pairSize ∣ a := h.1 ▸ hoff
    have hstop : pairSize ∣ b := h.dvd_stop hstart fun t ht => (hproper t ht).2.1
    have hdvd : pairSize ∣ ((s :: rest).map Span.size).sum :=
      (Nat.dvd_add_right hstart).1 (hsum ▸ hstop)
    exact ⟨hoff, hdvd, Nat.le_trans hmin (by simp [joined])⟩

theorem size_joined (mid : List Span) : (joined mid).size = (mid.map Span.size).sum := by
  cases mid <;> rfl

theorem size_le_joined (hs : s ∈ mid) : s.size ≤ (joined mid).size := by
  obtain ⟨first, rest, rfl⟩ := List.append_of_mem hs
  rw [size_joined, List.map_append, List.sum_append, List.map_cons, List.sum_cons]
  omega

/-- The blocks of a tiling leave out no byte of the stretch. -/
theorem Tiles.exists_covers {a b : Nat} (h : Tiles a mid b) {i : Nat} (hi : a ≤ i + wordSize)
    (hi' : i + wordSize < b) : ∃ t ∈ mid, t.Covers i := by
  induction mid generalizing a with
  | nil =>
    rw [tiles_nil] at h
    omega
  | cons s rest ih =>
    by_cases hstop : i + wordSize < s.stop
    · exact ⟨s, List.mem_cons_self, h.1 ▸ hi, hstop⟩
    · obtain ⟨t, ht, hti⟩ := ih h.2 (Nat.le_of_not_lt hstop)
      exact ⟨t, List.mem_cons_of_mem s ht, hti⟩

/-- A merged block covers bytes of its run only. -/
theorem covers_joined {a b : Nat} (h : Tiles a mid b) (hne : mid ≠ []) {i : Nat}
    (hi : (joined mid).Covers i) : ∃ t ∈ mid, t.Covers i := by
  obtain ⟨hoff, hstop⟩ := tiles_joined h hne
  exact h.exists_covers (hoff ▸ hi.1) (by rw [← hstop]; exact hi.2)

@[simp] theorem freeRun_ne_nil (front : List Span) (s : Span) (back : List Span) :
    freeRun front s back ≠ [] := by
  simp [freeRun]

theorem tag_joined (mid : List Span) : (joined mid).tag = ⟨(joined mid).size, false⟩ := by
  cases mid <;> rfl

/-- The bytes of the free blocks of a merged row were bytes of free blocks. -/
theorem freeBytes_merged {a b : Nat} (h : Tiles a (front ++ s :: back) b) (hs : s.isFree = true)
    {i : Nat} (hi : FreeBytes (merged front s back) i) : FreeBytes (front ++ s :: back) i := by
  rw [middle_eq_freeRun] at h ⊢
  obtain ⟨_, hfirst, -⟩ := tiles_append.1 h
  obtain ⟨_, -, hrun⟩ := tiles_append.1 hfirst
  obtain ⟨t, ht, hfree, hti⟩ := hi
  simp only [merged, List.mem_append, List.mem_cons] at ht
  rcases ht with ht | rfl | ht
  · exact ⟨t, by simp [ht], hfree, hti⟩
  · obtain ⟨u, hu, hui⟩ := covers_joined hrun (freeRun_ne_nil front s back) hti
    exact ⟨u, by simp [hu], isFree_of_mem_freeRun hs hu, hui⟩
  · exact ⟨t, by simp [ht], hfree, hti⟩

end SegregatedFit.Block
