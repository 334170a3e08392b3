-- SUMMARY: The walk of an audit finds nothing wrong exactly with a row of blocks, and lists that row.
import SegregatedFit.Audit.Walk
import SegregatedFit.Proofs.Block.Row

/-!
# Walking a row

Each list of faults is empty under one condition on what it was computed from,
and the walk carries these conditions from block to block. `Paved` is what they
come to: the blocks from one place to the epilogue. Main statements: a walk over
paved blocks lists them and finds no fault (`Paved.walk_eq`), and a walk that
finds no fault went over paved blocks (`exists_paved_of_walk`).
-/
namespace SegregatedFit.Audit

open Block

/-- The entry of a block with equal tags. -/
def entry (s : Span) : BlockEntry := ⟨s.offset, s.tag, s.tag⟩

/-- No free block follows a free block; `afterFree` says that the block before is free. -/
def SeparatedAfter : (afterFree : Bool) → List Span → Prop
  | _, [] => True
  | afterFree, s :: rest =>
    (s.allocated = true ∨ afterFree = false) ∧ SeparatedAfter s.isFree rest

theorem separatedAfter_false_iff {spans : List Span} :
    SeparatedAfter false spans ↔ Separated spans := by
  induction spans with
  | nil => exact Iff.rfl
  | cons s rest ih =>
    cases rest with
    | nil => simp [SeparatedAfter, Separated]
    | cons t rest =>
      simp only [SeparatedAfter, Separated, or_true, true_and] at ih ⊢
      rw [ih]
      simp [Span.isFree, or_comm]

/-- The blocks from `bp` to the epilogue at the end of the memory. -/
structure Paved (m : Memory) (bp : Nat) (afterFree : Bool) (spans : List Span) : Prop where
  tiles : Tiles bp spans m.size
  tagged : ∀ s ∈ spans, s.TaggedIn m
  proper : ∀ s ∈ spans, s.Proper
  separated : SeparatedAfter afterFree spans
  epilogue : header m m.size = .ok ⟨0, true⟩

variable {m : Memory} {bp : Nat} {afterFree : Bool} {s : Span} {spans : List Span}
variable {first last : Tag}

theorem paved_nil_iff : Paved m bp afterFree [] ↔ bp = m.size ∧ header m bp = .ok ⟨0, true⟩ := by
  constructor
  · rintro ⟨htiles, -, -, -, hepilogue⟩
    rw [tiles_nil] at htiles
    exact ⟨htiles, htiles.symm ▸ hepilogue⟩
  · rintro ⟨rfl, hepilogue⟩
    exact ⟨rfl, fun _ hs => (List.not_mem_nil hs).elim, fun _ hs => (List.not_mem_nil hs).elim,
      trivial, hepilogue⟩

theorem paved_cons_iff :
    Paved m bp afterFree (s :: spans) ↔
      (s.offset = bp ∧ s.TaggedIn m ∧ s.Proper ∧ (s.allocated = true ∨ afterFree = false)) ∧
        Paved m s.stop s.isFree spans := by
  constructor
  · rintro ⟨⟨hoff, htiles⟩, htagged, hproper, ⟨hs, hseparated⟩, hepilogue⟩
    rw [List.forall_mem_cons] at htagged hproper
    exact ⟨⟨hoff, htagged.1, hproper.1, hs⟩, htiles, htagged.2, hproper.2, hseparated, hepilogue⟩
  · rintro ⟨⟨hoff, htagged, hproper, hs⟩, hrest⟩
    exact ⟨⟨hoff, hrest.tiles⟩, List.forall_mem_cons.2 ⟨htagged, hrest.tagged⟩,
      List.forall_mem_cons.2 ⟨hproper, hrest.proper⟩, ⟨hs, hrest.separated⟩, hrest.epilogue⟩

/-! ## Faults of a block -/

/-- A check notes its fault, or nothing. -/
theorem check_eq_nil_iff {p : Prop} [Decidable p] {fault : Violation} :
    (if p then [fault] else []) = [] ↔ ¬ p := by
  split <;> simp [*]

theorem shapeFaults_eq_nil_iff :
    shapeFaults bp first = [] ↔ pairSize ∣ bp ∧ minBlock ≤ first.size := by
  rw [shapeFaults, List.append_eq_nil_iff, check_eq_nil_iff, check_eq_nil_iff, Nat.not_lt,
    not_not, Nat.dvd_iff_mod_eq_zero]

theorem tagFaults_eq_nil_iff :
    tagFaults bp first last afterFree = [] ↔
      first = last ∧ (first.allocated = true ∨ afterFree = false) := by
  rw [tagFaults, List.append_eq_nil_iff, check_eq_nil_iff, check_eq_nil_iff, not_not]
  cases first.allocated <;> cases afterFree <;> simp

theorem epilogueFaults_eq_nil_iff :
    epilogueFaults m bp first = [] ↔ first.allocated = true ∧ bp = m.size := by
  simp [epilogueFaults]

/-- Sizes are read in steps of `pairSize`. -/
theorem dvd_size_of_header (h : header m bp = .ok first) : pairSize ∣ first.size := by
  obtain ⟨-, rfl⟩ := readTag_eq_ok_iff.1 h
  exact Tag.dvd_size_decode _

/-! ## The walk -/

/-- A walk over paved blocks lists them, comes to the end, and finds no fault. -/
theorem Paved.walk_eq (hm : m.size < wordCount) (h : Paved m bp afterFree spans) :
    walk m bp afterFree = ⟨spans.map entry, some m.size, []⟩ := by
  induction spans generalizing bp afterFree with
  | nil =>
    obtain ⟨rfl, hepilogue⟩ := paved_nil_iff.1 h
    have hfaults : epilogueFaults m m.size ⟨0, true⟩ = [] := epilogueFaults_eq_nil_iff.2 ⟨rfl, rfl⟩
    rw [walk]
    simp only [hepilogue, dif_pos, hfaults, List.map_nil]
  | cons s spans ih =>
    obtain ⟨⟨rfl, ⟨hheader, hfooter⟩, ⟨hoff, -, hmin⟩, hseparated⟩, hrest⟩ := paved_cons_iff.1 h
    have hsize : s.tag.size ≠ 0 := by
      simp only [Span.tag, minBlock] at *
      omega
    have hstop : s.offset + s.tag.size ≤ m.size ∧ s.offset + s.tag.size < wordCount :=
      ⟨hrest.tiles.le, Nat.lt_of_le_of_lt hrest.tiles.le hm⟩
    have hshape : shapeFaults s.offset s.tag = [] := shapeFaults_eq_nil_iff.2 ⟨hoff, hmin⟩
    have htags : tagFaults s.offset s.tag s.tag afterFree = [] :=
      tagFaults_eq_nil_iff.2 ⟨rfl, hseparated⟩
    have hfooter' : readTag m (footerOffset s.offset s.tag.size) = .ok s.tag := hfooter
    have hnext : walk m (s.offset + s.tag.size) (!s.tag.allocated) = _ := ih hrest
    rw [walk]
    simp only [hheader, dif_neg hsize, hfooter', dif_pos hstop, hnext, hshape, htags,
      List.append_nil, List.map_cons]
    rfl

/-- A walk that finds no fault went over paved blocks. -/
theorem exists_paved_of_walk (h : (walk m bp afterFree).violations = []) :
    ∃ spans, Paved m bp afterFree spans := by
  fun_induction walk m bp afterFree with
  | case1 bp afterFree cause hheader => simp at h
  | case2 bp afterFree tag hheader hsize =>
    obtain ⟨hallocated, hend⟩ := epilogueFaults_eq_nil_iff.1 h
    have htag : tag = ⟨0, true⟩ := by
      obtain ⟨size, allocated⟩ := tag
      simp_all
    exact ⟨[], paved_nil_iff.2 ⟨hend, htag ▸ hheader⟩⟩
  | case3 bp afterFree tag hheader hsize cause hfooter => simp at h
  | case4 bp afterFree tag hheader hsize last hfooter hend rest ih =>
    simp only [List.append_eq_nil_iff] at h
    obtain ⟨⟨hshape, htags⟩, hrest⟩ := h
    obtain ⟨hoff, hmin⟩ := shapeFaults_eq_nil_iff.1 hshape
    obtain ⟨rfl, hseparated⟩ := tagFaults_eq_nil_iff.1 htags
    obtain ⟨spans, hpaved⟩ := ih hrest
    exact ⟨⟨bp, tag.size, tag.allocated⟩ :: spans, paved_cons_iff.2
      ⟨⟨rfl, ⟨hheader, hfooter⟩, ⟨hoff, dvd_size_of_header hheader, hmin⟩, hseparated⟩, hpaved⟩⟩
  | case5 bp afterFree tag hheader hsize last hfooter hend => simp at h

end SegregatedFit.Audit
