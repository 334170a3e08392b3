-- SUMMARY: Blocks as spans, and rows of spans that fill a stretch of memory without a gap.
import Mathlib.Algebra.GroupWithZero.Nat
import SegregatedFit.Block.Layout

/-!
# Tilings

The plain view of a heap is a list of spans. `Tiles start spans stop` says that
the spans follow one another from `start` to `stop`; `TaggedIn` says that a
memory holds the two tags of a span. Main statements: a row of spans may be cut
anywhere (`tiles_append`), and the tags of a memory leave no choice: two tagged
tilings of one stretch are the same (`Tiles.unique`).
-/
namespace SegregatedFit.Block

/-- A block: where its payload begins, how large it is, whether it is allocated. -/
structure Span where
  offset : Nat
  size : Nat
  allocated : Bool
  deriving DecidableEq, Repr, Inhabited

namespace Span

/-- The tag of the block. -/
def tag (s : Span) : Tag := ⟨s.size, s.allocated⟩

/-- Where the next block begins. -/
def stop (s : Span) : Nat := s.offset + s.size

/-- The memory holds the tag of the block as its header and as its footer. -/
def TaggedIn (s : Span) (m : Memory) : Prop :=
  header m s.offset = .ok s.tag ∧ readTag m (footerOffset s.offset s.size) = .ok s.tag

/-- A block that a heap may hold: aligned, and with room for two tags and two links. -/
def Proper (s : Span) : Prop :=
  pairSize ∣ s.offset ∧ pairSize ∣ s.size ∧ minBlock ≤ s.size

end Span

/-- The spans follow one another from `start` to `stop`. -/
def Tiles : (start : Nat) → List Span → (stop : Nat) → Prop
  | start, [], stop => start = stop
  | start, s :: rest, stop => s.offset = start ∧ Tiles s.stop rest stop

/-- No free block follows a free block. -/
def Separated : List Span → Prop
  | s :: t :: rest => (s.allocated ∨ t.allocated) ∧ Separated (t :: rest)
  | _ => True

@[simp] theorem tiles_nil {start stop : Nat} : Tiles start [] stop ↔ start = stop := Iff.rfl

@[simp] theorem tiles_cons {start stop : Nat} {s : Span} {rest : List Span} :
    Tiles start (s :: rest) stop ↔ s.offset = start ∧ Tiles s.stop rest stop := Iff.rfl

/-- A row of spans may be cut between any two of them. -/
theorem tiles_append {start stop : Nat} {first rest : List Span} :
    Tiles start (first ++ rest) stop ↔ ∃ mid, Tiles start first mid ∧ Tiles mid rest stop := by
  induction first generalizing start with
  | nil => simp
  | cons s first ih =>
    simp only [List.cons_append, tiles_cons, ih]
    constructor
    · rintro ⟨hs, mid, hfirst, hrest⟩
      exact ⟨mid, ⟨hs, hfirst⟩, hrest⟩
    · rintro ⟨mid, ⟨hs, hfirst⟩, hrest⟩
      exact ⟨hs, mid, hfirst, hrest⟩

theorem Tiles.le {start stop : Nat} {spans : List Span} (h : Tiles start spans stop) :
    start ≤ stop := by
  induction spans generalizing start with
  | nil => exact Nat.le_of_eq h
  | cons s spans ih => exact h.1 ▸ Nat.le_trans (Nat.le_add_right _ _) (ih h.2)

/-- Every span of a row lies inside the stretch. -/
theorem Tiles.mem_bounds {start stop : Nat} {spans : List Span} (h : Tiles start spans stop)
    {s : Span} (hs : s ∈ spans) : start ≤ s.offset ∧ s.stop ≤ stop := by
  induction spans generalizing start with
  | nil => cases hs
  | cons t spans ih =>
    obtain ⟨rfl, hrest⟩ := h
    rcases List.mem_cons.1 hs with rfl | hs
    · exact ⟨Nat.le_refl _, hrest.le⟩
    · have hbounds := ih hrest hs
      exact ⟨Nat.le_trans (Nat.le_add_right _ _) hbounds.1, hbounds.2⟩

/-- The sizes of a row add up to the length of the stretch. -/
theorem Tiles.sum_size {start stop : Nat} {spans : List Span} (h : Tiles start spans stop) :
    start + (spans.map Span.size).sum = stop := by
  induction spans generalizing start with
  | nil => simpa using h
  | cons s spans ih =>
    have hrest := ih h.2
    simp only [Span.stop, h.1] at hrest
    simp only [List.map_cons, List.sum_cons]
    omega

/-- The tags determine the spans: two rows of blocks that are tagged in one memory
and fill one stretch are equal. -/
theorem Tiles.unique {m : Memory} {start stop : Nat} {spans spans' : List Span}
    (h : Tiles start spans stop) (h' : Tiles start spans' stop)
    (ht : ∀ s ∈ spans, s.TaggedIn m ∧ 0 < s.size) (ht' : ∀ s ∈ spans', s.TaggedIn m ∧ 0 < s.size) :
    spans = spans' := by
  induction spans generalizing start spans' with
  | nil =>
    cases spans' with
    | nil => rfl
    | cons s rest =>
      have hle := h'.2.le
      have hpos := (ht' s List.mem_cons_self).2
      simp only [tiles_nil, tiles_cons, Span.stop] at h h' hle
      omega
  | cons s spans ih =>
    cases spans' with
    | nil =>
      have hle := h.2.le
      have hpos := (ht s List.mem_cons_self).2
      simp only [tiles_nil, tiles_cons, Span.stop] at h h' hle
      omega
    | cons t rest =>
      have heq : s = t := by
        have hs := (ht s List.mem_cons_self).1.1
        have htt := (ht' t List.mem_cons_self).1.1
        rw [h.1] at hs
        rw [h'.1, hs] at htt
        obtain ⟨offset, size, allocated⟩ := s
        obtain ⟨offset', size', allocated'⟩ := t
        simp only [Span.tag, Except.ok.injEq, Tag.mk.injEq] at htt
        simp only [tiles_cons] at h h'
        simp [h.1, h'.1, htt]
      subst heq
      rw [ih h.2 h'.2 (fun a ha => ht a (List.mem_cons_of_mem _ ha))
        fun a ha => ht' a (List.mem_cons_of_mem _ ha)]

end SegregatedFit.Block
