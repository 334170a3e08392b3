-- SUMMARY: Rows after tags were written: a run joined, a block marked, a block cut in two.
import SegregatedFit.Proofs.Block.Merging

/-!
# Retagging

Blocks are changed by writing tags: the tags of a run make one block of it
(`Row.join`), other tags of the same size mark a block as free or allocated
(`Row.mark`), and two pairs of tags cut a block (`Row.cut`). Each time the bytes
that change are those of the blocks that are replaced.
-/
namespace SegregatedFit.Block

variable {m : Memory} {prologue : Nat} {front mid back : List Span} {s : Span}

/-- The bytes of the blocks, tags included. -/
def CoveredBytes (spans : List Span) (i : Nat) : Prop := ∃ s ∈ spans, s.Covers i

/-- One block of a row may be replaced by others that fill its stretch. -/
theorem Row.replace_block {new : List Span} (h : Row m prologue (front ++ s :: back))
    (hm : m.size < wordCount) (hedit : m.Edited m' s.Covers) (htiles : Tiles s.offset new s.stop)
    (hnew : ∀ t ∈ new, t.TaggedIn m' ∧ t.Proper) : Row m' prologue (front ++ new ++ back) := by
  have h' : Row m prologue (front ++ [s] ++ back) := by simpa using h
  refine h'.replace hm (hedit.mono fun i hi => ⟨s, List.mem_singleton_self s, hi⟩) ?_ hnew
  intro a b hab
  obtain ⟨rfl, rfl⟩ := hab
  exact htiles

/-- Writing the tags of a whole run makes one block of it. -/
theorem Row.join (h : Row m prologue (front ++ mid ++ back)) (hm : m.size < wordCount)
    (hne : mid ≠ []) :
    (joined mid).Inside m ∧ m.Edited (Block.tagged m (joined mid)) (CoveredBytes mid) ∧
      Row (Block.tagged m (joined mid)) prologue (front ++ joined mid :: back) := by
  obtain ⟨b, hfirst, hback⟩ := tiles_append.1 h.tiles
  obtain ⟨a, hfront, hmid⟩ := tiles_append.1 hfirst
  have hproper : (joined mid).Proper :=
    proper_joined hmid (fun u hu => h.proper u (by simp [hu])) hne
  have htiles : Tiles (prologue + pairSize) (front ++ [joined mid] ++ back) m.size :=
    tiles_append.2 ⟨b, tiles_append.2 ⟨a, hfront, tiles_joined hmid hne⟩, hback⟩
  have hbounds := htiles.mem_bounds (s := joined mid) (by simp)
  have hin : (joined mid).Inside m := by
    refine ⟨?_, Nat.le_trans (by decide) hproper.2.2, hbounds.2, hm⟩
    exact Nat.le_trans (by decide) (Nat.le_trans (Nat.le_add_left pairSize prologue) hbounds.1)
  have hedit : m.Edited (Block.tagged m (joined mid)) (CoveredBytes mid) :=
    (edited_tagged hin.fits).mono fun i hi => covers_joined hmid hne (.of_inTags hin.pair_le hi)
  have hrow : Row (Block.tagged m (joined mid)) prologue (front ++ [joined mid] ++ back) := by
    refine h.replace hm hedit (fun a b hab => tiles_joined hab hne) ?_
    intro u hu
    obtain rfl := List.mem_singleton.1 hu
    exact ⟨taggedIn_tagged hin.fits hproper.2.1, hproper⟩
  exact ⟨hin, hedit, by simpa using hrow⟩

/-- Writing tags of the same size marks a block as free or allocated. -/
theorem Row.mark (h : Row m prologue (front ++ s :: back)) (hm : m.size < wordCount)
    (allocated : Bool) :
    ({ s with allocated } : Span).Inside m ∧
      m.Edited (Block.tagged m { s with allocated }) s.Covers ∧
      Row (Block.tagged m { s with allocated }) prologue
        (front ++ { s with allocated } :: back) := by
  have hs : s ∈ front ++ s :: back := by simp
  have hin' := h.inside hm hs
  have hin : ({ s with allocated } : Span).Inside m :=
    ⟨hin'.start_le, hin'.pair_le, hin'.stop_le, hin'.size_lt⟩
  have hedit : m.Edited (Block.tagged m { s with allocated }) s.Covers :=
    (edited_tagged hin.fits).mono fun i hi => Span.Covers.of_inTags hin.pair_le hi
  have hrow : Row (Block.tagged m { s with allocated }) prologue
      (front ++ [{ s with allocated }] ++ back) := by
    refine h.replace_block hm hedit ⟨rfl, rfl⟩ ?_
    intro u hu
    obtain rfl := List.mem_singleton.1 hu
    exact ⟨taggedIn_tagged hin.fits (h.proper s hs).2.1, h.proper s hs⟩
  exact ⟨hin, hedit, by simpa using hrow⟩

/-- Writing two pairs of tags cuts a block into an allocated and a free one. -/
theorem Row.cut {size rest : Nat} (h : Row m prologue (front ++ s :: back))
    (hm : m.size < wordCount) (hdvd : pairSize ∣ size) (hmin : minBlock ≤ size)
    (hrest : minBlock ≤ rest) (hsize : s.size = size + rest) :
    (Span.mk s.offset size true).Inside m ∧
      (Span.mk (s.offset + size) rest false).Inside (Block.tagged m ⟨s.offset, size, true⟩) ∧
      m.Edited (Block.tagged (Block.tagged m ⟨s.offset, size, true⟩) ⟨s.offset + size, rest, false⟩)
        s.Covers ∧
      Row (Block.tagged (Block.tagged m ⟨s.offset, size, true⟩) ⟨s.offset + size, rest, false⟩)
        prologue (front ++ ⟨s.offset, size, true⟩ :: ⟨s.offset + size, rest, false⟩ :: back) := by
  obtain ⟨a, ha⟩ : ∃ a : Span, a = ⟨s.offset, size, true⟩ := ⟨_, rfl⟩
  obtain ⟨r, hr⟩ : ∃ r : Span, r = ⟨s.offset + size, rest, false⟩ := ⟨_, rfl⟩
  rw [← ha, ← hr]
  have hs : s ∈ front ++ s :: back := by simp
  have hin := h.inside hm hs
  obtain ⟨hoff, hdvd', -⟩ := h.proper s hs
  have hstart := hin.start_le
  have hstop := hin.stop_le
  have hina : a.Inside m := by
    refine ⟨ha ▸ hstart, ha ▸ Nat.le_trans (by decide) hmin, ?_, hm⟩
    simp only [ha, Span.stop] at *
    omega
  have hinr : r.Inside (Block.tagged m a) := by
    refine ⟨hr ▸ Nat.le_add_right_of_le hstart, hr ▸ Nat.le_trans (by decide) hrest, ?_, ?_⟩
    · rw [size_tagged]
      simp only [hr, Span.stop] at *
      omega
    · rwa [size_tagged]
  have hedita : m.Edited (Block.tagged m a) a.InTags := edited_tagged hina.fits
  have heditr : (Block.tagged m a).Edited (Block.tagged (Block.tagged m a) r) r.InTags :=
    edited_tagged hinr.fits
  have hedit : m.Edited (Block.tagged (Block.tagged m a) r) s.Covers := by
    refine (hedita.mono ?_).trans (heditr.mono ?_)
    · intro i hi
      have hcov := Span.Covers.of_inTags hina.pair_le hi
      simp only [ha, Span.Covers, Span.stop] at *
      omega
    · intro i hi
      have hcov := Span.Covers.of_inTags hinr.pair_le hi
      simp only [hr, Span.Covers, Span.stop] at *
      omega
  have htagged : a.TaggedIn (Block.tagged (Block.tagged m a) r) := by
    have hina' : a.Inside (Block.tagged m a) :=
      ⟨hina.start_le, hina.pair_le, (size_tagged m a).symm ▸ hina.stop_le,
        (size_tagged m a).symm ▸ hm⟩
    refine (taggedIn_tagged hina.fits (ha ▸ hdvd)).edited hina'.fits heditr ?_
    intro i hi hi'
    refine Span.Covers.apart (.of_inTags hina.pair_le hi) (.of_inTags hinr.pair_le hi') (Or.inl ?_)
    simp [ha, hr, Span.stop]
  have hdvdRest : pairSize ∣ rest := (Nat.dvd_add_right hdvd).1 (hsize ▸ hdvd')
  have hrow : Row (Block.tagged (Block.tagged m a) r) prologue (front ++ [a, r] ++ back) := by
    refine h.replace_block hm hedit ?_ ?_
    · simp only [tiles_nil, tiles_cons, Span.stop, ha, hr]
      exact ⟨trivial, trivial, by omega⟩
    · intro u hu
      simp only [List.mem_cons, List.not_mem_nil, or_false] at hu
      rcases hu with rfl | rfl
      · exact ⟨htagged, ha ▸ ⟨hoff, hdvd, hmin⟩⟩
      · exact ⟨taggedIn_tagged hinr.fits (hr ▸ hdvdRest),
          hr ▸ ⟨Nat.dvd_add hoff hdvd, hdvdRest, hrest⟩⟩
  exact ⟨hina, hinr, hedit, by simpa using hrow⟩

end SegregatedFit.Block
