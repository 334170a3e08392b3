-- SUMMARY: Every session of a well-behaved client shows a plain heap; its calls do the same there.
import SegregatedFit.Proofs.Client.Invariant
import SegregatedFit.Proofs.Plain.Bounds
import SegregatedFit.Proofs.Plain.Operations

/-!
# Plain heaps of sessions

The heap of a session that can be reached shows a plain heap (`Sound.exists_shows`).
The pointers that its client may pass are those that the heap has no reason to
misread, so each call that it may make does the same to both (`Sound.run_shows`).
-/
namespace SegregatedFit

open Block

namespace Heap

variable {h : Heap Arena} {p : Plain}

/-- A heap that is laid out shows its blocks and rings. -/
theorem Arranged.exists_shows {spans : List Span} {rings : Bucket → List Nat}
    (h' : h.Arranged spans rings) : ∃ p, h.Shows p :=
  ⟨{ h.outline with spans, rings }, rfl, Or.inr h'⟩

theorem Blank.exists_shows (hblank : h.Blank) : ∃ p, h.Shows p :=
  ⟨{ h.outline with spans := [], rings := fun _ => [] }, rfl, Or.inl ⟨hblank, rfl, rfl⟩⟩

end Heap

/-- The bounds that an arena sets to what is in it. -/
def Arena.bounds (a : Arena) (config : Config) : Bounds where
  config
  low := 0
  high := max a.size a.limit
  limit := a.limit
  growths := a.growCalls
  limit_le := Nat.le_max_right _ _

namespace Session

variable {arena : Arena} {config : Config} {s s' t t' : Session} {p : Plain} {call call' : Call}

theorem Sound.exists_shows (hs : s.Sound) : ∃ p, s.heap.Shows p := by
  rcases hs.state with ⟨hblank, -⟩ | ⟨spans, rings, h', -⟩
  · exact hblank.exists_shows
  · exact h'.exists_shows

/-- A well-behaved client makes calls that its heap has no reason to misread. -/
theorem Sound.understands (hs : s.Sound) (hshows : s.heap.Shows p) (hallows : s.Allows call) :
    s.heap.Understands p call := by
  have hheld : ∀ ptr ∈ s.live, ∃ u ∈ held p.spans, u.offset = ptr := by
    intro ptr hptr
    obtain ⟨spans, rings, u, h', -, hu, hoff⟩ := hs.exists_held hptr
    have hp : p.prologue ≠ none := by
      rw [← hshows.prologue_eq, h'.prologue_eq]
      exact Option.some_ne_none _
    exact ⟨u, h'.row.unique (hshows.laidOut hp).arranged.row ▸ hu, hoff⟩
  cases call with
  | init => trivial
  | reset => trivial
  | allocate n => trivial
  | free ptr => exact hallows.imp_right (Or.imp_left (hheld ptr))
  | resize ptr n => exact hallows.imp_right (Or.imp_left (hheld ptr))
  | store ptr start bytes => exact hheld ptr hallows

/-- A call of a well-behaved client does the same to its heap and to the plain heap. -/
theorem Sound.run_shows (hs : s.Sound) (hshows : s.heap.Shows p) (hallows : s.Allows call) :
    Agree (fun _ => Heap.Shows) Heap.Shows (call.run s.heap) (Plain.run call p) :=
  hshows.run (hshows.config_eq ▸ hs.config_eq) (hs.understands hshows hallows)

/-! ## Bounds -/

/-- A call of a well-behaved client keeps the bounds of its heap. -/
theorem Sound.guarded_run (hs : s.Sound) (hallows : s.Allows call) {b : Bounds} {resizes : Nat}
    (hb : s.heap.outline.Bounded b resizes) (hreset : call = .reset → b.low = 0) :
    Guarded (fun g => g.outline.Bounded b (resizes + 1)) (fun g => g.outline.Stuck b resizes)
      (call.run s.heap) := by
  obtain ⟨p, hshows⟩ := hs.exists_shows
  refine (hs.run_shows hshows hallows).guarded
    (Plain.resizing_run hreset p (hshows.outline_eq ▸ hb)) ?_ ?_
  · intro g q hq hbounded
    rwa [hq.outline_eq]
  · intro g q hq hstuck
    rwa [hq.outline_eq]

theorem Sound.bounded_after (hs : s.Sound) (hallows : s.Allows call) {b : Bounds}
    {resizes : Nat} (hb : s.heap.outline.Bounded b resizes) (hreset : call = .reset → b.low = 0)
    (hafter : s.after call = some s') : s'.heap.outline.Bounded b (resizes + 1) := by
  have hrun := hs.guarded_run hallows hb hreset
  rcases after_cases hafter with ⟨answer, hok⟩ | ⟨cause, herror⟩
  · rw [hok] at hrun
    cases hrun with
    | ok h => exact h
  · rw [herror] at hrun
    cases hrun with
    | refused h => exact h

/-- In every session, the room of the heap has the limit of the arena, there is no more
in it than its limit or what there was, and no more growths than there is room for. -/
theorem Reached.bounded (h : Reached arena config s) :
    s.heap.outline.Bounded (arena.bounds config.normalized)
      (s.heap.counters.resizeMoves + s.heap.counters.resizeInPlace) := by
  induction h with
  | start =>
    exact ⟨rfl, config.chunkSize_normalized.2.1, rfl, Nat.zero_le _, Nat.le_max_left _ _,
      Nat.le_add_left _ _, (by rintro q ⟨⟩), Nat.le_refl _⟩
  | step hprev hallows hafter ih =>
    have hnext := hprev.sound.bounded_after hallows ih (fun _ => rfl) hafter
    exact { hnext with resizes_le := Nat.le_refl _ }

end Session
end SegregatedFit
