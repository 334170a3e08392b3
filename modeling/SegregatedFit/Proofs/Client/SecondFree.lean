-- SUMMARY: Freeing a block twice in a row: for what reason the second attempt is refused.
import SegregatedFit.Proofs.Client.Atomicity
import SegregatedFit.Proofs.Client.Effects
import SegregatedFit.Proofs.Heap.Refreeing

/-!
# Freeing twice in a row

Nobody remembers which pointers were freed: the heap tells a pointer whose block is free
from one that names no block by the words around it, and these depend on what the block
was merged with when it was freed. Main statement: `Reached.freed_twice`, the second of
two frees in a row always has no effect, and it is reported as a double free exactly if
the block was not merged downwards only. The exception is real
(`Reached.freed_twice_below`).
-/
namespace SegregatedFit

open Block FreeLists

/-- Freeing at `ptr` is refused for the given cause. It has no effect but a record of that
name, in a log that keeps warnings. -/
structure Heap.Warns (h g : Heap Arena) (ptr : Nat) (cause : HeapError) (name : String) :
    Prop where
  refused : Heap.free ptr h = .error (.refused cause) g
  untouched : h.Untouched g
  recorded : h.log.keeps .warn = true → ∃ record, g.log.records = h.log.records.push record ∧
    record.event = .freeRefused ptr cause ∧ record.event.name = name
  silent : h.log.keeps .warn = false → g.log = h.log

namespace Session

variable {arena : Arena} {config : Config} {s : Session} {h : Heap Arena} {p : Nat}

/-- A pointer that is not taken for a block is refused with a warning. -/
theorem warns_of_refused {cause : HeapError}
    (hbase : h.isInitialized = true → h.base ≤ h.region.memory.size) (hp : p ≠ nullPtr)
    (hblock : h.blockAt p = .error cause) :
    h.Warns (h.logged (.freeRefused p cause)) p cause (Event.freeRefused p cause).name where
  refused := Heap.free_of_refused hbase hp hblock
  untouched := (untouched_loggedAll h [.freeRefused p cause]).1
  recorded hkeeps :=
    ⟨⟨h.log.nextId, .freeRefused p cause, h.figures⟩,
      congrArg Log.records (if_pos hkeeps), rfl, rfl⟩
  silent hkeeps := Log.record_of_not_keeps hkeeps _

/-- In every session, a live pointer that is freed twice in a row is refused the second
time, with no effect but a warning: as a pointer to no block if its block was merged with
the one below and not with one above, and as a double free in the other three cases. -/
theorem Reached.freed_twice (h : Reached arena config s) (hp : p ∈ s.live) :
    ∃ g front below t above back rings, Heap.free p s.heap = .ok () g ∧ t.offset = p ∧
      s.heap.Merges g front below t above back rings ∧
      ((below ≠ [] ∧ above = [] ∧
          ∃ k, g.Warns k p (.invalidPointer p) "invalid_free_pointer") ∨
        ((below = [] ∨ above ≠ []) ∧
          ∃ k, g.Warns k p (.doubleFree p) "double_free_detected")) := by
  obtain ⟨spans, rings, t, h', -, ht, rfl⟩ := h.sound.exists_held hp
  obtain ⟨front, back, rfl, halloc⟩ := exists_middle_of_held ht
  obtain ⟨g, hrun, hfrees⟩ := Heap.free_middle h' halloc
  have hnull := Heap.ne_null_of_held h' ht
  have hbase : g.isInitialized = true → g.base ≤ g.region.memory.size := fun _ =>
    Nat.le_trans (Nat.le_add_right _ _) hfrees.arranged.base_le
  have hwarns := warns_of_refused hbase hnull (Heap.blockAt_freed h' halloc hrun)
  refine ⟨g, _, freeBelow front, t, freeAbove back, _, rings, hrun, rfl,
    hfrees.merges h' halloc, ?_⟩
  by_cases hcase : freeBelow front ≠ [] ∧ freeAbove back = []
  · rw [Heap.secondCause, if_pos hcase] at hwarns
    exact Or.inl ⟨hcase.1, hcase.2, _, hwarns⟩
  · rw [Heap.secondCause, if_neg hcase] at hwarns
    refine Or.inr ⟨?_, _, hwarns⟩
    exact (Decidable.not_and_iff_or_not.1 hcase).imp_left Decidable.not_not.1

/-- A block with an allocated one below and one above. -/
theorem Reached.freed_twice_alone :
    ∃ s, Reached {} { chunkSize := 128 } s ∧ s.live = [96, 64, 32] ∧
      ∃ g front below t above back rings, Heap.free 64 s.heap = .ok () g ∧ t.offset = 64 ∧
        s.heap.Merges g front below t above back rings ∧
        ((below ≠ [] ∧ above = [] ∧
            ∃ k, g.Warns k 64 (.invalidPointer 64) "invalid_free_pointer") ∨
          ((below = [] ∨ above ≠ []) ∧
            ∃ k, g.Warns k 64 (.doubleFree 64) "double_free_detected")) := by
  have hrun : ((Session.start {} { chunkSize := 128 }).afterAll
      [.init, .allocate 10, .allocate 10, .allocate 10]).map Session.live =
        some [96, 64, 32] := by
    decide +kernel
  obtain ⟨s, hs, hlive⟩ := Option.map_eq_some_iff.1 hrun
  have hreached := Reached.start.afterAll hs
  exact ⟨s, hreached, hlive, Reached.freed_twice hreached (by rw [hlive]; decide)⟩

/-- Of three blocks the first is free and the third is not: the second is freed twice. -/
theorem Reached.freed_twice_below :
    ∃ s g k, Reached {} { chunkSize := 128 } s ∧ 64 ∈ s.live ∧
      Heap.free 64 s.heap = .ok () g ∧
      Heap.free 64 g = .error (.refused (.invalidPointer 64)) k ∧
      k.log.records.back?.map (·.event.name) = some "invalid_free_pointer" := by
  have hrun : ((Session.start {} { chunkSize := 128 }).afterAll
      [.init, .allocate 10, .allocate 10, .allocate 10, .free 32]).map (fun s =>
        (s.live, match Heap.free 64 s.heap with
          | .ok () g => match Heap.free 64 g with
            | .error (.refused cause) k =>
              some (cause, k.log.records.back?.map (·.event.name))
            | _ => none
          | _ => none)) =
        some ([96, 64], some (.invalidPointer 64, some "invalid_free_pointer")) := by
    decide +kernel
  obtain ⟨s, hs, hstate⟩ := Option.map_eq_some_iff.1 hrun
  obtain ⟨hlive, htwice⟩ := Prod.mk.injEq .. ▸ hstate
  have hreached := Reached.start.afterAll hs
  split at htwice
  case h_1 g hfirst =>
    split at htwice
    case h_1 cause k hsecond =>
      simp only [Option.some.injEq, Prod.mk.injEq] at htwice
      obtain ⟨rfl, hname⟩ := htwice
      exact ⟨s, g, k, hreached, by rw [hlive]; decide, hfirst, hsecond, hname⟩
    case h_2 => cases htwice
  case h_2 => cases htwice

end Session
end SegregatedFit
