-- SUMMARY: Pointers that are not live: which of them are refused, and the one way in which they are not.
import SegregatedFit.Proofs.Client.Atomicity
import SegregatedFit.Proofs.Heap.Pointers

/-!
# Stray pointers

A stray pointer is neither null nor live: it points into a payload, into free
memory or nowhere. It is refused without an effect (`Ignores`), unless the words
around it are payload bytes that read as tags. Main statement:
`Reached.strays_ignored_iff`, for every session that can be reached and every
pointer. The exception is real (`Reached.stray_freed`): clients write what they
like into a payload, and the heap believes it.
-/
namespace SegregatedFit

open Block

/-- The operation is refused because `ptr` names no allocated block, and has no
effect but in the log. -/
def Heap.Ignores {α : Type} (h : Heap Arena) (ptr : Nat) (x : HeapM Arena α) : Prop :=
  ∃ cause g, x h = .error (.refused cause) g ∧
    (cause = .invalidPointer ptr ∨ cause = .doubleFree ptr) ∧ h.Untouched g

/-- Freeing, resizing and measuring at `ptr` have no effect. -/
structure Heap.IgnoresAt (h : Heap Arena) (ptr : Nat) : Prop where
  free : h.Ignores ptr (Heap.free ptr)
  resize : ∀ n, h.Ignores ptr (Heap.resize ptr n)
  unsized : h.payloadSize? ptr = none

namespace Session

variable {s : Session} {spans : List Span} {rings : Bucket → List Nat} {ptr : Nat}

/-- A pointer that is not taken for a block is refused. -/
theorem Sound.ignoresAt (hs : s.Sound) {cause : HeapError} (hptr : ptr ≠ nullPtr)
    (hblock : s.heap.blockAt ptr = .error cause)
    (hcause : cause = .invalidPointer ptr ∨ cause = .doubleFree ptr) : s.heap.IgnoresAt ptr := by
  refine ⟨?_, fun n => ?_, ?_⟩
  · exact ⟨cause, _, Heap.free_of_refused hs.base_le hptr hblock, hcause,
      (untouched_loggedAll s.heap [.freeRefused ptr cause]).1⟩
  · obtain ⟨events, hrun, -⟩ := Heap.resize_of_refused hs.base_le hptr hblock n
    exact ⟨cause, _, hrun, hcause, (untouched_loggedAll s.heap events).1⟩
  · rw [Heap.payloadSize?, hblock]
    rfl

/-- A stray pointer is taken for a block exactly if the tags around it are forged. -/
theorem exists_blockAt_iff (h' : s.heap.Arranged spans rings) (howns : s.Owns spans)
    (hptr : ptr ≠ nullPtr) (hstray : ptr ∉ s.live) :
    (∃ tag, s.heap.blockAt ptr = .ok tag) ↔
      ∃ size, Forged s.heap.region.memory spans ptr size := by
  have hprologue := Nat.dvd_add h'.base_dvd (Nat.dvd_refl pairSize)
  constructor
  · rintro ⟨tag, hblock⟩
    rcases Heap.blockAt_cases h' ptr with ⟨size, hmarked, hlow, -⟩ | hrefused | hrefused
    · rcases hmarked.held_or_forged h'.row hprologue h'.memory_lt hlow with
        ⟨t, ht, hoff⟩ | hforged
      · exact (hstray (hoff ▸ howns.mem_live ht)).elim
      · exact ⟨size, hforged⟩
    · rw [hrefused] at hblock
      cases hblock
    · rw [hrefused] at hblock
      cases hblock
  · rintro ⟨size, hforged⟩
    have hlow := hforged.prologue_lt h'.row (Nat.pos_of_ne_zero hptr)
    exact ⟨_, Heap.blockAt_of_marked h' hforged.marked (Nat.lt_of_add_right_lt hlow)⟩

/-- A stray pointer is ignored exactly if the tags around it are not forged. -/
theorem Sound.ignoresAt_iff (hs : s.Sound) (h' : s.heap.Arranged spans rings)
    (howns : s.Owns spans) (hptr : ptr ≠ nullPtr) (hstray : ptr ∉ s.live) :
    s.heap.IgnoresAt ptr ↔ ¬ ∃ size, Forged s.heap.region.memory spans ptr size := by
  rw [← exists_blockAt_iff h' howns hptr hstray]
  constructor
  · rintro hignores ⟨tag, hblock⟩
    have hunsized := hignores.unsized
    rw [Heap.payloadSize?, hblock] at hunsized
    cases hunsized
  · intro hnone
    rcases Heap.blockAt_cases h' ptr with ⟨size, -, -, hblock⟩ | hrefused | hrefused
    · exact (hnone ⟨_, hblock⟩).elim
    · exact hs.ignoresAt hptr hrefused (Or.inl rfl)
    · exact hs.ignoresAt hptr hrefused (Or.inr rfl)

/-- In every session that can be reached, a pointer that is neither null nor live
is ignored, unless it stands between payload bytes that read as the tags of an
allocated block. -/
theorem Reached.strays_ignored_iff {arena : Arena} {config : Config} {prologue : Nat}
    (h : Reached arena config s) (hprologue : s.heap.prologue = some prologue) :
    ∃ spans rings, Consistent s.heap.lists s.heap.memory prologue spans rings ∧
      s.live.Perm ((held spans).map Span.offset) ∧
      ∀ ptr, ptr ≠ nullPtr → ptr ∉ s.live →
        (s.heap.IgnoresAt ptr ↔ ¬ ∃ size, Forged s.heap.memory spans ptr size) := by
  obtain ⟨spans, rings, h', howns, rfl⟩ := h.exists_arranged hprologue
  exact ⟨spans, rings, h'.consistent, howns, fun ptr hptr hstray =>
    h.sound.ignoresAt_iff h' howns hptr hstray⟩

/-- A session with one live block, in which a word reads as the header of another. -/
theorem Reached.strays_ignored_iff_of_stored :
    ∃ s, Reached {} { chunkSize := 256, logLevel := none } s ∧ s.heap.prologue = some 16 ∧
      s.live = [32] ∧
      ∃ spans rings, Consistent s.heap.lists s.heap.memory 16 spans rings ∧
        s.live.Perm ((held spans).map Span.offset) ∧
        ∀ ptr, ptr ≠ nullPtr → ptr ∉ s.live →
          (s.heap.IgnoresAt ptr ↔ ¬ ∃ size, Forged s.heap.memory spans ptr size) := by
  have hrun : ((Session.start {} { chunkSize := 256, logLevel := none }).afterAll
      [.init, .allocate 100, .store 32 8 [33, 0, 0, 0, 0, 0, 0, 0]]).map
        (fun s => (s.heap.prologue, s.live)) = some (some 16, [32]) := by
    decide +kernel
  obtain ⟨s, hs, hstate⟩ := Option.map_eq_some_iff.1 hrun
  have hreached := Reached.start.afterAll hs
  have hprologue : s.heap.prologue = some 16 := congrArg Prod.fst hstate
  exact ⟨s, hreached, hprologue, congrArg Prod.snd hstate,
    Reached.strays_ignored_iff hreached hprologue⟩

/-- Six words in the payload of the only live block, each of which reads as the tag
of an allocated block of 32 bytes: 16 bytes behind the live pointer, the heap
frees a block and then counts none as allocated. -/
theorem Reached.stray_freed :
    ∃ s g, Reached {} { chunkSize := 256, logLevel := none } s ∧ s.live = [32] ∧
      ¬ s.heap.IgnoresAt 48 ∧ Call.run (.free 48) s.heap = .ok none g ∧
      g.counters.allocatedBlocks = 0 := by
  have hrun : ((Session.start {} { chunkSize := 256, logLevel := none }).afterAll
      [.init, .allocate 100, .store 32 0
        (List.replicate 6 [33, 0, 0, 0, 0, 0, 0, 0]).flatten]).map
        (fun s => (s.live, s.heap.payloadSize? 48, match Call.run (.free 48) s.heap with
          | .ok none g => g.counters.allocatedBlocks == 0
          | _ => false)) = some ([32], some 16, true) := by
    decide +kernel
  obtain ⟨s, hs, hstate⟩ := Option.map_eq_some_iff.1 hrun
  simp only [Prod.mk.injEq] at hstate
  obtain ⟨hlive, hsized, hfreed⟩ := hstate
  have hheeds : ¬ s.heap.IgnoresAt 48 := by
    intro hignores
    rw [hignores.unsized] at hsized
    cases hsized
  split at hfreed
  case h_1 g hfree =>
    exact ⟨s, g, Reached.start.afterAll hs, hlive, hheeds, hfree, eq_of_beq hfreed⟩
  case h_2 => cases hfreed

end Session
end SegregatedFit
