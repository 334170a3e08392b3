-- SUMMARY: No trap is reachable: what a call is trapped by, and what can be read at any time.
import SegregatedFit.Proofs.Client.Accounting
import SegregatedFit.Proofs.Heap.Figures
import SegregatedFit.Proofs.Plain.Sessions

/-!
# Safety

A trap is a sum that no word holds, a negative difference, or a range outside the
memory. In an arena that a signed word counts, a well-behaved client meets none:
whatever it asks for, its call is answered or refused, and figures, audit and
payloads can be read after it. Only counts can run out, the arena's of its growths
and the heap's of its resizes, and a call is trapped where one of them does. Main
statement: `Tallied.safe`.
-/
namespace SegregatedFit

open Block

namespace Heap

/-- What can be read off the heap at any time: the figures, the audit, and the
payload at each pointer that is taken for a block. -/
structure Legible (h : Heap Arena) : Prop where
  /-- A signed word counts the bytes of the memory. -/
  size_lt : 2 * h.region.memory.size < wordCount
  stats_ok : ∃ stats, h.stats = .ok stats
  /-- The sums of the audit are no larger than the memory, and a word holds the place of
  the second link of each block that it lists. -/
  audit_ok : ∃ report, h.audit = .ok report ∧ report.freeBytes ≤ report.heapSize ∧
    report.heapSize ≤ h.region.memory.size ∧ ∀ info ∈ report.blocks, ∀ trap,
      h.lists.before h.region.memory (.block info.offset) ≠ .error (.trapped trap)
  /-- A payload lies inside the memory. -/
  payload_inside : ∀ ptr tag, h.blockAt ptr = .ok tag →
    pairSize ≤ tag.size ∧ ptr + tag.size ≤ h.region.memory.size

variable {h : Heap Arena} {spans : List Span} {rings : Bucket → List Nat}

theorem Blank.legible (hblank : h.Blank) (hsize : 2 * h.region.memory.size < wordCount) :
    h.Legible where
  size_lt := hsize
  stats_ok := ⟨_, hblank.stats_eq⟩
  audit_ok := ⟨_, hblank.audit_eq, Nat.le_refl 0, Nat.zero_le _,
    fun _ hinfo => (List.not_mem_nil hinfo).elim⟩
  payload_inside ptr tag hblock := by
    rw [blockAt_uninitialized hblank.prologue_eq] at hblock
    cases hblock

theorem Arranged.legible (h' : h.Arranged spans rings)
    (hsize : 2 * h.region.memory.size < wordCount) : h.Legible where
  size_lt := hsize
  stats_ok := ⟨_, h'.stats_eq⟩
  audit_ok := by
    refine ⟨_, h'.audit_eq, ?_, ?_, ?_⟩
    · have hbytes := h'.allocatedBytes_eq
      dsimp only
      omega
    · have hbytes := h'.memory_size_eq
      dsimp only
      omega
    · intro info hinfo trap
      obtain ⟨s, hs, rfl⟩ := List.mem_map.1 hinfo
      obtain ⟨-, hmin, hstop⟩ := h'.row.bounds hs
      have hm := h'.memory_lt
      refine FreeLists.before_ne_trapped ?_ trap
      simp only [Audit.entry, Span.stop, minBlock, wordSize] at *
      omega
  payload_inside ptr tag hblock := by
    rcases blockAt_cases h' ptr with ⟨size, hmarked, -, heq⟩ | hrefused | hrefused
    · rw [hblock] at heq
      cases heq
      exact ⟨Nat.le_trans (by decide) hmarked.min_le, hmarked.stop_le⟩
    · rw [hblock] at hrefused
      cases hrefused
    · rw [hblock] at hrefused
      cases hrefused

end Heap

namespace Session

variable {arena : Arena} {config : Config} {s : Session} {t : Tally}

/-- In an arena that a signed word counts, whatever its client asks for, a heap can be
read, and a call is trapped only where the arena cannot count its next growth since it
was last empty, or the heap its next resize since it was laid out. -/
theorem Tallied.safe (h : Tallied arena config s t) (hsize : 2 * arena.size < wordCount)
    (hlimit : 2 * arena.limit < wordCount) :
    s.heap.Legible ∧ ∀ call, s.Allows call → ∀ trap g,
      call.run s.heap = .error (.trapped trap) g →
        wordCount ≤ g.region.growCalls + 1 ∨ wordCount ≤ t.resizes + 1 := by
  have hsound := h.reached.sound
  have hbounded := h.reached.bounded
  have hhigh : 2 * (arena.bounds config.normalized).high < wordCount := by
    change 2 * max arena.size arena.limit < wordCount
    omega
  have hle : s.heap.region.memory.size ≤ (arena.bounds config.normalized).high := hbounded.size_le
  refine ⟨?_, ?_⟩
  · rcases hsound.state with ⟨hblank, -⟩ | ⟨spans, rings, h', -⟩
    · exact hblank.legible (by omega)
    · exact h'.legible (by omega)
  · intro call hallows trap g htrapped
    have hrun := hsound.guarded_run hallows hbounded fun _ => rfl
    rw [htrapped, h.agrees.resizes_eq] at hrun
    cases hrun with
    | trapped hstuck => exact hstuck.resolve_left (by omega)

/-- A block that is resized twice, by requests as large as a word. -/
theorem Tallied.safe_of_resized :
    ∃ s t, Tallied {} { chunkSize := 64, logLevel := none } s t ∧
      t = { growths := 1, resizes := 1 } ∧ 2 * Arena.size {} < wordCount ∧
      2 * Arena.limit {} < wordCount ∧ s.heap.Legible ∧ ∀ call, s.Allows call → ∀ trap g,
        call.run s.heap = .error (.trapped trap) g →
          wordCount ≤ g.region.growCalls + 1 ∨ wordCount ≤ t.resizes + 1 := by
  have hrun : ((Session.start {} { chunkSize := 64, logLevel := none }).afterAll
      [.init, .allocate 20, .resize 32 30, .resize 32 18446744073709551615]).isSome = true ∧
      Tally.afterAll {} (Session.start {} { chunkSize := 64, logLevel := none })
        [.init, .allocate 20, .resize 32 30, .resize 32 18446744073709551615] =
          { growths := 1, resizes := 1 } := by
    decide +kernel
  obtain ⟨s, hs⟩ := Option.isSome_iff_exists.1 hrun.1
  exact ⟨s, _, Tallied.start.afterAll hs, hrun.2, by decide, by decide,
    Tallied.safe (Tallied.start.afterAll hs) (by decide) (by decide)⟩

end Session
end SegregatedFit
