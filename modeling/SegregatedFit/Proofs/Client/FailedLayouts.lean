-- SUMMARY: What a refused layout leaves of the heap that was there before, and of the arena.
import SegregatedFit.Proofs.Client.Atomicity
import SegregatedFit.Proofs.Client.Lifecycle

/-!
# Refused layouts

Laying out a heap forgets the old one before it asks the arena for room, and it asks
twice: for the sentinels, and then for the first chunk. A refusal gives nothing of this
back. The old heap is gone, and if the sentinels had room, the arena stays longer by
their bytes (`Stops`). So nothing has changed only where there was no heap and no room
for sentinels. Main statement: `Reached.refused_layout`.
-/
namespace SegregatedFit

open Block

namespace Heap

/-- No difference between `h` and `g` is in the bytes or their number, in the lists, in
the counters, in whether there is a heap, or in the pointers that a payload is read at. -/
structure Unaltered (h g : Heap Arena) : Prop where
  memory_eq : g.region.memory = h.region.memory
  lists_eq : g.lists = h.lists
  counters_eq : g.counters = h.counters
  initialized_eq : g.isInitialized = h.isInitialized
  accepts_iff : ∀ ptr, (∃ bytes, g.payload ptr = .ok bytes) ↔ ∃ bytes, h.payload ptr = .ok bytes

/-- The arena cannot hold that many bytes. -/
def Full (h : Heap Arena) (bytes : Nat) : Prop := h.region.limit < bytes ∨ wordCount ≤ bytes

/-- Where the layout of a heap at `base` came to an end, and what it left in the arena. -/
inductive Stops (h g : Heap Arena) (base : Nat) : HeapError → Prop
  /-- There is no room for the sentinels, and nothing was written. -/
  | atSentinels : h.Full (base + sentinelBytes) → g.region = h.region → g.base = h.base →
      Stops h g base (.arena (.exhausted (base - h.region.memory.size + sentinelBytes)
        h.region.memory.size h.region.limit))
  /-- There is no room for the chunk behind them, and they stay. -/
  | atChunk : ¬ h.Full (base + sentinelBytes) →
      h.Full (base + sentinelBytes + h.config.chunkSize) →
      g.region.memory = founded (h.region.memory.extend
        (base - h.region.memory.size + sentinelBytes)) base →
      g.region.memory.size = base + sentinelBytes →
      g.region.growCalls = h.region.growCalls + 1 → g.base = base →
      Stops h g base (.arena (.exhausted h.config.chunkSize (base + sentinelBytes)
        h.region.limit))

/-- What every refused layout leaves: the bytes of the old heap, and none of the rest. -/
structure Forsakes (h g : Heap Arena) : Prop where
  blank : g.Blank
  config_eq : g.config = h.config
  limit_eq : g.region.limit = h.region.limit
  kept : h.region.memory.Kept g.region.memory (· < h.region.memory.size)
  log_continued : h.log.Continued g.log

variable {h g : Heap Arena} {base : Nat} {cause : HeapError}

/-! ## Where it stops -/

/-- A layout that got room for its sentinels is refused only for its chunk. -/
theorem stops_of_firstChunk {region : Arena} (hconfig : h.config.normalized = h.config)
    (hbase : base = Word.roundUp h.region.memory.size pairSize)
    (hregion : region = h.regionAfter (base - h.region.memory.size + sentinelBytes))
    (hlt : 2 * (h.region.memory.size + (base - h.region.memory.size + sentinelBytes)) < wordCount)
    (hroom : ¬ h.Full (base + sentinelBytes))
    (hrun : firstChunk (h.withSentinels region base) = .error (.refused cause) g) :
    h.Stops g base cause ∧ h.Forsakes g := by
  obtain ⟨hsize, hfounded, hkept⟩ := roomed_of_grown hbase hregion hlt
  have hgrown : (h.withSentinels region base).region.size = base + sentinelBytes :=
    (size_founded _ _).trans hsize
  have hlimit : (h.withSentinels region base).region.limit = h.region.limit := by
    rw [hregion]
    rfl
  have hcalls : region.growCalls = h.region.growCalls + 1 := by rw [hregion, regionAfter]
  have hmemory : founded region.memory base =
      founded (h.region.memory.extend (base - h.region.memory.size + sentinelBytes)) base := by
    rw [hregion, regionAfter]
  rcases firstChunk_cases hfounded hconfig rfl hgrown with
    ⟨arenaCause, hchunk, hrun'⟩ | ⟨trap, k, hrun'⟩ | ⟨k, hrun', -⟩
  all_goals
    rw [hrun'] at hrun
    cases hrun
  obtain ⟨hfull, rfl, -⟩ := Arena.grow_eq_refused_iff.1 hchunk
  rw [hgrown, hlimit] at hfull ⊢
  exact ⟨.atChunk hroom hfull hmemory hgrown hcalls rfl, ⟨rfl, rfl, rfl⟩, rfl, hlimit, hkept,
    h.log.continued_record _ _⟩

/-- A refused layout stops at the sentinels or at the chunk. -/
theorem stops_of_init (hconfig : h.config.normalized = h.config)
    (hrun : init h = .error (.refused cause) g) :
    h.Stops g (Word.roundUp h.region.memory.size pairSize) cause ∧ h.Forsakes g := by
  obtain ⟨base, hbase⟩ : ∃ base, base = Word.roundUp h.region.memory.size pairSize := ⟨_, rfl⟩
  have hle : h.region.memory.size ≤ base := hbase ▸ Word.le_roundUp _ (by decide)
  have hsum : h.region.memory.size + (base - h.region.memory.size + sentinelBytes) =
      base + sentinelBytes := by
    omega
  rw [← hbase]
  by_cases hfit : base < wordCount
  · rcases Arena.grow_cases h.region (base - h.region.memory.size + sentinelBytes) with
      ⟨arenaCause, hgrow, rfl, -⟩ | ⟨trap, hgrow, -⟩ | ⟨hgrow, hroom, hlt⟩
    · have hfull := (Arena.grow_eq_refused_iff.1 hgrow).1
      rw [Arena.size, hsum] at hfull
      rw [init_of_refused hbase hfit hgrow] at hrun
      cases hrun
      exact ⟨.atSentinels hfull rfl rfl, (blank_cleared h).logged _, rfl, rfl,
        ⟨Nat.le_refl _, fun _ _ => rfl⟩, h.log.continued_record _ _⟩
    · rw [init_of_trapped hbase hfit hgrow] at hrun
      cases hrun
    · obtain ⟨region, hregion⟩ : ∃ region, region =
          h.regionAfter (base - h.region.memory.size + sentinelBytes) := ⟨_, rfl⟩
      have hsize := (roomed_of_grown hbase hregion hlt).1
      rw [init_of_grown hbase hfit (hregion ▸ hgrow) hsize (by omega)] at hrun
      refine stops_of_firstChunk hconfig hbase hregion hlt ?_ hrun
      simp only [Full]
      omega
  · rw [init_of_tooLong (hbase ▸ hfit)] at hrun
    cases hrun

/-- A layout that stops leaves everything unaltered exactly if there was nothing to
forget and nothing was taken from the arena. -/
theorem Stops.unaltered_iff (hstops : h.Stops g base cause) (hforsakes : h.Forsakes g)
    (hle : h.region.memory.size ≤ base) (hblank : h.isInitialized = false → h.Blank) :
    h.Unaltered g ↔ h.isInitialized = false ∧ h.Full (base + sentinelBytes) := by
  have hnone : g.isInitialized = false := by simp [isInitialized, hforsakes.blank.prologue_eq]
  constructor
  · intro hsame
    refine ⟨hsame.initialized_eq ▸ hnone, ?_⟩
    cases hstops with
    | atSentinels hfull => exact hfull
    | atChunk _ _ _ hsize =>
      rw [hsame.memory_eq] at hsize
      simp only [sentinelBytes] at hsize
      omega
  · rintro ⟨hinit, hfull⟩
    have hvacant := (hblank hinit).vacant
    have hregion : g.region = h.region := by
      cases hstops with
      | atSentinels _ hregion => exact hregion
      | atChunk hroom => exact (hroom hfull).elim
    exact {
      memory_eq := congrArg Arena.memory hregion
      lists_eq := hforsakes.blank.lists_eq.trans (hblank hinit).lists_eq.symm
      counters_eq := hforsakes.blank.counters_eq.trans (hblank hinit).counters_eq.symm
      initialized_eq := hnone.trans hinit.symm
      accepts_iff := fun ptr => by
        rw [hforsakes.blank.vacant.payload_refused, hvacant.payload_refused] }

end Heap

namespace Session

variable {arena : Arena} {config : Config} {s : Session} {g : Heap Arena} {cause : HeapError}

/-- In every session, a refused layout leaves no heap, whatever there was before, and the
bytes that the arena held. It leaves everything unaltered exactly if there was no heap and
the arena has no room for the sentinels. -/
theorem Reached.refused_layout (h : Reached arena config s)
    (hrun : Heap.init s.heap = .error (.refused cause) g) :
    s.heap.Stops g (Word.roundUp s.heap.region.memory.size pairSize) cause ∧
      s.heap.Forsakes g ∧ g.Vacant ∧
      (s.heap.Unaltered g ↔ s.heap.isInitialized = false ∧
        s.heap.Full (Word.roundUp s.heap.region.memory.size pairSize + sentinelBytes)) := by
  obtain ⟨hstops, hforsakes⟩ := Heap.stops_of_init h.sound.config_eq hrun
  refine ⟨hstops, hforsakes, hforsakes.blank.vacant,
    hstops.unaltered_iff hforsakes (Word.le_roundUp _ (by decide)) fun hnone => ?_⟩
  rcases h.sound.state with ⟨hblank, -⟩ | ⟨spans, rings, h', -⟩
  · exact hblank
  · rw [Heap.isInitialized, h'.prologue_eq] at hnone
    cases hnone

/-- A new heap over an arena without room for the sentinels. -/
theorem Reached.refused_layout_of_small_arena :
    ∃ s cause g, Reached { limit := 16 } {} s ∧
      Heap.init s.heap = .error (.refused cause) g ∧ g.Vacant ∧ s.heap.Unaltered g := by
  have hrun : (match Heap.init (Session.start { limit := 16 } {}).heap with
      | .error (.refused _) _ => true
      | _ => false) = true := by
    decide +kernel
  split at hrun
  case h_1 cause g hinit =>
    obtain ⟨-, -, hvacant, hiff⟩ := Reached.refused_layout Reached.start hinit
    exact ⟨_, cause, g, .start, hinit, hvacant, hiff.2 ⟨rfl, Or.inl (by decide +kernel)⟩⟩
  case h_2 => cases hrun

/-- A heap with a live block that is to be laid out again, in an arena with room for its
sentinels and not for its chunk: the block and the heap are gone, and the arena is longer. -/
theorem Reached.refused_layout_alters :
    ∃ s g, Reached { limit := 160 } { chunkSize := 64 } s ∧ s.live = [32] ∧
      Heap.init s.heap = .error (.refused (.arena (.exhausted 64 128 160))) g ∧
      s.heap.isInitialized = true ∧ g.isInitialized = false ∧
      s.heap.region.memory.size = 96 ∧ g.region.memory.size = 128 ∧
      (∃ bytes, s.heap.payload 32 = .ok bytes) ∧ g.payload 32 = .error .uninitialized ∧
      ¬ s.heap.Unaltered g := by
  have hrun : ((Session.start { limit := 160 } { chunkSize := 64 }).afterAll
      [.init, .allocate 20]).map (fun s =>
        (s.live, s.heap.isInitialized, s.heap.region.memory.size,
          match Heap.init s.heap with
          | .error (.refused cause) g => some (cause, g.region.memory.size)
          | _ => none)) =
        some ([32], true, 96, some (.arena (.exhausted 64 128 160), 128)) := by
    decide +kernel
  obtain ⟨s, hs, hstate⟩ := Option.map_eq_some_iff.1 hrun
  simp only [Prod.mk.injEq] at hstate
  obtain ⟨hlive, hinit, hsize, hrefused⟩ := hstate
  have hreached := Reached.start.afterAll hs
  split at hrefused
  case h_1 cause g hlayout =>
    simp only [Option.some.injEq, Prod.mk.injEq] at hrefused
    obtain ⟨rfl, hsize'⟩ := hrefused
    have hblank := (Heap.stops_of_init hreached.sound.config_eq hlayout).2.blank
    have hnone : g.isInitialized = false := by simp [Heap.isInitialized, hblank.prologue_eq]
    obtain ⟨spans, rings, u, h', -, hu, hoff⟩ :=
      hreached.sound.exists_held (hlive ▸ List.mem_cons_self)
    refine ⟨s, g, hreached, hlive, hlayout, hinit, hnone, hsize, hsize',
      ⟨_, hoff ▸ Heap.payload_of_held h' hu⟩, hblank.vacant.payload_refused 32,
      fun hsame => ?_⟩
    have heq := hsame.initialized_eq
    rw [hinit, hnone] at heq
    cases heq
  case h_2 => cases hrefused

end Session
end SegregatedFit
