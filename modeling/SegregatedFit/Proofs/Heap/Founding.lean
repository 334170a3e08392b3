-- SUMMARY: What laying out and resetting make of a heap, whatever state it was in.
import SegregatedFit.Heap.Lifecycle
import SegregatedFit.Proofs.Heap.Growth

/-!
# Founding a heap

Laying out starts from any state: the old heap is forgotten, the sentinels are
written behind what the region holds (`writeSentinels_apply`), and the first
chunk becomes a free block (`init_cases`). Where that fails, and after a reset,
the heap is `Blank`.
-/
namespace SegregatedFit

open Block FreeLists

-- words are written as a whole here, never byte by byte
attribute [local irreducible] Memory.store Memory.load

namespace Block

/-- The memory with the sentinels of a heap that begins at `base`. -/
def founded (m : Memory) (base : Nat) : Memory :=
  (tagged (m.store base 0 wordSize) (prologueSpan (base + pairSize))).store (base + 24)
    (Tag.encode ⟨0, true⟩) wordSize

theorem prologue_inside_founded {m : Memory} {base : Nat} (hm : m.size = base + sentinelBytes)
    (hlt : m.size < wordCount) {m' : Memory} (hsize : m'.size = m.size) :
    (prologueSpan (base + pairSize)).Inside m' := by
  refine ⟨?_, Nat.le_refl _, ?_, hsize ▸ hlt⟩ <;>
  · simp only [prologueSpan, Span.stop, sentinelBytes, wordSize, pairSize] at *
    omega

@[simp] theorem size_founded (m : Memory) (base : Nat) : (founded m base).size = m.size := by
  simp [founded]

/-- A founded memory is a row without blocks. -/
theorem row_founded {m : Memory} {base : Nat} (hm : m.size = base + sentinelBytes)
    (hlt : m.size < wordCount) : Row (founded m base) (base + pairSize) [] := by
  have hin := prologue_inside_founded hm hlt (Memory.size_store m base 0 wordSize)
  have hin' := prologue_inside_founded hm hlt
    ((size_tagged _ (prologueSpan (base + pairSize))).trans (Memory.size_store m base 0 wordSize))
  have hend : base + 24 + wordSize ≤ m.size := by
    simp only [sentinelBytes, wordSize] at *
    omega
  refine ⟨?_, ?_, fun s hs => (List.not_mem_nil hs).elim,
    fun s hs => (List.not_mem_nil hs).elim, ?_⟩
  · refine (taggedIn_tagged hin.fits (Nat.dvd_refl _)).edited hin'.fits
      (Memory.edited_store _ _ _ _) ?_
    intro i hi hi'
    have hcov := (Span.Covers.of_inTags (Nat.le_refl _) hi).2
    simp only [prologueSpan, Span.stop, wordSize, pairSize] at hcov hi'
    omega
  · rw [size_founded, tiles_nil, hm]
    rfl
  · have hfirst : headerOffset m.size = base + 24 := by
      rw [headerOffset_of_le (by simp only [hm, sentinelBytes, wordSize]; omega), hm]
      rfl
    have hin'' : base + 24 + wordSize ≤ (tagged (m.store base 0 wordSize)
        (prologueSpan (base + pairSize))).size := by
      simpa using hend
    rw [header, size_founded, hfirst, readTag_eq_ok_iff, size_founded]
    refine ⟨hend, ?_⟩
    rw [founded, Memory.load_store hin'' (by decide)]
    rfl

/-- The sentinels change nothing that lies before them. -/
theorem byteAt_founded {m : Memory} {base i : Nat} (hi : i < base) :
    (founded m base).byteAt i = m.byteAt i := by
  have hfirst : (prologueSpan (base + pairSize)).offset - wordSize = base + 8 := by
    simp only [prologueSpan, wordSize, pairSize]
    omega
  have hlast : (prologueSpan (base + pairSize)).stop - pairSize = base + 16 := by
    simp only [prologueSpan, Span.stop, pairSize]
    omega
  rw [founded, tagged, hfirst, hlast, Memory.byteAt_store_of_outside (Or.inl (by omega)),
    Memory.byteAt_store_of_outside (Or.inl (by omega)),
    Memory.byteAt_store_of_outside (Or.inl (by omega)), Memory.byteAt_store_of_outside (Or.inl hi)]

attribute [irreducible] founded

end Block

namespace Heap

variable {h : Heap Arena}

/-- The heap is not laid out, and nothing is left of an earlier one. -/
structure Blank (h : Heap Arena) : Prop where
  prologue_eq : h.prologue = none
  lists_eq : h.lists = .empty
  counters_eq : h.counters = {}

/-- The heap was just laid out from `base` on: all that is in it is the first chunk. -/
structure Founded (h : Heap Arena) (base : Nat) : Prop where
  base_eq : h.base = base
  size_eq : h.region.memory.size = base + sentinelBytes + h.config.chunkSize
  counters_eq : h.counters = { extendCalls := 1 }
  arranged : ∃ rings, h.Arranged [⟨base + sentinelBytes, h.config.chunkSize, false⟩] rings

theorem Blank.logged (hblank : h.Blank) (event : Event) : (h.logged event).Blank :=
  ⟨hblank.prologue_eq, hblank.lists_eq, hblank.counters_eq⟩

theorem Founded.logged {base : Nat} (hfounded : h.Founded base) (event : Event) :
    (h.logged event).Founded base := by
  obtain ⟨rings, h'⟩ := hfounded.arranged
  exact ⟨hfounded.base_eq, hfounded.size_eq, hfounded.counters_eq, rings, h'.logged event⟩

theorem Blank.base_le (hblank : h.Blank) (hinit : h.isInitialized = true) :
    h.base ≤ h.region.memory.size := by
  simp [isInitialized, hblank.prologue_eq] at hinit

theorem blank_ofRegion (region : Arena) (config : Config) :
    (ofRegion region config : Heap Arena).Blank :=
  ⟨rfl, rfl, rfl⟩

theorem blank_reset (h : Heap Arena) : h.reset.Blank :=
  ⟨rfl, rfl, rfl⟩

theorem writeWord_apply {off value : Nat} (hin : off + wordSize ≤ h.region.memory.size) :
    write (Memory.writeWord off value) h =
      .ok () (h.withLists h.lists (h.region.memory.store off value wordSize)) := by
  apply write_of_ok
  simp only [Memory.writeWord, if_pos hin]

/-- The sentinels of a heap that ends with the memory. -/
theorem writeSentinels_apply {base : Nat} (hsize : h.region.memory.size = base + sentinelBytes)
    (hlt : h.region.memory.size < wordCount) :
    writeSentinels base h = .ok () (h.withLists h.lists (founded h.region.memory base)) := by
  obtain ⟨m, hm⟩ : ∃ m, m = h.region.memory := ⟨_, rfl⟩
  rw [← hm] at hsize hlt ⊢
  let m₁ := m.store base 0 wordSize
  let m₂ := m₁.store (base + 8) (Tag.encode ⟨pairSize, true⟩) wordSize
  let m₃ := m₂.store (base + 16) (Tag.encode ⟨pairSize, true⟩) wordSize
  let m₄ := m₃.store (base + 24) (Tag.encode ⟨0, true⟩) wordSize
  have hfounded : founded m base = m₄ := by
    have hfirst : (prologueSpan (base + pairSize)).offset - wordSize = base + 8 := by
      simp only [prologueSpan, wordSize, pairSize]
      omega
    have hlast : (prologueSpan (base + pairSize)).stop - pairSize = base + 16 := by
      simp only [prologueSpan, Span.stop, pairSize]
      omega
    rw [founded, tagged, hfirst, hlast]
    rfl
  have hin : ∀ k, k ≤ 24 → base + k + wordSize ≤ m.size := by
    intro k hk
    simp only [sentinelBytes, wordSize] at *
    omega
  have h₁ : write (Memory.writeWord base 0) h = .ok () (h.withLists h.lists m₁) := by
    have hrun : write (Memory.writeWord base 0) h =
        .ok () (h.withLists h.lists (h.region.memory.store base 0 wordSize)) :=
      writeWord_apply (hm ▸ hin 0 (by decide))
    rw [← hm] at hrun
    exact hrun
  have h₂ : write (Memory.writeWord (base + 8) (Tag.encode ⟨pairSize, true⟩))
      (h.withLists h.lists m₁) = .ok () (h.withLists h.lists m₂) :=
    writeWord_apply (h := h.withLists h.lists m₁) (by simpa [m₁] using hin 8 (by decide))
  have h₃ : write (Memory.writeWord (base + 16) (Tag.encode ⟨pairSize, true⟩))
      (h.withLists h.lists m₂) = .ok () (h.withLists h.lists m₃) :=
    writeWord_apply (h := h.withLists h.lists m₂) (by simpa [m₁, m₂] using hin 16 (by decide))
  have h₄ : write (Memory.writeWord (base + 24) (Tag.encode ⟨0, true⟩))
      (h.withLists h.lists m₃) = .ok () (h.withLists h.lists m₄) :=
    writeWord_apply (h := h.withLists h.lists m₃) (by simpa [m₁, m₂, m₃] using hin 24 (by decide))
  have hadd : ∀ k, k ≤ 24 → Word.add base k = .ok (base + k) := by
    intro k hk
    have hk' := hin k hk
    exact Word.add_of_lt (by omega)
  rw [hfounded]
  simp only [writeSentinels, Action.bind_apply, h₁, hadd 8 (by decide), hadd 16 (by decide),
    hadd 24 (by decide), Action.lift_trap_ok, h₂, h₃, h₄]

/-- The words of a chunk of normalized settings come to the chunk. -/
theorem extend_chunkSize {config : Config} (hconfig : config.normalized = config) :
    (extend (config.chunkSize / wordSize) : HeapM Arena Nat) = grow config.chunkSize := by
  obtain ⟨hdvd, hmin, hlt⟩ := hconfig ▸ config.chunkSize_normalized
  exact extend_div hdvd hmin hlt

/-- Without room for the first chunk there is no heap, and the sentinels stay where they are. -/
theorem firstChunk_of_refused (h' : h.Arranged [] fun _ => [])
    (hconfig : h.config.normalized = h.config) {cause : ArenaError}
    (hgrow : Arena.grow h.config.chunkSize h.region = .error (.refused cause) h.region) :
    firstChunk h = .error (.refused (.arena cause))
      { h.logged (.growthFailed h.config.chunkSize cause) with prologue := none } := by
  simp only [firstChunk, Action.bind_apply, Action.get_apply, extend_chunkSize hconfig,
    Action.attempt_apply, grow_of_refused h' hgrow, Action.modify_apply, Action.refuse_apply]

/-- Adding the first chunk to a heap without blocks: there is no heap without one,
and otherwise the chunk is its only block. What lies before the heap stays, and no
block is claimed that was not. -/
theorem firstChunk_cases (h' : h.Arranged [] fun _ => [])
    (hconfig : h.config.normalized = h.config) (hcounters : h.counters = {})
    (hsize : h.region.memory.size = h.base + sentinelBytes) :
    (∃ cause, Arena.grow h.config.chunkSize h.region = .error (.refused cause) h.region ∧
      firstChunk h = .error (.refused (.arena cause))
        { h.logged (.growthFailed h.config.chunkSize cause) with prologue := none }) ∨
    (∃ trap g, firstChunk h = .error (.trapped trap) g) ∨
    (∃ g, firstChunk h = .ok () g ∧ g.config = h.config ∧ g.Founded h.base ∧
      h.region.memory.Kept g.region.memory (· < h.base) ∧
      (∀ ptr, Claims g.region.memory ptr → Claims h.region.memory ptr) ∧
      h.Concludes g (.laidOut h.base h.config.chunkSize h.config.search)) := by
  obtain ⟨hdvd, hmin, -⟩ := hconfig ▸ h.config.chunkSize_normalized
  rcases Arena.grow_cases h.region h.config.chunkSize with
    ⟨cause, hgrow, -⟩ | ⟨trap, hgrow, -⟩ | ⟨hgrow, -, hlt⟩
  · exact Or.inl ⟨cause, hgrow, firstChunk_of_refused h' hconfig hgrow⟩
  · refine Or.inr (Or.inl ⟨trap, h, ?_⟩)
    simp only [firstChunk, Action.bind_apply, Action.get_apply, extend_chunkSize hconfig,
      Action.attempt_apply, grow_of_trapped hgrow]
  · obtain ⟨s, lists, m, hs, hrun, hgrown, hgrownSize, hkept, hclaims⟩ :=
      grow_of_ok h' hgrow hdvd hmin hlt
    obtain ⟨g, hg⟩ : ∃ g, g = ((h.grownBy h.config.chunkSize).withLists lists m).logged
        (.coalesced (mergeKind [] []) (joined (freeRun [] s [])).offset
          (joined (freeRun [] s [])).size) := ⟨_, rfl⟩
    have hmerged : merged [] s [] = [s] := by
      rw [hs]
      rfl
    have g' : g.Arranged [s] (relisted (fun _ => []) [] s []) := by
      rw [hg, ← hmerged]
      exact hgrown.logged _
    have hgm : g.region.memory = m := by rw [hg]; rfl
    have hgbase : g.base = h.base := by rw [hg]; rfl
    have hgconfig : g.config = h.config := by rw [hg]; rfl
    have hgcounters : g.counters = { extendCalls := 1 } := by
      rw [hg]
      change { h.counters with extendCalls := h.counters.extendCalls + 1 } = _
      rw [hcounters]
    have hfounded : g.Founded h.base := by
      refine ⟨hgbase, ?_, hgcounters, relisted (fun _ => []) [] s [], ?_⟩
      · rw [hgm, hgrownSize, hsize, hgconfig]
      · rw [hgconfig, ← hsize, ← hs]
        exact g'
    rw [← hg] at hrun
    refine Or.inr (Or.inr ⟨g.logged (.laidOut g.base h.config.chunkSize h.config.search), ?_,
      hgconfig, hfounded.logged _, ?_, fun ptr hptr => hclaims ptr (hgm ▸ hptr), g, ?_,
      hgbase ▸ rfl⟩)
    · simp only [firstChunk, Action.bind_apply, Action.get_apply, extend_chunkSize hconfig,
        Action.attempt_apply, hrun, g'.logEvent]
    · change h.region.memory.Kept g.region.memory _
      rw [hgm]
      exact hkept.mono fun i hi => Or.inl hi
    · rw [hg]
      exact (Log.quiet_record (by simp [Event.books_iff]) _ _).trans
        (Log.quiet_record (by simp [Event.books_iff]) _ _)

/-- The heap with everything forgotten that was in its region. -/
def cleared (h : Heap Arena) : Heap Arena :=
  { h with lists := .empty, counters := {}, prologue := none }

theorem blank_cleared (h : Heap Arena) : h.cleared.Blank :=
  ⟨rfl, rfl, rfl⟩

/-- The region of a heap after the sentinels were made room for. -/
def withSentinels (h : Heap Arena) (region : Arena) (base : Nat) : Heap Arena :=
  { h.cleared with
    region := { region with memory := founded region.memory base }
    base
    prologue := some (base + pairSize) }

/-- A heap whose sentinels are written is arranged without blocks. -/
theorem arranged_withSentinels {region : Arena} {base : Nat} (hdvd : pairSize ∣ base)
    (hsize : region.memory.size = base + sentinelBytes)
    (hlt : 2 * region.memory.size < wordCount) :
    (h.withSentinels region base).Arranged [] fun _ => [] := by
  refine ⟨rfl, hdvd, ⟨row_founded hsize (by omega), trivial, indexed_empty _⟩, ⟨rfl, rfl⟩,
    Nat.zero_le _, ?_⟩
  change 2 * (founded region.memory base).size < wordCount
  rwa [size_founded]

/-- Where the heap begins in a region of that size, and the bytes before it. -/
theorem padding_apply {used base : Nat} (hbase : base = Word.roundUp used pairSize)
    (hfit : base < wordCount) :
    Word.fit (Word.roundUp used pairSize) = .ok base ∧
      Word.sub base used = .ok (base - used) ∧ Word.add used (base - used) = .ok base := by
  have hle : used ≤ base := hbase ▸ Word.le_roundUp used (by decide)
  have hsum : used + (base - used) = base := Nat.add_sub_cancel' hle
  refine ⟨hbase ▸ Word.fit_of_lt (hbase ▸ hfit), Word.sub_of_le hle, ?_⟩
  rw [Word.add_of_lt (hsum.symm ▸ hfit), hsum]

section Init

variable {base : Nat} {region : Arena}

/-- The region is so long that no word counts its aligned size. -/
theorem init_of_tooLong
    (hfit : ¬ Word.roundUp h.region.memory.size pairSize < wordCount) :
    init h = .error (.trapped .overflow) h.cleared := by
  have hfit' : Word.fit (Word.roundUp h.region.memory.size pairSize) = .error .overflow :=
    if_neg hfit
  simp only [init, Action.bind_apply, Action.modify_apply, Action.get_apply, Arena.region_size,
    hfit', Action.lift_trapped]
  rfl

theorem init_of_refused {cause : ArenaError}
    (hbase : base = Word.roundUp h.region.memory.size pairSize) (hfit : base < wordCount)
    (hgrow : Arena.grow (base - h.region.memory.size + sentinelBytes) h.region =
      .error (.refused cause) h.region) :
    init h = .error (.refused (.arena cause)) (h.cleared.logged
      (.initFailed (base - h.region.memory.size + sentinelBytes) cause)) := by
  obtain ⟨hround, hpad, -⟩ := padding_apply hbase hfit
  have hlog : logEvent (.initFailed (base - h.region.memory.size + sentinelBytes) cause)
      h.cleared = .ok () (h.cleared.logged
        (.initFailed (base - h.region.memory.size + sentinelBytes) cause)) :=
    logEvent_apply (blank_cleared h).base_le _
  simp only [cleared] at hlog
  simp only [init, Action.bind_apply, Action.modify_apply, Action.get_apply, Arena.region_size,
    hround, hpad, Action.lift_trap_ok, growRegion_apply, hgrow, hlog, Action.refuse_apply]
  rfl

theorem init_of_trapped {trap : Trap}
    (hbase : base = Word.roundUp h.region.memory.size pairSize) (hfit : base < wordCount)
    (hgrow : Arena.grow (base - h.region.memory.size + sentinelBytes) h.region =
      .error (.trapped trap) region) :
    init h = .error (.trapped trap) { h.cleared with region } := by
  obtain ⟨hround, hpad, -⟩ := padding_apply hbase hfit
  simp only [init, Action.bind_apply, Action.modify_apply, Action.get_apply, Arena.region_size,
    hround, hpad, Action.lift_trap_ok, growRegion_apply, hgrow]
  rfl

/-- With room for the sentinels, these are written and the first chunk is added. -/
theorem init_of_grown (hbase : base = Word.roundUp h.region.memory.size pairSize)
    (hfit : base < wordCount)
    (hgrow : Arena.grow (base - h.region.memory.size + sentinelBytes) h.region =
      .ok h.region.memory.size region)
    (hsize : region.memory.size = base + sentinelBytes) (hlt : region.memory.size < wordCount) :
    init h = firstChunk (h.withSentinels region base) := by
  obtain ⟨hround, hpad, hstart⟩ := padding_apply hbase hfit
  have hsentinels : writeSentinels base { h.cleared with region } =
      .ok () (Heap.withLists { h.cleared with region } .empty (founded region.memory base)) :=
    writeSentinels_apply hsize hlt
  have hprologue : Word.add base pairSize = .ok (base + pairSize) := by
    apply Word.add_of_lt
    simp only [sentinelBytes, pairSize] at *
    omega
  simp only [cleared] at hsentinels
  simp only [init, Action.bind_apply, Action.modify_apply, Action.get_apply, Arena.region_size,
    hround, hpad, hstart, Action.lift_trap_ok, growRegion_apply, hgrow, hsentinels, hprologue]
  rfl

end Init

/-- With room for them, the sentinels end the memory, and what lies before them stays. -/
theorem roomed_of_grown {base : Nat} {region : Arena}
    (hbase : base = Word.roundUp h.region.memory.size pairSize)
    (hregion : region = h.regionAfter (base - h.region.memory.size + sentinelBytes))
    (hlt : 2 * (h.region.memory.size + (base - h.region.memory.size + sentinelBytes)) < wordCount) :
    region.memory.size = base + sentinelBytes ∧
      (h.withSentinels region base).Arranged [] (fun _ => []) ∧
      h.region.memory.Kept (founded region.memory base) (· < h.region.memory.size) := by
  have hle : h.region.memory.size ≤ base := hbase ▸ Word.le_roundUp _ (by decide)
  have hsize : region.memory.size = base + sentinelBytes := by
    rw [hregion, regionAfter, Memory.size_extend]
    omega
  have hdvd : pairSize ∣ base := hbase ▸ Word.dvd_roundUp _ pairSize
  refine ⟨hsize, arranged_withSentinels hdvd hsize (by omega), ?_, fun i hi => ?_⟩
  · rw [size_founded]
    omega
  · rw [byteAt_founded (Nat.lt_of_lt_of_le hi hle), hregion, regionAfter, Memory.byteAt_extend]

/-- `g` is `h` after it was laid out behind all that was in the region. -/
structure Founds (h g : Heap Arena) : Prop where
  config_eq : g.config = h.config
  founded : g.Founded (Word.roundUp h.region.memory.size pairSize)
  kept : h.region.memory.Kept g.region.memory (· < h.region.memory.size)
  unclaimed : ∀ ptr, g.base + pairSize < ptr → ¬ Claims g.region.memory ptr
  concludes : h.Concludes g (.laidOut (Word.roundUp h.region.memory.size pairSize)
    h.config.chunkSize h.config.search)

/-- Laying out a heap, from any state: it is refused or trapped without a heap,
or the heap is one free chunk behind what was in the region, and claims no block. -/
theorem init_cases (hconfig : h.config.normalized = h.config) :
    (∃ cause g, init h = .error (.refused cause) g ∧ g.Blank ∧ g.config = h.config) ∨
    (∃ trap g, init h = .error (.trapped trap) g) ∨
    (∃ g, init h = .ok () g ∧ h.Founds g) := by
  obtain ⟨base, hbase⟩ : ∃ base, base = Word.roundUp h.region.memory.size pairSize := ⟨_, rfl⟩
  have hle : h.region.memory.size ≤ base := hbase ▸ Word.le_roundUp _ (by decide)
  by_cases hfit : base < wordCount
  · rcases Arena.grow_cases h.region (base - h.region.memory.size + sentinelBytes) with
      ⟨cause, hgrow, -⟩ | ⟨trap, hgrow, -⟩ | ⟨hgrow, -, hlt⟩
    · exact Or.inl ⟨.arena cause, _, init_of_refused hbase hfit hgrow, (blank_cleared h).logged _,
        rfl⟩
    · exact Or.inr (Or.inl ⟨trap, _, init_of_trapped hbase hfit hgrow⟩)
    · obtain ⟨region, hregion⟩ : ∃ region, region =
          h.regionAfter (base - h.region.memory.size + sentinelBytes) := ⟨_, rfl⟩
      obtain ⟨hsize, hfounded, hbefore⟩ := roomed_of_grown hbase hregion hlt
      rw [init_of_grown hbase hfit (hregion ▸ hgrow) hsize (by omega)]
      rcases firstChunk_cases hfounded hconfig rfl ((size_founded _ _).trans hsize) with
        ⟨cause, -, hrun⟩ | ⟨trap, k, hrun⟩ | ⟨k, hrun, hk, hchunk, hkept, hclaims, hlog⟩
      · exact Or.inl ⟨.arena cause, _, hrun, ⟨rfl, rfl, rfl⟩, rfl⟩
      · exact Or.inr (Or.inl ⟨trap, k, hrun⟩)
      · refine Or.inr (Or.inr ⟨k, hrun, hk, hbase ▸ hchunk,
          hbefore.trans (hkept.mono fun i hi => Nat.lt_of_lt_of_le hi hle),
          fun ptr hlow hptr => ?_, hbase ▸ hlog⟩)
        have hkbase : k.base = base := hchunk.base_eq
        have hdvd : pairSize ∣ base := hfounded.base_dvd
        have haligned := hptr.aligned
        refine hfounded.row.not_claims_end ?_ (hclaims ptr hptr)
        change (founded region.memory base).size ≤ ptr
        rw [size_founded, hsize]
        simp only [hkbase, sentinelBytes, pairSize] at *
        omega
  · exact Or.inr (Or.inl ⟨.overflow, h.cleared, init_of_tooLong (hbase ▸ hfit)⟩)

theorem founds_of_init {g : Heap Arena} (hconfig : h.config.normalized = h.config)
    (hrun : init h = .ok () g) : h.Founds g := by
  rcases init_cases hconfig with ⟨cause, k, hinit, -⟩ | ⟨trap, k, hinit⟩ | ⟨k, hinit, hfounds⟩
  all_goals
    rw [hinit] at hrun
    cases hrun
  exact hfounds

theorem blank_of_init {g : Heap Arena} {cause : HeapError}
    (hconfig : h.config.normalized = h.config) (hrun : init h = .error (.refused cause) g) :
    g.Blank ∧ g.config = h.config := by
  rcases init_cases hconfig with ⟨cause', k, hinit, hblank⟩ | ⟨trap, k, hinit⟩ | ⟨k, hinit, -⟩
  all_goals
    rw [hinit] at hrun
    cases hrun
  exact hblank

end Heap
end SegregatedFit
