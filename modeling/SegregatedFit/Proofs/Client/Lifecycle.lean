-- SUMMARY: Heaps without a layout, heaps just laid out, and the pointers that a new layout leaves.
import SegregatedFit.Proofs.Client.Invariant
import SegregatedFit.Proofs.Heap.Figures
import SegregatedFit.Proofs.Plain.Sessions

/-!
# The life of a heap

A heap that is not laid out, be it new, reset or left by a failed attempt, has no
blocks and refuses everything that needs one (`Vacant`). Laying out always begins
behind what the arena holds: the bytes there stay, and the new heap is one free
chunk (`LaidOut`). So no pointer from before is a block of the new heap, and none
ever becomes one until the arena is emptied (`Onward`, `Rejects`). Main statement:
`Reached.lifecycle`.
-/
namespace SegregatedFit

open Block

namespace Heap

/-- The heap is not laid out: its buckets are empty, it counts nothing, and it
refuses what needs a block. Only the log goes on. -/
structure Vacant (h : Heap Arena) : Prop where
  /-- Every sentinel leads to itself in both directions. -/
  sentinels_eq : ∀ b : Bucket, h.lists.sentinels.get b = ⟨.sentinel b, .sentinel b⟩
  size_eq : h.lists.size = 0
  stats_eq : h.stats = .ok ⟨0, 0, 0, 0, 0, 0, 0⟩
  allocate_refused : ∀ n, allocate n h = .error (.refused .uninitialized) h
  free_refused : ∀ ptr, ptr ≠ nullPtr →
    ∃ events, free ptr h = .error (.refused .uninitialized) (h.loggedAll events)
  resize_refused : ∀ ptr n,
    ∃ events, resize ptr n h = .error (.refused .uninitialized) (h.loggedAll events)
  payload_refused : ∀ ptr, h.payload ptr = .error .uninitialized

/-- The heap was just laid out behind the memory `m`: its only block is a free one. -/
structure LaidOut (h : Heap Arena) (m : Memory) : Prop where
  base_eq : h.base = Word.roundUp m.size pairSize
  prologue_eq : h.prologue = some (h.base + pairSize)
  size_eq : h.region.memory.size = h.base + sentinelBytes + h.config.chunkSize
  byteAt_eq : ∀ i, i < m.size → h.region.memory.byteAt i = m.byteAt i
  /-- The chunk lies between prologue and epilogue and is alone in its bucket. -/
  consistent : Consistent h.lists h.region.memory (h.base + pairSize)
    [⟨h.base + sentinelBytes, h.config.chunkSize, false⟩]
    fun b => if b = .ofSize h.config.chunkSize then [h.base + sentinelBytes] else []
  stats_eq : h.stats = .ok
    { heapSize := sentinelBytes + h.config.chunkSize
      freeBytes := h.config.chunkSize
      freeBlocks := 1
      allocatedBlocks := 0
      extendCalls := 1
      resizeMoves := 0
      resizeInPlace := 0 }

/-- Why a pointer is refused that is in no block: there is no heap, or none of its
blocks begins there. -/
def strayCause (h : Heap Arena) (ptr : Nat) : HeapError :=
  if h.isInitialized then .invalidPointer ptr else .uninitialized

variable {h : Heap Arena}

theorem Blank.vacant (hblank : h.Blank) : h.Vacant where
  sentinels_eq b := by
    rw [hblank.lists_eq]
    exact Vector.getElem_ofFn _
  size_eq := by rw [hblank.lists_eq]; rfl
  stats_eq := hblank.stats_eq
  allocate_refused n := allocate_uninitialized hblank.prologue_eq n
  free_refused ptr hnull :=
    ⟨[.freeRefused ptr .uninitialized],
      free_of_refused hblank.base_le hnull (blockAt_uninitialized hblank.prologue_eq ptr)⟩
  resize_refused ptr n := by
    by_cases hnull : ptr = nullPtr
    · refine ⟨[], ?_⟩
      rw [hnull, resize_null, allocate_uninitialized hblank.prologue_eq n]
      rfl
    · have hblock := blockAt_uninitialized hblank.prologue_eq ptr
      exact (resize_of_refused hblank.base_le hnull hblock n).imp fun _ => And.left
  payload_refused ptr := by
    simp only [payload, blockAt_uninitialized hblank.prologue_eq, bind, Except.bind]

theorem Founded.laidOut {m : Memory} (hfounded : h.Founded (Word.roundUp m.size pairSize))
    (hkept : m.Kept h.region.memory (· < m.size)) : h.LaidOut m := by
  obtain ⟨rings, h'⟩ := hfounded.arranged
  rw [← hfounded.base_eq] at h'
  have hrings : rings = fun b =>
      if b = .ofSize h.config.chunkSize then [h.base + sentinelBytes] else [] :=
    funext fun b => h'.indexed.rings_eq_of_single rfl b
  have hstats := h'.stats_eq
  rw [hfounded.counters_eq] at hstats
  exact ⟨hfounded.base_eq, h'.prologue_eq, hfounded.base_eq ▸ hfounded.size_eq, hkept.byteAt_eq,
    hrings ▸ h'.consistent, hstats⟩

end Heap

namespace Session

/-- The sessions that follow on one without the arena being emptied. -/
inductive Onward (s : Session) : Session → Prop
  | refl : Onward s s
  | step {t t' : Session} {call : Call} :
    Onward s t → t.Allows call → call ≠ .reset → t.after call = some t' → Onward s t'

/-- The pointer is not live, and whatever needs its block is refused. -/
structure Rejects (s : Session) (ptr : Nat) : Prop where
  not_live : ptr ∉ s.live
  free_refused : ∃ events, Heap.free ptr s.heap =
    .error (.refused (s.heap.strayCause ptr)) (s.heap.loggedAll events)
  resize_refused : ∀ n, ∃ events, Heap.resize ptr n s.heap =
    .error (.refused (s.heap.strayCause ptr)) (s.heap.loggedAll events)
  payload_refused : s.heap.payload ptr = .error (s.heap.strayCause ptr)

variable {arena : Arena} {config : Config} {s t : Session} {ptr : Nat}

/-! ## Pointers from before -/

/-- A foreign pointer is refused, and for that reason. -/
theorem Sound.blockAt_eq_strayCause (hs : s.Sound) (hptr : s.heap.Foreign ptr) :
    s.heap.blockAt ptr = .error (s.heap.strayCause ptr) := by
  rcases hs.state with ⟨hblank, -⟩ | ⟨spans, rings, h', -⟩
  · rw [Heap.strayCause, Heap.isInitialized, hblank.prologue_eq]
    exact Heap.blockAt_uninitialized hblank.prologue_eq ptr
  · rw [Heap.strayCause, Heap.isInitialized, h'.prologue_eq]
    exact Heap.blockAt_foreign h' hptr

theorem Sound.rejects (hs : s.Sound) (hptr : s.heap.Foreign ptr) (hnull : ptr ≠ nullPtr) :
    s.Rejects ptr := by
  have hblock := hs.blockAt_eq_strayCause hptr
  refine ⟨?_, ⟨[.freeRefused ptr (s.heap.strayCause ptr)],
    Heap.free_of_refused hs.base_le hnull hblock⟩,
    fun n => (Heap.resize_of_refused hs.base_le hnull hblock n).imp fun _ => And.left, ?_⟩
  · intro hlive
    obtain ⟨spans, rings, u, h', -, hu, rfl⟩ := hs.exists_held hlive
    rw [Heap.blockAt_of_held h' hu] at hblock
    cases hblock
  · simp only [Heap.payload, hblock, bind, Except.bind]

/-- The payload of a live pointer begins inside the memory. -/
theorem Sound.live_lt (hs : s.Sound) (hlive : ptr ∈ s.live) :
    ptr < s.heap.region.memory.size := by
  obtain ⟨spans, rings, u, h', -, hu, rfl⟩ := hs.exists_held hlive
  have hbounds := h'.row.bounds (mem_held.1 hu).1
  simp only [Span.stop, minBlock] at hbounds
  omega

/-- What follows on a session keeps its invariant and its bounds. -/
theorem Onward.bounded (h : Onward s t) (hs : s.Sound) {b : Bounds} {resizes : Nat}
    (hb : s.heap.outline.Bounded b resizes) :
    t.Sound ∧ ∃ resizes, t.heap.outline.Bounded b resizes := by
  induction h with
  | refl => exact ⟨hs, resizes, hb⟩
  | step _ hallows hreset hafter ih =>
    obtain ⟨ht, k, hk⟩ := ih
    exact ⟨ht.after hallows hafter, k + 1,
      ht.bounded_after hallows hk (fun heq => (hreset heq).elim) hafter⟩

/-- Below where a heap was laid out there is never a block again. -/
theorem Onward.rejects (h : Onward s t) (hs : s.Sound) {m : Memory}
    (hlaidOut : s.heap.LaidOut m) (hlt : ptr < m.size) (hnull : ptr ≠ nullPtr) :
    t.Rejects ptr := by
  have hbase : m.size ≤ s.heap.base := hlaidOut.base_eq ▸ Word.le_roundUp _ (by decide)
  have hbounded : s.heap.outline.Bounded
      ⟨s.heap.config, m.size, max s.heap.region.memory.size s.heap.region.limit,
        s.heap.region.limit, s.heap.region.growCalls, Nat.le_max_right _ _⟩
      (s.heap.counters.resizeMoves + s.heap.counters.resizeInPlace) := by
    refine ⟨rfl, ?_, rfl, ?_, Nat.le_max_left _ _, Nat.le_add_left _ _, ?_, Nat.le_refl _⟩
    · have hchunk := s.heap.config.chunkSize_normalized.2.1
      rwa [hs.config_eq] at hchunk
    · have hsize := hlaidOut.size_eq
      change m.size ≤ s.heap.region.memory.size
      omega
    · intro prologue hprologue
      obtain rfl := Option.some.inj (hlaidOut.prologue_eq.symm.trans hprologue)
      exact Nat.le_add_right_of_le hbase
  obtain ⟨ht, k, hk⟩ := h.bounded hs hbounded
  refine ht.rejects (Or.inr (Or.inl fun prologue hprologue => ?_)) hnull
  exact Nat.le_trans (Nat.le_of_lt hlt) (hk.low_le_prologue prologue hprologue)

/-! ## Laying out -/

/-- Laying out a heap that is answered, from any state. -/
theorem Sound.laidOut_of_init (hs : s.Sound) {answer : Option Nat} {g : Heap Arena}
    (hrun : Call.run .init s.heap = .ok answer g) :
    g.config = s.heap.config ∧ g.LaidOut s.heap.region.memory := by
  obtain ⟨_, k, hinit, ⟨⟩⟩ := Action.bind_eq_ok_iff.1 hrun
  have hfounds := Heap.founds_of_init hs.config_eq hinit
  exact ⟨hfounds.config_eq, hfounds.founded.laidOut hfounds.kept⟩

/-- In every session, a heap that is not laid out has nothing in it and refuses what
needs a block, and so does one that was just reset or could not be laid out again. A
heap that was just laid out has one free chunk behind all that was in the arena, and
the pointers that were live then are rejected until the arena is emptied. -/
theorem Reached.lifecycle (h : Reached arena config s) :
    (s.heap.isInitialized = false → s.heap.Vacant) ∧
      s.heap.reset.Vacant ∧
      (∀ cause g, Call.run .init s.heap = .error (.refused cause) g → g.Vacant) ∧
      ∀ answer g, Call.run .init s.heap = .ok answer g →
        g.config.chunkSize = config.normalized.chunkSize ∧ g.LaidOut s.heap.region.memory ∧
          ∀ ptr ∈ s.live, ∀ t, Onward ⟨g, []⟩ t → t.Rejects ptr := by
  have hs := h.sound
  refine ⟨?_, (Heap.blank_reset s.heap).vacant, ?_, ?_⟩
  · intro hnone
    rcases hs.state with ⟨hblank, -⟩ | ⟨spans, rings, h', -⟩
    · exact hblank.vacant
    · rw [Heap.isInitialized, h'.prologue_eq] at hnone
      cases hnone
  · intro cause g hrun
    exact (hs.blank_of_init_refused hrun).vacant
  · intro answer g hrun
    obtain ⟨hconfig, hlaidOut⟩ := hs.laidOut_of_init hrun
    have hafter : s.after .init = some ⟨g, []⟩ := by
      rw [Session.after, hrun]
      rfl
    have hallows : s.Allows .init := trivial
    have hconfig' : s.heap.config = config.normalized := h.bounded.config_eq
    refine ⟨by rw [hconfig, hconfig'], hlaidOut, fun ptr hptr t ht => ?_⟩
    exact ht.rejects (hs.after hallows hafter) hlaidOut (hs.live_lt hptr)
      fun hnull => hs.null_not_live (hnull ▸ hptr)

/-- A heap that is laid out again while its block at 32 is live. -/
theorem Reached.lifecycle_of_live :
    ∃ s g, Reached {} { chunkSize := 64, logLevel := none } s ∧ s.live = [32] ∧
      Call.run .init s.heap = .ok none g ∧ g.LaidOut s.heap.region.memory ∧
        ∀ t, Onward ⟨g, []⟩ t → t.Rejects 32 := by
  have hrun : ((Session.start {} { chunkSize := 64, logLevel := none }).afterAll
      [.init, .allocate 20]).map (fun s => (s.live, s.reply .init)) =
        some ([32], .answered none) := by
    decide +kernel
  obtain ⟨s, hs, hstate⟩ := Option.map_eq_some_iff.1 hrun
  have hlive : s.live = [32] := congrArg Prod.fst hstate
  have hanswer := congrArg Prod.snd hstate
  have hreached := Reached.start.afterAll hs
  dsimp only [reply] at hanswer
  split at hanswer
  case h_1 answer g hinit =>
    obtain rfl := Reply.answered.inj hanswer
    obtain ⟨-, hlaidOut, hrejects⟩ := (Reached.lifecycle hreached).2.2.2 none g hinit
    exact ⟨s, g, hreached, hlive, hinit, hlaidOut, hrejects 32 (by simp [hlive])⟩
  case h_2 => cases hanswer
  case h_3 => cases hanswer

end Session
end SegregatedFit
