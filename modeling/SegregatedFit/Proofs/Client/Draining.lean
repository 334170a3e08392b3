-- SUMMARY: Freeing several blocks: in any order they leave the same heap.
import SegregatedFit.Proofs.Block.Filling
import SegregatedFit.Proofs.Client.Accounting

/-!
# Draining

A block that is freed is merged with the free blocks next to it, so what is left
of a heap depends on the blocks that stay, and not on the order in which the
others were freed. The blocks are always the allocated ones with the gaps filled
(`Arranged.eq_filled`), and freeing takes allocated ones out (`freeAll_of_held`).
Main statement: `Reached.freed_in_any_order`, where a heap that is drained of all
its blocks ends as a single free one.
-/
namespace SegregatedFit

open Block

/-! ## Blocks that stay -/

/-- The blocks that are not at one of the pointers. -/
def Block.without (ptrs : List Nat) (spans : List Span) : List Span :=
  spans.filter fun s => s.offset ∉ ptrs

namespace Block

variable {ptrs ptrs' : List Nat} {front back spans : List Span} {s : Span}

theorem mem_without : s ∈ without ptrs spans ↔ s ∈ spans ∧ s.offset ∉ ptrs := by
  simp [without]

theorem without_nil (spans : List Span) : without [] spans = spans := by
  simp [without]

theorem without_without (ptr : Nat) (ptrs : List Nat) (spans : List Span) :
    without ptrs (without [ptr] spans) = without (ptr :: ptrs) spans := by
  simp [without, List.filter_filter, Bool.and_comm]

/-- The order of the pointers has no part in it. -/
theorem without_perm (hperm : ptrs.Perm ptrs') (spans : List Span) :
    without ptrs spans = without ptrs' spans := by
  simp only [without, hperm.mem_iff]

/-- A block is taken out of a row by its pointer. -/
theorem Row.without_held {m : Memory} {prologue : Nat} (h : Row m prologue (front ++ s :: back))
    (hs : s.allocated = true) :
    without [s.offset] (held (front ++ s :: back)) = held (front ++ back) := by
  have hfresh : s ∉ front ++ back := (List.nodup_cons.1 (List.nodup_middle.1 h.nodup)).1
  have hstays : ∀ t ∈ held (front ++ back), t.offset ≠ s.offset := by
    intro t ht hoff
    have ht' : t ∈ front ++ back := (mem_held.1 ht).1
    have hmem : t ∈ front ++ s :: back := List.perm_middle.mem_iff.2 (List.mem_cons_of_mem s ht')
    exact hfresh (h.eq_of_offset hmem (List.mem_append_right _ List.mem_cons_self) hoff ▸ ht')
  calc without [s.offset] (held (front ++ s :: back))
      = without [s.offset] (held (front ++ back)) := by
        rw [held_append, held_append, held_cons_allocated hs]
        simp [without]
    _ = held (front ++ back) := List.filter_eq_self.2 fun t ht => by simpa using hstays t ht

end Block

/-! ## Freeing one block after the other -/

namespace Heap

/-- Frees the blocks at these pointers, one after the other. -/
def freeAll (ptrs : List Nat) : HeapM Arena Unit := ptrs.forM free

theorem freeAll_cons (ptr : Nat) (ptrs : List Nat) :
    freeAll (ptr :: ptrs) = (do free ptr; freeAll ptrs) := rfl

variable {h g g' : Heap Arena} {spans : List Span} {rings rings' : Bucket → List Nat}

/-- The blocks of a heap are those that are allocated, with the gaps filled. -/
theorem Arranged.eq_filled (h' : h.Arranged spans rings) :
    spans = filled (h.base + sentinelBytes) (held spans) h.region.memory.size :=
  h'.row.tiles.eq_filled h'.consistent.separated fun _ hs =>
    Nat.lt_of_lt_of_le (by decide) (h'.row.bounds hs).2.1

/-- Freeing an allocated block leaves the others. -/
theorem free_leaves {s : Span} (h' : h.Arranged spans rings) (hs : s ∈ held spans) :
    ∃ g spans' rings', free s.offset h = .ok () g ∧ g.Arranged spans' rings' ∧
      held spans' = without [s.offset] (held spans) := by
  obtain ⟨front, back, rfl, halloc⟩ := exists_middle_of_held hs
  obtain ⟨g, hrun, hfrees⟩ := free_middle h' halloc
  refine ⟨g, _, _, hrun, hfrees.arranged, ?_⟩
  rw [h'.row.without_held halloc, held_append]
  exact held_merged front s.freed back

/-- Allocated blocks can be freed one after the other, and the others are left. -/
theorem freeAll_of_held {ptrs : List Nat} (h' : h.Arranged spans rings) (hnodup : ptrs.Nodup)
    (hptrs : ∀ ptr ∈ ptrs, ∃ s ∈ held spans, s.offset = ptr) :
    ∃ g spans' rings', freeAll ptrs h = .ok () g ∧ g.Arranged spans' rings' ∧
      g.readings = h.readings ∧ held spans' = without ptrs (held spans) := by
  induction ptrs generalizing h spans rings with
  | nil => exact ⟨h, spans, rings, rfl, h', rfl, (without_nil _).symm⟩
  | cons ptr ptrs ih =>
    obtain ⟨hnew, hnodup'⟩ := List.nodup_cons.1 hnodup
    obtain ⟨s, hs, rfl⟩ := hptrs ptr List.mem_cons_self
    obtain ⟨g, spans₁, rings₁, hrun, g', hheld⟩ := free_leaves h' hs
    have hrest : ∀ ptr ∈ ptrs, ∃ t ∈ held spans₁, t.offset = ptr := by
      intro ptr hptr
      obtain ⟨t, ht, rfl⟩ := hptrs ptr (List.mem_cons_of_mem _ hptr)
      refine ⟨t, hheld ▸ mem_without.2 ⟨ht, ?_⟩, rfl⟩
      exact fun hmem => hnew (List.mem_singleton.1 hmem ▸ hptr)
    obtain ⟨k, spans₂, rings₂, hrun', k', hreadings, hheld'⟩ := ih g' hnodup' hrest
    refine ⟨k, spans₂, rings₂, ?_, k', hreadings.trans ((keeps_free _).of_ok hrun), ?_⟩
    · simp only [freeAll_cons, Action.bind_apply, hrun, hrun']
    · rw [hheld', hheld, without_without]

/-! ## Heaps with the same blocks -/

/-- Both heaps are as long, consist of these blocks, tell the same of them, and
index the same ones in each bucket, in whatever order. -/
structure Alike (g g' : Heap Arena) (prologue : Nat) (spans : List Span) : Prop where
  size_eq : g'.region.memory.size = g.region.memory.size
  stats_eq : ∃ stats, g.stats = .ok stats ∧ g'.stats = .ok stats
  audit_eq : ∃ report, g.audit = .ok report ∧ g'.audit = .ok report ∧ report.violations = [] ∧
    report.blocks = spans.map Audit.entry
  indexed : ∃ rings rings', Consistent g.lists g.memory prologue spans rings ∧
    Consistent g'.lists g'.memory prologue spans rings' ∧ ∀ b, (rings b).Perm (rings' b)

/-- The heap is one free block of this size, in the bucket of its size. -/
def Drained (g : Heap Arena) (prologue size : Nat) : Prop :=
  ∃ rings, Consistent g.lists g.memory prologue [⟨prologue + pairSize, size, false⟩] rings ∧
    ∀ b, rings b = if b = .ofSize size then [prologue + pairSize] else []

/-- The allocated blocks and the readings decide the blocks. -/
theorem Arranged.eq_of_held {spans' : List Span} (h' : h.Arranged spans rings)
    (g' : g.Arranged spans' rings') (hreadings : g.readings = h.readings)
    (hheld : held spans = held spans') : spans = spans' := by
  have hbase : g.base = h.base := congrArg Readings.base hreadings
  have hsize : g.region.memory.size = h.region.memory.size := congrArg Readings.size hreadings
  calc spans
      = filled (h.base + sentinelBytes) (held spans) h.region.memory.size := h'.eq_filled
    _ = filled (g.base + sentinelBytes) (held spans') g.region.memory.size := by
        rw [hbase, hsize, hheld]
    _ = spans' := g'.eq_filled.symm

/-- The blocks and the readings decide what there is to see of a heap. -/
theorem alike_of_arranged (h' : h.Arranged spans rings) (g' : g.Arranged spans rings')
    (hreadings : g.readings = h.readings) : h.Alike g (h.base + pairSize) spans := by
  have hbase : g.base = h.base := congrArg Readings.base hreadings
  have hsize : g.region.memory.size = h.region.memory.size := congrArg Readings.size hreadings
  have hextend : g.counters.extendCalls = h.counters.extendCalls :=
    congrArg Readings.extendCalls hreadings
  have hmoves : g.counters.resizeMoves = h.counters.resizeMoves :=
    congrArg Readings.resizeMoves hreadings
  have hinPlace : g.counters.resizeInPlace = h.counters.resizeInPlace :=
    congrArg Readings.resizeInPlace hreadings
  have hgstats := g'.stats_eq
  rw [hextend, hmoves, hinPlace] at hgstats
  have hgaudit := g'.audit_eq
  rw [hsize] at hgaudit
  refine ⟨hsize, ⟨_, h'.stats_eq, hgstats⟩, ⟨_, h'.audit_eq, hgaudit, rfl, rfl⟩,
    rings, rings', h'.consistent, hbase ▸ g'.consistent, h'.indexed.perm_rings g'.indexed⟩

/-- A heap with no allocated block, and with room for one, is a single free block. -/
theorem drained_of_arranged (h' : h.Arranged spans rings) (hheld : held spans = [])
    (hroom : h.base + sentinelBytes < h.region.memory.size) :
    ∃ stats, h.stats = .ok stats ∧ h.Drained (h.base + pairSize) (stats.heapSize - sentinelBytes) := by
  obtain ⟨size, hsize⟩ : ∃ size, size = h.region.memory.size - (h.base + sentinelBytes) :=
    ⟨_, rfl⟩
  have hspans : spans = [⟨h.base + sentinelBytes, size, false⟩] := by
    rw [h'.eq_filled, hheld, filled, gap, if_pos hroom, hsize]
  subst hspans
  refine ⟨_, h'.stats_eq, ?_⟩
  dsimp only
  rw [Nat.add_sub_cancel_left]
  exact ⟨rings, h'.consistent, h'.indexed.rings_eq_of_single rfl⟩

end Heap

/-! ## Freeing live pointers -/

namespace Session

variable {arena : Arena} {config : Config} {s s' : Session} {call : Call} {prologue : Nat}

/-- A heap that is laid out has room for blocks. -/
def Roomy (s : Session) : Prop :=
  ∀ prologue, s.heap.prologue = some prologue → prologue + pairSize < s.heap.region.memory.size

theorem roomy_of_blank (hblank : s.heap.Blank) : s.Roomy := by
  intro prologue hprologue
  rw [hblank.prologue_eq] at hprologue
  cases hprologue

/-- A block is the room that it takes. -/
theorem roomy_of_mem {spans : List Span} {rings : Bucket → List Nat} {t : Span}
    (h' : s.heap.Arranged spans rings) (ht : t ∈ spans) : s.Roomy := by
  intro prologue hprologue
  rw [h'.prologue_eq] at hprologue
  obtain rfl := Option.some.inj hprologue
  have hbounds := h'.row.bounds ht
  simp only [minBlock, Span.stop] at hbounds
  omega

theorem Sound.roomy_init (hs : s.Sound) {answer : Option Nat}
    (hrun : Call.run .init s.heap = .ok answer s'.heap) : s'.Roomy := by
  obtain ⟨_, k, hinit, hpure⟩ := Action.bind_eq_ok_iff.1 hrun
  obtain ⟨-, rfl⟩ := EStateM.Result.ok.inj hpure
  obtain ⟨rings, k'⟩ := (Heap.founds_of_init hs.config_eq hinit).founded.arranged
  exact roomy_of_mem k' List.mem_cons_self

/-- One call leaves the room that there is. -/
theorem Sound.roomy_after (hs : s.Sound) (hroom : s.Roomy) (hallows : s.Allows call)
    (hafter : s.after call = some s') : s'.Roomy := by
  rcases after_cases hafter with ⟨answer, hrun⟩ | ⟨cause, hrun⟩
  · by_cases hrestarts : call.Restarts
    · cases call with
      | init => exact hs.roomy_init hrun
      | reset =>
        obtain ⟨-, hheap⟩ := EStateM.Result.ok.inj hrun
        exact roomy_of_blank (hheap ▸ Heap.blank_reset s.heap)
      | _ => exact hrestarts.elim
    · have hfollows := Call.readings_run hrestarts hrun
      have hkeeps : s'.heap.prologue = s.heap.prologue := hfollows.prologue_eq
      intro prologue hprologue
      exact Nat.lt_of_lt_of_le (hroom prologue (hkeeps ▸ hprologue)) hfollows.size_le
  · rcases hs.refused_cases hallows hrun with ⟨-, hblank⟩ | ⟨-, events, hg⟩
    · exact roomy_of_blank hblank
    · have huntouched := (untouched_loggedAll s.heap events).1
      rw [← hg] at huntouched
      intro prologue hprologue
      rw [huntouched.region_eq]
      exact hroom prologue (huntouched.prologue_eq ▸ hprologue)

theorem Reached.roomy (h : Reached arena config s) : s.Roomy := by
  induction h with
  | start => exact roomy_of_blank (Heap.blank_ofRegion arena config)
  | step hprev hallows hafter ih => exact hprev.sound.roomy_after ih hallows hafter

/-- Whatever the session, live pointers can be freed in any order, with the same
blocks, figures and buckets in the end. Once all of them are freed, a single free
block is left. -/
theorem Reached.freed_in_any_order {ptrs ptrs' : List Nat} (h : Reached arena config s)
    (hprologue : s.heap.prologue = some prologue) (hnodup : ptrs.Nodup)
    (hlive : ∀ ptr ∈ ptrs, ptr ∈ s.live) (hperm : ptrs.Perm ptrs') :
    ∃ g g' spans, Heap.freeAll ptrs s.heap = .ok () g ∧ Heap.freeAll ptrs' s.heap = .ok () g' ∧
      g.Alike g' prologue spans ∧
      (ptrs.Perm s.live → ∃ stats, g.stats = .ok stats ∧
        g.Drained prologue (stats.heapSize - sentinelBytes)) := by
  have hroom := h.roomy prologue hprologue
  obtain ⟨spans, rings, h', howns, rfl⟩ := h.exists_arranged hprologue
  have hheld : ∀ ptr ∈ ptrs, ∃ t ∈ held spans, t.offset = ptr := fun ptr hptr =>
    howns.exists_held (hlive ptr hptr)
  obtain ⟨g, spans₁, rings₁, hrun, g₁, hreadings, hheld₁⟩ := Heap.freeAll_of_held h' hnodup hheld
  obtain ⟨g', spans₂, rings₂, hrun', g₂, hreadings', hheld₂⟩ :=
    Heap.freeAll_of_held h' (hperm.nodup_iff.1 hnodup) fun ptr hptr =>
      hheld ptr (hperm.mem_iff.2 hptr)
  have hspans : spans₁ = spans₂ := by
    refine g₁.eq_of_held g₂ (hreadings'.trans hreadings.symm) ?_
    rw [hheld₁, hheld₂, without_perm hperm]
  subst hspans
  have hbase : g.base = s.heap.base := congrArg Readings.base hreadings
  have hsize : g.region.memory.size = s.heap.region.memory.size :=
    congrArg Readings.size hreadings
  refine ⟨g, g', spans₁, hrun, hrun', ?_, fun hall => ?_⟩
  · rw [← hbase]
    exact Heap.alike_of_arranged g₁ g₂ (hreadings'.trans hreadings.symm)
  · have hnone : held spans₁ = [] := by
      rw [hheld₁]
      refine List.eq_nil_iff_forall_not_mem.2 fun t ht => ?_
      obtain ⟨ht, hstays⟩ := mem_without.1 ht
      exact hstays (hall.mem_iff.2 (howns.mem_live ht))
    rw [← hbase]
    exact Heap.drained_of_arranged g₁ hnone (by rwa [hbase, hsize])

/-- Three blocks, freed from the last to the first, and with the middle one last. -/
theorem Reached.freed_in_any_order_of_three :
    ∃ s, Reached {} { chunkSize := 256, logLevel := none } s ∧ s.heap.prologue = some 16 ∧
      s.live = [128, 80, 32] ∧
      ∃ g g' spans, Heap.freeAll [128, 80, 32] s.heap = .ok () g ∧
        Heap.freeAll [32, 128, 80] s.heap = .ok () g' ∧ g.Alike g' 16 spans ∧
        ∃ stats, g.stats = .ok stats ∧ g.Drained 16 (stats.heapSize - sentinelBytes) := by
  have hrun : ((Session.start {} { chunkSize := 256, logLevel := none }).afterAll
      [.init, .allocate 20, .allocate 20, .allocate 20]).map
        (fun s => (s.heap.prologue, s.live)) = some (some 16, [128, 80, 32]) := by
    decide +kernel
  obtain ⟨s, hs, hstate⟩ := Option.map_eq_some_iff.1 hrun
  simp only [Prod.mk.injEq] at hstate
  obtain ⟨hprologue, hlive⟩ := hstate
  have hreached := Reached.start.afterAll hs
  have hnodup : [128, 80, 32].Nodup := by decide
  have hperm : [128, 80, 32].Perm [32, 128, 80] := by decide
  obtain ⟨g, g', spans, hg, hg', halike, hdrained⟩ :=
    Reached.freed_in_any_order hreached hprologue hnodup (fun ptr hptr => hlive ▸ hptr) hperm
  exact ⟨s, hreached, hprologue, hlive, g, g', spans, hg, hg', halike,
    hdrained (hlive ▸ List.Perm.refl _)⟩

end Session
end SegregatedFit
