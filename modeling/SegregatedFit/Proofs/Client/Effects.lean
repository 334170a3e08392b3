-- SUMMARY: What answered calls make of the whole heap: of its blocks, rings, figures and payloads.
import SegregatedFit.Proofs.Client.LiveData
import SegregatedFit.Proofs.Heap.Figures

/-!
# Effects

An answered call says where a block is; the rest of what it did is in the blocks and
the rings of the heap. An allocation carves the block that it was supplied with and
leaves the others alone (`Reached.granted`). A free merges its block with the free ones
next to it into one, which comes first in the ring of its size (`Reached.free_merges`). A
resize stays where it is, or does what an allocation and a free do one after the other,
with the payload copied in between (`Reached.resizes`).
-/
namespace SegregatedFit

open Block FreeLists

namespace Heap

/-- The payloads of the blocks are in `g` what they are in `h`. -/
def Preserves (h g : Heap Arena) (blocks : List Span) : Prop :=
  ∀ t ∈ blocks, g.payloadSize? t.offset = h.payloadSize? t.offset ∧
    g.payload t.offset = h.payload t.offset

/-- `g` is `h` after `n` bytes were allocated at `p`, out of the block between `front`
and `back`, after `growths` growths. -/
structure Grants (h g : Heap Arena) (n p : Nat) (spans : List Span) (rings : Bucket → List Nat)
    (size growths : Nat) (front : List Span) (block : Span) (back : List Span) : Prop where
  arranged : h.Arranged spans rings
  size_eq : sizeFor n = some size
  offset_eq : block.offset = p
  takes : h.Takes g spans rings size growths front block back
  /-- Of the usable bytes there are what was asked for, and one unit more at most. -/
  usable : ∃ u, g.payloadSize? p = some u ∧ n ≤ u ∧ (u = payloadSize size ∨ u = size)
  fresh : ∀ t ∈ held spans, t.offset ≠ p
  preserves : h.Preserves g (held spans)
  counted : ∃ stats stats', h.stats = .ok stats ∧ g.stats = .ok stats' ∧
    stats'.allocatedBlocks = stats.allocatedBlocks + 1 ∧
    stats'.extendCalls = stats.extendCalls + growths

/-- `g` is `h` after the block `t` was freed: with the free blocks `below` and `above`
that were next to it, it is now one free block. -/
structure Merges (h g : Heap Arena) (front below : List Span) (t : Span)
    (above back : List Span) (rings : Bucket → List Nat) : Prop where
  arranged : h.Arranged (front ++ below ++ t :: above ++ back) rings
  allocated : t.allocated = true
  below_free : below = [] ∨ ∃ f, below = [f] ∧ f.isFree = true
  above_free : above = [] ∨ ∃ f, above = [f] ∧ f.isFree = true
  /-- Beyond them are an allocated block, the prologue or the epilogue. -/
  stops : (tagBelow front).allocated = true ∧ (tagAbove back).allocated = true
  /-- The merged block comes first in its ring; the others are listed as before. -/
  merged : g.Arranged (front ++ joined (below ++ t :: above) :: back)
    (pushed (dropped rings ((below ++ above).map Span.offset))
      (.ofSize (joined (below ++ t :: above)).size) (joined (below ++ t :: above)).offset)
  /-- The merged block is the union of those that it was merged from. -/
  tiles : Tiles (joined (below ++ t :: above)).offset (below ++ t :: above)
    (joined (below ++ t :: above)).stop
  config_eq : g.config = h.config
  base_eq : g.base = h.base
  limit_eq : g.region.limit = h.region.limit
  growCalls_eq : g.region.growCalls = h.region.growCalls
  size_eq : g.region.memory.size = h.region.memory.size
  preserves : h.Preserves g (held (front ++ back))
  counted : ∃ stats stats', h.stats = .ok stats ∧ g.stats = .ok stats' ∧
    stats.allocatedBlocks = stats'.allocatedBlocks + 1 ∧
    stats'.freeBytes = stats.freeBytes + t.size

variable {h g : Heap Arena} {front back spans spans' : List Span} {t : Span} {n size growths : Nat}
variable {rings rings' : Bucket → List Nat}

/-! ## Allocating -/

theorem Exchanged.preserves {gone new : List Span} (hex : h.Exchanged g spans spans' gone new)
    (h' : h.Arranged spans rings) {blocks : List Span}
    (hblocks : ∀ u ∈ blocks, u ∈ held spans ∧ u ∉ gone) : h.Preserves g blocks := by
  intro u hu
  obtain ⟨hheld, hstays⟩ := hblocks u hu
  exact hex.payload_eq h' hheld hstays

/-- What an allocation that took a block did. -/
theorem Takes.grants (htakes : h.Takes g spans rings size growths front t back)
    (h' : h.Arranged spans rings) (hsize : sizeFor n = some size) :
    h.Grants g n t.offset spans rings size growths front t back := by
  have hex := htakes.exchanged h'
  have hnew : taken t size ∈ held (front ++ taken t size :: leftover t size ++ back) :=
    hex.perm.mem_iff.2 List.mem_cons_self
  have husable := payloadSize?_of_held htakes.arranged hnew
  have hproper : (taken t size).Proper := htakes.arranged.row.proper _ (by simp)
  refine ⟨h', hsize, rfl, htakes, ⟨_, husable, htakes.le_payloadSize hsize, ?_⟩, ?_, ?_, ?_⟩
  · have hcases := size_taken_cases (proper_of_sizeFor hsize).1 hproper.2.1 htakes.fits
    rcases hcases with heq | heq <;> rw [heq]
    · exact Or.inl rfl
    · exact Or.inr (Nat.add_sub_cancel _ _)
  · intro u hu heq
    exact hex.offset_ne htakes.arranged u hu heq.symm
  · exact hex.preserves h' fun u hu => ⟨hu, List.not_mem_nil⟩
  · refine ⟨_, _, h'.stats_eq, htakes.arranged.stats_eq, ?_, ?_⟩
    · have hlength := hex.perm.length_eq
      simpa [Nat.add_comm] using hlength
    · exact congrArg Counters.extendCalls htakes.counters_eq

/-! ## Freeing -/

theorem joined_freed (below : List Span) (t : Span) (above : List Span) :
    joined (below ++ t.freed :: above) = joined (below ++ t :: above) := by
  cases below <;> simp [joined, Span.freed]

/-- Freeing a block counts it and its bytes as free. -/
theorem Frees.counted (hfrees : h.Frees g front t back rings)
    (h' : h.Arranged (front ++ t :: back) rings) (halloc : t.allocated = true) :
    ∃ stats stats', h.stats = .ok stats ∧ g.stats = .ok stats' ∧
      stats.allocatedBlocks = stats'.allocatedBlocks + 1 ∧
      stats'.freeBytes = stats.freeBytes + t.size := by
  have hperm := (hfrees.exchanged halloc).perm
  refine ⟨_, _, h'.stats_eq, hfrees.arranged.stats_eq, ?_, ?_⟩
  · simpa [Nat.add_comm] using hperm.length_eq.symm
  · -- the bytes of all blocks are as many as before, and those of the allocated ones fewer
    have hsum : t.size + bytes (held (merged front t.freed back)) =
        bytes (held (front ++ t :: back)) := by
      simpa [bytes] using (hperm.map Span.size).sum_nat
    have hall := h'.memory_size_eq
    have hall' := hfrees.arranged.memory_size_eq
    have hsplit := bytes_eq_add (front ++ t :: back)
    have hsplit' := bytes_eq_add (merged front t.freed back)
    rw [hfrees.size_eq, hfrees.base_eq] at hall'
    dsimp only
    omega

/-- What freeing a block between two others did. -/
theorem Frees.merges (hfrees : h.Frees g front t back rings)
    (h' : h.Arranged (front ++ t :: back) rings) (halloc : t.allocated = true) :
    h.Merges g (front.rdropWhile Span.isFree) (freeBelow front) t (freeAbove back)
      (back.dropWhile Span.isFree) rings := by
  obtain ⟨hfront, hback, -⟩ := separated_middle.1 h'.consistent.separated
  have hrow := middle_eq_neighbours front t back
  have hheld : ∀ u ∈ held (front.rdropWhile Span.isFree ++ back.dropWhile Span.isFree),
      u ∈ held (front ++ t :: back) ∧ u ∉ [t] := by
    intro u hu
    obtain ⟨hmem, hu⟩ := mem_held.1 hu
    have hmem' : u ∈ front ++ back := by
      rcases List.mem_append.1 hmem with hmem | hmem
      · exact List.mem_append_left _ (List.rdropWhile_prefix _ _ |>.subset hmem)
      · exact List.mem_append_right _ (List.dropWhile_suffix _ |>.subset hmem)
    have hnodup := List.nodup_middle.1 h'.row.nodup
    refine ⟨mem_held.2 ⟨List.perm_middle.mem_iff.2 (List.mem_cons_of_mem t hmem'), hu⟩, ?_⟩
    intro heq
    exact (List.nodup_cons.1 hnodup).1 (List.mem_singleton.1 heq ▸ hmem')
  have hmerged := hfrees.arranged
  simp only [merged, relisted, unlisted, freeRun, joined_freed] at hmerged
  exact {
    arranged := hrow ▸ h'
    allocated := halloc
    below_free := by
      rcases freeBelow_cases hfront with hbelow | ⟨_, f, -, hfree, hbelow, -⟩
      · exact Or.inl (freeBelow_of_allocated hbelow).1
      · exact Or.inr ⟨f, hbelow, hfree⟩
    above_free := by
      rcases freeAbove_cases hback with habove | ⟨f, _, -, hfree, habove, -⟩
      · exact Or.inl (freeAbove_of_allocated habove).1
      · exact Or.inr ⟨f, habove, hfree⟩
    stops := ⟨hfront.below_stops.2, hback.above_stops.2⟩
    merged := hmerged
    tiles := by
      have htiles := h'.row.tiles
      rw [hrow, List.append_assoc, List.append_assoc,
        ← List.append_assoc (freeBelow front)] at htiles
      obtain ⟨start, -, hrest⟩ := tiles_append.1 htiles
      obtain ⟨stop, hrun, -⟩ := tiles_append.1 hrest
      obtain ⟨hstart, hstop⟩ := tiles_joined hrun (by simp)
      exact hstart ▸ hstop ▸ hrun
    config_eq := hfrees.config_eq
    base_eq := hfrees.base_eq
    limit_eq := hfrees.limit_eq
    growCalls_eq := hfrees.growCalls_eq
    size_eq := hfrees.size_eq
    preserves := (hfrees.exchanged halloc).preserves h' hheld
    counted := hfrees.counted h' halloc }

/-! ## Resizing -/

/-- A heap that is laid out like another one, and counts one more move. -/
theorem LaidAlike.stats_eq {f : Heap Arena} (halike : f.LaidAlike g)
    (hcounters : g.counters = { f.counters with resizeMoves := f.counters.resizeMoves + 1 }) :
    ∃ stats, f.stats = .ok stats ∧
      g.stats = .ok { stats with resizeMoves := stats.resizeMoves + 1 } := by
  obtain ⟨spans, rings, f', g'⟩ := halike.arranged
  refine ⟨_, f'.stats_eq, ?_⟩
  rw [g'.stats_eq, hcounters]

end Heap

namespace Session

/-- `g` is the heap after the `u` bytes at `p` were moved to `q`, as `n` bytes were asked for. -/
structure Moved (s : Session) (p u n q : Nat) (g : Heap Arena) : Prop where
  ne : q ≠ p
  fresh : q ∉ s.live
  usable : ∃ w, g.payloadSize? q = some w ∧ n * s.heap.config.resizeFactor ≤ w ∧
    u < n * s.heap.config.resizeFactor
  /-- All that was behind `p` is at the front of what is behind `q`. -/
  payload : ∃ old new, s.heap.payload p = .ok old ∧ g.payload q = .ok new ∧ new.take u = old
  /-- The allocated blocks are those of `q` and of the live pointers other than `p`. -/
  blocks : ∃ spans rings, g.Arranged spans rings ∧
    (q :: s.live.erase p).Perm ((held spans).map Span.offset) ∧ p ∉ q :: s.live.erase p
  others : ∀ r ∈ s.live, r ≠ p →
    g.payloadSize? r = s.heap.payloadSize? r ∧ g.payload r = s.heap.payload r
  counted : g.counters.resizeMoves = s.heap.counters.resizeMoves + 1
  /-- Blocks, rings and all other figures are as after an allocation and a free. -/
  separately : ∃ k f, Heap.allocate (n * s.heap.config.resizeFactor) s.heap = .ok q k ∧
    Heap.free p k = .ok () f ∧ f.LaidAlike g ∧
    ∃ stats, f.stats = .ok stats ∧
      g.stats = .ok { stats with resizeMoves := stats.resizeMoves + 1 }

/-- What answered resizes make of the heap. -/
structure Resizes (s : Session) : Prop where
  /-- A resize of the `u` bytes at `p` counts it or moves them. -/
  resized : ∀ p ∈ s.live, ∃ u, s.heap.payloadSize? p = some u ∧ ∀ n q g, 0 < n →
    Heap.resize p n s.heap = .ok (some q) g →
      (n ≤ u → q = p ∧ ∃ log, g = { s.heap with
        counters := { s.heap.counters with
          resizeInPlace := s.heap.counters.resizeInPlace + 1 }
        log }) ∧
      (u < n → s.Moved p u n q g)
  freed : ∀ p ∈ s.live, ∃ f, Heap.free p s.heap = .ok () f ∧
    Heap.resize p 0 s.heap = .ok none (f.logged (.resizedToNothing p))
  allocated : ∀ n, Heap.resize nullPtr n s.heap =
    match Heap.allocate n s.heap with
    | .ok p g => .ok (some p) g
    | .error failure g => .error failure g

variable {arena : Arena} {config : Config} {s : Session} {g : Heap Arena} {n p q : Nat}
variable {spans spans' : List Span} {rings : Bucket → List Nat}

/-! ## Allocating and freeing -/

/-- An answered allocation took a block of the session's heap. -/
theorem Sound.takes_of_allocated (hs : s.Sound) (hrun : Heap.allocate n s.heap = .ok p g) :
    ∃ spans rings size growths front block back, s.heap.Arranged spans rings ∧ s.Owns spans ∧
      sizeFor n = some size ∧ block.offset = p ∧
      s.heap.Takes g spans rings size growths front block back := by
  rcases hs.state with ⟨hblank, -⟩ | ⟨spans, rings, h', howns⟩
  · rw [Heap.allocate_uninitialized hblank.prologue_eq] at hrun
    cases hrun
  · rcases Heap.allocate_outcome h' hs.config_eq n with
      ⟨cause, events, hrun', -⟩ | ⟨trap, g', hrun', -⟩ |
      ⟨g', size, growths, front, block, back, hrun', -, hsize, htakes⟩
    all_goals
      rw [hrun'] at hrun
      cases hrun
    exact ⟨spans, rings, size, growths, front, block, back, h', howns, hsize, rfl, htakes⟩

/-- In every session, an answered allocation carves the block that the search finds, or
else the last block after one growth, and leaves all other blocks as they were. -/
theorem Reached.granted (h : Reached arena config s) (hrun : Heap.allocate n s.heap = .ok p g) :
    ∃ spans rings size growths front block back, s.Owns spans ∧
      s.heap.Grants g n p spans rings size growths front block back := by
  obtain ⟨spans, rings, size, growths, front, block, back, h', howns, hsize, rfl, htakes⟩ :=
    h.sound.takes_of_allocated hrun
  exact ⟨spans, rings, size, growths, front, block, back, howns, htakes.grants h' hsize⟩

/-- A second block is carved out of a new chunk. -/
theorem Reached.granted_of_grown :
    ∃ s g, Reached {} { chunkSize := 64, logLevel := none } s ∧ s.live = [32] ∧
      Heap.allocate 40 s.heap = .ok 96 g ∧
      ∃ spans rings size growths front block back, s.Owns spans ∧
        s.heap.Grants g 40 96 spans rings size growths front block back := by
  have hrun : ((Session.start {} { chunkSize := 64, logLevel := none }).afterAll
      [.init, .allocate 20]).map (fun s =>
        (s.live, match Heap.allocate 40 s.heap with
          | .ok p _ => some p
          | _ => none)) = some ([32], some 96) := by
    decide +kernel
  obtain ⟨s, hs, hstate⟩ := Option.map_eq_some_iff.1 hrun
  obtain ⟨hlive, hanswer⟩ := Prod.mk.injEq .. ▸ hstate
  have hreached := Reached.start.afterAll hs
  split at hanswer
  case h_1 p g hallocate =>
    obtain rfl := Option.some.inj hanswer
    exact ⟨s, g, hreached, hlive, hallocate, Reached.granted hreached hallocate⟩
  case h_2 => cases hanswer

/-- In every session, a live pointer can be freed, which merges its block with the free
blocks next to it and leaves all other blocks as they were. -/
theorem Reached.free_merges (h : Reached arena config s) (hp : p ∈ s.live) :
    ∃ g front below t above back rings, Heap.free p s.heap = .ok () g ∧
      s.Owns (front ++ below ++ t :: above ++ back) ∧ t.offset = p ∧
      s.heap.Merges g front below t above back rings := by
  obtain ⟨spans, rings, t, h', howns, ht, rfl⟩ := h.sound.exists_held hp
  obtain ⟨hmem, halloc⟩ := mem_held.1 ht
  obtain ⟨front, back, rfl⟩ := List.append_of_mem hmem
  obtain ⟨g, hrun, hfrees⟩ := Heap.free_middle h' halloc
  exact ⟨g, _, _, t, _, _, rings, hrun, middle_eq_neighbours front t back ▸ howns, rfl,
    hfrees.merges h' halloc⟩

/-- A block with a free one on either side. -/
theorem Reached.free_merges_of_both_sides :
    ∃ s, Reached {} { chunkSize := 128, logLevel := none } s ∧ s.live = [64] ∧
      ∃ g front below t above back rings, Heap.free 64 s.heap = .ok () g ∧
        s.Owns (front ++ below ++ t :: above ++ back) ∧ t.offset = 64 ∧
        s.heap.Merges g front below t above back rings := by
  have hrun : ((Session.start {} { chunkSize := 128, logLevel := none }).afterAll
      [.init, .allocate 10, .allocate 20, .free 32]).map Session.live = some [64] := by
    decide +kernel
  obtain ⟨s, hs, hlive⟩ := Option.map_eq_some_iff.1 hrun
  have hreached := Reached.start.afterAll hs
  exact ⟨s, hreached, hlive, Reached.free_merges hreached (hlive ▸ List.mem_cons_self)⟩

/-! ## Resizing -/

/-- What a move of a live block did. -/
theorem Sound.moved (hs : s.Sound) (h' : s.heap.Arranged spans rings) (howns : s.Owns spans)
    {u t : Span} (hu : u ∈ held spans) (hgrows : payloadSize u.size < n)
    (hmoves : s.heap.Moves g spans spans' u t (n * s.heap.config.resizeFactor)) :
    s.Moved u.offset (payloadSize u.size) n t.offset g := by
  obtain ⟨rings', g'⟩ := hmoves.exchanged.arranged
  have hne := hmoves.new u hu
  have ht : t ∈ held spans' := by
    have hmem := hmoves.exchanged.perm.mem_iff.2 List.mem_cons_self
    refine (List.mem_cons.1 hmem).resolve_left fun heq => hne (congrArg Span.offset heq)
  have hle : n ≤ n * s.heap.config.resizeFactor := by
    have hpos := hs.config_eq ▸ s.heap.config.resizeFactor_normalized_pos
    exact Nat.le_mul_of_pos_right n hpos
  have hfits : payloadSize u.size ≤ payloadSize t.size :=
    Nat.le_trans (Nat.le_of_lt (Nat.lt_of_lt_of_le hgrows hle)) hmoves.fits
  obtain ⟨k, f, hallocate, hfree, halike, hcounters⟩ := hmoves.separately
  exact {
    ne := hne
    fresh := fun hlive => by
      obtain ⟨v, hv, hoff⟩ := howns.exists_held hlive
      exact hmoves.new v hv hoff.symm
    usable := ⟨_, Heap.payloadSize?_of_held g' ht, hmoves.fits, Nat.lt_of_lt_of_le hgrows hle⟩
    payload := ⟨_, _, Heap.payload_of_held h' hu, Heap.payload_of_held g' ht, by
      rw [Memory.take_slice hfits, hmoves.copied]⟩
    blocks := by
      refine ⟨spans', rings', g', perm_of_moved hmoves.exchanged howns hne, ?_⟩
      have hgone := hs.payloadsApart.nodup.not_mem_erase (a := u.offset)
      exact List.not_mem_cons_of_ne_of_not_mem hne.symm hgone
    others := fun r hr hother => by
      obtain ⟨v, hv, rfl⟩ := howns.exists_held hr
      refine hmoves.exchanged.payload_eq h' hv fun hmem => hother ?_
      rw [List.mem_singleton.1 hmem]
    counted := hmoves.counted
    separately := ⟨k, f, hallocate, hfree, halike, halike.stats_eq hcounters⟩ }

/-- An answered resize of a live block to something. -/
theorem Sound.resized (hs : s.Sound) (h' : s.heap.Arranged spans rings) (howns : s.Owns spans)
    {u : Span} (hu : u ∈ held spans) (hn : 0 < n)
    (hrun : Heap.resize u.offset n s.heap = .ok (some q) g) :
    (n ≤ payloadSize u.size → q = u.offset ∧ ∃ log, g = { s.heap with
      counters := { s.heap.counters with resizeInPlace := s.heap.counters.resizeInPlace + 1 }
      log }) ∧
    (payloadSize u.size < n → s.Moved u.offset (payloadSize u.size) n q g) := by
  constructor
  · intro hfits
    rcases Heap.resize_in_place h' hu (Nat.ne_zero_of_lt hn) hfits with
      ⟨trap, hrun', -⟩ | ⟨size, hrun', -⟩
    all_goals
      rw [hrun'] at hrun
      cases hrun
    exact ⟨rfl, _, rfl⟩
  · intro hgrows
    rcases Heap.resize_outcome h' hs.config_eq hu hgrows with
      ⟨cause, events, hrun', -⟩ | ⟨-, -, -, ⟨trap, g', hrun', -⟩ | ⟨g', spans', t, hrun', hmoves⟩⟩
    all_goals
      rw [hrun'] at hrun
      cases hrun
    exact hs.moved h' howns hu hgrows hmoves

/-- In every session, an answered resize that the block covers is counted and no more.
One that the block does not cover moves it, and comes to the same as an allocation and a
free, with the payload copied. A resize to nothing frees, and one of null allocates. -/
theorem Reached.resizes (h : Reached arena config s) : s.Resizes where
  resized p hp := by
    obtain ⟨spans, rings, u, h', howns, hu, rfl⟩ := h.sound.exists_held hp
    exact ⟨_, Heap.payloadSize?_of_held h' hu, fun n q g hn hrun =>
      h.sound.resized h' howns hu hn hrun⟩
  freed p hp := by
    obtain ⟨spans, rings, u, h', -, hu, rfl⟩ := h.sound.exists_held hp
    obtain ⟨f, spans', hfree, hrun, -⟩ := Heap.resize_zero_of_held h' hu
    exact ⟨f, hfree, hrun⟩
  allocated n := Heap.resize_null n s.heap

/-- A block that grows out of its place. -/
theorem Reached.resizes_of_moved :
    ∃ s g u, Reached {} { chunkSize := 64, logLevel := none } s ∧ s.Resizes ∧
      s.live = [32] ∧ Heap.resize 32 100 s.heap = .ok (some 96) g ∧
      s.heap.payloadSize? 32 = some u ∧ s.Moved 32 u 100 96 g := by
  have hrun : ((Session.start {} { chunkSize := 64, logLevel := none }).afterAll
      [.init, .allocate 20]).map (fun s =>
        (s.live, s.heap.payloadSize? 32, s.reply (.resize 32 100))) =
          some ([32], some 48, .answered (some 96)) := by
    decide +kernel
  obtain ⟨s, hs, hstate⟩ := Option.map_eq_some_iff.1 hrun
  have hreached := Reached.start.afterAll hs
  have hlive : s.live = [32] := congrArg Prod.fst hstate
  have husable : s.heap.payloadSize? 32 = some 48 := congrArg (fun state => state.2.1) hstate
  have hanswer : s.reply (.resize 32 100) = .answered (some 96) :=
    congrArg (fun state => state.2.2) hstate
  have hresizes := Reached.resizes hreached
  obtain ⟨u, hu, hresized⟩ := hresizes.resized 32 (hlive ▸ List.mem_cons_self)
  dsimp only [reply] at hanswer
  split at hanswer
  case h_1 answer g hresize =>
    obtain rfl := Reply.answered.inj hanswer
    obtain rfl := Option.some.inj (hu.symm.trans husable)
    have hmoved := (hresized 100 96 g (by decide) hresize).2 (by decide)
    exact ⟨s, g, 48, hreached, hresizes, hlive, hresize, husable, hmoved⟩
  case h_2 => cases hanswer
  case h_3 => cases hanswer

end Session
end SegregatedFit
