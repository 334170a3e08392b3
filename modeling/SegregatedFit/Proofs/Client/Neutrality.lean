-- SUMMARY: An allocation followed by a free leaves the layout of the heap as it was, up to a growth.
import SegregatedFit.Proofs.Client.Effects
import SegregatedFit.Proofs.Heap.Undoing

/-!
# Allocating and freeing

A pair of an allocation and a free of its pointer does nothing to the layout: the
same blocks, the same figures, and the same blocks in each ring (`Regains`). Where the
allocation had to grow the arena, the bytes of the chunk stay behind as a free block at
the end, or as the end of the last block if that was free (`Lengthens`). Main statement:
`Reached.freed_after_allocated`.
-/
namespace SegregatedFit

open Block FreeLists

namespace Heap

/-- What a pair of an allocation and a free leaves of `h`, when the arena grew `growths`
times by `chunk` bytes. -/
structure Returns (h k : Heap Arena) (spans : List Span) (chunk growths : Nat) : Prop where
  config_eq : k.config = h.config
  base_eq : k.base = h.base
  limit_eq : k.region.limit = h.region.limit
  growCalls_eq : k.region.growCalls = h.region.growCalls + growths
  size_eq : k.region.memory.size = h.region.memory.size + growths * chunk
  counters_eq : k.counters = { h.counters with extendCalls := h.counters.extendCalls + growths }
  preserves : h.Preserves k (held spans)

/-- `k` has the blocks of `h`, and in each ring the same ones as `h`. -/
structure Regains (h k : Heap Arena) (spans : List Span) (rings : Bucket → List Nat)
    (chunk : Nat) : Prop extends h.Returns k spans chunk 0 where
  arranged : ∃ rings', k.Arranged spans rings' ∧ ∀ b, (rings' b).Perm (rings b)
  stats_eq : k.stats = h.stats
  audit_eq : k.audit = h.audit

/-- The row of `front` and `last` is `spans` with `chunk` free bytes at the end, where
the row stopped at `stop`, and has `new` blocks more. -/
inductive Appended (spans : List Span) (stop chunk : Nat) :
    (front : List Span) → (last : Span) → (new : Nat) → Prop
  /-- The last block was free, and is now larger. -/
  | onto {front : List Span} {last : Span} : spans = front ++ [last] → last.isFree = true →
      Appended spans stop chunk front ⟨last.offset, last.size + chunk, false⟩ 0
  /-- The last block, if there was one, is allocated. -/
  | behind : (tagBelow spans).allocated = true →
      Appended spans stop chunk spans ⟨stop, chunk, false⟩ 1

/-- `k` has the blocks of `h` and `chunk` free bytes more at the end. The block that
they are in comes first in the ring of its size; the others are listed as before. -/
structure Lengthens (h k : Heap Arena) (spans : List Span) (rings : Bucket → List Nat)
    (chunk : Nat) : Prop extends h.Returns k spans chunk 1 where
  appended : ∃ front last new, Appended spans h.region.memory.size chunk front last new ∧
    k.Arranged (front ++ [last])
      (pushed (dropped rings [last.offset]) (.ofSize last.size) last.offset) ∧
    ∃ stats, h.stats = .ok stats ∧ k.stats = .ok { stats with
      heapSize := stats.heapSize + chunk
      freeBytes := stats.freeBytes + chunk
      freeBlocks := stats.freeBlocks + new
      extendCalls := stats.extendCalls + 1 }

variable {h g k : Heap Arena} {front back spans : List Span} {s last : Span}
variable {n p size chunk stop growths new : Nat} {rings rings' : Bucket → List Nat}

theorem Preserves.trans {blocks : List Span} (hg : h.Preserves g blocks)
    (hk : g.Preserves k blocks) : h.Preserves k blocks := by
  intro t ht
  obtain ⟨hsize, hpayload⟩ := hg t ht
  obtain ⟨hsize', hpayload'⟩ := hk t ht
  exact ⟨hsize'.trans hsize, hpayload'.trans hpayload⟩

/-! ## Without growth -/

/-- Blocks and counters decide the figures. -/
theorem Arranged.stats_congr (h' : h.Arranged spans rings) (k' : k.Arranged spans rings')
    (hcounters : k.counters = h.counters) : k.stats = h.stats := by
  rw [k'.stats_eq, h'.stats_eq, hcounters]

/-- The blocks decide what an audit finds. -/
theorem Arranged.audit_congr (h' : h.Arranged spans rings) (k' : k.Arranged spans rings')
    (hsize : k.region.memory.size = h.region.memory.size) : k.audit = h.audit := by
  rw [k'.audit_eq, h'.audit_eq, hsize]

theorem Returns.regains (hreturns : h.Returns k spans chunk 0) (h' : h.Arranged spans rings)
    (k' : k.Arranged spans rings') : h.Regains k spans rings chunk where
  toReturns := hreturns
  arranged := ⟨rings', k', fun b => k'.indexed.perm_rings h'.indexed b⟩
  stats_eq := h'.stats_congr k' (by simp [hreturns.counters_eq])
  audit_eq := h'.audit_congr k' (by simp [hreturns.size_eq])

/-! ## With growth -/

/-- The appended bytes are free, and nothing else changes in the figures of the blocks. -/
theorem Appended.figures (happended : Appended spans stop chunk front last new) :
    held (front ++ [last]) = held spans ∧ bytes (front ++ [last]) = bytes spans + chunk ∧
      bytes (unheld (front ++ [last])) = bytes (unheld spans) + chunk ∧
      (unheld (front ++ [last])).length = (unheld spans).length + new := by
  cases happended with
  | onto hsplit hfree =>
    have halloc := Span.isFree_iff.1 hfree
    subst hsplit
    simp [held, unheld, bytes, Span.isFree, halloc, Nat.add_assoc]
  | behind => simp [held, unheld, bytes, Span.isFree]

theorem Returns.lengthens (hreturns : h.Returns k spans chunk 1) (h' : h.Arranged spans rings)
    (happended : Appended spans h.region.memory.size chunk front last new)
    (k' : k.Arranged (front ++ [last])
      (pushed (dropped rings [last.offset]) (.ofSize last.size) last.offset)) :
    h.Lengthens k spans rings chunk where
  toReturns := hreturns
  appended := by
    obtain ⟨hheld, hbytes, hfreeBytes, hfreeBlocks⟩ := happended.figures
    refine ⟨front, last, new, happended, k', _, h'.stats_eq, ?_⟩
    rw [k'.stats_eq, hheld, hbytes, hfreeBytes, hfreeBlocks, hreturns.counters_eq, Nat.add_assoc]

/-! ## Both -/

/-- The arena grows once or not at all for an allocation, and by at least a block. -/
theorem Takes.returns (htakes : h.Takes g spans rings size growths front s back)
    (h' : h.Arranged spans rings) :
    ∃ k, free s.offset g = .ok () k ∧ h.Returns k spans (h.chunkFor size) growths ∧
      k.Arranged (front ++ s :: back)
        (pushed (dropped rings [s.offset]) (.ofSize s.size) s.offset) := by
  obtain ⟨k, hrun, hfrees, k'⟩ := htakes.undone h'
  have hex := htakes.exchanged h'
  have hrow : front ++ taken s size :: leftover s size ++ back =
      front ++ taken s size :: (leftover s size ++ back) := by
    simp
  have hexFree := hrow ▸ hfrees.exchanged rfl
  refine ⟨k, hrun, ?_, k'⟩
  exact {
    config_eq := hfrees.config_eq.trans htakes.config_eq
    base_eq := hfrees.base_eq.trans htakes.base_eq
    limit_eq := hfrees.limit_eq.trans htakes.limit_eq
    growCalls_eq := hfrees.growCalls_eq.trans htakes.growCalls_eq
    size_eq := hfrees.size_eq.trans htakes.size_eq
    counters_eq := htakes.counters_undone hfrees
    preserves := by
      refine (hex.preserves h' fun u hu => ⟨hu, List.not_mem_nil⟩).trans
        (hexFree.preserves htakes.arranged fun u hu => ⟨?_, ?_⟩)
      · exact hex.perm.mem_iff.2 (List.mem_cons_of_mem _ hu)
      · intro hgone
        exact hex.offset_ne htakes.arranged u hu (List.mem_singleton.1 hgone ▸ rfl) }

/-- Freeing what was allocated leaves the layout as it was, or with a chunk more. -/
theorem Takes.regains_or_lengthens (htakes : h.Takes g spans rings size growths front s back)
    (h' : h.Arranged spans rings) (hsize : sizeFor n = some size) :
    ∃ k, free s.offset g = .ok () k ∧
      (g.region.memory.size = h.region.memory.size →
        h.Regains k spans rings (h.chunkFor size)) ∧
      (h.region.memory.size < g.region.memory.size →
        h.Lengthens k spans rings (h.chunkFor size)) := by
  obtain ⟨k, hrun, hreturns, k'⟩ := htakes.returns h'
  have hgrown := htakes.size_eq
  have hchunk : 0 < h.chunkFor size :=
    Nat.lt_of_lt_of_le (Nat.lt_of_lt_of_le (by decide) (proper_of_sizeFor hsize).2.1)
      (Nat.le_max_left _ _)
  refine ⟨k, hrun, ?_, ?_⟩
  · intro hsame
    cases htakes.supplies with
    | found _ hsplit => exact hreturns.regains h' (hsplit ▸ k')
    | lengthened => omega
    | added => omega
  · intro hlarger
    cases htakes.supplies with
    | found => omega
    | lengthened _ hsplit hfree => exact hreturns.lengthens h' (.onto hsplit hfree) k'
    | added _ hbelow => exact hreturns.lengthens h' (.behind hbelow) k'

end Heap

namespace Session

variable {arena : Arena} {config : Config} {s : Session} {g : Heap Arena} {n p : Nat}

/-- In every session, a pointer that was allocated can be freed at once. If the arena did
not grow, the blocks, the figures and the members of the rings are then those from before
the allocation. If it did, they are those with the bytes of the chunk at the end, free. -/
theorem Reached.freed_after_allocated (h : Reached arena config s)
    (hrun : Heap.allocate n s.heap = .ok p g) :
    ∃ k size spans rings, Heap.free p g = .ok () k ∧ sizeFor n = some size ∧
      s.heap.Arranged spans rings ∧ s.Owns spans ∧
      (g.region.memory.size = s.heap.region.memory.size →
        s.heap.Regains k spans rings (max size s.heap.config.chunkSize)) ∧
      (s.heap.region.memory.size < g.region.memory.size →
        s.heap.Lengthens k spans rings (max size s.heap.config.chunkSize)) := by
  obtain ⟨spans, rings, size, growths, front, block, back, h', howns, hsize, rfl, htakes⟩ :=
    h.sound.takes_of_allocated hrun
  obtain ⟨k, hfree, hsame, hlarger⟩ := htakes.regains_or_lengthens h' hsize
  exact ⟨k, size, spans, rings, hfree, hsize, h', howns, hsame, hlarger⟩

/-- A chunk is grown for the block, and stays behind the free block that was the last. -/
theorem Reached.freed_after_allocated_of_grown :
    ∃ s g, Reached {} { chunkSize := 64, logLevel := none } s ∧
      Heap.allocate 40 s.heap = .ok 96 g ∧
      ∃ k size spans rings, Heap.free 96 g = .ok () k ∧ sizeFor 40 = some size ∧
        s.heap.Arranged spans rings ∧ s.Owns spans ∧
        s.heap.Lengthens k spans rings (max size s.heap.config.chunkSize) := by
  have hrun : ((Session.start {} { chunkSize := 64, logLevel := none }).afterAll
      [.init, .allocate 20]).map (fun s =>
        match Heap.allocate 40 s.heap with
        | .ok p g => some (p, decide (s.heap.region.memory.size < g.region.memory.size))
        | _ => none) = some (some (96, true)) := by
    decide +kernel
  obtain ⟨s, hs, hanswer⟩ := Option.map_eq_some_iff.1 hrun
  have hreached := Reached.start.afterAll hs
  split at hanswer
  case h_1 p g hallocate =>
    obtain ⟨rfl, hlarger⟩ := Prod.mk.injEq .. ▸ Option.some.inj hanswer
    obtain ⟨k, size, spans, rings, hfree, hsize, h', howns, -, hlengthens⟩ :=
      Reached.freed_after_allocated hreached hallocate
    exact ⟨s, g, hreached, hallocate, k, size, spans, rings, hfree, hsize, h', howns,
      hlengthens (of_decide_eq_true hlarger)⟩
  case h_2 => cases hanswer

end Session
end SegregatedFit
