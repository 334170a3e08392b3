-- SUMMARY: Searches of a client's heap: what they find under either policy, and when they find nothing.
import SegregatedFit.Proofs.Client.Invariant
import SegregatedFit.Proofs.FreeLists.Selection

/-!
# Searches

Behind an allocation stands a search for a free block (`Heap.find?`). In every
session it ends without an error, whatever size a request comes to. Main statement:
`Reached.searches`, which says for each policy what is found, and exactly when
nothing is.
-/
namespace SegregatedFit

open Block FreeLists

/-- What a search for `size` bytes answers, in a heap with these blocks and rings. -/
structure Heap.Searches (h : Heap Arena) (spans : List Span) (rings : Bucket → List Nat)
    (size : Nat) : Prop where
  /-- A heap searches under the policy that it was set up with. -/
  configured : h.find? size = h.lists.find? h.memory size h.config.search
  /-- The search ends, and what it finds is a free block that is large enough. -/
  ends : ∀ policy, ∃ found, h.lists.find? h.memory size policy = .ok found ∧
    ∀ bp ∈ found, ∃ t ∈ spans, t.offset = bp ∧ t.isFree = true ∧ size ≤ t.size
  canonical_none : h.lists.find? h.memory size .canonical = .ok none ↔
    ∀ t ∈ spans, t.isFree = true → t.size < size
  canonical_some : ∀ bp, h.lists.find? h.memory size .canonical = .ok (some bp) ↔
    ∃ t, t.offset = bp ∧ FirstFit spans rings size t
  /-- Above the bucket of the request every block fits. -/
  above_fits : ∀ b, Bucket.ofSize size < b → ∀ bp ∈ rings b,
    ∃ t ∈ spans, t.offset = bp ∧ t.isFree = true ∧ size ≤ t.size
  skip_none : Bucket.ofSize size ≠ .last →
    (h.lists.find? h.memory size .skipCanonical = .ok none ↔
      ∀ b, Bucket.ofSize size < b → rings b = [])
  skip_some : Bucket.ofSize size ≠ .last → ∀ bp,
    (h.lists.find? h.memory size .skipCanonical = .ok (some bp) ↔
      HeadAbove rings (.ofSize size) bp)
  skip_last : Bucket.ofSize size = .last →
    h.lists.find? h.memory size .skipCanonical = h.lists.find? h.memory size .canonical

/-- Searches in an arranged heap. -/
theorem Heap.Arranged.searchesFor {h : Heap Arena} {spans : List Span} {rings : Bucket → List Nat}
    (h' : h.Arranged spans rings) (size : Nat) : h.Searches spans rings size where
  configured := rfl
  ends policy := by
    have hfind := h'.indexed.find?_eq h'.row (fun _ ht => ht) size policy
    exact ⟨_, hfind, fun bp hbp =>
      h'.indexed.exists_of_find? h'.row (fun _ ht => ht) (hfind.trans (congrArg _ hbp))⟩
  canonical_none := h'.indexed.canonical_eq_none_iff h'.row
  canonical_some _ := h'.indexed.canonical_eq_some_iff h'.row
  above_fits b hb bp hbp := by
    obtain ⟨t, ht, hoff, hfree, rfl⟩ := (h'.indexed.mem_iff b bp).1 hbp
    exact ⟨t, ht, hoff, hfree, Bucket.le_of_ofSize_lt hb⟩
  skip_none hlast := h'.indexed.skip_eq_none_iff h'.row hlast
  skip_some hlast _ := h'.indexed.skip_eq_some_iff h'.row hlast
  skip_last hlast := find?_skip_of_last h.lists h.memory hlast

namespace Session

variable {arena : Arena} {config : Config} {s : Session} {prologue : Nat}

/-- In every session that can be reached, a search for the block size of any request
ends and finds what its policy says: the first fit of the lowest bucket that has one,
or the first head above the bucket of the request. -/
theorem Reached.searches (h : Reached arena config s)
    (hprologue : s.heap.prologue = some prologue) :
    ∃ spans rings, Consistent s.heap.lists s.heap.memory prologue spans rings ∧
      s.live.Perm ((held spans).map Span.offset) ∧
      ∀ n size, sizeFor n = some size → s.heap.Searches spans rings size := by
  obtain ⟨spans, rings, h', howns, rfl⟩ := h.exists_arranged hprologue
  exact ⟨spans, rings, h'.consistent, howns, fun _ size _ => h'.searchesFor size⟩

/-- Two free blocks of different buckets: a request for 40 bytes fits into the smaller
one, which the heap's policy skips. -/
theorem Reached.searches_of_freed :
    ∃ s, Reached {} { chunkSize := 512, logLevel := none } s ∧ s.heap.prologue = some 16 ∧
      s.live = [96] ∧ sizeFor 40 = some 64 ∧
      s.heap.lists.find? s.heap.memory 64 .canonical = .ok (some 32) ∧
      s.heap.lists.find? s.heap.memory 64 .skipCanonical = .ok (some 160) ∧
      ∃ spans rings, Consistent s.heap.lists s.heap.memory 16 spans rings ∧
        s.live.Perm ((held spans).map Span.offset) ∧ s.heap.Searches spans rings 64 := by
  have hrun : ((Session.start {} { chunkSize := 512, logLevel := none }).afterAll
      [.init, .allocate 40, .allocate 40, .free 32]).map (fun s =>
        (s.heap.prologue, s.live,
          decide (s.heap.lists.find? s.heap.memory 64 .canonical = .ok (some 32)),
          decide (s.heap.lists.find? s.heap.memory 64 .skipCanonical = .ok (some 160)))) =
      some (some 16, [96], true, true) := by
    decide +kernel
  obtain ⟨s, hs, hstate⟩ := Option.map_eq_some_iff.1 hrun
  simp only [Prod.mk.injEq, decide_eq_true_eq] at hstate
  obtain ⟨hprologue, hlive, hcanonical, hskip⟩ := hstate
  have hreached := Reached.start.afterAll hs
  have hsize : sizeFor 40 = some 64 := by decide
  obtain ⟨spans, rings, hconsistent, howns, hsearches⟩ := Reached.searches hreached hprologue
  exact ⟨s, hreached, hprologue, hlive, hsize, hcanonical, hskip, spans, rings, hconsistent, howns,
    hsearches 40 64 hsize⟩

end Session
end SegregatedFit
