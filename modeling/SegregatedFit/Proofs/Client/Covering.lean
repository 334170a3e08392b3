-- SUMMARY: A block size for a request is adjoint to the payload size, in every session too.
import SegregatedFit.Proofs.Client.Invariant
import SegregatedFit.Proofs.Heap.Payloads
import SegregatedFit.Proofs.Heap.Resizing

/-!
# Covering

The sizes that a block may have are the multiples of a pair from `minBlock` up to the
word limit. Among these, `sizeFor n` is the least whose payload holds `n` bytes, and a
resize leaves a live block where it is exactly if `n` bytes fit into its payload. Main
statement: `sizeFor_adjoint_payloadSize`.
-/
namespace SegregatedFit.Session

open Block

variable {arena : Arena} {config : Config} {s : Session} {p : Nat}

/-- A live block covers a request exactly if its payload holds it, and a resize tests
just that. -/
theorem Reached.exists_covers_iff (h : Reached arena config s) (hp : p ∈ s.live) :
    ∃ tag u, s.heap.blockAt p = .ok tag ∧ s.heap.payloadSize? p = some u ∧
      ∀ n, ((∃ size, sizeFor n = some size ∧ size ≤ tag.size) ↔ n ≤ u) ∧
        (n ≠ 0 → s.heap.counters.resizeInPlace + 1 < wordCount →
          ((∃ g, Heap.resize p n s.heap = .ok (some p) g) ↔ n ≤ u)) := by
  obtain ⟨spans, rings, t, h', -, ht, rfl⟩ := h.sound.exists_held hp
  obtain ⟨-, hdvd, hmin⟩ := h'.row.proper t (mem_held.1 ht).1
  have hbounds := h'.row.bounds (mem_held.1 ht).1
  have hm := h'.memory_lt
  have hlt : t.size < wordCount := by
    simp only [Span.stop, pairSize] at *
    omega
  refine ⟨t.tag, payloadSize t.size, Heap.blockAt_of_held h' ht, Heap.payloadSize?_of_held h' ht,
    fun n => ⟨exists_sizeFor_le_iff hdvd hmin hlt, fun hn hroom => ?_⟩⟩
  exact Heap.resize_stays_iff h' h.sound.config_eq ht hn hroom

/-- The block size for a request is missing exactly above the word limit less `minBlock`,
and is otherwise the lower adjoint of the payload size on the proper block sizes, of
which it is one. So it is monotone and takes a whole payload back to its block. In every
session that can be reached, the test that lets a resize leave a live block where it is
comes out true exactly for the requests that its payload holds. -/
theorem sizeFor_adjoint_payloadSize :
    (∀ n, sizeFor n = none ↔ wordCount - minBlock < n) ∧
    (∀ n s, pairSize ∣ s → minBlock ≤ s → s < wordCount →
      ((∃ size, sizeFor n = some size ∧ size ≤ s) ↔ n ≤ payloadSize s)) ∧
    (∀ n size, sizeFor n = some size → pairSize ∣ size ∧ minBlock ≤ size ∧ size < wordCount) ∧
    (∀ n k size, n ≤ k → sizeFor k = some size → ∃ size', sizeFor n = some size' ∧ size' ≤ size) ∧
    (∀ s, pairSize ∣ s → minBlock ≤ s → s < wordCount → sizeFor (payloadSize s) = some s) ∧
    (∀ (arena : Arena) (config : Config) (s : Session) (p : Nat), Reached arena config s →
      p ∈ s.live → ∃ tag u, s.heap.blockAt p = .ok tag ∧ s.heap.payloadSize? p = some u ∧
        ∀ n, ((∃ size, sizeFor n = some size ∧ size ≤ tag.size) ↔ n ≤ u) ∧
          (n ≠ 0 → s.heap.counters.resizeInPlace + 1 < wordCount →
            ((∃ g, Heap.resize p n s.heap = .ok (some p) g) ↔ n ≤ u))) := by
  refine ⟨fun n => ?_, fun _ _ => exists_sizeFor_le_iff, fun _ _ => proper_of_sizeFor,
    fun _ _ _ => sizeFor_mono, fun _ => sizeFor_payloadSize,
    fun _ _ _ _ hreached => hreached.exists_covers_iff⟩
  rw [sizeFor_eq_none_iff]
  simp only [minBlock, wordCount]
  omega

/-- The greatest request of all has the greatest block size, and a block of 48 bytes
covers the requests of up to 32. -/
theorem sizeFor_adjoint_payloadSize_of_allocated :
    sizeFor (wordCount - 32) = some (wordCount - 16) ∧
    ∃ s, Reached {} { chunkSize := 64, logLevel := none } s ∧ s.live = [32] ∧
      ∃ tag u, s.heap.blockAt 32 = .ok tag ∧ s.heap.payloadSize? 32 = some u ∧
        ∀ n, ((∃ size, sizeFor n = some size ∧ size ≤ tag.size) ↔ n ≤ u) ∧
          (n ≠ 0 → s.heap.counters.resizeInPlace + 1 < wordCount →
            ((∃ g, Heap.resize 32 n s.heap = .ok (some 32) g) ↔ n ≤ u)) := by
  have hrun : ((Session.start {} { chunkSize := 64, logLevel := none }).afterAll
      [.init, .allocate 20]).map Session.live = some [32] := by
    decide +kernel
  obtain ⟨s, hs, hlive⟩ := Option.map_eq_some_iff.1 hrun
  have hreached := Reached.start.afterAll hs
  obtain ⟨-, -, -, -, hwhole, hcovers⟩ := sizeFor_adjoint_payloadSize
  exact ⟨hwhole (wordCount - 16) (by decide) (by decide) (by decide), s, hreached, hlive,
    hcovers _ _ s 32 hreached (by rw [hlive]; decide)⟩

end SegregatedFit.Session
