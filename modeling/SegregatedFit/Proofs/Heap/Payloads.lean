-- SUMMARY: Payloads of allocated blocks: reading, writing, and which steps keep them.
import SegregatedFit.Heap.Payload
import SegregatedFit.Proofs.Heap.Releasing

/-!
# Payloads

The payload of an allocated block is reached through its pointer, and a write
through it touches nothing else (`writePayload_of_held`). A step that exchanges
other blocks keeps the payload (`Exchanged.payload_eq`).
-/
namespace SegregatedFit.Heap

open Block

variable {h g : Heap Arena} {spans spans' gone new : List Span} {s : Span}
variable {rings : Bucket → List Nat}

theorem payloadSize?_of_held (h' : h.Arranged spans rings) (hs : s ∈ held spans) :
    h.payloadSize? s.offset = some (payloadSize s.size) := by
  rw [payloadSize?, blockAt_of_held h' hs]
  rfl

theorem payload_of_held (h' : h.Arranged spans rings) (hs : s ∈ held spans) :
    h.payload s.offset = .ok (h.region.memory.slice s.offset (payloadSize s.size)) := by
  rw [payload, blockAt_of_held h' hs]
  rfl

/-- A write through the pointer of an allocated block ends with its payload. -/
theorem writePayload_of_held (h' : h.Arranged spans rings) (hs : s ∈ held spans) (start : Nat)
    (bytes : List UInt8) :
    ∃ k m, writePayload s.offset start bytes h = .ok k (h.withLists h.lists m) ∧
      h.region.memory.Edited m s.InPayload := by
  obtain ⟨fitting, hfitting⟩ : ∃ fitting, fitting = bytes.take (payloadSize s.size - start) :=
    ⟨_, rfl⟩
  have hlen : start + fitting.length ≤ payloadSize s.size ∨ fitting.length = 0 := by
    rw [hfitting, List.length_take]
    omega
  refine ⟨fitting.length, h.region.memory.setSlice (s.offset + start) fitting, ?_, ?_⟩
  · have hwrite : write (fun m => .ok () (m.setSlice (s.offset + start) fitting)) h =
        .ok () (h.withLists h.lists (h.region.memory.setSlice (s.offset + start) fitting)) :=
      write_of_ok rfl
    simp only [writePayload, Action.bind_apply, Action.get_apply, blockAt_of_held h' hs,
      Action.lift_ok, Span.tag, ← hfitting, hwrite, Action.pure_apply]
  · refine (Memory.edited_setSlice _ _ _).mono ?_
    intro i hi
    simp only [Span.InPayload, Span.stop, payloadSize, pairSize] at *
    omega

/-- A block that is not exchanged stays allocated, with its payload. -/
theorem Exchanged.stays_held (hg : h.Exchanged g spans spans' gone new) (hs : s ∈ held spans)
    (hgone : s ∉ gone) : s ∈ held spans' := by
  have hmem : s ∈ gone ++ held spans' := hg.perm.mem_iff.2 (List.mem_append_right new hs)
  exact (List.mem_append.1 hmem).resolve_left hgone

theorem Exchanged.payload_eq (hg : h.Exchanged g spans spans' gone new)
    (h' : h.Arranged spans rings) (hs : s ∈ held spans) (hgone : s ∉ gone) :
    g.payloadSize? s.offset = h.payloadSize? s.offset ∧
      g.payload s.offset = h.payload s.offset := by
  obtain ⟨rings', g'⟩ := hg.arranged
  have hs' := hg.stays_held hs hgone
  constructor
  · rw [payloadSize?_of_held g' hs', payloadSize?_of_held h' hs]
  · rw [payload_of_held g' hs', payload_of_held h' hs]
    congr 1
    exact Span.slice_congr (Nat.le_refl _) (hg.carried s hs hs')

/-- A write through one pointer keeps the payload of every other block. -/
theorem payload_eq_of_edited {m : Memory} {t : Span} (h' : h.Arranged spans rings)
    (ht : t ∈ held spans) (hedit : h.region.memory.Edited m t.InPayload) (hs : s ∈ held spans)
    (hne : s ≠ t) : (h.withLists h.lists m).payload s.offset = h.payload s.offset := by
  rw [payload_of_held (h'.edited_payload ht hedit) hs, payload_of_held h' hs]
  congr 1
  refine Memory.slice_congr fun i hi hlt => hedit.byteAt_eq i fun hti => hne ?_
  have hsi : s.InPayload i := by
    refine ⟨hi, ?_⟩
    simp only [Span.stop, payloadSize, pairSize] at *
    omega
  exact h'.row.eq_of_covers (mem_held.1 hs).1 (mem_held.1 ht).1 (.of_inPayload hsi)
    (.of_inPayload hti)

end SegregatedFit.Heap
