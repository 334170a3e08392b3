-- SUMMARY: What growth at the end makes of a heap, and when it is refused.
import SegregatedFit.Proofs.Heap.Coalescing

/-!
# Growth

The region decides: where it refuses, the heap logs the refusal and is as it
was (`grow_of_refused`); where it grows, the new bytes become a free block at
the end of the row, which is merged with the last block if that is free
(`grow_of_ok`).
-/
namespace SegregatedFit

open Block

namespace Arena

/-- What the growth of an arena can end in: it is refused beyond the limit, and
trapped only where the limit is more than a signed word counts, or the growths are
as many as a word counts. -/
theorem grow_cases (a : Arena) (delta : Nat) :
    (∃ cause, grow delta a = .error (.refused cause) a ∧
      cause = .exhausted delta a.memory.size a.limit ∧
      (a.limit < a.memory.size + delta ∨ wordCount ≤ a.limit)) ∨
    (∃ trap, grow delta a = .error (.trapped trap) a ∧ a.memory.size + delta ≤ a.limit ∧
      (wordCount ≤ 2 * a.limit ∨ wordCount ≤ a.growCalls + 1)) ∨
    (grow delta a = .ok a.memory.size
        { a with memory := a.memory.extend delta, growCalls := a.growCalls + 1 } ∧
      a.memory.size + delta ≤ a.limit ∧ 2 * (a.memory.size + delta) < wordCount) := by
  obtain ⟨m, limit, growCalls⟩ := a
  by_cases hlimit : limit < m.size + delta ∨ wordCount ≤ m.size + delta
  · refine Or.inl ⟨.exhausted delta m.size limit, by simp only [grow, if_pos hlimit], rfl, ?_⟩
    dsimp only
    omega
  · have hroom : m.size + delta ≤ limit := by omega
    by_cases hcapacity : wordCount ≤ 2 * (m.size + delta)
    · refine Or.inr (Or.inl ⟨.capacity, ?_, hroom, Or.inl ?_⟩)
      · simp only [grow, if_neg hlimit, if_pos hcapacity]
      · dsimp only
        omega
    · by_cases hcalls : wordCount ≤ growCalls + 1
      · refine Or.inr (Or.inl ⟨.overflow, ?_, hroom, Or.inr hcalls⟩)
        simp only [grow, if_neg hlimit, if_neg hcapacity, if_pos hcalls]
      · refine Or.inr (Or.inr ⟨?_, hroom, Nat.lt_of_not_le hcapacity⟩)
        simp only [grow, if_neg hlimit, if_neg hcapacity, if_neg hcalls]

end Arena

namespace Heap

variable {h : Heap Arena} {spans : List Span} {rings : Bucket → List Nat} {size : Nat}

theorem growRegion_apply (delta : Nat) (h : Heap Arena) :
    growRegion delta h =
      match Arena.grow delta h.region with
      | .ok used region => .ok (.ok used) { h with region }
      | .error (.refused cause) region => .ok (.error cause) { h with region }
      | .error (.trapped trap) region => .error (.trapped trap) { h with region } := by
  obtain ⟨region, lists, config, base, prologue, counters, log⟩ := h
  simp only [growRegion, Arena.region_grow]
  rcases Arena.grow_cases region delta with ⟨cause, hgrow, -⟩ | ⟨trap, hgrow, -⟩ | ⟨hgrow, -⟩ <;>
  · simp only [hgrow]

/-- The heap after a free block was added at its end, in no list yet. -/
def grownBy (h : Heap Arena) (size : Nat) : Heap Arena :=
  { h with
    region := { h.region with
      memory := lengthened h.region.memory size
      growCalls := h.region.growCalls + 1 }
    counters := { h.counters with extendCalls := h.counters.extendCalls + 1 } }.logged
    (.grown h.region.memory.size size)

theorem grow_of_refused {cause : ArenaError} (h' : h.Arranged spans rings)
    (hgrow : Arena.grow size h.region = .error (.refused cause) h.region) :
    grow size h = .error (.refused (.arena cause)) (h.logged (.growthFailed size cause)) := by
  simp only [grow, Action.bind_apply, growRegion_apply, hgrow, h'.logEvent, Action.refuse_apply]

theorem grow_of_trapped {trap : Trap} {region : Arena}
    (hgrow : Arena.grow size h.region = .error (.trapped trap) region) :
    grow size h = .error (.trapped trap) { h with region } := by
  simp only [grow, Action.bind_apply, growRegion_apply, hgrow]

/-- The arena with `size` more bytes. -/
def regionAfter (h : Heap Arena) (size : Nat) : Arena :=
  { h.region with
    memory := h.region.memory.extend size
    growCalls := h.region.growCalls + 1 }

/-- The run of a growth up to where the new block is merged. -/
theorem grow_eq_coalesce (h' : h.Arranged spans rings)
    (hgrow : Arena.grow size h.region = .ok h.region.memory.size (h.regionAfter size))
    (hmin : minBlock ≤ size) (hlt : 2 * (h.region.memory.size + size) < wordCount) :
    grow size h = coalesce h.region.memory.size (h.grownBy size) := by
  obtain ⟨s, hs⟩ : ∃ s : Span, s = ⟨h.region.memory.size, size, false⟩ := ⟨_, rfl⟩
  have hbase := h'.base_le
  have hin : s.Inside (h.region.memory.extend size) := by
    refine ⟨?_, ?_, ?_, ?_⟩ <;>
    · simp only [hs, Span.stop, Memory.size_extend, sentinelBytes, wordSize, pairSize, minBlock,
        wordCount] at *
      omega
  let g : Heap Arena := { h with region := h.regionAfter size }
  have htags : write (writeTags h.region.memory.size ⟨size, false⟩) g =
      .ok () (g.withLists h.lists (tagged (h.region.memory.extend size) s)) := by
    have hrun := writeTags_apply hin.fits
    rw [hs] at hrun ⊢
    exact write_of_ok hrun
  have hstop : Word.add h.region.memory.size size = .ok (h.region.memory.size + size) :=
    Word.add_of_lt (by omega)
  have hepilogue : write (writeEpilogue (h.region.memory.size + size))
      (g.withLists h.lists (tagged (h.region.memory.extend size) s)) =
      .ok () (g.withLists h.lists (lengthened h.region.memory size)) := by
    have hword : wordSize ≤ h.region.memory.size + size :=
      Nat.le_add_left_of_le (Nat.le_trans (by decide) hmin)
    have hend : h.region.memory.size + size ≤ (tagged (h.region.memory.extend size) s).size := by
      simp
    have hrun := writeEpilogue_apply hword hend
    rw [hs] at hrun ⊢
    rw [lengthened]
    exact write_of_ok hrun
  have hextend := h'.extendCalls_le
  have hcalls : Word.add h.counters.extendCalls 1 = .ok (h.counters.extendCalls + 1) := by
    apply Word.add_of_lt
    simp only [minBlock, wordCount] at *
    omega
  have hcount : count (fun c => return { c with extendCalls := ← Word.add c.extendCalls 1 })
      (g.withLists h.lists (lengthened h.region.memory size)) =
      .ok () ((g.withLists h.lists (lengthened h.region.memory size)).withCounters
        { h.counters with extendCalls := h.counters.extendCalls + 1 }) := by
    apply count_apply
    rw [withLists_counters, show g.counters = h.counters from rfl, hcalls]
    rfl
  have hlog : logEvent (.grown h.region.memory.size size)
      ((g.withLists h.lists (lengthened h.region.memory size)).withCounters
        { h.counters with extendCalls := h.counters.extendCalls + 1 }) =
      .ok () (h.grownBy size) := by
    refine logEvent_apply ?_ _
    intro _
    change h.base ≤ (lengthened h.region.memory size).size
    rw [size_lengthened]
    omega
  simp only [grow, Action.bind_apply, growRegion_apply, hgrow]
  rw [htags]
  simp only [hstop, Action.lift_trap_ok, hepilogue, hcount, hlog]

/-! ## The longer memory -/

/-- Lengthening the memory keeps what lies before the heap and in its blocks. -/
theorem Arranged.byteAt_lengthened (h' : h.Arranged spans rings) (hpair : pairSize ≤ size)
    (hlt : h.region.memory.size + size < wordCount) {i : Nat}
    (hi : i < h.base ∨ ∃ t ∈ spans, t.Covers i) :
    (lengthened h.region.memory size).byteAt i = h.region.memory.byteAt i := by
  have hbase := h'.base_le
  have hin : i + wordSize < h.region.memory.size := by
    rcases hi with hi | ⟨t, ht, hti⟩
    · simp only [sentinelBytes, wordSize] at *
      omega
    · exact h'.row.covers_lt ht hti
  exact Block.byteAt_lengthened (by omega) hpair hlt hin

/-- The free blocks stay listed in the longer memory. -/
theorem Arranged.indexed_lengthened (h' : h.Arranged spans rings) (hpair : pairSize ≤ size)
    (hlt : h.region.memory.size + size < wordCount) :
    h.lists.Indexed (lengthened h.region.memory size) (spans ++ []) rings := by
  rw [List.append_nil]
  refine h'.indexed.kept h'.row (fun _ ht => ht) (by simpa using hlt) ⟨by simp, ?_⟩
  rintro i ⟨t, ht, -, hti⟩
  exact h'.byteAt_lengthened hpair hlt (.inr ⟨t, ht, .of_inPayload hti⟩)

/-- Merging the new block changes nothing before the heap and in its allocated blocks. -/
theorem Arranged.kept_grown (h' : h.Arranged spans rings) (hpair : pairSize ≤ size)
    (hlt : h.region.memory.size + size < wordCount) {s : Span} {m : Memory}
    (hrow : Row (lengthened h.region.memory size) (h.base + pairSize) (spans ++ [s]))
    (hfree : s.isFree = true)
    (hedit : (lengthened h.region.memory size).Rewritten m (MergeBytes rings spans s []) []) :
    h.region.memory.Kept m (fun i => i < h.base ∨ HeldBytes spans i) := by
  have hfreeBytes : ∀ i, MergeBytes rings spans s [] i → FreeBytes (spans ++ [s]) i :=
    fun i => freeBytes_of_mergeBytes (h'.indexed_lengthened hpair hlt) hrow hfree
  have hsize : m.size = h.region.memory.size + size :=
    hedit.size_eq.trans (size_lengthened _ _)
  refine ⟨by omega, ?_⟩
  rintro i (hi | ⟨t, ht, hti⟩)
  · have hout := hrow.not_freeBytes_of_lt (Nat.lt_add_right pairSize hi)
    rw [hedit.byteAt_eq i fun hi' => hout (hfreeBytes i hi')]
    exact h'.byteAt_lengthened hpair hlt (.inl hi)
  · have ht' : t ∈ held (spans ++ [s]) := by
      rw [held_append]
      exact List.mem_append_left _ ht
    rw [hedit.byteAt_eq i fun hi' => hrow.not_freeBytes ht' hti (hfreeBytes i hi')]
    exact h'.byteAt_lengthened hpair hlt (.inr ⟨t, (mem_held.1 ht).1, hti⟩)

/-! ## Growing -/

/-- Growth adds a free block at the end of the row and merges it with the last
block if that is free. What lies before the heap and in its allocated blocks stays,
and nothing is claimed that was not. -/
theorem grow_of_ok (h' : h.Arranged spans rings)
    (hgrow : Arena.grow size h.region = .ok h.region.memory.size (h.regionAfter size))
    (hdvd : pairSize ∣ size) (hmin : minBlock ≤ size)
    (hlt : 2 * (h.region.memory.size + size) < wordCount) :
    ∃ s lists m,
      s = ⟨h.region.memory.size, size, false⟩ ∧
      grow size h = .ok (joined (freeRun spans s [])).offset
        (((h.grownBy size).withLists lists m).logged (.coalesced (mergeKind spans [])
          (joined (freeRun spans s [])).offset (joined (freeRun spans s [])).size)) ∧
      Arranged ((h.grownBy size).withLists lists m) (merged spans s [])
        (relisted rings spans s []) ∧
      m.size = h.region.memory.size + size ∧
      h.region.memory.Kept m (fun i => i < h.base ∨ HeldBytes spans i) ∧
      ∀ ptr, Claims m ptr → Claims h.region.memory ptr := by
  obtain ⟨s, hs⟩ : ∃ s : Span, s = ⟨h.region.memory.size, size, false⟩ := ⟨_, rfl⟩
  have hbase := h'.base_le
  have hpos : wordSize ≤ h.region.memory.size := by
    simp only [sentinelBytes, wordSize] at *
    omega
  have hpair : pairSize ≤ size := Nat.le_trans (by decide) hmin
  have hlt' : h.region.memory.size + size < wordCount := by omega
  have hm : (lengthened h.region.memory size).size < wordCount := by simpa using hlt'
  have hrow : Row (lengthened h.region.memory size) (h.base + pairSize) (spans ++ [s]) :=
    hs ▸ h'.row.lengthened (Nat.dvd_add h'.base_dvd (Nat.dvd_refl _)) hdvd hmin hlt'
  obtain ⟨lists, m, hrun, hconsistent, hedit⟩ := coalesce_apply (h := h.grownBy size) hrow hm
    (h'.indexed_lengthened hpair hlt') h'.consistent.separated trivial
  have hsize : m.size = h.region.memory.size + size :=
    hedit.size_eq.trans (size_lengthened _ _)
  refine ⟨s, lists, m, hs, ?_, ⟨h'.prologue_eq, h'.base_dvd, hconsistent, ?_, ?_, ?_⟩,
    hsize, h'.kept_grown hpair hlt' hrow (by rw [hs]; rfl) hedit, ?_⟩
  · rw [grow_eq_coalesce h' hgrow hmin hlt, ← hrun, hs]
  · have hheld : held (merged spans s []) = held spans := by
      rw [held_merged]
      exact List.append_nil _
    exact ⟨by rw [hheld]; exact h'.count.blocks_eq, by rw [hheld]; exact h'.count.bytes_eq⟩
  · have hextend := h'.extendCalls_le
    change minBlock * (h.counters.extendCalls + 1) ≤ m.size
    rw [hsize]
    simp only [minBlock] at *
    omega
  · change 2 * m.size < wordCount
    rwa [hsize]
  · intro ptr hptr
    exact claims_lengthened h'.dvd_size hdvd hpos hpair hlt' (hedit.claims_of_nil hptr)

end Heap
end SegregatedFit
