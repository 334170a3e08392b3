-- SUMMARY: The tags of allocated blocks hold the very words that were written, bit for bit.
import SegregatedFit.Proofs.Heap.Claiming
import SegregatedFit.Proofs.Heap.Payloads

/-!
# Stamping

A tag is read without the bits of its word that mean nothing, so what is read of a block
does not decide the bytes of its tags. But no one writes such bits: an allocation stamps
its block with the words of the tag, and nothing is written into them until the block is
freed. So the allocated blocks of a heap are stamped (`Stamped`), and each operation keeps
them so.
-/
namespace SegregatedFit.Heap

open Block SegregatedFit.Action

variable {h k g : Heap Arena} {spans spans' gone new : List Span} {s t : Span} {n p : Nat}
variable {rings rings' : Bucket → List Nat}

/-- The allocated blocks of the heap, if it is laid out, are stamped. -/
def Stamped (h : Heap Arena) : Prop :=
  ∀ prologue spans, h.prologue = some prologue → Row h.region.memory prologue spans →
    ∀ u ∈ held spans, u.Stamped h.region.memory

theorem stamped_iff (h' : h.Arranged spans rings) :
    h.Stamped ↔ ∀ u ∈ held spans, u.Stamped h.region.memory := by
  constructor
  · exact fun hstamped => hstamped _ _ h'.prologue_eq h'.row
  · intro hall prologue spans' hprologue hrow
    rw [h'.prologue_eq] at hprologue
    obtain rfl := Option.some.inj hprologue
    exact hrow.unique h'.row ▸ hall

theorem Blank.stamped (hblank : h.Blank) : h.Stamped := by
  intro prologue spans hprologue
  rw [hblank.prologue_eq] at hprologue
  cases hprologue

/-- All but the bytes and the prologue has no part in it. -/
theorem Stamped.congr (hstamped : h.Stamped) (hmemory : g.region.memory = h.region.memory)
    (hprologue : g.prologue = h.prologue) : g.Stamped := by
  unfold Stamped
  rw [hmemory, hprologue]
  exact hstamped

theorem Stamped.loggedAll (hstamped : h.Stamped) (events : List Event) :
    (h.loggedAll events).Stamped := by
  obtain ⟨log, hlog, -⟩ := loggedAll_eq h events
  rw [hlog]
  exact hstamped

/-- Blocks that stay are stamped as they were, so new ones are all that matters. -/
theorem Stamped.exchanged (hstamped : h.Stamped) (h' : h.Arranged spans rings)
    (hex : h.Exchanged g spans spans' gone new) (hnew : ∀ t ∈ new, t.Stamped g.region.memory) :
    g.Stamped := by
  obtain ⟨rings', g'⟩ := hex.arranged
  refine (stamped_iff g').2 fun u hu => ?_
  rcases List.mem_append.1 (hex.perm.mem_iff.1 (List.mem_append_right gone hu)) with hmem | hmem
  · exact hnew u hmem
  · have hinside := h'.row.inside h'.memory_lt (mem_held.1 hmem).1
    exact ((stamped_iff h').1 hstamped u hmem).congr hinside.fits fun i hi =>
      hex.carried u hmem hu i (.of_inTags hinside.pair_le hi)

/-- A payload has no part in the tags. -/
theorem Stamped.edited_payload (hstamped : h.Stamped) (h' : h.Arranged spans rings)
    (ht : t ∈ held spans) {m : Memory} (hedit : h.region.memory.Edited m t.InPayload) :
    (h.withLists h.lists m).Stamped := by
  refine (stamped_iff (h'.edited_payload ht hedit)).2 fun u hu => ?_
  have hinside := h'.row.inside h'.memory_lt (mem_held.1 hu).1
  refine ((stamped_iff h').1 hstamped u hu).congr hinside.fits fun i hi => hedit.byteAt_eq i ?_
  intro hti
  have heq := h'.row.eq_of_covers (mem_held.1 hu).1 (mem_held.1 ht).1
    (.of_inTags hinside.pair_le hi) (.of_inPayload hti)
  exact Span.not_inTags_of_inPayload hti (heq ▸ hi)

/-! ## Operations -/

/-- What was just laid out has no allocated blocks. -/
theorem Founded.stamped {base : Nat} (hfounded : h.Founded base) : h.Stamped := by
  obtain ⟨rings, h'⟩ := hfounded.arranged
  exact (stamped_iff h').2 fun u hu => (List.not_mem_nil hu).elim

/-- Allocating stamps the block that it hands out. -/
theorem Stamped.allocate (hstamped : h.Stamped) (h' : h.Arranged spans rings)
    (hconfig : h.config.normalized = h.config) (hrun : allocate n h = .ok p g) : g.Stamped := by
  obtain ⟨k, size, growths, front, s, back, -, -, htakes, -, hcarves, -⟩ :=
    exists_carves_of_allocate h' hconfig hrun
  refine hstamped.exchanged h' (htakes.exchanged h') fun t ht => ?_
  obtain rfl := List.mem_singleton.1 ht
  exact hcarves.stamped

theorem Stamped.free (hstamped : h.Stamped) (h' : h.Arranged spans rings) (hs : s ∈ held spans)
    (hrun : free s.offset h = .ok () g) : g.Stamped := by
  obtain ⟨k, spans', hfree, hex⟩ := free_of_held h' hs
  rw [hfree] at hrun
  cases hrun
  exact hstamped.exchanged h' hex fun t ht => (List.not_mem_nil ht).elim

/-- Moving is allocating, copying into a payload and freeing. -/
theorem Stamped.relocate (hstamped : h.Stamped) (h' : h.Arranged spans rings)
    (hconfig : h.config.normalized = h.config) (hs : s ∈ held spans)
    (hgrows : payloadSize s.size < n) (hrun : relocate s.offset s.size n h = .ok p g) :
    g.Stamped := by
  obtain ⟨target, k₁, k₂, k₃, spans', rings', t, rfl, hmoved, k', hs', ht, hfits⟩ :=
    exists_exchanged_of_relocate h' hconfig hs hgrows hrun
  obtain ⟨hcopy, hedit⟩ := copy_apply k' hs' ht hfits
  obtain ⟨-, rfl⟩ := EStateM.Result.ok.inj (hcopy.symm.trans hmoved.copied)
  have hcopied := (hstamped.allocate h' hconfig hmoved.allocated).edited_payload k' ht hedit
  have hfreed := hcopied.free (k'.edited_payload ht hedit) hs' hmoved.freed
  exact hfreed.congr hmoved.memory_eq (congrArg Readings.prologue hmoved.readings_eq)

/-- Resizing a block to something, whether it is moved or not. -/
theorem Stamped.resize {answer : Option Nat} (hstamped : h.Stamped) (h' : h.Arranged spans rings)
    (hconfig : h.config.normalized = h.config) (hs : s ∈ held spans) (hn : n ≠ 0)
    (hrun : resize s.offset n h = .ok answer g) : g.Stamped := by
  rcases resize_eq_ok h' hs hn hrun with ⟨size, -, rfl⟩ | ⟨hgrows, p, -, hmoved⟩
  · exact hstamped
  · exact hstamped.relocate h' hconfig hs hgrows hmoved

end SegregatedFit.Heap
