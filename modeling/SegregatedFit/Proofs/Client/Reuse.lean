-- SUMMARY: In every session, a freed block comes back to the next allocation of its size, and the heap with it.
import SegregatedFit.Proofs.Client.Invariant
import SegregatedFit.Proofs.Heap.Reusing
import SegregatedFit.Proofs.Heap.Stamping

/-!
# Freeing and allocating

Freeing a block between two allocated ones, and then allocating as many bytes as make a
block of its size, gives the same pointer and the same heap, byte for byte, up to the
two words in which the block had its links meanwhile (`Heap.Restores`). It takes a search
that begins in the ring of the block. The tags come out the same since those of all live
blocks are stamped, in every session (`Reached.stamped`). Main statement:
`Reached.reallocated_after_free`.
-/
namespace SegregatedFit

open Block

namespace Session

variable {arena : Arena} {config : Config} {s s' : Session} {call : Call} {g : Heap Arena}
variable {answer : Option Nat} {n p ptr : Nat}

/-! ## Stamps -/

theorem Sound.stamped_allocate (hs : s.Sound) (hstamped : s.heap.Stamped)
    (hrun : Call.run (.allocate n) s.heap = .ok answer g) : g.Stamped := by
  obtain ⟨p, k, hallocated, ⟨⟩⟩ := Action.bind_eq_ok_iff.1 hrun
  obtain ⟨spans, rings, h'⟩ := hs.arranged_of_allocated hallocated
  exact hstamped.allocate h' hs.config_eq hallocated

theorem Sound.stamped_free (hs : s.Sound) (hstamped : s.heap.Stamped) (hptr : s.Judges ptr)
    (hrun : Call.run (.free ptr) s.heap = .ok answer g) : g.Stamped := by
  rcases hs.freed_cases hptr hrun with ⟨rfl, rfl⟩ | ⟨spans, rings, u, h', hu, rfl, hfree⟩
  · exact hstamped.loggedAll [.freedNull]
  · exact hstamped.free h' hu hfree

theorem Sound.stamped_resize (hs : s.Sound) (hstamped : s.heap.Stamped) (hptr : s.Judges ptr)
    (hrun : Call.run (.resize ptr n) s.heap = .ok answer g) : g.Stamped := by
  by_cases hnull : ptr = nullPtr
  · subst hnull
    rw [Call.run_resize_null] at hrun
    exact hs.stamped_allocate hstamped hrun
  · obtain ⟨spans, rings, u, h', -, hu, rfl, ⟨rfl, k, hfree, rfl⟩ | ⟨hn, hresize⟩⟩ :=
      hs.resized_cases hptr hnull hrun
    · exact (hstamped.free h' hu hfree).loggedAll [.resizedToNothing u.offset]
    · exact hstamped.resize h' hs.config_eq hu hn hresize

theorem Sound.stamped_store {start : Nat} {bytes : List UInt8} (hs : s.Sound)
    (hstamped : s.heap.Stamped) (hlive : ptr ∈ s.live)
    (hrun : Call.run (.store ptr start bytes) s.heap = .ok answer g) : g.Stamped := by
  obtain ⟨spans, rings, u, m, h', -, hu, rfl, hedit, hstore⟩ := hs.run_store hlive start bytes
  rw [hstore] at hrun
  cases hrun
  exact hstamped.edited_payload h' hu hedit

/-- Starting over leaves no live block. -/
theorem Sound.stamped_init (hs : s.Sound) (hafter : s.after .init = some s') :
    s'.heap.Stamped := by
  rcases after_cases hafter with ⟨answer, hrun⟩ | ⟨cause, hrun⟩
  · obtain ⟨_, k, hinit, hpure⟩ := Action.bind_eq_ok_iff.1 hrun
    obtain ⟨-, rfl⟩ := EStateM.Result.ok.inj hpure
    exact (Heap.founds_of_init hs.config_eq hinit).founded.stamped
  · exact (hs.blank_of_init_refused hrun).stamped

/-- A call that does not start over keeps the live blocks stamped. -/
theorem Sound.stamped_of_answered (hs : s.Sound) (hstamped : s.heap.Stamped)
    (hallows : s.Allows call) (hgoes : ¬ call.Restarts) (hrun : call.run s.heap = .ok answer g) :
    g.Stamped := by
  cases call with
  | init => exact (hgoes trivial).elim
  | reset => exact (hgoes trivial).elim
  | allocate n => exact hs.stamped_allocate hstamped hrun
  | free ptr => exact hs.stamped_free hstamped (hs.judges_of_foreign hallows) hrun
  | resize ptr n => exact hs.stamped_resize hstamped (hs.judges_of_foreign hallows) hrun
  | store ptr start bytes => exact hs.stamped_store hstamped hallows hrun

/-- One call keeps the live blocks stamped. -/
theorem Sound.stamped_after (hs : s.Sound) (hstamped : s.heap.Stamped) (hallows : s.Allows call)
    (hafter : s.after call = some s') : s'.heap.Stamped := by
  by_cases hrestarts : call.Restarts
  · cases call with
    | init => exact hs.stamped_init hafter
    | reset =>
      obtain rfl := Option.some.inj hafter
      exact (Heap.blank_reset s.heap).stamped
    | allocate n => exact hrestarts.elim
    | free ptr => exact hrestarts.elim
    | resize ptr n => exact hrestarts.elim
    | store ptr start bytes => exact hrestarts.elim
  · rcases hs.run_cases hallows hrestarts with
      ⟨cause, events, hrun⟩ | ⟨trap, g, hrun⟩ | ⟨answer, g, hrun, -⟩
    · simp only [Session.after, hrun, Option.some.injEq] at hafter
      subst hafter
      exact hstamped.loggedAll events
    · simp only [Session.after, hrun, reduceCtorEq] at hafter
    · simp only [Session.after, hrun, Option.some.injEq] at hafter
      subst hafter
      exact hs.stamped_of_answered hstamped hallows hrestarts hrun

/-- In every session the live blocks are stamped. -/
theorem Reached.stamped (h : Reached arena config s) : s.heap.Stamped := by
  induction h with
  | start => exact (Heap.blank_ofRegion arena config).stamped
  | step hreached hallows hafter ih => exact hreached.sound.stamped_after ih hallows hafter

/-! ## The pair -/

/-- In every session, a live block between two allocated ones can be freed. If the search
for its size begins in the ring of that size, the next allocation that makes a block of
that size gives the pointer back, and restores the heap. -/
theorem Reached.reallocated_after_free (h : Reached arena config s) (hp : p ∈ s.live) :
    ∃ front b back rings, s.heap.Arranged (front ++ b :: back) rings ∧
      s.Owns (front ++ b :: back) ∧ b.offset = p ∧ b.allocated = true ∧
      (Bucket.searchFrom b.size s.heap.config.search = .ofSize b.size ↔
        s.heap.config.search = .canonical ∨ Bucket.ofSize b.size = .last) ∧
      ((tagBelow front).allocated = true → (tagAbove back).allocated = true →
        Bucket.searchFrom b.size s.heap.config.search = .ofSize b.size →
        ∀ n, 0 < n → sizeFor n = some b.size →
          ∃ g k, Heap.free p s.heap = .ok () g ∧ Heap.allocate n g = .ok p k ∧
            s.heap.Restores k p) := by
  obtain ⟨spans, rings, b, h', howns, hb, rfl⟩ := h.sound.exists_held hp
  have hstamped := (Heap.stamped_iff h').1 h.stamped b hb
  obtain ⟨front, back, rfl, halloc⟩ := exists_middle_of_held hb
  exact ⟨front, b, back, rings, h', howns, rfl, halloc, Bucket.searchFrom_eq_ofSize_iff,
    fun hbelow habove hstart n hn hsize =>
      Heap.exists_restores h' halloc hstamped hbelow habove (Nat.ne_zero_of_lt hn) hsize hstart⟩

/-- The tags around a block say of what size it is, and what is next to it. -/
theorem neighbours_of_tags {h : Heap Arena} {front back : List Span} {b : Span}
    {rings : Bucket → List Nat} {below above : Tag} {size : Nat} {allocated : Bool}
    (h' : h.Arranged (front ++ b :: back) rings)
    (hbelow : (readTag h.region.memory (b.offset - pairSize)).toOption = some below)
    (hheader : (header h.region.memory b.offset).toOption = some ⟨size, allocated⟩)
    (habove : (header h.region.memory (b.offset + size)).toOption = some above) :
    tagBelow front = below ∧ b.size = size ∧ tagAbove back = above := by
  rw [h'.row.readTag_below h'.memory_lt] at hbelow
  rw [h'.row.header_eq] at hheader
  obtain rfl : b.size = size := congrArg Tag.size (Option.some.inj hheader)
  rw [show b.offset + b.size = b.stop from rfl, h'.row.header_stop] at habove
  exact ⟨Option.some.inj hbelow, rfl, Option.some.inj habove⟩

/-- Three blocks of the smallest size, one behind the other. -/
theorem exists_smallBlocks :
    ∃ s, Reached {} { chunkSize := 128, search := .canonical, logLevel := none } s ∧
      s.live = [96, 64, 32] ∧ s.heap.config.search = .canonical ∧
      (readTag s.heap.region.memory (64 - pairSize)).toOption = some ⟨32, true⟩ ∧
      (header s.heap.region.memory 64).toOption = some ⟨32, true⟩ ∧
      (header s.heap.region.memory (64 + 32)).toOption = some ⟨32, true⟩ := by
  have hrun : ((Session.start {} { chunkSize := 128, search := .canonical, logLevel := none
      }).afterAll [.init, .allocate 1, .allocate 1, .allocate 1]).map (fun s =>
        (s.live, s.heap.config.search,
          (readTag s.heap.region.memory (64 - pairSize)).toOption,
          (header s.heap.region.memory 64).toOption,
          (header s.heap.region.memory (64 + 32)).toOption)) =
      some ([96, 64, 32], .canonical, some ⟨32, true⟩, some ⟨32, true⟩, some ⟨32, true⟩) := by
    decide +kernel
  obtain ⟨s, hs, hstate⟩ := Option.map_eq_some_iff.1 hrun
  simp only [Prod.mk.injEq] at hstate
  exact ⟨s, Reached.start.afterAll hs, hstate⟩

/-- The middle one of three small blocks comes back. -/
theorem Reached.reallocated_after_free_of_smallBlocks :
    ∃ s, Reached {} { chunkSize := 128, search := .canonical, logLevel := none } s ∧
      s.live = [96, 64, 32] ∧ ∃ g k, Heap.free 64 s.heap = .ok () g ∧
        Heap.allocate 1 g = .ok 64 k ∧ s.heap.Restores k 64 := by
  obtain ⟨s, hs, hlive, hsearch, hbelow, hheader, habove⟩ := exists_smallBlocks
  obtain ⟨front, b, back, rings, h', -, hoff, -, hstart, hpair⟩ :=
    Reached.reallocated_after_free hs (p := 64) (by simp [hlive])
  obtain ⟨hfront, hsize, hback⟩ := neighbours_of_tags h' (hoff ▸ hbelow) (hoff ▸ hheader)
    (hoff ▸ habove)
  refine ⟨s, hs, hlive, hpair (by simp [hfront]) (by simp [hback])
    (hstart.2 (Or.inl hsearch)) 1 (by decide) ?_⟩
  rw [hsize]
  decide

/-- A block of the smallest size is also what no bytes would take, but no bytes are not
allocated. -/
theorem Reached.not_reallocated_for_nothing :
    ∃ s front b back rings g k,
      Reached {} { chunkSize := 128, search := .canonical, logLevel := none } s ∧
      64 ∈ s.live ∧ s.heap.Arranged (front ++ b :: back) rings ∧ b.offset = 64 ∧
      (tagBelow front).allocated = true ∧ (tagAbove back).allocated = true ∧
      sizeFor 0 = some b.size ∧
      Bucket.searchFrom b.size s.heap.config.search = .ofSize b.size ∧
      Heap.free 64 s.heap = .ok () g ∧
      Heap.allocate 0 g = .error (.refused (.invalidArgument "zero-size allocation")) k := by
  obtain ⟨s, hs, hlive, hsearch, hbelow, hheader, habove⟩ := exists_smallBlocks
  have hmem : 64 ∈ s.live := by simp [hlive]
  obtain ⟨spans, rings, b, h', -, hb, hoff⟩ := hs.sound.exists_held hmem
  obtain ⟨front, back, rfl, halloc⟩ := exists_middle_of_held hb
  obtain ⟨hfront, hsize, hback⟩ := neighbours_of_tags h' (hoff ▸ hbelow) (hoff ▸ hheader)
    (hoff ▸ habove)
  obtain ⟨g, hfree, hfrees⟩ := Heap.free_middle h' halloc
  refine ⟨s, front, b, back, rings, g, _, hs, hmem, h', hoff, by simp [hfront], by simp [hback],
    ?_, Bucket.searchFrom_eq_ofSize_iff.2 (Or.inl hsearch), hoff ▸ hfree,
    Heap.allocate_zero hfrees.arranged⟩
  rw [hsize]
  decide

end Session
end SegregatedFit
