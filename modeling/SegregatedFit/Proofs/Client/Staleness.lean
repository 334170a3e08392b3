-- SUMMARY: Clients that write into no payload: for them no stale word ever passes for a block.
import SegregatedFit.Proofs.Client.LiveData
import SegregatedFit.Proofs.Client.Strays
import SegregatedFit.Proofs.Heap.Claiming

/-!
# Stale metadata

Tags stay in memory when their block is gone: after cuts and merges, in payloads, in
copies of payloads, and where an earlier heap was. A client that writes into no
payload may pass any pointer at all (`Unwritten`), and yet the heap takes none for a
block but those that are live. Behind the prologue the memory claims only live blocks
(`Heap.Candid`), which each call keeps (`Sound.candid_after`). Main statement:
`Unwritten.blocks_exact`.
-/
namespace SegregatedFit

open Block SegregatedFit.Action

/-- Whether the call writes into a payload. -/
def Call.Writes : Call → Prop
  | .store .. => True
  | _ => False

namespace Session

variable {s s' : Session} {call : Call} {answer : Option Nat} {g : Heap Arena} {ptr : Nat}
variable {spans : List Span} {rings : Bucket → List Nat}

/-- The sessions of a client that passes any pointers, and writes into no payload. -/
inductive Unwritten (arena : Arena) (config : Config) : Session → Prop
  | start : Unwritten arena config (start arena config)
  | step {s s' : Session} {call : Call} :
    Unwritten arena config s → ¬ call.Writes → s.after call = some s' → Unwritten arena config s'

/-! ## Pointers of a candid heap -/

/-- A candid heap takes no pointer for a block that is not live. -/
theorem blockAt_of_candid (h' : s.heap.Arranged spans rings) (hcandid : s.heap.Candid s.live)
    (hstray : ptr ∉ s.live) :
    ∃ cause, s.heap.blockAt ptr = .error cause ∧
      (cause = .invalidPointer ptr ∨ cause = .doubleFree ptr) := by
  rcases Heap.blockAt_cases h' ptr with ⟨size, hmarked, hlow, -⟩ | hblock | hblock
  · have hclaims : Claims s.heap.region.memory ptr :=
      claims_of_header hmarked.aligned (Nat.zero_lt_of_lt hlow) hmarked.min_le hmarked.header_eq
    exact (hstray (hcandid _ h'.prologue_eq ptr hlow hclaims)).elim
  · exact ⟨_, hblock, Or.inl rfl⟩
  · exact ⟨_, hblock, Or.inr rfl⟩

/-- A candid heap is right about all pointers. -/
theorem Sound.judges_of_candid (hs : s.Sound) (hcandid : s.heap.Candid s.live) (ptr : Nat) :
    s.Judges ptr := by
  by_cases hlive : ptr ∈ s.live
  · exact Or.inr (Or.inl hlive)
  · rcases hs.state with ⟨hblank, -⟩ | ⟨spans, rings, h', -⟩
    · exact Or.inr (Or.inr ⟨_, Heap.blockAt_uninitialized hblank.prologue_eq ptr⟩)
    · obtain ⟨cause, hblock, -⟩ := blockAt_of_candid h' hcandid hlive
      exact Or.inr (Or.inr ⟨cause, hblock⟩)

/-! ## Calls -/

theorem Sound.candid_allocate {n : Nat} (hs : s.Sound) (hcandid : s.heap.Candid s.live)
    (hrun : Call.run (.allocate n) s.heap = .ok answer g) :
    g.Candid (Call.liveAfter s.live (.allocate n) answer) := by
  obtain ⟨p, k, hallocated, ⟨⟩⟩ := bind_eq_ok_iff.1 hrun
  obtain ⟨spans, rings, h'⟩ := hs.arranged_of_allocated hallocated
  exact hcandid.allocate h' hs.config_eq hallocated

theorem Sound.candid_free (hs : s.Sound) (hcandid : s.heap.Candid s.live)
    (hrun : Call.run (.free ptr) s.heap = .ok answer g) :
    g.Candid (Call.liveAfter s.live (.free ptr) answer) := by
  rcases hs.freed_cases (hs.judges_of_candid hcandid ptr) hrun with
    ⟨rfl, rfl⟩ | ⟨spans, rings, u, h', hu, rfl, hfree⟩
  · rw [Call.liveAfter, List.erase_of_not_mem hs.null_not_live]
    exact hcandid.loggedAll [.freedNull]
  · exact hcandid.free h' hu hfree

theorem Sound.candid_resize {n : Nat} (hs : s.Sound) (hcandid : s.heap.Candid s.live)
    (hrun : Call.run (.resize ptr n) s.heap = .ok answer g) :
    g.Candid (Call.liveAfter s.live (.resize ptr n) answer) := by
  by_cases hnull : ptr = nullPtr
  · subst hnull
    rw [Call.run_resize_null] at hrun
    rw [hs.liveAfter_resize_null]
    exact hs.candid_allocate hcandid hrun
  · obtain ⟨spans, rings, u, h', howns, hu, rfl, ⟨rfl, k, hfree, rfl⟩ | ⟨hn, hresize⟩⟩ :=
      hs.resized_cases (hs.judges_of_candid hcandid ptr) hnull hrun
    · exact (hcandid.free h' hu hfree).loggedAll [.resizedToNothing u.offset]
    · exact hcandid.resize h' hs.config_eq (fun q => howns.exists_held) hu hn hresize

/-- A call that neither starts over nor writes leaves a candid heap. -/
theorem Sound.candid_of_outcome (hs : s.Sound) (hcandid : s.heap.Candid s.live)
    (hgoes : ¬ call.Restarts) (hwrites : ¬ call.Writes) (houtcome : s.Outcome call)
    (hafter : s.after call = some s') : s'.heap.Candid s'.live := by
  rcases houtcome with ⟨cause, events, hrun⟩ | ⟨trap, g, hrun⟩ | ⟨answer, g, hrun, -⟩
  · simp only [Session.after, hrun, Call.liveRefused_of_not_restarts hgoes,
      Option.some.injEq] at hafter
    subst hafter
    exact hcandid.loggedAll events
  · simp only [Session.after, hrun, reduceCtorEq] at hafter
  · simp only [Session.after, hrun, Option.some.injEq] at hafter
    subst hafter
    cases call with
    | init => exact (hgoes trivial).elim
    | reset => exact (hgoes trivial).elim
    | allocate n => exact hs.candid_allocate hcandid hrun
    | free ptr => exact hs.candid_free hcandid hrun
    | resize ptr n => exact hs.candid_resize hcandid hrun
    | store ptr start bytes => exact (hwrites trivial).elim

/-- Starting over leaves a candid heap, whatever there was before. -/
theorem Sound.candid_init (hs : s.Sound) (hafter : s.after .init = some s') :
    s'.heap.Candid s'.live := by
  rcases after_cases hafter with ⟨answer, hrun⟩ | ⟨cause, hrun⟩
  · obtain ⟨_, k, hinit, ⟨⟩⟩ := bind_eq_ok_iff.1 hrun
    intro prologue hprologue ptr hlow hptr
    exact (List.not_mem_nil
      (Heap.candid_init hs.config_eq hinit prologue hprologue ptr hlow hptr)).elim
  · exact (hs.blank_of_init_refused hrun).candid _

/-- One call of a client that writes into no payload keeps the invariant, and a candid
heap. -/
theorem Sound.candid_after (hs : s.Sound) (hcandid : s.heap.Candid s.live)
    (hwrites : ¬ call.Writes) (hafter : s.after call = some s') :
    s'.Sound ∧ s'.heap.Candid s'.live := by
  have hgoes : ∀ {call : Call}, ¬ call.Restarts → ¬ call.Writes → s.Outcome call →
      s.after call = some s' → s'.Sound ∧ s'.heap.Candid s'.live :=
    fun hgoes hwrites houtcome hafter => ⟨hs.of_outcome hgoes houtcome hafter,
      hs.candid_of_outcome hcandid hgoes hwrites houtcome hafter⟩
  cases call with
  | init => exact ⟨hs.init hafter, hs.candid_init hafter⟩
  | reset =>
    obtain rfl := Option.some.inj hafter
    exact ⟨hs.reset rfl, (Heap.blank_reset s.heap).candid _⟩
  | allocate n => exact hgoes id id (hs.allocate n) hafter
  | free ptr => exact hgoes id id (hs.free (hs.judges_of_candid hcandid ptr)) hafter
  | resize ptr n => exact hgoes id id (hs.resize (hs.judges_of_candid hcandid ptr) n) hafter
  | store ptr start bytes => exact (hwrites trivial).elim

/-! ## Runs -/

/-- The invariant holds in every session of such a client, and the heap is candid. -/
theorem Unwritten.sound {arena : Arena} {config : Config} (h : Unwritten arena config s) :
    s.Sound ∧ s.heap.Candid s.live := by
  induction h with
  | start =>
    exact ⟨Reached.start.sound, (Heap.blank_ofRegion arena config).candid _⟩
  | step _ hwrites hafter ih => exact ih.1.candid_after ih.2 hwrites hafter

theorem Unwritten.foldlM {arena : Arena} {config : Config} {calls : List Call}
    (h : Unwritten arena config s) (hwrites : ∀ call ∈ calls, ¬ call.Writes)
    (hcalls : calls.foldlM Session.after s = some s') : Unwritten arena config s' := by
  induction calls generalizing s with
  | nil =>
    obtain rfl := Option.some.inj hcalls
    exact h
  | cons call calls ih =>
    rw [List.foldlM_cons] at hcalls
    obtain ⟨s₁, hafter, hrest⟩ := Option.bind_eq_some_iff.1 hcalls
    exact ih (h.step (hwrites call List.mem_cons_self) hafter)
      (fun call' hcall' => hwrites call' (List.mem_cons_of_mem call hcall')) hrest

/-- A pointer that a call released is not live after it. -/
theorem not_live_of_released (hnodup : s.live.Nodup) (hreleases : call.Releases answer ptr) :
    ptr ∉ call.liveAfter s.live answer := by
  rcases hreleases with rfl | ⟨n, rfl, hanswer⟩
  · exact hnodup.not_mem_erase
  · rw [Call.liveAfter, List.mem_append, Option.mem_toList]
    rintro (heq | hmem)
    · exact hanswer heq
    · exact hnodup.not_mem_erase hmem

/-- In every session of a client that writes into no payload, whatever pointers it
passes, the heap takes exactly the pointers of allocated blocks for blocks, each for
its own. All others are refused without an effect, among them those that were freed or
moved and not handed out again. -/
theorem Unwritten.blocks_exact {arena : Arena} {config : Config} {prologue : Nat}
    (h : Unwritten arena config s) (hprologue : s.heap.prologue = some prologue) :
    ∃ spans rings, Consistent s.heap.lists s.heap.memory prologue spans rings ∧
      s.live.Perm ((held spans).map Span.offset) ∧
      (∀ ptr tag, s.heap.blockAt ptr = .ok tag ↔ ∃ t ∈ held spans, t.offset = ptr ∧ t.tag = tag) ∧
      (∀ ptr, ptr ≠ nullPtr → ptr ∉ s.live → s.heap.IgnoresAt ptr ∧
        ∃ cause, s.heap.payload ptr = .error cause ∧
          (cause = .invalidPointer ptr ∨ cause = .doubleFree ptr)) ∧
      ∀ (call : Call) answer ptr,
        call.Releases answer ptr → ptr ∉ call.liveAfter s.live answer := by
  obtain ⟨hs, hcandid⟩ := h.sound
  rcases hs.state with ⟨hblank, -⟩ | ⟨spans, rings, h', howns⟩
  · rw [hblank.prologue_eq] at hprologue
    cases hprologue
  · obtain rfl : s.heap.base + pairSize = prologue :=
      Option.some.inj (h'.prologue_eq.symm.trans hprologue)
    refine ⟨spans, rings, h'.consistent, howns, fun ptr tag => ⟨fun hblock => ?_, ?_⟩,
      fun ptr hptr hstray => ?_, fun call answer ptr =>
        not_live_of_released hs.payloadsApart.nodup⟩
    · by_cases hlive : ptr ∈ s.live
      · obtain ⟨t, ht, rfl⟩ := howns.exists_held hlive
        rw [Heap.blockAt_of_held h' ht] at hblock
        exact ⟨t, ht, rfl, Except.ok.inj hblock⟩
      · obtain ⟨cause, hrefused, -⟩ := blockAt_of_candid h' hcandid hlive
        rw [hrefused] at hblock
        cases hblock
    · rintro ⟨t, ht, rfl, rfl⟩
      exact Heap.blockAt_of_held h' ht
    · obtain ⟨cause, hblock, hcause⟩ := blockAt_of_candid h' hcandid hstray
      refine ⟨hs.ignoresAt hptr hblock hcause, cause, ?_, hcause⟩
      rw [Heap.payload, hblock]
      rfl

/-- Two blocks that were merged again: the second header is still in memory, and the
client passes its pointer once more. -/
theorem Unwritten.blocks_exact_of_freed :
    ∃ s, Unwritten {} { chunkSize := 128, logLevel := none } s ∧ s.heap.prologue = some 16 ∧
      s.live = [] ∧
      ∃ spans rings, Consistent s.heap.lists s.heap.memory 16 spans rings ∧
        s.live.Perm ((held spans).map Span.offset) ∧
        (∀ ptr tag, s.heap.blockAt ptr = .ok tag ↔
          ∃ t ∈ held spans, t.offset = ptr ∧ t.tag = tag) ∧
        (∀ ptr, ptr ≠ nullPtr → ptr ∉ s.live → s.heap.IgnoresAt ptr ∧
          ∃ cause, s.heap.payload ptr = .error cause ∧
            (cause = .invalidPointer ptr ∨ cause = .doubleFree ptr)) ∧
        ∀ (call : Call) answer ptr,
          call.Releases answer ptr → ptr ∉ call.liveAfter s.live answer := by
  have hrun : ([.init, .allocate 1, .allocate 1, .free 32, .free 64, .free 64].foldlM
      Session.after (Session.start {} { chunkSize := 128, logLevel := none })).map
        (fun s => (s.heap.prologue, s.live)) = some (some 16, []) := by
    decide +kernel
  obtain ⟨s, hs, hstate⟩ := Option.map_eq_some_iff.1 hrun
  have hwrites : ∀ call ∈ [.init, .allocate 1, .allocate 1, .free 32, .free 64, .free 64],
      ¬ Call.Writes call := by
    simp [Call.Writes]
  have hunwritten := Unwritten.start.foldlM hwrites hs
  have hprologue : s.heap.prologue = some 16 := congrArg Prod.fst hstate
  exact ⟨s, hunwritten, hprologue, congrArg Prod.snd hstate,
    Unwritten.blocks_exact hunwritten hprologue⟩

end Session
end SegregatedFit
