-- SUMMARY: The invariant of sessions: what each call keeps, and so every session that can be reached.
import SegregatedFit.Proofs.Client.Session
import SegregatedFit.Proofs.Heap.Founding
import SegregatedFit.Proofs.Heap.Payloads
import SegregatedFit.Proofs.Heap.Resizing

/-!
# The invariant of sessions

Between two calls a heap is blank and no pointer is live, or it is arranged and
the live pointers are those of its allocated blocks (`Sound`). A call that is
refused changes the log at most; one that is answered keeps the invariant, and
every live pointer that it does not release keeps its payload (`run_cases`).
-/
namespace SegregatedFit

open Block

/-- Resizing the null pointer is the call for an allocation. -/
theorem Call.run_resize_null (n : Nat) (h : Heap Arena) :
    Call.run (.resize nullPtr n) h = Call.run (.allocate n) h := by
  simp only [Call.run, Heap.resize_null, Action.bind_apply, Action.pure_apply]
  cases Heap.allocate n h <;> rfl

/-- The live pointers are those of the allocated ones of the blocks. -/
def Session.Owns (s : Session) (spans : List Span) : Prop :=
  s.live.Perm ((held spans).map Span.offset)

/-- The heap is right about the pointer: it is null or live, or refused. -/
def Session.Judges (s : Session) (ptr : Nat) : Prop :=
  ptr = nullPtr ∨ ptr ∈ s.live ∨ ∃ cause, s.heap.blockAt ptr = .error cause

/-- What holds of a session between two calls. -/
structure Session.Sound (s : Session) : Prop where
  config_eq : s.heap.config.normalized = s.heap.config
  state : s.heap.Blank ∧ s.live = [] ∨ ∃ spans rings, s.heap.Arranged spans rings ∧ s.Owns spans

/-- An answered call kept the invariant and the payloads that it did not release. -/
structure Session.Continues (s : Session) (call : Call) (answer : Option Nat) (heap : Heap Arena) :
    Prop where
  sound : Session.Sound ⟨heap, call.liveAfter s.live answer⟩
  keeps : ∀ q ∈ s.live, ¬ call.Releases answer q →
    q ∈ call.liveAfter s.live answer ∧ heap.payloadSize? q = s.heap.payloadSize? q ∧
      (¬ call.StoresAt q → heap.payload q = s.heap.payload q)

namespace Session

variable {s : Session} {call : Call} {answer : Option Nat} {g : Heap Arena}
variable {spans spans' gone new : List Span} {rings : Bucket → List Nat}

/-! ## From the heap to the session -/

/-- A live pointer is that of an allocated block. -/
theorem Owns.exists_held (howns : s.Owns spans) {q : Nat} (hq : q ∈ s.live) :
    ∃ u ∈ held spans, u.offset = q :=
  List.mem_map.1 (howns.mem_iff.1 hq)

theorem Owns.mem_live (howns : s.Owns spans) {u : Span} (hu : u ∈ held spans) :
    u.offset ∈ s.live :=
  howns.mem_iff.2 (List.mem_map_of_mem hu)

/-- The pointers of exchanged blocks are exchanged. -/
theorem perm_of_exchanged (hex : s.heap.Exchanged g spans spans' gone new)
    (howns : s.Owns spans) :
    (gone.map Span.offset ++ (held spans').map Span.offset).Perm
      (new.map Span.offset ++ s.live) := by
  have hperm := hex.perm.map Span.offset
  rw [List.map_append, List.map_append] at hperm
  exact hperm.trans (howns.symm.append_left _)

theorem perm_of_freed {u : Span} (hex : s.heap.Exchanged g spans spans' [u] [])
    (howns : s.Owns spans) :
    (s.live.erase u.offset).Perm ((held spans').map Span.offset) := by
  have hperm := (perm_of_exchanged hex howns).erase u.offset
  simpa using hperm.symm

theorem perm_of_moved {u t : Span} (hex : s.heap.Exchanged g spans spans' [u] [t])
    (howns : s.Owns spans) (hne : t.offset ≠ u.offset) :
    (t.offset :: s.live.erase u.offset).Perm ((held spans').map Span.offset) := by
  have hperm := (perm_of_exchanged hex howns).erase u.offset
  simpa [List.erase_cons_tail, hne] using hperm.symm

/-- A call that exchanges blocks, where those that are gone were released by it. -/
theorem continues_of_exchanged (hconfig : s.heap.config.normalized = s.heap.config)
    (h' : s.heap.Arranged spans rings) (howns : s.Owns spans)
    (hex : s.heap.Exchanged g spans spans' gone new)
    (howns' : Owns ⟨g, call.liveAfter s.live answer⟩ spans')
    (hgone : ∀ u ∈ gone, call.Releases answer u.offset) : s.Continues call answer g := by
  obtain ⟨rings', g'⟩ := hex.arranged
  refine ⟨⟨hex.config_eq.symm ▸ hconfig, Or.inr ⟨spans', rings', g', howns'⟩⟩, ?_⟩
  intro q hq hkeep
  obtain ⟨u, hu, rfl⟩ := howns.exists_held hq
  have hstays : u ∉ gone := fun hmem => hkeep (hgone u hmem)
  obtain ⟨hsize, hpayload⟩ := hex.payload_eq h' hu hstays
  exact ⟨howns'.mem_live (hex.stays_held hu hstays), hsize, fun _ => hpayload⟩

/-! ## One call -/

/-- What a call that does not start over can end in. -/
def Outcome (s : Session) (call : Call) : Prop :=
  (∃ cause events, call.run s.heap = .error (.refused cause) (s.heap.loggedAll events)) ∨
  (∃ trap g, call.run s.heap = .error (.trapped trap) g) ∨
  (∃ answer g, call.run s.heap = .ok answer g ∧ s.Continues call answer g)

theorem Sound.allocate (hs : s.Sound) (n : Nat) : s.Outcome (.allocate n) := by
  rcases hs.state with ⟨hblank, hlive⟩ | ⟨spans, rings, h', howns⟩
  · refine Or.inl ⟨.uninitialized, [], ?_⟩
    simp only [Call.run, Action.bind_apply, Heap.allocate_uninitialized hblank.prologue_eq]
    rfl
  · rcases Heap.allocate_cases h' hs.config_eq n with
      ⟨cause, events, hrun⟩ | ⟨trap, g, hrun⟩ | ⟨g, spans', t, hrun, hex, -⟩
    · refine Or.inl ⟨cause, events, ?_⟩
      simp only [Call.run, Action.bind_apply, hrun]
    · refine Or.inr (Or.inl ⟨trap, g, ?_⟩)
      simp only [Call.run, Action.bind_apply, hrun]
    · refine Or.inr (Or.inr ⟨some t.offset, g, ?_, ?_⟩)
      · simp only [Call.run, Action.bind_apply, hrun, Action.pure_apply]
      · refine continues_of_exchanged hs.config_eq h' howns hex ?_ fun u hu => by cases hu
        exact (perm_of_exchanged hex howns).symm

theorem Sound.base_le (hs : s.Sound) (hinit : s.heap.isInitialized = true) :
    s.heap.base ≤ s.heap.region.memory.size := by
  rcases hs.state with ⟨hblank, -⟩ | ⟨spans, rings, h', -⟩
  · exact hblank.base_le hinit
  · exact Nat.le_trans (Nat.le_add_right _ _) h'.base_le

/-- The heap is right about every pointer that no heap takes for a block. -/
theorem Sound.judges_of_foreign (hs : s.Sound) {ptr : Nat}
    (hptr : ptr = nullPtr ∨ ptr ∈ s.live ∨ s.heap.Foreign ptr) : s.Judges ptr := by
  refine hptr.imp_right fun hptr => hptr.imp_right fun hforeign => ?_
  rcases hs.state with ⟨hblank, -⟩ | ⟨spans, rings, h', -⟩
  · exact ⟨_, Heap.blockAt_uninitialized hblank.prologue_eq ptr⟩
  · exact ⟨_, Heap.blockAt_foreign h' hforeign⟩

/-- The live pointers of an arranged heap are those of its allocated blocks. -/
theorem Sound.owns_of_arranged (hs : s.Sound) (h' : s.heap.Arranged spans rings) :
    s.Owns spans := by
  rcases hs.state with ⟨hblank, -⟩ | ⟨spans', rings', h'', howns⟩
  · cases hblank.prologue_eq.symm.trans h'.prologue_eq
  · exact h''.row.unique h'.row ▸ howns

/-- A live pointer is that of an allocated block of an arranged heap. -/
theorem Sound.exists_held (hs : s.Sound) {ptr : Nat} (hptr : ptr ∈ s.live) :
    ∃ spans rings u, s.heap.Arranged spans rings ∧ s.Owns spans ∧ u ∈ held spans ∧
      u.offset = ptr := by
  rcases hs.state with ⟨-, hlive⟩ | ⟨spans, rings, h', howns⟩
  · rw [hlive] at hptr
    cases hptr
  · obtain ⟨u, hu, hoff⟩ := howns.exists_held hptr
    exact ⟨spans, rings, u, h', howns, hu, hoff⟩

theorem Sound.null_not_live (hs : s.Sound) : nullPtr ∉ s.live := by
  intro hnull
  obtain ⟨spans, rings, u, h', -, hu, hoff⟩ := hs.exists_held hnull
  exact Heap.ne_null_of_held h' hu hoff

/-- A call that only logged something. -/
theorem Sound.continues_of_logged (hs : s.Sound) (event : Event)
    (hlive : call.liveAfter s.live answer = s.live) :
    s.Continues call answer (s.heap.logged event) := by
  rcases hs.state with ⟨hblank, hnone⟩ | ⟨spans, rings, h', howns⟩
  · refine ⟨⟨hs.config_eq, Or.inl ⟨hblank.logged event, hlive.trans hnone⟩⟩, ?_⟩
    intro q hq
    rw [hnone] at hq
    cases hq
  · refine continues_of_exchanged hs.config_eq h' howns ((h'.exchanged []).logged event) ?_
      fun u hu => by cases hu
    rw [Owns, hlive]
    exact howns

theorem Sound.free (hs : s.Sound) {ptr : Nat} (hptr : s.Judges ptr) :
    s.Outcome (.free ptr) := by
  by_cases hnull : ptr = nullPtr
  · refine Or.inr (Or.inr ⟨none, s.heap.logged .freedNull, ?_, hs.continues_of_logged _ ?_⟩)
    · simp only [Call.run, hnull, Action.bind_apply, Heap.free_null hs.base_le, Action.pure_apply]
    · exact List.erase_of_not_mem (hnull ▸ hs.null_not_live)
  · rcases hptr.resolve_left hnull with hlive | ⟨cause, hblock⟩
    · obtain ⟨spans, rings, u, h', howns, hu, rfl⟩ := hs.exists_held hlive
      obtain ⟨g, spans', hrun, hex⟩ := Heap.free_of_held h' hu
      refine Or.inr (Or.inr ⟨none, g, ?_, ?_⟩)
      · simp only [Call.run, Action.bind_apply, hrun, Action.pure_apply]
      · refine continues_of_exchanged hs.config_eq h' howns hex (perm_of_freed hex howns) ?_
        intro v hv
        obtain rfl := List.mem_singleton.1 hv
        exact Or.inl rfl
    · refine Or.inl ⟨cause, [.freeRefused ptr cause], ?_⟩
      simp only [Call.run, Action.bind_apply, Heap.free_of_refused hs.base_le hnull hblock]
      rfl

theorem Sound.liveAfter_resize_null (hs : s.Sound) (n : Nat) (answer : Option Nat) :
    Call.liveAfter s.live (.resize nullPtr n) answer =
      Call.liveAfter s.live (.allocate n) answer := by
  simp only [Call.liveAfter, List.erase_of_not_mem hs.null_not_live]

theorem Sound.resize (hs : s.Sound) {ptr : Nat} (hptr : s.Judges ptr) (n : Nat) :
    s.Outcome (.resize ptr n) := by
  by_cases hnull : ptr = nullPtr
  · -- this is the call for an allocation
    subst hnull
    have hrun := Call.run_resize_null n s.heap
    have hafter := hs.liveAfter_resize_null n
    rcases hs.allocate n with hrefused | htrapped | ⟨answer, g, hok, hcontinues⟩
    · exact Or.inl (hrun ▸ hrefused)
    · exact Or.inr (Or.inl (hrun ▸ htrapped))
    · refine Or.inr (Or.inr ⟨answer, g, hrun ▸ hok, hafter answer ▸ hcontinues.sound, ?_⟩)
      intro q hq _
      obtain ⟨hmem, hsize, hpayload⟩ := hcontinues.keeps q hq (by simp [Call.Releases])
      exact ⟨hafter answer ▸ hmem, hsize, fun _ => hpayload (by simp [Call.StoresAt])⟩
  · rcases hptr.resolve_left hnull with hlive | ⟨cause, hblock⟩
    · obtain ⟨spans, rings, u, h', howns, hu, rfl⟩ := hs.exists_held hlive
      by_cases hn : n = 0
      · obtain ⟨g, spans', -, hrun, hex⟩ := Heap.resize_zero_of_held h' hu
        refine Or.inr (Or.inr ⟨none, _, hn ▸ hrun, ?_⟩)
        refine continues_of_exchanged hs.config_eq h' howns hex (perm_of_freed hex howns) ?_
        intro v hv
        obtain rfl := List.mem_singleton.1 hv
        exact Or.inr ⟨n, rfl, by simp⟩
      · rcases Heap.resize_cases h' hs.config_eq hu hn with
          hrefused | htrapped | ⟨g, hrun, hex⟩ | ⟨g, spans', t, hrun, hex, hnew⟩
        · exact Or.inl hrefused
        · exact Or.inr (Or.inl htrapped)
        · refine Or.inr (Or.inr ⟨some u.offset, g, hrun, ?_⟩)
          refine continues_of_exchanged hs.config_eq h' howns hex ?_ fun v hv => by cases hv
          exact (List.perm_cons_erase hlive).symm.trans howns
        · refine Or.inr (Or.inr ⟨some t.offset, g, hrun, ?_⟩)
          refine continues_of_exchanged hs.config_eq h' howns hex
            (perm_of_moved hex howns (hnew u hu)) ?_
          intro v hv
          obtain rfl := List.mem_singleton.1 hv
          exact Or.inr ⟨n, rfl, fun heq => hnew v hu (Option.some.inj heq)⟩
    · obtain ⟨events, hrun, -⟩ := Heap.resize_of_refused hs.base_le hnull hblock n
      exact Or.inl ⟨cause, events, hrun⟩

/-- A write through a live pointer is answered, and edits the payload of its block. -/
theorem Sound.run_store (hs : s.Sound) {ptr : Nat} (hlive : ptr ∈ s.live) (start : Nat)
    (bytes : List UInt8) :
    ∃ spans rings u m, s.heap.Arranged spans rings ∧ s.Owns spans ∧ u ∈ held spans ∧
      u.offset = ptr ∧ s.heap.region.memory.Edited m u.InPayload ∧
      Call.run (.store ptr start bytes) s.heap = .ok none (s.heap.withLists s.heap.lists m) := by
  obtain ⟨spans, rings, u, h', howns, hu, rfl⟩ := hs.exists_held hlive
  obtain ⟨k, m, hrun, hedit⟩ := Heap.writePayload_of_held h' hu start bytes
  refine ⟨spans, rings, u, m, h', howns, hu, rfl, hedit, ?_⟩
  simp only [Call.run, Action.bind_apply, hrun, Action.pure_apply]

theorem Sound.store (hs : s.Sound) {ptr : Nat} (hlive : ptr ∈ s.live) (start : Nat)
    (bytes : List UInt8) : s.Outcome (.store ptr start bytes) := by
  obtain ⟨spans, rings, u, m, h', howns, hu, rfl, hedit, hrun⟩ := hs.run_store hlive start bytes
  have g' := h'.edited_payload hu hedit
  refine Or.inr (Or.inr ⟨none, s.heap.withLists s.heap.lists m, hrun,
    ⟨hs.config_eq, Or.inr ⟨spans, rings, g', howns⟩⟩, fun q hq _ => ?_⟩)
  obtain ⟨v, hv, rfl⟩ := howns.exists_held hq
  refine ⟨hq, ?_, fun hstores => Heap.payload_eq_of_edited h' hu hedit hv fun heq => ?_⟩
  · rw [Heap.payloadSize?_of_held g' hv, Heap.payloadSize?_of_held h' hv]
  · exact hstores ⟨start, bytes, by rw [heq]⟩

/-- A call that does not start over is refused and changes the log at most, or is
trapped, or keeps the invariant and what it does not release. -/
theorem Sound.run_cases (hs : s.Sound) (hallows : s.Allows call) (hgoes : ¬ call.Restarts) :
    s.Outcome call := by
  cases call with
  | init => exact (hgoes trivial).elim
  | reset => exact (hgoes trivial).elim
  | allocate n => exact hs.allocate n
  | free ptr => exact hs.free (hs.judges_of_foreign hallows)
  | resize ptr n => exact hs.resize (hs.judges_of_foreign hallows) n
  | store ptr start bytes => exact hs.store hallows start bytes

/-! ## Answered calls -/

/-- A heap that answers an allocation is arranged. -/
theorem Sound.arranged_of_allocated {n p : Nat} (hs : s.Sound)
    (hrun : Heap.allocate n s.heap = .ok p g) : ∃ spans rings, s.heap.Arranged spans rings := by
  rcases hs.state with ⟨hblank, -⟩ | ⟨spans, rings, h', -⟩
  · rw [Heap.allocate_uninitialized hblank.prologue_eq] at hrun
    cases hrun
  · exact ⟨spans, rings, h'⟩

/-- An answered free was one of nothing, or of a block. -/
theorem Sound.freed_cases {ptr : Nat} (hs : s.Sound) (hptr : s.Judges ptr)
    (hrun : Call.run (.free ptr) s.heap = .ok answer g) :
    ptr = nullPtr ∧ g = s.heap.logged .freedNull ∨
    ∃ spans rings u, s.heap.Arranged spans rings ∧ u ∈ held spans ∧ u.offset = ptr ∧
      Heap.free u.offset s.heap = .ok () g := by
  obtain ⟨_, k, hfree, ⟨⟩⟩ := Action.bind_eq_ok_iff.1 hrun
  by_cases hnull : ptr = nullPtr
  · subst hnull
    rw [Heap.free_null hs.base_le] at hfree
    cases hfree
    exact Or.inl ⟨rfl, rfl⟩
  · rcases hptr.resolve_left hnull with hlive | ⟨cause, hblock⟩
    · obtain ⟨spans, rings, u, h', -, hu, rfl⟩ := hs.exists_held hlive
      exact Or.inr ⟨spans, rings, u, h', hu, rfl, hfree⟩
    · rw [Heap.free_of_refused hs.base_le hnull hblock] at hfree
      cases hfree

/-- An answered resize of a pointer that is not null freed its block, or resized it to
something. -/
theorem Sound.resized_cases {ptr n : Nat} (hs : s.Sound) (hptr : s.Judges ptr)
    (hnull : ptr ≠ nullPtr) (hrun : Call.run (.resize ptr n) s.heap = .ok answer g) :
    ∃ spans rings u, s.heap.Arranged spans rings ∧ s.Owns spans ∧ u ∈ held spans ∧
      u.offset = ptr ∧
      (answer = none ∧ (∃ k, Heap.free u.offset s.heap = .ok () k ∧
          g = k.logged (.resizedToNothing u.offset)) ∨
        n ≠ 0 ∧ Heap.resize u.offset n s.heap = .ok answer g) := by
  rcases hptr.resolve_left hnull with hlive | ⟨cause, hblock⟩
  · obtain ⟨spans, rings, u, h', howns, hu, rfl⟩ := hs.exists_held hlive
    refine ⟨spans, rings, u, h', howns, hu, rfl, ?_⟩
    by_cases hn : n = 0
    · obtain ⟨k, spans', hfree, hresize, -⟩ := Heap.resize_zero_of_held h' hu
      rw [hn, Call.run, hresize] at hrun
      cases hrun
      exact Or.inl ⟨rfl, k, hfree, rfl⟩
    · exact Or.inr ⟨hn, hrun⟩
  · obtain ⟨events, hrefused, -⟩ := Heap.resize_of_refused hs.base_le hnull hblock n
    rw [Call.run, hrefused] at hrun
    cases hrun

/-! ## Runs -/

/-- The log has no part in the invariant. -/
theorem Sound.loggedAll (hs : s.Sound) (events : List Event) :
    Sound ⟨s.heap.loggedAll events, s.live⟩ := by
  induction events generalizing s with
  | nil => exact hs
  | cons event events ih =>
    refine ih (s := ⟨s.heap.logged event, s.live⟩) ⟨hs.config_eq, ?_⟩
    rcases hs.state with ⟨hblank, hlive⟩ | ⟨spans, rings, h', howns⟩
    · exact Or.inl ⟨hblank.logged event, hlive⟩
    · exact Or.inr ⟨spans, rings, h'.logged event, howns⟩

/-- A heap that was just laid out has no allocated blocks, for no live pointers. -/
theorem sound_of_founds {h : Heap Arena} (hfounds : h.Founds g)
    (hconfig : h.config.normalized = h.config) : Sound ⟨g, []⟩ := by
  obtain ⟨rings, g'⟩ := hfounds.founded.arranged
  exact ⟨hfounds.config_eq.symm ▸ hconfig, Or.inr ⟨_, rings, g', List.Perm.refl _⟩⟩

/-- A heap that could not be laid out is blank. -/
theorem Sound.blank_of_init_refused (hs : s.Sound) {cause : HeapError}
    (hrun : Call.run .init s.heap = .error (.refused cause) g) : g.Blank := by
  obtain hinit | ⟨_, k, -, ⟨⟩⟩ := Action.bind_eq_error_iff.1 hrun
  exact (Heap.blank_of_init hs.config_eq hinit).1

/-- Starting over leaves a blank heap, or one without allocated blocks. -/
theorem Sound.init {s' : Session} (hs : s.Sound) (hafter : s.after .init = some s') :
    s'.Sound := by
  rcases Heap.init_cases hs.config_eq with
    ⟨cause, g, hrun, hblank, hconfig⟩ | ⟨trap, g, hrun⟩ | ⟨g, hrun, hfounds⟩
  · simp only [Session.after, Call.run, Action.bind_apply, hrun, Option.some.injEq] at hafter
    subst hafter
    exact ⟨hconfig.symm ▸ hs.config_eq, Or.inl ⟨hblank, rfl⟩⟩
  · simp only [Session.after, Call.run, Action.bind_apply, hrun, reduceCtorEq] at hafter
  · simp only [Session.after, Call.run, Action.bind_apply, hrun, Action.pure_apply,
      Option.some.injEq] at hafter
    subst hafter
    exact sound_of_founds hfounds hs.config_eq

/-- A call that does not start over keeps the invariant, whichever way it ends. -/
theorem Sound.of_outcome {s' : Session} (hs : s.Sound) (hgoes : ¬ call.Restarts)
    (houtcome : s.Outcome call) (hafter : s.after call = some s') : s'.Sound := by
  rcases houtcome with
    ⟨cause, events, hrun⟩ | ⟨trap, g, hrun⟩ | ⟨answer, g, hrun, hcontinues⟩
  · simp only [Session.after, hrun, Call.liveRefused_of_not_restarts hgoes,
      Option.some.injEq] at hafter
    subst hafter
    exact hs.loggedAll events
  · simp only [Session.after, hrun, reduceCtorEq] at hafter
  · simp only [Session.after, hrun, Option.some.injEq] at hafter
    subst hafter
    exact hcontinues.sound

/-- Emptying the region leaves a blank heap. -/
theorem Sound.reset {s' : Session} (hs : s.Sound) (hafter : s.after .reset = some s') :
    s'.Sound := by
  obtain rfl := Option.some.inj hafter
  exact ⟨hs.config_eq, Or.inl ⟨Heap.blank_reset s.heap, rfl⟩⟩

/-- One call keeps the invariant. -/
theorem Sound.after {s' : Session} (hs : s.Sound) (hallows : s.Allows call)
    (hafter : s.after call = some s') : s'.Sound := by
  by_cases hrestarts : call.Restarts
  · cases call with
    | init => exact hs.init hafter
    | reset => exact hs.reset hafter
    | allocate n => exact hrestarts.elim
    | free ptr => exact hrestarts.elim
    | resize ptr n => exact hrestarts.elim
    | store ptr start bytes => exact hrestarts.elim
  · exact hs.of_outcome hrestarts (hs.run_cases hallows hrestarts) hafter

/-- The invariant holds in every session that can be reached. -/
theorem Reached.sound {arena : Arena} {config : Config} (h : Reached arena config s) :
    s.Sound := by
  induction h with
  | start => exact ⟨config.normalized_normalized, Or.inl ⟨Heap.blank_ofRegion arena config, rfl⟩⟩
  | step _ hallows hafter ih => exact ih.after hallows hafter

/-- A heap that is laid out is arranged, and the live pointers are those of its blocks. -/
theorem Reached.exists_arranged {arena : Arena} {config : Config} {prologue : Nat}
    (h : Reached arena config s) (hprologue : s.heap.prologue = some prologue) :
    ∃ spans rings, s.heap.Arranged spans rings ∧ s.Owns spans ∧
      prologue = s.heap.base + pairSize := by
  rcases h.sound.state with ⟨hblank, -⟩ | ⟨spans, rings, h', howns⟩
  · rw [hblank.prologue_eq] at hprologue
    cases hprologue
  · rw [h'.prologue_eq] at hprologue
    exact ⟨spans, rings, h', howns, (Option.some.inj hprologue).symm⟩

/-- In every session that can be reached, a heap that is laid out is a row of
blocks between its prologue and its epilogue, no two free ones next to one
another, with exactly the free ones in the rings of their sizes, and exactly the
allocated ones live. -/
theorem Reached.heap_consistent {arena : Arena} {config : Config} {prologue : Nat}
    (h : Reached arena config s) (hprologue : s.heap.prologue = some prologue) :
    ∃ spans rings, Consistent s.heap.lists s.heap.memory prologue spans rings ∧
      s.live.Perm ((held spans).map Span.offset) := by
  rcases h.sound.state with ⟨hblank, -⟩ | ⟨spans, rings, h', howns⟩
  · rw [hblank.prologue_eq] at hprologue
    cases hprologue
  · rw [h'.prologue_eq] at hprologue
    obtain rfl := Option.some.inj hprologue
    exact ⟨spans, rings, h'.consistent, howns⟩

/-- A heap of chunks of 64 bytes after one allocation. -/
theorem Reached.heap_consistent_of_allocated :
    ∃ s, Reached {} { chunkSize := 64, logLevel := none } s ∧ s.heap.prologue = some 16 ∧
      s.live = [32] ∧
      ∃ spans rings, Consistent s.heap.lists s.heap.memory 16 spans rings ∧
        s.live.Perm ((held spans).map Span.offset) := by
  have hrun : ((Session.start {} { chunkSize := 64, logLevel := none }).afterAll
      [.init, .allocate 20]).map (fun s => (s.heap.prologue, s.live)) =
      some (some 16, [32]) := by
    decide +kernel
  obtain ⟨s, hs, hstate⟩ := Option.map_eq_some_iff.1 hrun
  have hreached := Reached.start.afterAll hs
  have hprologue : s.heap.prologue = some 16 := congrArg Prod.fst hstate
  exact ⟨s, hreached, hprologue, congrArg Prod.snd hstate,
    Reached.heap_consistent hreached hprologue⟩

end Session
end SegregatedFit
