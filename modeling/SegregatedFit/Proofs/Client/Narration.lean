-- SUMMARY: A log of every event replays what its client did to the heap.
import SegregatedFit.Proofs.Client.Invariant
import SegregatedFit.Proofs.Heap.Narrating

/-!
# Narration

A heap that keeps every event logs all that a reader needs to know which blocks are
allocated. From the record of its layout on, a replay of the records goes through and ends
with the live pointers; each record of an allocation or a free has the figures of the
blocks at that point, in the middle of a resize as well; and the last record of a
call has those that the heap has when the call is over. Main statement: `Unbroken.narrated`.
-/
namespace SegregatedFit

open Block

namespace Session

/-- The sessions that a well-behaved client reaches from this one without starting over. -/
inductive Unbroken (s : Session) : Session → Prop
  | refl : Unbroken s s
  | step {t t' : Session} {call : Call} :
    Unbroken s t → t.Allows call → ¬ call.Restarts → t.after call = some t' → Unbroken s t'

/-- If records were added from one session to the other, the last of them has the figures
that the statistics have in the end. -/
def Closes (s s' : Session) : Prop :=
  ∃ emitted, s'.heap.log.records.toList = s.heap.log.records.toList ++ emitted ∧
    ∀ last, emitted.getLast? = some last → ∃ stats, s'.heap.stats = .ok stats ∧
      last.snapshot = ⟨stats.heapSize, stats.freeBytes, stats.allocatedBlocks⟩

/-- The log of the session is a story of its heap: `laid` is the record of the layout, and
`later` are the records after it, from which one can keep the ledger. -/
structure Narrated (s : Session) (earlier : List Record) (laid : Record) (later : List Record)
    (ledger : Ledger) : Prop where
  records_eq : s.heap.log.records.toList = earlier ++ laid :: later
  /-- No pointer is handed out that is live, or freed that is not. -/
  replayed : Event.replayAll? [] (later.map Record.event) = some ledger.pointers
  live : ledger.pointers.Perm s.live
  /-- The records of allocations and frees have the figures of the ledger at that point. -/
  tells : Ledger.Tells [] later ledger
  sizes : ∀ p size, (p, size) ∈ ledger → s.heap.blockAt p = .ok ⟨size, true⟩
  closes : ∀ call s', s.Allows call → ¬ call.Restarts → s.after call = some s' → s.Closes s'

variable {s s' t : Session} {call : Call} {answer : Option Nat} {cause : HeapError}
variable {h g : Heap Arena} {n ptr : Nat}

/-! ## Refused calls -/

theorem Sound.reports_allocate_refused (hs : s.Sound)
    (hrun : Call.run (.allocate n) s.heap = .error (.refused cause) g) : s.heap.Reports g := by
  obtain hallocate | ⟨p, k, -, ⟨⟩⟩ := Action.bind_eq_error_iff.1 hrun
  rcases hs.state with ⟨hblank, -⟩ | ⟨spans, rings, h', -⟩
  · rw [Heap.allocate_uninitialized hblank.prologue_eq] at hallocate
    cases hallocate
    exact .refl s.heap
  · exact Heap.reports_allocate_refused h' hs.config_eq hallocate

/-- A pointer that cannot be freed is live for no one. -/
theorem Sound.reports_free_refused (hs : s.Sound) (hptr : s.Judges ptr)
    (hrun : Call.run (.free ptr) s.heap = .error (.refused cause) g) : s.heap.Reports g := by
  obtain hfree | ⟨_, k, -, ⟨⟩⟩ := Action.bind_eq_error_iff.1 hrun
  by_cases hnull : ptr = nullPtr
  · rw [hnull, Heap.free_null hs.base_le] at hfree
    cases hfree
  rcases hptr.resolve_left hnull with hlive | ⟨cause', hblock⟩
  · obtain ⟨spans, rings, u, h', -, hu, rfl⟩ := hs.exists_held hlive
    obtain ⟨k, spans', hok, -⟩ := Heap.free_of_held h' hu
    rw [hok] at hfree
    cases hfree
  · rw [Heap.free_of_refused hs.base_le hnull hblock] at hfree
    cases hfree
    exact (Heap.Narrates.refl s.heap).logged (by simp [Event.books_iff])

theorem Sound.reports_resize_refused (hs : s.Sound) (hptr : s.Judges ptr)
    (hrun : Call.run (.resize ptr n) s.heap = .error (.refused cause) g) : s.heap.Reports g := by
  by_cases hnull : ptr = nullPtr
  · subst hnull
    exact hs.reports_allocate_refused (Call.run_resize_null n s.heap ▸ hrun)
  rcases hptr.resolve_left hnull with hlive | ⟨cause', hblock⟩
  · obtain ⟨spans, rings, u, h', -, hu, rfl⟩ := hs.exists_held hlive
    exact Heap.reports_resize_refused h' hs.config_eq hu hrun
  · obtain ⟨events, hrefused, hevents⟩ := Heap.resize_of_refused hs.base_le hnull hblock n
    rw [Call.run, hrefused] at hrun
    cases hrun
    exact Heap.reports_loggedAll hevents s.heap

theorem Sound.reports_refused (hs : s.Sound) (hallows : s.Allows call) (hgoes : ¬ call.Restarts)
    (hrun : call.run s.heap = .error (.refused cause) g) : s.heap.Reports g := by
  cases call with
  | init => exact (hgoes trivial).elim
  | reset => exact (hgoes trivial).elim
  | allocate n => exact hs.reports_allocate_refused hrun
  | free ptr => exact hs.reports_free_refused (hs.judges_of_foreign hallows) hrun
  | resize ptr n => exact hs.reports_resize_refused (hs.judges_of_foreign hallows) hrun
  | store ptr start bytes =>
    obtain ⟨-, -, -, m, -, -, -, -, -, hstore⟩ := hs.run_store hallows start bytes
    rw [hstore] at hrun
    cases hrun

/-! ## Answered calls -/

theorem Sound.reports_allocate (hs : s.Sound)
    (hrun : Call.run (.allocate n) s.heap = .ok answer g) : s.heap.Reports g := by
  obtain ⟨p, k, hallocate, ⟨⟩⟩ := Action.bind_eq_ok_iff.1 hrun
  obtain ⟨spans, rings, h'⟩ := hs.arranged_of_allocated hallocate
  exact Heap.reports_allocate h' hs.config_eq hallocate

theorem Sound.reports_answered (hs : s.Sound) (hallows : s.Allows call) (hgoes : ¬ call.Restarts)
    (hrun : call.run s.heap = .ok answer g) : s.heap.Reports g := by
  cases call with
  | init => exact (hgoes trivial).elim
  | reset => exact (hgoes trivial).elim
  | allocate n => exact hs.reports_allocate hrun
  | free ptr =>
    rcases hs.freed_cases (hs.judges_of_foreign hallows) hrun with
      ⟨-, rfl⟩ | ⟨spans, rings, u, h', hu, rfl, hfree⟩
    · exact (Heap.Narrates.refl s.heap).logged (by simp [Event.books_iff])
    · exact Heap.reports_free h' hu hfree
  | resize ptr n =>
    by_cases hnull : ptr = nullPtr
    · subst hnull
      exact hs.reports_allocate (Call.run_resize_null n s.heap ▸ hrun)
    · obtain ⟨spans, rings, u, h', -, hu, rfl, ⟨-, k, hfree, rfl⟩ | ⟨hn, hresize⟩⟩ :=
        hs.resized_cases (hs.judges_of_foreign hallows) hnull hrun
      · exact (Heap.reports_free h' hu hfree).toNarrates.logged (by simp [Event.books_iff])
      · exact Heap.reports_resize h' hs.config_eq hu hn hresize
  | store ptr start bytes =>
    obtain ⟨spans, rings, u, m, h', -, hu, rfl, hedit, hstore⟩ :=
      hs.run_store hallows start bytes
    rw [hstore] at hrun
    cases hrun
    exact ⟨Heap.narrates_of_edited h' hu hedit, Or.inl rfl⟩

/-! ## Runs -/

/-- One call, whichever way it ends. -/
theorem Sound.reports (hs : s.Sound) (hallows : s.Allows call) (hgoes : ¬ call.Restarts)
    (hafter : s.after call = some s') : s.heap.Reports s'.heap := by
  rcases after_cases hafter with ⟨answer, hrun⟩ | ⟨cause, hrun⟩
  · exact hs.reports_answered hallows hgoes hrun
  · exact hs.reports_refused hallows hgoes hrun

/-- One call after another, they tell one story. -/
theorem Unbroken.narrates (hrun : Unbroken s t) (hs : s.Sound) :
    t.Sound ∧ s.heap.Narrates t.heap := by
  induction hrun with
  | refl => exact ⟨hs, .refl s.heap⟩
  | step _ hallows hgoes hafter ih =>
    obtain ⟨ht, hnarrates⟩ := ih
    exact ⟨ht.after hallows hafter,
      hnarrates.trans (ht.reports hallows hgoes hafter).toNarrates⟩

theorem Unbroken.afterAll {calls : List Call} (hrun : Unbroken s t)
    (hgoes : ∀ call ∈ calls, ¬ call.Restarts) (hcalls : t.afterAll calls = some s') :
    Unbroken s s' := by
  induction calls generalizing t with
  | nil =>
    obtain rfl := Option.some.inj hcalls
    exact hrun
  | cons call calls ih =>
    obtain ⟨hcall, hrest⟩ := List.forall_mem_cons.1 hgoes
    obtain ⟨hallows, t', hafter, hrest'⟩ := afterAll_cons_iff.1 hcalls
    exact ih (hrun.step hallows hcall hafter) hrest hrest'

/-- Every session without a break since its heap was laid out is narrated by its log, if the
log keeps every event. The settings are normalized, as those of every heap that was made
are; what the heap was like before it was laid out does not matter. -/
theorem Unbroken.narrated (hconfig : h.config.normalized = h.config)
    (htrace : h.log.threshold = some .trace) (hinit : Heap.init h = .ok () g)
    (hrun : Unbroken ⟨g, []⟩ s) :
    ∃ earlier laid later ledger, g.log.records.toList = earlier ++ [laid] ∧
      laid.event.name = "init" ∧ s.Narrated earlier laid later ledger := by
  have hfounds := Heap.founds_of_init hconfig hinit
  obtain ⟨hstart, hlisted, earlier, laid, hlaid, hname⟩ := hfounds.begins htrace
  obtain ⟨hs, hnarrates⟩ := hrun.narrates (sound_of_founds hfounds hconfig)
  have hkeeps : s.heap.log.threshold = some .trace := hnarrates.threshold_eq.trans hstart
  obtain ⟨later, ledger, hlater, ⟨spans, rings, h', hlists⟩, htells⟩ :=
    hnarrates.told hstart [] hlisted
  refine ⟨earlier, laid, later, ledger, hlaid, hname, ?_⟩
  exact {
    records_eq := by
      rw [hlater, hlaid, List.append_assoc]
      rfl
    replayed := (htells.replayAll?_eq List.nodup_nil).1
    live := hlists.pointers_perm.trans (hs.owns_of_arranged h').symm
    tells := htells
    sizes := fun p size hmem => by
      obtain ⟨u, hu, ⟨⟩⟩ := List.mem_map.1 (hlists.mem_iff.1 hmem)
      rw [Heap.blockAt_of_held h' hu, Span.tag, (mem_held.1 hu).2]
    closes := fun call s' hallows hgoes hafter => by
      have hreports := hs.reports hallows hgoes hafter
      obtain ⟨emitted, after, hemitted, ⟨spans', rings', g', -⟩, -⟩ :=
        hreports.told hkeeps ledger ⟨spans, rings, h', hlists⟩
      exact ⟨emitted, hemitted, fun last hlast =>
        hreports.exists_stats hkeeps g' hemitted hlast⟩ }

/-- A block that is moved, and two calls that are refused. -/
theorem Unbroken.narrated_of_moved :
    ∃ h g s, h.config.normalized = h.config ∧ h.log.threshold = some .trace ∧
      Heap.init h = .ok () g ∧ Unbroken ⟨g, []⟩ s ∧ s.live = [96] ∧
      ∃ earlier laid later ledger, g.log.records.toList = earlier ++ [laid] ∧
        laid.event.name = "init" ∧ s.Narrated earlier laid later ledger := by
  let h : Heap Arena := .ofRegion {} { chunkSize := 64, logLevel := some .trace }
  have hconfig : h.config.normalized = h.config := Config.normalized_normalized _
  have hrun : (match Heap.init h with
      | .ok _ g => (Session.afterAll ⟨g, []⟩
          [.allocate 20, .resize 32 100, .allocate 0, .free 97]).map Session.live
      | .error _ _ => none) = some [96] := by
    decide +kernel
  split at hrun
  case h_1 g hinit =>
    obtain ⟨s, hs, hlive⟩ := Option.map_eq_some_iff.1 hrun
    have hunbroken : Unbroken ⟨g, []⟩ s := Unbroken.refl.afterAll (by simp [Call.Restarts]) hs
    exact ⟨h, g, s, hconfig, rfl, hinit, hunbroken, hlive,
      Unbroken.narrated hconfig rfl hinit hunbroken⟩
  case h_2 => cases hrun

end Session
end SegregatedFit
