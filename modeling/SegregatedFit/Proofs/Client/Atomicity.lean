-- SUMMARY: Refused calls: they change nothing but the log, and all live blocks stay as they were.
import SegregatedFit.Proofs.Client.Invariant

/-!
# Refused calls

A call that is refused, at whatever point, leaves the heap as it found it, but for
further records in the log (`Heap.Untouched`). What could be refused late, after
the first change, is not refused in a session that can be reached: by then the
invariant has the answer. Main statement: `Reached.refused_atomic`.
-/
namespace SegregatedFit

/-- `g` is `h`, but for further records in its log. -/
structure Heap.Untouched (h g : Heap Arena) : Prop where
  /-- The bytes with their number, the limit, and how often the arena grew. -/
  region_eq : g.region = h.region
  lists_eq : g.lists = h.lists
  config_eq : g.config = h.config
  base_eq : g.base = h.base
  prologue_eq : g.prologue = h.prologue
  counters_eq : g.counters = h.counters
  stats_eq : g.stats = h.stats
  log_continued : h.log.Continued g.log

namespace Session

variable {s : Session} {call : Call} {cause : HeapError} {g : Heap Arena}

/-- Records have no part in what a pointer reads. -/
theorem untouched_loggedAll (h : Heap Arena) (events : List Event) :
    h.Untouched (h.loggedAll events) ∧ ∀ ptr,
      (h.loggedAll events).payloadSize? ptr = h.payloadSize? ptr ∧
      (h.loggedAll events).payload ptr = h.payload ptr := by
  obtain ⟨log, hlog, hcontinued⟩ := h.loggedAll_eq events
  rw [hlog]
  exact ⟨⟨rfl, rfl, rfl, rfl, rfl, rfl, rfl, hcontinued⟩, fun _ => ⟨rfl, rfl⟩⟩

/-- A refused call logged something at most. -/
theorem Sound.exists_loggedAll (hs : s.Sound) (hallows : s.Allows call) (hgoes : ¬ call.Restarts)
    (hrun : call.run s.heap = .error (.refused cause) g) :
    ∃ events, g = s.heap.loggedAll events := by
  rcases hs.run_cases hallows hgoes with
    ⟨cause', events, hrefused⟩ | ⟨trap, g', htrapped⟩ | ⟨answer, g', hok, -⟩
  · rw [hrefused] at hrun
    simp only [EStateM.Result.error.injEq] at hrun
    exact ⟨events, hrun.2.symm⟩
  · rw [htrapped] at hrun
    simp at hrun
  · rw [hok] at hrun
    simp at hrun

/-- In every session that can be reached, a refused call that did not start over
leaves memory, lists, counters and live pointers as they were, every live pointer
with its payload: the log may have grown, and nothing else has changed. -/
theorem Reached.refused_atomic {arena : Arena} {config : Config} (h : Reached arena config s)
    (hallows : s.Allows call) (hgoes : ¬ call.Restarts)
    (hrun : call.run s.heap = .error (.refused cause) g) :
    s.heap.Untouched g ∧ s.after call = some ⟨g, s.live⟩ ∧
      ∀ q ∈ s.live, g.payloadSize? q = s.heap.payloadSize? q ∧
        g.payload q = s.heap.payload q := by
  obtain ⟨events, rfl⟩ := h.sound.exists_loggedAll hallows hgoes hrun
  obtain ⟨huntouched, hpayloads⟩ := untouched_loggedAll s.heap events
  refine ⟨huntouched, ?_, fun q _ => hpayloads q⟩
  simp only [Session.after, hrun, Call.liveRefused_of_not_restarts hgoes]

/-- A resize that would have to move the block beyond the limit of the arena. -/
theorem Reached.refused_atomic_of_resize :
    ∃ s cause g, Reached { limit := 160 } { chunkSize := 64, logLevel := none } s ∧
      s.live = [32] ∧ Call.run (.resize 32 500) s.heap = .error (.refused cause) g ∧
      s.heap.Untouched g ∧ s.after (.resize 32 500) = some ⟨g, s.live⟩ ∧
      ∀ q ∈ s.live, g.payloadSize? q = s.heap.payloadSize? q ∧
        g.payload q = s.heap.payload q := by
  have hstart : ((Session.start { limit := 160 } { chunkSize := 64, logLevel := none }).afterAll
      [.init, .allocate 20, .store 32 0 [7, 8]]).map (fun s =>
        (s.live, match Call.run (.resize 32 500) s.heap with
          | .error (.refused _) _ => true
          | _ => false)) = some ([32], true) := by
    decide +kernel
  obtain ⟨s, hs, hstate⟩ := Option.map_eq_some_iff.1 hstart
  obtain ⟨hlive, hrefused⟩ := Prod.mk.injEq .. ▸ hstate
  have hreached := Reached.start.afterAll hs
  have hallows : s.Allows (.resize 32 500) := Or.inr (Or.inl (hlive ▸ List.mem_cons_self))
  split at hrefused
  case h_1 cause g hrun =>
    exact ⟨s, cause, g, hreached, hlive, hrun, Reached.refused_atomic hreached hallows id hrun⟩
  case h_2 => cases hrefused

end Session
end SegregatedFit
