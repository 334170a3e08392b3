-- SUMMARY: The figures of a session: they agree with its blocks, its live pointers and its history.
import SegregatedFit.Proofs.Client.Atomicity
import SegregatedFit.Proofs.Client.LiveData
import SegregatedFit.Proofs.Heap.Figures
import SegregatedFit.Proofs.Heap.Readings

/-!
# Accounting

A heap derives its figures from few counts; its client can count as well. A
`Tally` has the growths and the resizes since the heap was laid out, told from
the answered calls and the length of the memory, and every session that can be
reached has one (`Reached.exists_tallied`). Main statement: `Tallied.accounts`,
whenever the heap is laid out, statistics, audit, live pointers and tally agree.
-/
namespace SegregatedFit

open Block

/-! ## What a client counts -/

/-- The growths and the resizes since the heap was laid out. -/
structure Tally where
  growths : Nat := 0
  resizes : Nat := 0
  deriving DecidableEq, Repr

/-- How many growths there were between two states: the memory became longer, or not. -/
def growthsBetween (size size' : Nat) : Nat := if size < size' then 1 else 0

namespace Call

/-- How many resizes an answered call counts for: one if it resized a block to a
size that is not zero. -/
def resizes : Call → Option Nat → Nat
  | .resize ptr n, some _ => if ptr ≠ nullPtr ∧ n ≠ 0 then 1 else 0
  | _, _ => 0

end Call

namespace Tally

/-- The tally after an answered call. Laying out a heap grows it once. -/
def answered (t : Tally) (h g : Heap Arena) : Call → Option Nat → Tally
  | .init, _ => { growths := 1 }
  | .reset, _ => {}
  | call, answer =>
    { growths := t.growths + growthsBetween h.region.memory.size g.region.memory.size
      resizes := t.resizes + call.resizes answer }

/-- The tally after a refused call. -/
def refused (t : Tally) : Call → Tally
  | .init => {}
  | _ => t

/-- The tally after a call. -/
def after (t : Tally) (s : Session) (call : Call) : Tally :=
  match call.run s.heap with
  | .ok answer g => t.answered s.heap g call answer
  | .error .. => t.refused call

/-- The tally after the calls. -/
def afterAll (t : Tally) (s : Session) : List Call → Tally
  | [] => t
  | call :: calls =>
    match s.after call with
    | some s' => (t.after s call).afterAll s' calls
    | none => t

/-- The counters of the heap say the same. -/
structure Agrees (t : Tally) (h : Heap Arena) : Prop where
  growths_eq : h.counters.extendCalls = t.growths
  resizes_eq : h.counters.resizeMoves + h.counters.resizeInPlace = t.resizes

end Tally

/-- The readings after a call that counts for so many resizes. -/
structure Readings.Follows (r r' : Readings) (resizes : Nat) : Prop where
  base_eq : r'.base = r.base
  prologue_eq : r'.prologue = r.prologue
  size_le : r.size ≤ r'.size
  extendCalls_eq : r'.extendCalls = r.extendCalls + growthsBetween r.size r'.size
  resizes_eq : r'.resizeMoves + r'.resizeInPlace = r.resizeMoves + r.resizeInPlace + resizes

/-- What the statistics and the audit of a session say of one another, of the live
pointers and of the tally. -/
structure Session.Accounts (s : Session) (t : Tally) (stats : Stats) (report : Report) : Prop where
  violations_eq : report.violations = []
  endOfHeap_eq : report.endOfHeap = some s.heap.region.memory.size
  heapSize_eq : stats.heapSize = sentinelBytes + (report.blocks.map (·.header.size)).sum
  freeBytes_eq : stats.freeBytes =
    ((report.blocks.filter (!·.header.allocated)).map (·.header.size)).sum
  /-- Both differences behind the free bytes are differences. -/
  allocatedBytes_le : sentinelBytes + s.heap.counters.allocatedBytes ≤ stats.heapSize
  freeBlocks_eq : stats.freeBlocks = report.blocks.countP (!·.header.allocated)
  allocatedBlocks_eq : stats.allocatedBlocks = report.blocks.countP (·.header.allocated)
  live_nodup : s.live.Nodup
  live_length : s.live.length = stats.allocatedBlocks
  reported : report.heapSize = stats.heapSize ∧ report.freeBytes = stats.freeBytes ∧
    report.freeBlocks = stats.freeBlocks ∧ report.allocatedBlocks = stats.allocatedBlocks
  extendCalls_eq : stats.extendCalls = t.growths
  resizes_eq : stats.resizeMoves + stats.resizeInPlace = t.resizes

namespace Session

/-- The sessions of a well-behaved client, with the tally. -/
inductive Tallied (arena : Arena) (config : Config) : Session → Tally → Prop
  | start : Tallied arena config (start arena config) {}
  | step {s s' : Session} {t : Tally} {call : Call} :
    Tallied arena config s t → s.Allows call → s.after call = some s' →
      Tallied arena config s' (t.after s call)

end Session

/-! ## One call -/

theorem growthsBetween_self (size : Nat) : growthsBetween size size = 0 :=
  if_neg (Nat.lt_irrefl size)

theorem growthsBetween_of_lt {size size' : Nat} (h : size < size') :
    growthsBetween size size' = 1 :=
  if_pos h

namespace Readings

variable {r r' : Readings}

theorem follows_refl (r : Readings) : r.Follows r 0 :=
  ⟨rfl, rfl, Nat.le_refl _, by rw [growthsBetween_self]; rfl, rfl⟩

theorem Allocated.follows (h : r.Allocated r') : r.Follows r' 0 := by
  rcases h with rfl | ⟨size, hpos, rfl⟩
  · exact r'.follows_refl
  · have hlonger : r.size < (r.grown size).size := Nat.lt_add_of_pos_right hpos
    exact ⟨rfl, rfl, Nat.le_of_lt hlonger, by rw [growthsBetween_of_lt hlonger]; rfl, rfl⟩

/-- Resizing in place counts as a resize. -/
theorem follows_inPlace (r : Readings) :
    r.Follows { r with resizeInPlace := r.resizeInPlace + 1 } 1 :=
  ⟨rfl, rfl, Nat.le_refl _, by rw [growthsBetween_self]; rfl, rfl⟩

/-- A move counts as a resize. -/
theorem Follows.moved (h : r.Follows r' 0) :
    r.Follows { r' with resizeMoves := r'.resizeMoves + 1 } 1 := by
  refine ⟨h.base_eq, h.prologue_eq, h.size_le, h.extendCalls_eq, ?_⟩
  have hresizes := h.resizes_eq
  dsimp only
  omega

end Readings

namespace Call

open Heap

variable {call : Call} {h g : Heap Arena} {answer : Option Nat}

theorem readings_run_resize {ptr n : Nat} (hrun : Heap.resize ptr n h = .ok answer g) :
    h.readings.Follows g.readings (Call.resizes (.resize ptr n) answer) := by
  by_cases hptr : ptr = nullPtr
  · -- this is the call for an allocation, and counts for none
    subst hptr
    rw [resize_null] at hrun
    split at hrun
    case h_1 p k hallocate =>
      cases hrun
      exact (readings_allocate hallocate).follows
    case h_2 => cases hrun
  · by_cases hn : n = 0
    · subst hn
      simp only [Heap.resize, if_neg hptr, if_true] at hrun
      obtain ⟨_, k, hfree, hrest⟩ := Action.bind_eq_ok_iff.1 hrun
      obtain ⟨_, k', hlog, ⟨⟩⟩ := Action.bind_eq_ok_iff.1 hrest
      have hg : g.readings = h.readings :=
        ((keeps_logEvent _).of_ok hlog).trans ((keeps_free _).of_ok hfree)
      exact hg ▸ h.readings.follows_refl
    · obtain ⟨hsome, hcases⟩ := readings_resize hptr hn hrun
      obtain ⟨p, rfl⟩ := Option.isSome_iff_exists.1 hsome
      have hone : Call.resizes (.resize ptr n) (some p) = 1 := if_pos ⟨hptr, hn⟩
      rw [hone]
      rcases hcases with hg | ⟨r, hr, hg⟩
      · exact hg ▸ h.readings.follows_inPlace
      · exact hg ▸ hr.follows.moved

/-- What an answered call does to the readings, if it does not start over. -/
theorem readings_run (hgoes : ¬ call.Restarts) (hrun : call.run h = .ok answer g) :
    h.readings.Follows g.readings (call.resizes answer) := by
  cases call with
  | init => exact (hgoes trivial).elim
  | reset => exact (hgoes trivial).elim
  | allocate n =>
    obtain ⟨p, k, hallocate, ⟨⟩⟩ := Action.bind_eq_ok_iff.1 hrun
    exact (readings_allocate hallocate).follows
  | free ptr =>
    obtain ⟨_, k, hfree, ⟨⟩⟩ := Action.bind_eq_ok_iff.1 hrun
    exact (keeps_free _).of_ok hfree ▸ h.readings.follows_refl
  | resize ptr n => exact readings_run_resize hrun
  | store ptr start bytes =>
    obtain ⟨_, k, hstore, ⟨⟩⟩ := Action.bind_eq_ok_iff.1 hrun
    exact (keeps_writePayload _ _ _).of_ok hstore ▸ h.readings.follows_refl

/-- A heap that was just laid out has grown once and resized nothing. -/
theorem agrees_init (hrun : Call.run .init h = .ok answer g) :
    Tally.Agrees { growths := 1 } g := by
  obtain ⟨_, k, hinit, ⟨⟩⟩ := Action.bind_eq_ok_iff.1 hrun
  obtain ⟨hextend, hmoves, hinPlace⟩ := readings_init hinit
  refine ⟨hextend, ?_⟩
  change g.readings.resizeMoves + g.readings.resizeInPlace = 0
  rw [hmoves, hinPlace]

end Call

namespace Session

variable {arena : Arena} {config : Config} {s s' : Session} {t : Tally} {call : Call}

theorem Tallied.reached (h : Tallied arena config s t) : Reached arena config s := by
  induction h with
  | start => exact .start
  | step _ hallows hafter ih => exact ih.step hallows hafter

/-- Every session that can be reached can be tallied. -/
theorem Reached.exists_tallied (h : Reached arena config s) : ∃ t, Tallied arena config s t := by
  induction h with
  | start => exact ⟨{}, .start⟩
  | step _ hallows hafter ih =>
    obtain ⟨t, ht⟩ := ih
    exact ⟨_, ht.step hallows hafter⟩

theorem Tallied.afterAll {calls : List Call} (h : Tallied arena config s t)
    (hcalls : s.afterAll calls = some s') : Tallied arena config s' (t.afterAll s calls) := by
  induction calls generalizing s t with
  | nil =>
    obtain rfl := Option.some.inj hcalls
    exact h
  | cons call calls ih =>
    obtain ⟨hallows, s₁, hafter, hrest⟩ := afterAll_cons_iff.1 hcalls
    simp only [Tally.afterAll, hafter]
    exact ih (h.step hallows hafter) hrest

/-! ## Runs -/

/-- The tally of an answered call that does not start over. -/
theorem tally_answered {h g : Heap Arena} {answer : Option Nat} (hgoes : ¬ call.Restarts)
    (ht : t.Agrees h) (hrun : call.run h = .ok answer g) :
    (t.answered h g call answer).Agrees g := by
  have hfollows := Call.readings_run hgoes hrun
  have hanswered : t.answered h g call answer =
      { growths := t.growths + growthsBetween h.region.memory.size g.region.memory.size
        resizes := t.resizes + call.resizes answer } := by
    cases call with
    | init => exact (hgoes trivial).elim
    | reset => exact (hgoes trivial).elim
    | _ => rfl
  rw [hanswered]
  refine ⟨?_, ?_⟩
  · rw [← ht.growths_eq]
    exact hfollows.extendCalls_eq
  · rw [← ht.resizes_eq]
    exact hfollows.resizes_eq

/-- A heap without counts, and an empty tally. -/
theorem agrees_of_blank {h : Heap Arena} (hblank : h.Blank) : Tally.Agrees {} h := by
  refine ⟨?_, ?_⟩
  · rw [hblank.counters_eq]
  · rw [hblank.counters_eq]
    rfl

/-- A call that is refused changes the log at most, unless it was to lay out the heap. -/
theorem Sound.refused_cases (hs : s.Sound) (hallows : s.Allows call) {cause : HeapError}
    {g : Heap Arena} (hrun : call.run s.heap = .error (.refused cause) g) :
    call = .init ∧ g.Blank ∨ ¬ call.Restarts ∧ ∃ events, g = s.heap.loggedAll events := by
  by_cases hrestarts : call.Restarts
  · cases call with
    | init => exact Or.inl ⟨rfl, hs.blank_of_init_refused hrun⟩
    | reset => cases hrun
    | _ => exact hrestarts.elim
  · exact Or.inr ⟨hrestarts, hs.exists_loggedAll hallows hrestarts hrun⟩

/-- One call keeps the tally in agreement with the counters. -/
theorem Sound.tally_after (hs : s.Sound) (ht : t.Agrees s.heap) (hallows : s.Allows call)
    (hafter : s.after call = some s') : (t.after s call).Agrees s'.heap := by
  rcases after_cases hafter with ⟨answer, hrun⟩ | ⟨cause, hrun⟩
  · rw [Tally.after, hrun]
    by_cases hrestarts : call.Restarts
    · cases call with
      | init => exact Call.agrees_init hrun
      | reset =>
        obtain ⟨-, hheap⟩ := EStateM.Result.ok.inj hrun
        exact agrees_of_blank (hheap ▸ Heap.blank_reset s.heap)
      | _ => exact hrestarts.elim
    · exact tally_answered hrestarts ht hrun
  · rw [Tally.after, hrun]
    rcases hs.refused_cases hallows hrun with ⟨rfl, hblank⟩ | ⟨hgoes, events, hg⟩
    · exact agrees_of_blank hblank
    · have hrefused : t.refused call = t := by
        cases call with
        | init => exact (hgoes trivial).elim
        | _ => rfl
      have hcounters := (untouched_loggedAll s.heap events).1.counters_eq
      rw [← hg] at hcounters
      dsimp only
      rw [hrefused]
      exact ⟨hcounters ▸ ht.growths_eq, hcounters ▸ ht.resizes_eq⟩

theorem Tallied.agrees (h : Tallied arena config s t) : t.Agrees s.heap := by
  induction h with
  | start => exact ⟨rfl, rfl⟩
  | step hprev hallows hafter ih => exact hprev.reached.sound.tally_after ih hallows hafter

/-- The figures of a heap at rest and of its client. -/
theorem accounts_of_arranged {spans : List Span} {rings : Bucket → List Nat}
    (h' : s.heap.Arranged spans rings) (howns : s.Owns spans) (ht : t.Agrees s.heap) :
    ∃ stats report, s.heap.stats = .ok stats ∧ s.heap.audit = .ok report ∧
      s.Accounts t stats report := by
  refine ⟨_, _, h'.stats_eq, h'.audit_eq, ?_⟩
  have hsizes : (spans.map Audit.entry).map (·.header.size) = spans.map Span.size :=
    List.map_map ..
  have hfree : ((spans.map Audit.entry).filter (!·.header.allocated)) =
      (unheld spans).map Audit.entry := List.filter_map ..
  have hfreeSizes : ((unheld spans).map Audit.entry).map (·.header.size) =
      (unheld spans).map Span.size := List.map_map ..
  constructor
  case violations_eq => rfl
  case endOfHeap_eq => rfl
  case heapSize_eq => rw [hsizes]; rfl
  case freeBytes_eq => rw [hfree, hfreeSizes]; rfl
  case allocatedBytes_le =>
    have hbytes := h'.allocatedBytes_eq
    dsimp only
    omega
  case freeBlocks_eq =>
    rw [List.countP_eq_length_filter, hfree, List.length_map]
  case allocatedBlocks_eq =>
    rw [List.countP_map, List.countP_eq_length_filter]
    rfl
  case live_nodup => exact (howns.payloadsApart h').nodup
  case live_length => rw [howns.length_eq, List.length_map]
  case reported => exact ⟨rfl, rfl, rfl, rfl⟩
  case extendCalls_eq => exact ht.growths_eq
  case resizes_eq => exact ht.resizes_eq

/-- In every session that can be reached, the figures of a heap that is laid out
are those of its blocks, as an audit walks them, of its live pointers, and of what
its client counted since the heap was laid out. -/
theorem Tallied.accounts {prologue : Nat} (h : Tallied arena config s t)
    (hprologue : s.heap.prologue = some prologue) :
    ∃ stats report, s.heap.stats = .ok stats ∧ s.heap.audit = .ok report ∧
      s.Accounts t stats report := by
  obtain ⟨spans, rings, h', howns, -⟩ := h.reached.exists_arranged hprologue
  exact accounts_of_arranged h' howns h.agrees

/-- A block that is resized twice: in place, and to a place for which the heap grows. -/
theorem Tallied.accounts_of_resized :
    ∃ s t, Tallied {} { chunkSize := 64, logLevel := none } s t ∧ s.heap.prologue = some 16 ∧
      t = { growths := 2, resizes := 2 } ∧
      ∃ stats report, s.heap.stats = .ok stats ∧ s.heap.audit = .ok report ∧
        s.Accounts t stats report := by
  have hrun : ((Session.start {} { chunkSize := 64, logLevel := none }).afterAll
      [.init, .allocate 20, .resize 32 30, .resize 32 60]).map (fun s => s.heap.prologue) =
        some (some 16) ∧
      Tally.afterAll {} (Session.start {} { chunkSize := 64, logLevel := none })
        [.init, .allocate 20, .resize 32 30, .resize 32 60] = { growths := 2, resizes := 2 } := by
    decide +kernel
  obtain ⟨s, hs, hprologue⟩ := Option.map_eq_some_iff.1 hrun.1
  have htallied := Tallied.start.afterAll hs
  exact ⟨s, _, htallied, hprologue, hrun.2, Tallied.accounts htallied hprologue⟩

end Session
end SegregatedFit
