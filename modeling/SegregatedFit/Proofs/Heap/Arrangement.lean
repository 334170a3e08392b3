-- SUMMARY: A heap at rest: its blocks, its rings and its counters agree.
import SegregatedFit.Heap.Basic
import SegregatedFit.Log.Replay
import SegregatedFit.Proofs.FreeLists.Index

/-!
# Arranged heaps

`Consistent lists m prologue spans rings` says that lists and memory hold these
blocks and rings, and that no two free blocks are neighbours. A heap is
`Arranged` if it is laid out so and its counters agree with the blocks. Between
its operations a heap is arranged or not laid out; the modules below say what
each operation makes of the blocks and the rings.
-/
namespace SegregatedFit

open Block

/-- Lists and memory hold these blocks and rings; no two free blocks are neighbours. -/
structure Consistent (lists : FreeLists) (m : Memory) (prologue : Nat) (spans : List Span)
    (rings : Bucket → List Nat) : Prop where
  row : Row m prologue spans
  separated : Separated spans
  indexed : lists.Indexed m spans rings

theorem freeBytes_of_freePayload {spans : List Span} {i : Nat}
    (h : FreeLists.FreePayload spans i) : FreeBytes spans i := by
  obtain ⟨t, ht, hfree, hti⟩ := h
  exact ⟨t, ht, hfree, .of_inPayload hti⟩

/-- The counters count the allocated ones of these blocks. -/
structure Counters.Count (counters : Counters) (spans : List Span) : Prop where
  blocks_eq : counters.allocatedBlocks = (held spans).length
  bytes_eq : counters.allocatedBytes = ((held spans).map Span.size).sum

/-! ## Logs -/

namespace Log

/-- `log'` is `log` with further records at most. -/
structure Continued (log log' : Log) : Prop where
  threshold_eq : log'.threshold = log.threshold
  records_prefix : log.records.toList <+: log'.records.toList

theorem Continued.refl (log : Log) : log.Continued log := ⟨rfl, List.prefix_rfl⟩

theorem Continued.trans {log log' log'' : Log} (h : log.Continued log')
    (h' : log'.Continued log'') : log.Continued log'' :=
  ⟨h'.threshold_eq.trans h.threshold_eq, h.records_prefix.trans h'.records_prefix⟩

theorem continued_record (log : Log) (event : Event) (snapshot : Snapshot) :
    log.Continued (log.record event snapshot) := by
  refine ⟨threshold_record log event snapshot, ?_⟩
  unfold record
  split
  · rw [Array.toList_push]
    exact List.prefix_append _ _
  · exact List.prefix_rfl

/-- `log'` is `log` with further records at most, none of them that of an allocation or
of a free. -/
structure Quiet (log log' : Log) : Prop where
  threshold_eq : log'.threshold = log.threshold
  records_eq : ∃ records, log'.records.toList = log.records.toList ++ records ∧
    ∀ r ∈ records, ¬ r.event.Books

theorem Quiet.refl (log : Log) : log.Quiet log :=
  ⟨rfl, [], (List.append_nil _).symm, fun _ hr => (List.not_mem_nil hr).elim⟩

theorem Quiet.trans {log log' log'' : Log} (h : log.Quiet log') (h' : log'.Quiet log'') :
    log.Quiet log'' := by
  obtain ⟨records, hrecords, hquiet⟩ := h.records_eq
  obtain ⟨records', hrecords', hquiet'⟩ := h'.records_eq
  refine ⟨h'.threshold_eq.trans h.threshold_eq, records ++ records', ?_, fun r hr => ?_⟩
  · rw [hrecords', hrecords, List.append_assoc]
  · exact (List.mem_append.1 hr).elim (hquiet r) (hquiet' r)

theorem quiet_record {event : Event} (hevent : ¬ event.Books) (log : Log) (snapshot : Snapshot) :
    log.Quiet (log.record event snapshot) := by
  refine ⟨threshold_record log event snapshot, ?_⟩
  unfold record
  split
  · refine ⟨[⟨log.nextId, event, snapshot⟩], Array.toList_push, fun r hr => ?_⟩
    obtain rfl := List.mem_singleton.1 hr
    exact hevent
  · exact (Quiet.refl log).records_eq

end Log

namespace Heap

variable {R α : Type}

/-! ## Running effects -/

section Running

variable {h : Heap Arena}

theorem read_of_ok {f : Memory → Except HeapError α} {a : α} (hf : f h.region.memory = .ok a) :
    read f h = .ok a h := by
  rw [read_apply, hf]

theorem edit_of_ok {x : FreeLists.Edit α} {a : α} {lists : FreeLists} {m : Memory}
    (hx : x (h.lists, h.region.memory) = .ok a (lists, m)) :
    edit x h = .ok a (h.withLists lists m) := by
  rw [edit_apply, hx]

theorem write_of_ok {x : Action HeapError Memory α} {a : α} {m : Memory}
    (hx : x h.region.memory = .ok a m) : write x h = .ok a (h.withLists h.lists m) := by
  rw [write_apply, hx]

/-- The heap with other counters. -/
def withCounters (h : Heap Arena) (counters : Counters) : Heap Arena := { h with counters }

theorem count_apply {f : Counters → Except Trap Counters} {counters : Counters}
    (hf : f h.counters = .ok counters) : count f h = .ok () (h.withCounters counters) :=
  count_of_ok hf

theorem count_trapped {f : Counters → Except Trap Counters} {trap : Trap}
    (hf : f h.counters = .error trap) : count f h = .error (.trapped trap) h := by
  simp only [count, Action.bind_apply, Action.get_apply, hf, Action.lift_trapped]

@[simp] theorem withLists_counters (lists : FreeLists) (m : Memory) :
    (h.withLists lists m).counters = h.counters := rfl

@[simp] theorem withLists_lists (lists : FreeLists) (m : Memory) :
    (h.withLists lists m).lists = lists := rfl

@[simp] theorem withLists_region_memory (lists : FreeLists) (m : Memory) :
    (h.withLists lists m).region.memory = m := rfl

@[simp] theorem withLists_region_limit (lists : FreeLists) (m : Memory) :
    (h.withLists lists m).region.limit = h.region.limit := rfl

@[simp] theorem withLists_region_growCalls (lists : FreeLists) (m : Memory) :
    (h.withLists lists m).region.growCalls = h.region.growCalls := rfl

@[simp] theorem withLists_config (lists : FreeLists) (m : Memory) :
    (h.withLists lists m).config = h.config := rfl

@[simp] theorem withLists_base (lists : FreeLists) (m : Memory) :
    (h.withLists lists m).base = h.base := rfl

@[simp] theorem withLists_withLists (lists lists' : FreeLists) (m m' : Memory) :
    (h.withLists lists m).withLists lists' m' = h.withLists lists' m' := rfl

end Running

/-! ## Logging -/

section Logging

variable [Region R]

/-- The figures that go into a record, where the heap begins inside its region. -/
def figures (h : Heap R) : Snapshot :=
  let heapSize := if h.isInitialized then Region.size h.region - h.base else 0
  { heapSize
    freeBytes := h.freeBytes heapSize
    allocatedBlocks := h.counters.allocatedBlocks }

/-- The heap after it logged the event. -/
def logged (h : Heap R) (event : Event) : Heap R :=
  { h with log := h.log.record event h.figures }

theorem snapshot_eq {h : Heap R} (hbase : h.isInitialized = true → h.base ≤ Region.size h.region) :
    h.snapshot = .ok h.figures := by
  unfold snapshot heapSize figures
  by_cases hinit : h.isInitialized = true
  · simp only [hinit, if_true, Word.sub_of_le (hbase hinit)]
    rfl
  · simp only [hinit]
    rfl

theorem logEvent_apply {h : Heap R}
    (hbase : h.isInitialized = true → h.base ≤ Region.size h.region) (event : Event) :
    logEvent event h = .ok () (h.logged event) :=
  logEvent_of_snapshot event (snapshot_eq hbase)

@[simp] theorem logged_region (h : Heap R) (event : Event) : (h.logged event).region = h.region :=
  rfl

@[simp] theorem logged_lists (h : Heap R) (event : Event) : (h.logged event).lists = h.lists := rfl

@[simp] theorem logged_counters (h : Heap R) (event : Event) :
    (h.logged event).counters = h.counters := rfl

@[simp] theorem logged_config (h : Heap R) (event : Event) : (h.logged event).config = h.config :=
  rfl

@[simp] theorem logged_base (h : Heap R) (event : Event) : (h.logged event).base = h.base := rfl

@[simp] theorem logged_prologue (h : Heap R) (event : Event) :
    (h.logged event).prologue = h.prologue := rfl

end Logging

/-! ## Arranged heaps -/

/-- The heap is laid out with these blocks and rings, and its counters agree with them. -/
structure Arranged (h : Heap Arena) (spans : List Span) (rings : Bucket → List Nat) : Prop where
  prologue_eq : h.prologue = some (h.base + pairSize)
  base_dvd : pairSize ∣ h.base
  consistent : Consistent h.lists h.region.memory (h.base + pairSize) spans rings
  count : h.counters.Count spans
  /-- Each growth added a block's worth of bytes. -/
  extendCalls_le : minBlock * h.counters.extendCalls ≤ h.region.memory.size
  size_lt : 2 * h.region.memory.size < wordCount

section Arranged

variable {h : Heap Arena} {spans spans' : List Span} {rings rings' : Bucket → List Nat}

theorem Arranged.row (h' : h.Arranged spans rings) :
    Row h.region.memory (h.base + pairSize) spans :=
  h'.consistent.row

theorem Arranged.indexed (h' : h.Arranged spans rings) :
    h.lists.Indexed h.region.memory spans rings :=
  h'.consistent.indexed

theorem Arranged.memory_lt (h' : h.Arranged spans rings) : h.region.memory.size < wordCount := by
  have hlt := h'.size_lt
  omega

theorem Arranged.base_le (h' : h.Arranged spans rings) :
    h.base + sentinelBytes ≤ h.region.memory.size := by
  have hle := h'.row.tiles.le
  simp only [sentinelBytes, pairSize] at *
  omega

theorem Arranged.dvd_size (h' : h.Arranged spans rings) : pairSize ∣ h.region.memory.size :=
  h'.row.dvd_size (Nat.dvd_add h'.base_dvd (Nat.dvd_refl _))

theorem Arranged.logEvent (h' : h.Arranged spans rings) (event : Event) :
    logEvent event h = .ok () (h.logged event) :=
  logEvent_apply (fun _ => Nat.le_trans (Nat.le_add_right _ _) h'.base_le) event

/-- The log has no part in the arrangement. -/
theorem Arranged.logged (h' : h.Arranged spans rings) (event : Event) :
    (h.logged event).Arranged spans rings :=
  ⟨h'.prologue_eq, h'.base_dvd, h'.consistent, h'.count, h'.extendCalls_le, h'.size_lt⟩

/-- Other lists and bytes of the same number, and other counters. -/
theorem Arranged.updated (h' : h.Arranged spans rings) {lists : FreeLists} {m : Memory}
    (hsize : m.size = h.region.memory.size) {counters : Counters}
    (hconsistent : Consistent lists m (h.base + pairSize) spans' rings')
    (hcount : counters.Count spans') (hextend : counters.extendCalls = h.counters.extendCalls) :
    Arranged ((h.withLists lists m).withCounters counters) spans' rings' := by
  refine ⟨h'.prologue_eq, h'.base_dvd, hconsistent, hcount, ?_, ?_⟩
  · have hle := h'.extendCalls_le
    rw [← hextend, ← hsize] at hle
    exact hle
  · have hlt := h'.size_lt
    rw [← hsize] at hlt
    exact hlt

/-- Counters of resizes have no part in the arrangement. -/
theorem Arranged.recounted (h' : h.Arranged spans rings) (moves inPlace : Nat) :
    (h.withCounters { h.counters with resizeMoves := moves, resizeInPlace := inPlace }).Arranged
      spans rings :=
  ⟨h'.prologue_eq, h'.base_dvd, h'.consistent, ⟨h'.count.blocks_eq, h'.count.bytes_eq⟩,
    h'.extendCalls_le, h'.size_lt⟩

/-- An edit of the payload of an allocated block. -/
theorem Arranged.edited_payload (h' : h.Arranged spans rings) {t : Span} (ht : t ∈ held spans)
    {m : Memory} (hedit : h.region.memory.Edited m t.InPayload) :
    (h.withLists h.lists m).Arranged spans rings := by
  have hm := h'.memory_lt
  have hrow : Row m (h.base + pairSize) spans :=
    h'.row.edited_payload hm hedit fun i hi => ⟨t, (mem_held.1 ht).1, hi⟩
  have hindexed : h.lists.Indexed m spans rings := by
    refine h'.indexed.edited h'.row (fun _ hu => hu) hm hedit ?_
    intro i hi hti
    exact h'.row.not_freeBytes ht (.of_inPayload hti) (freeBytes_of_freePayload hi)
  exact h'.updated hedit.size_eq ⟨hrow, h'.consistent.separated, hindexed⟩ h'.count rfl

end Arranged

/-! ## Steps from one arrangement to another -/

/-- The heap after it logged the events. -/
def loggedAll (h : Heap Arena) (events : List Event) : Heap Arena := events.foldl logged h

/-- Logging leaves all but the log as it is. -/
theorem loggedAll_eq (h : Heap Arena) (events : List Event) :
    ∃ log, h.loggedAll events = { h with log } ∧ h.log.Continued log := by
  induction events generalizing h with
  | nil => exact ⟨h.log, rfl, .refl h.log⟩
  | cons event events ih =>
    obtain ⟨log, hlog, hcontinued⟩ := ih (h.logged event)
    exact ⟨log, hlog, (h.log.continued_record event h.figures).trans hcontinued⟩

/-- Neither an allocation nor a free is logged with other events. -/
theorem quiet_loggedAll {events : List Event} (hevents : ∀ event ∈ events, ¬ event.Books)
    (h : Heap Arena) : h.log.Quiet (h.loggedAll events).log := by
  induction events generalizing h with
  | nil => exact .refl h.log
  | cons event events ih =>
    obtain ⟨hevent, hrest⟩ := List.forall_mem_cons.1 hevents
    exact (Log.quiet_record hevent h.log h.figures).trans (ih hrest (h.logged event))

/-- `g` is what came of `h` when the event was logged, before which neither an allocation
nor a free was. -/
def Concludes (h g : Heap Arena) (event : Event) : Prop :=
  ∃ k : Heap Arena, h.log.Quiet k.log ∧ g = k.logged event

theorem Concludes.of_quiet {h k g : Heap Arena} {event : Event} (hquiet : h.log.Quiet k.log)
    (hg : k.Concludes g event) : h.Concludes g event := by
  obtain ⟨l, hl, rfl⟩ := hg
  exact ⟨l, hquiet.trans hl, rfl⟩

/-- `g` is arranged with other blocks than `h`: of the allocated ones, those of
`gone` are no longer there, those of `new` are, and the rest kept their bytes. -/
structure Exchanged (h g : Heap Arena) (spans spans' gone new : List Span) : Prop where
  config_eq : g.config = h.config
  arranged : ∃ rings, g.Arranged spans' rings
  perm : (gone ++ held spans').Perm (new ++ held spans)
  carried : ∀ u ∈ held spans, u ∈ held spans' →
    ∀ i, u.Covers i → g.region.memory.byteAt i = h.region.memory.byteAt i

theorem Arranged.nodup_held {h : Heap Arena} {spans : List Span} {rings : Bucket → List Nat}
    (h' : h.Arranged spans rings) : (held spans).Nodup :=
  h'.row.nodup.filter _

/-- A block that is new begins where no allocated block began. -/
theorem Exchanged.offset_ne {h g : Heap Arena} {spans spans' : List Span}
    {rings : Bucket → List Nat} {t : Span} (hg : h.Exchanged g spans spans' [] [t])
    (g' : g.Arranged spans' rings) : ∀ u ∈ held spans, t.offset ≠ u.offset := by
  intro u hu hoff
  have ht : t ∈ held spans' := hg.perm.mem_iff.2 List.mem_cons_self
  have hu' : u ∈ held spans' := hg.perm.mem_iff.2 (List.mem_cons_of_mem t hu)
  have heq := g'.row.eq_of_offset (mem_held.1 ht).1 (mem_held.1 hu').1 hoff
  exact (List.nodup_cons.1 (hg.perm.nodup_iff.1 g'.nodup_held)).1 (heq ▸ hu)

/-- Nothing needs to be exchanged. -/
theorem Arranged.exchanged {h : Heap Arena} {spans : List Span} {rings : Bucket → List Nat}
    (h' : h.Arranged spans rings) (same : List Span) : h.Exchanged h spans spans same same :=
  ⟨rfl, ⟨rings, h'⟩, List.Perm.refl _, fun _ _ _ _ _ => rfl⟩

theorem Exchanged.recounted {h g : Heap Arena} {spans spans' gone new : List Span}
    (hg : h.Exchanged g spans spans' gone new) (moves inPlace : Nat) :
    h.Exchanged (g.withCounters { g.counters with resizeMoves := moves, resizeInPlace := inPlace })
      spans spans' gone new := by
  obtain ⟨rings, g'⟩ := hg.arranged
  exact ⟨hg.config_eq, ⟨rings, g'.recounted moves inPlace⟩, hg.perm, hg.carried⟩

theorem Exchanged.logged {h g : Heap Arena} {spans spans' gone new : List Span}
    (hg : h.Exchanged g spans spans' gone new) (event : Event) :
    h.Exchanged (g.logged event) spans spans' gone new := by
  obtain ⟨rings, g'⟩ := hg.arranged
  exact ⟨hg.config_eq, ⟨rings, g'.logged event⟩, hg.perm, hg.carried⟩

end Heap
end SegregatedFit
