-- SUMMARY: What an operation logs tells what it did to the allocated blocks.
import SegregatedFit.Proofs.Heap.Claiming
import SegregatedFit.Proofs.Heap.Figures
import SegregatedFit.Proofs.Log.Ledger

/-!
# Narrating

A log that keeps every event tells what became of the heap: its new records lead from a
ledger of the blocks before to one of the blocks after (`Narrates`). Allocating and
freeing log themselves when all is done, so that the figures in the record are those of
the new blocks (`Concludes.reports`). Other events do not matter to a ledger. A story
told in parts is told as a whole (`Narrates.trans`), which is how a resize that
moves a block is told. What a whole operation logs last has the figures of the heap that it
leaves (`Reports`).
-/
namespace SegregatedFit

open Block

variable {h k g : Heap Arena} {spans spans' : List Span} {s t : Span} {ledger : Ledger}
variable {rings rings' : Bucket → List Nat} {n p : Nat}

/-! ## Ledgers of blocks -/

/-- The block as a ledger has it. -/
def Block.Span.ledgerEntry (s : Span) : Nat × Nat := (s.offset, s.size)

namespace Ledger

/-- The ledger is one of the allocated ones of these blocks. -/
def Lists (ledger : Ledger) (spans : List Span) : Prop :=
  ledger.Perm ((held spans).map Span.ledgerEntry)

theorem Lists.pointers_perm (hlists : ledger.Lists spans) :
    ledger.pointers.Perm ((held spans).map Span.offset) := by
  have hperm := hlists.map Prod.fst
  rwa [List.map_map] at hperm

theorem Lists.bytes_eq (hlists : ledger.Lists spans) : ledger.bytes = Block.bytes (held spans) := by
  have hperm := hlists.map Prod.snd
  rw [List.map_map] at hperm
  exact hperm.sum_nat

/-- To the ledger an allocation adds its block. -/
theorem Lists.allocated (hlists : ledger.Lists spans) (hex : h.Exchanged g spans spans' [] [t])
    (n size : Nat) (source : Source) :
    ∃ ledger', ledger.post? (.allocated t.offset n size t.size source) = some ledger' ∧
      ledger'.Lists spans' := by
  obtain ⟨rings', g'⟩ := hex.arranged
  have hfresh : t.offset ∉ ledger.pointers := by
    intro hmem
    obtain ⟨u, hu, hoff⟩ := List.mem_map.1 (hlists.pointers_perm.mem_iff.1 hmem)
    exact hex.offset_ne g' u hu hoff.symm
  refine ⟨_, Ledger.post?_allocated hfresh n size t.size source, ?_⟩
  exact (hlists.cons t.ledgerEntry).trans (hex.perm.map Span.ledgerEntry).symm

/-- From the ledger a free takes its block. -/
theorem Lists.freed (hlists : ledger.Lists spans) (hex : h.Exchanged g spans spans' [s] [])
    (merged : Nat) :
    ∃ ledger', ledger.post? (.freed s.offset s.size merged) = some ledger' ∧
      ledger'.Lists spans' := by
  have hperm : (s.ledgerEntry :: (held spans').map Span.ledgerEntry).Perm ledger :=
    (hex.perm.map Span.ledgerEntry).trans hlists.symm
  have hmem : s.ledgerEntry ∈ ledger := hperm.mem_iff.1 List.mem_cons_self
  refine ⟨_, Ledger.post?_freed hmem merged, ?_⟩
  have herase := (hperm.erase s.ledgerEntry).symm
  rwa [List.erase_cons_head] at herase

end Ledger

/-- A log of the least severe level keeps every event. -/
theorem Log.toList_record {log : Log} (hlog : log.threshold = some .trace) (event : Event)
    (snapshot : Snapshot) :
    (log.record event snapshot).records.toList =
      log.records.toList ++ [⟨log.nextId, event, snapshot⟩] := by
  have hkeeps : log.keeps event.level = true := by simp [keeps, hlog, Level.trace_le]
  rw [record, if_pos hkeeps, Array.toList_push]

namespace Heap

/-- The heap is arranged, and the ledger is one of its allocated blocks. -/
def Listed (h : Heap Arena) (ledger : Ledger) : Prop :=
  ∃ spans rings, h.Arranged spans rings ∧ ledger.Lists spans

theorem listed_iff (h' : h.Arranged spans rings) : h.Listed ledger ↔ ledger.Lists spans := by
  constructor
  · rintro ⟨spans', rings', h'', hlists⟩
    exact h''.row.unique h'.row ▸ hlists
  · exact fun hlists => ⟨spans, rings, h', hlists⟩

/-- What is recorded now shows the ledger. -/
theorem Arranged.shows (h' : h.Arranged spans rings) (hlists : ledger.Lists spans) :
    h.figures.Shows ledger := by
  rw [h'.figures_eq]
  constructor
  · exact (hlists.length_eq.trans (List.length_map _)).symm
  · have hsplit := bytes_eq_add spans
    have hbytes := hlists.bytes_eq
    dsimp only
    omega

/-- What a record shows are figures that the statistics have, too. -/
theorem Arranged.exists_stats_eq (h' : h.Arranged spans rings) :
    ∃ stats, h.stats = .ok stats ∧
      h.figures = ⟨stats.heapSize, stats.freeBytes, stats.allocatedBlocks⟩ :=
  ⟨_, h'.stats_eq, h'.figures_eq⟩

/-! ## Stories -/

/-- The level is the same, and if every event is kept, the new records lead from any
ledger of the blocks of `h` to one of the blocks of `g`. -/
structure Narrates (h g : Heap Arena) : Prop where
  threshold_eq : g.log.threshold = h.log.threshold
  told : h.log.threshold = some .trace → ∀ ledger, h.Listed ledger →
    ∃ records ledger', g.log.records.toList = h.log.records.toList ++ records ∧
      g.Listed ledger' ∧ ledger.Tells records ledger'

/-- The story was told, and if anything was logged at all, it ended with the figures
that the heap has now. -/
structure Reports (h g : Heap Arena) : Prop extends h.Narrates g where
  closes : g.log = h.log ∨ ∃ k event, g = logged k event

theorem Narrates.trans (hk : h.Narrates k) (hg : k.Narrates g) : h.Narrates g where
  threshold_eq := hg.threshold_eq.trans hk.threshold_eq
  told htrace ledger hledger := by
    obtain ⟨records, before, hrecords, hbefore, htells⟩ := hk.told htrace ledger hledger
    obtain ⟨more, after, hmore, hafter, htells'⟩ :=
      hg.told (hk.threshold_eq.trans htrace) before hbefore
    refine ⟨records ++ more, after, ?_, hafter, htells.append htells'⟩
    rw [hmore, hrecords, List.append_assoc]

/-- Where the allocated blocks stay, nothing needs to be told. -/
theorem narrates_of_quiet (hquiet : h.log.Quiet g.log)
    (hlisted : ∀ ledger, h.Listed ledger → g.Listed ledger) : h.Narrates g where
  threshold_eq := hquiet.threshold_eq
  told _ ledger hledger := by
    obtain ⟨records, hrecords, hbooks⟩ := hquiet.records_eq
    exact ⟨records, ledger, hrecords, hlisted ledger hledger,
      Ledger.tells_of_not_books hbooks ledger⟩

theorem Narrates.refl (h : Heap Arena) : h.Narrates h :=
  narrates_of_quiet (.refl h.log) fun _ hledger => hledger

theorem Reports.refl (h : Heap Arena) : h.Reports h := ⟨.refl h, Or.inl rfl⟩

/-- Counters of resizes have no part in the story. -/
theorem Narrates.recounted (hk : h.Narrates k) (moves inPlace : Nat) :
    h.Narrates (k.withCounters
      { k.counters with resizeMoves := moves, resizeInPlace := inPlace }) :=
  hk.trans (narrates_of_quiet (.refl k.log) fun _ ⟨spans, rings, k', hlists⟩ =>
    ⟨spans, rings, k'.recounted moves inPlace, hlists⟩)

/-- A payload has no part in it, either. -/
theorem narrates_of_edited {m : Memory} (h' : h.Arranged spans rings) (hs : s ∈ held spans)
    (hedit : h.region.memory.Edited m s.InPayload) : h.Narrates (h.withLists h.lists m) :=
  narrates_of_quiet (.refl h.log) fun _ hledger =>
    (listed_iff (h'.edited_payload hs hedit)).2 ((listed_iff h').1 hledger)

/-- Events other than an allocation or a free. -/
theorem reports_loggedAll {events : List Event} (hevents : ∀ event ∈ events, ¬ event.Books)
    (h : Heap Arena) : h.Reports (h.loggedAll events) where
  toNarrates := narrates_of_quiet (quiet_loggedAll hevents h) fun _ ⟨spans, rings, h', hlists⟩ =>
    ⟨spans, rings, h'.loggedAll events, hlists⟩
  closes := by
    rcases List.eq_nil_or_concat events with rfl | ⟨before, last, rfl⟩
    · exact Or.inl rfl
    · exact Or.inr ⟨h.loggedAll before, last, by rw [List.concat_eq_append, loggedAll_concat]⟩

/-- One more event ends the story. -/
theorem Narrates.logged {event : Event} (hk : h.Narrates k) (hevent : ¬ event.Books) :
    h.Reports (k.logged event) where
  toNarrates := by
    have hlast : k.Reports (k.loggedAll [event]) := reports_loggedAll (by simpa using hevent) k
    exact hk.trans hlast.toNarrates
  closes := Or.inr ⟨k, event, rfl⟩

/-- An event that is logged when its blocks are in their places. -/
theorem Concludes.reports {event : Event} (hg : h.Concludes g event)
    (g' : g.Arranged spans' rings') (hpost : ∀ ledger, h.Listed ledger →
      ∃ ledger', ledger.post? event = some ledger' ∧ ledger'.Lists spans') : h.Reports g := by
  obtain ⟨k, hquiet, rfl⟩ := hg
  refine ⟨⟨(Log.threshold_record _ _ _).trans hquiet.threshold_eq, ?_⟩, Or.inr ⟨k, event, rfl⟩⟩
  intro htrace ledger hledger
  obtain ⟨records, hrecords, hbooks⟩ := hquiet.records_eq
  obtain ⟨after, hafter, hlists⟩ := hpost ledger hledger
  have htold := Log.toList_record (hquiet.threshold_eq.trans htrace) event k.figures
  refine ⟨records ++ [⟨k.log.nextId, event, k.figures⟩], after, ?_, (listed_iff g').2 hlists, ?_⟩
  · rw [← List.append_assoc, ← hrecords]
    exact htold
  · -- the log is no part of the figures
    exact (Ledger.tells_of_not_books hbooks ledger).snoc hafter fun _ => g'.shows hlists

/-- The last record has the figures of the statistics. -/
theorem exists_stats_of_logged {event : Event} {last : Record}
    (htrace : k.log.threshold = some .trace) (k' : (k.logged event).Arranged spans rings)
    (hlast : (k.logged event).log.records.toList.getLast? = some last) :
    ∃ stats, (k.logged event).stats = .ok stats ∧
      last.snapshot = ⟨stats.heapSize, stats.freeBytes, stats.allocatedBlocks⟩ := by
  have htold : (k.logged event).log.records.toList =
      k.log.records.toList ++ [⟨k.log.nextId, event, k.figures⟩] :=
    Log.toList_record htrace event k.figures
  rw [htold, List.getLast?_concat] at hlast
  obtain rfl := Option.some.inj hlast
  exact k'.exists_stats_eq

theorem Reports.exists_stats {emitted : List Record} {last : Record} (hg : h.Reports g)
    (htrace : h.log.threshold = some .trace) (g' : g.Arranged spans rings)
    (hemitted : g.log.records.toList = h.log.records.toList ++ emitted)
    (hlast : emitted.getLast? = some last) :
    ∃ stats, g.stats = .ok stats ∧
      last.snapshot = ⟨stats.heapSize, stats.freeBytes, stats.allocatedBlocks⟩ := by
  rcases hg.closes with hsame | ⟨k, event, rfl⟩
  · rw [hsame, List.self_eq_append_right] at hemitted
    rw [hemitted] at hlast
    cases hlast
  · have hk : k.log.threshold = some .trace :=
      (Log.threshold_record _ _ _).symm.trans (hg.threshold_eq.trans htrace)
    refine exists_stats_of_logged hk g' ?_
    rw [hemitted, List.getLast?_append, hlast]
    rfl

/-- The story begins with a heap without allocated blocks, and with the record of that. -/
theorem Founds.begins (hfounds : h.Founds g) (htrace : h.log.threshold = some .trace) :
    g.log.threshold = some .trace ∧ g.Listed [] ∧
      ∃ earlier laid, g.log.records.toList = earlier ++ [laid] ∧ laid.event.name = "init" := by
  obtain ⟨rings, g'⟩ := hfounds.founded.arranged
  obtain ⟨k, hquiet, hg⟩ := hfounds.concludes
  have hk : k.log.threshold = some .trace := hquiet.threshold_eq.trans htrace
  refine ⟨?_, ⟨_, rings, g', List.Perm.refl _⟩, k.log.records.toList, ?_⟩
  · rw [hg]
    exact (Log.threshold_record _ _ _).trans hk
  · rw [hg]
    exact ⟨_, Log.toList_record hk _ k.figures, rfl⟩

/-! ## Operations -/

theorem reports_allocate (h' : h.Arranged spans rings) (hconfig : h.config.normalized = h.config)
    (hrun : allocate n h = .ok p g) : h.Reports g := by
  obtain ⟨k, size, growths, front, s, back, rfl, -, htakes, -, -, source, hconcludes⟩ :=
    exists_carves_of_allocate h' hconfig hrun
  refine hconcludes.reports htakes.arranged fun ledger hledger => ?_
  exact ((listed_iff h').1 hledger).allocated (htakes.exchanged h') n size source

theorem reports_free (h' : h.Arranged spans rings) (hs : s ∈ held spans)
    (hrun : free s.offset h = .ok () g) : h.Reports g := by
  obtain ⟨merged, hconcludes⟩ := exists_concludes_of_freed h' hs hrun
  obtain ⟨k, spans', hrun', hex⟩ := free_of_held h' hs
  rw [hrun'] at hrun
  cases hrun
  obtain ⟨rings', g'⟩ := hex.arranged
  exact hconcludes.reports g' fun ledger hledger => ((listed_iff h').1 hledger).freed hex merged

/-- A move tells of an allocation and then of a free. -/
theorem reports_relocate (h' : h.Arranged spans rings) (hconfig : h.config.normalized = h.config)
    (hs : s ∈ held spans) (hgrows : payloadSize s.size < n)
    (hrun : relocate s.offset s.size n h = .ok p g) : h.Reports g := by
  obtain ⟨target, k₁, k₂, k₃, spans', rings', t, rfl, hmoved, k', hs', ht, hfits⟩ :=
    exists_exchanged_of_relocate h' hconfig hs hgrows hrun
  obtain ⟨hcopy, hedit⟩ := copy_apply k' hs' ht hfits
  obtain ⟨-, rfl⟩ := EStateM.Result.ok.inj (hcopy.symm.trans hmoved.copied)
  have kc := k'.edited_payload ht hedit
  obtain ⟨f, spans'', hfree, hex⟩ := free_of_held kc hs'
  obtain ⟨-, rfl⟩ := EStateM.Result.ok.inj (hfree.symm.trans hmoved.freed)
  obtain ⟨rings'', f'⟩ := hex.arranged
  have hallocated := (reports_allocate h' hconfig hmoved.allocated).toNarrates
  have hcopied := narrates_of_edited k' ht hedit
  have hfreed := (reports_free kc hs' hmoved.freed).toNarrates
  have hcounted := ((hallocated.trans hcopied).trans hfreed).recounted
    (f.counters.resizeMoves + 1) f.counters.resizeInPlace
  have hlog := (f'.recounted (f.counters.resizeMoves + 1) f.counters.resizeInPlace).logEvent
    (.moved s.offset t.offset n (payloadSize s.size) target)
  obtain ⟨-, rfl⟩ := EStateM.Result.ok.inj (hlog.symm.trans hmoved.logged)
  exact hcounted.logged (by simp [Event.books_iff])

/-- Resizing a block to something, whether it is moved or not. -/
theorem reports_resize {answer : Option Nat} (h' : h.Arranged spans rings)
    (hconfig : h.config.normalized = h.config) (hs : s ∈ held spans) (hn : n ≠ 0)
    (hrun : resize s.offset n h = .ok answer g) : h.Reports g := by
  rcases resize_eq_ok h' hs hn hrun with ⟨size, -, rfl⟩ | ⟨hgrows, p, -, hmoved⟩
  · have hcounted := (Narrates.refl h).recounted h.counters.resizeMoves
      (h.counters.resizeInPlace + 1)
    exact hcounted.logged (by simp [Event.books_iff])
  · exact reports_relocate h' hconfig hs hgrows hmoved

/-! ## Refused operations -/

/-- A refused allocation is logged as something else. -/
theorem reports_allocate_refused {cause : HeapError} (h' : h.Arranged spans rings)
    (hconfig : h.config.normalized = h.config)
    (hrun : allocate n h = .error (.refused cause) g) : h.Reports g := by
  rcases allocate_outcome h' hconfig n with
    ⟨cause', events, hrefused, hevents, -⟩ | ⟨trap, k, htrapped, -⟩ |
    ⟨k, size, growths, front, b, back, hok, -⟩
  · rw [hrefused] at hrun
    cases hrun
    exact reports_loggedAll hevents h
  · rw [htrapped] at hrun
    cases hrun
  · rw [hok] at hrun
    cases hrun

/-- A refused resize of a block has neither allocated nor freed. -/
theorem reports_resize_refused {cause : HeapError} (h' : h.Arranged spans rings)
    (hconfig : h.config.normalized = h.config) (hs : s ∈ held spans)
    (hrun : resize s.offset n h = .error (.refused cause) g) : h.Reports g := by
  by_cases hn : n = 0
  · obtain ⟨k, spans', -, hok, -⟩ := resize_zero_of_held h' hs
    rw [hn, hok] at hrun
    cases hrun
  rcases Nat.lt_or_ge (payloadSize s.size) n with hgrows | hfits
  · rcases resize_outcome h' hconfig hs hgrows with
      ⟨cause', events, hrefused, hevents, -⟩ |
      ⟨-, -, -, ⟨trap, k, htrapped, -⟩ | ⟨k, spans', t, hok, -⟩⟩
    · rw [hrefused] at hrun
      cases hrun
      exact reports_loggedAll hevents h
    · rw [htrapped] at hrun
      cases hrun
    · rw [hok] at hrun
      cases hrun
  · rcases resize_in_place h' hs hn hfits with ⟨trap, htrapped, -⟩ | ⟨size, hok, -⟩
    · rw [htrapped] at hrun
      cases hrun
    · rw [hok] at hrun
      cases hrun

end Heap
end SegregatedFit
