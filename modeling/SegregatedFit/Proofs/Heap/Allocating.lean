-- SUMMARY: What an allocation makes of a heap, and when it is refused.
import SegregatedFit.Heap.Allocation
import SegregatedFit.Proofs.Heap.Supply

/-!
# Allocating

An allocation carves its block out of a listed one, or else out of the last
block after growth (`Takes`). It is refused for one of the reasons that `Denies`
lists, and then leaves the heap as it was but for the log. Main statement:
`allocate_outcome`; `allocate_cases` is what it says of the allocated blocks.
-/
namespace SegregatedFit.Heap

open Block FreeLists

variable {h g : Heap Arena} {front back spans : List Span} {s : Span} {n size growths : Nat}
variable {rings rings' : Bucket → List Nat}

/-! ## Finding a block -/

theorem findOrGrow_of_found {bp : Nat} (hfind : h.find? size = .ok (some bp)) :
    findOrGrow n size h = .ok (bp, .freeList) h := by
  simp only [findOrGrow, Action.bind_apply, Action.get_apply, hfind, Action.lift_failure_ok,
    Action.pure_apply]

theorem findOrGrow_of_grown {bp chunk : Nat} (hfind : h.find? size = .ok none)
    (hchunk : max size h.config.chunkSize = chunk)
    (hextend : extend (chunk / wordSize) h = .ok bp g) :
    findOrGrow n size h = .ok (bp, .growth) g := by
  subst hchunk
  simp only [findOrGrow, Action.bind_apply, Action.get_apply, hfind, Action.lift_failure_ok,
    Action.attempt_apply, hextend, Action.pure_apply]

theorem findOrGrow_of_refused {chunk : Nat} {cause : HeapError} (hfind : h.find? size = .ok none)
    (hchunk : max size h.config.chunkSize = chunk)
    (hextend : extend (chunk / wordSize) h = .error (.refused cause) g)
    (g' : g.Arranged spans rings) :
    findOrGrow n size h = .error (.refused cause) (g.logged (.allocFailed n size cause)) := by
  subst hchunk
  simp only [findOrGrow, Action.bind_apply, Action.get_apply, hfind, Action.lift_failure_ok,
    Action.attempt_apply, hextend, g'.logEvent, Action.refuse_apply]

theorem findOrGrow_of_trapped {chunk : Nat} {trap : Trap} (hfind : h.find? size = .ok none)
    (hchunk : max size h.config.chunkSize = chunk)
    (hextend : extend (chunk / wordSize) h = .error (.trapped trap) g) :
    findOrGrow n size h = .error (.trapped trap) g := by
  subst hchunk
  simp only [findOrGrow, Action.bind_apply, Action.get_apply, hfind, Action.lift_failure_ok,
    Action.attempt_apply, hextend]

/-! ## Allocating -/

theorem allocate_uninitialized (hprologue : h.prologue = none) (n : Nat) :
    allocate n h = .error (.refused .uninitialized) h := by
  have hnone : h.requirePrologue = .error .uninitialized := by simp [requirePrologue, hprologue]
  simp only [allocate, Action.bind_apply, Action.get_apply, hnone, Action.lift_refused]

theorem requirePrologue_of_arranged (h' : h.Arranged spans rings) :
    h.requirePrologue = .ok (h.base + pairSize) := by
  simp [requirePrologue, h'.prologue_eq]

theorem allocate_zero (h' : h.Arranged spans rings) :
    allocate 0 h =
      .error (.refused (.invalidArgument "zero-size allocation")) (h.logged .askedNothing) := by
  simp only [allocate, Action.bind_apply, Action.get_apply, requirePrologue_of_arranged h',
    Action.lift_ok, if_true, h'.logEvent, Action.refuse_apply]

theorem allocate_tooMuch (h' : h.Arranged spans rings) (hsize : sizeFor n = none) :
    allocate n h = .error (.refused (.sizeOverflow n)) (h.logged (.askedTooMuch n)) := by
  have hn : n ≠ 0 := by
    rintro rfl
    exact absurd (sizeFor_eq_none_iff.1 hsize) (by decide)
  simp only [allocate, Action.bind_apply, Action.get_apply, requirePrologue_of_arranged h',
    Action.lift_ok, if_neg hn, hsize, h'.logEvent, Action.refuse_apply]

theorem allocate_of_findFailed {failure : Failure HeapError} (h' : h.Arranged spans rings)
    (hn : n ≠ 0) (hsize : sizeFor n = some size)
    (hfind : findOrGrow n size h = .error failure g) : allocate n h = .error failure g := by
  simp only [allocate, Action.bind_apply, Action.get_apply, requirePrologue_of_arranged h',
    Action.lift_ok, if_neg hn, hsize, hfind]

/-- An allocation from a block that was found or grown for it. -/
theorem allocate_of_block {source : Source} (h' : h.Arranged spans rings) (hn : n ≠ 0)
    (hsize : sizeFor n = some size) (hfind : findOrGrow n size h = .ok (s.offset, source) g)
    (g' : g.Arranged (front ++ s :: back) rings') (hfree : s.isFree = true) (hfit : size ≤ s.size) :
    ∃ lists m,
      allocate n h = .ok s.offset (((g.withLists lists m).carved s size).logged
        (.allocated s.offset n size (taken s size).size source)) ∧
      Arranged ((g.withLists lists m).carved s size)
        (front ++ taken s size :: leftover s size ++ back) (carvedRings rings' s size) ∧
      g.region.memory.Rewritten m (FreeBytes (front ++ s :: back)) [s.offset] ∧
      Carves g.lists g.region.memory m s size := by
  obtain ⟨hdvd, hmin, -⟩ := proper_of_sizeFor hsize
  obtain ⟨lists, m, hcarve, hcarved, hedit⟩ := carve_apply g' hfree hdvd hmin hfit
  refine ⟨lists, m, ?_, hcarved, hedit⟩
  simp only [allocate, Action.bind_apply, Action.get_apply, requirePrologue_of_arranged h',
    Action.lift_ok, if_neg hn, hsize, hfind, hcarve, hcarved.logEvent, Action.pure_apply]

/-! ## What an allocation makes of a heap -/

/-- `g` is `h` after `growths` growths by `chunk` bytes. What lies before the heap
and in its allocated blocks is as it was. -/
structure Enlarged (h g : Heap Arena) (spans : List Span) (chunk growths : Nat) : Prop where
  config_eq : g.config = h.config
  base_eq : g.base = h.base
  limit_eq : g.region.limit = h.region.limit
  growCalls_eq : g.region.growCalls = h.region.growCalls + growths
  size_eq : g.region.memory.size = h.region.memory.size + growths * chunk
  kept : h.region.memory.Kept g.region.memory (fun i => i < h.base ∨ HeldBytes spans i)

/-- In `g`, the free block `s` is ready to be carved for `size` bytes. -/
structure Readied (h g : Heap Arena) (spans : List Span) (rings : Bucket → List Nat)
    (size growths : Nat) (front : List Span) (s : Span) (back : List Span) : Prop
    extends h.Enlarged g spans (h.chunkFor size) growths where
  supplies : h.Supplies size spans growths front s back
  /-- Up to the block itself, the rings are as they were. -/
  arranged : ∃ rings', g.Arranged (front ++ s :: back) rings' ∧
    dropped rings' [s.offset] = dropped rings [s.offset]
  fits : size ≤ s.size
  counters_eq : g.counters = { h.counters with extendCalls := h.counters.extendCalls + growths }
  claims : ∀ ptr, Claims g.region.memory ptr → Claims h.region.memory ptr

/-- `g` is `h` after the front of the block `s` was allocated for `size` bytes, and
the rest of it listed, if it can be a block. -/
structure Takes (h g : Heap Arena) (spans : List Span) (rings : Bucket → List Nat)
    (size growths : Nat) (front : List Span) (s : Span) (back : List Span) : Prop
    extends h.Enlarged g spans (h.chunkFor size) growths where
  supplies : h.Supplies size spans growths front s back
  arranged : g.Arranged (front ++ taken s size :: leftover s size ++ back)
    (carvedRings rings s size)
  fits : size ≤ s.size
  counters_eq : g.counters =
    Counters.added { h.counters with extendCalls := h.counters.extendCalls + growths }
      (taken s size).size

/-- A block that was found is ready as it is. -/
theorem readied_of_found (h' : h.Arranged (front ++ s :: back) rings)
    (hfind : h.find? size = .ok (some s.offset)) (hfit : size ≤ s.size) :
    h.Readied h (front ++ s :: back) rings size 0 front s back where
  config_eq := rfl
  base_eq := rfl
  limit_eq := rfl
  growCalls_eq := rfl
  size_eq := by simp
  kept := ⟨Nat.le_refl _, fun _ _ => rfl⟩
  supplies := .found hfind rfl
  arranged := ⟨rings, h', rfl⟩
  fits := hfit
  counters_eq := rfl
  claims _ hptr := hptr

/-- A chunk is a proper block, and large enough for what it is grown for. -/
theorem chunkFor_proper (hconfig : h.config.normalized = h.config)
    (hsize : sizeFor n = some size) :
    pairSize ∣ h.chunkFor size ∧ minBlock ≤ h.chunkFor size ∧ h.chunkFor size < wordCount ∧
      size ≤ h.chunkFor size := by
  obtain ⟨hdvd, -, hlt⟩ := proper_of_sizeFor hsize
  obtain ⟨hdvd', hmin', hlt'⟩ := Config.max_chunkSize_proper hconfig hdvd hlt
  exact ⟨hdvd', hmin', hlt', Nat.le_max_left _ _⟩

/-- The words of a chunk come to the chunk. -/
theorem extend_chunkFor (hconfig : h.config.normalized = h.config)
    (hsize : sizeFor n = some size) :
    (extend (h.chunkFor size / wordSize) : HeapM Arena Nat) = grow (h.chunkFor size) := by
  obtain ⟨hdvd, hmin, hlt, -⟩ := chunkFor_proper hconfig hsize
  exact extend_div hdvd hmin hlt

/-- A heap that grows for a block has it ready. -/
theorem exists_readied_of_grown (h' : h.Arranged spans rings)
    (hconfig : h.config.normalized = h.config) (hsize : sizeFor n = some size)
    (hfind : h.find? size = .ok none)
    (hgrow : Arena.grow (h.chunkFor size) h.region =
      .ok h.region.memory.size (h.regionAfter (h.chunkFor size)))
    (hlt : 2 * (h.region.memory.size + h.chunkFor size) < wordCount) :
    ∃ g front s, findOrGrow n size h = .ok (s.offset, .growth) g ∧
      h.Readied g spans rings size 1 front s [] ∧ h.log.Quiet g.log := by
  obtain ⟨hdvd, hmin, -, hfit⟩ := chunkFor_proper hconfig hsize
  obtain ⟨s, lists, m, hs, hrun, hgrown, hm, hkept, hclaims⟩ :=
    grow_of_ok h' hgrow hdvd hmin hlt
  have hmem : s ∈ freeRun spans s [] := by simp [freeRun]
  have hchunk : h.chunkFor size = s.size := (congrArg Span.size hs).symm
  refine ⟨_, spans.rdropWhile Span.isFree, joined (freeRun spans s []),
    findOrGrow_of_grown hfind rfl (extend_chunkFor hconfig hsize ▸ hrun), ?_,
    (Log.quiet_record (by simp [Event.books_iff]) _ _).trans
      (Log.quiet_record (by simp [Event.books_iff]) _ _)⟩
  exact {
    config_eq := rfl
    base_eq := rfl
    limit_eq := rfl
    growCalls_eq := rfl
    size_eq := by simpa using hm
    kept := hkept
    supplies := h'.supplies_of_grown hfind hs
    arranged := ⟨_, hgrown.logged _, dropped_relisted_nil h'.consistent.separated⟩
    fits := Nat.le_trans hfit (hchunk ▸ size_le_joined hmem)
    counters_eq := rfl
    claims := hclaims }

/-- Allocating from the block that is ready. -/
theorem allocate_of_readied {source : Source} (h' : h.Arranged spans rings) (hn : n ≠ 0)
    (hsize : sizeFor n = some size) (hfind : findOrGrow n size h = .ok (s.offset, source) g)
    (hready : h.Readied g spans rings size growths front s back) :
    ∃ k, allocate n h = .ok s.offset k ∧ h.Takes k spans rings size growths front s back ∧
      g.region.memory.Rewritten k.region.memory (FreeBytes (front ++ s :: back)) [s.offset] ∧
      Carves g.lists g.region.memory k.region.memory s size ∧
      g.Concludes k (.allocated s.offset n size (taken s size).size source) := by
  obtain ⟨rings', g', hrings⟩ := hready.arranged
  obtain ⟨lists, m, hrun, hcarved, hedit, hcarves⟩ :=
    allocate_of_block h' hn hsize hfind g' (hready.supplies.isFree h') hready.fits
  refine ⟨_, hrun, ?_, by simpa using hedit, by simpa using hcarves, _, ?_, rfl⟩
  case refine_2 => exact quiet_carved (g.withLists lists m) s size
  exact {
    config_eq := by simpa using hready.config_eq
    base_eq := by simpa using hready.base_eq
    limit_eq := by simpa using hready.limit_eq
    growCalls_eq := by simpa using hready.growCalls_eq
    size_eq := by simpa using hedit.size_eq.trans hready.size_eq
    kept := by
      refine ⟨by simpa using Nat.le_trans hready.kept.size_le (Nat.le_of_eq hedit.size_eq.symm),
        fun i hi => ?_⟩
      have hout : ¬ FreeBytes (front ++ s :: back) i := by
        rcases hi with hlow | ⟨t, ht, hti⟩
        · exact g'.row.not_freeBytes_of_lt (Nat.lt_add_right pairSize (hready.base_eq ▸ hlow))
        · exact g'.row.not_freeBytes (hready.supplies.held_eq ▸ ht) hti
      simpa using (hedit.byteAt_eq i hout).trans (hready.kept.byteAt_eq i hi)
    supplies := hready.supplies
    arranged := carvedRings_congr hrings size ▸ hcarved.logged _
    fits := hready.fits
    counters_eq := by simp [hready.counters_eq] }

/-- To the allocated blocks an allocation adds the new one. -/
theorem Takes.exchanged (htakes : h.Takes g spans rings size growths front s back)
    (h' : h.Arranged spans rings) :
    h.Exchanged g spans (front ++ taken s size :: leftover s size ++ back) [] [taken s size] where
  config_eq := htakes.config_eq
  arranged := ⟨_, htakes.arranged⟩
  perm := by
    have hheld : held spans = held front ++ held back := by
      rw [← htakes.supplies.held_eq, held_append, held_cons_free (htakes.supplies.isFree h')]
    rw [held_carved, hheld]
    exact List.perm_middle
  carried u hu _ i hi := htakes.kept.byteAt_eq i (Or.inr ⟨u, hu, hi⟩)

/-- The new block holds what was asked for. -/
theorem Takes.le_payloadSize (htakes : h.Takes g spans rings size growths front s back)
    (hsize : sizeFor n = some size) : n ≤ payloadSize (taken s size).size := by
  have hproper : (taken s size).Proper := htakes.arranged.row.proper _ (by simp)
  apply (sizeFor_le_iff hsize hproper.2.1 hproper.2.2).1
  exact le_size_taken htakes.fits

/-! ## Outcomes -/

/-- There is a block of `size` bytes, or room to grow for one. -/
def HasRoom (h : Heap Arena) (size : Nat) : Prop :=
  h.Offers size ∨ h.region.memory.size + h.chunkFor size ≤ h.region.limit

/-- A block is found or grown for exactly if there is room, unless the growth is
trapped. -/
theorem findOrGrow_cases (h' : h.Arranged spans rings) (hconfig : h.config.normalized = h.config)
    (hsize : sizeFor n = some size) :
    (∃ events, findOrGrow n size h =
        .error (.refused (.arena (.exhausted (h.chunkFor size) h.region.memory.size
          h.region.limit))) (h.loggedAll events) ∧
      (∀ event ∈ events, ¬ event.Books) ∧ ¬ h.Offers size ∧
      (h.region.limit < h.region.memory.size + h.chunkFor size ∨ wordCount ≤ h.region.limit)) ∨
    (∃ trap g, findOrGrow n size h = .error (.trapped trap) g ∧ h.HasRoom size ∧
      (wordCount ≤ 2 * h.region.limit ∨ wordCount ≤ h.region.growCalls + 1)) ∨
    (∃ g source growths front s back, findOrGrow n size h = .ok (s.offset, source) g ∧
      h.HasRoom size ∧ h.Readied g spans rings size growths front s back ∧
      h.log.Quiet g.log) := by
  cases hfind : h.find? size with
  | error failure =>
    rw [h'.find?_eq] at hfind
    cases hfind
  | ok found =>
    cases found with
    | some bp =>
      have hoffers : h.Offers size := by
        by_contra hnone
        rw [h'.find?_eq_none_iff.2 hnone] at hfind
        cases hfind
      obtain ⟨front, s, back, rfl, rfl, -, hfit⟩ := h'.exists_of_find? hfind
      exact Or.inr (Or.inr ⟨h, .freeList, 0, front, s, back, findOrGrow_of_found hfind,
        Or.inl hoffers, readied_of_found h' hfind hfit, .refl h.log⟩)
    | none =>
      have hnone := h'.find?_eq_none_iff.1 hfind
      have hextend := extend_chunkFor hconfig hsize
      rcases Arena.grow_cases h.region (h.chunkFor size) with
        ⟨cause, hgrow, rfl, hfull⟩ | ⟨trap, hgrow, hroom, hwords⟩ | ⟨hgrow, hroom, hlt⟩
      · have hrun := findOrGrow_of_refused (n := n) hfind rfl
          (hextend ▸ grow_of_refused h' hgrow) (h'.logged _)
        exact Or.inl ⟨[_, _], hrun, by simp [Event.books_iff], hnone, hfull⟩
      · have hrun := findOrGrow_of_trapped (n := n) hfind rfl (hextend ▸ grow_of_trapped hgrow)
        exact Or.inr (Or.inl ⟨trap, _, hrun, Or.inr hroom, hwords⟩)
      · obtain ⟨g, front, s, hrun, hready, hquiet⟩ :=
          exists_readied_of_grown h' hconfig hsize hfind hgrow hlt
        exact Or.inr (Or.inr ⟨g, .growth, 1, front, s, [], hrun, Or.inr hroom, hready, hquiet⟩)

/-- There is room for what is not denied. -/
theorem not_denies_of_hasRoom {cause : HeapError} (h' : h.Arranged spans rings) (hn : n ≠ 0)
    (hsize : sizeFor n = some size) (hroom : h.HasRoom size) : ¬ h.Denies n cause := by
  obtain ⟨rfl, hfits⟩ := sizeFor_eq_some_iff.1 hsize
  have hinit : h.isInitialized = true := by simp [isInitialized, h'.prologue_eq]
  rintro (hinit' | ⟨-, rfl⟩ | ⟨-, hlt⟩ | ⟨-, -, -, rfl, hnone, hfull⟩)
  · rw [hinit] at hinit'
    cases hinit'
  · exact hn rfl
  · omega
  · rcases hroom with hoffers | hroom
    · exact hnone hoffers
    · exact Nat.not_lt.2 hroom hfull

/-- An allocation is refused for the reason for which it is denied, and leaves the heap
as it was but for the log, where neither an allocation nor a free is added. An allocation
that is not denied takes a block, unless the growth of the arena is trapped. -/
theorem allocate_outcome (h' : h.Arranged spans rings) (hconfig : h.config.normalized = h.config)
    (n : Nat) :
    (∃ cause events, allocate n h = .error (.refused cause) (h.loggedAll events) ∧
      (∀ event ∈ events, ¬ event.Books) ∧ (h.Denies n cause ∨ wordCount ≤ h.region.limit)) ∨
    (∃ trap g, allocate n h = .error (.trapped trap) g ∧ (∀ cause, ¬ h.Denies n cause) ∧
      (wordCount ≤ 2 * h.region.limit ∨ wordCount ≤ h.region.growCalls + 1)) ∨
    (∃ g size growths front s back, allocate n h = .ok s.offset g ∧
      (∀ cause, ¬ h.Denies n cause) ∧ sizeFor n = some size ∧
      h.Takes g spans rings size growths front s back) := by
  have hinit : h.isInitialized = true := by simp [isInitialized, h'.prologue_eq]
  by_cases hn : n = 0
  · subst hn
    exact Or.inl ⟨_, [.askedNothing], allocate_zero h', by simp [Event.books_iff],
      Or.inl (.nothing hinit rfl)⟩
  cases hsize : sizeFor n with
  | none =>
    have hlt : wordCount - minBlock < n := by
      have hover := sizeFor_eq_none_iff.1 hsize
      omega
    exact Or.inl ⟨_, [.askedTooMuch n], allocate_tooMuch h' hsize, by simp [Event.books_iff],
      Or.inl (.tooMuch hinit hlt)⟩
  | some size =>
    rcases findOrGrow_cases h' hconfig hsize with
      ⟨events, hrun, hevents, hnone, hfull⟩ | ⟨trap, g, hrun, hroom, hwords⟩ |
      ⟨g, source, growths, front, s, back, hrun, hroom, hready, -⟩
    · refine Or.inl ⟨_, events, allocate_of_findFailed h' hn hsize hrun, hevents, ?_⟩
      obtain ⟨hmax, hfits⟩ := sizeFor_eq_some_iff.1 hsize
      exact hfull.imp_left (.exhausted hinit hn (by omega) hmax.symm hnone)
    · exact Or.inr (Or.inl ⟨trap, g, allocate_of_findFailed h' hn hsize hrun,
        fun _ => not_denies_of_hasRoom h' hn hsize hroom, hwords⟩)
    · obtain ⟨k, hallocate, htakes, -⟩ := allocate_of_readied h' hn hsize hrun hready
      exact Or.inr (Or.inr ⟨k, size, growths, front, s, back, hallocate,
        fun _ => not_denies_of_hasRoom h' hn hsize hroom, rfl, htakes⟩)

/-- An allocation is refused and leaves the heap as it was but for the log, or
is trapped in the growth of the arena, or hands out a new block. -/
theorem allocate_cases (h' : h.Arranged spans rings) (hconfig : h.config.normalized = h.config)
    (n : Nat) :
    (∃ cause events, allocate n h = .error (.refused cause) (h.loggedAll events)) ∨
    (∃ trap g, allocate n h = .error (.trapped trap) g) ∨
    (∃ g spans' t, allocate n h = .ok t.offset g ∧ h.Exchanged g spans spans' [] [t] ∧
      n ≤ payloadSize t.size) := by
  rcases allocate_outcome h' hconfig n with
    ⟨cause, events, hrun, -⟩ | ⟨trap, g, hrun, -⟩ |
    ⟨g, size, growths, front, s, back, hrun, -, hsize, htakes⟩
  · exact Or.inl ⟨cause, events, hrun⟩
  · exact Or.inr (Or.inl ⟨trap, g, hrun⟩)
  · exact Or.inr (Or.inr ⟨g, _, taken s size, hrun, htakes.exchanged h',
      htakes.le_payloadSize hsize⟩)

/-- An answered allocation carved the block that was ready for it. -/
theorem exists_carves_of_allocate {p : Nat} (h' : h.Arranged spans rings)
    (hconfig : h.config.normalized = h.config) (hrun : allocate n h = .ok p g) :
    ∃ k size growths front s back, s.offset = p ∧
      h.Readied k spans rings size growths front s back ∧
      h.Takes g spans rings size growths front s back ∧
      k.region.memory.Rewritten g.region.memory (FreeBytes (front ++ s :: back)) [p] ∧
      Carves k.lists k.region.memory g.region.memory s size ∧
      ∃ source, h.Concludes g (.allocated p n size (taken s size).size source) := by
  have hn : n ≠ 0 := by
    rintro rfl
    rw [allocate_zero h'] at hrun
    cases hrun
  cases hsize : sizeFor n with
  | none =>
    rw [allocate_tooMuch h' hsize] at hrun
    cases hrun
  | some size =>
    rcases findOrGrow_cases h' hconfig hsize with
      ⟨events, hfind, -⟩ | ⟨trap, k, hfind, -⟩ |
      ⟨k, source, growths, front, s, back, hfind, -, hready, hquiet⟩
    · rw [allocate_of_findFailed h' hn hsize hfind] at hrun
      cases hrun
    · rw [allocate_of_findFailed h' hn hsize hfind] at hrun
      cases hrun
    · obtain ⟨g', hrun', htakes, hedit, hcarves, hlogged⟩ :=
        allocate_of_readied h' hn hsize hfind hready
      rw [hrun'] at hrun
      obtain ⟨rfl, rfl⟩ := EStateM.Result.ok.inj hrun
      exact ⟨k, size, growths, front, s, back, rfl, hready, htakes, hedit, hcarves, source,
        hlogged.of_quiet hquiet⟩

end SegregatedFit.Heap
