-- SUMMARY: What resizing makes of a heap, in place and with a move, and when it is refused.
import SegregatedFit.Proofs.Heap.Allocating
import SegregatedFit.Proofs.Heap.Releasing

/-!
# Resizing

A resize that the block already covers is counted and changes nothing else
(`resize_in_place`). Otherwise a block for the new size is allocated, the payload
is copied into it and the old block is freed (`Moves`, `resize_outcome`). A refused
resize has been refused before any of this, or by the allocation: the old block
is still there with its payload. `resize_cases` is what this says of the allocated
blocks.
-/
namespace SegregatedFit.Heap

open Block FreeLists

variable {h g : Heap Arena} {spans : List Span} {s : Span} {n ptr : Nat}
variable {rings : Bucket → List Nat}

theorem loggedAll_concat (h : Heap Arena) (events : List Event) (event : Event) :
    (h.loggedAll events).logged event = h.loggedAll (events ++ [event]) := by
  simp [loggedAll]

theorem Arranged.loggedAll (h' : h.Arranged spans rings) (events : List Event) :
    (h.loggedAll events).Arranged spans rings := by
  induction events generalizing h with
  | nil => exact h'
  | cons event events ih => exact ih (h'.logged event)

/-- Copying the payload of one allocated block into another one's. -/
theorem copy_apply {t : Span} (h' : h.Arranged spans rings) (hs : s ∈ held spans)
    (ht : t ∈ held spans) (hfits : payloadSize s.size ≤ payloadSize t.size) :
    write (Memory.copy s.offset (payloadSize s.size) t.offset) h =
        .ok () (h.withLists h.lists (h.region.memory.setSlice t.offset
          (h.region.memory.slice s.offset (payloadSize s.size)))) ∧
      h.region.memory.Edited (h.region.memory.setSlice t.offset
        (h.region.memory.slice s.offset (payloadSize s.size))) t.InPayload := by
  have hbs := h'.row.bounds (mem_held.1 hs).1
  have hbt := h'.row.bounds (mem_held.1 ht).1
  have hinside : s.offset + payloadSize s.size ≤ h.region.memory.size ∧
      t.offset + payloadSize s.size ≤ h.region.memory.size := by
    simp only [payloadSize, Span.stop, pairSize, minBlock] at *
    omega
  refine ⟨?_, (Memory.edited_setSlice _ _ _).mono ?_⟩
  · apply write_of_ok
    simp only [Memory.copy, if_pos hinside]
  · intro i hi
    simp only [Memory.length_slice, payloadSize, Span.InPayload, Span.stop, pairSize] at *
    omega

/-- A block that was allocated, filled with the payload of another one and takes
its place. -/
theorem Exchanged.moved {k : Heap Arena} {m : Memory} {spans' spans'' : List Span} {s t : Span}
    {rings' : Bucket → List Nat} (hex : h.Exchanged g spans spans' [] [t])
    (g' : g.Arranged spans' rings') (hedit : g.region.memory.Edited m t.InPayload)
    (hex' : (g.withLists g.lists m).Exchanged k spans' spans'' [s] []) :
    h.Exchanged k spans spans'' [s] [t] := by
  have ht : t ∈ held spans' := hex.perm.mem_iff.2 List.mem_cons_self
  have hnew : t ∉ held spans := (List.nodup_cons.1 (hex.perm.nodup_iff.1 g'.nodup_held)).1
  refine ⟨hex'.config_eq.trans hex.config_eq, hex'.arranged, hex'.perm.trans hex.perm, ?_⟩
  intro u hu hu'' i hi
  have hu' : u ∈ held spans' := hex.perm.mem_iff.2 (List.mem_cons_of_mem t hu)
  have hout : ¬ t.InPayload i := by
    intro hti
    have heq := g'.row.eq_of_covers (mem_held.1 hu').1 (mem_held.1 ht).1 hi (.of_inPayload hti)
    exact hnew (heq ▸ hu)
  calc k.region.memory.byteAt i
      = m.byteAt i := hex'.carried u hu' hu'' i hi
    _ = g.region.memory.byteAt i := hedit.byteAt_eq i hout
    _ = h.region.memory.byteAt i := hex.carried u hu hu' i hi

/-- `g` has the blocks and the rings of `f`, and all else but bytes, counts and log. -/
structure LaidAlike (f g : Heap Arena) : Prop where
  arranged : ∃ spans rings, f.Arranged spans rings ∧ g.Arranged spans rings
  lists_eq : g.lists = f.lists
  config_eq : g.config = f.config
  base_eq : g.base = f.base
  limit_eq : g.region.limit = f.region.limit
  growCalls_eq : g.region.growCalls = f.region.growCalls
  size_eq : g.region.memory.size = f.region.memory.size

/-- Heaps that are laid alike are so after the same block was freed. -/
theorem LaidAlike.frees {k k' f : Heap Arena} {front back : List Span} (halike : k.LaidAlike k')
    (hf : k.Frees f front s back rings) (hg : k'.Frees g front s back rings) :
    f.LaidAlike g where
  arranged := ⟨_, _, hf.arranged, hg.arranged⟩
  lists_eq := hf.arranged.indexed.lists_eq hg.arranged.indexed
  config_eq := by rw [hf.config_eq, hg.config_eq, halike.config_eq]
  base_eq := by rw [hf.base_eq, hg.base_eq, halike.base_eq]
  limit_eq := by rw [hf.limit_eq, hg.limit_eq, halike.limit_eq]
  growCalls_eq := by rw [hf.growCalls_eq, hg.growCalls_eq, halike.growCalls_eq]
  size_eq := by rw [hf.size_eq, hg.size_eq, halike.size_eq]

/-- `g` is `h` after the payload of the block `s` was moved into the new block `t`,
which was allocated for `target` bytes, and `s` was freed. -/
structure Moves (h g : Heap Arena) (spans spans' : List Span) (s t : Span) (target : Nat) :
    Prop where
  exchanged : h.Exchanged g spans spans' [s] [t]
  new : ∀ u ∈ held spans, t.offset ≠ u.offset
  fits : target ≤ payloadSize t.size
  copied : g.region.memory.slice t.offset (payloadSize s.size) =
    h.region.memory.slice s.offset (payloadSize s.size)
  counted : g.counters.resizeMoves = h.counters.resizeMoves + 1
  /-- Without the copy, an allocation and then a free come to the same. -/
  separately : ∃ k f, allocate target h = .ok t.offset k ∧ free s.offset k = .ok () f ∧
    f.LaidAlike g ∧ g.counters = { f.counters with resizeMoves := f.counters.resizeMoves + 1 }

/-- The copy of a payload is still there after the original was freed. -/
theorem Frees.slice_copied {k : Heap Arena} {front back : List Span} {t : Span} {n : Nat}
    {m : Memory} (hfrees : (k.withLists k.lists m).Frees g front s back rings)
    (ht : t ∈ held (front ++ back)) (hn : n ≤ payloadSize t.size)
    (hm : m = k.region.memory.setSlice t.offset (k.region.memory.slice s.offset n))
    (hin : t.offset + n ≤ k.region.memory.size) :
    g.region.memory.slice t.offset n = k.region.memory.slice s.offset n := by
  have hkept : g.region.memory.slice t.offset n = m.slice t.offset n :=
    Span.slice_congr hn fun i hi => hfrees.kept.byteAt_eq i ⟨t, ht, hi⟩
  have hlen : (k.region.memory.slice s.offset n).length = n := Memory.length_slice _ _ _
  calc g.region.memory.slice t.offset n
      = m.slice t.offset (k.region.memory.slice s.offset n).length := by rw [hkept, hlen]
    _ = k.region.memory.slice s.offset n := by
      rw [hm]
      exact Memory.slice_setSlice (by rwa [hlen])

/-- In the heap `k` the payload of `s` was copied into the block `t`, which made `m` of
its memory, and then `s` was freed, which made `g` of it, and `f` without the copy. -/
structure Transfers (k : Heap Arena) (m : Memory) (f g : Heap Arena) (spans spans' : List Span)
    (s t : Span) : Prop where
  copies : write (Memory.copy s.offset (payloadSize s.size) t.offset) k =
    .ok () (k.withLists k.lists m)
  frees : free s.offset (k.withLists k.lists m) = .ok () g
  separately : free s.offset k = .ok () f
  edited : k.region.memory.Edited m t.InPayload
  exchanged : (k.withLists k.lists m).Exchanged g spans spans' [s] []
  copied : g.region.memory.slice t.offset (payloadSize s.size) =
    k.region.memory.slice s.offset (payloadSize s.size)
  alike : f.LaidAlike g
  counters_eq : g.counters = f.counters
  moves_eq : g.counters.resizeMoves = k.counters.resizeMoves

/-- A payload can be copied into another block that is large enough. -/
theorem exists_transfers {k : Heap Arena} {t : Span} (k' : k.Arranged spans rings)
    (hs : s ∈ held spans) (ht : t ∈ held spans) (hne : t ≠ s)
    (hfits : payloadSize s.size ≤ payloadSize t.size) :
    ∃ m f g spans', k.Transfers m f g spans spans' s t := by
  obtain ⟨hcopy, hedit⟩ := copy_apply k' hs ht hfits
  obtain ⟨m, hm⟩ : ∃ m, m = k.region.memory.setSlice t.offset
      (k.region.memory.slice s.offset (payloadSize s.size)) := ⟨_, rfl⟩
  rw [← hm] at hcopy hedit
  have kc := k'.edited_payload ht hedit
  obtain ⟨front, back, rfl, halloc⟩ := exists_middle_of_held hs
  -- freed twice: as it is with the copy, and as it would be without
  obtain ⟨f, hfree, hf⟩ := free_middle k' halloc
  obtain ⟨g, hfree', hg⟩ := free_middle kc halloc
  have hleft : t ∈ held (front ++ back) := by
    rw [held_append, held_cons_allocated halloc] at ht
    rw [held_append]
    simpa [hne] using ht
  have hin : t.offset + payloadSize s.size ≤ k.region.memory.size := by
    have hbounds := k'.row.bounds (mem_held.1 ht).1
    simp only [payloadSize, Span.stop, pairSize] at *
    omega
  refine ⟨m, f, g, merged front s.freed back, ?_⟩
  exact {
    copies := hcopy
    frees := hfree'
    separately := hfree
    edited := hedit
    exchanged := hg.exchanged halloc
    copied := hg.slice_copied hleft hfits hm hin
    alike := LaidAlike.frees ⟨⟨_, _, k', kc⟩, rfl, rfl, rfl, rfl, rfl, hedit.size_eq⟩ hf hg
    counters_eq := by
      rw [hg.counters_eq, hf.counters_eq]
      rfl
    moves_eq := by
      rw [hg.counters_eq]
      rfl }

/-- The move of a payload is counted and logged when all is done. -/
theorem Transfers.moves {k f g : Heap Arena} {m : Memory} {spans' spans'' : List Span} {t : Span}
    {target : Nat} {rings' : Bucket → List Nat} (htransfers : k.Transfers m f g spans' spans'' s t)
    (hs : s ∈ held spans) (hrun : allocate target h = .ok t.offset k)
    (hex : h.Exchanged k spans spans' [] [t]) (k' : k.Arranged spans' rings')
    (hmoves : k.counters.resizeMoves = h.counters.resizeMoves)
    (hfits : target ≤ payloadSize t.size) (event : Event) :
    h.Moves ((g.withCounters { g.counters with
      resizeMoves := g.counters.resizeMoves + 1 }).logged event) spans spans'' s t target := by
  obtain ⟨_, _, f', g'⟩ := htransfers.alike.arranged
  have hmoved := hex.moved k' htransfers.edited htransfers.exchanged
  exact {
    exchanged := (hmoved.recounted (g.counters.resizeMoves + 1) g.counters.resizeInPlace).logged _
    new := hex.offset_ne k'
    fits := hfits
    copied := by
      have hs' : s ∈ held spans' := hex.perm.mem_iff.2 (List.mem_cons_of_mem t hs)
      refine htransfers.copied.trans ?_
      exact Span.slice_congr (Nat.le_refl _) (hex.carried s hs hs')
    counted := congrArg (· + 1) (htransfers.moves_eq.trans hmoves)
    separately := by
      refine ⟨k, f, hrun, htransfers.separately, ?_, ?_⟩
      · have g'' := g'.recounted (g.counters.resizeMoves + 1) g.counters.resizeInPlace
        exact { htransfers.alike with arranged := ⟨_, _, f', g''.logged event⟩ }
      · rw [← htransfers.counters_eq]
        rfl }

/-- Moving a payload after a block for it was allocated. -/
theorem relocate_of_allocated {k : Heap Arena} {spans' : List Span} {t : Span} {target : Nat}
    {rings' : Bucket → List Nat} (hs : s ∈ held spans)
    (hmul : Word.mul? n h.config.resizeFactor = some target)
    (hrun : allocate target h = .ok t.offset k) (hex : h.Exchanged k spans spans' [] [t])
    (k' : k.Arranged spans' rings') (hmoves : k.counters.resizeMoves = h.counters.resizeMoves)
    (hfits : target ≤ payloadSize t.size) (hgrows : payloadSize s.size ≤ target) :
    (∃ trap g, relocate s.offset s.size n h = .error (.trapped trap) g ∧
      wordCount ≤ h.counters.resizeMoves + 1) ∨
    (∃ g spans'', relocate s.offset s.size n h = .ok t.offset g ∧
      h.Moves g spans spans'' s t target) := by
  have ht : t ∈ held spans' := hex.perm.mem_iff.2 List.mem_cons_self
  have hs' : s ∈ held spans' := hex.perm.mem_iff.2 (List.mem_cons_of_mem t hs)
  have hne : t ≠ s := fun heq => hex.offset_ne k' s hs (congrArg Span.offset heq)
  obtain ⟨m, f, g, spans'', htransfers⟩ :=
    exists_transfers k' hs' ht hne (Nat.le_trans hgrows hfits)
  cases hcount : Word.add g.counters.resizeMoves 1 with
  | error trap =>
    have hrun' : count (fun c => return { c with
        resizeMoves := ← Word.add c.resizeMoves 1 }) g = .error (.trapped trap) g :=
      count_trapped (by rw [hcount]; rfl)
    refine Or.inl ⟨trap, g, ?_, ?_⟩
    · simp only [relocate, Action.bind_apply, Action.get_apply, hmul, Action.attempt_apply, hrun,
        htransfers.copies, htransfers.frees, hrun']
    · rw [← hmoves, ← htransfers.moves_eq]
      exact (Word.fit_eq_error_iff.1 hcount).1
  | ok moves =>
    obtain ⟨-, rfl⟩ := Word.fit_eq_ok_iff.1 hcount
    have hrun' : count (fun c => return { c with
        resizeMoves := ← Word.add c.resizeMoves 1 }) g =
        .ok () (g.withCounters { g.counters with resizeMoves := g.counters.resizeMoves + 1 }) :=
      count_apply (by rw [hcount]; rfl)
    obtain ⟨_, _, -, g'⟩ := htransfers.alike.arranged
    have g'' := g'.recounted (g.counters.resizeMoves + 1) g.counters.resizeInPlace
    refine Or.inr ⟨_, spans'', ?_, htransfers.moves hs hrun hex k' hmoves hfits
      (.moved s.offset t.offset n (payloadSize s.size) target)⟩
    simp only [relocate, Action.bind_apply, Action.get_apply, hmul, Action.attempt_apply, hrun,
      htransfers.copies, htransfers.frees, hrun', g''.logEvent, Action.pure_apply]

/-- Moving a payload is refused, and leaves the heap as it was but for the log, where
no word holds the new size or the allocation of the new block is denied. Otherwise the
payload is moved, unless the growth of the arena or the count of moves is trapped. -/
theorem relocate_outcome (h' : h.Arranged spans rings) (hconfig : h.config.normalized = h.config)
    (hs : s ∈ held spans) (hgrows : payloadSize s.size < n) :
    (∃ cause events,
      relocate s.offset s.size n h = .error (.refused cause) (h.loggedAll events) ∧
      (∀ event ∈ events, ¬ event.Books) ∧
      (wordCount ≤ n * h.config.resizeFactor ∧ cause = .sizeOverflow n ∨
        n * h.config.resizeFactor < wordCount ∧
          (h.Denies (n * h.config.resizeFactor) cause ∨ wordCount ≤ h.region.limit))) ∨
    n * h.config.resizeFactor < wordCount ∧
      (∀ cause, ¬ h.Denies (n * h.config.resizeFactor) cause) ∧
      ((∃ trap g, relocate s.offset s.size n h = .error (.trapped trap) g ∧
        (wordCount ≤ 2 * h.region.limit ∨ wordCount ≤ h.region.growCalls + 1 ∨
          wordCount ≤ h.counters.resizeMoves + 1)) ∨
      (∃ g spans' t, relocate s.offset s.size n h = .ok t.offset g ∧
        h.Moves g spans spans' s t (n * h.config.resizeFactor))) := by
  obtain ⟨target, htarget⟩ : ∃ target, target = n * h.config.resizeFactor := ⟨_, rfl⟩
  rw [← htarget]
  by_cases hlt : target < wordCount
  · have hmul : Word.mul? n h.config.resizeFactor = some target := by
      rw [Word.mul?, ← htarget, if_pos hlt]
    have hle : n ≤ target := Config.le_of_mul?_resizeFactor hconfig hmul
    rcases allocate_outcome h' hconfig target with
      ⟨cause, events, hrun, hevents, hcause⟩ | ⟨trap, g, hrun, hnone, hwords⟩ |
      ⟨k, size, growths, front, b, back, hrun, hnone, hsize, htakes⟩
    · refine Or.inl ⟨cause, events ++ [.resizeFailed s.offset target cause], ?_, ?_,
        Or.inr ⟨hlt, hcause⟩⟩
      case refine_2 => simpa [or_imp, forall_and, Event.books_iff] using hevents
      simp only [relocate, Action.bind_apply, Action.get_apply, hmul, Action.attempt_apply, hrun,
        (h'.loggedAll events).logEvent, Action.refuse_apply, loggedAll_concat]
    · refine Or.inr ⟨hlt, hnone, Or.inl ⟨trap, g, ?_, ?_⟩⟩
      · simp only [relocate, Action.bind_apply, Action.get_apply, hmul, Action.attempt_apply, hrun]
      · exact hwords.imp_right Or.inl
    · have hmoves : k.counters.resizeMoves = h.counters.resizeMoves := by
        rw [htakes.counters_eq]
        rfl
      rcases relocate_of_allocated (t := taken b size) hs hmul hrun (htakes.exchanged h')
          htakes.arranged hmoves (htakes.le_payloadSize hsize) (by omega) with
        ⟨trap, g, hrelocate, hfull⟩ | ⟨g, spans', hrelocate, hmoved⟩
      · exact Or.inr ⟨hlt, hnone, Or.inl ⟨trap, g, hrelocate, Or.inr (Or.inr hfull)⟩⟩
      · exact Or.inr ⟨hlt, hnone, Or.inr ⟨g, spans', _, hrelocate, hmoved⟩⟩
  · have hmul : Word.mul? n h.config.resizeFactor = none := by
      rw [Word.mul?, ← htarget, if_neg hlt]
    refine Or.inl ⟨.sizeOverflow n, [], ?_, by simp, Or.inl ⟨Nat.le_of_not_lt hlt, rfl⟩⟩
    simp only [relocate, Action.bind_apply, Action.get_apply, hmul, Action.refuse_apply]
    rfl

/-! ## Resizing -/

/-- Resizing the null pointer is allocating. -/
theorem resize_null (n : Nat) (h : Heap Arena) :
    resize nullPtr n h =
      match allocate n h with
      | .ok p g => .ok (some p) g
      | .error failure g => .error failure g := by
  simp only [resize, if_true, Action.bind_apply]
  cases allocate n h <;> rfl

/-- A pointer that is not taken for a block cannot be resized. -/
theorem resize_of_refused {cause : HeapError}
    (hbase : h.isInitialized = true → h.base ≤ h.region.memory.size) (hptr : ptr ≠ nullPtr)
    (hblock : h.blockAt ptr = .error cause) (n : Nat) :
    ∃ events, resize ptr n h = .error (.refused cause) (h.loggedAll events) ∧
      ∀ event ∈ events, ¬ event.Books := by
  by_cases hn : n = 0
  · refine ⟨[.freeRefused ptr cause], ?_, by simp [Event.books_iff]⟩
    simp only [resize, if_neg hptr, if_pos hn, Action.bind_apply, free_of_refused hbase hptr hblock]
    rfl
  · refine ⟨[], ?_, by simp⟩
    simp only [resize, if_neg hptr, if_neg hn, Action.bind_apply, Action.get_apply, hblock,
      Action.lift_refused]
    rfl

/-- Resizing a block to nothing is freeing it, and logging that. -/
theorem resize_zero_of_held (h' : h.Arranged spans rings) (hs : s ∈ held spans) :
    ∃ g spans', free s.offset h = .ok () g ∧
      resize s.offset 0 h = .ok none (g.logged (.resizedToNothing s.offset)) ∧
      h.Exchanged (g.logged (.resizedToNothing s.offset)) spans spans' [s] [] := by
  obtain ⟨g, spans', hfree, hex⟩ := free_of_held h' hs
  obtain ⟨rings', g'⟩ := hex.arranged
  refine ⟨g, spans', hfree, ?_, hex.logged (.resizedToNothing s.offset)⟩
  simp only [resize, if_neg (ne_null_of_held h' hs), if_true, Action.bind_apply, hfree,
    g'.logEvent, Action.pure_apply]

/-- The heap after a resize that the block covered was counted and logged. -/
def resizedInPlace (h : Heap Arena) (s : Span) (n size : Nat) : Heap Arena :=
  (h.withCounters { h.counters with resizeInPlace := h.counters.resizeInPlace + 1 }).logged
    (.resizedInPlace s.offset n s.size size)

/-- A resize that the block covers is counted, and that is all. -/
theorem resize_in_place (h' : h.Arranged spans rings) (hs : s ∈ held spans) (hn : n ≠ 0)
    (hfits : n ≤ payloadSize s.size) :
    (∃ trap, resize s.offset n h = .error (.trapped trap) h ∧
      wordCount ≤ h.counters.resizeInPlace + 1) ∨
    (∃ size, resize s.offset n h = .ok (some s.offset) (h.resizedInPlace s n size) ∧
      h.counters.resizeInPlace + 1 < wordCount) := by
  have hptr := ne_null_of_held h' hs
  have hblock := blockAt_of_held h' hs
  obtain ⟨-, hdvd, hmin⟩ := h'.row.proper s (mem_held.1 hs).1
  have hbounds := h'.row.bounds (mem_held.1 hs).1
  have hm := h'.memory_lt
  have hlt : s.size < wordCount := by
    simp only [Span.stop, pairSize] at *
    omega
  obtain ⟨size, hsize, hle⟩ := (exists_sizeFor_le_iff hdvd hmin hlt).2 hfits
  cases hcount : Word.add h.counters.resizeInPlace 1 with
  | error trap =>
    have hrun : count (fun c => return { c with
        resizeInPlace := ← Word.add c.resizeInPlace 1 }) h = .error (.trapped trap) h :=
      count_trapped (by rw [hcount]; rfl)
    refine Or.inl ⟨trap, ?_, (Word.fit_eq_error_iff.1 hcount).1⟩
    simp only [resize, if_neg hptr, if_neg hn, Action.bind_apply, Action.get_apply, hblock,
      Action.lift_ok, hsize, Span.tag, if_pos hle, hrun]
  | ok inPlace =>
    obtain ⟨hlt, rfl⟩ := Word.fit_eq_ok_iff.1 hcount
    have hrun : count (fun c => return { c with
        resizeInPlace := ← Word.add c.resizeInPlace 1 }) h =
        .ok () (h.withCounters { h.counters with
          resizeInPlace := h.counters.resizeInPlace + 1 }) :=
      count_apply (by rw [hcount]; rfl)
    refine Or.inr ⟨size, ?_, hlt⟩
    simp only [resize, if_neg hptr, if_neg hn, Action.bind_apply, Action.get_apply, hblock,
      Action.lift_ok, hsize, Span.tag, if_pos hle, hrun, resizedInPlace,
      (h'.recounted h.counters.resizeMoves (h.counters.resizeInPlace + 1)).logEvent,
      Action.pure_apply]

/-- A resize to a size that no word holds is refused. -/
theorem resize_tooMuch (h' : h.Arranged spans rings) (hs : s ∈ held spans) (hn : n ≠ 0)
    (hsize : sizeFor n = none) : resize s.offset n h = .error (.refused (.sizeOverflow n)) h := by
  simp only [resize, if_neg (ne_null_of_held h' hs), if_neg hn, Action.bind_apply,
    Action.get_apply, blockAt_of_held h' hs, Action.lift_ok, hsize, Action.refuse_apply]

/-- A resize that the block does not cover moves the payload. -/
theorem resize_of_grows (h' : h.Arranged spans rings) (hs : s ∈ held spans) {size : Nat}
    (hsize : sizeFor n = some size) (hgrows : payloadSize s.size < n) :
    resize s.offset n h =
      match relocate s.offset s.size n h with
      | .ok p g => .ok (some p) g
      | .error failure g => .error failure g := by
  obtain ⟨-, hdvd, hmin⟩ := h'.row.proper s (mem_held.1 hs).1
  have hn : n ≠ 0 := Nat.ne_zero_of_lt hgrows
  have hle : ¬ size ≤ s.size := fun hle => by
    have hfits := (sizeFor_le_iff hsize hdvd hmin).1 hle
    omega
  simp only [resize, if_neg (ne_null_of_held h' hs), if_neg hn, Action.bind_apply,
    Action.get_apply, blockAt_of_held h' hs, Action.lift_ok, hsize, Span.tag, if_neg hle]
  cases relocate s.offset s.size n h <;> rfl

/-- An answered resize to something has counted the block that covers it, or moved the
payload of one that does not. -/
theorem resize_eq_ok {answer : Option Nat} (h' : h.Arranged spans rings) (hs : s ∈ held spans)
    (hn : n ≠ 0) (hrun : resize s.offset n h = .ok answer g) :
    (∃ size, answer = some s.offset ∧ g = h.resizedInPlace s n size) ∨
    (payloadSize s.size < n ∧ ∃ p, answer = some p ∧ relocate s.offset s.size n h = .ok p g) := by
  rcases Nat.lt_or_ge (payloadSize s.size) n with hgrows | hfits
  · cases hsize : sizeFor n with
    | none =>
      rw [resize_tooMuch h' hs hn hsize] at hrun
      cases hrun
    | some size =>
      rw [resize_of_grows h' hs hsize hgrows] at hrun
      split at hrun
      case h_1 p k hrelocate =>
        cases hrun
        exact Or.inr ⟨hgrows, p, rfl, hrelocate⟩
      case h_2 => cases hrun
  · rcases resize_in_place h' hs hn hfits with ⟨trap, htrapped, -⟩ | ⟨size, hinPlace, -⟩
    · rw [htrapped] at hrun
      cases hrun
    · rw [hinPlace] at hrun
      cases hrun
      exact Or.inl ⟨size, rfl, rfl⟩

/-- A resize that the block does not cover is refused, and leaves the heap as it was but
for the log, where a word cannot hold a size or the allocation of the new block is denied.
Otherwise the payload is moved, unless the growth of the arena or the count of moves is
trapped. -/
theorem resize_outcome (h' : h.Arranged spans rings) (hconfig : h.config.normalized = h.config)
    (hs : s ∈ held spans) (hgrows : payloadSize s.size < n) :
    (∃ cause events, resize s.offset n h = .error (.refused cause) (h.loggedAll events) ∧
      (∀ event ∈ events, ¬ event.Books) ∧
      ((wordCount - minBlock < n ∨ wordCount ≤ n * h.config.resizeFactor) ∧
          cause = .sizeOverflow n ∨
        n ≤ wordCount - minBlock ∧ n * h.config.resizeFactor < wordCount ∧
          (h.Denies (n * h.config.resizeFactor) cause ∨ wordCount ≤ h.region.limit))) ∨
    n ≤ wordCount - minBlock ∧ n * h.config.resizeFactor < wordCount ∧
      (∀ cause, ¬ h.Denies (n * h.config.resizeFactor) cause) ∧
      ((∃ trap g, resize s.offset n h = .error (.trapped trap) g ∧
        (wordCount ≤ 2 * h.region.limit ∨ wordCount ≤ h.region.growCalls + 1 ∨
          wordCount ≤ h.counters.resizeMoves + 1)) ∨
      (∃ g spans' t, resize s.offset n h = .ok (some t.offset) g ∧
        h.Moves g spans spans' s t (n * h.config.resizeFactor))) := by
  cases hsize : sizeFor n with
  | none =>
    have hover := sizeFor_eq_none_iff.1 hsize
    exact Or.inl ⟨_, [], resize_tooMuch h' hs (Nat.ne_zero_of_lt hgrows) hsize, by simp,
      Or.inl ⟨Or.inl (by omega), rfl⟩⟩
  | some size =>
    have hresize := resize_of_grows h' hs hsize hgrows
    have hle : n ≤ wordCount - minBlock := by
      obtain ⟨-, hfits⟩ := sizeFor_eq_some_iff.1 hsize
      omega
    rcases relocate_outcome h' hconfig hs hgrows with
      ⟨cause, events, hrun, hevents, hcause⟩ |
      ⟨hlt, hnone, ⟨trap, g, hrun, hwords⟩ | ⟨g, spans', t, hrun, hmoved⟩⟩
    · refine Or.inl ⟨cause, events, by rw [hresize, hrun], hevents, ?_⟩
      exact hcause.imp (And.imp_left Or.inr) (And.intro hle)
    · exact Or.inr ⟨hle, hlt, hnone, Or.inl ⟨trap, g, by rw [hresize, hrun], hwords⟩⟩
    · exact Or.inr ⟨hle, hlt, hnone, Or.inr ⟨g, spans', t, by rw [hresize, hrun], hmoved⟩⟩

/-- A resize leaves the block where it is exactly if its payload holds the new size. -/
theorem resize_stays_iff (h' : h.Arranged spans rings) (hconfig : h.config.normalized = h.config)
    (hs : s ∈ held spans) (hn : n ≠ 0) (hroom : h.counters.resizeInPlace + 1 < wordCount) :
    (∃ g, resize s.offset n h = .ok (some s.offset) g) ↔ n ≤ payloadSize s.size := by
  rcases Nat.lt_or_ge (payloadSize s.size) n with hgrows | hfits
  · refine iff_of_false ?_ (Nat.not_le.2 hgrows)
    rintro ⟨g, hstays⟩
    rcases resize_outcome h' hconfig hs hgrows with
      ⟨cause, events, hrun, -⟩ | ⟨-, -, -, ⟨trap, k, hrun, -⟩ | ⟨k, spans', t, hrun, hmoves⟩⟩
    · cases hstays.symm.trans hrun
    · cases hstays.symm.trans hrun
    · obtain ⟨hanswer, -⟩ := EStateM.Result.ok.inj (hrun.symm.trans hstays)
      exact hmoves.new s hs (Option.some.inj hanswer)
  · refine iff_of_true ?_ hfits
    rcases resize_in_place h' hs hn hfits with ⟨trap, -, hfull⟩ | ⟨size, hrun, -⟩
    · exact (Nat.not_lt.2 hfull hroom).elim
    · exact ⟨_, hrun⟩

/-- A resize of a block is refused and leaves the heap as it was but for the log,
or is trapped, or leaves the block where it is because it holds the new size, or
puts a new block in its place. -/
theorem resize_cases (h' : h.Arranged spans rings) (hconfig : h.config.normalized = h.config)
    (hs : s ∈ held spans) (hn : n ≠ 0) :
    (∃ cause events, resize s.offset n h = .error (.refused cause) (h.loggedAll events)) ∨
    (∃ trap g, resize s.offset n h = .error (.trapped trap) g) ∨
    (∃ g, resize s.offset n h = .ok (some s.offset) g ∧ h.Exchanged g spans spans [] []) ∨
    (∃ g spans' t, resize s.offset n h = .ok (some t.offset) g ∧
      h.Exchanged g spans spans' [s] [t] ∧ ∀ u ∈ held spans, t.offset ≠ u.offset) := by
  rcases Nat.lt_or_ge (payloadSize s.size) n with hgrows | hfits
  · rcases resize_outcome h' hconfig hs hgrows with
      ⟨cause, events, hrun, -⟩ | ⟨-, -, -, ⟨trap, g, hrun, -⟩ | ⟨g, spans', t, hrun, hmoved⟩⟩
    · exact Or.inl ⟨cause, events, hrun⟩
    · exact Or.inr (Or.inl ⟨trap, g, hrun⟩)
    · exact Or.inr (Or.inr (Or.inr ⟨g, spans', t, hrun, hmoved.exchanged, hmoved.new⟩))
  · rcases resize_in_place h' hs hn hfits with ⟨trap, hrun, -⟩ | ⟨size, hrun, -⟩
    · exact Or.inr (Or.inl ⟨trap, h, hrun⟩)
    · exact Or.inr (Or.inr (Or.inl ⟨_, hrun, ((h'.exchanged []).recounted h.counters.resizeMoves
        (h.counters.resizeInPlace + 1)).logged _⟩))

end SegregatedFit.Heap
