-- SUMMARY: Calls do the same to a heap and to the plain heap that it shows.
import SegregatedFit.Proofs.Heap.Payloads
import SegregatedFit.Proofs.Heap.Readings
import SegregatedFit.Proofs.Heap.Resizing
import SegregatedFit.Proofs.Plain.FreeSpace

/-!
# Calls on plain heaps

A pointer that a heap has no reason to misread is null, that of an allocated
block, or one that no heap takes for a block (`Readable`). With such pointers
every operation does the same to a heap and to the plain heap that it shows: the
same answer or the same failure, and the heap shows the plain heap again. Main
statement: `Shows.run`.
-/
namespace SegregatedFit.Heap

open Block FreeLists

variable {h : Heap Arena} {p : Plain} {s : Span} {n size ptr : Nat}

/-! ## Allocating -/

/-- An allocation does the same to both sides. The blocks that were allocated
still are, and so is the new one. -/
theorem Shows.allocate (hs : h.Shows p) (hconfig : p.config.normalized = p.config) (n : Nat) :
    Agree (fun bp g q => g.ShowsLaidOut q ∧
        (∃ t ∈ held q.spans, t.offset = bp ∧ n ≤ payloadSize t.size) ∧
        ∀ u ∈ held p.spans, u ∈ held q.spans) Shows
      (Heap.allocate n h) (Plain.allocate n p) := by
  unfold Plain.allocate
  by_cases hp : p.prologue = none
  · refine .of_eq (allocate_uninitialized (hs.prologue_eq.trans hp) n) ?_ (.error hs)
    rw [Action.bind_apply, Action.get_apply]
    simp only [if_pos hp, Action.refuse_apply]
  · have hlaid := hs.laidOut hp
    unfold Heap.allocate
    refine .get_bind (.left (by rw [requirePrologue_of_arranged hlaid.arranged]; rfl) ?_)
    rw [if_neg hp]
    by_cases hn : n = 0
    · rw [if_pos hn, if_pos hn]
      exact hs.refuse _ _
    · rw [if_neg hn, if_neg hn]
      cases hsize : sizeFor n with
      | none => exact hs.refuse _ _
      | some size =>
        obtain ⟨hdvd, hmin, hlt⟩ := proper_of_sizeFor hsize
        refine (hlaid.findOrGrow hdvd hlt hconfig).bind ?_
        rintro ⟨bp, source⟩ g q ⟨hq, hholds, hheld⟩
        refine (hq.carve hdvd hmin hholds).bind ?_
        rintro placed g q ⟨hq', ⟨t, ht, hoff, hle⟩, hkept⟩
        refine (hq'.logEvent _).bind fun _ g r hr => .pure ⟨hr.1, ?_, ?_⟩
        · have hproper := hq'.arranged.row.proper t (mem_held.1 ht).1
          have hfits := (sizeFor_le_iff hsize hproper.2.1 hproper.2.2).1 hle
          exact ⟨t, hr.2 ▸ ht, hoff, hfits⟩
        · intro u hu
          rw [hr.2]
          exact hkept u (hheld ▸ hu)

/-! ## Freeing -/

/-- Freeing an allocated block does the same to both sides. -/
theorem ShowsLaidOut.release (hs : h.ShowsLaidOut p) (hheld : s ∈ held p.spans) :
    Agree (fun _ => ShowsLaidOut) Shows (Heap.release s.offset s.size h)
      (Plain.release s.offset s.size p) := by
  obtain ⟨front, back, hspans, halloc⟩ := exists_middle_of_held hheld
  have h' := hs.arranged
  rw [hspans] at h'
  obtain ⟨lists, m, hrun, harranged, hsize, -⟩ := release_apply h' halloc
  obtain ⟨q, hq⟩ : ∃ q : Plain, q = { p with
    counters := p.counters.removed s.size
    spans := merged front s.freed back
    rings := relisted p.rings front s.freed back } := ⟨_, rfl⟩
  have hplain : Plain.release s.offset s.size p = .ok () ((q.logged (.coalesced
      (mergeKind front back) (joined (freeRun front s.freed back)).offset
        (joined (freeRun front s.freed back)).size)).logged
      (.freed s.offset s.size (joined (freeRun front s.freed back)).offset)) := by
    have hcut : cut? s.offset p.spans = some (front, s, back) := hspans ▸ h'.row.cut?_eq
    simp only [Plain.release, Plain.lookUp, Action.bind_apply, Action.get_apply, hcut,
      Action.pure_apply, Action.modify_apply, hq]
    rfl
  have houtline : ((h.withLists lists m).withCounters
      (h.counters.removed s.size)).outline = q.toOutline := by
    have hlists : (h.withLists lists m).outline = h.outline := outline_withLists hsize
    rw [hs.outline_eq] at hlists
    rw [hq, ← hs.shows.counters_eq]
    exact congrArg (fun o : Outline => { o with counters := h.counters.removed s.size }) hlists
  have hshows : ((h.withLists lists m).withCounters
      (h.counters.removed s.size)).ShowsLaidOut q :=
    ⟨houtline, by rw [hq]; exact harranged⟩
  exact .of_eq hrun hplain (.ok ((hshows.logged _).logged _))

/-- A plain heap with an allocated block is laid out. -/
theorem Shows.laidOut_of_held (hs : h.Shows p) (hheld : s ∈ held p.spans) : h.ShowsLaidOut p := by
  rcases hs.state with ⟨-, hspans, -⟩ | h'
  · rw [hspans] at hheld
    cases hheld
  · exact ⟨hs.outline_eq, h'⟩

/-- The pointer is null, that of an allocated block, or taken for no block. -/
def Readable (h : Heap Arena) (p : Plain) (ptr : Nat) : Prop :=
  ptr = nullPtr ∨ (∃ s ∈ held p.spans, s.offset = ptr) ∨ h.Foreign ptr

/-- The blocks of a plain heap are taken for what they are. -/
theorem ShowsLaidOut.blockAt_of_held (hs : h.ShowsLaidOut p) (hheld : s ∈ held p.spans) :
    h.blockAt s.offset = .ok s.tag ∧ p.blockAt s.offset = .ok s.tag := by
  obtain ⟨front, back, hspans, halloc⟩ := exists_middle_of_held hheld
  have hrow := hs.arranged.row
  rw [hspans] at hrow
  have hcut : cut? s.offset p.spans = some (front, s, back) := hspans ▸ hrow.cut?_eq
  refine ⟨Heap.blockAt_of_held hs.arranged hheld, ?_⟩
  simp only [Plain.blockAt, if_neg hs.prologue_ne, hcut, if_pos halloc]

/-- A pointer that is taken for no block is refused on both sides. -/
theorem Shows.blockAt_foreign (hs : h.Shows p) (hptr : h.Foreign ptr) :
    ∃ cause, h.blockAt ptr = .error cause ∧ p.blockAt ptr = .error cause := by
  by_cases hp : p.prologue = none
  · refine ⟨.uninitialized, blockAt_uninitialized (hs.prologue_eq.trans hp) ptr, ?_⟩
    rw [Plain.blockAt, if_pos hp]
  · have hlaid := hs.laidOut hp
    refine ⟨.invalidPointer ptr, Heap.blockAt_foreign hlaid.arranged hptr, ?_⟩
    have hnone : cut? ptr p.spans = none := by
      refine cut?_eq_none fun t ht hoff => ?_
      have hbounds := hlaid.arranged.row.bounds ht
      have hdvd := (hlaid.arranged.row.proper t ht).1
      rcases hptr with hodd | hlow | hhigh
      · exact hodd (Nat.mod_eq_zero_of_dvd (hoff ▸ hdvd))
      · have hle := hlow _ hlaid.arranged.prologue_eq
        simp only [pairSize] at *
        omega
      · simp only [Span.stop, minBlock] at *
        omega
    simp only [Plain.blockAt, if_neg hp, hnone]

/-- Freeing the pointer of an allocated block. -/
theorem ShowsLaidOut.free_of_held (hs : h.ShowsLaidOut p) (hheld : s ∈ held p.spans) :
    Agree (fun _ => ShowsLaidOut) Shows (Heap.free s.offset h) (Plain.free s.offset p) := by
  obtain ⟨hblock, hplain⟩ := hs.blockAt_of_held hheld
  have hnull := ne_null_of_held hs.arranged hheld
  unfold Heap.free Plain.free
  rw [if_neg hnull, if_neg hnull]
  refine .get_bind ?_
  rw [hblock, hplain]
  exact hs.release hheld

/-- Freeing a pointer that the heap has no reason to misread. -/
theorem Shows.free (hs : h.Shows p) (hptr : h.Readable p ptr) :
    Agree (fun _ => Shows) Shows (Heap.free ptr h) (Plain.free ptr p) := by
  by_cases hnull : ptr = nullPtr
  · unfold Heap.free Plain.free
    rw [if_pos hnull, if_pos hnull]
    exact hs.logEvent _
  · rcases hptr.resolve_left hnull with ⟨s, hheld, rfl⟩ | hforeign
    · exact ((hs.laidOut_of_held hheld).free_of_held hheld).mono (fun _ _ _ hq => hq.shows)
        fun _ _ hq => hq
    · obtain ⟨cause, hblock, hplain⟩ := hs.blockAt_foreign hforeign
      unfold Heap.free Plain.free
      rw [if_neg hnull, if_neg hnull]
      refine .get_bind ?_
      rw [hblock, hplain]
      exact hs.refuse _ _

/-! ## Resizing -/

/-- Counting a resize does the same to both sides. -/
theorem ShowsLaidOut.count (hs : h.ShowsLaidOut p) {f : Counters → Except Trap Counters}
    (hf : ∀ c c', f c = .ok c' → ∃ moves inPlace,
      c' = { c with resizeMoves := moves, resizeInPlace := inPlace }) :
    Agree (fun _ => ShowsLaidOut) Shows (Heap.count f h) (Plain.count f p) := by
  have hcounters := hs.shows.counters_eq
  cases hcount : f h.counters with
  | error trap =>
    refine .of_eq (count_trapped hcount) ?_ (.error hs.shows)
    rw [hcounters] at hcount
    simp only [Plain.count, Action.bind_apply, Action.get_apply, hcount, Action.lift_trapped]
  | ok counters =>
    obtain ⟨moves, inPlace, rfl⟩ := hf _ _ hcount
    have hplain : Plain.count f p = .ok () { p with
        counters := { h.counters with resizeMoves := moves, resizeInPlace := inPlace } } := by
      rw [hcounters] at hcount ⊢
      simp only [Plain.count, Action.bind_apply, Action.get_apply, hcount, Action.lift_trap_ok,
        Action.modify_apply]
    refine .of_eq (count_apply hcount) hplain (.ok ⟨?_, hs.arranged.recounted moves inPlace⟩)
    exact congrArg (fun o : Outline => { o with
      counters := { h.counters with resizeMoves := moves, resizeInPlace := inPlace } })
      hs.outline_eq

/-- What is written into the payload of an allocated block does not show. -/
theorem ShowsLaidOut.edited_payload (hs : h.ShowsLaidOut p) (hheld : s ∈ held p.spans)
    {m : Memory} (hedit : h.region.memory.Edited m s.InPayload) :
    (h.withLists h.lists m).ShowsLaidOut p :=
  ⟨(outline_withLists hedit.size_eq).trans hs.outline_eq, hs.arranged.edited_payload hheld hedit⟩

/-- A move does the same to both sides: the copy of the payload does not show. -/
theorem ShowsLaidOut.relocate (hs : h.ShowsLaidOut p)
    (hconfig : p.config.normalized = p.config) (hheld : s ∈ held p.spans)
    (hgrows : payloadSize s.size < n) :
    Agree (fun _ => ShowsLaidOut) Shows (Heap.relocate s.offset s.size n h)
      (Plain.relocate s.offset s.size n p) := by
  unfold Heap.relocate Plain.relocate
  refine .get_bind ?_
  rw [hs.shows.config_eq]
  cases hmul : Word.mul? n p.config.resizeFactor with
  | none => exact .refuse hs.shows
  | some target =>
    have htarget : n ≤ target := Config.le_of_mul?_resizeFactor hconfig hmul
    refine (hs.shows.allocate hconfig target).attempt.bind ?_
    rintro (cause | dest) g q ⟨hok, herror⟩
    · exact (herror cause rfl).refuse _ cause
    · obtain ⟨hq, ⟨t, ht, rfl, hfits⟩, hkept⟩ := hok dest rfl
      have hs' := hkept s hheld
      obtain ⟨hcopy, hedit⟩ := copy_apply hq.arranged hs' ht (by omega)
      refine .left hcopy ?_
      refine ((hq.edited_payload ht hedit).free_of_held hs').bind fun _ g q hfreed => ?_
      refine (hfreed.count ?_).bind fun _ g q hcounted => ?_
      · intro c c' hc
        obtain ⟨moves, -, hc⟩ := exists_of_bind hc
        cases hc
        exact ⟨moves, c.resizeInPlace, rfl⟩
      · exact (hcounted.logEvent _).bind fun _ g q hlogged => .pure hlogged.1

/-- Resizing does the same to both sides. -/
theorem Shows.resize (hs : h.Shows p) (hconfig : p.config.normalized = p.config)
    (hptr : h.Readable p ptr) (n : Nat) :
    Agree (fun _ => Shows) Shows (Heap.resize ptr n h) (Plain.resize ptr n p) := by
  unfold Heap.resize Plain.resize
  by_cases hnull : ptr = nullPtr
  · rw [if_pos hnull, if_pos hnull]
    exact (hs.allocate hconfig n).bind fun _ g q hq => .pure hq.1.shows
  · rw [if_neg hnull, if_neg hnull]
    by_cases hn : n = 0
    · rw [if_pos hn, if_pos hn]
      refine (hs.free hptr).bind fun _ g q hfreed => ?_
      exact (hfreed.logEvent _).bind fun _ g q hlogged => .pure hlogged
    · rw [if_neg hn, if_neg hn]
      refine .get_bind ?_
      rcases hptr.resolve_left hnull with ⟨s, hheld, rfl⟩ | hforeign
      · have hlaid := hs.laidOut_of_held hheld
        obtain ⟨hblock, hplain⟩ := hlaid.blockAt_of_held hheld
        rw [hblock, hplain, Action.bind_of_ok (Action.lift_ok s.tag h),
          Action.bind_of_ok (Action.lift_ok s.tag p)]
        cases hsize : sizeFor n with
        | none => exact .refuse hs
        | some size =>
          dsimp only
          by_cases hfits : size ≤ s.tag.size
          · rw [if_pos hfits, if_pos hfits]
            refine (hlaid.count ?_).bind fun _ g q hcounted => ?_
            · intro c c' hc
              obtain ⟨inPlace, -, hc⟩ := exists_of_bind hc
              cases hc
              exact ⟨c.resizeMoves, inPlace, rfl⟩
            · exact (hcounted.logEvent _).bind fun _ g q hlogged => .pure hlogged.1.shows
          · rw [if_neg hfits, if_neg hfits]
            obtain ⟨-, hdvd, hmin⟩ := hlaid.arranged.row.proper s (mem_held.1 hheld).1
            have hgrows : payloadSize s.size < n := by
              have hle := (sizeFor_le_iff hsize hdvd hmin).not.1 hfits
              omega
            exact (hlaid.relocate hconfig hheld hgrows).bind fun _ g q hq => .pure hq.shows
      · obtain ⟨cause, hblock, hplain⟩ := hs.blockAt_foreign hforeign
        rw [hblock, hplain]
        exact .error hs

/-! ## Laying out -/

theorem outline_cleared (hs : h.outline = p.toOutline) : h.cleared.outline = p.cleared.toOutline :=
  congrArg (fun o : Outline => { o with counters := {}, prologue := none }) hs

theorem Shows.cleared (hs : h.Shows p) : h.cleared.Shows p.cleared :=
  ⟨outline_cleared hs.outline_eq, Or.inl ⟨blank_cleared h, rfl, rfl⟩⟩

theorem Shows.reset (hs : h.Shows p) : h.reset.Shows p.reset :=
  ⟨congrArg (fun o : Outline => { o with
      room := { o.room with size := 0, growCalls := 0 }, counters := {}, base := 0,
      prologue := none }) hs.outline_eq, Or.inl ⟨blank_reset h, rfl, rfl⟩⟩

/-- The first chunk of a heap whose sentinels were just written. -/
theorem ShowsLaidOut.firstChunk (hs : h.ShowsLaidOut p)
    (hconfig : p.config.normalized = p.config) (hlists : h.lists = .empty)
    (hcounters : p.counters = {}) (hspans : p.spans = []) (hrings : p.rings = fun _ => []) :
    Agree (fun _ => Shows) Shows (Heap.firstChunk h) (Plain.firstChunk p) := by
  obtain ⟨hdvd, hmin, -⟩ := hconfig ▸ p.config.chunkSize_normalized
  unfold Heap.firstChunk Plain.firstChunk
  refine .get_bind ?_
  rw [hs.shows.config_eq, extend_chunkSize hconfig]
  have hgrow := (hs.grow hdvd hmin).attempt.mono (fun _ _ _ hq => hq) fun _ _ hq => hq.shows.shows
  refine hgrow.bind ?_
  rintro (cause | bp) g q ⟨hok, herror⟩
  · obtain ⟨hq, hlists', hcounters', hspans', hrings'⟩ := herror cause rfl
    refine .error ⟨congrArg (fun o : Outline => { o with prologue := none }) hq.outline_eq, ?_⟩
    refine Or.inl ⟨⟨rfl, hlists'.trans hlists, ?_⟩, hspans'.trans hspans, hrings'.trans hrings⟩
    exact hq.shows.counters_eq.trans (hcounters'.trans hcounters)
  · obtain ⟨hq, -, -⟩ := hok bp rfl
    refine .get_bind ?_
    rw [show g.base = q.base from congrArg Outline.base hq.outline_eq]
    exact hq.shows.logEvent _

/-- Laying out a plain heap, if a word counts where it begins. -/
theorem plain_init_eq {base : Nat}
    (hbase : Word.fit (Word.roundUp p.room.size pairSize) = .ok base) :
    Plain.init p =
      match Room.grow (base - p.room.size + sentinelBytes) p.room with
      | .ok _ room =>
        Plain.firstChunk { p.cleared with room, base, prologue := some (base + pairSize) }
      | .error (.refused cause) room =>
        .error (.refused (.arena cause)) (Plain.logged { p.cleared with room }
          (.initFailed (base - p.room.size + sentinelBytes) cause))
      | .error (.trapped trap) room => .error (.trapped trap) { p.cleared with room } := by
  simp only [Plain.init, Action.bind_apply, Action.modify_apply, Action.get_apply, Plain.cleared,
    Plain.growRegion, hbase, Action.lift_trap_ok]
  cases Room.grow (base - p.room.size + sentinelBytes) p.room with
  | ok used room => rfl
  | error failure room => cases failure <;> rfl

/-- The sentinels of a new heap are behind what was in the room. -/
theorem Shows.withSentinels (hs : h.Shows p) {region : Arena} {base : Nat} (hdvd : pairSize ∣ base)
    (hsize : region.memory.size = base + sentinelBytes)
    (hlt : 2 * region.memory.size < wordCount) :
    (h.withSentinels region base).ShowsLaidOut
      { p.cleared with room := region.room, base, prologue := some (base + pairSize) } := by
  have hroom : Arena.room { region with memory := founded region.memory base } = region.room := by
    simp only [Arena.room, size_founded]
  refine ⟨?_, arranged_withSentinels hdvd hsize hlt⟩
  change { h.cleared.outline with
    room := Arena.room { region with memory := founded region.memory base }
    base, prologue := some (base + pairSize) } = _
  rw [hroom, outline_cleared hs.outline_eq]

/-- Laying out does the same to both sides. -/
theorem Shows.init (hs : h.Shows p) (hconfig : p.config.normalized = p.config) :
    Agree (fun _ => Shows) Shows (Heap.init h) (Plain.init p) := by
  obtain ⟨base, hbase⟩ : ∃ base, base = Word.roundUp h.region.memory.size pairSize := ⟨_, rfl⟩
  have hused : p.room.size = h.region.memory.size := congrArg Room.size hs.room_eq.symm
  have hle : h.region.memory.size ≤ base := hbase ▸ Word.le_roundUp _ (by decide)
  by_cases hfit : base < wordCount
  · have hplain := plain_init_eq (p := p) (hused ▸ (padding_apply hbase hfit).1)
    rw [hused] at hplain
    obtain ⟨delta, hdelta⟩ : ∃ delta, delta = base - h.region.memory.size + sentinelBytes :=
      ⟨_, rfl⟩
    have hroom := h.region.room_grow delta
    rw [← hdelta] at hplain
    rcases h.region.grow_cases delta with ⟨cause, hgrow, -⟩ | ⟨trap, hgrow, -⟩ | ⟨hgrow, -, hlt⟩
    · simp only [hgrow, hs.room_eq] at hroom
      simp only [hroom] at hplain
      have hrun := init_of_refused hbase hfit (hdelta ▸ hgrow)
      rw [← hdelta] at hrun
      exact .of_eq hrun hplain (.error (hs.cleared.logged _))
    · simp only [hgrow, hs.room_eq] at hroom
      simp only [hroom] at hplain
      exact .of_eq (init_of_trapped hbase hfit (hdelta ▸ hgrow)) hplain (.error hs.cleared)
    · obtain ⟨region, hregion⟩ : ∃ region : Arena, region = { h.region with
          memory := h.region.memory.extend delta
          growCalls := h.region.growCalls + 1 } := ⟨_, rfl⟩
      rw [← hregion] at hgrow
      simp only [hgrow, hs.room_eq] at hroom
      simp only [hroom] at hplain
      have hsize : region.memory.size = base + sentinelBytes := by
        rw [hregion, Memory.size_extend, hdelta]
        omega
      have hlaid := hs.withSentinels (hbase ▸ Word.dvd_roundUp _ pairSize) hsize (by omega)
      refine .of_eq (init_of_grown hbase hfit (hdelta ▸ hgrow) hsize (by omega)) hplain ?_
      exact hlaid.firstChunk hconfig rfl rfl rfl rfl
  · have htooLong : Word.fit (Word.roundUp h.region.memory.size pairSize) = .error .overflow :=
      if_neg (hbase ▸ hfit)
    refine .of_eq (init_of_tooLong (hbase ▸ hfit)) ?_ (.error hs.cleared)
    simp only [Plain.init, Action.bind_apply, Action.modify_apply, Action.get_apply,
      Plain.cleared, hused, htooLong, Action.lift_trapped]

/-! ## Calls -/

/-- The calls that a heap has no reason to misread. -/
def Understands (h : Heap Arena) (p : Plain) : Call → Prop
  | .free ptr | .resize ptr _ => h.Readable p ptr
  | .store ptr _ _ => ∃ s ∈ held p.spans, s.offset = ptr
  | .init | .reset | .allocate _ => True

/-- A call does the same to a heap and to the plain heap that it shows. -/
theorem Shows.run (hs : h.Shows p) (hconfig : p.config.normalized = p.config) {call : Call}
    (hcall : h.Understands p call) :
    Agree (fun _ => Shows) Shows (call.run h) (Plain.run call p) := by
  cases call with
  | init => exact (hs.init hconfig).bind fun _ g q hq => .pure hq
  | reset => exact .ok hs.reset
  | allocate n => exact (hs.allocate hconfig n).bind fun _ g q hq => .pure hq.1.shows
  | free ptr => exact (hs.free hcall).bind fun _ g q hq => .pure hq
  | resize ptr n => exact hs.resize hconfig hcall n
  | store ptr start bytes =>
    obtain ⟨s, hheld, rfl⟩ := hcall
    have hlaid := hs.laidOut_of_held hheld
    obtain ⟨k, m, hrun, hedit⟩ := writePayload_of_held hlaid.arranged hheld start bytes
    have hplain : Plain.run (.store s.offset start bytes) p = .ok none p := by
      simp only [Plain.run, Action.bind_apply, Action.get_apply, (hlaid.blockAt_of_held hheld).2,
        Action.lift_ok, Action.pure_apply]
    refine .of_eq ?_ hplain (.ok (hlaid.edited_payload hheld hedit).shows)
    simp only [Call.run, Action.bind_apply, hrun, Action.pure_apply]

end SegregatedFit.Heap
