-- SUMMARY: A heap shows a plain heap: logging, growing, searching and carving do the same to both.
import SegregatedFit.Proofs.Agreement
import SegregatedFit.Proofs.Heap.Allocating
import SegregatedFit.Proofs.Heap.Founding
import SegregatedFit.Proofs.Plain.Basic

/-!
# The plain heap that a heap shows

`Shows` relates a heap to its plain heap: the outlines are equal, and the heap is
arranged with the blocks and rings of the plain heap, or both are blank. Each
part of an operation that begins and ends with an arranged heap does the same to
both sides, and the search finds the same block, because the sizes that it reads
are those of the blocks.
-/
namespace SegregatedFit

open Block FreeLists

/-- The heap is laid out as the plain heap says. -/
structure Heap.Shows (h : Heap Arena) (p : Plain) : Prop where
  outline_eq : h.outline = p.toOutline
  state : h.Blank ∧ p.spans = [] ∧ p.rings = (fun _ => []) ∨ h.Arranged p.spans p.rings

/-- The heap shows the plain heap, and both are laid out. -/
structure Heap.ShowsLaidOut (h : Heap Arena) (p : Plain) : Prop where
  outline_eq : h.outline = p.toOutline
  arranged : h.Arranged p.spans p.rings

namespace Heap

variable {h : Heap Arena} {p : Plain} {size : Nat}

theorem ShowsLaidOut.shows (hs : h.ShowsLaidOut p) : h.Shows p :=
  ⟨hs.outline_eq, Or.inr hs.arranged⟩

/-! ## Reading the outline -/

theorem Shows.prologue_eq (hs : h.Shows p) : h.prologue = p.prologue :=
  congrArg Outline.prologue hs.outline_eq

theorem Shows.config_eq (hs : h.Shows p) : h.config = p.config :=
  congrArg Outline.config hs.outline_eq

theorem Shows.room_eq (hs : h.Shows p) : h.region.room = p.room :=
  congrArg Outline.room hs.outline_eq

theorem Shows.counters_eq (hs : h.Shows p) : h.counters = p.counters :=
  congrArg Outline.counters hs.outline_eq

/-- With a prologue, a heap is arranged. -/
theorem Shows.laidOut (hs : h.Shows p) (hp : p.prologue ≠ none) : h.ShowsLaidOut p := by
  refine ⟨hs.outline_eq, hs.state.resolve_left ?_⟩
  rintro ⟨hblank, -⟩
  exact hp (hs.prologue_eq ▸ hblank.prologue_eq)

/-- Without a prologue, nothing is left of a heap. -/
theorem Shows.blank (hs : h.Shows p) (hp : p.prologue = none) : h.Blank := by
  rcases hs.state with ⟨hblank, -⟩ | h'
  · exact hblank
  · rw [← hs.prologue_eq, h'.prologue_eq] at hp
    cases hp

theorem ShowsLaidOut.prologue_ne (hs : h.ShowsLaidOut p) : p.prologue ≠ none := by
  rw [← hs.shows.prologue_eq, hs.arranged.prologue_eq]
  exact Option.some_ne_none _

theorem Shows.base_le (hs : h.Shows p) (hinit : h.isInitialized = true) :
    h.base ≤ h.region.memory.size := by
  rcases hs.state with ⟨hblank, -⟩ | h'
  · exact hblank.base_le hinit
  · exact Nat.le_trans (Nat.le_add_right _ _) h'.base_le

theorem outline_withLists {lists : FreeLists} {m : Memory} (hsize : m.size = h.region.memory.size) :
    (h.withLists lists m).outline = h.outline := by
  simp only [outline, withLists, Arena.room, hsize]

/-! ## Logging -/

theorem outline_logged (hs : h.outline = p.toOutline) (event : Event) :
    (h.logged event).outline = (p.logged event).toOutline :=
  congrArg (fun o : Outline => { o with log := o.log.record event o.figures }) hs

theorem ShowsLaidOut.logged (hs : h.ShowsLaidOut p) (event : Event) :
    (h.logged event).ShowsLaidOut (p.logged event) :=
  ⟨outline_logged hs.outline_eq event, hs.arranged.logged event⟩

theorem Shows.logged (hs : h.Shows p) (event : Event) :
    (h.logged event).Shows (p.logged event) := by
  refine ⟨outline_logged hs.outline_eq event, ?_⟩
  rcases hs.state with ⟨hblank, hplain⟩ | h'
  · exact Or.inl ⟨hblank.logged event, hplain⟩
  · exact Or.inr (h'.logged event)

theorem Shows.logEvent (hs : h.Shows p) (event : Event) :
    Agree (fun _ => Shows) Shows (logEvent event h) (Plain.logEvent event p) :=
  .of_eq (logEvent_apply hs.base_le event) rfl (.ok (hs.logged event))

theorem ShowsLaidOut.logEvent (hs : h.ShowsLaidOut p) (event : Event) :
    Agree (fun _ g q => g.ShowsLaidOut q ∧ q.spans = p.spans) Shows
      (Heap.logEvent event h) (Plain.logEvent event p) :=
  .of_eq (logEvent_apply hs.shows.base_le event) rfl (.ok ⟨hs.logged event, rfl⟩)

/-- A refusal that is logged. -/
theorem Shows.refuse {α : Type} {Q : α → Heap Arena → Plain → Prop} (hs : h.Shows p)
    (event : Event) (cause : HeapError) :
    Agree Q Shows ((Heap.logEvent event >>= fun _ => Action.refuse cause : HeapM Arena α) h)
      ((Plain.logEvent event >>= fun _ => Action.refuse cause : PlainM α) p) :=
  (hs.logEvent event).bind fun _ _ _ hs' => .refuse hs'

/-! ## Growing -/

end Heap

/-- An arena grows as its room does. -/
theorem Arena.room_grow (a : Arena) (delta : Nat) :
    Room.grow delta a.room =
      match grow delta a with
      | .ok used a => .ok used a.room
      | .error failure a => .error failure a.room := by
  obtain ⟨m, limit, growCalls⟩ := a
  by_cases hlimit : limit < m.size + delta ∨ wordCount ≤ m.size + delta
  · simp only [grow, Room.grow, room, hlimit, if_true]
  · by_cases hcapacity : wordCount ≤ 2 * (m.size + delta)
    · simp only [grow, Room.grow, room, hlimit, hcapacity, if_false, if_true]
    · by_cases hcalls : wordCount ≤ growCalls + 1
      · simp only [grow, Room.grow, room, hlimit, hcapacity, hcalls, if_false, if_true]
      · simp only [grow, Room.grow, room, hlimit, hcapacity, hcalls, if_false, Memory.size_extend]

namespace Heap

variable {h : Heap Arena} {p : Plain} {size : Nat}

/-- The block that an operation found or made room in: free and large enough. -/
def Holds (p : Plain) (bp size : Nat) : Prop :=
  ∃ s ∈ p.spans, s.offset = bp ∧ s.isFree = true ∧ size ≤ s.size

/-- What a refused growth leaves: all but the log is as it was. -/
structure GrowthRefused (h : Heap Arena) (p : Plain) (g : Heap Arena) (q : Plain) : Prop where
  shows : g.ShowsLaidOut q
  lists_eq : g.lists = h.lists
  counters_eq : q.counters = p.counters
  spans_eq : q.spans = p.spans
  rings_eq : q.rings = p.rings

/-- Growing does the same to both sides. The block that the bytes are in is free,
and the allocated blocks are those from before. -/
theorem ShowsLaidOut.grow (hs : h.ShowsLaidOut p) (hdvd : pairSize ∣ size)
    (hmin : minBlock ≤ size) :
    Agree (fun bp g q => g.ShowsLaidOut q ∧ Holds q bp size ∧ held q.spans = held p.spans)
      (GrowthRefused h p) (Heap.grow size h) (Plain.grow size p) := by
  have hplain := h.region.room_grow size
  rw [hs.shows.room_eq] at hplain
  rcases h.region.grow_cases size with ⟨cause, hgrow, -⟩ | ⟨trap, hgrow, -⟩ | ⟨hgrow, -, hlt⟩
  · rw [hgrow] at hplain
    have hrun : Plain.grow size p =
        .error (.refused (.arena cause)) (p.logged (.growthFailed size cause)) := by
      simp only [Plain.grow, Plain.growRegion, Action.bind_apply, hplain, hs.shows.room_eq]
      rfl
    exact .of_eq (grow_of_refused hs.arranged hgrow) hrun
      (.error ⟨hs.logged _, rfl, rfl, rfl, rfl⟩)
  · rw [hgrow] at hplain
    have hrun : Plain.grow size p = .error (.trapped trap) p := by
      simp only [Plain.grow, Plain.growRegion, Action.bind_apply, hplain, hs.shows.room_eq]
    exact .of_eq (grow_of_trapped hgrow) hrun (.error ⟨hs, rfl, rfl, rfl, rfl⟩)
  · rw [hgrow] at hplain
    obtain ⟨s, lists, m, hspan, hrun, hgrown, hsize, -⟩ :=
      grow_of_ok hs.arranged hgrow hdvd hmin hlt
    obtain ⟨q, hq⟩ : ∃ q : Plain, q = Plain.logged { p with
        room := ⟨h.region.memory.size + size, h.region.limit, h.region.growCalls + 1⟩
        counters.extendCalls := p.counters.extendCalls + 1 }
        (.grown h.region.memory.size size) := ⟨_, rfl⟩
    have hplainRun : Plain.grow size p = Plain.coalesce p.spans s [] q := by
      simp only [Plain.grow, Plain.growRegion, Action.bind_apply, hplain, hq, hspan]
      simp only [Arena.room, Memory.size_extend]
      rfl
    have houtline : ((h.grownBy size).withLists lists m).outline = q.toOutline := by
      rw [outline_withLists (hsize.trans (size_lengthened _ _).symm), hq]
      apply outline_logged
      rw [← hs.outline_eq]
      simp only [outline, Arena.room, size_lengthened, hs.shows.config_eq, hs.shows.counters_eq]
    have hfree : s.isFree = true := by rw [hspan]; rfl
    refine .of_eq hrun hplainRun (.ok ⟨⟨?_, ?_⟩, ?_, ?_⟩)
    · exact outline_logged (p := { q with
        spans := merged p.spans s []
        rings := relisted q.rings p.spans s [] }) houtline _
    · rw [hq]
      exact hgrown.logged _
    · have hs' : s ∈ freeRun p.spans s [] := by simp [freeRun]
      have hfits : size ≤ s.size := by rw [hspan]
      exact ⟨joined (freeRun p.spans s []), List.mem_append_right _ List.mem_cons_self, rfl,
        isFree_joined _, Nat.le_trans hfits (size_le_joined hs')⟩
    · exact (held_merged p.spans s []).trans (List.append_nil _)

/-! ## Searching -/

/-- The sizes that a search reads in the memory are those of the blocks. -/
theorem ShowsLaidOut.firstOf_eq (hs : h.ShowsLaidOut p) (size : Nat) (bucket : Bucket) :
    firstOf h.region.memory size (p.rings bucket) = (p.rings bucket).find? (fits p.spans size) := by
  rw [firstOf, ← List.head?_filter, ← List.head?_filter]
  refine congrArg List.head? (List.filter_congr fun bp hbp => ?_)
  obtain ⟨t, ht, rfl, -⟩ := (hs.arranged.indexed.mem_iff bucket bp).1 hbp
  have hsize : sizeAt h.region.memory t.offset = t.size := by
    rw [sizeAt, (hs.arranged.row.tagged t ht).1]
    rfl
  have hfits : fits p.spans size t.offset = true ↔ size ≤ t.size := by
    simp only [fits, List.any_eq_true, decide_eq_true_eq]
    constructor
    · rintro ⟨u, hu, hoff, hle⟩
      rwa [hs.arranged.row.eq_of_offset hu ht hoff] at hle
    · intro hle
      exact ⟨t, ht, rfl, hle⟩
  rw [hsize, Bool.eq_iff_iff, hfits, decide_eq_true_iff]

/-- The search finds what the rings and the blocks say. -/
theorem ShowsLaidOut.find?_eq (hs : h.ShowsLaidOut p) (size : Nat) :
    h.find? size = .ok (p.find? size) := by
  have hsearch := hs.arranged.indexed.find?_eq hs.arranged.row (fun t ht => ht) size
    h.config.search
  rw [find?, memory_arena, hsearch, Plain.find?, hs.shows.config_eq]
  exact congrArg _ (congrArg (List.findSome? · _) (funext fun b => hs.firstOf_eq size b))

theorem ShowsLaidOut.holds_of_find? (hs : h.ShowsLaidOut p) {bp : Nat}
    (hfind : p.find? size = some bp) : Holds p bp size :=
  hs.arranged.indexed.exists_of_find? hs.arranged.row (fun _ ht => ht)
    ((hs.find?_eq size).trans (congrArg _ hfind))

/-- Looking for a block, or growing for one, does the same to both sides. -/
theorem ShowsLaidOut.findOrGrow (hs : h.ShowsLaidOut p) {n : Nat} (hdvd : pairSize ∣ size)
    (hlt : size < wordCount) (hconfig : p.config.normalized = p.config) :
    Agree (fun found g q => g.ShowsLaidOut q ∧ Holds q found.1 size ∧ held q.spans = held p.spans)
      Shows (Heap.findOrGrow n size h) (Plain.findOrGrow n size p) := by
  cases hfind : p.find? size with
  | some bp =>
    have hrun : Plain.findOrGrow n size p = .ok (bp, .freeList) p := by
      simp only [Plain.findOrGrow, Action.bind_apply, Action.get_apply, hfind, Action.pure_apply]
    exact .of_eq (findOrGrow_of_found ((hs.find?_eq size).trans (congrArg _ hfind))) hrun
      (.ok ⟨hs, hs.holds_of_find? hfind, rfl⟩)
  | none =>
    obtain ⟨hdvd', hmin', hlt'⟩ := Config.max_chunkSize_proper hconfig hdvd hlt
    have hnone : (liftM (h.find? size) : HeapM Arena (Option Nat)) h = .ok none h := by
      rw [hs.find?_eq, hfind, Action.lift_failure_ok]
    unfold Heap.findOrGrow Plain.findOrGrow
    refine .get_bind (.left hnone ?_)
    simp only [hfind]
    refine .get_bind ?_
    rw [hs.shows.config_eq, extend_div hdvd' hmin' hlt']
    have hgrow := (hs.grow hdvd' hmin').mono (fun _ _ _ hq => hq)
      fun _ _ hq => hq.shows.shows
    refine hgrow.attempt.bind ?_
    rintro (cause | bp) g q ⟨hok, herror⟩
    · exact (herror cause rfl).refuse _ cause
    · obtain ⟨hq, ⟨s, hs', hoff, hfree, hle⟩, hheld⟩ := hok bp rfl
      exact .pure ⟨hq, ⟨s, hs', hoff, hfree, Nat.le_trans (Nat.le_max_left _ _) hle⟩, hheld⟩

/-! ## Carving -/

theorem outline_carved (hs : h.outline = p.toOutline) (front : List Span) (s : Span)
    (back : List Span) (size : Nat) :
    (h.carved s size).outline = (p.carved front s back size).toOutline := by
  have hcounted : (h.withCounters (h.counters.added (taken s size).size)).outline =
      { p.toOutline with counters := p.counters.added (taken s size).size } :=
    congrArg (fun o : Outline => { o with counters := o.counters.added (taken s size).size }) hs
  unfold Heap.carved Plain.carved
  split
  · exact outline_logged hcounted _
  · exact hcounted

/-- Carving does the same to both sides. The block is allocated, and so are those
that were. -/
theorem ShowsLaidOut.carve (hs : h.ShowsLaidOut p) {bp : Nat} (hdvd : pairSize ∣ size)
    (hmin : minBlock ≤ size) (hholds : Holds p bp size) :
    Agree (fun _ g q => g.ShowsLaidOut q ∧ (∃ t ∈ held q.spans, t.offset = bp ∧ size ≤ t.size) ∧
        ∀ u ∈ held p.spans, u ∈ held q.spans) Shows
      (Heap.carve bp size h) (Plain.carve bp size p) := by
  obtain ⟨s, hs', rfl, hfree, hfit⟩ := hholds
  obtain ⟨front, back, hspans⟩ := List.append_of_mem hs'
  have h' := hs.arranged
  rw [hspans] at h'
  obtain ⟨lists, m, hrun, hcarved, hedit, -⟩ := carve_apply h' hfree hdvd hmin hfit
  have hcut : cut? s.offset p.spans = some (front, s, back) := hspans ▸ h'.row.cut?_eq
  have houtline : (h.withLists lists m).outline = p.toOutline :=
    (outline_withLists hedit.size_eq).trans hs.outline_eq
  have hshows : ((h.withLists lists m).carved s size).ShowsLaidOut
      (p.carved front s back size) :=
    ⟨outline_carved houtline front s back size, by simpa using hcarved⟩
  have hheld : held (p.carved front s back size).spans =
      held front ++ taken s size :: held back := by
    rw [Plain.carved_spans]
    exact held_carved front back s size
  refine .of_eq hrun (Plain.carve_of_cut size hcut)
    (.ok ⟨hshows, ⟨taken s size, ?_, rfl, le_size_taken hfit⟩, ?_⟩)
  · rw [hheld]
    exact List.mem_append_right _ List.mem_cons_self
  · intro u hu
    rw [hspans, held_append, held_cons_free hfree] at hu
    rw [hheld]
    exact List.mem_append.2 ((List.mem_append.1 hu).imp_right (List.mem_cons_of_mem _))

end Heap
end SegregatedFit
