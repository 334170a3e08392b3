-- SUMMARY: An audit of a heap with any bytes and any lists ends, and how far it goes at most.
import Mathlib.Algebra.Order.BigOperators.Group.List
import Mathlib.Algebra.Order.Group.Nat
import SegregatedFit.Proofs.Audit.Heap

/-!
# The reach of an audit

The words that an audit reads may be anything. Two measures bound it all the
same: the walk goes forward by a multiple of `pairSize` for each block that it
lists, and the tour follows the link of a block only if the walk listed the block
and no bucket has led to it before. `Route` is the way that a tour takes from one
sentinel. Main statement: `audit_bounded`, for a heap with any bytes, any
sentinels and any count.
-/
namespace SegregatedFit

open Block FreeLists

namespace Audit

variable {lists : FreeLists} {m : Memory} {bp : Nat} {afterFree : Bool} {info : BlockEntry}
variable {blocks : List BlockEntry} {bucket : Bucket} {prev cursor : Link} {seen met : List Nat}

/-! ## The walk -/

/-- The bytes that the listed blocks take by their headers. -/
def listedBytes (blocks : List BlockEntry) : Nat := (blocks.map (·.header.size)).sum

/-- Each listed block begins behind those before it. -/
theorem pairwise_of_walk :
    (walk m bp afterFree).blocks.Pairwise fun a b => a.offset + a.header.size ≤ b.offset := by
  fun_induction walk m bp afterFree with
  | case1 => exact .nil
  | case2 => exact .nil
  | case3 => exact .nil
  | case4 bp afterFree header _ hsize footer _ hend rest ih =>
    refine List.pairwise_cons.2 ⟨?_, ih⟩
    intro info hinfo
    exact (bounds_of_mem_walk hinfo).1
  | case5 => exact .nil

/-- The listed blocks lie one after the other, so they have room in the memory. -/
theorem listedBytes_of_walk (m : Memory) (afterFree : Bool) (hbp : bp < wordCount) :
    listedBytes (walk m bp afterFree).blocks ≤ m.size - bp ∧
      bp + listedBytes (walk m bp afterFree).blocks < wordCount := by
  fun_induction walk m bp afterFree with
  | case1 => simpa [listedBytes] using hbp
  | case2 => simpa [listedBytes] using hbp
  | case3 => simpa [listedBytes] using hbp
  | case4 bp afterFree header _ hsize footer _ hend rest ih =>
    obtain ⟨hle, hlt⟩ : listedBytes rest.blocks ≤ m.size - (bp + header.size) ∧
        bp + header.size + listedBytes rest.blocks < wordCount := ih hend.2
    have hcons : listedBytes (⟨bp, header, footer⟩ :: rest.blocks) =
        header.size + listedBytes rest.blocks := by
      simp [listedBytes]
    rw [hcons]
    omega
  | case5 => simpa [listedBytes] using hbp

/-- A listed block is not empty, its size is a multiple of `pairSize`, and it ends
where a word can reach. -/
theorem size_of_mem_walk (h : info ∈ (walk m bp afterFree).blocks) :
    pairSize ≤ info.header.size ∧ info.offset + info.header.size < wordCount := by
  fun_induction walk m bp afterFree with
  | case1 => simp at h
  | case2 => simp at h
  | case3 => simp at h
  | case4 bp afterFree header hheader hsize footer _ hend rest ih =>
    rcases List.mem_cons.1 h with rfl | h
    · exact ⟨Nat.le_of_dvd (Nat.pos_of_ne_zero hsize) (dvd_size_of_header hheader), hend.2⟩
    · exact ih h
  | case5 => simp at h

/-- What is listed of sizes not below `k` is at most one block for each `k` bytes. -/
theorem length_mul_le_listedBytes {k : Nat} (h : ∀ info ∈ blocks, k ≤ info.header.size) :
    blocks.length * k ≤ listedBytes blocks := by
  have hsum := List.card_nsmul_le_sum (blocks.map (·.header.size)) k (List.forall_mem_map.2 h)
  simpa [listedBytes] using hsum

/-- Some of the listed blocks take no more bytes than all of them. -/
theorem listedBytes_filter_le (p : BlockEntry → Bool) (blocks : List BlockEntry) :
    listedBytes (blocks.filter p) ≤ listedBytes blocks :=
  (List.filter_sublist.map _).sum_le_sum fun _ _ => Nat.zero_le _

/-! ## The way through a ring -/

/-- Following links from `cursor`, with the blocks of `seen` met before, meets the
offsets of `met` one after the other: each but the last is a free block that the
walk listed, and its link leads to the next one. -/
inductive Route (lists : FreeLists) (m : Memory) (blocks : List BlockEntry) :
    List Nat → Link → List Nat → Prop where
  /-- A sentinel ends the way, whether it is the one where the way began or not. -/
  | sentinel {seen : List Nat} {home : Bucket} : Route lists m blocks seen (.sentinel home) []
  /-- The way does not go on at a block that was met before. -/
  | again {seen : List Nat} {bp : Nat} (hseen : bp ∈ seen) :
    Route lists m blocks seen (.block bp) []
  /-- It ends at an offset where the walk listed no free block, or one without a link. -/
  | last {seen : List Nat} {bp : Nat} (hfresh : bp ∉ seen)
    (hend : ∀ info, blockAt? blocks bp = some info → info.header.allocated = false →
      ∃ cause, lists.after m (.block bp) = .error cause) :
    Route lists m blocks seen (.block bp) [bp]
  | step {seen : List Nat} {bp : Nat} {info : BlockEntry} {next : Link} {met : List Nat}
    (hfresh : bp ∉ seen) (hat : blockAt? blocks bp = some info)
    (hfree : info.header.allocated = false) (hnext : lists.after m (.block bp) = .ok next)
    (hrest : Route lists m blocks (bp :: seen) next met) :
    Route lists m blocks seen (.block bp) (bp :: met)

/-- Whatever the links are, following a ring takes a way of that kind. -/
theorem exists_route (lists : FreeLists) (m : Memory) (blocks : List BlockEntry)
    (bucket : Bucket) (prev cursor : Link) (seen : List Nat) :
    ∃ met, Route lists m blocks seen cursor met ∧
      (followRing lists m blocks bucket prev cursor seen).1 = met.reverse ++ seen := by
  fun_induction followRing lists m blocks bucket prev cursor seen with
  | case1 prev seen home hhome => exact ⟨[], .sentinel, by rw [if_pos hhome]; rfl⟩
  | case2 prev seen home hhome => exact ⟨[], .sentinel, by rw [if_neg hhome]; rfl⟩
  | case3 prev seen bp hseen => exact ⟨[], .again hseen, rfl⟩
  | case4 prev seen bp hseen hat =>
    exact ⟨[bp], .last hseen fun info hinfo => by simp [hat] at hinfo, rfl⟩
  | case5 prev seen bp hseen info hat hallocated =>
    refine ⟨[bp], .last hseen ?_, rfl⟩
    intro other hother hfree
    obtain rfl := Option.some.inj (hat.symm.trans hother)
    simp [hallocated] at hfree
  | case6 prev seen bp hseen info hat hallocated faults cause hnext =>
    exact ⟨[bp], .last hseen fun _ _ _ => ⟨cause, hnext⟩, by rw [hnext]; rfl⟩
  | case7 prev seen bp hseen info hat hallocated faults next seen' more hnext hmore ih =>
    obtain ⟨met, hroute, hmet⟩ := ih
    refine ⟨bp :: met, .step hseen hat (by simpa using hallocated) hnext hroute, ?_⟩
    rw [hmore] at hmet
    simp [hnext, hmore, hmet]

namespace Route

/-- Nothing is met that was met before. -/
theorem fresh (h : Route lists m blocks seen cursor met) : ∀ p ∈ met, p ∉ seen := by
  induction h with
  | sentinel => simp
  | again => simp
  | last hfresh => simpa using hfresh
  | step hfresh _ _ _ _ ih =>
    refine List.forall_mem_cons.2 ⟨hfresh, ?_⟩
    intro p hp hseen
    exact ih p hp (List.mem_cons_of_mem _ hseen)

/-- Nothing is met twice, whatever cycles the links form. -/
theorem nodup (h : Route lists m blocks seen cursor met) : met.Nodup := by
  induction h with
  | sentinel => exact List.nodup_nil
  | again => exact List.nodup_nil
  | last => exact List.nodup_singleton _
  | step _ _ _ _ hrest ih =>
    exact List.nodup_cons.2 ⟨fun hmem => hrest.fresh _ hmem List.mem_cons_self, ih⟩

/-- Each offset that is met but the last takes one from the listed blocks that
were not met yet. -/
theorem length_add_unseen_le (h : Route lists m blocks seen cursor met) :
    met.length + (unseen blocks (met.reverse ++ seen)).length ≤
      (unseen blocks seen).length + 1 := by
  induction h with
  | sentinel => simp
  | again => simp
  | @last seen bp hfresh hend =>
    have hle : (unseen blocks (bp :: seen)).length ≤ (unseen blocks seen).length := by
      refine (List.monotone_filter_right _ ?_).length_le
      intro p hp
      have hnotMem := of_decide_eq_true hp
      exact decide_eq_true fun hmem => hnotMem (List.mem_cons_of_mem _ hmem)
    simp only [List.length_singleton, List.reverse_singleton, List.singleton_append]
    omega
  | @step seen bp info next met hfresh hat hfree hnext hrest ih =>
    have hlt := length_unseen_cons_lt hat hfresh
    simp only [List.length_cons, List.reverse_cons, List.append_assoc, List.singleton_append]
    omega

theorem length_le (h : Route lists m blocks seen cursor met) : met.length ≤ blocks.length + 1 := by
  have hunseen : (unseen blocks seen).length ≤ blocks.length := by
    simpa [unseen] using List.length_filter_le (· ∉ seen) (blocks.map (·.offset))
  have hmet := h.length_add_unseen_le
  omega

end Route

/-! ## The tour -/

/-- Visits of buckets meet nothing twice, and one offset more for each of them than
there are listed blocks. -/
theorem nodup_of_visits (buckets : List Bucket) {state : List Nat × List Violation}
    (hnodup : state.1.Nodup) :
    (buckets.foldl (visit lists m blocks) state).1.Nodup ∧
      (buckets.foldl (visit lists m blocks) state).1.length ≤
        state.1.length + (unseen blocks state.1).length + buckets.length := by
  suffices hsuff : (buckets.foldl (visit lists m blocks) state).1.Nodup ∧
      (buckets.foldl (visit lists m blocks) state).1.length +
        (unseen blocks (buckets.foldl (visit lists m blocks) state).1).length ≤
        state.1.length + (unseen blocks state.1).length + buckets.length from
    ⟨hsuff.1, by omega⟩
  induction buckets generalizing state with
  | nil => exact ⟨hnodup, Nat.le_refl _⟩
  | cons b buckets ih =>
    obtain ⟨met, hroute, hmet⟩ :=
      exists_route lists m blocks b (.sentinel b) (lists.first b) state.1
    have hvisit : (visit lists m blocks state b).1 = met.reverse ++ state.1 := hmet
    have hnodup' : (visit lists m blocks state b).1.Nodup := by
      rw [hvisit]
      refine (List.nodup_reverse.2 hroute.nodup).append hnodup ?_
      intro p hp
      exact hroute.fresh p (List.mem_reverse.1 hp)
    obtain ⟨hrest, hlength⟩ := ih hnodup'
    refine ⟨hrest, hlength.trans ?_⟩
    have hmore := hroute.length_add_unseen_le
    rw [hvisit]
    simp only [List.length_append, List.length_reverse, List.length_cons]
    omega

theorem nodup_of_tour :
    (tour lists m blocks).1.Nodup ∧
      (tour lists m blocks).1.length ≤ blocks.length + bucketCount := by
  obtain ⟨hnodup, hlength⟩ : (tour lists m blocks).1.Nodup ∧ (tour lists m blocks).1.length ≤
      0 + (unseen blocks []).length + (List.finRange bucketCount).length :=
    nodup_of_visits (List.finRange bucketCount) List.nodup_nil
  refine ⟨hnodup, hlength.trans ?_⟩
  simp [unseen]

/-! ## The audit -/

/-- How far the walk and the tour of an audit went. -/
structure Bounded (lists : FreeLists) (m : Memory) (first : Nat) (report : Report) : Prop where
  increasing : report.blocks.Pairwise (·.offset < ·.offset)
  inside : ∀ info ∈ report.blocks,
    first ≤ info.offset ∧ info.offset < m.size ∧ info.offset + info.header.size ≤ m.size
  length_le : report.blocks.length ≤ m.size / pairSize
  freeBytes_eq : report.freeBytes = listedBytes (report.blocks.filter (!·.header.allocated))
  /-- A word holds that sum. -/
  freeBytes_lt : report.freeBytes < wordCount
  /-- A word holds the place of the second link of each block. -/
  untrapped : ∀ info ∈ report.blocks, ∀ trap,
    lists.before m (.block info.offset) ≠ .error (.trapped trap)
  /-- From each sentinel, nothing is met twice, whatever was met before. -/
  routes : ∀ bucket seen, ∃ met,
    (followRing lists m report.blocks bucket (.sentinel bucket) (lists.first bucket) seen).1 =
        met.reverse ++ seen ∧
      Route lists m report.blocks seen (lists.first bucket) met ∧
      met.Nodup ∧ (∀ p ∈ met, p ∉ seen) ∧ met.length ≤ report.blocks.length + 1
  /-- Nor is anything met from two sentinels. -/
  tour_nodup : (tour lists m report.blocks).1.Nodup
  tour_length_le : (tour lists m report.blocks).1.length ≤ report.blocks.length + bucketCount
  /-- The report is what this tour found. -/
  toured : ∀ violation ∈ (tour lists m report.blocks).2, violation ∈ report.violations

end Audit

namespace Heap

open Audit

variable {R : Type} [Region R] {h : Heap R} {prologue : Nat}

/-- An audit of a heap that is laid out answers, whatever its bytes and its lists
are, and neither its walk nor its tour goes further than the memory. -/
theorem audit_bounded (hprologue : h.prologue = some prologue)
    (hlt : prologue + pairSize < wordCount) (hbase : h.base ≤ Region.size h.region) :
    ∃ report, h.audit = .ok report ∧
      Bounded h.lists h.memory (prologue + pairSize) report := by
  refine ⟨_, audit_eq_ok hprologue hlt hbase, ?_⟩
  have hbytes := listedBytes_of_walk h.memory false hlt
  have hsize : ∀ info ∈ (walk h.memory (prologue + pairSize) false).blocks,
      pairSize ≤ info.header.size ∧ info.offset + info.header.size < wordCount :=
    fun _ hinfo => size_of_mem_walk hinfo
  refine
    { increasing := ?increasing
      inside := ?inside
      length_le := ?length_le
      freeBytes_eq := rfl
      freeBytes_lt := ?freeBytes_lt
      untrapped := ?untrapped
      routes := ?routes
      tour_nodup := nodup_of_tour.1
      tour_length_le := nodup_of_tour.2
      toured := ?toured }
  case increasing =>
    refine pairwise_of_walk.imp_of_mem ?_
    intro a b ha _ hle
    have hpos := (hsize a ha).1
    simp only [pairSize] at hpos
    omega
  case inside =>
    intro info hinfo
    obtain ⟨hle, hpos, hend⟩ := bounds_of_mem_walk hinfo
    exact ⟨hle, by omega, hend⟩
  case length_le =>
    have hcount := length_mul_le_listedBytes fun info hinfo => (hsize info hinfo).1
    exact (Nat.le_div_iff_mul_le (by decide)).2 (hcount.trans (hbytes.1.trans (Nat.sub_le _ _)))
  case freeBytes_lt =>
    have hfree := listedBytes_filter_le (!·.header.allocated)
      (walk h.memory (prologue + pairSize) false).blocks
    exact Nat.lt_of_le_of_lt hfree (Nat.lt_of_le_of_lt (Nat.le_add_left _ _) hbytes.2)
  case untrapped =>
    intro info hinfo trap
    obtain ⟨hpos, hend⟩ := hsize info hinfo
    simp only [pairSize] at hpos
    exact before_ne_trapped (by simp only [wordSize]; omega) trap
  case routes =>
    intro bucket seen
    obtain ⟨met, hroute, hmet⟩ := exists_route h.lists h.memory
      (walk h.memory (prologue + pairSize) false).blocks bucket (.sentinel bucket)
      (h.lists.first bucket) seen
    exact ⟨met, hmet, hroute, hroute.nodup, hroute.fresh, hroute.length_le⟩
  case toured =>
    intro violation hviolation
    simp only [faults, List.mem_append]
    exact .inl (.inl (.inr hviolation))

/-- The link of the block at 32 leads back to that block, and no sentinel is on the way. -/
theorem audit_bounded_of_cycle :
    let m := ((Memory.zeros 64).store 24 32 wordSize).store 32 32 wordSize
    let h : Heap Arena := { ofRegion { memory := m } {} with
      prologue := some 16
      lists := { FreeLists.empty with sentinels := .replicate bucketCount ⟨.block 32, .block 32⟩ } }
    h.lists.after m (.block 32) = .ok (.block 32) ∧
      ∃ report, h.audit = .ok report ∧ report.blocks.length ≤ 4 ∧
        (tour h.lists h.memory report.blocks).1.Nodup := by
  intro m h
  have hprologue : h.prologue = some 16 := rfl
  obtain ⟨report, haudit, hbounded⟩ := audit_bounded hprologue (by decide) (Nat.zero_le _)
  have hsize : h.memory.size / pairSize = 4 := by simp [h, m, ofRegion, pairSize]
  exact ⟨by decide +kernel, report, haudit, hsize ▸ hbounded.length_le, hbounded.tour_nodup⟩

end Heap
end SegregatedFit
