-- SUMMARY: The tour of an audit finds nothing wrong exactly with rings of free blocks, and meets these.
import SegregatedFit.Audit.Rings
import SegregatedFit.Proofs.Audit.Walk
import SegregatedFit.Proofs.FreeLists.Index

/-!
# Touring sound rings

The tour looks up each node among the blocks that the walk listed, here those of
a row. A ring is sound for a bucket if it is a list of free blocks of the sizes
of the bucket, each once, linked in both directions (`SoundRing`). Following a
sound ring meets its blocks and finds no fault (`followRing_of_chain`), and where
no fault is found there was a sound ring (`exists_chain_of_followRing`). Rings
of different buckets share no block, since a block has one size.
-/
namespace SegregatedFit.Audit

open Block FreeLists

/-- A free block of a size of the bucket begins here. -/
def Filed (spans : List Span) (bucket : Bucket) (bp : Nat) : Prop :=
  ∃ s ∈ spans, s.offset = bp ∧ s.isFree = true ∧ Bucket.ofSize s.size = bucket

/-- The bucket holds these blocks, each once, all free and of its sizes. -/
structure SoundRing (lists : FreeLists) (m : Memory) (spans : List Span) (bucket : Bucket)
    (ring : List Nat) : Prop where
  linked : lists.Ring m bucket ring
  nodup : ring.Nodup
  filed : ∀ p ∈ ring, Filed spans bucket p

variable {lists : FreeLists} {m : Memory} {prologue bp : Nat} {spans : List Span} {s : Span}
variable {bucket : Bucket} {prev cursor : Link} {seen ring : List Nat}

theorem toOption_eq_some_iff {ε α : Type} {x : Except ε α} {a : α} :
    x.toOption = some a ↔ x = .ok a := by
  cases x <;> simp [Except.toOption]

/-- A block is of the sizes of one bucket only. -/
theorem Filed.bucket_eq (hrow : Row m prologue spans) {b c : Bucket} (hb : Filed spans b bp)
    (hc : Filed spans c bp) : b = c := by
  obtain ⟨s, hs, rfl, -, rfl⟩ := hb
  obtain ⟨t, ht, hoff, -, rfl⟩ := hc
  rw [hrow.eq_of_offset ht hs hoff]

/-! ## Blocks by their offset -/

theorem blockAt?_of_mem (hrow : Row m prologue spans) (hs : s ∈ spans) :
    blockAt? (spans.map entry) s.offset = some (entry s) := by
  cases hat : blockAt? (spans.map entry) s.offset with
  | none =>
    have hnone := List.find?_eq_none.1 hat (entry s) (List.mem_map_of_mem hs)
    simp [entry] at hnone
  | some info =>
    obtain ⟨t, ht, rfl⟩ := List.mem_map.1 (List.mem_of_find?_eq_some hat)
    have hoff : t.offset = s.offset := by simpa [entry] using List.find?_some hat
    rw [hrow.eq_of_offset ht hs hoff]

theorem exists_of_blockAt? {info : BlockEntry} (hat : blockAt? (spans.map entry) bp = some info) :
    ∃ s ∈ spans, s.offset = bp ∧ info = entry s := by
  obtain ⟨s, hs, rfl⟩ := List.mem_map.1 (List.mem_of_find?_eq_some hat)
  have hoff : s.offset = bp := by simpa [entry] using List.find?_some hat
  exact ⟨s, hs, hoff, rfl⟩

theorem nodeFaults_eq_nil_iff :
    nodeFaults lists m bucket prev (entry s) = [] ↔
      Bucket.ofSize s.size = bucket ∧ lists.before m (.block s.offset) = .ok prev := by
  rw [nodeFaults, List.append_eq_nil_iff, check_eq_nil_iff, check_eq_nil_iff, not_not, not_not,
    toOption_eq_some_iff]
  exact Iff.rfl

/-! ## Following a ring -/

/-- Each node of a ring but the last sentinel has a node after it. -/
theorem exists_after_of_chain {x : Link}
    (h : Chain lists m (x :: ring.map .block ++ [.sentinel bucket])) :
    ∃ y, lists.after m x = .ok y := by
  cases ring with
  | nil => exact ⟨_, h.1.1⟩
  | cons p ring => exact ⟨_, h.1.1⟩

/-- Following links to the sentinel over free blocks that were not met yet meets
these blocks and finds no fault. -/
theorem followRing_of_chain (hrow : Row m prologue spans)
    (hchain : Chain lists m (prev :: ring.map .block ++ [.sentinel bucket]))
    (hcursor : lists.after m prev = .ok cursor) (hnodup : ring.Nodup)
    (hfresh : ∀ p ∈ ring, p ∉ seen) (hfiled : ∀ p ∈ ring, Filed spans bucket p) :
    followRing lists m (spans.map entry) bucket prev cursor seen = (ring.reverse ++ seen, []) := by
  induction ring generalizing prev cursor seen with
  | nil =>
    obtain ⟨⟨hafter, hbefore⟩, -⟩ := hchain
    obtain rfl := Except.ok.inj (hcursor.symm.trans hafter)
    rw [followRing]
    simp [hbefore, Except.toOption]
  | cons p ring ih =>
    obtain ⟨⟨hafter, hbefore⟩, hrest⟩ := hchain
    obtain rfl := Except.ok.inj (hcursor.symm.trans hafter)
    obtain ⟨next, hnext⟩ := exists_after_of_chain hrest
    obtain ⟨s, hs, rfl, hfree, hbucket⟩ := hfiled p List.mem_cons_self
    have hallocated : (entry s).header.allocated = false := by
      simpa [Span.isFree, entry, Span.tag] using hfree
    have hfaults : nodeFaults lists m bucket prev (entry s) = [] :=
      nodeFaults_eq_nil_iff.2 ⟨hbucket, hbefore⟩
    have hfresh' : ∀ q ∈ ring, q ∉ s.offset :: seen := by
      intro q hq
      refine List.not_mem_cons_of_ne_of_not_mem ?_
        (hfresh q (List.mem_cons_of_mem _ hq))
      intro heq
      exact (List.nodup_cons.1 hnodup).1 (heq ▸ hq)
    have hfollow := ih hrest hnext (List.nodup_cons.1 hnodup).2 hfresh'
      fun q hq => hfiled q (List.mem_cons_of_mem _ hq)
    rw [followRing, dif_neg (hfresh _ List.mem_cons_self)]
    split
    case h_1 hat =>
      rw [blockAt?_of_mem hrow hs] at hat
      cases hat
    case h_2 info hat =>
      obtain rfl := Option.some.inj ((blockAt?_of_mem hrow hs).symm.trans hat)
      simp [hallocated, hfaults, hnext, hfollow]

/-- Where following links finds no fault, they lead to the sentinel over free
blocks that were not met yet. -/
theorem exists_chain_of_followRing (hcursor : lists.after m prev = .ok cursor)
    (h : (followRing lists m (spans.map entry) bucket prev cursor seen).2 = []) :
    ∃ ring : List Nat, Chain lists m (prev :: ring.map .block ++ [.sentinel bucket]) ∧ ring.Nodup ∧
      (∀ p ∈ ring, p ∉ seen) ∧ ∀ p ∈ ring, Filed spans bucket p := by
  fun_induction followRing lists m (spans.map entry) bucket prev cursor seen with
  | case1 prev seen home hhome =>
    obtain ⟨rfl, hbefore⟩ := hhome
    exact ⟨[], ⟨⟨hcursor, toOption_eq_some_iff.1 hbefore⟩, trivial⟩, List.nodup_nil, by simp,
      by simp⟩
  | case2 prev seen home hhome =>
    rw [if_neg hhome] at h
    simp at h
  | case3 prev seen bp hseen => simp at h
  | case4 prev seen bp hseen hat => simp at h
  | case5 prev seen bp hseen info hat hallocated => simp at h
  | case6 prev seen bp hseen info hat hallocated faults cause hnext =>
    rw [hnext] at h
    simp at h
  | case7 prev seen bp hseen info hat hallocated faults next seen' more hnext hmore ih =>
    simp only [hnext, hmore] at h
    obtain ⟨hfaults, hrest⟩ := List.append_eq_nil_iff.1 h
    obtain ⟨s, hs, rfl, rfl⟩ := exists_of_blockAt? hat
    obtain ⟨hbucket, hbefore⟩ := nodeFaults_eq_nil_iff.1 hfaults
    obtain ⟨ring, hchain, hnodup, hfresh, hfiled⟩ := ih hnext (by rw [hmore]; exact hrest)
    have hfree : s.isFree = true := by simpa [Span.isFree, entry, Span.tag] using hallocated
    refine ⟨s.offset :: ring, ⟨⟨hcursor, hbefore⟩, hchain⟩, List.nodup_cons.2 ⟨?_,
      hnodup⟩, List.forall_mem_cons.2 ⟨hseen, ?_⟩,
      List.forall_mem_cons.2 ⟨⟨s, hs, rfl, hfree, hbucket⟩, hfiled⟩⟩
    · intro hmem
      exact hfresh _ hmem List.mem_cons_self
    · intro q hq hmem
      exact hfresh q hq (List.mem_cons_of_mem _ hmem)

/-! ## Touring all buckets -/

/-- One bucket of the tour. -/
def visit (lists : FreeLists) (m : Memory) (blocks : List BlockEntry)
    (state : List Nat × List Violation) (bucket : Bucket) : List Nat × List Violation :=
  let (seen, more) :=
    followRing lists m blocks bucket (.sentinel bucket) (lists.first bucket) state.1
  (seen, state.2 ++ more)

theorem tour_eq_foldl (blocks : List BlockEntry) :
    tour lists m blocks = (List.finRange bucketCount).foldl (visit lists m blocks) ([], []) :=
  rfl

/-- A visit of a sound ring that shares no block with what was met before. -/
theorem SoundRing.visit_eq (hrow : Row m prologue spans)
    (h : SoundRing lists m spans bucket ring) (hfresh : ∀ p ∈ ring, p ∉ seen)
    (faults : List Violation) :
    visit lists m (spans.map entry) (seen, faults) bucket = (ring.reverse ++ seen, faults) := by
  have hfirst : lists.after m (.sentinel bucket) = .ok (lists.first bucket) := rfl
  simp only [visit, followRing_of_chain hrow h.linked hfirst h.nodup hfresh h.filed,
    List.append_nil]

/-- Visits of sound rings meet their blocks and find no fault. -/
theorem visits_of_soundRings (hrow : Row m prologue spans) {rings : Bucket → List Nat}
    {buckets : List Bucket} (hsound : ∀ b ∈ buckets, SoundRing lists m spans b (rings b))
    (hnodup : buckets.Nodup) (hfresh : ∀ b ∈ buckets, ∀ p ∈ rings b, p ∉ seen) :
    ∃ met, buckets.foldl (visit lists m (spans.map entry)) (seen, []) = (met, []) ∧
      ∀ p, p ∈ met ↔ p ∈ seen ∨ ∃ b ∈ buckets, p ∈ rings b := by
  induction buckets generalizing seen with
  | nil => exact ⟨seen, rfl, by simp⟩
  | cons b buckets ih =>
    obtain ⟨hb, hbuckets⟩ := List.forall_mem_cons.1 hsound
    obtain ⟨hfreshB, hfreshRest⟩ := List.forall_mem_cons.1 hfresh
    obtain ⟨hnotMem, hnodup⟩ := List.nodup_cons.1 hnodup
    have hnext : ∀ c ∈ buckets, ∀ p ∈ rings c, p ∉ (rings b).reverse ++ seen := by
      intro c hc p hp hmem
      rcases List.mem_append.1 hmem with hmem | hmem
      · have heq := (hb.filed p (List.mem_reverse.1 hmem)).bucket_eq hrow
          ((hbuckets c hc).filed p hp)
        exact hnotMem (heq ▸ hc)
      · exact hfreshRest c hc p hp hmem
    obtain ⟨met, hmet, hmem⟩ := ih hbuckets hnodup hnext
    refine ⟨met, ?_, ?_⟩
    · rw [List.foldl_cons, hb.visit_eq hrow hfreshB, hmet]
    · intro p
      rw [hmem]
      simp only [List.mem_append, List.mem_reverse, List.exists_mem_cons_iff]
      rw [or_assoc, or_left_comm]

/-- Where visits found no fault, there were none before, and each ring is sound. -/
theorem soundRings_of_visits {buckets : List Bucket} {faults : List Violation}
    (h : (buckets.foldl (visit lists m (spans.map entry)) (seen, faults)).2 = []) :
    faults = [] ∧ ∀ b ∈ buckets, ∃ ring, SoundRing lists m spans b ring := by
  induction buckets generalizing seen faults with
  | nil => exact ⟨h, by simp⟩
  | cons b buckets ih =>
    obtain ⟨hfaults, hrest⟩ := ih h
    obtain ⟨hbefore, hmore⟩ := List.append_eq_nil_iff.1 hfaults
    have hfirst : lists.after m (.sentinel b) = .ok (lists.first b) := rfl
    obtain ⟨ring, hchain, hnodup, -, hfiled⟩ := exists_chain_of_followRing hfirst hmore
    exact ⟨hbefore, List.forall_mem_cons.2 ⟨⟨ring, hchain, hnodup, hfiled⟩, hrest⟩⟩

/-- A tour of sound rings finds no fault and meets exactly their blocks. -/
theorem tour_of_soundRings (hrow : Row m prologue spans) {rings : Bucket → List Nat}
    (hsound : ∀ b, SoundRing lists m spans b (rings b)) :
    ∃ met, tour lists m (spans.map entry) = (met, []) ∧ ∀ p, p ∈ met ↔ ∃ b, p ∈ rings b := by
  have hfresh : ∀ b ∈ List.finRange bucketCount, ∀ p ∈ rings b, p ∉ ([] : List Nat) :=
    fun _ _ _ _ => List.not_mem_nil
  obtain ⟨met, hmet, hmem⟩ := visits_of_soundRings hrow (fun b _ => hsound b)
    (List.nodup_finRange bucketCount) hfresh
  refine ⟨met, (tour_eq_foldl _).trans hmet, ?_⟩
  intro p
  rw [hmem]
  simp [List.mem_finRange]

/-- A tour that finds no fault went over sound rings. -/
theorem exists_soundRings_of_tour (h : (tour lists m (spans.map entry)).2 = []) :
    ∃ rings : Bucket → List Nat, ∀ b, SoundRing lists m spans b (rings b) := by
  rw [tour_eq_foldl] at h
  have hrings := (soundRings_of_visits h).2
  choose rings hsound using fun b => hrings b (List.mem_finRange b)
  exact ⟨rings, hsound⟩

/-! ## The index of a row -/

/-- Sound rings that hold every free block, and a count of them, are an index. -/
theorem indexed_iff (hrow : Row m prologue spans) {rings : Bucket → List Nat} :
    lists.Indexed m spans rings ↔
      (∀ b, SoundRing lists m spans b (rings b)) ∧
      (∀ s ∈ spans, s.isFree = true → ∃ b, s.offset ∈ rings b) ∧
      lists.size = spans.countP Span.isFree := by
  constructor
  · intro h
    refine ⟨fun b => ⟨h.ring b, h.nodup b, fun p hp => (h.mem_iff b p).1 hp⟩, ?_,
      h.size_eq⟩
    intro s hs hfree
    exact ⟨.ofSize s.size, (h.mem_iff _ _).2 ⟨s, hs, rfl, hfree, rfl⟩⟩
  · rintro ⟨hsound, hheld, hsize⟩
    refine ⟨fun b => (hsound b).linked, fun b => (hsound b).nodup, ?_,
      fun b p => ⟨(hsound b).filed p, ?_⟩, hsize⟩
    · intro b c hne p hb hc
      exact hne (((hsound b).filed p hb).bucket_eq hrow ((hsound c).filed p hc))
    · rintro ⟨s, hs, rfl, hfree, hbucket⟩
      obtain ⟨c, hc⟩ := hheld s hs hfree
      have heq := ((hsound c).filed _ hc).bucket_eq hrow ⟨s, hs, rfl, hfree, hbucket⟩
      exact heq ▸ hc

end SegregatedFit.Audit
