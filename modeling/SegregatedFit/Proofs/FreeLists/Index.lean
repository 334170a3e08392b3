-- SUMMARY: The free lists as an index of the free blocks of a row.
import SegregatedFit.Proofs.Block.Retagging
import SegregatedFit.Proofs.FreeLists.Linking

/-!
# The index of a row

`Indexed lists m spans rings` says that the buckets are the given rings, and
that these hold exactly the free ones of the blocks `spans`, each in the bucket
of its size. The blocks are some of those of a row (all of them, once a heap is
at rest), so the links of the rings are in payloads that no tag touches. Main
statements: `Indexed.insert` and `Indexed.remove`, which keep the row.
-/
namespace SegregatedFit.FreeLists

open Block

/-- The buckets are these rings, and they hold exactly the free ones of the blocks. -/
structure Indexed (lists : FreeLists) (m : Memory) (spans : List Span)
    (rings : Bucket → List Nat) : Prop where
  ring : ∀ b, lists.Ring m b (rings b)
  nodup : ∀ b, (rings b).Nodup
  disjoint : ∀ b c, b ≠ c → (rings b).Disjoint (rings c)
  mem_iff : ∀ b p, p ∈ rings b ↔
    ∃ s ∈ spans, s.offset = p ∧ s.isFree = true ∧ Bucket.ofSize s.size = b
  size_eq : lists.size = spans.countP Span.isFree

/-- The bytes of the payloads of the free ones among the blocks. -/
def FreePayload (spans : List Span) (i : Nat) : Prop :=
  ∃ s ∈ spans, s.isFree = true ∧ s.InPayload i


variable {lists lists' : FreeLists} {m m' : Memory} {rings : Bucket → List Nat}
variable {prologue : Nat} {row spans : List Span} {s : Span}

theorem indexed_empty (m : Memory) : Indexed empty m [] fun _ => [] :=
  ⟨ring_empty m, fun _ => List.nodup_nil, fun _ _ _ _ hp => (List.not_mem_nil hp).elim,
    fun b p => by simp, rfl⟩

/-- The order of the blocks has no part in the index. -/
theorem Indexed.perm {spans' : List Span} (h : Indexed lists m spans rings)
    (hperm : spans.Perm spans') : Indexed lists m spans' rings := by
  refine ⟨h.ring, h.nodup, h.disjoint, ?_, ?_⟩
  · intro b p
    rw [h.mem_iff]
    simp only [hperm.mem_iff]
  · rw [h.size_eq, hperm.countP_eq]

/-- An allocated block has no part in the index. -/
theorem indexed_cons_allocated (hs : s.allocated = true) :
    Indexed lists m (s :: spans) rings ↔ Indexed lists m spans rings := by
  have hfree : s.isFree = false := by simp [Span.isFree, hs]
  have hmem : ∀ b p, (∃ t ∈ s :: spans, t.offset = p ∧ t.isFree = true ∧
      Bucket.ofSize t.size = b) ↔
      ∃ t ∈ spans, t.offset = p ∧ t.isFree = true ∧ Bucket.ofSize t.size = b := by
    intro b p
    simp [hfree]
  have hcount : (s :: spans).countP Span.isFree = spans.countP Span.isFree :=
    List.countP_cons_of_neg (by simp [hfree])
  constructor
  · intro h
    exact ⟨h.ring, h.nodup, h.disjoint, fun b p => (h.mem_iff b p).trans (hmem b p),
      h.size_eq.trans hcount⟩
  · intro h
    exact ⟨h.ring, h.nodup, h.disjoint, fun b p => (h.mem_iff b p).trans (hmem b p).symm,
      h.size_eq.trans hcount.symm⟩

/-- The blocks decide the rings, up to order. -/
theorem Indexed.perm_rings {rings' : Bucket → List Nat} (h : Indexed lists m spans rings)
    (h' : Indexed lists' m' spans rings') (b : Bucket) : (rings b).Perm (rings' b) := by
  refine (List.perm_ext_iff_of_nodup (h.nodup b) (h'.nodup b)).2 fun p => ?_
  rw [h.mem_iff, h'.mem_iff]

/-- Blocks and rings decide the table of sentinels and the count. -/
theorem Indexed.lists_eq (h : Indexed lists m spans rings) (h' : Indexed lists' m' spans rings) :
    lists' = lists := by
  obtain ⟨sentinels, size⟩ := lists
  obtain ⟨sentinels', size'⟩ := lists'
  have hsize : size' = size := h'.size_eq.trans h.size_eq.symm
  have hsentinels : sentinels' = sentinels := by
    refine Vector.ext fun i hi => ?_
    have hnext : sentinels'[i].next = sentinels[i].next :=
      (h'.ring ⟨i, hi⟩).first_eq.trans (h.ring ⟨i, hi⟩).first_eq.symm
    have hprev : sentinels'[i].prev = sentinels[i].prev :=
      (h'.ring ⟨i, hi⟩).last_eq.trans (h.ring ⟨i, hi⟩).last_eq.symm
    cases hs : sentinels[i]
    cases hs' : sentinels'[i]
    rw [hs, hs'] at hnext hprev
    rw [Sentinel.mk.injEq]
    exact ⟨hnext, hprev⟩
  rw [hsize, hsentinels]

/-- A single free block is alone in the ring of its size. -/
theorem Indexed.rings_eq_of_single (h : Indexed lists m [s] rings) (hs : s.isFree = true)
    (b : Bucket) : rings b = if b = .ofSize s.size then [s.offset] else [] := by
  have hmem : ∀ p, p ∈ rings b ↔ p = s.offset ∧ b = .ofSize s.size := by
    intro p
    rw [h.mem_iff]
    simp only [List.mem_singleton, exists_eq_left, hs, true_and]
    exact and_congr eq_comm eq_comm
  split
  case isTrue hb =>
    refine List.perm_singleton.1 ((List.perm_ext_iff_of_nodup (h.nodup b)
      (List.nodup_singleton _)).2 fun p => ?_)
    rw [hmem, List.mem_singleton]
    exact and_iff_left hb
  case isFalse hb =>
    exact List.eq_nil_iff_forall_not_mem.2 fun p hp => hb ((hmem p).1 hp).2

/-! ## Links of the rings -/

/-- The links of a ring are in the payload of a free block. -/
theorem Indexed.freePayload (h : Indexed lists m spans rings)
    (hmin : ∀ t ∈ spans, minBlock ≤ t.size) {i : Nat} (hi : LinkBytes rings i) :
    FreePayload spans i := by
  obtain ⟨b, p, hp, hpi⟩ := hi
  obtain ⟨t, ht, rfl, hfree, -⟩ := (h.mem_iff b p).1 hp
  have hmin := hmin t ht
  refine ⟨t, ht, hfree, ?_⟩
  simp only [Link.Owns, Span.InPayload, Span.stop, pairSize, minBlock] at *
  omega

/-- In a row the blocks of the rings are aligned. -/
theorem Indexed.aligned (h : Indexed lists m spans rings) (hrow : Row m prologue row)
    (hsub : ∀ t ∈ spans, t ∈ row) : ∀ b, ∀ p ∈ rings b, pairSize ∣ p := by
  intro b p hp
  obtain ⟨t, ht, rfl, -⟩ := (h.mem_iff b p).1 hp
  exact (hrow.proper t (hsub t ht)).1

/-- In a row the rings share no link word. -/
theorem Indexed.threaded (h : Indexed lists m spans rings) (hrow : Row m prologue row)
    (hsub : ∀ t ∈ spans, t ∈ row) : Threaded lists m rings := by
  have hspan : ∀ b, ∀ p ∈ rings b, ∃ t ∈ row, t.offset = p := by
    intro b p hp
    obtain ⟨t, ht, htp, -⟩ := (h.mem_iff b p).1 hp
    exact ⟨t, hsub t ht, htp⟩
  refine ⟨h.ring, h.nodup, h.disjoint, ?_, ?_, ?_⟩
  · intro b p hp
    obtain ⟨t, ht, rfl⟩ := hspan b p hp
    have hbounds := (hrow.bounds ht).1
    have hdvd := (hrow.proper t ht).1
    simp only [Link.Storable, pairSize] at *
    omega
  · intro b p hp
    obtain ⟨t, ht, rfl⟩ := hspan b p hp
    have hbounds := hrow.bounds ht
    simp only [Link.Room, Span.stop, pairSize, minBlock] at *
    omega
  · intro b c p hp q hq hne
    obtain ⟨t, ht, rfl⟩ := hspan b p hp
    obtain ⟨u, hu, rfl⟩ := hspan c q hq
    have ht' := (hrow.bounds ht).2.1
    have hu' := (hrow.bounds hu).2.1
    rcases hrow.tiles.eq_or_apart ht hu with rfl | hapart
    · exact (hne rfl).elim
    · simp only [Link.Apart, Span.stop, pairSize, minBlock] at *
      omega

/-- The index depends on the payloads of free blocks only. -/
theorem Indexed.kept (h : Indexed lists m spans rings) (hrow : Row m prologue row)
    (hsub : ∀ t ∈ spans, t ∈ row) (hm : m'.size < wordCount)
    (hkept : m.Kept m' (FreePayload spans)) : Indexed lists m' spans rings := by
  have hthreaded := (h.threaded hrow hsub).congr hkept.size_le hm fun i hi =>
    hkept.byteAt_eq i (h.freePayload (fun t ht => (hrow.proper t (hsub t ht)).2.2) hi)
  exact ⟨hthreaded.ring, h.nodup, h.disjoint, h.mem_iff, h.size_eq⟩

/-- An edit that keeps away from the payloads of free blocks keeps the index. -/
theorem Indexed.edited {w : Nat → Prop} (h : Indexed lists m spans rings)
    (hrow : Row m prologue row) (hsub : ∀ t ∈ spans, t ∈ row) (hm : m.size < wordCount)
    (hedit : m.Edited m' w) (hout : ∀ i, FreePayload spans i → ¬ w i) :
    Indexed lists m' spans rings :=
  h.kept hrow hsub (hedit.size_eq ▸ hm) (hedit.kept hout)

/-- An edit of blocks between two rows keeps the index of these rows. -/
theorem Indexed.edited_between {front mid back : List Span}
    (h : Indexed lists m (front ++ back) rings) (hrow : Row m prologue (front ++ mid ++ back))
    (hm : m.size < wordCount) (hedit : m.Edited m' (CoveredBytes mid)) :
    Indexed lists m' (front ++ back) rings := by
  have hsub : ∀ t ∈ front ++ back, t ∈ front ++ mid ++ back := by
    intro t ht
    rcases List.mem_append.1 ht with ht | ht <;> simp [ht]
  have hperm : (front ++ mid ++ back).Perm (mid ++ (front ++ back)) := by
    simpa using List.perm_append_comm_assoc front mid back
  have hdisjoint := (List.nodup_append.1 (hperm.nodup_iff.1 hrow.nodup)).2.2
  refine h.edited hrow hsub hm hedit ?_
  intro i hi hti
  obtain ⟨u, hu, -, hui⟩ := hi
  obtain ⟨t, ht, hti⟩ := hti
  have heq := hrow.eq_of_covers (hsub u hu) (by simp [ht]) (.of_inPayload hui) hti
  exact hdisjoint t ht u hu heq.symm

/-- An edit of one block keeps the index of the others. -/
theorem Indexed.edited_block {front back : List Span} (h : Indexed lists m (front ++ back) rings)
    (hrow : Row m prologue (front ++ s :: back)) (hm : m.size < wordCount)
    (hedit : m.Edited m' s.Covers) : Indexed lists m' (front ++ back) rings := by
  have hrow' : Row m prologue (front ++ [s] ++ back) := by simpa using hrow
  exact h.edited_between hrow' hm (hedit.mono fun i hi => ⟨s, List.mem_singleton_self s, hi⟩)

/-- The number of blocks of a row fits into a word. -/
theorem countP_lt (hrow : Row m prologue row) (hm : m.size < wordCount) (p : Span → Bool) :
    row.countP p + 1 < wordCount := by
  have hlen := hrow.tiles.length_mul_le fun t ht => (hrow.proper t ht).2.2
  have hcount := List.countP_le_length (p := p) (l := row)
  simp only [minBlock, pairSize, wordCount] at *
  omega

/-! ## Insertion and removal -/

/-- The links of a ring into which the block was put are its own, or in the payload of
another free block. -/
theorem Indexed.links_pushed (h : Indexed lists m spans rings)
    (hmin : ∀ t ∈ spans, minBlock ≤ t.size) {bucket : Bucket} {i : Nat}
    (hi : LinkBytes (pushed rings bucket s.offset) i) :
    FreePayload spans i ∨ (Link.block s.offset).Owns i :=
  (linkBytes_of_pushed hi).imp_left (h.freePayload hmin)

/-- The links of a block are in its payload. -/
theorem inPayload_of_owns (hmin : minBlock ≤ s.size) {i : Nat}
    (hi : (Link.block s.offset).Owns i) : s.InPayload i := by
  simp only [Link.Owns, Span.InPayload, Span.stop, pairSize, minBlock] at *
  omega

/-- Listing the last free block of a row that is not listed yet. No more is written
than links, and no claims are made. -/
theorem Indexed.insert (h : Indexed lists m spans rings) (hrow : Row m prologue row)
    (hm : m.size < wordCount) (hperm : row.Perm (s :: spans)) (hfree : s.isFree = true) :
    ∃ lists' m',
      FreeLists.insert s.offset (.ofSize s.size) (lists, m) = .ok () (lists', m') ∧
      Indexed lists' m' row (pushed rings (.ofSize s.size) s.offset) ∧ Row m' prologue row ∧
      m.Rewritten m' (LinkBytes (pushed rings (.ofSize s.size) s.offset)) [] := by
  have hs : s ∈ row := hperm.mem_iff.2 List.mem_cons_self
  have hsub : ∀ t ∈ spans, t ∈ row := fun t ht => hperm.mem_iff.2 (List.mem_cons_of_mem s ht)
  have hnew : s ∉ spans := (List.nodup_cons.1 (hperm.nodup_iff.1 hrow.nodup)).1
  have hthreaded := h.threaded hrow hsub
  have hbounds := hrow.bounds hs
  have hdvd := (hrow.proper s hs).1
  have hstorable : (Link.block s.offset).Storable := by
    simp only [Link.Storable, pairSize] at *
    omega
  have hroom : (Link.block s.offset).Room m := by
    simp only [Link.Room, Span.stop, pairSize, minBlock] at *
    omega
  have hapart : ∀ b, ∀ p ∈ rings b, (Link.block p).Apart (.block s.offset) := by
    intro b p hp
    obtain ⟨t, ht, rfl, -⟩ := (h.mem_iff b p).1 hp
    have ht' := (hrow.bounds (hsub t ht)).2.1
    rcases hrow.tiles.eq_or_apart (hsub t ht) hs with rfl | hapart
    · exact (hnew ht).elim
    · simp only [Link.Apart, Span.stop, pairSize, minBlock] at *
      omega
  have hcount : row.countP Span.isFree = spans.countP Span.isFree + 1 := by
    rw [hperm.countP_eq, List.countP_cons_of_pos hfree]
  have hsize : lists.size + 1 < wordCount := by
    have hlt := countP_lt hrow hm Span.isFree
    rw [h.size_eq]
    omega
  obtain ⟨lists', m', hrun, hthreaded', hsize', -⟩ :=
    hthreaded.insert hm hstorable hroom hapart hsize (.ofSize s.size)
  have hindexed : Indexed lists' m' row (pushed rings (.ofSize s.size) s.offset) := by
    refine ⟨hthreaded'.ring, hthreaded'.nodup, hthreaded'.disjoint, ?_, ?_⟩
    · intro b p
      rw [mem_pushed, h.mem_iff]
      constructor
      · rintro (⟨rfl, rfl⟩ | ⟨t, ht, hrest⟩)
        · exact ⟨s, hs, rfl, hfree, rfl⟩
        · exact ⟨t, hsub t ht, hrest⟩
      · rintro ⟨t, ht, rfl, htfree, rfl⟩
        rcases List.mem_cons.1 (hperm.mem_iff.1 ht) with rfl | ht'
        · exact Or.inl ⟨rfl, rfl⟩
        · exact Or.inr ⟨t, ht', rfl, htfree, rfl⟩
    · rw [hsize', h.size_eq, hcount]
  have hlinks : m.Rewritten m' (LinkBytes (pushed rings (.ofSize s.size) s.offset)) [] :=
    hthreaded.rewritten_insert hm (h.aligned hrow hsub) hdvd hstorable hroom hsize hrun
  refine ⟨lists', m', hrun, hindexed, hrow.edited_payload hm hlinks.toEdited fun i hi => ?_, hlinks⟩
  rcases h.links_pushed (fun t ht => (hrow.proper t (hsub t ht)).2.2) hi with
    ⟨t, ht, -, hti⟩ | hi
  · exact ⟨t, hsub t ht, hti⟩
  · exact ⟨s, hs, inPayload_of_owns hbounds.2.1 hi⟩

/-- Taking a free block off the lists. No more is written than links, and no claims are
made. -/
theorem Indexed.remove (h : Indexed lists m (s :: spans) rings) (hrow : Row m prologue row)
    (hm : m.size < wordCount) (hsub : ∀ t ∈ s :: spans, t ∈ row) (hnew : s ∉ spans)
    (hfree : s.isFree = true) :
    ∃ lists' m', FreeLists.remove s.offset (lists, m) = .ok () (lists', m') ∧
      Indexed lists' m' spans (dropped rings [s.offset]) ∧ Row m' prologue row ∧
      m.Rewritten m' (LinkBytes rings) [] := by
  have hs : s ∈ row := hsub s List.mem_cons_self
  have hmem : s.offset ∈ rings (.ofSize s.size) :=
    (h.mem_iff _ _).2 ⟨s, List.mem_cons_self, rfl, hfree, rfl⟩
  have hcount : lists.size = spans.countP Span.isFree + 1 := by
    rw [h.size_eq, List.countP_cons_of_pos hfree]
  have hone : 1 ≤ lists.size := hcount ▸ Nat.le_add_left 1 _
  obtain ⟨lists', m', hrun, hthreaded', hsize', -⟩ := (h.threaded hrow hsub).remove hm hmem hone
  have hindexed : Indexed lists' m' spans (dropped rings [s.offset]) := by
    refine ⟨hthreaded'.ring, hthreaded'.nodup, hthreaded'.disjoint, ?_, by omega⟩
    intro b p
    rw [mem_dropped, h.mem_iff, List.mem_singleton]
    constructor
    · rintro ⟨⟨t, ht, rfl, htfree, rfl⟩, hne⟩
      rcases List.mem_cons.1 ht with rfl | ht'
      · exact (hne rfl).elim
      · exact ⟨t, ht', rfl, htfree, rfl⟩
    · rintro ⟨t, ht, rfl, htfree, rfl⟩
      refine ⟨⟨t, List.mem_cons_of_mem s ht, rfl, htfree, rfl⟩, fun hoff => hnew ?_⟩
      have heq := hrow.eq_of_offset (hsub t (List.mem_cons_of_mem s ht)) hs hoff
      exact heq ▸ ht
  have hlinks := (h.threaded hrow hsub).rewritten_remove hm (h.aligned hrow hsub) hmem hone hrun
  refine ⟨lists', m', hrun, hindexed, hrow.edited_payload hm hlinks.toEdited ?_, hlinks⟩
  intro i hi
  obtain ⟨t, ht, -, hti⟩ := h.freePayload (fun t ht => (hrow.proper t (hsub t ht)).2.2) hi
  exact ⟨t, hsub t ht, hti⟩

/-- Taking a free block off the lists, wherever it stands among the blocks. -/
theorem Indexed.remove_middle {front back : List Span}
    (h : Indexed lists m (front ++ s :: back) rings) (hrow : Row m prologue row)
    (hm : m.size < wordCount) (hsub : (front ++ s :: back).Sublist row) (hfree : s.isFree = true) :
    ∃ lists' m', FreeLists.remove s.offset (lists, m) = .ok () (lists', m') ∧
      Indexed lists' m' (front ++ back) (dropped rings [s.offset]) ∧ Row m' prologue row ∧
      m.Rewritten m' (LinkBytes rings) [] := by
  have hperm : (front ++ s :: back).Perm (s :: (front ++ back)) := List.perm_middle
  have hnodup := List.nodup_cons.1 (hperm.nodup_iff.1 (hrow.nodup.sublist hsub))
  exact (h.perm hperm).remove hrow hm (fun t ht => hsub.subset (hperm.mem_iff.2 ht)) hnodup.1 hfree

end SegregatedFit.FreeLists
