-- SUMMARY: Which block a search through an indexed row selects, under either policy.
import SegregatedFit.Proofs.FreeLists.FirstFit

/-!
# Selection

Under the canonical policy a search misses no block: what it finds is the first
fitting block of the lowest bucket that has one (`FirstFit`), and it finds nothing
only if no free block fits. Under the other policy it looks at no block's size in
vain: above the bucket of the request every block fits, so it takes the head of the
first ring that has one (`HeadAbove`). The policies differ below the last bucket only.
-/
namespace SegregatedFit

open Block

namespace Bucket

variable {α : Type} {f : Bucket → Option α} {first b : Bucket} {a : α} {size : Nat}

theorem pairwise_upFrom (first : Bucket) : (upFrom first).Pairwise (· < ·) :=
  (List.pairwise_lt_finRange bucketCount).filter _

/-- The first answer from a bucket on is that of a bucket below which there is none. -/
theorem findSome?_upFrom_eq_some_iff :
    (upFrom first).findSome? f = some a ↔
      ∃ b, first ≤ b ∧ f b = some a ∧ ∀ c, first ≤ c → c < b → f c = none := by
  constructor
  · intro h
    obtain ⟨before, b, behind, hsplit, hb, hbefore⟩ := List.findSome?_eq_some_iff.1 h
    have hsorted := pairwise_upFrom first
    rw [hsplit] at hsorted
    have hmem : b ∈ upFrom first := by simp [hsplit]
    refine ⟨b, mem_upFrom.1 hmem, hb, fun c hc hlt => ?_⟩
    have hc' : c ∈ before ++ b :: behind := hsplit ▸ mem_upFrom.2 hc
    rcases List.mem_append.1 hc' with hc' | hc'
    · exact hbefore c hc'
    · -- from `b` on, no bucket is below `b`
      rcases List.mem_cons.1 hc' with rfl | hc'
      · exact (Nat.lt_irrefl _ hlt).elim
      · have hgt := (List.pairwise_cons.1 (List.pairwise_append.1 hsorted).2.1).1 c hc'
        exact (Nat.lt_asymm hlt hgt).elim
  · rintro ⟨b, hle, hb, hbelow⟩
    obtain ⟨before, behind, hsplit⟩ := List.append_of_mem (mem_upFrom.2 hle)
    have hsorted := pairwise_upFrom first
    rw [hsplit] at hsorted
    refine List.findSome?_eq_some_iff.2 ⟨before, b, behind, hsplit, hb, fun c hc => ?_⟩
    have hlt := (List.pairwise_append.1 hsorted).2.2 c hc b List.mem_cons_self
    exact hbelow c (mem_upFrom.1 (hsplit ▸ List.mem_append_left _ hc)) hlt

theorem findSome?_upFrom_eq_none_iff :
    (upFrom first).findSome? f = none ↔ ∀ b, first ≤ b → f b = none := by
  simp only [List.findSome?_eq_none_iff, mem_upFrom]

/-- A block of a higher bucket is no smaller. -/
theorem le_of_ofSize_lt {a b : Nat} (h : ofSize a < ofSize b) : a ≤ b := by
  by_contra hlt
  exact Nat.not_lt.2 (ofSize_mono (Nat.le_of_not_le hlt)) h

/-- Below the last bucket, a search that skips the bucket of the request begins above it. -/
theorem searchFrom_skip_le_iff (h : ofSize size ≠ last) :
    searchFrom size .skipCanonical ≤ b ↔ ofSize size < b := by
  have hlt : (ofSize size).val + 1 < bucketCount := by
    have hle := (ofSize size).isLt
    simp only [last, ne_eq, Fin.ext_iff, bucketCount] at h hle ⊢
    have : (14 : Fin 15).val = 14 := rfl
    omega
  simp only [searchFrom, dif_pos hlt, Fin.le_def, Fin.lt_def]
  omega

/-- The last bucket is not skipped. -/
theorem searchFrom_skip_of_last (h : ofSize size = last) :
    searchFrom size .skipCanonical = searchFrom size .canonical := by
  simp only [searchFrom, h]
  rfl

/-- A search begins in the bucket of the request, unless the policy skips that bucket. -/
theorem searchFrom_eq_ofSize_iff {policy : SearchPolicy} :
    searchFrom size policy = ofSize size ↔ policy = .canonical ∨ ofSize size = last := by
  cases policy with
  | canonical => simp [searchFrom]
  | skipCanonical =>
    by_cases hlast : ofSize size = last
    · exact iff_of_true (searchFrom_skip_of_last hlast) (Or.inr hlast)
    · simp only [hlast, reduceCtorEq, or_self, iff_false]
      intro hsame
      exact Nat.lt_irrefl _ ((searchFrom_skip_le_iff hlast).1 (Nat.le_of_eq (congrArg _ hsame)))

end Bucket

namespace FreeLists

/-- The free block `t` is the first fitting one of the lowest bucket that has one. -/
structure FirstFit (spans : List Span) (rings : Bucket → List Nat) (size : Nat) (t : Span) :
    Prop where
  mem : t ∈ spans
  free : t.isFree = true
  fits : size ≤ t.size
  lowest : ∀ u ∈ spans, u.isFree = true → size ≤ u.size →
    Bucket.ofSize t.size ≤ Bucket.ofSize u.size
  /-- No block in front of it in its ring fits. -/
  first : ∃ front back, rings (.ofSize t.size) = front ++ t.offset :: back ∧
    ∀ u ∈ spans, u.offset ∈ front → u.size < size

/-- `bp` is the head of the first ring above the bucket that has a block. -/
def HeadAbove (rings : Bucket → List Nat) (bucket : Bucket) (bp : Nat) : Prop :=
  ∃ b, bucket < b ∧ (rings b).head? = some bp ∧ ∀ c, bucket < c → c < b → rings c = []

variable {lists : FreeLists} {m : Memory} {rings : Bucket → List Nat} {bucket : Bucket}
variable {prologue size bp : Nat} {spans : List Span}

/-! ## One ring -/

theorem firstOf_eq_none_iff (h : lists.Indexed m spans rings) (hrow : Row m prologue spans) :
    firstOf m size (rings bucket) = none ↔
      ∀ t ∈ spans, t.isFree = true → Bucket.ofSize t.size = bucket → t.size < size := by
  simp only [firstOf, List.find?_eq_none, decide_eq_true_eq, h.mem_iff, Nat.not_le]
  constructor
  · intro hnone t ht hfree hbucket
    exact sizeAt_of_mem hrow ht ▸ hnone t.offset ⟨t, ht, rfl, hfree, hbucket⟩
  · rintro hsmall _ ⟨t, ht, rfl, hfree, hbucket⟩
    exact (sizeAt_of_mem hrow ht).symm ▸ hsmall t ht hfree hbucket

theorem firstOf_eq_some_iff (h : lists.Indexed m spans rings) (hrow : Row m prologue spans) :
    firstOf m size (rings bucket) = some bp ↔
      ∃ t ∈ spans, t.offset = bp ∧ t.isFree = true ∧ Bucket.ofSize t.size = bucket ∧
        size ≤ t.size ∧ ∃ front back, rings bucket = front ++ bp :: back ∧
          ∀ u ∈ spans, u.offset ∈ front → u.size < size := by
  simp only [firstOf, List.find?_eq_some_iff_append, decide_eq_true_eq, Bool.not_eq_true',
    decide_eq_false_iff_not, Nat.not_le]
  constructor
  · rintro ⟨hfits, front, back, hsplit, hfront⟩
    have hmem : bp ∈ rings bucket := by simp [hsplit]
    obtain ⟨t, ht, rfl, hfree, hbucket⟩ := (h.mem_iff bucket bp).1 hmem
    refine ⟨t, ht, rfl, hfree, hbucket, sizeAt_of_mem hrow ht ▸ hfits, front, back, hsplit, ?_⟩
    intro u hu hmem
    exact sizeAt_of_mem hrow hu ▸ hfront u.offset hmem
  · rintro ⟨t, ht, rfl, -, -, hfits, front, back, hsplit, hfront⟩
    refine ⟨(sizeAt_of_mem hrow ht).symm ▸ hfits, front, back, hsplit, fun q hq => ?_⟩
    have hmem : q ∈ rings bucket := hsplit ▸ List.mem_append_left _ hq
    obtain ⟨u, hu, rfl, -⟩ := (h.mem_iff bucket q).1 hmem
    exact (sizeAt_of_mem hrow hu).symm ▸ hfront u hu hq

/-- Above the bucket of the request, the first fitting block of a ring is its head. -/
theorem firstOf_eq_head? (h : lists.Indexed m spans rings) (hrow : Row m prologue spans)
    (hbucket : Bucket.ofSize size < bucket) :
    firstOf m size (rings bucket) = (rings bucket).head? := by
  cases hring : rings bucket with
  | nil => rfl
  | cons p rest =>
    obtain ⟨t, ht, rfl, -, rfl⟩ := (h.mem_iff bucket p).1 (hring ▸ List.mem_cons_self)
    have hfits : size ≤ sizeAt m t.offset :=
      (sizeAt_of_mem hrow ht).symm ▸ Bucket.le_of_ofSize_lt hbucket
    simp [firstOf, hfits]

/-! ## All rings -/

/-- A search that begins in the bucket of the request finds the first fit. -/
theorem Indexed.canonical_eq_some_iff (h : lists.Indexed m spans rings)
    (hrow : Row m prologue spans) :
    lists.find? m size .canonical = .ok (some bp) ↔
      ∃ t, t.offset = bp ∧ FirstFit spans rings size t := by
  rw [h.find?_eq hrow fun _ ht => ht, Except.ok.injEq, Bucket.findSome?_upFrom_eq_some_iff]
  simp only [Bucket.searchFrom, firstOf_eq_some_iff h hrow, firstOf_eq_none_iff h hrow]
  constructor
  · rintro ⟨b, -, ⟨t, ht, rfl, hfree, rfl, hfits, hfirst⟩, hbelow⟩
    refine ⟨t, rfl, ht, hfree, hfits, fun u hu hufree hufits => ?_, hfirst⟩
    by_contra hlt
    have hsmall := hbelow _ (Bucket.ofSize_mono hufits) (Nat.not_le.1 hlt) u hu hufree rfl
    exact Nat.not_lt.2 hufits hsmall
  · rintro ⟨t, rfl, ht, hfree, hfits, hlowest, hfirst⟩
    refine ⟨_, Bucket.ofSize_mono hfits, ⟨t, ht, rfl, hfree, rfl, hfits, hfirst⟩, ?_⟩
    rintro c - hc u hu hufree rfl
    by_contra hufits
    exact Nat.not_lt.2 (hlowest u hu hufree (Nat.not_lt.1 hufits)) hc

/-- It finds nothing only if no free block fits. -/
theorem Indexed.canonical_eq_none_iff (h : lists.Indexed m spans rings)
    (hrow : Row m prologue spans) :
    lists.find? m size .canonical = .ok none ↔
      ∀ t ∈ spans, t.isFree = true → t.size < size := by
  rw [h.find?_eq hrow fun _ ht => ht, Except.ok.injEq, Bucket.findSome?_upFrom_eq_none_iff]
  simp only [Bucket.searchFrom, firstOf_eq_none_iff h hrow]
  constructor
  · intro hnone t ht hfree
    by_contra hfits
    exact hfits (hnone _ (Bucket.ofSize_mono (Nat.not_lt.1 hfits)) t ht hfree rfl)
  · intro hsmall b _ t ht hfree _
    exact hsmall t ht hfree

/-- A search that skips the bucket of the request takes the first head above it. -/
theorem Indexed.skip_eq_some_iff (h : lists.Indexed m spans rings) (hrow : Row m prologue spans)
    (hlast : Bucket.ofSize size ≠ Bucket.last) :
    lists.find? m size .skipCanonical = .ok (some bp) ↔
      HeadAbove rings (.ofSize size) bp := by
  rw [h.find?_eq hrow fun _ ht => ht, Except.ok.injEq, Bucket.findSome?_upFrom_eq_some_iff]
  simp only [Bucket.searchFrom_skip_le_iff hlast, HeadAbove]
  refine exists_congr fun b => and_congr_right fun hb => ?_
  rw [firstOf_eq_head? h hrow hb]
  refine and_congr_right fun _ => forall_congr' fun c => forall_congr' fun hc => ?_
  rw [firstOf_eq_head? h hrow hc, List.head?_eq_none_iff]

/-- It finds nothing only if there is no block above. -/
theorem Indexed.skip_eq_none_iff (h : lists.Indexed m spans rings) (hrow : Row m prologue spans)
    (hlast : Bucket.ofSize size ≠ Bucket.last) :
    lists.find? m size .skipCanonical = .ok none ↔
      ∀ b, Bucket.ofSize size < b → rings b = [] := by
  rw [h.find?_eq hrow fun _ ht => ht, Except.ok.injEq, Bucket.findSome?_upFrom_eq_none_iff]
  simp only [Bucket.searchFrom_skip_le_iff hlast]
  refine forall_congr' fun b => forall_congr' fun hb => ?_
  rw [firstOf_eq_head? h hrow hb, List.head?_eq_none_iff]

/-- In the last bucket the two policies begin alike. -/
theorem find?_skip_of_last (lists : FreeLists) (m : Memory)
    (hlast : Bucket.ofSize size = Bucket.last) :
    lists.find? m size .skipCanonical = lists.find? m size .canonical := by
  rw [find?, find?, Bucket.searchFrom_skip_of_last hlast]

end FreeLists
end SegregatedFit
