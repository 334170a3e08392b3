-- SUMMARY: The tour of the free lists, and what it finds wrong.
import SegregatedFit.Audit.Report
import SegregatedFit.FreeLists.Basic

/-!
# Touring the free lists

The tour follows each bucket from its sentinel and compares what it meets with
the blocks that the walk listed. It leaves a ring at the first node that is not
a free block met for the first time, so it ends whatever the links are: no block
is followed twice.
-/
namespace SegregatedFit.Audit

/-- The block at `bp`, if one begins there. -/
def blockAt? (blocks : List BlockEntry) (bp : Nat) : Option BlockEntry :=
  blocks.find? (·.offset == bp)

/-- The offsets of the blocks that were not met yet. -/
def unseen (blocks : List BlockEntry) (seen : List Nat) : List Nat :=
  (blocks.map (·.offset)).filter (· ∉ seen)

private theorem length_filter_lt {p q : Nat → Bool} {offsets : List Nat} {bp : Nat}
    (hmem : bp ∈ offsets) (hp : p bp = true) (hq : q bp = false)
    (himp : ∀ a, q a = true → p a = true) :
    (offsets.filter q).length < (offsets.filter p).length := by
  induction offsets with
  | nil => simp at hmem
  | cons a offsets ih =>
    have hle : (offsets.filter q).length ≤ (offsets.filter p).length := by
      rw [← List.countP_eq_length_filter, ← List.countP_eq_length_filter]
      exact List.countP_mono_left fun b _ => himp b
    rcases List.mem_cons.1 hmem with rfl | hmem
    · simp only [List.filter_cons, hp, hq, if_true, List.length_cons]
      simp only [Bool.false_eq_true, if_false]
      omega
    · have := ih hmem
      cases hqa : q a with
      | true => simpa [List.filter_cons, hqa, himp a hqa] using this
      | false =>
        cases hpa : p a <;> simp only [List.filter_cons, hqa, hpa, if_true, List.length_cons] <;>
          simp only [Bool.false_eq_true, if_false] <;> omega

/-- Meeting a block leaves fewer blocks unmet. -/
theorem length_unseen_cons_lt {blocks : List BlockEntry} {seen : List Nat} {bp : Nat}
    {info : BlockEntry} (hat : blockAt? blocks bp = some info) (hseen : bp ∉ seen) :
    (unseen blocks (bp :: seen)).length < (unseen blocks seen).length := by
  have hmem : bp ∈ blocks.map (·.offset) := by
    have hoff : info.offset = bp := by simpa using List.find?_some hat
    exact List.mem_map.2 ⟨info, List.mem_of_find?_eq_some hat, hoff⟩
  refine length_filter_lt hmem (by simpa using hseen) (by simp) fun a ha => ?_
  have ha := of_decide_eq_true ha
  exact decide_eq_true fun h => ha (List.mem_cons_of_mem bp h)

/-- What is wrong with the bucket and the backward link of a free block. -/
def nodeFaults (lists : FreeLists) (m : Memory) (bucket : Bucket) (prev : Link)
    (info : BlockEntry) : List Violation :=
  let expected := Bucket.ofSize info.header.size
  (if expected ≠ bucket then [.wrongBucket info.offset bucket expected] else [])
    ++ (if (lists.before m (.block info.offset)).toOption ≠ some prev
        then [.brokenLink info.offset bucket] else [])

/-- Follows the ring of a bucket from `cursor`, which came after `prev`. Answers
all offsets met, with those of `seen`, and what is wrong. -/
def followRing (lists : FreeLists) (m : Memory) (blocks : List BlockEntry) (bucket : Bucket)
    (prev cursor : Link) (seen : List Nat) : List Nat × List Violation :=
  match cursor with
  | .sentinel home =>
    if home = bucket ∧ (lists.before m cursor).toOption = some prev then (seen, [])
    else (seen, [.brokenLink prev.encode bucket])
  | .block bp =>
    if _hseen : bp ∈ seen then (seen, [.duplicateFreeListEntry bp bucket])
    else
      match _hat : blockAt? blocks bp with
      | none => (bp :: seen, [.unknownFreeListEntry bp bucket])
      | some info =>
        if info.header.allocated then (bp :: seen, [.allocatedInFreeList bp bucket])
        else
          let faults := nodeFaults lists m bucket prev info
          match lists.after m cursor with
          | .error _ => (bp :: seen, faults ++ [.brokenLink bp bucket])
          | .ok next =>
            let (seen, more) := followRing lists m blocks bucket cursor next (bp :: seen)
            (seen, faults ++ more)
termination_by (unseen blocks seen).length
decreasing_by exact length_unseen_cons_lt _hat _hseen

/-- Follows the rings of all buckets in order. -/
def tour (lists : FreeLists) (m : Memory) (blocks : List BlockEntry) : List Nat × List Violation :=
  (List.finRange bucketCount).foldl
    (fun (seen, faults) bucket =>
      let (seen, more) :=
        followRing lists m blocks bucket (.sentinel bucket) (lists.first bucket) seen
      (seen, faults ++ more))
    ([], [])

end SegregatedFit.Audit
