-- SUMMARY: The words of the links are decided by the rings, bit for bit; removal clears those of its block.
import SegregatedFit.Proofs.FreeLists.Index

/-!
# Words of links

Unlike a tag, a link is read from one word only (`Link.encode_of_decode`). So the rings
decide every byte in which their links are stored, and not just what is read from it: two
memories with the same rings have the same bytes there (`Threaded.byteAt_eq`). A block
that is taken out of its ring is left with two words of zeros (`Threaded.cleared_removed`).
-/
namespace SegregatedFit

/-- A link is read from the word that stores it and from no other. -/
theorem Link.encode_of_decode {word : Nat} {x : Link} (h : decode word = some x) :
    x.encode = word := by
  unfold decode at h
  split at h
  case isTrue => cases h
  case isFalse =>
    split at h
    case isTrue hodd =>
      split at h
      case isTrue hbucket =>
        cases h
        have hvalue := sentinelWord_val ⟨word / 2, hbucket⟩
        simp only [encode] at *
        omega
      case isFalse => cases h
    case isFalse =>
      cases h
      rfl

/-- Storing zero stores zeros. -/
theorem Memory.byteAt_store_zero {m : Memory} {off n i : Nat} (hin : off + n ≤ m.size)
    (hi : off ≤ i) (hlt : i < off + n) : (m.store off 0 n).byteAt i = 0 := by
  have hload : (m.store off 0 n).load off n = empty.load off n := by
    rw [load_store hin (Nat.pow_pos (by decide)), load_of_size_le (Nat.zero_le off)]
  exact (byteAt_eq_of_load_eq hload hi hlt).trans (byteAt_of_size_le (Nat.zero_le i))

namespace FreeLists

-- words are written and read as a whole here, never byte by byte
attribute [local irreducible] Memory.store Memory.load

variable {lists lists' : FreeLists} {m m' : Memory} {rings : Bucket → List Nat}

theorem load_of_readLink {off : Nat} {x : Link} (h : readLink m off = .ok x) :
    m.load off wordSize = x.encode := by
  unfold readLink Memory.readWord at h
  by_cases hin : off + wordSize ≤ m.size
  · simp only [if_pos hin, bind, Except.bind] at h
    split at h
    case h_1 link hdecode =>
      cases h
      exact (Link.encode_of_decode hdecode).symm
    case h_2 => cases h
  · simp only [if_neg hin, bind, Except.bind, reduceCtorEq] at h

/-- The two words of a block in a ring are the links to its neighbours. -/
theorem Threaded.load_eq (h : Threaded lists m rings) (hm : m.size < wordCount)
    {bucket : Bucket} {pre post : List Nat} {bp : Nat} (hblocks : rings bucket = pre ++ bp :: post) :
    m.load bp wordSize = (firstNode bucket post).encode ∧
      m.load (bp + wordSize) wordSize = (lastNode bucket pre).encode := by
  obtain ⟨-, hlast, hfirst, -⟩ := ring_middle_iff.1 (hblocks ▸ h.ring bucket)
  have hroom : bp + pairSize ≤ m.size := h.room bucket bp (by simp [hblocks])
  have hlt : bp + wordSize < wordCount := by
    simp only [wordSize, pairSize] at *
    omega
  have hbefore := hlast.2
  rw [before_block hlt] at hbefore
  refine ⟨load_of_readLink hfirst.1, load_of_readLink ?_⟩
  cases hlink : readLink m (bp + wordSize) with
  | ok x =>
    rw [hlink] at hbefore
    exact congrArg Except.ok (Except.ok.inj hbefore)
  | error cause =>
    rw [hlink] at hbefore
    cases hbefore

/-- The rings decide the bytes of their links. -/
theorem Threaded.byteAt_eq (h : Threaded lists m rings) (h' : Threaded lists' m' rings)
    (hm : m.size < wordCount) (hm' : m'.size < wordCount) {i : Nat} (hi : LinkBytes rings i) :
    m'.byteAt i = m.byteAt i := by
  obtain ⟨bucket, bp, hbp, hlow, hhigh⟩ := hi
  obtain ⟨pre, post, hblocks⟩ := List.append_of_mem hbp
  obtain ⟨hnext, hprev⟩ := h.load_eq hm hblocks
  obtain ⟨hnext', hprev'⟩ := h'.load_eq hm' hblocks
  rcases Nat.lt_or_ge i (bp + wordSize) with hfirst | hsecond
  · exact Memory.byteAt_eq_of_load_eq (hnext'.trans hnext.symm) hlow hfirst
  · refine Memory.byteAt_eq_of_load_eq (hprev'.trans hprev.symm) hsecond ?_
    simp only [wordSize, pairSize] at *
    omega

/-- A block that was taken out of its ring has two words of zeros. -/
theorem Threaded.cleared_removed (h : Threaded lists m rings) (hm : m.size < wordCount)
    {bucket : Bucket} {bp : Nat} (hbp : bp ∈ rings bucket) (hsize : 1 ≤ lists.size)
    (hrun : FreeLists.remove bp (lists, m) = .ok () (lists', m')) {i : Nat}
    (hi : (Link.block bp).Owns i) : m'.byteAt i = 0 := by
  obtain ⟨pre, post, hblocks⟩ := List.append_of_mem hbp
  obtain ⟨-, hlast, hfirst, -⟩ := ring_middle_iff.1 (hblocks ▸ h.ring bucket)
  obtain ⟨⟨hnext, -⟩, hprev, -⟩ := h.neighbours hblocks
  have hroom : bp + pairSize ≤ m.size := h.room bucket bp hbp
  rw [remove_apply (σ := (lists, m)) hfirst.1 hlast.2 hroom (h.room_of_node hnext)
    (h.room_of_node hprev) hm hsize] at hrun
  obtain ⟨σ, hσ⟩ : ∃ σ, σ = withSize (lists.size - 1) (withBefore (firstNode bucket post)
      (lastNode bucket pre) (withAfter (lastNode bucket pre) (firstNode bucket post)
        (lists, m))) := ⟨_, rfl⟩
  have hsame : σ.2.size = m.size := by simp [hσ]
  rw [← hσ] at hrun
  simp only [EStateM.Result.ok.injEq, true_and] at hrun
  obtain rfl : m' = (withCleared bp σ).2 := (congrArg Prod.snd hrun).symm
  simp only [Link.Owns, pairSize] at hi hroom
  rw [withCleared]
  rcases Nat.lt_or_ge i (bp + wordSize) with hlow | hhigh
  · have hin : bp + wordSize ≤ σ.2.size := by
      simp only [wordSize]
      omega
    rw [Memory.byteAt_store_of_outside (Or.inl hlow), Memory.byteAt_store_zero hin hi.1 hlow]
  · have hin : bp + wordSize + wordSize ≤ (σ.2.store bp 0 wordSize).size := by
      rw [Memory.size_store]
      simp only [wordSize]
      omega
    exact Memory.byteAt_store_zero hin hhigh (by simp only [wordSize]; omega)

end FreeLists
end SegregatedFit
