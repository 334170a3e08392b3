-- SUMMARY: Words that read as headers of allocated blocks, and edits that write no new ones.
import SegregatedFit.Proofs.Block.Frame

/-!
# Claims

A memory claims a block at an aligned offset if the word below it reads as the
header of an allocated block. What was a header once may still be there when its
block is gone, so a heap must see to it that such words are overwritten, or are
never taken for more than they are. `Rewritten m m' within new` is an edit that
adds no claims but those at `new`. Main statement: `claims_tagged`, writing tags
makes the claim of an allocated block and takes back that of a free one.
-/
namespace SegregatedFit

namespace Block

/-- The word below `ptr` reads as the header of an allocated block. -/
structure Claims (m : Memory) (ptr : Nat) : Prop where
  aligned : pairSize ∣ ptr
  pos : 0 < ptr
  header : ∃ size, minBlock ≤ size ∧ readTag m (ptr - wordSize) = .ok ⟨size, true⟩

end Block

open Block

/-- `m'` is `m` after an edit that touched no byte but those `within`, and claims no
block that `m` does not claim, but for those at `new`. -/
structure Memory.Rewritten (m m' : Memory) (within : Nat → Prop) (new : List Nat) : Prop
    extends m.Edited m' within where
  claims : ∀ ptr, Claims m' ptr → Claims m ptr ∨ ptr ∈ new

namespace Memory

variable {m m' m'' : Memory} {w w' : Nat → Prop} {new new' : List Nat}

theorem Rewritten.refl (m : Memory) (w : Nat → Prop) (new : List Nat) : m.Rewritten m w new :=
  ⟨.refl m w, fun _ => Or.inl⟩

theorem Rewritten.mono (h : m.Rewritten m' w new) (hw : ∀ i, w i → w' i) :
    m.Rewritten m' w' new :=
  ⟨h.toEdited.mono hw, h.claims⟩

/-- More claims may be announced than are made. -/
theorem Rewritten.claiming (h : m.Rewritten m' w new) (hnew : new ⊆ new') :
    m.Rewritten m' w new' :=
  ⟨h.toEdited, fun ptr hptr => (h.claims ptr hptr).imp_right fun hmem => hnew hmem⟩

theorem Rewritten.trans (h : m.Rewritten m' w new) (h' : m'.Rewritten m'' w new) :
    m.Rewritten m'' w new := by
  refine ⟨h.toEdited.trans h'.toEdited, fun ptr hptr => ?_⟩
  rcases h'.claims ptr hptr with hptr' | hnew
  · exact h.claims ptr hptr'
  · exact Or.inr hnew

/-- An edit that announces no claims makes none. -/
theorem Rewritten.claims_of_nil (h : m.Rewritten m' w []) {ptr : Nat} (hptr : Claims m' ptr) :
    Claims m ptr :=
  (h.claims ptr hptr).resolve_right List.not_mem_nil

end Memory

namespace Block

variable {m m' : Memory} {w : Nat → Prop} {s : Span} {ptr : Nat}

/-- A claim in bytes that an edit left alone. -/
theorem Claims.of_edited (h : Claims m' ptr) (hedit : m.Edited m' w)
    (hout : ∀ i, ptr ≤ i + wordSize → i < ptr → ¬ w i) : Claims m ptr := by
  obtain ⟨hdvd, hpos, size, hmin, htag⟩ := h
  refine ⟨hdvd, hpos, size, hmin, ?_⟩
  rw [← htag, readTag_edited hedit]
  intro i hi hlt
  simp only [wordSize, pairSize] at *
  exact hout i (by omega) (by omega)

/-- A word that reads as the tag of a free block is no claim. -/
theorem not_claims_of_free {tag : Tag} (hfree : tag.allocated = false)
    (htag : readTag m (ptr - wordSize) = .ok tag) : ¬ Claims m ptr := by
  rintro ⟨-, -, size, -, hclaim⟩
  rw [htag] at hclaim
  obtain rfl := Except.ok.inj hclaim
  cases hfree

/-- A word that is not the tag of an allocated block. -/
def Unclaiming (word : Nat) : Prop :=
  (Tag.decode word).allocated = false ∨ (Tag.decode word).size < minBlock

/-- A word that claims nothing may be stored anywhere. -/
theorem rewritten_store {off word : Nat} (hoff : wordSize ∣ off) (hin : off + wordSize ≤ m.size)
    (hlt : word < 256 ^ wordSize) (hword : Unclaiming word) :
    m.Rewritten (m.store off word wordSize) (fun i => off ≤ i ∧ i < off + wordSize) [] := by
  refine ⟨Memory.edited_store m off word wordSize, fun ptr hptr => Or.inl ?_⟩
  by_cases hslot : ptr = off + wordSize
  · obtain ⟨-, -, size, hmin, htag⟩ := hptr
    have hdecode := (readTag_eq_ok_iff.1 htag).2
    rw [hslot, Nat.add_sub_cancel, Memory.load_store hin hlt] at hdecode
    rw [Unclaiming, hdecode] at hword
    rcases hword with hfree | hsmall
    · cases hfree
    · exact (Nat.not_le.2 hsmall hmin).elim
  · refine hptr.of_edited (Memory.edited_store m off word wordSize) fun i hi hlt hw => hslot ?_
    have hdvd := hptr.aligned
    simp only [wordSize, pairSize] at *
    omega

/-- What is taken for a block is claimed. -/
theorem claims_of_header {size : Nat} (hdvd : pairSize ∣ ptr) (hpos : 0 < ptr)
    (hmin : minBlock ≤ size) (htag : Block.header m ptr = .ok ⟨size, true⟩) : Claims m ptr := by
  have hword : wordSize ≤ ptr := by
    simp only [wordSize, pairSize] at *
    omega
  refine ⟨hdvd, hpos, size, hmin, ?_⟩
  rwa [Block.header, headerOffset_of_le hword] at htag

/-- What is claimed after a copy was claimed before, there or where the bytes came
from. -/
theorem claims_copied {src n dst : Nat} (hsrc : pairSize ∣ src) (hdst : pairSize ∣ dst)
    (hn : pairSize ∣ n) (hsrcIn : src + n ≤ m.size) (hdstIn : dst + n ≤ m.size)
    (h : Claims (m.setSlice dst (m.slice src n)) ptr) :
    Claims m ptr ∨ ∃ k, 0 < k ∧ k ≤ n ∧ Claims m (src + k) := by
  by_cases hin : dst < ptr ∧ ptr ≤ dst + n
  · obtain ⟨hptr, -, size, hmin, htag⟩ := h
    refine Or.inr ⟨ptr - dst, by omega, by omega,
      Nat.dvd_add hsrc (Nat.dvd_sub hptr hdst), by omega, size, hmin, ?_⟩
    have hload : m.load (src + (ptr - dst) - wordSize) wordSize =
        (m.setSlice dst (m.slice src n)).load (ptr - wordSize) wordSize := by
      refine Memory.load_eq_of_shifted fun j hj => ?_
      have hbyte : (m.setSlice dst (m.slice src n)).byteAt (dst + (ptr - wordSize - dst + j)) =
          m.byteAt (src + (ptr - wordSize - dst + j)) :=
        Memory.byteAt_copied hdstIn (by simp only [wordSize, pairSize] at *; omega)
      have hfrom : src + (ptr - dst) - wordSize + j = src + (ptr - wordSize - dst + j) := by
        simp only [wordSize, pairSize] at *
        omega
      have hto : ptr - wordSize + j = dst + (ptr - wordSize - dst + j) := by
        simp only [wordSize, pairSize] at *
        omega
      rw [hfrom, hto, hbyte]
    have hdecode := (readTag_eq_ok_iff.1 htag).2
    rw [← hload] at hdecode
    refine readTag_eq_ok_iff.2 ⟨?_, hdecode⟩
    simp only [wordSize, pairSize] at *
    omega
  · refine Or.inl (h.of_edited (Memory.edited_setSlice m dst _) fun i hi hlt hw => hin ?_)
    have hptr := h.aligned
    simp only [Memory.length_slice, wordSize, pairSize] at *
    omega

/-- Zeros at the end claim nothing. -/
theorem claims_extend (hm : pairSize ∣ m.size) {n : Nat} (h : Claims (m.extend n) ptr) :
    Claims m ptr := by
  obtain ⟨hdvd, hpos, size, hmin, htag⟩ := h
  have hload : (m.extend n).load (ptr - wordSize) wordSize = m.load (ptr - wordSize) wordSize :=
    Memory.load_congr fun i _ _ => m.byteAt_extend n i
  have hdecode := hload ▸ (readTag_eq_ok_iff.1 htag).2
  refine ⟨hdvd, hpos, size, hmin, readTag_eq_ok_iff.2 ⟨?_, hdecode⟩⟩
  refine Decidable.byContradiction fun hout => ?_
  have hzero : m.load (ptr - wordSize) wordSize = 0 := by
    apply Memory.load_of_size_le
    simp only [wordSize, pairSize] at *
    omega
  rw [hzero] at hdecode
  cases hdecode

/-- The tags of a block say whether it is claimed, and nothing about other blocks. A
footer is no claim, since it does not lie below an aligned offset. -/
theorem claims_tagged (hs : s.Inside m) (hoff : pairSize ∣ s.offset) (hsize : pairSize ∣ s.size)
    (h : Claims (tagged m s) ptr) :
    ptr = s.offset ∧ s.allocated = true ∨ ptr ≠ s.offset ∧ Claims m ptr := by
  by_cases hptr : ptr = s.offset
  · have hs' : s.Inside (tagged m s) :=
      ⟨hs.start_le, hs.pair_le, by rw [size_tagged]; exact hs.stop_le,
        by rw [size_tagged]; exact hs.size_lt⟩
    have htag := ((taggedIn_iff hs'.fits).1 (taggedIn_tagged hs.fits hsize)).1
    rw [← hptr] at htag
    refine Or.inl ⟨hptr, ?_⟩
    cases halloc : s.allocated with
    | true => rfl
    | false => exact (not_claims_of_free halloc htag h).elim
  · refine Or.inr ⟨hptr, h.of_edited (edited_tagged hs.fits) fun i hi hlt htags => hptr ?_⟩
    have hdvd := h.aligned
    have hstart := hs.start_le
    have hpair := hs.pair_le
    simp only [Span.InTags, Span.stop, wordSize, pairSize] at *
    omega

/-- The tags of a free block claim nothing. -/
theorem rewritten_tagged_free (hs : s.Inside m) (hoff : pairSize ∣ s.offset)
    (hsize : pairSize ∣ s.size) (hfree : s.isFree = true) :
    m.Rewritten (tagged m s) s.InTags [] := by
  refine ⟨edited_tagged hs.fits, fun ptr hptr => Or.inl ?_⟩
  rcases claims_tagged hs hoff hsize hptr with ⟨-, halloc⟩ | ⟨-, hclaims⟩
  · rw [Span.isFree_iff.1 hfree] at halloc
    cases halloc
  · exact hclaims

/-- The tags of an allocated block claim that block. -/
theorem rewritten_tagged (hs : s.Inside m) (hoff : pairSize ∣ s.offset)
    (hsize : pairSize ∣ s.size) : m.Rewritten (tagged m s) s.InTags [s.offset] := by
  refine ⟨edited_tagged hs.fits, fun ptr hptr => ?_⟩
  rcases claims_tagged hs hoff hsize hptr with ⟨rfl, -⟩ | ⟨-, hclaims⟩
  · exact Or.inr List.mem_cons_self
  · exact Or.inl hclaims

end Block
end SegregatedFit
