-- SUMMARY: Links of free lists are no claims: insertion and removal write no header.
import SegregatedFit.Proofs.Block.Claims
import SegregatedFit.Proofs.FreeLists.Threading

/-!
# Linking

The second link of a free block lies where the header of another block would be if
one began there. But the word of a sentinel is smaller than that of any block, and
the word of a block is even, so no link reads as the header of an allocated block
(`Link.unclaiming`). Main statements: insertion and removal claim nothing, as long as
all blocks are aligned (`Threaded.rewritten_insert`, `Threaded.rewritten_remove`).
-/
namespace SegregatedFit

open Block

namespace Link

/-- The links of the node lie at aligned offsets. -/
def Aligned : Link → Prop
  | .sentinel _ => True
  | .block bp => pairSize ∣ bp

/-- The word of a link claims nothing. -/
theorem unclaiming {x : Link} (hx : x.Storable) : Unclaiming x.encode := by
  cases x with
  | sentinel bucket =>
    have hlt := bucket.isLt
    refine Or.inr ?_
    simp only [encode, sentinelWord_val, Tag.decode, bucketCount, pairSize, minBlock] at *
    omega
  | block bp =>
    refine Or.inl ?_
    have heven := hx.2
    simp only [encode, Tag.decode]
    exact decide_eq_false (by omega)

end Link

namespace FreeLists

-- words are written as a whole here, never byte by byte
attribute [local irreducible] Memory.store Memory.load

variable {lists lists' : FreeLists} {m m' : Memory} {rings : Bucket → List Nat}
variable {σ : FreeLists × Memory} {x value : Link} {bp : Nat} {bucket : Bucket}

/-! ## Settings -/

/-- A word that claims nothing, in one of the two places for the links of a block. -/
theorem rewritten_storeLink {off word : Nat} (hoff : off = bp ∨ off = bp + wordSize)
    (hbp : pairSize ∣ bp) (hroom : (Link.block bp).Room m) (hlt : word < 256 ^ wordSize)
    (hword : Unclaiming word) :
    m.Rewritten (m.store off word wordSize) (Link.block bp).Owns [] := by
  have hdvd : wordSize ∣ off := by
    simp only [wordSize, pairSize] at *
    omega
  have hin : off + wordSize ≤ m.size := by
    simp only [Link.Room, wordSize, pairSize] at *
    omega
  refine (rewritten_store hdvd hin hlt hword).mono fun i hi => ?_
  simp only [Link.Owns, wordSize, pairSize] at *
  omega

theorem rewritten_withAfter (hx : x.Aligned) (hroom : x.Room σ.2) (hvalue : value.Storable)
    (hlt : value.encode < 256 ^ wordSize) : σ.2.Rewritten (withAfter x value σ).2 x.Owns [] := by
  cases x with
  | sentinel b => exact .refl _ _ _
  | block bp => exact rewritten_storeLink (Or.inl rfl) hx hroom hlt (Link.unclaiming hvalue)

theorem rewritten_withBefore (hx : x.Aligned) (hroom : x.Room σ.2) (hvalue : value.Storable)
    (hlt : value.encode < 256 ^ wordSize) : σ.2.Rewritten (withBefore x value σ).2 x.Owns [] := by
  cases x with
  | sentinel b => exact .refl _ _ _
  | block bp => exact rewritten_storeLink (Or.inr rfl) hx hroom hlt (Link.unclaiming hvalue)

theorem rewritten_withCleared (hbp : pairSize ∣ bp) (hroom : (Link.block bp).Room σ.2) :
    σ.2.Rewritten (withCleared bp σ).2 (Link.block bp).Owns [] := by
  have hzero : Unclaiming 0 := Or.inl rfl
  have hroom' : (Link.block bp).Room (σ.2.store bp 0 wordSize) := hroom.mono (by simp)
  exact (rewritten_storeLink (Or.inl rfl) hbp hroom (by decide) hzero).trans
    (rewritten_storeLink (Or.inr rfl) hbp hroom' (by decide) hzero)

/-! ## Operations -/

/-- The nodes of rings of aligned blocks are aligned. -/
theorem Node.aligned (haligned : ∀ b, ∀ p ∈ rings b, pairSize ∣ p) (hx : Node rings x) :
    x.Aligned :=
  hx.of_blocks (P := Link.Aligned) (fun _ => trivial) haligned

/-- Insertion claims nothing. -/
theorem Threaded.rewritten_insert (h : Threaded lists m rings) (hm : m.size < wordCount)
    (haligned : ∀ b, ∀ p ∈ rings b, pairSize ∣ p) (hbp : pairSize ∣ bp)
    (hstorable : (Link.block bp).Storable) (hroom : (Link.block bp).Room m)
    (hsize : lists.size + 1 < wordCount)
    (hrun : FreeLists.insert bp bucket (lists, m) = .ok () (lists', m')) :
    m.Rewritten m' (LinkBytes (pushed rings bucket bp)) [] := by
  have hhead : Node rings (lists.first bucket) := h.first_node bucket
  have happly := insert_apply (σ := (lists, m)) rfl hroom (h.room_of_node hhead) hm hsize
  rw [hrun] at happly
  simp only [EStateM.Result.ok.injEq, true_and] at happly
  obtain rfl : m' = _ := congrArg Prod.snd happly
  have howns : Node (pushed rings bucket bp) (.block bp) := ⟨bucket, by simp⟩
  let σ₁ := withBefore (.block bp) (.sentinel bucket) (lists, m)
  let σ₂ := withAfter (.block bp) (lists.first bucket) σ₁
  let σ₃ := withBefore (lists.first bucket) (.block bp) σ₂
  have hsentinel : (Link.sentinel bucket).Storable := trivial
  have h₁ : m.Rewritten σ₁.2 (LinkBytes (pushed rings bucket bp)) [] :=
    (rewritten_withBefore (x := .block bp) (σ := (lists, m)) hbp hroom hsentinel
      (Link.encode_lt trivial hm)).mono fun i => linkBytes_of_owns howns
  have h₂ : σ₁.2.Rewritten σ₂.2 (LinkBytes (pushed rings bucket bp)) [] :=
    (rewritten_withAfter (x := .block bp) hbp (hroom.mono (by simp [σ₁])) (h.storable_of_node hhead)
      (Link.encode_lt (h.room_of_node hhead) hm)).mono fun i => linkBytes_of_owns howns
  have h₃ : σ₂.2.Rewritten σ₃.2 (LinkBytes (pushed rings bucket bp)) [] :=
    (rewritten_withBefore (hhead.aligned haligned) ((h.room_of_node hhead).mono (by simp [σ₁, σ₂]))
      hstorable (Link.encode_lt hroom hm)).mono fun i => linkBytes_of_owns (hhead.pushed bucket bp)
  exact (h₁.trans h₂).trans h₃

/-- Removal claims nothing. -/
theorem Threaded.rewritten_remove (h : Threaded lists m rings) (hm : m.size < wordCount)
    (haligned : ∀ b, ∀ p ∈ rings b, pairSize ∣ p) (hbp : bp ∈ rings bucket)
    (hsize : 1 ≤ lists.size) (hrun : FreeLists.remove bp (lists, m) = .ok () (lists', m')) :
    m.Rewritten m' (LinkBytes rings) [] := by
  obtain ⟨pre, post, hblocks⟩ := List.append_of_mem hbp
  obtain ⟨-, hlast, hfirst, -⟩ := ring_middle_iff.1 (hblocks ▸ h.ring bucket)
  obtain ⟨⟨hnext, -⟩, hprev, -⟩ := h.neighbours hblocks
  have hroom := h.room bucket bp hbp
  have happly := remove_apply (σ := (lists, m)) hfirst.1 hlast.2 hroom (h.room_of_node hnext)
    (h.room_of_node hprev) hm hsize
  rw [hrun] at happly
  simp only [EStateM.Result.ok.injEq, true_and] at happly
  obtain rfl : m' = _ := congrArg Prod.snd happly
  let σ₁ := withAfter (lastNode bucket pre) (firstNode bucket post) (lists, m)
  let σ₂ := withBefore (firstNode bucket post) (lastNode bucket pre) σ₁
  have h₁ : m.Rewritten σ₁.2 (LinkBytes rings) [] :=
    (rewritten_withAfter (σ := (lists, m)) (hprev.aligned haligned) (h.room_of_node hprev)
      (h.storable_of_node hnext) (Link.encode_lt (h.room_of_node hnext) hm)).mono fun i =>
        linkBytes_of_owns hprev
  have h₂ : σ₁.2.Rewritten σ₂.2 (LinkBytes rings) [] :=
    (rewritten_withBefore (hnext.aligned haligned) ((h.room_of_node hnext).mono (by simp [σ₁]))
      (h.storable_of_node hprev) (Link.encode_lt (h.room_of_node hprev) hm)).mono fun i =>
        linkBytes_of_owns hnext
  have h₃ : σ₂.2.Rewritten (withCleared bp σ₂).2 (LinkBytes rings) [] :=
    (rewritten_withCleared (haligned bucket bp hbp) (hroom.mono (by simp [σ₁, σ₂]))).mono fun i =>
      linkBytes_of_owns (x := .block bp) ⟨bucket, hbp⟩
  exact (h₁.trans h₂).trans h₃

end FreeLists
end SegregatedFit
