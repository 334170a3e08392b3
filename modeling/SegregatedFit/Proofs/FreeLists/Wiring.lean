-- SUMMARY: Setting one link of a free list, what it changes, and insertion and removal as such settings.
import SegregatedFit.FreeLists.Ring
import SegregatedFit.Proofs.Block.Frame

/-!
# Wiring

A link is set in the table of sentinels or in the memory. `withAfter` and
`withBefore` are the two settings as functions on lists and memory, and the
laws below say which links read back changed: the one that was set, and no link
of a node apart from it. Insertion and removal are compositions of settings
(`insert_apply`, `remove_apply`).
-/
namespace SegregatedFit

namespace Link

/-- The links of the node lie inside the memory. -/
def Room (m : Memory) : Link → Prop
  | .sentinel _ => True
  | .block bp => bp + pairSize ≤ m.size

/-- The two nodes share no link word. -/
def Apart : Link → Link → Prop
  | .sentinel a, .sentinel b => a ≠ b
  | .block p, .block q => p + pairSize ≤ q ∨ q + pairSize ≤ p
  | _, _ => True

/-- The bytes in which the links of the node are stored. -/
def Owns : Link → Nat → Prop
  | .sentinel _, _ => False
  | .block bp, i => bp ≤ i ∧ i < bp + pairSize

theorem Apart.symm {x y : Link} (h : x.Apart y) : y.Apart x := by
  cases x <;> cases y
  · exact Ne.symm h
  · exact trivial
  · exact trivial
  · exact Or.symm h

theorem Room.mono {x : Link} {m m' : Memory} (h : x.Room m) (hle : m.size ≤ m'.size) :
    x.Room m' := by
  cases x with
  | sentinel b => exact trivial
  | block bp => exact Nat.le_trans h hle

/-- What can be stored is stored in a word. -/
theorem encode_lt {x : Link} {m : Memory} (hx : x.Room m) (hm : m.size < wordCount) :
    x.encode < 256 ^ wordSize := by
  cases x with
  | sentinel bucket =>
    have hlt := bucket.isLt
    simp only [encode, sentinelWord_val, bucketCount, wordSize] at *
    omega
  | block bp =>
    simp only [Room, encode, wordSize, wordCount, pairSize] at *
    omega

end Link

namespace FreeLists

-- words are written and read as a whole here, never byte by byte
attribute [local irreducible] Memory.store Memory.load

variable {lists : FreeLists} {m : Memory}

/-- Lists and memory after the node after `x` became `value`. -/
def withAfter (x value : Link) (σ : FreeLists × Memory) : FreeLists × Memory :=
  match x with
  | .sentinel b =>
    (⟨σ.1.sentinels.set b.val { σ.1.sentinels.get b with next := value } b.isLt, σ.1.size⟩, σ.2)
  | .block bp => (σ.1, σ.2.store bp value.encode wordSize)

/-- Lists and memory after the node before `x` became `value`. -/
def withBefore (x value : Link) (σ : FreeLists × Memory) : FreeLists × Memory :=
  match x with
  | .sentinel b =>
    (⟨σ.1.sentinels.set b.val { σ.1.sentinels.get b with prev := value } b.isLt, σ.1.size⟩, σ.2)
  | .block bp => (σ.1, σ.2.store (bp + wordSize) value.encode wordSize)

/-- Lists and memory after both links of a block were cleared. -/
def withCleared (bp : Nat) (σ : FreeLists × Memory) : FreeLists × Memory :=
  (σ.1, (σ.2.store bp 0 wordSize).store (bp + wordSize) 0 wordSize)

/-- Lists and memory after the number of blocks became `n`. -/
def withSize (n : Nat) (σ : FreeLists × Memory) : FreeLists × Memory := (⟨σ.1.sentinels, n⟩, σ.2)

/-! ## What a setting leaves alone -/

@[simp] theorem size_withAfter (x value : Link) (σ : FreeLists × Memory) :
    (withAfter x value σ).1.size = σ.1.size := by
  cases x <;> rfl

@[simp] theorem size_withBefore (x value : Link) (σ : FreeLists × Memory) :
    (withBefore x value σ).1.size = σ.1.size := by
  cases x <;> rfl

@[simp] theorem memory_withSize (n : Nat) (σ : FreeLists × Memory) : (withSize n σ).2 = σ.2 := rfl

/-- A word in one of the two places for the links of a block. -/
theorem edited_storeLink {bp off : Nat} (hoff : off = bp ∨ off = bp + wordSize) (m : Memory)
    (word : Nat) : m.Edited (m.store off word wordSize) (Link.block bp).Owns := by
  refine (m.edited_store off word wordSize).mono ?_
  intro i hi
  simp only [Link.Owns, wordSize, pairSize] at *
  omega

/-- A setting touches the links of its node only. -/
theorem edited_withAfter (x value : Link) (σ : FreeLists × Memory) :
    σ.2.Edited (withAfter x value σ).2 x.Owns := by
  cases x with
  | sentinel b => exact .refl _ _
  | block bp => exact edited_storeLink (Or.inl rfl) _ _

theorem edited_withBefore (x value : Link) (σ : FreeLists × Memory) :
    σ.2.Edited (withBefore x value σ).2 x.Owns := by
  cases x with
  | sentinel b => exact .refl _ _
  | block bp => exact edited_storeLink (Or.inr rfl) _ _

theorem edited_withCleared (bp : Nat) (σ : FreeLists × Memory) :
    σ.2.Edited (withCleared bp σ).2 (Link.block bp).Owns :=
  (edited_storeLink (Or.inl rfl) _ _).trans (edited_storeLink (Or.inr rfl) _ _)

@[simp] theorem memory_size_withAfter (x value : Link) (σ : FreeLists × Memory) :
    (withAfter x value σ).2.size = σ.2.size :=
  (edited_withAfter x value σ).size_eq

@[simp] theorem memory_size_withBefore (x value : Link) (σ : FreeLists × Memory) :
    (withBefore x value σ).2.size = σ.2.size :=
  (edited_withBefore x value σ).size_eq

/-! ## Reading links -/

/-- The node after `x`, over lists and memory together. -/
def afterOf (σ : FreeLists × Memory) (x : Link) : Except HeapError Link := σ.1.after σ.2 x

/-- The node before `x`, over lists and memory together. -/
def beforeOf (σ : FreeLists × Memory) (x : Link) : Except (Failure HeapError) Link :=
  σ.1.before σ.2 x

theorem readLink_edited {m m' : Memory} {w : Nat → Prop} (h : m.Edited m' w) {off : Nat}
    (hout : ∀ i, off ≤ i → i < off + wordSize → ¬ w i) : readLink m' off = readLink m off := by
  simp only [readLink, h.readWord_eq hout]

/-- A link reads back as it was stored. -/
theorem readLink_store {off : Nat} {value : Link} (h : off + wordSize ≤ m.size)
    (hv : value.Storable) (hlt : value.encode < 256 ^ wordSize) :
    readLink (m.store off value.encode wordSize) off = .ok value := by
  have hin : off + wordSize ≤ (m.store off value.encode wordSize).size := by simpa using h
  simp only [readLink, Memory.readWord, if_pos hin, Memory.load_store h hlt, bind, Except.bind,
    Link.decode_encode hv]
  rfl

theorem before_block {bp : Nat} (h : bp + wordSize < wordCount) :
    lists.before m (.block bp) =
      (readLink m (bp + wordSize)).mapError .refused := by
  simp only [before, Word.add_of_lt h]
  rfl

/-- Where a word holds the place of the second link, reading it is not trapped. -/
theorem before_ne_trapped {bp : Nat} (h : bp + wordSize < wordCount) (trap : Trap) :
    lists.before m (.block bp) ≠ .error (.trapped trap) := by
  rw [before_block h]
  intro htrapped
  cases hlink : readLink m (bp + wordSize) with
  | error cause =>
    rw [hlink] at htrapped
    cases htrapped
  | ok link =>
    rw [hlink] at htrapped
    cases htrapped

section Reading

variable {σ : FreeLists × Memory} {x z value : Link}

theorem afterOf_withAfter_self (hx : x.Room σ.2) (hv : value.Storable)
    (hlt : value.encode < 256 ^ wordSize) : afterOf (withAfter x value σ) x = .ok value := by
  cases x with
  | sentinel b => simp [afterOf, withAfter, after]
  | block bp =>
    simp only [Link.Room, pairSize] at hx
    exact readLink_store (by simp only [wordSize]; omega) hv hlt

theorem afterOf_withAfter (h : z.Apart x) : afterOf (withAfter x value σ) z = afterOf σ z := by
  cases x with
  | sentinel b =>
    cases z with
    | sentinel c =>
      have hne : b.val ≠ c.val := fun heq => h (Fin.ext heq).symm
      simp [afterOf, withAfter, after, Vector.getElem_set_ne, hne]
    | block bp => rfl
  | block bp =>
    cases z with
    | sentinel c => rfl
    | block q =>
      refine readLink_edited (edited_withAfter (.block bp) value σ) ?_
      intro i hi hlt
      simp only [Link.Apart, Link.Owns, wordSize, pairSize] at *
      omega

theorem beforeOf_withAfter (h : z = x ∨ z.Apart x) (hm : σ.2.size < wordCount)
    (hz : z.Room σ.2) : beforeOf (withAfter x value σ) z = beforeOf σ z := by
  cases z with
  | sentinel c =>
    cases x with
    | sentinel b =>
      by_cases hbc : b = c
      · subst hbc
        simp [beforeOf, withAfter, before]
        rfl
      · have hne : b.val ≠ c.val := fun heq => hbc (Fin.ext heq)
        simp [beforeOf, withAfter, before, Vector.getElem_set_ne, hne]
    | block bp => rfl
  | block q =>
    have hq : q + wordSize < wordCount := by
      simp only [Link.Room, wordSize, pairSize] at *
      omega
    simp only [beforeOf, before_block hq]
    congr 1
    cases x with
    | sentinel b => rfl
    | block bp =>
      refine readLink_edited (Memory.edited_store _ _ _ _) ?_
      intro i hi hlt
      simp only [Link.Apart, Link.block.injEq, wordSize, pairSize] at *
      omega

theorem beforeOf_withBefore_self (hx : x.Room σ.2) (hm : σ.2.size < wordCount)
    (hv : value.Storable) (hlt : value.encode < 256 ^ wordSize) :
    beforeOf (withBefore x value σ) x = .ok value := by
  cases x with
  | sentinel b => simp [beforeOf, withBefore, before]
  | block bp =>
    simp only [Link.Room, pairSize] at hx
    have hq : bp + wordSize < wordCount := by
      simp only [wordSize]
      omega
    rw [beforeOf, before_block hq]
    simp only [withBefore]
    rw [readLink_store (by simp only [wordSize]; omega) hv hlt]
    rfl

theorem beforeOf_withBefore (h : z.Apart x) (hm : σ.2.size < wordCount) (hz : z.Room σ.2) :
    beforeOf (withBefore x value σ) z = beforeOf σ z := by
  cases z with
  | sentinel c =>
    cases x with
    | sentinel b =>
      have hne : b.val ≠ c.val := fun heq => h (Fin.ext heq).symm
      simp [beforeOf, withBefore, before, Vector.getElem_set_ne, hne]
    | block bp => rfl
  | block q =>
    have hq : q + wordSize < wordCount := by
      simp only [Link.Room, wordSize, pairSize] at *
      omega
    simp only [beforeOf, before_block hq]
    congr 1
    cases x with
    | sentinel b => rfl
    | block bp =>
      refine readLink_edited (Memory.edited_store _ _ _ _) ?_
      intro i hi hlt
      simp only [Link.Apart, wordSize, pairSize] at *
      omega

theorem afterOf_withBefore (h : z = x ∨ z.Apart x) :
    afterOf (withBefore x value σ) z = afterOf σ z := by
  cases x with
  | sentinel b =>
    cases z with
    | sentinel c =>
      by_cases hbc : b = c
      · subst hbc
        simp [afterOf, withBefore, after]
        rfl
      · have hne : b.val ≠ c.val := fun heq => hbc (Fin.ext heq)
        simp [afterOf, withBefore, after, Vector.getElem_set_ne, hne]
    | block bp => rfl
  | block bp =>
    cases z with
    | sentinel c => rfl
    | block q =>
      refine readLink_edited (Memory.edited_store _ _ _ _) ?_
      intro i hi hlt
      simp only [Link.Apart, Link.block.injEq, wordSize, pairSize] at *
      omega

/-- Clearing a block changes no link of a node apart from it. -/
theorem afterOf_withCleared {bp : Nat} (h : z.Apart (.block bp)) :
    afterOf (withCleared bp σ) z = afterOf σ z := by
  cases z with
  | sentinel c => rfl
  | block q =>
    refine readLink_edited (edited_withCleared bp σ) ?_
    intro i hi hlt
    simp only [Link.Apart, Link.Owns, wordSize, pairSize] at *
    omega

theorem beforeOf_withCleared {bp : Nat} (h : z.Apart (.block bp)) (hm : σ.2.size < wordCount)
    (hz : z.Room σ.2) : beforeOf (withCleared bp σ) z = beforeOf σ z := by
  cases z with
  | sentinel c => rfl
  | block q =>
    have hq : q + wordSize < wordCount := by
      simp only [Link.Room, wordSize, pairSize] at *
      omega
    simp only [beforeOf, before_block hq]
    congr 1
    refine readLink_edited (edited_withCleared bp σ) ?_
    intro i hi hlt
    simp only [Link.Apart, Link.Owns, wordSize, pairSize] at *
    omega

end Reading

/-! ## Operations as settings -/

section Operations

variable {σ : FreeLists × Memory} {x value : Link} {bp : Nat}

theorem storeLink_apply {off word : Nat} (h : off + wordSize ≤ σ.2.size) :
    storeLink off word σ = .ok () (σ.1, σ.2.store off word wordSize) := by
  obtain ⟨lists, m⟩ := σ
  simp only [storeLink, Action.onSecond_apply, Memory.writeWord, if_pos h]

theorem setAfter_apply (hx : x.Room σ.2) : setAfter value x σ = .ok () (withAfter x value σ) := by
  cases x with
  | sentinel b => rfl
  | block bp =>
    simp only [Link.Room, pairSize] at hx
    exact storeLink_apply (by simp only [wordSize]; omega)

theorem setBefore_apply (hx : x.Room σ.2) (hm : σ.2.size < wordCount) :
    setBefore value x σ = .ok () (withBefore x value σ) := by
  cases x with
  | sentinel b => rfl
  | block bp =>
    simp only [Link.Room, pairSize] at hx
    have hadd : Word.add bp wordSize = .ok (bp + wordSize) :=
      Word.add_of_lt (by simp only [wordSize]; omega)
    simp only [setBefore, hadd, Action.bind_apply, Action.lift_trap_ok]
    exact storeLink_apply (by simp only [wordSize]; omega)

theorem setSize_apply (n : Nat) (σ : FreeLists × Memory) : setSize n σ = .ok () (withSize n σ) :=
  rfl

theorem storeLink_next (hbp : (Link.block bp).Room σ.2) :
    storeLink bp value.encode σ = .ok () (withAfter (.block bp) value σ) :=
  setAfter_apply hbp

theorem storeLink_prev (hbp : (Link.block bp).Room σ.2) :
    storeLink (bp + wordSize) value.encode σ = .ok () (withBefore (.block bp) value σ) := by
  simp only [Link.Room, pairSize] at hbp
  exact storeLink_apply (by simp only [wordSize]; omega)

theorem add_wordSize (hbp : (Link.block bp).Room σ.2) (hm : σ.2.size < wordCount) :
    Word.add bp wordSize = .ok (bp + wordSize) := by
  simp only [Link.Room, pairSize] at hbp
  exact Word.add_of_lt (by simp only [wordSize]; omega)

/-- Insertion links the block in between the sentinel and the first node. -/
theorem insert_apply {bucket : Bucket} {head : Link} (hhead : σ.1.first bucket = head)
    (hbp : (Link.block bp).Room σ.2) (hroom : head.Room σ.2) (hm : σ.2.size < wordCount)
    (hsize : σ.1.size + 1 < wordCount) :
    insert bp bucket σ = .ok () (withSize (σ.1.size + 1)
      (withAfter (.sentinel bucket) (.block bp) (withBefore head (.block bp)
        (withAfter (.block bp) head (withBefore (.block bp) (.sentinel bucket) σ))))) := by
  have hsize' : Word.add σ.1.size 1 = .ok (σ.1.size + 1) := Word.add_of_lt hsize
  let σ₁ := withBefore (.block bp) (.sentinel bucket) σ
  let σ₂ := withAfter (.block bp) head σ₁
  let σ₃ := withBefore head (.block bp) σ₂
  have h₁ : storeLink (bp + wordSize) (Link.sentinel bucket).encode σ = .ok () σ₁ :=
    storeLink_prev hbp
  have h₂ : storeLink bp head.encode σ₁ = .ok () σ₂ := storeLink_next (hbp.mono (by simp [σ₁]))
  have h₃ : setBefore (.block bp) head σ₂ = .ok () σ₃ :=
    setBefore_apply (hroom.mono (by simp [σ₁, σ₂])) (by simpa [σ₁, σ₂] using hm)
  have h₄ : setAfter (.block bp) (.sentinel bucket) σ₃ =
      .ok () (withAfter (.sentinel bucket) (.block bp) σ₃) := setAfter_apply trivial
  simp only [insert, Action.bind_apply, Action.get_apply, hhead, add_wordSize hbp hm,
    Action.lift_trap_ok, h₁, h₂, h₃, h₄, size_withAfter, setSize_apply]
  simp only [σ₃, σ₂, σ₁, size_withAfter, size_withBefore, hsize', Action.lift_trap_ok]

/-- Removal links the nodes around the block to one another and clears its links. -/
theorem remove_apply {next prev : Link} (hnext : afterOf σ (.block bp) = .ok next)
    (hprev : beforeOf σ (.block bp) = .ok prev) (hbp : (Link.block bp).Room σ.2)
    (hnextRoom : next.Room σ.2) (hprevRoom : prev.Room σ.2) (hm : σ.2.size < wordCount)
    (hsize : 1 ≤ σ.1.size) :
    remove bp σ = .ok () (withCleared bp (withSize (σ.1.size - 1)
      (withBefore next prev (withAfter prev next σ)))) := by
  have hsub : Word.sub σ.1.size 1 = .ok (σ.1.size - 1) := Word.sub_of_le hsize
  have hafter : σ.1.after σ.2 (.block bp) = .ok next := hnext
  have hbefore : σ.1.before σ.2 (.block bp) = .ok prev := hprev
  let σ₁ := withAfter prev next σ
  let σ₂ := withBefore next prev σ₁
  let σ₃ := withSize (σ.1.size - 1) σ₂
  have h₁ : setAfter next prev σ = .ok () σ₁ := setAfter_apply hprevRoom
  have h₂ : setBefore prev next σ₁ = .ok () σ₂ :=
    setBefore_apply (hnextRoom.mono (by simp [σ₁])) (by simpa [σ₁] using hm)
  have hroom₃ : (Link.block bp).Room σ₃.2 := hbp.mono (by simp [σ₁, σ₂, σ₃])
  have h₃ : storeLink bp 0 σ₃ = .ok () (σ₃.1, σ₃.2.store bp 0 wordSize) := by
    simp only [Link.Room, pairSize] at hroom₃
    exact storeLink_apply (by simp only [wordSize]; omega)
  have h₄ : storeLink (bp + wordSize) 0 (σ₃.1, σ₃.2.store bp 0 wordSize) =
      .ok () (withCleared bp σ₃) := by
    simp only [Link.Room, pairSize] at hroom₃
    exact storeLink_apply (by rw [Memory.size_store]; simp only [wordSize]; omega)
  have hsize₂ : σ₂.1.size = σ.1.size := by simp [σ₁, σ₂]
  simp only [remove, Action.bind_apply, Action.get_apply, hafter, hbefore, Action.lift_ok,
    Action.lift_failure_ok, h₁, h₂, hsize₂, hsub, Action.lift_trap_ok, setSize_apply]
  simp only [show withSize (σ.1.size - 1) σ₂ = σ₃ from rfl, h₃, h₄, add_wordSize hbp hm,
    Action.lift_trap_ok]
  rfl

end Operations

end FreeLists
end SegregatedFit
