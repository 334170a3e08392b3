-- SUMMARY: Changes of the free lists, one after another, as changes of fifteen plain lists.
import Mathlib.Data.Fintype.Basic
import Mathlib.Data.List.Chain
import SegregatedFit.Proofs.FreeLists.FirstFit

/-!
# Evolution

The free lists change by insertions and removals, and the memory in which they
are stored by writes of others that keep off their links. To a client they are
fifteen plain lists throughout (`Reads`): an insertion puts a block in front of
one, a removal takes it out of the one that holds it. Main statement:
`Evolved.plain_lists`, after any number of changes, with the effect of the next one
limited to the nodes around its block (`Rewired`).
-/
namespace SegregatedFit.FreeLists

open Block

variable {lists lists' : FreeLists} {m m' m₀ : Memory} {rings : Bucket → List Nat}

/-! ## Changes -/

/-- A change of the lists, or of other bytes of the memory. -/
inductive Change where
  | insert (bp : Nat) (bucket : Bucket)
  | remove (bp : Nat)
  | write (off : Nat) (bytes : List UInt8)
  deriving DecidableEq, Repr

/-- The block and the nodes next to it in its ring. -/
def Around (rings : Bucket → List Nat) (bp : Nat) (x : Link) : Prop :=
  ∃ b pre post, rings b = pre ++ bp :: post ∧
    (x = lastNode b pre ∨ x = .block bp ∨ x = firstNode b post)

/-- Only links of these nodes changed. -/
structure Rewired (σ σ' : FreeLists × Memory) (nodes : Link → Prop) : Prop where
  edited : σ.2.Edited σ'.2 fun i => ∃ x, nodes x ∧ x.Owns i
  sentinel_eq : ∀ b, ¬ nodes (.sentinel b) → σ'.1.sentinels.get b = σ.1.sentinels.get b

namespace Change

/-- The operation. -/
def run : Change → Edit Unit
  | .insert bp bucket => FreeLists.insert bp bucket
  | .remove bp => FreeLists.remove bp
  | .write off bytes => fun (lists, m) => .ok () (lists, m.setSlice off bytes)

/-- The plain lists afterwards. -/
def plain (rings : Bucket → List Nat) : Change → Bucket → List Nat
  | .insert bp bucket => pushed rings bucket bp
  | .remove bp => dropped rings [bp]
  | .write .. => rings

/-- A block that is inserted has links of its own, one that is removed is in a
list, and a write keeps off the links. -/
def Allowed (rings : Bucket → List Nat) (m : Memory) : Change → Prop
  | .insert bp _ => (Link.block bp).Storable ∧ (Link.block bp).Room m ∧
      ∀ b, ∀ p ∈ rings b, (Link.block p).Apart (.block bp)
  | .remove bp => ∃ b, bp ∈ rings b
  | .write off bytes => ∀ i, LinkBytes rings i → i < off ∨ off + bytes.length ≤ i

/-- What the change touches: the links around its block, or the bytes written. -/
def Confined (rings : Bucket → List Nat) (σ σ' : FreeLists × Memory) : Change → Prop
  | .insert bp bucket => Rewired σ σ' (Around (pushed rings bucket bp) bp)
  | .remove bp => Rewired σ σ' (Around rings bp)
  | .write off bytes => σ'.1 = σ.1 ∧ σ.2.Edited σ'.2 fun i => off ≤ i ∧ i < off + bytes.length

end Change

/-- Lists and memory after any allowed changes, and the plain lists that they store. -/
inductive Evolved (m₀ : Memory) : FreeLists → Memory → (Bucket → List Nat) → Prop
  | empty : Evolved m₀ .empty m₀ fun _ => []
  | step {lists lists' : FreeLists} {m m' : Memory} {rings : Bucket → List Nat} {change : Change} :
    Evolved m₀ lists m rings → change.Allowed rings m →
      change.run (lists, m) = .ok () (lists', m') → Evolved m₀ lists' m' (change.plain rings)

/-! ## Reading the lists -/

/-- The blocks of all lists, bucket by bucket. -/
def members (rings : Bucket → List Nat) : List Nat := (List.finRange bucketCount).flatMap rings

/-- From the sentinel of the bucket, the links lead through these blocks and back to it. -/
def Follows {ε : Type} (next : Link → Except ε Link) (bucket : Bucket) (blocks : List Nat) : Prop :=
  List.IsChain (fun x y => next x = .ok y)
    (.sentinel bucket :: blocks.map .block ++ [.sentinel bucket])

/-- What there is to see of the lists is that of the plain lists. -/
structure Reads (lists : FreeLists) (m : Memory) (rings : Bucket → List Nat) : Prop where
  forward : ∀ b, Follows (lists.after m) b (rings b)
  backward : ∀ b, Follows (lists.before m) b (rings b).reverse
  size_eq : lists.size = (members rings).length
  isEmptyAt_iff : ∀ b, lists.isEmptyAt b = true ↔ rings b = []
  find?_eq : (∀ p ∈ members rings, wordSize ≤ p) → ∀ size policy,
    lists.find? m size policy =
      .ok (firstOf m size ((Bucket.upFrom (Bucket.searchFrom size policy)).flatMap rings))

/-- The lists store the plain lists, in a memory of words. -/
structure Stored (lists : FreeLists) (m : Memory) (rings : Bucket → List Nat) : Prop
    extends Threaded lists m rings where
  size_eq : lists.size = (members rings).length
  memory_lt : m.size < wordCount

theorem mem_members {p : Nat} : p ∈ members rings ↔ ∃ b, p ∈ rings b := by
  simp [members]

theorem Threaded.nodup_members (h : Threaded lists m rings) : (members rings).Nodup := by
  refine List.nodup_flatMap.2 ⟨fun b _ => h.nodup b, ?_⟩
  exact (List.nodup_finRange bucketCount).imp fun hbc => h.disjoint _ _ hbc

/-- There are far fewer blocks than words. -/
theorem Threaded.length_members_lt (h : Threaded lists m rings) (hm : m.size < wordCount) :
    (members rings).length + 1 < wordCount := by
  have hrange : members rings ⊆ List.range (m.size - 15) := by
    intro p hp
    obtain ⟨b, hp⟩ := mem_members.1 hp
    have hroom := h.room b p hp
    simp only [Link.Room, pairSize, List.mem_range] at *
    omega
  have hle := (List.subperm_of_subset h.nodup_members hrange).length_le
  rw [List.length_range] at hle
  simp only [wordCount] at *
  omega

theorem Chain.isChain {nodes : List Link} (h : Chain lists m nodes) :
    nodes.IsChain (lists.Linked m) := by
  induction nodes with
  | nil => exact .nil
  | cons x rest ih =>
    cases rest with
    | nil => exact .singleton x
    | cons y rest => exact .cons_cons h.1 (ih h.2)

/-- A ring read forwards. -/
theorem Ring.follows_after {bucket : Bucket} {blocks : List Nat} (h : Ring lists m bucket blocks) :
    Follows (lists.after m) bucket blocks :=
  (Chain.isChain h).imp fun _ _ hlinked => hlinked.1

/-- A ring read backwards. -/
theorem Ring.follows_before {bucket : Bucket} {blocks : List Nat} (h : Ring lists m bucket blocks) :
    Follows (lists.before m) bucket blocks.reverse := by
  have hreverse := List.isChain_reverse.2 ((Chain.isChain h).imp fun _ _ hlinked => hlinked.2)
  simpa [Follows] using hreverse

theorem Stored.reads (h : Stored lists m rings) : Reads lists m rings := by
  refine ⟨fun b => (h.ring b).follows_after, fun b => (h.ring b).follows_before, h.size_eq,
    fun b => (h.ring b).isEmptyAt_iff, fun hlow size policy => ?_⟩
  have hheader : ∀ b, ∀ p ∈ rings b, ∃ tag, header m p = .ok tag := by
    intro b p hp
    have hroom := h.room b p hp
    exact ⟨_, header_of_le (hlow p (mem_members.2 ⟨b, hp⟩)) (Nat.le_of_add_right_le hroom)⟩
  rw [h.find?_eq hheader, firstOf, List.find?_flatMap]
  rfl

/-! ## What a change touches -/

section Rewiring

variable {σ σ' σ'' : FreeLists × Memory} {nodes : Link → Prop} {x value : Link}

theorem Rewired.trans (h : Rewired σ σ' nodes) (h' : Rewired σ' σ'' nodes) : Rewired σ σ'' nodes :=
  ⟨h.edited.trans h'.edited, fun b hb => (h'.sentinel_eq b hb).trans (h.sentinel_eq b hb)⟩

/-- Either link of a node is set. -/
theorem rewired_of_set (hx : nodes x)
    (hset : σ' = withAfter x value σ ∨ σ' = withBefore x value σ) : Rewired σ σ' nodes := by
  have hedit : σ.2.Edited σ'.2 x.Owns := by
    rcases hset with rfl | rfl
    · exact edited_withAfter x value σ
    · exact edited_withBefore x value σ
  refine ⟨hedit.mono fun i hi => ⟨x, hx, hi⟩, fun b hb => ?_⟩
  cases x with
  | sentinel c =>
    have hne : c.val ≠ b.val := fun heq => hb (Fin.ext heq ▸ hx)
    rcases hset with rfl | rfl <;> exact Vector.getElem_set_ne c.isLt b.isLt hne
  | block bp => rcases hset with rfl | rfl <;> rfl

theorem rewired_withCleared {bp : Nat} (hbp : nodes (.block bp)) (σ : FreeLists × Memory) :
    Rewired σ (withCleared bp σ) nodes :=
  ⟨(edited_withCleared bp σ).mono fun _ hi => ⟨_, hbp, hi⟩, fun _ _ => rfl⟩

theorem rewired_withSize (n : Nat) (σ : FreeLists × Memory) (nodes : Link → Prop) :
    Rewired σ (withSize n σ) nodes :=
  ⟨.refl _ _, fun _ _ => rfl⟩

end Rewiring

/-! ## One change -/

/-- An insertion puts the block in front of its list. -/
theorem Stored.insert (h : Stored lists m rings) {bp : Nat} {bucket : Bucket}
    (hallowed : (Change.insert bp bucket).Allowed rings m) :
    ∃ lists' m', FreeLists.insert bp bucket (lists, m) = .ok () (lists', m') ∧
      Stored lists' m' (pushed rings bucket bp) ∧
      Rewired (lists, m) (lists', m') (Around (pushed rings bucket bp) bp) := by
  obtain ⟨hstorable, hroom, hapart⟩ := hallowed
  have hlt : lists.size + 1 < wordCount := h.size_eq ▸ h.length_members_lt h.memory_lt
  obtain ⟨lists', m', hrun, hthreaded, hsize, hedit⟩ :=
    h.toThreaded.insert h.memory_lt hstorable hroom hapart hlt bucket
  have hfresh : bp ∉ members rings := by
    intro hbp
    obtain ⟨b, hbp⟩ := mem_members.1 hbp
    have hself := hapart b bp hbp
    simp only [Link.Apart, pairSize] at hself
    omega
  have hperm : (members (pushed rings bucket bp)).Perm (bp :: members rings) := by
    refine (List.perm_ext_iff_of_nodup hthreaded.nodup_members
      (List.nodup_cons.2 ⟨hfresh, h.nodup_members⟩)).2 fun p => ?_
    simp only [mem_members, mem_pushed, List.mem_cons, exists_or, exists_eq_left]
  refine ⟨lists', m', hrun, ⟨hthreaded, ?_, hedit.size_eq ▸ h.memory_lt⟩, ?_⟩
  · rw [hsize, h.size_eq, hperm.length_eq, List.length_cons]
  · have happly := insert_apply (σ := (lists, m)) rfl hroom (h.room_of_node (h.first_node bucket))
      h.memory_lt hlt
    rw [hrun] at happly
    simp only [EStateM.Result.ok.injEq, true_and] at happly
    have haround : ∀ x, x = .sentinel bucket ∨ x = .block bp ∨ x = lists.first bucket →
        Around (pushed rings bucket bp) bp x := by
      intro x hx
      rw [(h.ring bucket).first_eq] at hx
      exact ⟨bucket, [], rings bucket, pushed_self .., hx⟩
    have hsent := haround (.sentinel bucket) (Or.inl rfl)
    have hbp := haround (.block bp) (Or.inr (Or.inl rfl))
    have hhead := haround (lists.first bucket) (Or.inr (Or.inr rfl))
    rw [happly]
    exact (rewired_of_set hbp (Or.inr rfl)).trans <| (rewired_of_set hbp (Or.inl rfl)).trans <|
      (rewired_of_set hhead (Or.inr rfl)).trans <| (rewired_of_set hsent (Or.inl rfl)).trans <|
      rewired_withSize _ _ _

/-- A removal takes the block out of whichever list holds it. -/
theorem Stored.remove (h : Stored lists m rings) {bp : Nat}
    (hallowed : (Change.remove bp).Allowed rings m) :
    ∃ lists' m', FreeLists.remove bp (lists, m) = .ok () (lists', m') ∧
      Stored lists' m' (dropped rings [bp]) ∧
      Rewired (lists, m) (lists', m') (Around rings bp) := by
  obtain ⟨bucket, hbp⟩ := hallowed
  have hmem : bp ∈ members rings := mem_members.2 ⟨bucket, hbp⟩
  have hpos : 1 ≤ lists.size := h.size_eq ▸ List.length_pos_of_mem hmem
  obtain ⟨lists', m', hrun, hthreaded, hsize, hedit⟩ := h.toThreaded.remove h.memory_lt hbp hpos
  have hperm : (members (dropped rings [bp])).Perm ((members rings).erase bp) := by
    refine (List.perm_ext_iff_of_nodup hthreaded.nodup_members (h.nodup_members.erase bp)).2
      fun p => ?_
    rw [h.nodup_members.mem_erase_iff]
    simp only [mem_members, mem_dropped, List.mem_singleton, exists_and_right]
    exact and_comm
  refine ⟨lists', m', hrun, ⟨hthreaded, ?_, hedit.size_eq ▸ h.memory_lt⟩, ?_⟩
  · rw [hsize, h.size_eq, hperm.length_eq, List.length_erase_of_mem hmem]
  · obtain ⟨pre, post, hblocks⟩ := List.append_of_mem hbp
    obtain ⟨-, hlast, hfirst, -⟩ := ring_middle_iff.1 (hblocks ▸ h.ring bucket)
    obtain ⟨hnext, hprev⟩ := h.neighbours hblocks
    have happly := remove_apply (σ := (lists, m)) hfirst.1 hlast.2 (h.room bucket bp hbp)
      (h.room_of_node hnext.1) (h.room_of_node hprev.1) h.memory_lt hpos
    rw [hrun] at happly
    simp only [EStateM.Result.ok.injEq, true_and] at happly
    have haround : ∀ x, x = lastNode bucket pre ∨ x = .block bp ∨ x = firstNode bucket post →
        Around rings bp x := fun x hx => ⟨bucket, pre, post, hblocks, hx⟩
    have hbefore := haround _ (Or.inl rfl)
    have hself := haround _ (Or.inr (Or.inl rfl))
    have hafter := haround _ (Or.inr (Or.inr rfl))
    rw [happly]
    exact (rewired_of_set hbefore (Or.inl rfl)).trans <|
      (rewired_of_set hafter (Or.inr rfl)).trans <|
      (rewired_withSize _ _ _).trans <| rewired_withCleared hself _

/-- An allowed change succeeds, does to the plain lists what it should, and touches
nothing but what is around its block. -/
theorem Stored.step (h : Stored lists m rings) {change : Change}
    (hallowed : change.Allowed rings m) :
    ∃ lists' m', change.run (lists, m) = .ok () (lists', m') ∧
      Stored lists' m' (change.plain rings) ∧
      change.Confined rings (lists, m) (lists', m') := by
  cases change with
  | insert bp bucket => exact h.insert hallowed
  | remove bp => exact h.remove hallowed
  | write off bytes =>
    have hedit := m.edited_setSlice off bytes
    have hthreaded := h.edited h.memory_lt hedit fun i hi => by
      have hout := hallowed i hi
      omega
    exact ⟨lists, _, rfl, ⟨hthreaded, h.size_eq, hedit.size_eq ▸ h.memory_lt⟩, rfl, hedit⟩

/-! ## Any number of changes -/

theorem stored_empty (hm : m.size < wordCount) : Stored empty m fun _ => [] :=
  ⟨⟨ring_empty m, fun _ => List.nodup_nil, fun _ _ _ _ hp => (List.not_mem_nil hp).elim,
    fun _ _ hp => (List.not_mem_nil hp).elim, fun _ _ hp => (List.not_mem_nil hp).elim,
    fun _ _ _ hp => (List.not_mem_nil hp).elim⟩, rfl, hm⟩

/-- The lists store the plain lists after any number of changes. -/
theorem Evolved.stored (h : Evolved m₀ lists m rings) (hm : m₀.size < wordCount) :
    Stored lists m rings := by
  induction h with
  | empty => exact stored_empty hm
  | step _ hallowed hrun ih =>
    obtain ⟨lists', m', hrun', hstored, -⟩ := ih.step hallowed
    rw [hrun] at hrun'
    simp only [EStateM.Result.ok.injEq, Prod.mk.injEq, true_and] at hrun'
    obtain ⟨rfl, rfl⟩ := hrun'
    exact hstored

/-- After any number of changes the lists read as the plain lists do, from either
end, and a search is one through the plain lists. The next change succeeds, and
touches links around its block only. -/
theorem Evolved.plain_lists (h : Evolved m₀ lists m rings) (hm : m₀.size < wordCount) :
    Reads lists m rings ∧ ∀ change : Change, change.Allowed rings m →
      ∃ lists' m', change.run (lists, m) = .ok () (lists', m') ∧
        Reads lists' m' (change.plain rings) ∧
        change.Confined rings (lists, m) (lists', m') := by
  have hstored := h.stored hm
  refine ⟨hstored.reads, fun change hallowed => ?_⟩
  obtain ⟨lists', m', hrun, hstored', hconfined⟩ := hstored.step hallowed
  exact ⟨lists', m', hrun, hstored'.reads, hconfined⟩

/-- Two blocks of one bucket in a memory of 64 bytes, the second in front of the
first, and the removal of the first. -/
theorem Evolved.plain_lists_of_inserted :
    ∃ lists m rings, (Memory.zeros 64).size < wordCount ∧ Evolved (.zeros 64) lists m rings ∧
      rings .last = [32, 16] ∧ Reads lists m rings ∧
      (Change.remove 16).Allowed rings m ∧
      ∃ lists' m', FreeLists.remove 16 (lists, m) = .ok () (lists', m') ∧
        Reads lists' m' (dropped rings [16]) ∧
        (Change.remove 16).Confined rings (lists, m) (lists', m') := by
  have hm : (Memory.zeros 64).size < wordCount := by decide
  have hfirst : (Change.insert 16 .last).Allowed (fun _ => []) (.zeros 64) := by
    refine ⟨by simp [Link.Storable], by simp [Link.Room, pairSize], fun b p hp => ?_⟩
    exact (List.not_mem_nil hp).elim
  obtain ⟨lists₁, m₁, hrun₁, -, hconfined₁⟩ :=
    (Evolved.plain_lists .empty hm).2 (.insert 16 .last) hfirst
  have hevolved₁ : Evolved (.zeros 64) lists₁ m₁ (pushed (fun _ => []) .last 16) :=
    .step .empty hfirst hrun₁
  have hsecond : (Change.insert 32 .last).Allowed (pushed (fun _ => []) .last 16) m₁ := by
    refine ⟨by simp [Link.Storable], ?_, fun b p hp => ?_⟩
    · have hsize : m₁.size = (Memory.zeros 64).size := hconfined₁.edited.size_eq
      simp [Link.Room, hsize, pairSize]
    · rcases mem_pushed.1 hp with ⟨-, rfl⟩ | hp
      · simp [Link.Apart, pairSize]
      · exact (List.not_mem_nil hp).elim
  obtain ⟨lists₂, m₂, hrun₂, -, -⟩ := (Evolved.plain_lists hevolved₁ hm).2 (.insert 32 .last) hsecond
  have hevolved₂ : Evolved (.zeros 64) lists₂ m₂ (pushed (pushed (fun _ => []) .last 16) .last 32) :=
    .step hevolved₁ hsecond hrun₂
  have hthird : (Change.remove 16).Allowed (pushed (pushed (fun _ => []) .last 16) .last 32) m₂ :=
    ⟨.last, by simp⟩
  obtain ⟨hreads, hnext⟩ := Evolved.plain_lists hevolved₂ hm
  exact ⟨lists₂, m₂, _, hm, hevolved₂, by simp, hreads, hthird, hnext _ hthird⟩

end SegregatedFit.FreeLists
