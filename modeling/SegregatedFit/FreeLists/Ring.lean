-- SUMMARY: The free lists as plain lists of offsets.
import SegregatedFit.FreeLists.Basic

/-!
# Rings

The plain view of a free list is the list of its blocks in order. `Ring` says
that a bucket leads through exactly these blocks, in both directions, and back
to its sentinel. Main statements: a chain of links may be cut at any node
(`chain_append`), and a bucket has at most one view (`Ring.unique`).
-/
namespace SegregatedFit.FreeLists

/-- `y` comes after `x`, and `x` before `y`. -/
def Linked (lists : FreeLists) (m : Memory) (x y : Link) : Prop :=
  lists.after m x = .ok y ∧ lists.before m y = .ok x

/-- Each node of the list is linked to the next one. -/
def Chain (lists : FreeLists) (m : Memory) : List Link → Prop
  | x :: y :: rest => Linked lists m x y ∧ Chain lists m (y :: rest)
  | _ => True

/-- The bucket holds exactly these blocks, in this order. -/
def Ring (lists : FreeLists) (m : Memory) (bucket : Bucket) (blocks : List Nat) : Prop :=
  Chain lists m (.sentinel bucket :: blocks.map .block ++ [.sentinel bucket])

variable {lists : FreeLists} {m : Memory}

@[simp] theorem chain_nil : Chain lists m [] := trivial

@[simp] theorem chain_singleton (x : Link) : Chain lists m [x] := trivial

@[simp] theorem chain_cons_cons {x y : Link} {rest : List Link} :
    Chain lists m (x :: y :: rest) ↔ Linked lists m x y ∧ Chain lists m (y :: rest) := Iff.rfl

/-- A chain may be cut at any of its nodes, which then belongs to both parts. -/
theorem chain_append {front : List Link} {x : Link} {rest : List Link} :
    Chain lists m (front ++ x :: rest) ↔
      Chain lists m (front ++ [x]) ∧ Chain lists m (x :: rest) := by
  induction front with
  | nil => simp
  | cons a front ih =>
    cases front with
    | nil => simp
    | cons b front =>
      simp only [List.cons_append, chain_cons_cons] at ih ⊢
      rw [ih, and_assoc]

theorem Linked.after_unique {x y z : Link} (hy : Linked lists m x y) (hz : Linked lists m x z) :
    y = z := by
  have h := hy.1.symm.trans hz.1
  exact Except.ok.inj h

/-- The bucket of an empty table holds nothing. -/
theorem ring_empty (m : Memory) (bucket : Bucket) : Ring empty m bucket [] := by
  simp [Ring, Linked, after, before, empty]

/-- From one node on there is only one way to the sentinel. -/
theorem Chain.unique {bucket : Bucket} {x : Link} {blocks blocks' : List Nat}
    (h : Chain lists m (x :: blocks.map .block ++ [.sentinel bucket]))
    (h' : Chain lists m (x :: blocks'.map .block ++ [.sentinel bucket])) : blocks = blocks' := by
  induction blocks generalizing x blocks' with
  | nil =>
    cases blocks' with
    | nil => rfl
    | cons b blocks' =>
      simp only [List.map_nil, List.map_cons, List.cons_append, List.nil_append,
        chain_cons_cons] at h h'
      cases h.1.after_unique h'.1
  | cons a blocks ih =>
    cases blocks' with
    | nil =>
      simp only [List.map_nil, List.map_cons, List.cons_append, List.nil_append,
        chain_cons_cons] at h h'
      cases h.1.after_unique h'.1
    | cons b blocks' =>
      simp only [List.map_cons, List.cons_append, chain_cons_cons] at h h'
      cases h.1.after_unique h'.1
      rw [ih h.2 h'.2]

/-- A bucket holds at most one list. -/
theorem Ring.unique {bucket : Bucket} {blocks blocks' : List Nat}
    (h : Ring lists m bucket blocks) (h' : Ring lists m bucket blocks') : blocks = blocks' :=
  Chain.unique h h'

/-- The first node of a bucket is the head of its list, or the sentinel. -/
theorem Ring.first_eq {bucket : Bucket} {blocks : List Nat} (h : Ring lists m bucket blocks) :
    lists.first bucket = (blocks.head?.map Link.block).getD (.sentinel bucket) := by
  cases blocks with
  | nil => exact Except.ok.inj h.1.1
  | cons b blocks => exact Except.ok.inj h.1.1

/-- A bucket is empty exactly if its list is. -/
theorem Ring.isEmptyAt_iff {bucket : Bucket} {blocks : List Nat}
    (h : Ring lists m bucket blocks) : lists.isEmptyAt bucket = true ↔ blocks = [] := by
  rw [isEmptyAt, h.first_eq, beq_iff_eq]
  cases blocks <;> simp

end SegregatedFit.FreeLists
