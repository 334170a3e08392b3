-- SUMMARY: What a search through indexed free lists answers.
import Mathlib.Data.List.Perm.Subperm
import SegregatedFit.FreeLists.Search
import SegregatedFit.Proofs.FreeLists.Index

/-!
# First fit

A search through free lists whose blocks have headers ends without a failure. Its
answer is the first fitting block of the first bucket that has one
(`Threaded.find?_eq`). In a row it is a free block (`Indexed.exists_of_find?`).
-/
namespace SegregatedFit

open Block

namespace FreeLists

variable {lists : FreeLists} {m : Memory} {rings : Bucket → List Nat}
variable {prologue size : Nat} {row spans : List Span}

/-- The size in the header of the block at `bp`; zero where there is none. -/
def sizeAt (m : Memory) (bp : Nat) : Nat :=
  match header m bp with
  | .ok tag => tag.size
  | .error _ => 0

/-- The header of a block has its size. -/
theorem sizeAt_of_mem (hrow : Row m prologue row) {t : Span} (ht : t ∈ row) :
    sizeAt m t.offset = t.size := by
  rw [sizeAt, (hrow.tagged t ht).1]
  rfl

/-- The first of the blocks whose size is at least `size`. -/
def firstOf (m : Memory) (size : Nat) (blocks : List Nat) : Option Nat :=
  blocks.find? fun bp => size ≤ sizeAt m bp

/-- From a node on, the search finds what the list of the blocks from there on says. -/
theorem firstFit_eq {bucket : Bucket} {blocks : List Nat} {steps : Nat}
    (hchain : Chain lists m (blocks.map .block ++ [.sentinel bucket]))
    (hheader : ∀ bp ∈ blocks, ∃ tag, header m bp = .ok tag) (hsteps : blocks.length ≤ steps) :
    firstFit m size steps (firstNode bucket blocks) = .ok (firstOf m size blocks) := by
  induction blocks generalizing steps with
  | nil =>
    cases steps <;> rfl
  | cons bp rest ih =>
    obtain ⟨steps, rfl⟩ : ∃ k, steps = k + 1 := ⟨steps - 1, by simp at hsteps; omega⟩
    obtain ⟨tag, htag⟩ := hheader bp List.mem_cons_self
    have hsize : sizeAt m bp = tag.size := by simp [sizeAt, htag]
    have hstep : firstFit m size (steps + 1) (.block bp) =
        if size ≤ tag.size then .ok (some bp) else
          match readLink m bp with
          | .ok next => firstFit m size steps next
          | .error cause => .error (.refused cause) := by
      simp only [firstFit, htag, liftM, monadLift, MonadLift.monadLift, Except.mapError, bind,
        Except.bind]
      by_cases hfit : size ≤ tag.size
      · simp only [hfit, if_true]
        rfl
      · simp only [hfit, if_false]
        cases readLink m bp <;> rfl
    have hfirst : firstOf m size (bp :: rest) =
        if size ≤ tag.size then some bp else firstOf m size rest := by
      by_cases hfit : size ≤ tag.size <;> simp [firstOf, hsize, hfit]
    rw [show firstNode bucket (bp :: rest) = .block bp from rfl, hstep, hfirst]
    by_cases hfit : size ≤ tag.size
    · simp only [hfit, if_true]
    · obtain ⟨next, hnext⟩ := exists_eq_firstNode bucket rest
      simp only [List.map_cons, List.cons_append, hnext, chain_cons_cons] at hchain
      have hlink : readLink m bp = .ok (firstNode bucket rest) := hchain.1.1
      simp only [hfit, if_false, hlink]
      exact ih (hnext ▸ hchain.2) (fun b hb => hheader b (List.mem_cons_of_mem bp hb))
        (Nat.le_of_succ_le_succ hsteps)

/-- Looking for the first answer, where each place to look at gives one. -/
theorem findSomeM?_eq_ok {α β ε : Type} {f : α → Except ε (Option β)} {g : α → Option β}
    {l : List α} (h : ∀ a ∈ l, f a = .ok (g a)) : l.findSomeM? f = .ok (l.findSome? g) := by
  induction l with
  | nil => rfl
  | cons a l ih =>
    have hl := ih fun b hb => h b (List.mem_cons_of_mem a hb)
    simp only [List.findSomeM?, h a List.mem_cons_self, List.findSome?_cons]
    cases g a with
    | none => exact hl
    | some b => rfl

/-- A ring has no more blocks than the memory has bytes. -/
theorem Threaded.length_le (h : Threaded lists m rings) (bucket : Bucket) :
    (rings bucket).length ≤ m.size := by
  have hrange : rings bucket ⊆ List.range m.size := by
    intro bp hbp
    have hroom := h.room bucket bp hbp
    simp only [Link.Room, pairSize, List.mem_range] at *
    omega
  simpa using (List.subperm_of_subset (h.nodup bucket) hrange).length_le

/-- A search through threaded lists ends, and finds the first fitting block of the
first bucket that has one. -/
theorem Threaded.find?_eq (h : Threaded lists m rings)
    (hheader : ∀ b, ∀ bp ∈ rings b, ∃ tag, header m bp = .ok tag) (size : Nat)
    (policy : SearchPolicy) :
    lists.find? m size policy =
      .ok ((Bucket.upFrom (Bucket.searchFrom size policy)).findSome? fun bucket =>
        firstOf m size (rings bucket)) := by
  refine findSomeM?_eq_ok fun bucket _ => ?_
  have hring := h.ring bucket
  obtain ⟨rest, hrest⟩ := exists_eq_firstNode bucket (rings bucket)
  have hchain : Chain lists m ((rings bucket).map .block ++ [.sentinel bucket]) := by
    rw [hrest]
    rw [Ring, List.cons_append, hrest] at hring
    exact hring.2
  rw [hring.first_eq]
  exact firstFit_eq hchain (hheader bucket) (Nat.le_succ_of_le (h.length_le bucket))

/-- The same for the free lists of a row. -/
theorem Indexed.find?_eq (h : Indexed lists m spans rings) (hrow : Row m prologue row)
    (hsub : ∀ t ∈ spans, t ∈ row) (size : Nat) (policy : SearchPolicy) :
    lists.find? m size policy =
      .ok ((Bucket.upFrom (Bucket.searchFrom size policy)).findSome? fun bucket =>
        firstOf m size (rings bucket)) := by
  refine (h.threaded hrow hsub).find?_eq (fun bucket bp hbp => ?_) size policy
  obtain ⟨t, ht, rfl, -⟩ := (h.mem_iff bucket bp).1 hbp
  exact ⟨_, (hrow.tagged t (hsub t ht)).1⟩

/-- What a search finds is a free block that is large enough. -/
theorem Indexed.exists_of_find? (h : Indexed lists m spans rings) (hrow : Row m prologue row)
    (hsub : ∀ t ∈ spans, t ∈ row) {policy : SearchPolicy} {bp : Nat}
    (hfind : lists.find? m size policy = .ok (some bp)) :
    ∃ s ∈ spans, s.offset = bp ∧ s.isFree = true ∧ size ≤ s.size := by
  rw [h.find?_eq hrow hsub, Except.ok.injEq] at hfind
  obtain ⟨bucket, -, hfirst⟩ := List.exists_of_findSome?_eq_some hfind
  obtain ⟨s, hs, rfl, hfree, -⟩ := (h.mem_iff bucket bp).1 (List.mem_of_find?_eq_some hfirst)
  have hfit : size ≤ sizeAt m s.offset := by simpa using List.find?_some hfirst
  exact ⟨s, hs, rfl, hfree, sizeAt_of_mem hrow (hsub s hs) ▸ hfit⟩

end FreeLists
end SegregatedFit
