-- SUMMARY: The walk over the blocks of a memory in address order, and what it finds wrong.
import SegregatedFit.Audit.Report
import SegregatedFit.Block.Layout

/-!
# Walking the blocks

Every block leads to the next one through its header. The walk lists the blocks
up to the epilogue, or up to a header that leads out of the memory, and notes
what is wrong with each. Each step goes forward in the memory, which bounds the
walk. Main statement: `bounds_of_mem_walk`, every listed block lies between the
start of the walk and the end of the memory.
-/
namespace SegregatedFit.Audit

/-- What a walk over blocks found. -/
structure Walk where
  blocks : List BlockEntry := []
  /-- The payload offset of the epilogue, if the walk came to it. -/
  endOfHeap : Option Nat := none
  violations : List Violation := []
  deriving DecidableEq, Repr, Inhabited

/-- What is wrong with the place and the size of a block. -/
def shapeFaults (bp : Nat) (header : Tag) : List Violation :=
  (if bp % pairSize ≠ 0 then [.misaligned bp] else [])
    ++ (if header.size < minBlock then [.undersized bp header.size] else [])

/-- What is wrong with the tags of a block, the previous one being free or not. -/
def tagFaults (bp : Nat) (header footer : Tag) (afterFree : Bool) : List Violation :=
  (if header ≠ footer then [.tagMismatch bp header.encode footer.encode] else [])
    ++ (if !header.allocated && afterFree then [.adjacentFree bp] else [])

/-- What is wrong with the epilogue: it is allocated and ends with the memory. -/
def epilogueFaults (m : Memory) (bp : Nat) (header : Tag) : List Violation :=
  if header.allocated ∧ bp = m.size then [] else [.badEpilogue bp]

/-- The blocks from `bp` on; `afterFree` says that the one before is free. -/
def walk (m : Memory) (bp : Nat) (afterFree : Bool) : Walk :=
  match Block.header m bp with
  | .error _ => { violations := [.outOfBounds bp] }
  | .ok header =>
    if _hsize : header.size = 0 then
      { endOfHeap := some bp, violations := epilogueFaults m bp header }
    else
      match Block.readTag m (Block.footerOffset bp header.size) with
      | .error _ => { violations := shapeFaults bp header ++ [.outOfBounds bp] }
      | .ok footer =>
        if _hend : bp + header.size ≤ m.size ∧ bp + header.size < wordCount then
          let rest := walk m (bp + header.size) !header.allocated
          { blocks := ⟨bp, header, footer⟩ :: rest.blocks
            endOfHeap := rest.endOfHeap
            violations :=
              shapeFaults bp header ++ tagFaults bp header footer afterFree ++ rest.violations }
        else
          { violations := shapeFaults bp header ++ [.outOfBounds bp] }
termination_by m.size - bp

/-- Every listed block begins at or after the start of the walk and ends inside
the memory. -/
theorem bounds_of_mem_walk {m : Memory} {bp : Nat} {afterFree : Bool} {info : BlockEntry}
    (h : info ∈ (walk m bp afterFree).blocks) :
    bp ≤ info.offset ∧ 0 < info.header.size ∧ info.offset + info.header.size ≤ m.size := by
  fun_induction walk m bp afterFree with
  | case1 => simp at h
  | case2 => simp at h
  | case3 => simp at h
  | case4 bp afterFree header _ hsize footer _ hend rest ih =>
    rcases List.mem_cons.1 h with rfl | h
    · exact ⟨Nat.le_refl _, Nat.pos_of_ne_zero hsize, hend.1⟩
    · have := ih h
      omega
  | case5 => simp at h

end SegregatedFit.Audit
