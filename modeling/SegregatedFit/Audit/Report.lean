-- SUMMARY: What an audit of a heap found, as data and as text.
import SegregatedFit.Audit.Violation
import SegregatedFit.Block.Tag

/-!
# Reports

A report lists the blocks of a heap in address order and everything that is
wrong with it. A heap is consistent if nothing is.
-/
namespace SegregatedFit

open Text (hex)

/-- A block as its tags describe it. -/
structure BlockEntry where
  offset : Nat
  header : Tag
  footer : Tag
  deriving DecidableEq, Repr, Inhabited

/-- What an audit found. -/
structure Report where
  /-- The blocks between prologue and epilogue, in address order. -/
  blocks : List BlockEntry := []
  allocatedBlocks : Nat := 0
  freeBlocks : Nat := 0
  freeBytes : Nat := 0
  heapSize : Nat := 0
  /-- The payload offset of the epilogue, if the walk came to it. -/
  endOfHeap : Option Nat := none
  violations : List Violation := []
  deriving DecidableEq, Repr, Inhabited

/-- A tag as size and letter. -/
def tagText (tag : Tag) : String :=
  s!"[{tag.size}:" ++ (if tag.allocated then "a]" else "f]")

/-- The line of a block. -/
def BlockEntry.text (info : BlockEntry) : String :=
  s!"{hex info.offset}: header: " ++ tagText info.header ++ " footer: " ++ tagText info.footer

namespace Report

/-- Whether nothing is wrong. -/
def isConsistent (report : Report) : Bool := report.violations.isEmpty

/-- The lines of a report: its size, its blocks, its end, its violations. -/
def lines (report : Report) : List String :=
  [s!"heap ({report.heapSize} bytes):"]
    ++ report.blocks.map BlockEntry.text
    ++ report.endOfHeap.toList.map (fun offset => s!"{hex offset}: end of heap")
    ++ report.violations.map (fun violation => s!"error: {violation.message}")

/-- The text of a report; each line ends in a line feed. -/
def text (report : Report) : String := String.join (report.lines.map (· ++ "\n"))

end Report
end SegregatedFit
