-- SUMMARY: Log records, their numbers, and the log that keeps records from a level on.
import SegregatedFit.Log.Event
import SegregatedFit.Word

/-!
# The log

A log keeps the events that are severe enough, each with the state of the heap
at that moment and a number. Only kept events are numbered, from one on, and
draining the log does not restart the numbers.
-/
namespace SegregatedFit

/-- The figures of the heap that go into every record. -/
structure Snapshot where
  heapSize : Nat
  freeBytes : Nat
  allocatedBlocks : Nat
  deriving DecidableEq, Repr, Inhabited

/-- An event that was kept. -/
structure Record where
  id : Nat
  event : Event
  snapshot : Snapshot
  deriving DecidableEq, Repr, Inhabited

/-- The name of a record: its operation and its number in sixteen digits. -/
def Record.traceId (record : Record) : String :=
  "segalloc::heap::" ++ record.event.symbol ++ "::" ++ Text.hexPadded 16 record.id

/-- The records kept so far. -/
structure Log where
  /-- The least severe level that is kept; with `none`, nothing is. -/
  threshold : Option Level
  /-- The number of the next record. -/
  nextId : Nat := 1
  records : Array Record := #[]
  deriving DecidableEq, Repr, Inhabited

namespace Log

/-- Whether events of the given level are kept. -/
def keeps (log : Log) (level : Level) : Bool :=
  match log.threshold with
  | some threshold => threshold ≤ level
  | none => false

/-- Adds a record of the event, if it is severe enough. Numbers wrap around. -/
def record (log : Log) (event : Event) (snapshot : Snapshot) : Log :=
  if log.keeps event.level then
    { log with
      nextId := Word.wrapAdd log.nextId 1
      records := log.records.push ⟨log.nextId, event, snapshot⟩ }
  else log

/-- The log without its records. -/
def drained (log : Log) : Log := { log with records := #[] }

theorem record_of_not_keeps {log : Log} {event : Event} (h : log.keeps event.level = false)
    (snapshot : Snapshot) : log.record event snapshot = log := by
  simp [record, h]

@[simp] theorem threshold_record (log : Log) (event : Event) (snapshot : Snapshot) :
    (log.record event snapshot).threshold = log.threshold := by
  unfold record
  split <;> rfl

end Log
end SegregatedFit
