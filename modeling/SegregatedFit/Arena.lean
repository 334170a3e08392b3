-- SUMMARY: Regions of memory that grow at their end, and the arena: a region with a limit.
import SegregatedFit.Memory

/-!
# Arenas

A heap owns a region of memory that only grows: an offset stays valid until the
region is reset. `Region` is what the heap needs of it, `Arena` the region with
a fixed limit. New bytes are zero, and growth that would pass the limit is
refused and changes nothing (`grow_eq_refused_iff`).
-/
namespace SegregatedFit

/-- A row of bytes that grows at its end. -/
class Region (R : Type) where
  /-- The number of bytes that the region reports. -/
  size : R → Nat
  /-- The bytes that there are. -/
  memory : R → Memory
  /-- Adds zero bytes and returns the offset of the first of them. -/
  grow : Nat → Action ArenaError R Nat
  /-- Drops all bytes. -/
  reset : R → R
  /-- Changes the bytes and passes on what the change answers. -/
  update : {β : Type} → R → (Memory → β × Memory) → β × R

/-- The number of bytes that an arena may hold if nothing else is said: 20 MiB. -/
def defaultArenaLimit : Nat := 20 * 1024 * 1024

/-- A region of at most `limit` bytes. -/
structure Arena where
  memory : Memory := .empty
  limit : Nat := defaultArenaLimit
  /-- How often the region grew since it was last empty. -/
  growCalls : Nat := 0
  deriving Inhabited

namespace Arena

/-- The number of bytes in use. -/
def size (a : Arena) : Nat := a.memory.size

/-- Adds `delta` zero bytes and returns the old size. -/
def grow (delta : Nat) : Action ArenaError Arena Nat := fun a =>
  let used := a.memory.size
  if a.limit < used + delta ∨ wordCount ≤ used + delta then
    .error (.refused (.exhausted delta used a.limit)) a
  else if wordCount ≤ 2 * (used + delta) then
    .error (.trapped .capacity) a
  else if wordCount ≤ a.growCalls + 1 then
    .error (.trapped .overflow) a
  else
    let ⟨memory, limit, growCalls⟩ := a
    .ok used ⟨memory.extend delta, limit, growCalls + 1⟩

/-- Drops all bytes and keeps the limit. -/
def reset (a : Arena) : Arena := { a with memory := .empty, growCalls := 0 }

/-- Changes the bytes. -/
def update {β : Type} (a : Arena) (f : Memory → β × Memory) : β × Arena :=
  let ⟨memory, limit, growCalls⟩ := a
  let (answer, memory) := f memory
  (answer, ⟨memory, limit, growCalls⟩)

instance : Region Arena := ⟨size, memory, grow, reset, update⟩

@[simp] theorem region_size (a : Arena) : Region.size a = a.memory.size := rfl

@[simp] theorem region_memory (a : Arena) : Region.memory a = a.memory := rfl

@[simp] theorem region_grow (delta : Nat) : Region.grow delta = grow delta := rfl

@[simp] theorem region_reset (a : Arena) : Region.reset a = a.reset := rfl

@[simp] theorem region_update {β : Type} (a : Arena) (f : Memory → β × Memory) :
    Region.update a f = ((f a.memory).1, { a with memory := (f a.memory).2 }) := rfl

/-- Growth is refused exactly when the new size passes the limit or the words. -/
theorem grow_eq_refused_iff {a : Arena} {delta : Nat} {cause : ArenaError} {a' : Arena} :
    grow delta a = .error (.refused cause) a' ↔
      (a.limit < a.size + delta ∨ wordCount ≤ a.size + delta) ∧
        cause = .exhausted delta a.size a.limit ∧ a' = a := by
  simp only [grow, size]
  split
  · rename_i h
    simp [h, eq_comm]
  · rename_i h
    simp only [h, false_and, iff_false]
    split
    · simp
    · split <;> simp

end Arena
end SegregatedFit
