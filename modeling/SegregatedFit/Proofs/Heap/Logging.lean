-- SUMMARY: What a heap logs has no part in what it does: heaps with other logs do the same.
import SegregatedFit.Proofs.Agreement
import SegregatedFit.Proofs.Client.Session
import SegregatedFit.Proofs.Heap.Readings

/-!
# Logging

Two heaps that differ in their log and its level only are `Twins`. Every operation
does the same to both, whatever it is given: nothing is decided by the log, and
taking the figures for a record never fails, since a heap begins inside its memory.
The relation between the two logs is a parameter, so that a proof about logs only
has to say what one event does to them (`Log.Apart`). Main statement: `agrees_run`.
-/
namespace SegregatedFit

/-- A relation between logs that holds on when both are given one event. -/
def Log.Apart (P : Log → Log → Prop) : Prop :=
  ∀ log log' event snapshot, P log log' → P (log.record event snapshot) (log'.record event snapshot)

namespace Heap

/-- The heap with another level and another log. -/
def relogged (h : Heap Arena) (level : Option Level) (log : Log) : Heap Arena :=
  { h with config := { h.config with logLevel := level }, log }

/-- The second heap is the first one but for its level and its log, which is related
to the first by `P`. There are at least `low` bytes, and a heap begins inside them. -/
def Twins (P : Log → Log → Prop) (low : Nat) (h g : Heap Arena) : Prop :=
  ∃ level log, g = h.relogged level log ∧ P h.log log ∧ low ≤ h.region.memory.size ∧
    (h.isInitialized = true → h.base ≤ h.region.memory.size)

section Relogged

variable (h : Heap Arena) (level : Option Level) (log : Log)

@[simp] theorem relogged_region : (h.relogged level log).region = h.region := rfl

@[simp] theorem relogged_lists : (h.relogged level log).lists = h.lists := rfl

end Relogged

variable {α : Type} {P : Log → Log → Prop} {low low' : Nat} {h g : Heap Arena}

theorem Twins.mono (hhg : Twins P low h g) (hle : low' ≤ low) : Twins P low' h g := by
  obtain ⟨level, log, hg, hlog, hlow, hbase⟩ := hhg
  exact ⟨level, log, hg, hlog, Nat.le_trans hle hlow, hbase⟩

open SegregatedFit.Action (Agrees)

/-! ## Effects -/

theorem agrees_read (f : Memory → Except HeapError α) :
    Agrees (Twins P low) (read f) (read f) := by
  rintro h _ ⟨level, log, rfl, hrest⟩
  rw [read_apply, read_apply, relogged_region]
  cases f h.region.memory with
  | ok a => exact .ok ⟨level, log, rfl, hrest⟩
  | error cause => exact .error ⟨level, log, rfl, hrest⟩

theorem agrees_edit {x : FreeLists.Edit α} (hx : x.Keeps FreeLists.length) :
    Agrees (Twins P low) (edit x) (edit x) := by
  rintro h _ ⟨level, log, rfl, hlog, hlow, hbase⟩
  -- the memory is as long as before, so that the heap still begins inside it
  have htwins : ∀ {lists : FreeLists} {m : Memory},
      FreeLists.length (lists, m) = FreeLists.length (h.lists, h.region.memory) →
        Twins P low (h.withLists lists m) ((h.relogged level log).withLists lists m) := by
    intro lists m hlength
    have hsize : m.size = h.region.memory.size := hlength
    refine ⟨level, log, rfl, hlog, ?_, fun hinit => ?_⟩
    · change low ≤ m.size
      rwa [hsize]
    · change h.base ≤ m.size
      rw [hsize]
      exact hbase hinit
  rw [edit_apply, edit_apply, relogged_region, relogged_lists]
  cases hrun : x (h.lists, h.region.memory) with
  | ok a p => exact .ok (htwins (hx.of_ok hrun))
  | error failure p => exact .error (htwins (hx.of_error hrun))

theorem agrees_write {x : Action HeapError Memory α} (hx : x.Keeps Memory.size) :
    Agrees (Twins P low) (write x) (write x) :=
  agrees_edit hx.onSecond

theorem agrees_count (f : Counters → Except Trap Counters) :
    Agrees (Twins P low) (count f) (count f) := by
  rintro h _ ⟨level, log, rfl, hrest⟩
  cases hf : f h.counters with
  | ok counters =>
    rw [count_apply hf, count_apply (h := h.relogged level log) hf]
    exact .ok ⟨level, log, rfl, hrest⟩
  | error trap =>
    rw [count_trapped hf, count_trapped (h := h.relogged level log) hf]
    exact .error ⟨level, log, rfl, hrest⟩

/-- Both logs are given the event, with the same figures. -/
theorem agrees_logEvent (hP : Log.Apart P) (event : Event) :
    Agrees (Twins P low) (logEvent event) (logEvent event) := by
  rintro h _ ⟨level, log, rfl, hlog, hlow, hbase⟩
  rw [logEvent_apply hbase event, logEvent_apply (h := h.relogged level log) hbase event]
  exact .ok ⟨level, log.record event h.figures, rfl, hP _ _ _ _ hlog, hlow, hbase⟩

/-- A refusal that is logged. -/
theorem agrees_refuse (hP : Log.Apart P) (event : Event) (cause : HeapError) :
    Agrees (Twins P low) (logEvent event >>= fun _ => (Action.refuse cause : HeapM Arena α))
      (logEvent event >>= fun _ => (Action.refuse cause : HeapM Arena α)) :=
  (agrees_logEvent hP event).bind fun _ => .refuse cause

/-- Both regions grow alike. Afterwards the bytes that were added are there. -/
theorem Twins.growRegion (hhg : Twins P low h g) (delta : Nat) :
    Agree (fun answer k l => Twins P low k l ∧
        ∀ start, answer = .ok start → Twins P (start + delta) k l)
      (Twins P low) (growRegion delta h) (growRegion delta g) := by
  obtain ⟨level, log, rfl, hlog, hlow, hbase⟩ := hhg
  rw [growRegion_apply, growRegion_apply, relogged_region]
  rcases h.region.grow_cases delta with ⟨cause, hgrow, -⟩ | ⟨trap, hgrow, -⟩ | ⟨hgrow, -⟩
  · rw [hgrow]
    exact .ok ⟨⟨level, log, rfl, hlog, hlow, hbase⟩, by rintro _ ⟨⟩⟩
  · rw [hgrow]
    exact .error ⟨level, log, rfl, hlog, hlow, hbase⟩
  · rw [hgrow]
    have hsize : (h.region.memory.extend delta).size = h.region.memory.size + delta :=
      Memory.size_extend ..
    have hinside : h.isInitialized = true → h.base ≤ (h.region.memory.extend delta).size := by
      intro hinit
      have hle := hbase hinit
      omega
    refine .ok ⟨⟨level, log, rfl, hlog, ?_, hinside⟩, ?_⟩
    · change low ≤ (h.region.memory.extend delta).size
      omega
    · rintro _ ⟨⟩
      exact ⟨level, log, rfl, hlog, hsize.ge, hinside⟩

theorem agrees_growRegion (delta : Nat) :
    Agrees (Twins P low) (growRegion delta) (growRegion delta) :=
  fun _ _ hhg => (hhg.growRegion delta).mono (fun _ _ _ h => h.1) fun _ _ h => h

/-- What follows depends on something else than the log. -/
theorem agrees_get_bind {f : Heap Arena → HeapM Arena α}
    (hsame : ∀ h level log, f (h.relogged level log) = f h)
    (hf : ∀ h, Agrees (Twins P low) (f h) (f h)) :
    Agrees (Twins P low) (get >>= f) (get >>= f) := by
  refine .get_bind ?_
  rintro h _ ⟨level, log, rfl, -⟩
  rw [hsame]
  exact hf h

/-! ## Free space -/

variable (hP : Log.Apart P)

theorem agrees_previousBlock (bp : Nat) :
    Agrees (Twins P low) (previousBlock bp) (previousBlock bp) :=
  (agrees_read _).bind fun _ => (agrees_read _).bind fun _ => .pure _

theorem agrees_absorbNeighbours (bp size : Nat) :
    Agrees (Twins P low) (absorbNeighbours bp size) (absorbNeighbours bp size) := by
  refine (Agrees.lift_trap _).bind fun below => (agrees_read _).bind fun tag =>
    (agrees_read _).bind fun next => (agrees_read _).bind fun nextTag => ?_
  split
  case h_1 => exact .pure _
  case h_2 =>
    exact (agrees_edit (FreeLists.keeps_remove _)).bind fun _ => (Agrees.lift_trap _).bind
      fun _ => .pure _
  case h_3 =>
    exact (agrees_previousBlock bp).bind fun _ => (agrees_edit (FreeLists.keeps_remove _)).bind
      fun _ => (Agrees.lift_trap _).bind fun _ => .pure _
  case h_4 =>
    exact (agrees_previousBlock bp).bind fun _ => (agrees_edit (FreeLists.keeps_remove _)).bind
      fun _ => (agrees_edit (FreeLists.keeps_remove _)).bind fun _ => (Agrees.lift_trap _).bind
      fun _ => (Agrees.lift_trap _).bind fun _ => .pure _

include hP

theorem agrees_coalesce (bp : Nat) : Agrees (Twins P low) (coalesce bp) (coalesce bp) :=
  (agrees_read _).bind fun tag => (agrees_absorbNeighbours bp tag.size).bind fun _ =>
    (agrees_write (Block.keeps_writeTags _ _)).bind fun _ =>
    (agrees_edit (FreeLists.keeps_insert _ _)).bind fun _ => (agrees_logEvent hP _).bind fun _ =>
    .pure _

theorem agrees_grow (size : Nat) : Agrees (Twins P low) (grow size) (grow size) := by
  refine (agrees_growRegion size).bind ?_
  rintro (cause | bp)
  · exact agrees_refuse hP _ _
  · exact (agrees_write (Block.keeps_writeTags _ _)).bind fun _ => (Agrees.lift_trap _).bind
      fun _ => (agrees_write (Memory.keeps_writeWord _ _)).bind fun _ => (agrees_count _).bind
      fun _ => (agrees_logEvent hP _).bind fun _ => agrees_coalesce hP bp

theorem agrees_extend (words : Nat) : Agrees (Twins P low) (extend words) (extend words) := by
  unfold extend
  split
  · exact .refuse _
  · exact agrees_grow hP _

omit hP in
theorem agrees_split (bp size rest : Nat) :
    Agrees (Twins P low) (split bp size rest) (split bp size rest) :=
  (agrees_write (Block.keeps_writeTags _ _)).bind fun _ => (Agrees.lift_trap _).bind fun _ =>
    (agrees_write (Block.keeps_writeTags _ _)).bind fun _ =>
    agrees_edit (FreeLists.keeps_insert _ _)

theorem agrees_carve (bp size : Nat) : Agrees (Twins P low) (carve bp size) (carve bp size) := by
  refine (agrees_read _).bind fun tag => (agrees_edit (FreeLists.keeps_remove bp)).bind fun _ =>
    (Agrees.lift_trap _).bind fun rest => ?_
  dsimp only
  split
  · refine (agrees_split bp size rest).bind fun _ => (agrees_count _).bind fun _ => ?_
    split
    · exact (agrees_logEvent hP _).bind fun _ => .pure _
    · exact .pure _
  · refine (agrees_write (Block.keeps_writeTags _ _)).bind fun _ => (agrees_count _).bind
      fun _ => ?_
    split
    · exact (agrees_logEvent hP _).bind fun _ => .pure _
    · exact .pure _

/-! ## Allocating, freeing and resizing -/

theorem agrees_findOrGrow (n size : Nat) :
    Agrees (Twins P low) (findOrGrow n size) (findOrGrow n size) := by
  refine agrees_get_bind (fun _ _ _ => rfl) fun h => (Agrees.lift_failure _).bind ?_
  rintro (_ | bp)
  · refine agrees_get_bind (fun _ _ _ => rfl) fun k => ?_
    refine (agrees_extend hP _).attempt.bind ?_
    rintro (cause | bp)
    · exact agrees_refuse hP _ _
    · exact .pure _
  · exact .pure _

theorem agrees_allocate (n : Nat) : Agrees (Twins P low) (allocate n) (allocate n) := by
  refine agrees_get_bind (fun _ _ _ => rfl) fun h => (Agrees.lift _).bind fun _ => ?_
  split
  · exact agrees_refuse hP _ _
  · split
    · exact agrees_refuse hP _ _
    · refine (agrees_findOrGrow hP n _).bind ?_
      rintro ⟨bp, source⟩
      exact (agrees_carve hP bp _).bind fun _ => (agrees_logEvent hP _).bind fun _ => .pure _

theorem agrees_release (ptr size : Nat) :
    Agrees (Twins P low) (release ptr size) (release ptr size) :=
  (agrees_write (Block.keeps_writeTags _ _)).bind fun _ => (agrees_count _).bind fun _ =>
    (agrees_coalesce hP ptr).bind fun _ => agrees_logEvent hP _

theorem agrees_free (ptr : Nat) : Agrees (Twins P low) (free ptr) (free ptr) := by
  unfold free
  split
  · exact agrees_logEvent hP _
  · refine agrees_get_bind (fun _ _ _ => rfl) fun h => ?_
    split
    · exact agrees_refuse hP _ _
    · exact agrees_release hP ptr _

theorem agrees_relocate (ptr current n : Nat) :
    Agrees (Twins P low) (relocate ptr current n) (relocate ptr current n) := by
  refine agrees_get_bind (fun _ _ _ => rfl) fun h => ?_
  split
  · exact .refuse _
  · refine (agrees_allocate hP _).attempt.bind ?_
    rintro (cause | dest)
    · exact agrees_refuse hP _ _
    · exact (agrees_write (Memory.keeps_copy _ _ _)).bind fun _ => (agrees_free hP ptr).bind
        fun _ => (agrees_count _).bind fun _ => (agrees_logEvent hP _).bind fun _ => .pure _

theorem agrees_resize (ptr n : Nat) :
    Agrees (Twins P low) (resize ptr n) (resize ptr n) := by
  unfold resize
  split
  · exact (agrees_allocate hP n).bind fun _ => .pure _
  · split
    · exact (agrees_free hP ptr).bind fun _ => (agrees_logEvent hP _).bind fun _ => .pure _
    · refine agrees_get_bind (fun _ _ _ => rfl) fun h => (Agrees.lift _).bind fun tag => ?_
      split
      · exact .refuse _
      · dsimp only
        split
        · exact (agrees_count _).bind fun _ => (agrees_logEvent hP _).bind fun _ => .pure _
        · exact (agrees_relocate hP ptr _ n).bind fun _ => .pure _

/-! ## Payloads -/

omit hP in
theorem agrees_writePayload (ptr start : Nat) (bytes : List UInt8) :
    Agrees (Twins P low) (writePayload ptr start bytes) (writePayload ptr start bytes) :=
  agrees_get_bind (fun _ _ _ => rfl) fun _ => (Agrees.lift _).bind fun _ =>
    (agrees_write (Memory.keeps_setSlice _ _)).bind fun _ => .pure _

/-! ## Laying out -/

omit hP in
theorem agrees_writeSentinels (base : Nat) :
    Agrees (Twins P low) (writeSentinels base) (writeSentinels base) :=
  (agrees_write (Memory.keeps_writeWord _ _)).bind fun _ => (Agrees.lift_trap _).bind fun _ =>
    (agrees_write (Memory.keeps_writeWord _ _)).bind fun _ => (Agrees.lift_trap _).bind fun _ =>
    (agrees_write (Memory.keeps_writeWord _ _)).bind fun _ => (Agrees.lift_trap _).bind fun _ =>
    agrees_write (Memory.keeps_writeWord _ _)

theorem agrees_firstChunk : Agrees (Twins P low) firstChunk firstChunk := by
  refine agrees_get_bind (fun _ _ _ => rfl) fun h => ?_
  refine (agrees_extend hP _).attempt.bind ?_
  rintro (cause | bp)
  · refine Agrees.bind ?_ fun _ => .refuse _
    rintro k _ ⟨level, log, rfl, hlog, hlow, -⟩
    exact .ok ⟨level, log, rfl, hlog, hlow, by rintro ⟨⟩⟩
  · exact agrees_get_bind (fun _ _ _ => rfl) fun k => agrees_logEvent hP _

/-- The part of laying out for which the region has grown: the heap begins inside. -/
theorem agrees_founding (start pad : Nat) :
    let x : HeapM Arena Unit := do
      let base ← Word.add start pad
      writeSentinels base
      let prologue ← Word.add base pairSize
      modify fun h => { h with base, prologue := some prologue }
      firstChunk
    Agrees (Twins P (start + (pad + sentinelBytes))) x x := by
  refine Agrees.lift_bind fun base hbase => (agrees_writeSentinels base).bind fun _ =>
    (Agrees.lift_trap _).bind fun prologue => Agrees.bind ?_ fun _ => agrees_firstChunk hP
  obtain ⟨-, rfl⟩ := Word.fit_eq_ok_iff.1 hbase
  rintro k _ ⟨level, log, rfl, hlog, hlow, -⟩
  refine .ok ⟨level, log, rfl, hlog, hlow, fun _ => ?_⟩
  change start + pad ≤ k.region.memory.size
  omega

/-- Laying out begins inside the memory, so that the figures can be taken at once. -/
theorem agrees_init : Agrees (Twins P 0) init init := by
  refine Agrees.bind ?_ fun _ => agrees_get_bind (fun _ _ _ => rfl) fun h => ?_
  · rintro h _ ⟨level, log, rfl, hlog, hlow, -⟩
    exact .ok ⟨level, log, rfl, hlog, hlow, by rintro ⟨⟩⟩
  · refine (Agrees.lift_trap _).bind fun aligned => (Agrees.lift_trap _).bind fun pad => ?_
    intro k l hkl
    refine (hkl.growRegion _).bind ?_
    rintro (cause | start) k l ⟨hkl, hgrown⟩
    · exact agrees_refuse hP _ _ k l hkl
    · refine Agree.mono (agrees_founding hP start pad k l (hgrown start rfl)) ?_ ?_
      · exact fun _ _ _ h => h.mono (Nat.zero_le _)
      · exact fun _ _ h => h.mono (Nat.zero_le _)

/-! ## Calls -/

/-- A call does the same to both heaps. -/
theorem agrees_run (call : Call) : Agrees (Twins P 0) call.run call.run := by
  cases call with
  | init => exact (agrees_init hP).bind fun _ => .pure _
  | reset =>
    refine Agrees.bind ?_ fun _ => .pure _
    rintro h _ ⟨level, log, rfl, hlog, -⟩
    exact .ok ⟨level, log, rfl, hlog, Nat.zero_le _, by rintro ⟨⟩⟩
  | allocate n => exact (agrees_allocate hP n).bind fun _ => .pure _
  | free ptr => exact (agrees_free hP ptr).bind fun _ => .pure _
  | resize ptr n => exact agrees_resize hP ptr n
  | store ptr start bytes => exact (agrees_writePayload ptr start bytes).bind fun _ => .pure _

end Heap
end SegregatedFit
