-- SUMMARY: The readings of a heap, and which operations change them.
import SegregatedFit.Heap.Lifecycle
import SegregatedFit.Heap.Payload
import SegregatedFit.Proofs.Heap.Growth

/-!
# Readings

Where a heap begins, how long its memory is, how often it grew and how often
blocks were resized: these are its `readings`. Most operations keep them, however
they end, which follows from their parts (`Action.Keeps`). The others say what they change:
growth (`readings_grow`), and with it allocating (`readings_allocate`) and
resizing (`readings_resize`).
-/
namespace SegregatedFit

/-! ## Views that an operation keeps -/

namespace Action

variable {ε σ τ α β γ : Type} {view : σ → γ}

/-- The state in which a run ended, with an answer or without one. -/
def endState : EStateM.Result ε σ α → σ
  | .ok _ s | .error _ s => s

/-- However the operation ends, the view of the state is what it was. -/
def Keeps (x : Action ε σ α) (view : σ → γ) : Prop := ∀ s, view (endState (x s)) = view s

theorem Keeps.of_ok {x : Action ε σ α} (hx : x.Keeps view) {s s' : σ} {a : α}
    (hrun : x s = .ok a s') : view s' = view s := by
  have hend := hx s
  rwa [hrun] at hend

theorem Keeps.of_error {x : Action ε σ α} (hx : x.Keeps view) {s s' : σ} {failure : Failure ε}
    (hrun : x s = .error failure s') : view s' = view s := by
  have hend := hx s
  rwa [hrun] at hend

theorem Keeps.bind {x : Action ε σ α} {f : α → Action ε σ β} (hx : x.Keeps view)
    (hf : ∀ a, (f a).Keeps view) : (x >>= f).Keeps view := by
  intro s
  cases hrun : x s with
  | ok a s' =>
    rw [bind_of_ok hrun]
    exact (hf a s').trans (hx.of_ok hrun)
  | error failure s' =>
    rw [bind_of_error hrun]
    exact hx.of_error hrun

theorem keeps_pure (a : α) : (pure a : Action ε σ α).Keeps view := fun _ => rfl

theorem keeps_get : (get : Action ε σ σ).Keeps view := fun _ => rfl

theorem keeps_refuse (cause : ε) : (refuse cause : Action ε σ α).Keeps view := fun _ => rfl

theorem keeps_lift_trap (x : Except Trap α) : (liftM x : Action ε σ α).Keeps view := by
  intro s
  cases x <;> rfl

theorem keeps_lift (x : Except ε α) : (liftM x : Action ε σ α).Keeps view := by
  intro s
  cases x <;> rfl

theorem keeps_lift_failure (x : Except (Failure ε) α) : (liftM x : Action ε σ α).Keeps view := by
  intro s
  cases x <;> rfl

theorem Keeps.onSecond {x : Action ε σ α} (hx : x.Keeps view) :
    (onSecond x : Action ε (τ × σ) α).Keeps fun p => view p.2 := by
  rintro ⟨t, s⟩
  rw [onSecond_apply]
  cases hrun : x s with
  | ok a s' => exact hx.of_ok hrun
  | error failure s' => exact hx.of_error hrun

end Action

open SegregatedFit.Action

/-! ## The length of the memory -/

section Length

-- words are written as a whole here, never byte by byte
attribute [local irreducible] Memory.store Memory.setSlice

theorem Memory.keeps_writeWord (off value : Nat) :
    (Memory.writeWord off value).Keeps Memory.size := by
  intro m
  simp only [Memory.writeWord]
  split
  · exact Memory.size_store ..
  · rfl

theorem Memory.keeps_copy (src n dst : Nat) : (Memory.copy src n dst).Keeps Memory.size := by
  intro m
  simp only [Memory.copy]
  split
  · exact Memory.size_setSlice ..
  · rfl

theorem Memory.keeps_setSlice (off : Nat) (bytes : List UInt8) :
    Keeps (fun m => .ok () (m.setSlice off bytes) : Action HeapError Memory Unit) Memory.size :=
  fun _ => Memory.size_setSlice ..

theorem Block.keeps_writeTags (bp : Nat) (tag : Tag) :
    (Block.writeTags bp tag).Keeps Memory.size := by
  intro m
  simp only [Block.writeTags]
  split
  · rfl
  · split
    · rfl
    · exact (Memory.size_store ..).trans (Memory.size_store ..)

end Length

namespace FreeLists

/-- The length of the memory behind the lists. -/
def length (σ : FreeLists × Memory) : Nat := σ.2.size

theorem keeps_storeLink (off word : Nat) : (storeLink off word).Keeps length :=
  (Memory.keeps_writeWord off word).onSecond

theorem keeps_setSize (n : Nat) : (setSize n).Keeps length := by
  rintro ⟨lists, m⟩
  rfl

theorem keeps_setAfter (value x : Link) : (setAfter value x).Keeps length := by
  cases x with
  | sentinel b =>
    rintro ⟨lists, m⟩
    rfl
  | block bp => exact keeps_storeLink bp value.encode

theorem keeps_setBefore (value x : Link) : (setBefore value x).Keeps length := by
  cases x with
  | sentinel b =>
    rintro ⟨lists, m⟩
    rfl
  | block bp => exact (keeps_lift_trap _).bind fun off => keeps_storeLink off value.encode

theorem keeps_insert (bp : Nat) (bucket : Bucket) : (insert bp bucket).Keeps length :=
  keeps_get.bind fun _ => (keeps_lift_trap _).bind fun _ => (keeps_storeLink _ _).bind fun _ =>
    (keeps_storeLink _ _).bind fun _ => (keeps_setBefore _ _).bind fun _ =>
    (keeps_setAfter _ _).bind fun _ => keeps_get.bind fun _ => (keeps_lift_trap _).bind fun _ =>
    keeps_setSize _

theorem keeps_remove (bp : Nat) : (remove bp).Keeps length :=
  keeps_get.bind fun _ => (keeps_lift _).bind fun _ => (keeps_lift_failure _).bind fun _ =>
    (keeps_setAfter _ _).bind fun _ => (keeps_setBefore _ _).bind fun _ => keeps_get.bind fun _ =>
    (keeps_lift_trap _).bind fun _ => (keeps_setSize _).bind fun _ =>
    (keeps_storeLink _ _).bind fun _ => (keeps_lift_trap _).bind fun _ => keeps_storeLink _ _

end FreeLists

/-! ## Readings -/

/-- What only growth, resizing and a new beginning change. -/
structure Readings where
  base : Nat
  prologue : Option Nat
  /-- The length of the memory. -/
  size : Nat
  extendCalls : Nat
  resizeMoves : Nat
  resizeInPlace : Nat

/-- The readings after the heap grew. -/
def Readings.grown (r : Readings) (size : Nat) : Readings :=
  { r with size := r.size + size, extendCalls := r.extendCalls + 1 }

/-- The readings after an allocation, for which the heap may have grown. -/
def Readings.Allocated (r r' : Readings) : Prop :=
  r' = r ∨ ∃ size, 0 < size ∧ r' = r.grown size

theorem Readings.Allocated.prologue_eq {r r' : Readings} (h : r.Allocated r') :
    r'.prologue = r.prologue := by
  rcases h with rfl | ⟨size, -, rfl⟩ <;> rfl

namespace Heap

variable {α : Type} {h g : Heap Arena}

/-- What can be read off the heap. -/
def readings (h : Heap Arena) : Readings :=
  ⟨h.base, h.prologue, h.region.memory.size, h.counters.extendCalls, h.counters.resizeMoves,
    h.counters.resizeInPlace⟩

theorem keeps_read (f : Memory → Except HeapError α) : (read f).Keeps readings := by
  intro h
  rw [read_apply]
  split <;> rfl

theorem keeps_edit {x : FreeLists.Edit α} (hx : x.Keeps FreeLists.length) :
    (edit x).Keeps readings := by
  intro h
  have hsize : ∀ {lists : FreeLists} {m : Memory},
      FreeLists.length (lists, m) = FreeLists.length (h.lists, h.region.memory) →
        (h.withLists lists m).readings = h.readings := by
    intro lists m hlength
    have hm : m.size = h.region.memory.size := hlength
    simp only [readings, withLists, hm]
  rw [edit_apply]
  cases hrun : x (h.lists, h.region.memory) with
  | ok a p => exact hsize (hx.of_ok hrun)
  | error failure p => exact hsize (hx.of_error hrun)

theorem keeps_write {x : Action HeapError Memory α} (hx : x.Keeps Memory.size) :
    (write x).Keeps readings :=
  keeps_edit hx.onSecond

/-- Logging keeps whatever the log has no part in. -/
theorem logEvent_keeps {γ : Type} {view : Heap Arena → γ}
    (hview : ∀ h log, view { h with log } = view h) (event : Event) :
    (logEvent event).Keeps view := by
  refine keeps_get.bind fun h => ?_
  split
  · exact keeps_get.bind fun _ => (keeps_lift_trap _).bind fun _ => fun g => hview g _
  · exact keeps_pure ()

theorem keeps_logEvent (event : Event) : (logEvent event).Keeps readings :=
  logEvent_keeps (fun _ _ => rfl) event

theorem memory_of_logged {event : Event} (hrun : logEvent event h = .ok () g) :
    g.region.memory = h.region.memory := by
  have hkeeps : (logEvent event).Keeps fun h : Heap Arena => h.region.memory :=
    logEvent_keeps (fun _ _ => rfl) event
  exact hkeeps.of_ok hrun

/-- What a change of the counters does to the readings. -/
theorem readings_count {f : Counters → Except Trap Counters} (hrun : count f h = .ok () g) :
    ∃ counters, f h.counters = .ok counters ∧ g = h.withCounters counters := by
  cases hf : f h.counters with
  | ok counters =>
    rw [count_apply hf] at hrun
    cases hrun
    exact ⟨counters, rfl, rfl⟩
  | error trap =>
    rw [count_trapped hf] at hrun
    cases hrun

/-! ## Free space -/

theorem keeps_previousBlock (bp : Nat) : (previousBlock bp).Keeps readings :=
  (keeps_read _).bind fun _ => (keeps_read _).bind fun _ => keeps_pure _

theorem keeps_absorbNeighbours (bp size : Nat) : (absorbNeighbours bp size).Keeps readings := by
  refine (keeps_lift_trap _).bind fun below => (keeps_read _).bind fun tag =>
    (keeps_read _).bind fun next => (keeps_read _).bind fun nextTag => ?_
  split
  case h_1 => exact keeps_pure _
  case h_2 =>
    exact (keeps_edit (FreeLists.keeps_remove _)).bind fun _ => (keeps_lift_trap _).bind fun _ =>
      keeps_pure _
  case h_3 =>
    exact (keeps_previousBlock bp).bind fun _ => (keeps_edit (FreeLists.keeps_remove _)).bind
      fun _ => (keeps_lift_trap _).bind fun _ => keeps_pure _
  case h_4 =>
    exact (keeps_previousBlock bp).bind fun _ => (keeps_edit (FreeLists.keeps_remove _)).bind
      fun _ => (keeps_edit (FreeLists.keeps_remove _)).bind fun _ => (keeps_lift_trap _).bind
      fun _ => (keeps_lift_trap _).bind fun _ => keeps_pure _

theorem keeps_coalesce (bp : Nat) : (coalesce bp).Keeps readings :=
  (keeps_read _).bind fun tag => (keeps_absorbNeighbours bp tag.size).bind fun _ =>
    (keeps_write (Block.keeps_writeTags _ _)).bind fun _ =>
    (keeps_edit (FreeLists.keeps_insert _ _)).bind fun _ => (keeps_logEvent _).bind fun _ =>
    keeps_pure _

/-- A change of the counters that has no part in growth and resizes. -/
theorem keeps_count {f : Counters → Except Trap Counters}
    (hf : ∀ c c', f c = .ok c' → c'.extendCalls = c.extendCalls ∧
      c'.resizeMoves = c.resizeMoves ∧ c'.resizeInPlace = c.resizeInPlace) :
    (count f).Keeps readings := by
  intro h
  cases hcounters : f h.counters with
  | ok counters =>
    obtain ⟨hextend, hmoves, hinPlace⟩ := hf _ _ hcounters
    rw [count_apply hcounters]
    simp only [endState, readings, withCounters, hextend, hmoves, hinPlace]
  | error trap => rw [count_trapped hcounters, endState]

theorem keeps_split (bp size rest : Nat) : (split bp size rest).Keeps readings :=
  (keeps_write (Block.keeps_writeTags _ _)).bind fun _ => (keeps_lift_trap _).bind fun _ =>
    (keeps_write (Block.keeps_writeTags _ _)).bind fun _ =>
    keeps_edit (FreeLists.keeps_insert _ _)

/-- Of a computation that can fail, the parts that had an answer. -/
theorem exists_of_bind {ε β γ : Type} {x : Except ε β} {f : β → Except ε γ} {c : γ}
    (h : (x >>= f) = .ok c) : ∃ b, x = .ok b ∧ f b = .ok c := by
  cases x with
  | ok b => exact ⟨b, rfl, h⟩
  | error cause => cases h

theorem keeps_carve (bp size : Nat) : (carve bp size).Keeps readings := by
  refine (keeps_read _).bind fun tag => (keeps_edit (FreeLists.keeps_remove bp)).bind fun _ =>
    (keeps_lift_trap _).bind fun rest => ?_
  have hend : ∀ placed, (do
      count fun c => return { c with
        allocatedBlocks := ← Word.add c.allocatedBlocks 1
        allocatedBytes := ← Word.add c.allocatedBytes placed }
      if placed ≠ tag.size then
        logEvent (.split (bp + size) rest)
      return placed : HeapM Arena Nat).Keeps readings := by
    intro placed
    refine (keeps_count fun c c' hc => ?_).bind fun _ => ?_
    · obtain ⟨_, -, hc⟩ := exists_of_bind hc
      obtain ⟨_, -, hc⟩ := exists_of_bind hc
      cases hc
      exact ⟨rfl, rfl, rfl⟩
    · dsimp only
      split
      · exact (keeps_logEvent _).bind fun _ => keeps_pure _
      · exact keeps_pure _
  dsimp only
  split
  · exact (keeps_split bp size rest).bind fun _ => hend _
  · exact (keeps_write (Block.keeps_writeTags _ _)).bind fun _ => hend _

/-! ## Freeing and payloads -/

theorem keeps_release (ptr size : Nat) : (release ptr size).Keeps readings := by
  refine (keeps_write (Block.keeps_writeTags _ _)).bind fun _ =>
    (keeps_count fun c c' hc => ?_).bind fun _ => (keeps_coalesce ptr).bind fun _ =>
    keeps_logEvent _
  obtain ⟨_, -, hc⟩ := exists_of_bind hc
  obtain ⟨_, -, hc⟩ := exists_of_bind hc
  cases hc
  exact ⟨rfl, rfl, rfl⟩

theorem keeps_free (ptr : Nat) : (free ptr).Keeps readings := by
  unfold free
  split
  · exact keeps_logEvent _
  · refine keeps_get.bind fun h => ?_
    split
    · exact (keeps_logEvent _).bind fun _ => keeps_refuse _
    · exact keeps_release ptr _

theorem keeps_writePayload (ptr start : Nat) (bytes : List UInt8) :
    (writePayload ptr start bytes).Keeps readings :=
  keeps_get.bind fun _ => (keeps_lift _).bind fun _ =>
    (keeps_write (Memory.keeps_setSlice _ _)).bind fun _ => keeps_pure _

/-! ## Growth -/

/-- A growth that succeeds is counted, and the memory is as much longer. -/
theorem readings_grow {size bp : Nat} (hrun : grow size h = .ok bp g) :
    g.readings = h.readings.grown size := by
  obtain ⟨used, k, hregion, hrest⟩ := bind_eq_ok_iff.1 hrun
  rw [growRegion_apply] at hregion
  rcases Arena.grow_cases h.region size with ⟨cause, hgrow, -⟩ | ⟨trap, hgrow, -⟩ | ⟨hgrow, -⟩
  · rw [hgrow] at hregion
    cases hregion
    obtain ⟨_, _, -, hrefused⟩ := bind_eq_ok_iff.1 hrest
    cases hrefused
  · rw [hgrow] at hregion
    cases hregion
  · rw [hgrow] at hregion
    cases hregion
    obtain ⟨_, k₁, htags, hrest⟩ := bind_eq_ok_iff.1 hrest
    obtain ⟨stop, k₂, hstop, hrest⟩ := bind_eq_ok_iff.1 hrest
    obtain ⟨_, k₃, hepilogue, hrest⟩ := bind_eq_ok_iff.1 hrest
    obtain ⟨_, k₄, hcount, hrest⟩ := bind_eq_ok_iff.1 hrest
    obtain ⟨_, k₅, hlog, hcoalesce⟩ := bind_eq_ok_iff.1 hrest
    have hbefore : k₃.readings = { h.readings with size := h.region.memory.size + size } := by
      have hk₂ : k₂.readings = k₁.readings := (keeps_lift_trap _).of_ok hstop
      rw [(keeps_write (Memory.keeps_writeWord _ _)).of_ok hepilogue, hk₂,
        (keeps_write (Block.keeps_writeTags _ _)).of_ok htags]
      simp only [readings, Memory.size_extend]
    obtain ⟨counters, hcounters, rfl⟩ := readings_count hcount
    obtain ⟨calls, hcalls, ⟨⟩⟩ := exists_of_bind hcounters
    obtain ⟨-, rfl⟩ := Word.fit_eq_ok_iff.1 hcalls
    calc g.readings
        = k₅.readings := (keeps_coalesce _).of_ok hcoalesce
      _ = { k₃.readings with extendCalls := k₃.readings.extendCalls + 1 } :=
          (keeps_logEvent _).of_ok hlog
      _ = h.readings.grown size := by rw [hbefore]; rfl

theorem readings_extend {words bp : Nat} (hrun : extend words h = .ok bp g) :
    ∃ size, 0 < size ∧ g.readings = h.readings.grown size := by
  cases hwords : Block.sizeOfWords words with
  | none =>
    simp only [extend, hwords] at hrun
    cases hrun
  | some size =>
    simp only [extend, hwords] at hrun
    have hpos : 0 < size :=
      Nat.lt_of_lt_of_le (by decide) (Block.proper_of_sizeOfWords hwords).2.1
    exact ⟨size, hpos, readings_grow hrun⟩

/-! ## Allocating -/

/-- Looking for a block keeps the readings, or the heap grew for it. -/
theorem readings_findOrGrow {n size : Nat} {found : Nat × Source}
    (hrun : findOrGrow n size h = .ok found g) : h.readings.Allocated g.readings := by
  obtain ⟨_, _, ⟨⟩, hrest⟩ := bind_eq_ok_iff.1 hrun
  obtain ⟨bp, k, hfind, hrest⟩ := bind_eq_ok_iff.1 hrest
  have hk : k.readings = h.readings := (keeps_lift_failure _).of_ok hfind
  cases bp with
  | some bp =>
    cases hrest
    exact Or.inl hk
  | none =>
    obtain ⟨_, _, ⟨⟩, hrest⟩ := bind_eq_ok_iff.1 hrest
    obtain ⟨attempted, k', hextend, hrest⟩ := bind_eq_ok_iff.1 hrest
    rw [attempt_apply] at hextend
    split at hextend
    case h_1 bp k' hextended =>
      cases hextend
      cases hrest
      exact Or.inr (hk ▸ readings_extend hextended)
    case h_2 =>
      cases hextend
      obtain ⟨_, _, -, hrefused⟩ := bind_eq_ok_iff.1 hrest
      cases hrefused
    case h_3 => cases hextend

theorem readings_allocate {n p : Nat} (hrun : allocate n h = .ok p g) :
    h.readings.Allocated g.readings := by
  obtain ⟨_, _, ⟨⟩, hrest⟩ := bind_eq_ok_iff.1 hrun
  obtain ⟨_, k, hprologue, hrest⟩ := bind_eq_ok_iff.1 hrest
  have hk : k.readings = h.readings := (keeps_lift _).of_ok hprologue
  split at hrest
  · obtain ⟨_, _, -, hrefused⟩ := bind_eq_ok_iff.1 hrest
    cases hrefused
  · cases hsize : Block.sizeFor n with
    | none =>
      simp only [hsize] at hrest
      obtain ⟨_, _, -, hrefused⟩ := bind_eq_ok_iff.1 hrest
      cases hrefused
    | some size =>
      simp only [hsize] at hrest
      obtain ⟨found, k₁, hfind, hrest⟩ := bind_eq_ok_iff.1 hrest
      obtain ⟨placed, k₂, hcarve, hrest⟩ := bind_eq_ok_iff.1 hrest
      obtain ⟨_, k₃, hlog, ⟨⟩⟩ := bind_eq_ok_iff.1 hrest
      rw [(keeps_logEvent _).of_ok hlog, (keeps_carve _ _).of_ok hcarve, ← hk]
      exact readings_findOrGrow hfind

/-! ## Resizing -/

/-- `g` is `h` after a block was moved to `p`: the heap was `k₁` after the allocation,
`k₂` after the copy and `k₃` after the free. -/
structure Relocated (h g : Heap Arena) (ptr current n p target : Nat) (k₁ k₂ k₃ : Heap Arena) :
    Prop where
  target_eq : Word.mul? n h.config.resizeFactor = some target
  allocated : allocate target h = .ok p k₁
  copied : write (Memory.copy ptr (Block.payloadSize current) p) k₁ = .ok () k₂
  freed : free ptr k₂ = .ok () k₃
  logged : logEvent (.moved ptr p n (Block.payloadSize current) target)
    (k₃.withCounters { k₃.counters with resizeMoves := k₃.counters.resizeMoves + 1 }) = .ok () g
  memory_eq : g.region.memory = k₃.region.memory
  readings_eq : g.readings = { k₃.readings with resizeMoves := k₃.readings.resizeMoves + 1 }

/-- A move that was answered went through all stages. -/
theorem relocated_of_ok {ptr current n p : Nat} (hrun : relocate ptr current n h = .ok p g) :
    ∃ target k₁ k₂ k₃, h.Relocated g ptr current n p target k₁ k₂ k₃ := by
  obtain ⟨_, _, ⟨⟩, hrest⟩ := bind_eq_ok_iff.1 hrun
  cases htarget : Word.mul? n h.config.resizeFactor with
  | none =>
    simp only [htarget] at hrest
    cases hrest
  | some target =>
    simp only [htarget] at hrest
    obtain ⟨attempted, k₁, hallocate, hrest⟩ := bind_eq_ok_iff.1 hrest
    rw [attempt_apply] at hallocate
    split at hallocate
    case h_1 dest k₁ hallocated =>
      cases hallocate
      obtain ⟨_, k₂, hcopy, hrest⟩ := bind_eq_ok_iff.1 hrest
      obtain ⟨_, k₃, hfree, hrest⟩ := bind_eq_ok_iff.1 hrest
      obtain ⟨_, k₄, hcount, hrest⟩ := bind_eq_ok_iff.1 hrest
      obtain ⟨_, k₅, hlog, ⟨⟩⟩ := bind_eq_ok_iff.1 hrest
      obtain ⟨counters, hcounters, rfl⟩ := readings_count hcount
      have hmemory := memory_of_logged hlog
      obtain ⟨moves, hmoves, ⟨⟩⟩ := exists_of_bind hcounters
      obtain ⟨-, rfl⟩ := Word.fit_eq_ok_iff.1 hmoves
      exact ⟨target, k₁, k₂, k₃, {
        target_eq := htarget
        allocated := hallocated
        copied := hcopy
        freed := hfree
        logged := hlog
        memory_eq := hmemory
        readings_eq := (keeps_logEvent _).of_ok hlog }⟩
    case h_2 =>
      cases hallocate
      obtain ⟨_, _, -, hrefused⟩ := bind_eq_ok_iff.1 hrest
      cases hrefused
    case h_3 => cases hallocate

/-- Moving a block is allocating, copying and freeing, and one more move. -/
theorem readings_relocate {ptr current n p : Nat} (hrun : relocate ptr current n h = .ok p g) :
    ∃ r, h.readings.Allocated r ∧ g.readings = { r with resizeMoves := r.resizeMoves + 1 } := by
  obtain ⟨target, k₁, k₂, k₃, hmoved⟩ := relocated_of_ok hrun
  have hbefore : k₃.readings = k₁.readings :=
    ((keeps_free _).of_ok hmoved.freed).trans
      ((keeps_write (Memory.keeps_copy _ _ _)).of_ok hmoved.copied)
  exact ⟨k₁.readings, readings_allocate hmoved.allocated, hbefore ▸ hmoved.readings_eq⟩

/-- A resize of a block to a size that is not zero counts as one resize, whether
the block moved or not. -/
theorem readings_resize {ptr n : Nat} {answer : Option Nat} (hptr : ptr ≠ nullPtr) (hn : n ≠ 0)
    (hrun : resize ptr n h = .ok answer g) :
    answer.isSome = true ∧
      (g.readings = { h.readings with resizeInPlace := h.readings.resizeInPlace + 1 } ∨
        ∃ r, h.readings.Allocated r ∧ g.readings = { r with resizeMoves := r.resizeMoves + 1 }) := by
  simp only [resize, if_neg hptr, if_neg hn] at hrun
  obtain ⟨_, _, ⟨⟩, hrest⟩ := bind_eq_ok_iff.1 hrun
  obtain ⟨tag, k, hblock, hrest⟩ := bind_eq_ok_iff.1 hrest
  have hk : k.readings = h.readings := (keeps_lift _).of_ok hblock
  cases hsize : Block.sizeFor n with
  | none =>
    simp only [hsize] at hrest
    cases hrest
  | some size =>
    simp only [hsize] at hrest
    split at hrest
    · obtain ⟨_, k₁, hcount, hrest⟩ := bind_eq_ok_iff.1 hrest
      obtain ⟨_, k₂, hlog, ⟨⟩⟩ := bind_eq_ok_iff.1 hrest
      obtain ⟨counters, hcounters, rfl⟩ := readings_count hcount
      obtain ⟨inPlace, hinPlace, ⟨⟩⟩ := exists_of_bind hcounters
      obtain ⟨-, rfl⟩ := Word.fit_eq_ok_iff.1 hinPlace
      refine ⟨rfl, Or.inl ?_⟩
      calc g.readings
          = { k.readings with resizeInPlace := k.readings.resizeInPlace + 1 } :=
            (keeps_logEvent _).of_ok hlog
        _ = { h.readings with resizeInPlace := h.readings.resizeInPlace + 1 } := by rw [hk]
    · obtain ⟨p, k', hmoved, ⟨⟩⟩ := bind_eq_ok_iff.1 hrest
      exact ⟨rfl, Or.inr (hk ▸ readings_relocate hmoved)⟩

/-! ## Laying out -/

theorem keeps_writeSentinels (base : Nat) : (writeSentinels base).Keeps readings :=
  (keeps_write (Memory.keeps_writeWord _ _)).bind fun _ => (keeps_lift_trap _).bind fun _ =>
    (keeps_write (Memory.keeps_writeWord _ _)).bind fun _ => (keeps_lift_trap _).bind fun _ =>
    (keeps_write (Memory.keeps_writeWord _ _)).bind fun _ => (keeps_lift_trap _).bind fun _ =>
    keeps_write (Memory.keeps_writeWord _ _)

/-- The first chunk is one growth. -/
theorem readings_firstChunk (hrun : firstChunk h = .ok () g) :
    ∃ size, g.readings = h.readings.grown size := by
  obtain ⟨_, _, ⟨⟩, hrest⟩ := bind_eq_ok_iff.1 hrun
  obtain ⟨attempted, k, hextend, hrest⟩ := bind_eq_ok_iff.1 hrest
  rw [attempt_apply] at hextend
  split at hextend
  case h_1 bp k hextended =>
    cases hextend
    obtain ⟨_, _, ⟨⟩, hlog⟩ := bind_eq_ok_iff.1 hrest
    obtain ⟨size, -, hk⟩ := readings_extend hextended
    exact ⟨size, ((keeps_logEvent _).of_ok hlog).trans hk⟩
  case h_2 =>
    cases hextend
    obtain ⟨_, _, -, hrefused⟩ := bind_eq_ok_iff.1 hrest
    cases hrefused
  case h_3 => cases hextend

theorem keeps_growRegion (delta : Nat) :
    (growRegion delta : HeapM Arena (Except ArenaError Nat)).Keeps Heap.counters := by
  intro h
  rw [growRegion_apply]
  split <;> rfl

/-- A heap that was just laid out has grown once, for its first chunk. -/
theorem readings_init (hrun : init h = .ok () g) :
    g.readings.extendCalls = 1 ∧ g.readings.resizeMoves = 0 ∧ g.readings.resizeInPlace = 0 := by
  obtain ⟨_, _, ⟨⟩, hrest⟩ := bind_eq_ok_iff.1 hrun
  obtain ⟨_, _, ⟨⟩, hrest⟩ := bind_eq_ok_iff.1 hrest
  obtain ⟨aligned, k₁, haligned, hrest⟩ := bind_eq_ok_iff.1 hrest
  obtain ⟨pad, k₂, hpad, hrest⟩ := bind_eq_ok_iff.1 hrest
  obtain ⟨grown, k₃, hgrow, hrest⟩ := bind_eq_ok_iff.1 hrest
  cases grown with
  | error cause =>
    obtain ⟨_, _, -, hrefused⟩ := bind_eq_ok_iff.1 hrest
    cases hrefused
  | ok start =>
    obtain ⟨base, k₄, hbase, hrest⟩ := bind_eq_ok_iff.1 hrest
    obtain ⟨_, k₅, hsentinels, hrest⟩ := bind_eq_ok_iff.1 hrest
    obtain ⟨prologue, k₆, hprologue, hrest⟩ := bind_eq_ok_iff.1 hrest
    obtain ⟨_, _, ⟨⟩, hchunk⟩ := bind_eq_ok_iff.1 hrest
    obtain ⟨size, hg⟩ := readings_firstChunk hchunk
    -- up to the first chunk nothing was counted
    have hcounters : k₄.counters = {} := by
      have hk₁ : k₁.counters = {} := (keeps_lift_trap _).of_ok haligned
      have hk₂ : k₂.counters = k₁.counters := (keeps_lift_trap _).of_ok hpad
      have hk₄ : k₄.counters = k₃.counters := (keeps_lift_trap _).of_ok hbase
      rw [hk₄, (keeps_growRegion _).of_ok hgrow, hk₂, hk₁]
    have hk₆ : k₆.readings = k₄.readings := by
      have hlift : k₆.readings = k₅.readings := (keeps_lift_trap _).of_ok hprologue
      rw [hlift, (keeps_writeSentinels _).of_ok hsentinels]
    have hbefore : g.readings.extendCalls = k₄.counters.extendCalls + 1 ∧
        g.readings.resizeMoves = k₄.counters.resizeMoves ∧
        g.readings.resizeInPlace = k₄.counters.resizeInPlace := by
      rw [hg]
      exact ⟨congrArg (·.extendCalls + 1) hk₆, congrArg Readings.resizeMoves hk₆,
        congrArg Readings.resizeInPlace hk₆⟩
    rw [hcounters] at hbefore
    exact hbefore

end Heap
end SegregatedFit
