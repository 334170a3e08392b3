-- SUMMARY: Which bounds a call keeps on a plain heap, and the counts at which it is trapped.
import SegregatedFit.Proofs.Client.Session
import SegregatedFit.Proofs.Guarding
import SegregatedFit.Proofs.Plain.Basic

/-!
# Bounds

A plain heap decides everything by its figures, so whether a call is trapped is a
matter of a few of them: how much there can be in its room, how often the room
grew, and how many resizes were counted. `Bounded` says how far these may be, and
`Stuck` where there is no going on. Every operation keeps the bounds, whether it
has an answer or is refused, and is trapped only where it is stuck. Main
statement: `resizing_run`.
-/
namespace SegregatedFit

/-! ## Bounds of a plain heap -/

/-- How much there may be in a room with that limit, under the settings of its heap,
and how many growths were counted before. -/
structure Bounds where
  config : Config
  low : Nat
  high : Nat
  limit : Nat
  growths : Nat
  limit_le : limit ≤ high

namespace Outline

/-- The heap has the settings, its room and its prologue are within the bounds, and no
more than `resizes` resizes were counted. -/
structure Bounded (o : Outline) (b : Bounds) (resizes : Nat) : Prop where
  config_eq : o.config = b.config
  chunk_le : minBlock ≤ o.config.chunkSize
  limit_eq : o.room.limit = b.limit
  low_le : b.low ≤ o.room.size
  size_le : o.room.size ≤ b.high
  /-- Each growth added a block's worth of bytes. -/
  growCalls_le : minBlock * o.room.growCalls ≤ o.room.size + minBlock * b.growths
  low_le_prologue : ∀ prologue, o.prologue = some prologue → b.low ≤ prologue
  resizes_le : o.counters.resizeMoves + o.counters.resizeInPlace ≤ resizes

/-- There may be more in the room than a signed word counts, or no word holds the
next growth or the next resize. -/
def Stuck (o : Outline) (b : Bounds) (resizes : Nat) : Prop :=
  wordCount ≤ 2 * b.high ∨ wordCount ≤ o.room.growCalls + 1 ∨ wordCount ≤ resizes + 1

variable {o o' : Outline} {b : Bounds} {resizes : Nat}

theorem Bounded.more (ho : o.Bounded b resizes) : o.Bounded b (resizes + 1) :=
  { ho with resizes_le := Nat.le_succ_of_le ho.resizes_le }

/-- What changes neither settings, room nor prologue, and counts no resize, keeps the
bounds. -/
theorem Bounded.of_eq (ho : o.Bounded b resizes) (hconfig : o'.config = o.config)
    (hroom : o'.room = o.room) (hprologue : o'.prologue = o.prologue)
    (hmoves : o'.counters.resizeMoves = o.counters.resizeMoves)
    (hinPlace : o'.counters.resizeInPlace = o.counters.resizeInPlace) : o'.Bounded b resizes :=
  ⟨hconfig ▸ ho.config_eq, hconfig ▸ ho.chunk_le, hroom ▸ ho.limit_eq, hroom ▸ ho.low_le,
    hroom ▸ ho.size_le, hroom ▸ ho.growCalls_le, hprologue ▸ ho.low_le_prologue,
    by rw [hmoves, hinPlace]; exact ho.resizes_le⟩

end Outline

namespace Plain

open SegregatedFit.Action Block

variable {b : Bounds} {resizes : Nat}

/-- An operation that keeps the bounds and counts no resize. -/
abbrev Keeping {α : Type} (b : Bounds) (resizes : Nat) (x : PlainM α) : Prop :=
  x.Guards (·.Bounded b resizes) (·.Bounded b resizes) (·.Stuck b resizes)

/-- An operation that keeps the bounds and counts one resize at most. -/
abbrev Resizing {α : Type} (b : Bounds) (resizes : Nat) (x : PlainM α) : Prop :=
  x.Guards (·.Bounded b resizes) (·.Bounded b (resizes + 1)) (·.Stuck b resizes)

theorem resizing_of_keeping {α : Type} {x : PlainM α} (hx : Keeping b resizes x) :
    Resizing b resizes x :=
  hx.weaken fun _ hp => hp.more

/-- Before a resize is counted, the operation goes on. -/
theorem resizing_bind {α β : Type} {x : PlainM α} {f : α → PlainM β} (hx : Keeping b resizes x)
    (hf : ∀ a, Resizing b resizes (f a)) : Resizing b resizes (x >>= f) :=
  hx.bind hf fun _ hp => hp.more

theorem keeping_logEvent (event : Event) : Keeping b resizes (logEvent event) :=
  .modify fun _ hp => hp.of_eq rfl rfl rfl rfl rfl

/-- A refusal that is logged. -/
theorem keeping_refuse {α : Type} (event : Event) (cause : HeapError) :
    Keeping b resizes (logEvent event >>= fun _ => (Action.refuse cause : PlainM α)) :=
  (keeping_logEvent event).seq fun _ => .refuse cause

/-! ## Free space -/

theorem keeping_growRegion {delta : Nat} (hdelta : minBlock ≤ delta) :
    Keeping b resizes (growRegion delta) := by
  intro p hp
  have hlimit := b.limit_le
  have hlimit_eq := hp.limit_eq
  have hlow := hp.low_le
  have hcalls_le := hp.growCalls_le
  simp only [growRegion, Room.grow]
  by_cases hexhausted : p.room.limit < p.room.size + delta ∨ wordCount ≤ p.room.size + delta
  · rw [if_pos hexhausted]
    exact .ok { hp with }
  · rw [if_neg hexhausted]
    by_cases hcapacity : wordCount ≤ 2 * (p.room.size + delta)
    · rw [if_pos hcapacity]
      exact .trapped (Or.inl (by omega))
    · rw [if_neg hcapacity]
      by_cases hcalls : wordCount ≤ p.room.growCalls + 1
      · rw [if_pos hcalls]
        exact .trapped (Or.inr (Or.inl hcalls))
      · rw [if_neg hcalls]
        refine .ok { hp with low_le := ?_, size_le := ?_, growCalls_le := ?_ }
        · dsimp only
          omega
        · dsimp only
          omega
        · dsimp only
          rw [Nat.mul_add]
          omega

theorem keeping_lookUp (bp : Nat) : Keeping b resizes (lookUp bp) := by
  refine .get_bind fun p _ => ?_
  split
  · exact .pure _
  · exact .refuse _

theorem keeping_coalesce (front : List Span) (s : Span) (back : List Span) :
    Keeping b resizes (coalesce front s back) :=
  Guards.seq (.modify fun _ hp => hp.of_eq rfl rfl rfl rfl rfl) fun _ =>
    (keeping_logEvent _).seq fun _ => .pure _

theorem keeping_grow {size : Nat} (hsize : minBlock ≤ size) : Keeping b resizes (grow size) := by
  refine (keeping_growRegion hsize).seq ?_
  rintro (cause | bp)
  · exact keeping_refuse _ _
  · exact Guards.seq (.modify fun _ hp => hp.of_eq rfl rfl rfl rfl rfl) fun _ =>
      (keeping_logEvent _).seq fun _ => .get_bind fun p _ => keeping_coalesce _ _ _

theorem keeping_carve (bp size : Nat) : Keeping b resizes (carve bp size) := by
  refine (keeping_lookUp bp).seq ?_
  rintro ⟨front, s, back⟩
  dsimp only
  refine Guards.seq (.modify fun _ hp => hp.of_eq rfl rfl rfl rfl rfl) fun _ => ?_
  split
  · exact (keeping_logEvent _).seq fun _ => .pure _
  · exact .pure _

theorem keeping_findOrGrow (n : Nat) {size : Nat} (hsize : minBlock ≤ size) :
    Keeping b resizes (findOrGrow n size) := by
  refine .get_bind fun p _ => ?_
  split
  · exact .pure _
  · refine .get_bind fun q _ =>
      (keeping_grow (Nat.le_trans hsize (Nat.le_max_left _ _))).attempt.seq ?_
    rintro (cause | bp)
    · exact keeping_refuse _ _
    · exact .pure _

/-! ## Allocating, freeing and resizing -/

theorem keeping_allocate (n : Nat) : Keeping b resizes (allocate n) := by
  refine .get_bind fun p _ => ?_
  split
  · exact .refuse _
  · split
    · exact keeping_refuse _ _
    · split
      · exact keeping_refuse _ _
      case h_2 size hsize =>
        refine (keeping_findOrGrow n (proper_of_sizeFor hsize).2.1).seq ?_
        rintro ⟨bp, source⟩
        exact (keeping_carve bp _).seq fun _ => (keeping_logEvent _).seq fun _ => .pure _

theorem keeping_release (ptr size : Nat) : Keeping b resizes (release ptr size) := by
  refine (keeping_lookUp ptr).seq ?_
  rintro ⟨front, s, back⟩
  dsimp only
  exact Guards.seq (.modify fun _ hp => hp.of_eq rfl rfl rfl rfl rfl) fun _ =>
    (keeping_coalesce _ _ _).seq fun _ => keeping_logEvent _

theorem keeping_free (ptr : Nat) : Keeping b resizes (free ptr) := by
  unfold free
  split
  · exact keeping_logEvent _
  · refine .get_bind fun p _ => ?_
    split
    · exact keeping_refuse _ _
    · exact keeping_release _ _

/-- One more resize in one of the two counts is trapped only where no word holds it. -/
theorem resizing_count (part : Counters → Nat) (recount : Counters → Nat → Counters)
    (hle : ∀ c, part c ≤ c.resizeMoves + c.resizeInPlace)
    (hone : ∀ c, (recount c (part c + 1)).resizeMoves +
      (recount c (part c + 1)).resizeInPlace = c.resizeMoves + c.resizeInPlace + 1) :
    Resizing b resizes (count fun c => return recount c (← Word.add (part c) 1)) := by
  intro p hp
  have hresizes := hp.resizes_le
  have hpart := hle p.counters
  have hmore := hone p.counters
  simp only [count, Action.bind_apply, Action.get_apply]
  cases hadd : Word.add (part p.counters) 1 with
  | ok k =>
    obtain ⟨-, rfl⟩ := Word.fit_eq_ok_iff.1 hadd
    refine .ok { hp with resizes_le := ?_ }
    dsimp only
    omega
  | error trap =>
    obtain ⟨hmany, -⟩ := Word.fit_eq_error_iff.1 hadd
    exact .trapped (Or.inr (Or.inr (by omega)))

theorem resizing_countMove :
    Resizing b resizes (count fun c => return { c with
      resizeMoves := ← Word.add c.resizeMoves 1 }) :=
  resizing_count Counters.resizeMoves (fun c k => { c with resizeMoves := k })
    (fun _ => Nat.le_add_right _ _) fun _ => Nat.add_right_comm _ _ _

theorem resizing_countInPlace :
    Resizing b resizes (count fun c => return { c with
      resizeInPlace := ← Word.add c.resizeInPlace 1 }) :=
  resizing_count Counters.resizeInPlace (fun c k => { c with resizeInPlace := k })
    (fun _ => Nat.le_add_left _ _) fun _ => (Nat.add_assoc _ _ _).symm

/-- A resize that was counted is logged. -/
theorem resizing_logged {α : Type} {x : PlainM Unit} (hx : Resizing b resizes x) (event : Event)
    (a : α) : Resizing b resizes (x >>= fun _ => logEvent event >>= fun _ => pure a) :=
  hx.bind (fun _ => Guards.seq (.modify fun _ hp => hp.of_eq rfl rfl rfl rfl rfl) fun _ => .pure a)
    fun _ hp => hp

theorem resizing_relocate (ptr current n : Nat) :
    Resizing b resizes (relocate ptr current n) := by
  refine .get_bind fun p _ => ?_
  split
  · exact resizing_of_keeping (.refuse _)
  · refine resizing_bind (keeping_allocate _).attempt ?_
    rintro (cause | dest)
    · exact resizing_of_keeping (keeping_refuse _ _)
    · exact resizing_bind (keeping_free ptr) fun _ => resizing_logged resizing_countMove _ _

theorem resizing_resize (ptr n : Nat) : Resizing b resizes (resize ptr n) := by
  unfold resize
  split
  · exact resizing_of_keeping ((keeping_allocate n).seq fun _ => .pure _)
  · split
    · exact resizing_of_keeping ((keeping_free ptr).seq fun _ => (keeping_logEvent _).seq
        fun _ => .pure _)
    · refine .get_bind fun p _ => resizing_bind (Guards.lift _) fun tag => ?_
      split
      · exact resizing_of_keeping (.refuse _)
      · dsimp only
        split
        · exact resizing_logged resizing_countInPlace _ _
        · exact (resizing_relocate ptr _ n).bind (fun _ => .pure _) fun _ hp => hp

/-! ## Laying out -/

theorem keeping_cleared : Keeping b resizes (modify cleared) :=
  .modify fun p hp =>
    { hp with low_le_prologue := by rintro q ⟨⟩, resizes_le := Nat.zero_le _ }

theorem keeping_firstChunk : Keeping b resizes firstChunk := by
  refine .get_bind fun p hp => (keeping_grow hp.chunk_le).attempt.seq ?_
  rintro (cause | bp)
  · refine Guards.seq (.modify fun q hq => ?_) fun _ => .refuse _
    exact { hq with low_le_prologue := by rintro r ⟨⟩ }
  · exact .get_bind fun q _ => keeping_logEvent _

theorem keeping_init : Keeping b resizes init := by
  refine keeping_cleared.seq fun _ => .get_bind fun p hp => .lift_bind ?_ ?_
  · intro base hfit
    have hround : p.room.size ≤ Word.roundUp p.room.size pairSize := Word.le_roundUp _ (by decide)
    have hbase : b.low ≤ base :=
      Nat.le_trans hp.low_le ((Word.fit_eq_ok_iff.1 hfit).2 ▸ hround)
    refine (keeping_growRegion (Nat.le_add_left _ _)).seq ?_
    rintro (cause | used)
    · exact keeping_refuse _ _
    · refine Guards.seq (.modify fun q hq => { hq with low_le_prologue := ?_ }) fun _ =>
        keeping_firstChunk
      rintro r ⟨⟩
      exact Nat.le_add_right_of_le hbase
  · -- a room that no word counts once it is aligned is too large for a signed word
    intro trap hfit _ _
    have hlarge := (Word.fit_eq_error_iff.1 hfit).1
    have hsize := hp.size_le
    refine Or.inl ?_
    simp only [Word.roundUp, pairSize, wordCount] at hlarge ⊢
    omega

/-! ## Calls -/

/-- A call keeps the bounds, and counts one resize at most. It is trapped only where
it is stuck. Only a reset leaves less in the room. -/
theorem resizing_run {call : Call} (hreset : call = .reset → b.low = 0) :
    Resizing b resizes (run call) := by
  cases call with
  | init => exact resizing_of_keeping (keeping_init.seq fun _ => .pure _)
  | reset =>
    refine resizing_of_keeping (Guards.seq (.modify fun p hp => ?_) fun _ => .pure _)
    exact ⟨hp.config_eq, hp.chunk_le, hp.limit_eq, (hreset rfl).le, Nat.zero_le _, Nat.zero_le _,
      (by rintro q ⟨⟩), Nat.zero_le _⟩
  | allocate n => exact resizing_of_keeping ((keeping_allocate n).seq fun _ => .pure _)
  | free ptr => exact resizing_of_keeping ((keeping_free ptr).seq fun _ => .pure _)
  | resize ptr n => exact resizing_resize ptr n
  | store ptr start bytes =>
    exact resizing_of_keeping (.get_bind fun p _ => (Guards.lift _).seq fun _ => .pure _)

end Plain
end SegregatedFit
