-- SUMMARY: Which calls are answered and which are refused, with the exact cause of each refusal.
import SegregatedFit.Proofs.Client.Lifecycle

/-!
# Replies

An allocation is refused exactly for the reasons of `Heap.Denies`, and a resize that
moves its block exactly for those of the allocation that it makes, once a word holds
the sizes (`Overflows`). The null pointer and live ones are always freed, and foreign
ones never. No reply shows that a tag or a link was out of bounds. Main statement:
`Reached.replies`, for every session over an arena whose limit and growths a signed
word counts. Only the counts of resizes can run out.
-/
namespace SegregatedFit

open Block

namespace Session

/-- No word holds the size of a block for `n` bytes, or what a move to one asks for. -/
def Overflows (s : Session) (n : Nat) : Prop :=
  wordCount - minBlock < n ∨ wordCount ≤ n * s.heap.config.resizeFactor

/-- The reply to an allocation of `n` bytes. -/
structure AnswersAllocate (s : Session) (n : Nat) : Prop where
  refused_iff : ∀ cause, s.reply (.allocate n) = .refused cause ↔ s.heap.Denies n cause
  answered : (∀ cause, ¬ s.heap.Denies n cause) →
    ∃ p, s.reply (.allocate n) = .answered (some p)

/-- The reply to a resize of the `u` bytes at `p` to `n` bytes. -/
structure AnswersResize (s : Session) (p u n : Nat) : Prop where
  stays_iff : s.heap.counters.resizeInPlace + 1 < wordCount →
    (s.reply (.resize p n) = .answered (some p) ↔ n ≤ u)
  not_refused : n ≤ u → ∀ cause, s.reply (.resize p n) ≠ .refused cause
  overflow_iff : u < n → (s.reply (.resize p n) = .refused (.sizeOverflow n) ↔ s.Overflows n)
  /-- Short of an overflow, the allocation of the new block decides. -/
  refused_iff : u < n → ¬ s.Overflows n → ∀ cause,
    s.reply (.resize p n) = .refused cause ↔
      s.reply (.allocate (n * s.heap.config.resizeFactor)) = .refused cause
  moved : u < n → ¬ s.Overflows n → s.heap.counters.resizeMoves + 1 < wordCount →
    (∀ cause, s.reply (.allocate (n * s.heap.config.resizeFactor)) ≠ .refused cause) →
      ∃ q, q ≠ p ∧ s.reply (.resize p n) = .answered (some q)

/-- The replies that a client hears of the calls that it may make. -/
structure Replies (s : Session) : Prop where
  allocate : ∀ n, s.AnswersAllocate n
  free : ∀ p, p = nullPtr ∨ p ∈ s.live → s.reply (.free p) = .answered none
  resize : ∀ p ∈ s.live, ∃ u, s.heap.payloadSize? p = some u ∧
    ∀ n, 0 < n → s.AnswersResize p u n
  resize_zero : ∀ p ∈ s.live, s.reply (.resize p 0) = .answered none
  resize_null : ∀ n, s.reply (.resize nullPtr n) = s.reply (.allocate n)
  /-- A pointer that is no multiple of the alignment, or outside the heap, is refused. -/
  foreign : ∀ p, p ≠ nullPtr → s.heap.Foreign p →
    s.reply (.free p) = .refused (s.heap.strayCause p) ∧
      ∀ n, s.reply (.resize p n) = .refused (s.heap.strayCause p)
  inside : ∀ call, s.Allows call → ¬ call.Restarts → ∀ offset limit,
    s.reply call ≠ .refused (.outOfBounds offset limit)
  /-- A live pointer is always taken for that of a live block. -/
  known : ∀ p ∈ s.live, ∀ call, (call = .free p ∨ ∃ n, call = .resize p n) → ∀ q,
    s.reply call ≠ .refused (.invalidPointer q) ∧ s.reply call ≠ .refused (.doubleFree q)

variable {arena : Arena} {config : Config} {s : Session} {call : Call} {n : Nat}
variable {spans : List Span} {rings : Bucket → List Nat}

/-! ## From runs to replies -/

theorem reply_of_ok {answer : Option Nat} {g : Heap Arena} (h : call.run s.heap = .ok answer g) :
    s.reply call = .answered answer := by
  unfold reply
  rw [h]

theorem reply_of_refused {cause : HeapError} {g : Heap Arena}
    (h : call.run s.heap = .error (.refused cause) g) : s.reply call = .refused cause := by
  unfold reply
  rw [h]

theorem reply_of_trapped {trap : Trap} {g : Heap Arena}
    (h : call.run s.heap = .error (.trapped trap) g) : s.reply call = .trapped trap := by
  unfold reply
  rw [h]

theorem run_allocate (n : Nat) (h : Heap Arena) :
    Call.run (.allocate n) h =
      match Heap.allocate n h with
      | .ok p g => .ok (some p) g
      | .error failure g => .error failure g := by
  simp only [Call.run, Action.bind_apply]
  cases Heap.allocate n h <;> rfl

theorem run_free (ptr : Nat) (h : Heap Arena) :
    Call.run (.free ptr) h =
      match Heap.free ptr h with
      | .ok _ g => .ok none g
      | .error failure g => .error failure g := by
  simp only [Call.run, Action.bind_apply]
  cases Heap.free ptr h <;> rfl

/-! ## Allocating -/

/-- The heap of a session has the limit of its arena. -/
theorem Reached.limit_eq (h : Reached arena config s) : s.heap.region.limit = arena.limit :=
  h.bounded.limit_eq

/-- The growths are never as many as a word counts, as each took some of the memory. -/
theorem Reached.growCalls_lt (h : Reached arena config s) (h' : s.heap.Arranged spans rings)
    (hgrowths : 2 * arena.growCalls < wordCount) : s.heap.region.growCalls + 1 < wordCount := by
  have hcalls : minBlock * s.heap.region.growCalls ≤
      s.heap.region.memory.size + minBlock * arena.growCalls := h.bounded.growCalls_le
  have hsize := h'.size_lt
  simp only [minBlock, wordCount] at *
  omega

/-- An allocation is denied and refused for that reason, or is not denied and answered. -/
theorem Reached.allocate_cases (h : Reached arena config s) (hlimit : 2 * arena.limit < wordCount)
    (hgrowths : 2 * arena.growCalls < wordCount) (n : Nat) :
    (∃ cause, s.reply (.allocate n) = .refused cause ∧ s.heap.Denies n cause) ∨
    (∃ p, s.reply (.allocate n) = .answered (some p) ∧ ∀ cause, ¬ s.heap.Denies n cause) := by
  have hlimit' : 2 * s.heap.region.limit < wordCount := h.limit_eq ▸ hlimit
  rcases h.sound.state with ⟨hblank, -⟩ | ⟨spans, rings, h', -⟩
  · refine Or.inl ⟨.uninitialized, ?_, .uninitialized ?_⟩
    · rw [reply, run_allocate, Heap.allocate_uninitialized hblank.prologue_eq n]
    · rw [Heap.isInitialized, hblank.prologue_eq]
      rfl
  · have hcalls := h.growCalls_lt h' hgrowths
    rcases Heap.allocate_outcome h' h.sound.config_eq n with
      ⟨cause, events, hrun, -, hdenies⟩ | ⟨trap, g, hrun, -, hwords⟩ |
      ⟨g, size, growths, front, t, back, hrun, hnone, -⟩
    · refine Or.inl ⟨cause, ?_, hdenies.resolve_right (by omega)⟩
      rw [reply, run_allocate, hrun]
    · omega
    · refine Or.inr ⟨t.offset, ?_, hnone⟩
      rw [reply, run_allocate, hrun]

theorem Reached.answersAllocate (h : Reached arena config s)
    (hlimit : 2 * arena.limit < wordCount) (hgrowths : 2 * arena.growCalls < wordCount)
    (n : Nat) : s.AnswersAllocate n := by
  rcases h.allocate_cases hlimit hgrowths n with ⟨cause, hreply, hdenies⟩ | ⟨p, hreply, hnone⟩
  · refine ⟨fun cause' => ?_, fun hnone => (hnone cause hdenies).elim⟩
    rw [hreply, Reply.refused.injEq]
    constructor
    · rintro rfl
      exact hdenies
    · intro hdenies'
      exact hdenies.unique hdenies'
  · refine ⟨fun cause => ?_, fun _ => ⟨p, hreply⟩⟩
    rw [hreply]
    exact iff_of_false nofun (hnone cause)

/-! ## Resizing -/

/-- A resize that the block covers is answered with the same pointer, unless it cannot
be counted. -/
theorem reply_in_place {u : Span} (h' : s.heap.Arranged spans rings) (hu : u ∈ held spans)
    (hn : n ≠ 0) (hfits : n ≤ payloadSize u.size) :
    s.reply (.resize u.offset n) = .answered (some u.offset) ∨
    (∃ trap, s.reply (.resize u.offset n) = .trapped trap) ∧
      wordCount ≤ s.heap.counters.resizeInPlace + 1 := by
  rcases Heap.resize_in_place h' hu hn hfits with ⟨trap, hrun, hfull⟩ | ⟨size, hrun, -⟩
  · exact Or.inr ⟨⟨trap, reply_of_trapped hrun⟩, hfull⟩
  · exact Or.inl (reply_of_ok hrun)

/-- A resize that the block does not cover overflows, or is denied with its allocation,
or is answered with another pointer, unless it cannot be counted. -/
theorem Reached.resize_cases (h : Reached arena config s) (hlimit : 2 * arena.limit < wordCount)
    (hgrowths : 2 * arena.growCalls < wordCount) {u : Span} (h' : s.heap.Arranged spans rings)
    (hu : u ∈ held spans) (hgrows : payloadSize u.size < n) :
    s.reply (.resize u.offset n) = .refused (.sizeOverflow n) ∧ s.Overflows n ∨
    ¬ s.Overflows n ∧
      ((∃ cause, s.reply (.resize u.offset n) = .refused cause ∧
        s.heap.Denies (n * s.heap.config.resizeFactor) cause) ∨
      (∀ cause, ¬ s.heap.Denies (n * s.heap.config.resizeFactor) cause) ∧
        ((∃ q, q ≠ u.offset ∧ s.reply (.resize u.offset n) = .answered (some q)) ∨
        (∃ trap, s.reply (.resize u.offset n) = .trapped trap) ∧
          wordCount ≤ s.heap.counters.resizeMoves + 1)) := by
  have hlimit' : 2 * s.heap.region.limit < wordCount := h.limit_eq ▸ hlimit
  have hcalls := h.growCalls_lt h' hgrowths
  have hoverflows : n ≤ wordCount - minBlock → n * s.heap.config.resizeFactor < wordCount →
      ¬ s.Overflows n := by
    intro hle hlt hover
    rcases hover with hover | hover <;> omega
  rcases Heap.resize_outcome h' h.sound.config_eq hu hgrows with
    ⟨cause, events, hrun, -, ⟨hover, rfl⟩ | ⟨hle, hlt, hdenies⟩⟩ |
    ⟨hle, hlt, hnone, ⟨trap, g, hrun, hwords⟩ | ⟨g, spans', t, hrun, hmoves⟩⟩
  · exact Or.inl ⟨reply_of_refused hrun, hover⟩
  · exact Or.inr ⟨hoverflows hle hlt, Or.inl ⟨cause, reply_of_refused hrun,
      hdenies.resolve_right (by omega)⟩⟩
  · exact Or.inr ⟨hoverflows hle hlt, Or.inr ⟨hnone, Or.inr ⟨⟨trap, reply_of_trapped hrun⟩,
      by omega⟩⟩⟩
  · exact Or.inr ⟨hoverflows hle hlt, Or.inr ⟨hnone, Or.inl ⟨t.offset, hmoves.new u hu,
      reply_of_ok hrun⟩⟩⟩

/-- Short of an overflow, no allocation for a resize overflows for the size of the resize. -/
theorem not_denies_sizeOverflow (hover : ¬ s.Overflows n) :
    ¬ s.heap.Denies (n * s.heap.config.resizeFactor) (.sizeOverflow n) := by
  obtain ⟨cause, hcause⟩ : ∃ cause, cause = HeapError.sizeOverflow n := ⟨_, rfl⟩
  obtain ⟨target, htarget⟩ : ∃ target, target = n * s.heap.config.resizeFactor := ⟨_, rfl⟩
  rw [← hcause, ← htarget]
  intro hdenies
  cases hdenies with
  | tooMuch _ hlt =>
    obtain rfl := HeapError.sizeOverflow.inj hcause
    exact hover (Or.inl hlt)
  | _ => cases hcause

/-- What there is to say of a resize that the block does not cover. -/
theorem AnswersResize.of_grows {p u : Nat} (hgrows : u < n)
    (hleaves : s.reply (.resize p n) ≠ .answered (some p))
    (hoverflow : s.reply (.resize p n) = .refused (.sizeOverflow n) ↔ s.Overflows n)
    (hrefused : ¬ s.Overflows n → ∀ cause, s.reply (.resize p n) = .refused cause ↔
      s.reply (.allocate (n * s.heap.config.resizeFactor)) = .refused cause)
    (hmoved : ¬ s.Overflows n → s.heap.counters.resizeMoves + 1 < wordCount →
      (∀ cause, s.reply (.allocate (n * s.heap.config.resizeFactor)) ≠ .refused cause) →
        ∃ q, q ≠ p ∧ s.reply (.resize p n) = .answered (some q)) :
    s.AnswersResize p u n where
  stays_iff _ := iff_of_false hleaves (Nat.not_le.2 hgrows)
  not_refused hfits := (Nat.not_le.2 hgrows hfits).elim
  overflow_iff _ := hoverflow
  refused_iff _ := hrefused
  moved _ := hmoved

/-- What there is to say of a resize that the block covers. -/
theorem AnswersResize.of_fits {p u : Nat} (hfits : n ≤ u)
    (hreply : s.reply (.resize p n) = .answered (some p) ∨
      (∃ trap, s.reply (.resize p n) = .trapped trap) ∧
        wordCount ≤ s.heap.counters.resizeInPlace + 1) :
    s.AnswersResize p u n where
  stays_iff hroom :=
    iff_of_true (hreply.resolve_right fun hfull => Nat.not_lt.2 hfull.2 hroom) hfits
  not_refused _ cause := by
    rcases hreply with hreply | ⟨⟨trap, hreply⟩, -⟩ <;> simp [hreply]
  overflow_iff hgrows := (Nat.not_lt.2 hfits hgrows).elim
  refused_iff hgrows := (Nat.not_lt.2 hfits hgrows).elim
  moved hgrows := (Nat.not_lt.2 hfits hgrows).elim

theorem Reached.answersResize (h : Reached arena config s) (hlimit : 2 * arena.limit < wordCount)
    (hgrowths : 2 * arena.growCalls < wordCount) {u : Span} (h' : s.heap.Arranged spans rings)
    (hu : u ∈ held spans) (hn : 0 < n) : s.AnswersResize u.offset (payloadSize u.size) n := by
  rcases Nat.lt_or_ge (payloadSize u.size) n with hgrows | hfits
  · have hallocate := h.answersAllocate hlimit hgrowths (n * s.heap.config.resizeFactor)
    rcases h.resize_cases hlimit hgrowths h' hu hgrows with
      ⟨hreply, hover⟩ | ⟨hshort, ⟨cause, hreply, hdenies⟩ | ⟨hnone, ⟨q, hne, hreply⟩ |
        ⟨⟨trap, hreply⟩, hfull⟩⟩⟩
    case inl =>
      exact .of_grows hgrows (by simp [hreply]) (iff_of_true hreply hover)
        (fun hshort => (hshort hover).elim) fun hshort => (hshort hover).elim
    case inr.inl =>
      have hrefused := (hallocate.refused_iff cause).2 hdenies
      have hne : cause ≠ .sizeOverflow n := fun heq =>
        not_denies_sizeOverflow hshort (heq ▸ hdenies)
      refine .of_grows hgrows (by simp [hreply]) (by simp [hreply, hne, hshort]) ?_ ?_
      · intro _ cause'
        rw [hreply, hrefused]
      · intro _ _ hgranted
        exact (hgranted cause hrefused).elim
    case inr.inr.inl =>
      refine .of_grows hgrows (by simpa [hreply] using hne) (by simp [hreply, hshort]) ?_ ?_
      · intro _ cause
        rw [hreply, hallocate.refused_iff]
        exact iff_of_false (by simp) (hnone cause)
      · intro _ _ _
        exact ⟨q, hne, hreply⟩
    case inr.inr.inr =>
      refine .of_grows hgrows (by simp [hreply]) (by simp [hreply, hshort]) ?_ ?_
      · intro _ cause
        rw [hreply, hallocate.refused_iff]
        exact iff_of_false (by simp) (hnone cause)
      · intro _ hroom _
        exact (Nat.not_lt.2 hfull hroom).elim
  · exact .of_fits hfits (reply_in_place h' hu (Nat.ne_zero_of_lt hn) hfits)

/-- A resize of a live block is refused for an overflow, or as an allocation is. -/
theorem AnswersResize.cause_of_refused {p u : Nat} {cause : HeapError}
    (hresize : s.AnswersResize p u n)
    (hallocate : s.AnswersAllocate (n * s.heap.config.resizeFactor))
    (hreply : s.reply (.resize p n) = .refused cause) :
    cause = .sizeOverflow n ∨ s.heap.Denies (n * s.heap.config.resizeFactor) cause := by
  rcases Nat.lt_or_ge u n with hgrows | hfits
  · by_cases hover : s.Overflows n
    · rw [(hresize.overflow_iff hgrows).2 hover] at hreply
      exact Or.inl (Reply.refused.inj hreply).symm
    · have hrefused := (hresize.refused_iff hgrows hover cause).1 hreply
      exact Or.inr ((hallocate.refused_iff cause).1 hrefused)
  · exact (hresize.not_refused hfits cause hreply).elim

/-! ## All calls -/

theorem Sound.reply_free (hs : s.Sound) {p : Nat} (hp : p = nullPtr ∨ p ∈ s.live) :
    s.reply (.free p) = .answered none := by
  rcases hp with rfl | hlive
  · rw [reply, run_free, Heap.free_null hs.base_le]
  · obtain ⟨spans, rings, u, h', -, hu, rfl⟩ := hs.exists_held hlive
    obtain ⟨g, spans', hrun, -⟩ := Heap.free_of_held h' hu
    rw [reply, run_free, hrun]

theorem Sound.reply_resize_zero (hs : s.Sound) {p : Nat} (hlive : p ∈ s.live) :
    s.reply (.resize p 0) = .answered none := by
  obtain ⟨spans, rings, u, h', -, hu, rfl⟩ := hs.exists_held hlive
  obtain ⟨g, spans', -, hrun, -⟩ := Heap.resize_zero_of_held h' hu
  exact reply_of_ok hrun

theorem reply_resize_null (s : Session) (n : Nat) :
    s.reply (.resize nullPtr n) = s.reply (.allocate n) := by
  have hrun : Call.run (.resize nullPtr n) s.heap = Call.run (.allocate n) s.heap := by
    rw [run_allocate]
    exact Heap.resize_null n s.heap
  unfold reply
  rw [hrun]

theorem Sound.reply_foreign (hs : s.Sound) {p : Nat} (hnull : p ≠ nullPtr)
    (hforeign : s.heap.Foreign p) :
    s.reply (.free p) = .refused (s.heap.strayCause p) ∧
      ∀ n, s.reply (.resize p n) = .refused (s.heap.strayCause p) := by
  have hrejects := hs.rejects hforeign hnull
  constructor
  · obtain ⟨events, hrun⟩ := hrejects.free_refused
    rw [reply, run_free, hrun]
  · intro n
    obtain ⟨events, hrun⟩ := hrejects.resize_refused n
    exact reply_of_refused hrun

/-- A resize of a live pointer to nothing or something is answered with nothing, or refused
for an overflow, or as an allocation is. -/
theorem Reached.cause_of_resize (h : Reached arena config s) (hlimit : 2 * arena.limit < wordCount)
    (hgrowths : 2 * arena.growCalls < wordCount) {p : Nat} (hp : p ∈ s.live) {cause : HeapError}
    (hreply : s.reply (.resize p n) = .refused cause) :
    cause = .sizeOverflow n ∨ ∃ k, s.heap.Denies k cause := by
  rcases Nat.eq_zero_or_pos n with rfl | hn
  · rw [h.sound.reply_resize_zero hp] at hreply
    cases hreply
  · obtain ⟨spans, rings, u, h', -, hu, rfl⟩ := h.sound.exists_held hp
    have hallocate := h.answersAllocate hlimit hgrowths (n * s.heap.config.resizeFactor)
    have hcause := (h.answersResize hlimit hgrowths h' hu hn).cause_of_refused hallocate hreply
    exact hcause.imp_right fun hdenies => ⟨_, hdenies⟩

/-- The calls that do not start over are refused for the reasons of an allocation, for an
overflow, or for a pointer that is foreign. -/
theorem Reached.cause_of_refused (h : Reached arena config s)
    (hlimit : 2 * arena.limit < wordCount) (hgrowths : 2 * arena.growCalls < wordCount)
    (hallows : s.Allows call) (hgoes : ¬ call.Restarts) {cause : HeapError}
    (hreply : s.reply call = .refused cause) :
    (∃ k, cause = .sizeOverflow k ∨ s.heap.Denies k cause) ∨ ∃ p, cause = s.heap.strayCause p := by
  have hs := h.sound
  cases call with
  | init => exact (hgoes trivial).elim
  | reset => exact (hgoes trivial).elim
  | allocate n =>
    have hdenies := ((h.answersAllocate hlimit hgrowths n).refused_iff cause).1 hreply
    exact Or.inl ⟨n, Or.inr hdenies⟩
  | free p =>
    by_cases hnull : p = nullPtr
    · rw [hs.reply_free (Or.inl hnull)] at hreply
      cases hreply
    · rcases hallows.resolve_left hnull with hlive | hforeign
      · rw [hs.reply_free (Or.inr hlive)] at hreply
        cases hreply
      · rw [(hs.reply_foreign hnull hforeign).1] at hreply
        exact Or.inr ⟨p, (Reply.refused.inj hreply).symm⟩
  | resize p n =>
    by_cases hnull : p = nullPtr
    · rw [hnull, reply_resize_null] at hreply
      have hdenies := ((h.answersAllocate hlimit hgrowths n).refused_iff cause).1 hreply
      exact Or.inl ⟨n, Or.inr hdenies⟩
    · rcases hallows.resolve_left hnull with hlive | hforeign
      · rcases h.cause_of_resize hlimit hgrowths hlive hreply with hover | ⟨k, hdenies⟩
        · exact Or.inl ⟨n, Or.inl hover⟩
        · exact Or.inl ⟨k, Or.inr hdenies⟩
      · rw [(hs.reply_foreign hnull hforeign).2 n] at hreply
        exact Or.inr ⟨p, (Reply.refused.inj hreply).symm⟩
  | store p start bytes =>
    obtain ⟨-, -, -, m, -, -, -, -, -, hrun⟩ := hs.run_store hallows start bytes
    rw [reply, hrun] at hreply
    cases hreply

/-- In every session over an arena whose limit and growths a signed word counts, an
allocation is refused exactly for the reasons for which it is denied, and a resize of a
live block exactly for an overflow or as the allocation that it makes. Live pointers and
null are always freed, foreign ones never, and nothing is refused for any other reason. -/
theorem Reached.replies (h : Reached arena config s) (hlimit : 2 * arena.limit < wordCount)
    (hgrowths : 2 * arena.growCalls < wordCount) : s.Replies where
  allocate n := h.answersAllocate hlimit hgrowths n
  free p hp := h.sound.reply_free hp
  resize p hp := by
    obtain ⟨spans, rings, u, h', -, hu, rfl⟩ := h.sound.exists_held hp
    exact ⟨_, Heap.payloadSize?_of_held h' hu, fun n hn => h.answersResize hlimit hgrowths h' hu hn⟩
  resize_zero p hp := h.sound.reply_resize_zero hp
  resize_null n := reply_resize_null s n
  foreign p hnull hforeign := h.sound.reply_foreign hnull hforeign
  inside call hallows hgoes offset limit hreply := by
    rcases h.cause_of_refused hlimit hgrowths hallows hgoes hreply with
      ⟨k, hover | hdenies⟩ | ⟨p, hstray⟩
    · cases hover
    · cases hdenies
    · rw [Heap.strayCause] at hstray
      split at hstray <;> cases hstray
  known p hp call hcall q := by
    rcases hcall with rfl | ⟨n, rfl⟩
    · simp [h.sound.reply_free (Or.inr hp)]
    · constructor <;>
      · intro hreply
        rcases h.cause_of_resize hlimit hgrowths hp hreply with hover | ⟨k, hdenies⟩
        · cases hover
        · cases hdenies

/-- An arena of 160 bytes has no room for a second chunk. -/
theorem Reached.replies_of_small_arena :
    ∃ s, Reached { limit := 160 } { chunkSize := 64, logLevel := none } s ∧ s.live = [32] ∧
      s.Replies ∧ s.heap.Denies 100 (.arena (.exhausted 128 96 160)) := by
  have hrun : ((Session.start { limit := 160 } { chunkSize := 64, logLevel := none }).afterAll
      [.init, .allocate 20]).map (fun s => (s.live, s.reply (.allocate 100))) =
        some ([32], .refused (.arena (.exhausted 128 96 160))) := by
    decide +kernel
  obtain ⟨s, hs, hstate⟩ := Option.map_eq_some_iff.1 hrun
  obtain ⟨hlive, hrefused⟩ := Prod.mk.injEq .. ▸ hstate
  have hreached := Reached.start.afterAll hs
  have hreplies := Reached.replies hreached (by decide) (by decide)
  exact ⟨s, hreached, hlive, hreplies, ((hreplies.allocate 100).refused_iff _).1 hrefused⟩

end Session
end SegregatedFit
