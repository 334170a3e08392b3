-- SUMMARY: Payloads of live pointers: they share no byte, and a call keeps those that it does not release.
import SegregatedFit.Proofs.Client.Invariant

/-!
# Live data

What a client wrote behind a live pointer is its own: no two payloads share a
byte, and none of them has a byte of a tag or of a link (`PayloadsApart`). A call
leaves the payloads alone, but for the block that it frees or moves and the
bytes that it was asked to write (`PayloadsKept`). Main statement:
`Reached.live_data_safe`, for every session that can be reached and every call.
-/
namespace SegregatedFit

open Block

/-- The bytes that a heap keeps for itself: the prologue, the epilogue word, the
tags of the blocks and the links of the rings. -/
def Metadata (m : Memory) (prologue : Nat) (spans : List Span) (rings : Bucket → List Nat)
    (i : Nat) : Prop :=
  (prologueSpan prologue).Covers i ∨ m.size ≤ i + wordSize ∨ (∃ t ∈ spans, t.InTags i) ∨
    FreeLists.LinkBytes rings i

namespace Session

/-- The bytes of the payload at `ptr`. -/
def InPayload (s : Session) (ptr i : Nat) : Prop :=
  ∃ n, s.heap.payloadSize? ptr = some n ∧ ptr ≤ i ∧ i < ptr + n

/-- Whether the call frees the block at `ptr` or moves it away. -/
def Releases (s : Session) (call : Call) (ptr : Nat) : Prop :=
  ∃ answer g, call.run s.heap = .ok answer g ∧ call.Releases answer ptr

/-- The payloads of the live pointers share no byte with one another, nor with
what the heap keeps for itself. -/
structure PayloadsApart (s : Session) : Prop where
  nodup : s.live.Nodup
  sized : ∀ p ∈ s.live, ∃ n, s.heap.payloadSize? p = some n
  aligned : ∀ p ∈ s.live, pairSize ∣ p
  disjoint : ∀ p ∈ s.live, ∀ q ∈ s.live, p ≠ q → ∀ i, s.InPayload p i → ¬ s.InPayload q i
  no_metadata : ∀ prologue, s.heap.prologue = some prologue →
    ∃ spans rings, Consistent s.heap.lists s.heap.memory prologue spans rings ∧
      ∀ p ∈ s.live, ∀ i, s.InPayload p i → ¬ Metadata s.heap.memory prologue spans rings i

/-- The call from `s` to `s'` keeps the payloads that it does not release, and a
write changes no byte outside its payload and no sentinel. -/
structure PayloadsKept (s : Session) (call : Call) (s' : Session) : Prop where
  kept : ∀ q ∈ s.live, ¬ s.Releases call q →
    q ∈ s'.live ∧ s'.heap.payloadSize? q = s.heap.payloadSize? q ∧
      (¬ call.StoresAt q → s'.heap.payload q = s.heap.payload q)
  stored : ∀ ptr, call.StoresAt ptr →
    s'.heap.lists = s.heap.lists ∧ s.heap.memory.Edited s'.heap.memory (s.InPayload ptr)

variable {s s' : Session} {call : Call} {spans : List Span} {rings : Bucket → List Nat}

/-! ## Payloads apart -/

/-- The payload behind the pointer of an allocated block is that of the block. -/
theorem inPayload_iff (h' : s.heap.Arranged spans rings) {u : Span} (hu : u ∈ held spans)
    (i : Nat) : s.InPayload u.offset i ↔ u.InPayload i := by
  have hmin := (h'.row.bounds (mem_held.1 hu).1).2.1
  simp only [Session.InPayload, Heap.payloadSize?_of_held h' hu, Option.some.injEq,
    exists_eq_left', Span.InPayload, Span.stop, payloadSize, pairSize, minBlock] at *
  omega

/-- No byte of the payload of an allocated block is metadata. -/
theorem not_metadata_of_inPayload (h' : s.heap.Arranged spans rings) {u : Span}
    (hu : u ∈ held spans) {i : Nat} (hi : u.InPayload i) :
    ¬ Metadata s.heap.memory (s.heap.base + pairSize) spans rings i := by
  have hmem := (mem_held.1 hu).1
  have hcovers : u.Covers i := .of_inPayload hi
  have hmin : ∀ t ∈ spans, minBlock ≤ t.size := fun t ht => (h'.row.bounds ht).2.1
  rintro (hprologue | hepilogue | ⟨t, ht, htags⟩ | hlink)
  · exact h'.row.prologue_covers hmem hcovers hprologue
  · have hlt := h'.row.covers_lt hmem hcovers
    exact Nat.not_lt.2 hepilogue hlt
  · have hpair : pairSize ≤ t.size := Nat.le_trans (by decide) (hmin t ht)
    have heq := h'.row.eq_of_covers hmem ht hcovers (.of_inTags hpair htags)
    exact Span.not_inTags_of_inPayload hi (heq ▸ htags)
  · have hfree := freeBytes_of_freePayload (h'.indexed.freePayload hmin hlink)
    exact h'.row.not_freeBytes hu hcovers hfree

theorem Owns.payloadsApart (howns : s.Owns spans) (h' : s.heap.Arranged spans rings) :
    s.PayloadsApart := by
  have hoffsets : ((held spans).map Span.offset).Nodup := by
    refine List.Nodup.map_on ?_ h'.nodup_held
    intro u hu t ht hoff
    exact h'.row.eq_of_offset (mem_held.1 hu).1 (mem_held.1 ht).1 hoff
  refine ⟨howns.nodup_iff.2 hoffsets, ?_, ?_, ?_, ?_⟩
  · intro p hp
    obtain ⟨u, hu, rfl⟩ := howns.exists_held hp
    exact ⟨_, Heap.payloadSize?_of_held h' hu⟩
  · intro p hp
    obtain ⟨u, hu, rfl⟩ := howns.exists_held hp
    exact (h'.row.proper u (mem_held.1 hu).1).1
  · intro p hp q hq hne i hpi hqi
    obtain ⟨u, hu, rfl⟩ := howns.exists_held hp
    obtain ⟨t, ht, rfl⟩ := howns.exists_held hq
    rw [inPayload_iff h' hu] at hpi
    rw [inPayload_iff h' ht] at hqi
    exact hne (congrArg Span.offset (h'.row.eq_of_covers (mem_held.1 hu).1 (mem_held.1 ht).1
      (.of_inPayload hpi) (.of_inPayload hqi)))
  · intro prologue hprologue
    rw [h'.prologue_eq] at hprologue
    obtain rfl := Option.some.inj hprologue
    refine ⟨spans, rings, h'.consistent, fun p hp i hi => ?_⟩
    obtain ⟨u, hu, rfl⟩ := howns.exists_held hp
    exact not_metadata_of_inPayload h' hu ((inPayload_iff h' hu i).1 hi)

/-- The payloads are apart in every session between two calls. -/
theorem Sound.payloadsApart (hs : s.Sound) : s.PayloadsApart := by
  rcases hs.state with ⟨hblank, hlive⟩ | ⟨spans, rings, h', howns⟩
  · have hnone : ∀ p, p ∉ s.live := by
      intro p hp
      rw [hlive] at hp
      cases hp
    refine ⟨hlive ▸ List.nodup_nil, fun p hp => (hnone p hp).elim, fun p hp => (hnone p hp).elim,
      fun p hp => (hnone p hp).elim, ?_⟩
    intro prologue hprologue
    rw [hblank.prologue_eq] at hprologue
    cases hprologue
  · exact howns.payloadsApart h'

/-! ## Payloads kept -/

/-- An answered write changes bytes of its payload only. -/
theorem Sound.stored (hs : s.Sound) {ptr start : Nat} {bytes : List UInt8} (hlive : ptr ∈ s.live)
    (hafter : s.after (.store ptr start bytes) = some s') :
    s'.heap.lists = s.heap.lists ∧ s.heap.memory.Edited s'.heap.memory (s.InPayload ptr) := by
  obtain ⟨spans, rings, u, m, h', -, hu, rfl, hedit, hrun⟩ := hs.run_store hlive start bytes
  simp only [Session.after, hrun, Option.some.injEq] at hafter
  subst hafter
  exact ⟨rfl, hedit.mono fun i hi => (inPayload_iff h' hu i).2 hi⟩

/-- A call that does not start over keeps what it does not release. -/
theorem Sound.payloadsKept (hs : s.Sound) (hallows : s.Allows call) (hgoes : ¬ call.Restarts)
    (hafter : s.after call = some s') : s.PayloadsKept call s' := by
  constructor
  · intro q hq hkeep
    rcases hs.run_cases hallows hgoes with
      ⟨cause, events, hrun⟩ | ⟨trap, g, hrun⟩ | ⟨answer, g, hrun, hcontinues⟩
    · -- refused: all but the log is as it was
      obtain ⟨log, hlog, -⟩ := s.heap.loggedAll_eq events
      simp only [Session.after, hrun, hlog, Call.liveRefused_of_not_restarts hgoes,
        Option.some.injEq] at hafter
      subst hafter
      exact ⟨hq, rfl, fun _ => rfl⟩
    · simp only [Session.after, hrun, reduceCtorEq] at hafter
    · simp only [Session.after, hrun, Option.some.injEq] at hafter
      subst hafter
      exact hcontinues.keeps q hq fun hreleases => hkeep ⟨answer, g, hrun, hreleases⟩
  · intro ptr hstores
    obtain ⟨start, bytes, rfl⟩ := hstores
    exact hs.stored hallows hafter

/-- In every session that can be reached, the payloads of the live pointers share
no byte with one another, with a tag or with a link, and every further call that
does not start over keeps those that it neither frees nor moves. -/
theorem Reached.live_data_safe {arena : Arena} {config : Config} (h : Reached arena config s) :
    s.PayloadsApart ∧ ∀ call s', s.Allows call → ¬ call.Restarts → s.after call = some s' →
      s.PayloadsKept call s' :=
  ⟨h.sound.payloadsApart, fun _ _ hallows hgoes hafter =>
    h.sound.payloadsKept hallows hgoes hafter⟩

/-- Freeing one of two blocks, after bytes were written into the other. -/
theorem Reached.live_data_safe_of_freed :
    ∃ s s', Reached {} { chunkSize := 64, logLevel := none } s ∧ s.live = [96, 32] ∧
      s.Allows (.free 32) ∧ ¬ (Call.free 32).Restarts ∧ s.after (.free 32) = some s' ∧
      s'.live = [96] ∧ s.PayloadsApart ∧ s.PayloadsKept (.free 32) s' := by
  have hrun : ((Session.start {} { chunkSize := 64, logLevel := none }).afterAll
      [.init, .allocate 20, .allocate 40, .store 96 0 [7, 8]]).bind (fun s =>
        (s.after (.free 32)).map fun s' => (s.live, s'.live, decide (s.Allows (.free 32)))) =
      some ([96, 32], [96], true) := by
    decide +kernel
  obtain ⟨s, hs, hrest⟩ := Option.bind_eq_some_iff.1 hrun
  obtain ⟨s', hafter, hstate⟩ := Option.map_eq_some_iff.1 hrest
  simp only [Prod.mk.injEq, decide_eq_true_eq] at hstate
  obtain ⟨hlive, hlive', hallows⟩ := hstate
  have hreached := Reached.start.afterAll hs
  have hgoes : ¬ (Call.free 32).Restarts := fun h => h
  obtain ⟨hapart, hkept⟩ := Reached.live_data_safe hreached
  exact ⟨s, s', hreached, hlive, hallows, hgoes, hafter, hlive', hapart,
    hkept _ s' hallows hgoes hafter⟩

end Session
end SegregatedFit
