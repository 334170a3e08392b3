-- SUMMARY: Two clients that write different bytes into their payloads see the same of their heaps.
import SegregatedFit.Proofs.Heap.Figures
import SegregatedFit.Proofs.Plain.Sessions

/-!
# What payloads cannot tell

Two clients make the same calls on heaps that began alike, but for what they
write into their payloads. Both heaps show the same plain heap after each call
(`Shared`), so everything that a client can see of one heap it sees of the other:
answers and refusals, live pointers, figures, blocks, rings, audit and log. Main
statement: `Paired.indistinct`.
-/
namespace SegregatedFit

open Block

/-- The two calls are the same, or they write into the same payload. -/
inductive Call.Alike : Call → Call → Prop
  | same (call : Call) : Alike call call
  | store (ptr start start' : Nat) (bytes bytes' : List UInt8) :
    Alike (.store ptr start bytes) (.store ptr start' bytes')

namespace Session

/-- Two sessions that began alike, after calls that differ in what they write into
payloads at most. -/
inductive Paired (arena : Arena) (config : Config) : Session → Session → Prop
  | start : Paired arena config (start arena config) (start arena config)
  | step {s s' t t' : Session} {call call' : Call} :
    Paired arena config s t → call.Alike call' → s.Allows call →
      s.after call = some s' → t.after call' = some t' → Paired arena config s' t'

/-- The two clients see the same, and so do audits of their heaps. -/
structure Indistinct (s t : Session) : Prop where
  live_eq : t.live = s.live
  prologue_eq : t.heap.prologue = s.heap.prologue
  memory_size_eq : t.heap.memory.size = s.heap.memory.size
  /-- The sentinels of the buckets, and how many blocks there are in all rings. -/
  lists_eq : t.heap.lists = s.heap.lists
  /-- The same blocks in the same order, and the same rings. -/
  same_blocks : ∀ prologue, s.heap.prologue = some prologue →
    ∃ spans rings, Consistent s.heap.lists s.heap.memory prologue spans rings ∧
      Consistent t.heap.lists t.heap.memory prologue spans rings
  stats_eq : ∃ stats, s.heap.stats = .ok stats ∧ t.heap.stats = .ok stats
  audit_eq : ∃ report, s.heap.audit = .ok report ∧ t.heap.audit = .ok report
  log_eq : t.heap.log = s.heap.log

/-- Two sound sessions with the same live pointers, whose heaps show one plain heap. -/
structure Shared (s t : Session) (p : Plain) : Prop where
  sound_left : s.Sound
  sound_right : t.Sound
  shows_left : s.heap.Shows p
  shows_right : t.heap.Shows p
  live_eq : t.live = s.live

variable {arena : Arena} {config : Config} {s s' t t' : Session} {p : Plain} {call call' : Call}

/-! ## One pair of calls -/

/-- What is written into payloads has no part in the call on a plain heap. -/
theorem plain_run_alike (halike : call.Alike call') (p : Plain) :
    Plain.run call' p = Plain.run call p := by
  cases halike <;> rfl

theorem liveAfter_alike (halike : call.Alike call') (live : List Nat) (answer : Option Nat) :
    call'.liveAfter live answer = call.liveAfter live answer := by
  cases halike <;> rfl

theorem liveRefused_alike (halike : call.Alike call') (live : List Nat) :
    call'.liveRefused live = call.liveRefused live := by
  cases halike <;> rfl

/-- What one client may call the other may call as well. -/
theorem Shared.allows (hst : s.Shared t p) (halike : call.Alike call') (hallows : s.Allows call) :
    t.Allows call' := by
  have hlive := hst.live_eq
  have hforeign : ∀ ptr, s.heap.Foreign ptr → t.heap.Foreign ptr := by
    intro ptr hptr
    have hprologue := hst.shows_right.prologue_eq.trans hst.shows_left.prologue_eq.symm
    have hsize := congrArg Room.size (hst.shows_right.room_eq.trans hst.shows_left.room_eq.symm)
    change t.heap.region.memory.size = s.heap.region.memory.size at hsize
    rwa [Heap.Foreign, hprologue, hsize]
  cases halike with
  | same =>
    cases call with
    | init => trivial
    | reset => trivial
    | allocate n => trivial
    | free ptr => exact hallows.imp_right (Or.imp (fun h => hlive ▸ h) (hforeign ptr))
    | resize ptr n => exact hallows.imp_right (Or.imp (fun h => hlive ▸ h) (hforeign ptr))
    | store ptr start bytes => exact (hlive ▸ hallows : ptr ∈ t.live)
  | store ptr start start' bytes bytes' => exact (hlive ▸ hallows : ptr ∈ t.live)

/-- Both calls end as the one call on the plain heap does. -/
theorem Shared.run_shows (hst : s.Shared t p) (halike : call.Alike call')
    (hallows : s.Allows call) :
    Agree (fun _ => Heap.Shows) Heap.Shows (call.run s.heap) (Plain.run call p) ∧
      Agree (fun _ => Heap.Shows) Heap.Shows (call'.run t.heap) (Plain.run call p) := by
  have hright := hst.sound_right.run_shows hst.shows_right (hst.allows halike hallows)
  rw [plain_run_alike halike] at hright
  exact ⟨hst.sound_left.run_shows hst.shows_left hallows, hright⟩

/-- Both clients hear the same. -/
theorem Shared.reply_eq (hst : s.Shared t p) (halike : call.Alike call')
    (hallows : s.Allows call) : t.reply call' = s.reply call := by
  obtain ⟨hleft, hright⟩ := hst.run_shows halike hallows
  unfold reply
  cases hplain : Plain.run call p with
  | ok answer q =>
    rw [hplain] at hleft hright
    obtain ⟨g, hg, -⟩ := hleft.exists_of_ok
    obtain ⟨g', hg', -⟩ := hright.exists_of_ok
    rw [hg, hg']
  | error failure q =>
    rw [hplain] at hleft hright
    obtain ⟨g, hg, -⟩ := hleft.exists_of_error
    obtain ⟨g', hg', -⟩ := hright.exists_of_error
    rw [hg, hg']
    cases failure <;> rfl

/-- After the calls, both heaps show one plain heap again. -/
theorem Shared.step (hst : s.Shared t p) (halike : call.Alike call') (hallows : s.Allows call)
    (hleft : s.after call = some s') (hright : t.after call' = some t') :
    ∃ q, s'.Shared t' q := by
  have hsound := hst.sound_left.after hallows hleft
  have hsound' := hst.sound_right.after (hst.allows halike hallows) hright
  obtain ⟨hrun, hrun'⟩ := hst.run_shows halike hallows
  unfold after at hleft hright
  cases hplain : Plain.run call p with
  | ok answer q =>
    rw [hplain] at hrun hrun'
    obtain ⟨g, hg, hq⟩ := hrun.exists_of_ok
    obtain ⟨g', hg', hq'⟩ := hrun'.exists_of_ok
    rw [hg] at hleft
    rw [hg'] at hright
    cases hleft
    cases hright
    exact ⟨q, hsound, hsound', hq, hq',
      hst.live_eq ▸ liveAfter_alike halike t.live answer⟩
  | error failure q =>
    rw [hplain] at hrun hrun'
    obtain ⟨g, hg, hq⟩ := hrun.exists_of_error
    obtain ⟨g', hg', hq'⟩ := hrun'.exists_of_error
    cases failure with
    | refused cause =>
      rw [hg] at hleft
      rw [hg'] at hright
      cases hleft
      cases hright
      exact ⟨q, hsound, hsound', hq, hq', hst.live_eq ▸ liveRefused_alike halike t.live⟩
    | trapped trap =>
      rw [hg] at hleft
      cases hleft

/-! ## Runs -/

/-- The two heaps of paired sessions show one plain heap. -/
theorem Paired.exists_shared (h : Paired arena config s t) : ∃ p, s.Shared t p := by
  induction h with
  | start =>
    have hsound : (Session.start arena config).Sound := Reached.start.sound
    obtain ⟨p, hp⟩ := hsound.exists_shows
    exact ⟨p, hsound, hsound, hp, hp, rfl⟩
  | step _ halike hallows hleft hright ih =>
    obtain ⟨p, hst⟩ := ih
    exact hst.step halike hallows hleft hright

theorem Paired.afterAll {calls calls' : List Call} (h : Paired arena config s t)
    (halike : List.Forall₂ Call.Alike calls calls') (hleft : s.afterAll calls = some s')
    (hright : t.afterAll calls' = some t') : Paired arena config s' t' := by
  induction halike generalizing s t with
  | nil =>
    cases hleft
    cases hright
    exact h
  | cons hcall _ ih =>
    obtain ⟨hallows, s₁, hs₁, hleft⟩ := afterAll_cons_iff.1 hleft
    obtain ⟨-, t₁, ht₁, hright⟩ := afterAll_cons_iff.1 hright
    exact ih (h.step hcall hallows hs₁ ht₁) hleft hright

/-- Heaps that show one plain heap look the same. -/
theorem Shared.look_alike (hst : s.Shared t p) : s.Indistinct t := by
  have hprologue := hst.shows_right.prologue_eq.trans hst.shows_left.prologue_eq.symm
  have hcounters := hst.shows_right.counters_eq.trans hst.shows_left.counters_eq.symm
  have hsize : t.heap.region.memory.size = s.heap.region.memory.size :=
    congrArg Room.size (hst.shows_right.room_eq.trans hst.shows_left.room_eq.symm)
  have hlog : t.heap.log = s.heap.log :=
    congrArg Outline.log (hst.shows_right.outline_eq.trans hst.shows_left.outline_eq.symm)
  by_cases hp : p.prologue = none
  · have hs := hst.shows_left.blank hp
    have ht := hst.shows_right.blank hp
    refine ⟨hst.live_eq, hprologue, hsize, ht.lists_eq.trans hs.lists_eq.symm, ?_,
      ⟨_, hs.stats_eq, ht.stats_eq⟩, ⟨_, hs.audit_eq, ht.audit_eq⟩, hlog⟩
    intro prologue hsome
    rw [hs.prologue_eq] at hsome
    cases hsome
  · have hs := (hst.shows_left.laidOut hp).arranged
    have ht := (hst.shows_right.laidOut hp).arranged
    have hstats := ht.stats_eq
    rw [hcounters] at hstats
    have haudit := ht.audit_eq
    rw [hsize] at haudit
    refine ⟨hst.live_eq, hprologue, hsize, hs.indexed.lists_eq ht.indexed, ?_,
      ⟨_, hs.stats_eq, hstats⟩, ⟨_, hs.audit_eq, haudit⟩, hlog⟩
    intro prologue hsome
    have hsome' := hprologue.trans hsome
    rw [hs.prologue_eq] at hsome
    rw [ht.prologue_eq] at hsome'
    exact ⟨p.spans, p.rings, Option.some.inj hsome ▸ hs.consistent,
      Option.some.inj hsome' ▸ ht.consistent⟩

/-- What clients write into their payloads has no effect on anything else: the next
call of one may be made by the other as well and gets the same reply. -/
theorem Paired.indistinct (h : Paired arena config s t) :
    s.Indistinct t ∧ ∀ call call', call.Alike call' → s.Allows call →
      t.Allows call' ∧ t.reply call' = s.reply call := by
  obtain ⟨p, hst⟩ := h.exists_shared
  exact ⟨hst.look_alike, fun call call' halike hallows =>
    ⟨hst.allows halike hallows, hst.reply_eq halike hallows⟩⟩

/-- Two clients that wrote different bytes into the block at 32. -/
theorem Paired.indistinct_of_stored :
    ∃ s t, Paired {} { chunkSize := 64, logLevel := some .trace } s t ∧
      s.heap.memory.byteAt 32 = 7 ∧ t.heap.memory.byteAt 32 = 8 ∧ s.Indistinct t ∧
      ∀ call call', call.Alike call' → s.Allows call →
        t.Allows call' ∧ t.reply call' = s.reply call := by
  have hleft : ((Session.start {} { chunkSize := 64, logLevel := some .trace }).afterAll
      [.init, .allocate 20, .store 32 0 [7]]).map (fun s => s.heap.memory.byteAt 32) =
      some 7 := by
    decide +kernel
  have hright : ((Session.start {} { chunkSize := 64, logLevel := some .trace }).afterAll
      [.init, .allocate 20, .store 32 0 [8]]).map (fun s => s.heap.memory.byteAt 32) =
      some 8 := by
    decide +kernel
  obtain ⟨s, hs, hbyte⟩ := Option.map_eq_some_iff.1 hleft
  obtain ⟨t, ht, hbyte'⟩ := Option.map_eq_some_iff.1 hright
  have hpaired : Paired {} { chunkSize := 64, logLevel := some .trace } s t :=
    Paired.start.afterAll (.cons (.same _) (.cons (.same _) (.cons (.store ..) .nil))) hs ht
  exact ⟨s, t, hpaired, hbyte, hbyte', Paired.indistinct hpaired⟩

end Session
end SegregatedFit
