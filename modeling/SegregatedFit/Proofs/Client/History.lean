-- SUMMARY: Clients at other log levels see the same; their records differ by what is left out.
import SegregatedFit.Audit.Heap
import SegregatedFit.Proofs.Heap.Logging
import SegregatedFit.Text.Hex

/-!
# Histories

A history is a session together with the records that were drained from its log.
Two histories of the same deeds at different levels run `Abreast`: replies, bytes,
figures and audits are the same after every deed, and beside a history that
captures everything the other one captures what is severe enough, numbered anew
from one on (`Projected`). Main statement: `Abreast.projection`.
-/
namespace SegregatedFit

/-! ## Numbers of records -/

namespace Record

/-- The records with numbers from one on, as many as words go. -/
def renumbered (records : List Record) : List Record :=
  records.mapIdx fun i r => { r with id := (i + 1) % wordCount }

/-- Whether the record is severe enough for the level. -/
def isSevere (level : Option Level) (r : Record) : Bool := level.any (· ≤ r.event.level)

@[simp] theorem length_renumbered (records : List Record) :
    (renumbered records).length = records.length :=
  List.length_mapIdx

theorem renumbered_concat (records : List Record) (r : Record) :
    renumbered (records ++ [r]) =
      renumbered records ++ [{ r with id := (records.length + 1) % wordCount }] :=
  List.mapIdx_concat

/-- As long as a word counts the records, their numbers are their places. -/
theorem renumbered_of_lt {records : List Record} (h : records.length < wordCount) :
    renumbered records = records.mapIdx fun i r => { r with id := i + 1 } := by
  refine List.mapIdx_eq_mapIdx_iff.2 fun i hi => ?_
  rw [Nat.mod_eq_of_lt (by omega)]

/-- A record is named after its operation, and its number is written in exactly
sixteen digits. -/
theorem exists_traceId {r : Record} (h : r.id < wordCount) :
    ∃ digits : List Nat,
      r.traceId = "segalloc::heap::" ++ r.event.symbol ++ "::" ++
        String.ofList (digits.map Nat.digitChar) ∧
      digits.length = 16 ∧ (∀ d ∈ digits, d < 16) ∧ Text.ofHexDigits digits = r.id := by
  have hlength : (Nat.toDigits 16 r.id).length ≤ 16 :=
    (Nat.length_toDigits_le_iff (by decide) (by decide)).2 h
  obtain ⟨digits, htext, hdigits⟩ := Text.exists_hexPadded hlength
  refine ⟨digits, ?_, hdigits⟩
  rw [← htext]
  rfl

end Record

namespace Log

/-- Behind what was taken out of both, the second log has the records of the first one
that are severe enough, numbered anew; the first one keeps everything. -/
structure Projected (level : Option Level) (taken taken' : List Record) (log log' : Log) :
    Prop where
  threshold_eq : log.threshold = some .trace
  threshold_eq' : log'.threshold = level
  captured_eq : taken' ++ log'.records.toList =
    Record.renumbered ((taken ++ log.records.toList).filter (Record.isSevere level))
  nextId_eq : log'.nextId = ((taken' ++ log'.records.toList).length + 1) % wordCount

variable {level : Option Level} {taken taken' : List Record} {log log' : Log}

theorem keeps_eq_any (log : Log) (l : Level) : log.keeps l = log.threshold.any (· ≤ l) := by
  unfold keeps
  cases log.threshold <;> rfl

theorem record_of_keeps {event : Event} (h : log.keeps event.level = true)
    (snapshot : Snapshot) :
    log.record event snapshot = { log with
      nextId := Word.wrapAdd log.nextId 1
      records := log.records.push ⟨log.nextId, event, snapshot⟩ } :=
  if_pos h

/-- Both logs are given one event: the first keeps it, the second if it is severe enough. -/
theorem Projected.record (h : Projected level taken taken' log log') (event : Event)
    (snapshot : Snapshot) :
    Projected level taken taken' (log.record event snapshot) (log'.record event snapshot) := by
  have hfirst : log.keeps event.level = true := by
    rw [keeps_eq_any, h.threshold_eq]
    exact decide_eq_true (Level.trace_le event.level)
  obtain ⟨r, hr⟩ : ∃ r : Record, r = ⟨log.nextId, event, snapshot⟩ := ⟨_, rfl⟩
  have hcaptured : taken ++ (log.record event snapshot).records.toList =
      (taken ++ log.records.toList) ++ [r] := by
    rw [record_of_keeps hfirst, Array.toList_push, ← List.append_assoc, hr]
  have hsevere : Record.isSevere level r = log'.keeps event.level := by
    rw [keeps_eq_any, h.threshold_eq', Record.isSevere, hr]
  refine ⟨(threshold_record ..).trans h.threshold_eq, (threshold_record ..).trans h.threshold_eq',
    ?_, ?_⟩
  · rw [hcaptured, List.filter_append]
    cases hkeeps : log'.keeps event.level with
    | true =>
      have hkept : [r].filter (Record.isSevere level) = [r] := by simp [hsevere, hkeeps]
      have hlength := congrArg List.length h.captured_eq
      rw [Record.length_renumbered] at hlength
      rw [record_of_keeps hkeeps, Array.toList_push, ← List.append_assoc, hkept,
        Record.renumbered_concat, ← h.captured_eq, ← hlength, ← h.nextId_eq, hr]
    | false =>
      have hleft : [r].filter (Record.isSevere level) = [] := by simp [hsevere, hkeeps]
      rw [record_of_not_keeps hkeeps, hleft, List.append_nil, h.captured_eq]
  · cases hkeeps : log'.keeps event.level with
    | true =>
      rw [record_of_keeps hkeeps, Array.toList_push, ← List.append_assoc, List.length_append,
        h.nextId_eq, Word.wrapAdd, Nat.mod_add_mod]
      rfl
    | false => rw [record_of_not_keeps hkeeps, h.nextId_eq]

theorem Projected.drained (h : Projected level taken taken' log log') :
    Projected level (taken ++ log.records.toList) (taken' ++ log'.records.toList)
      log.drained log'.drained := by
  refine ⟨h.threshold_eq, h.threshold_eq', ?_, ?_⟩
  · simpa [Log.drained] using h.captured_eq
  · simpa [Log.drained] using h.nextId_eq

end Log

/-! ## Histories -/

/-- What a client does: a call, or taking the records out of the log. -/
inductive Deed where
  | call (call : Call)
  | drain
  deriving DecidableEq, Repr

/-- A session, and the records that were drained from its log. -/
structure History where
  session : Session
  drained : List Record

namespace History

def start (arena : Arena) (config : Config) : History := ⟨.start arena config, []⟩

abbrev heap (s : History) : Heap Arena := s.session.heap

/-- All records that were captured, in order: those drained, then those in the log. -/
def captured (s : History) : List Record := s.drained ++ s.heap.log.records.toList

/-- The history after the deed, unless a call is trapped. -/
def after (s : History) : Deed → Option History
  | .call call => (s.session.after call).map (⟨·, s.drained⟩)
  | .drain => some ⟨⟨{ s.heap with log := s.heap.log.drained }, s.session.live⟩, s.captured⟩

/-- Two histories of the same deeds, over one arena and with settings that differ in
their levels only. The calls may be any at all. -/
inductive Abreast (arena : Arena) (config : Config) (level level' : Option Level) :
    History → History → Prop
  | start : Abreast arena config level level' (start arena (config.withLogLevel level))
      (start arena (config.withLogLevel level'))
  | step {s s' t t' : History} {deed : Deed} :
    Abreast arena config level level' s t → s.after deed = some s' → t.after deed = some t' →
      Abreast arena config level level' s' t'

/-- But for their logs, the two heaps are the same. -/
structure Alike (s t : History) : Prop where
  live_eq : t.session.live = s.session.live
  /-- The same bytes, limit and number of growths. -/
  region_eq : t.heap.region = s.heap.region
  lists_eq : t.heap.lists = s.heap.lists
  prologue_eq : t.heap.prologue = s.heap.prologue
  counters_eq : t.heap.counters = s.heap.counters
  stats_eq : t.heap.stats = s.heap.stats
  audit_eq : t.heap.audit = s.heap.audit

/-- The second history captured what is severe enough for its level and nothing else,
under numbers that go from one on over its whole life. -/
structure Projects (level : Option Level) (s t : History) : Prop where
  /-- As long as a word counts the records, all but the numbers is the same. -/
  captured_eq : t.captured.length < wordCount →
    t.captured = (s.captured.filter (Record.isSevere level)).mapIdx
      fun i r => { r with id := i + 1 }
  /-- A record is named after its operation and its number in sixteen digits. -/
  named : t.captured.length < wordCount → ∀ r ∈ t.captured, ∃ digits : List Nat,
    r.traceId = "segalloc::heap::" ++ r.event.symbol ++ "::" ++
      String.ofList (digits.map Nat.digitChar) ∧
    digits.length = 16 ∧ (∀ d ∈ digits, d < 16) ∧ Text.ofHexDigits digits = r.id
  captured_eq_nil : level = none → t.captured = []

/-- What holds of two histories that run abreast, the first of which keeps everything
if its level is the lowest. -/
structure Paced (level level' : Option Level) (s t : History) : Prop where
  live_eq : t.session.live = s.session.live
  twins : Heap.Twins (fun log log' => level = some .trace →
    Log.Projected level' s.drained t.drained log log') 0 s.heap t.heap

variable {arena : Arena} {config : Config} {level level' : Option Level} {s s' t t' : History}

/-! ## One deed -/

theorem apart_projected (drained drained' : List Record) :
    Log.Apart fun log log' => level = some .trace →
      Log.Projected level' drained drained' log log' :=
  fun _ _ event snapshot h hlevel => (h hlevel).record event snapshot

/-- A call ends alike in both. -/
theorem Paced.agree_run (h : s.Paced level level' t) (call : Call) :
    Agree (fun _ => Heap.Twins (fun log log' => level = some .trace →
        Log.Projected level' s.drained t.drained log log') 0)
      (Heap.Twins (fun log log' => level = some .trace →
        Log.Projected level' s.drained t.drained log log') 0)
      (call.run s.heap) (call.run t.heap) :=
  Heap.agrees_run (apart_projected _ _) call _ _ h.twins

theorem Paced.reply_eq (h : s.Paced level level' t) (call : Call) :
    t.session.reply call = s.session.reply call := by
  have hrun := h.agree_run call
  unfold Session.reply
  generalize call.run s.heap = r at hrun ⊢
  generalize call.run t.heap = r' at hrun ⊢
  cases hrun with
  | ok => rfl
  | @error failure => cases failure <;> rfl

theorem Paced.call (h : s.Paced level level' t) {call : Call}
    (hs : s.after (.call call) = some s') (ht : t.after (.call call) = some t') :
    s'.Paced level level' t' := by
  have hrun := h.agree_run call
  have hlive := h.live_eq
  simp only [after, Session.after] at hs ht
  generalize call.run s.heap = r at hrun hs
  generalize call.run t.heap = r' at hrun ht
  cases hrun with
  | ok htwins =>
    cases hs
    cases ht
    exact ⟨congrArg (call.liveAfter · _) hlive, htwins⟩
  | @error failure _ _ htwins =>
    cases failure with
    | refused cause =>
      cases hs
      cases ht
      exact ⟨congrArg call.liveRefused hlive, htwins⟩
    | trapped trap => cases hs

/-- The drained records stay before those that are still to come. -/
theorem Paced.drain (h : s.Paced level level' t) (hs : s.after .drain = some s')
    (ht : t.after .drain = some t') : s'.Paced level level' t' := by
  obtain ⟨l, log, hheap, hlog, hlow, hbase⟩ := h.twins
  cases hs
  cases ht
  refine ⟨h.live_eq, l, log.drained, ?_, fun hlevel => ?_, hlow, hbase⟩
  · rw [hheap]
    rfl
  · have hprojected := (hlog hlevel).drained
    have hcaptured : t.captured = t.drained ++ log.records.toList := by
      rw [captured, hheap]
      rfl
    rw [hcaptured]
    exact hprojected

theorem Paced.after (h : s.Paced level level' t) {deed : Deed} (hs : s.after deed = some s')
    (ht : t.after deed = some t') : s'.Paced level level' t' := by
  cases deed with
  | call call => exact h.call hs ht
  | drain => exact h.drain hs ht

/-! ## Runs -/

theorem paced_start : (start arena (config.withLogLevel level)).Paced level level'
    (start arena (config.withLogLevel level')) := by
  refine ⟨rfl, level', { threshold := level' }, rfl, ?_, Nat.zero_le _, by rintro ⟨⟩⟩
  rintro rfl
  exact ⟨rfl, rfl, rfl, rfl⟩

theorem Abreast.paced (h : Abreast arena config level level' s t) : s.Paced level level' t := by
  induction h with
  | start => exact paced_start
  | step _ hs ht ih => exact ih.after hs ht

theorem Paced.alike (h : s.Paced level level' t) : s.Alike t := by
  obtain ⟨l, log, hheap, -⟩ := h.twins
  refine ⟨h.live_eq, ?_, ?_, ?_, ?_, ?_, ?_⟩ <;>
  · rw [hheap]
    rfl

/-- Behind a history that captures everything, another one captures what is severe
enough for its level. -/
theorem Paced.captured_eq (h : s.Paced (some .trace) level' t) :
    t.captured = Record.renumbered (s.captured.filter (Record.isSevere level')) := by
  obtain ⟨l, log, hheap, hlog, -⟩ := h.twins
  rw [captured, hheap]
  exact (hlog rfl).captured_eq

theorem Paced.projects (h : s.Paced (some .trace) level' t) : s.Projects level' t := by
  have hcaptured := h.captured_eq
  have hplaces : t.captured.length < wordCount →
      t.captured = (s.captured.filter (Record.isSevere level')).mapIdx
        fun i r => { r with id := i + 1 } := by
    intro hlength
    rw [hcaptured, Record.length_renumbered] at hlength
    rw [hcaptured, Record.renumbered_of_lt hlength]
  refine ⟨hplaces, fun hlength r hr => ?_, ?_⟩
  · apply Record.exists_traceId
    rw [hplaces hlength] at hr hlength
    obtain ⟨i, hi, rfl⟩ := List.mem_mapIdx.1 hr
    rw [List.length_mapIdx] at hlength
    dsimp only
    omega
  · rintro rfl
    have hnone : s.captured.filter (Record.isSevere none) = [] :=
      List.filter_eq_nil_iff.2 fun r _ => Bool.false_ne_true
    rw [hcaptured, hnone]
    rfl

/-- At whatever levels they log, two histories of the same deeds see the same: bytes,
figures and audit after every deed, and the reply to every call. Beside the one that
captures everything, the other captures what is severe enough. -/
theorem Abreast.projection (h : Abreast arena config level level' s t) :
    s.Alike t ∧ (∀ call, t.session.reply call = s.session.reply call) ∧
      (level = some .trace → s.Projects level' t) := by
  refine ⟨h.paced.alike, h.paced.reply_eq, ?_⟩
  rintro rfl
  exact h.paced.projects

/-- The history after the deeds, as long as no call is trapped. -/
def afterAll (s : History) : List Deed → Option History
  | [] => some s
  | deed :: deeds => (s.after deed).bind (afterAll · deeds)

theorem Abreast.afterAll {deeds : List Deed} (h : Abreast arena config level level' s t)
    (hs : s.afterAll deeds = some s') (ht : t.afterAll deeds = some t') :
    Abreast arena config level level' s' t' := by
  induction deeds generalizing s t with
  | nil =>
    cases hs
    cases ht
    exact h
  | cons deed deeds ih =>
    obtain ⟨s₁, hs₁, hs⟩ := Option.bind_eq_some_iff.1 hs
    obtain ⟨t₁, ht₁, ht⟩ := Option.bind_eq_some_iff.1 ht
    exact ih (h.step hs₁ ht₁) hs ht

/-- A heap that is laid out twice and drained between: all is captured by the one
history, and the two new layouts by the other. -/
theorem Abreast.projection_of_drained :
    ∃ s t, Abreast {} { chunkSize := 64 } (some .trace) (some .info) s t ∧
      s.captured.length = 7 ∧ t.captured.map Record.id = [1, 2] ∧
      s.Alike t ∧ (∀ call, t.session.reply call = s.session.reply call) ∧
      s.Projects (some .info) t := by
  have hleft : ((History.start {} (Config.withLogLevel { chunkSize := 64 } (some .trace))).afterAll
      [.call .init, .call (.allocate 20), .drain, .call .init]).map
        (·.captured.length) = some 7 := by
    decide +kernel
  have hright : ((History.start {} (Config.withLogLevel { chunkSize := 64 } (some .info))).afterAll
      [.call .init, .call (.allocate 20), .drain, .call .init]).map
        (·.captured.map Record.id) = some [1, 2] := by
    decide +kernel
  obtain ⟨s, hs, hlength⟩ := Option.map_eq_some_iff.1 hleft
  obtain ⟨t, ht, hids⟩ := Option.map_eq_some_iff.1 hright
  have habreast : Abreast {} { chunkSize := 64 } (some .trace) (some .info) s t :=
    Abreast.start.afterAll hs ht
  obtain ⟨halike, hreply, hprojects⟩ := Abreast.projection habreast
  exact ⟨s, t, habreast, hlength, hids, halike, hreply, hprojects rfl⟩

end History
end SegregatedFit
