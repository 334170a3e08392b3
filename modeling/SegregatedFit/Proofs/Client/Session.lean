-- SUMMARY: Clients of a heap: their calls, the pointers they hold, and the sessions they can reach.
import SegregatedFit.Heap.Lifecycle
import SegregatedFit.Heap.Payload
import SegregatedFit.Proofs.Heap.Releasing

/-!
# Sessions

A client calls a heap and keeps the pointers that it was given and has not given
back: these are live. A well-behaved client passes the null pointer, a live
pointer, or one that no heap takes for a block, and writes through live pointers
only. `Reached` are the sessions of such a client, from a heap over any arena.
A call that is trapped has no answer, and the session ends with it.
-/
namespace SegregatedFit

/-- What a client asks of a heap. -/
inductive Call where
  | init
  | reset
  | allocate (n : Nat)
  | free (ptr : Nat)
  | resize (ptr n : Nat)
  /-- Write bytes into a payload, `start` bytes behind its beginning. -/
  | store (ptr start : Nat) (bytes : List UInt8)
  deriving DecidableEq, Repr

namespace Call

/-- The operation of a call; the answer is the pointer handed out, if any. -/
def run : Call → HeapM Arena (Option Nat)
  | .init => do
    Heap.init
    return none
  | .reset => do
    modify Heap.reset
    return none
  | .allocate n => return some (← Heap.allocate n)
  | .free ptr => do
    Heap.free ptr
    return none
  | .resize ptr n => Heap.resize ptr n
  | .store ptr start bytes => do
    let _ ← Heap.writePayload ptr start bytes
    return none

/-- The live pointers after an answered call. -/
def liveAfter (live : List Nat) : Call → Option Nat → List Nat
  | .init, _ | .reset, _ => []
  | .allocate _, answer => answer.toList ++ live
  | .free ptr, _ => live.erase ptr
  | .resize ptr _, answer => answer.toList ++ live.erase ptr
  | .store .., _ => live

/-- The live pointers after a refused call: a heap that could not be laid out
again is gone with its blocks. -/
def liveRefused (live : List Nat) : Call → List Nat
  | .init => []
  | _ => live

/-- Whether the call starts over with another heap or none. -/
def Restarts : Call → Prop
  | .init | .reset => True
  | _ => False

theorem liveRefused_of_not_restarts {call : Call} (h : ¬ call.Restarts) (live : List Nat) :
    call.liveRefused live = live := by
  cases call with
  | init => exact (h trivial).elim
  | _ => rfl

/-- Whether a call with this answer freed the block at `ptr` or moved it away. -/
def Releases (call : Call) (answer : Option Nat) (ptr : Nat) : Prop :=
  call = .free ptr ∨ ∃ n, call = .resize ptr n ∧ answer ≠ some ptr

/-- Whether the call writes into the payload at `ptr`. -/
def StoresAt (call : Call) (ptr : Nat) : Prop := ∃ start bytes, call = .store ptr start bytes

end Call

/-- What a client hears of a call. -/
inductive Reply where
  | answered (answer : Option Nat)
  | refused (cause : HeapError)
  | trapped (trap : Trap)
  deriving DecidableEq, Repr

/-- A heap, and the pointers that its client may use. -/
structure Session where
  heap : Heap Arena
  live : List Nat

namespace Session

/-- A client that was given nothing yet. -/
def start (arena : Arena) (config : Config) : Session := ⟨.ofRegion arena config, []⟩

/-- What the client hears of the call. -/
def reply (s : Session) (call : Call) : Reply :=
  match call.run s.heap with
  | .ok answer _ => .answered answer
  | .error (.refused cause) _ => .refused cause
  | .error (.trapped trap) _ => .trapped trap

/-- The session after the call, unless it is trapped. -/
def after (s : Session) (call : Call) : Option Session :=
  match call.run s.heap with
  | .ok answer heap => some ⟨heap, call.liveAfter s.live answer⟩
  | .error (.refused _) heap => some ⟨heap, call.liveRefused s.live⟩
  | .error (.trapped _) _ => none

/-- A session goes on after a call that was answered or refused. -/
theorem after_cases {s s' : Session} {call : Call} (h : s.after call = some s') :
    (∃ answer, call.run s.heap = .ok answer s'.heap) ∨
    ∃ cause, call.run s.heap = .error (.refused cause) s'.heap := by
  unfold after at h
  split at h
  case h_1 answer heap hrun =>
    obtain rfl := Option.some.inj h
    exact Or.inl ⟨answer, hrun⟩
  case h_2 cause heap hrun =>
    obtain rfl := Option.some.inj h
    exact Or.inr ⟨cause, hrun⟩
  case h_3 => cases h

/-- The calls of a well-behaved client. -/
def Allows (s : Session) : Call → Prop
  | .free ptr | .resize ptr _ => ptr = nullPtr ∨ ptr ∈ s.live ∨ s.heap.Foreign ptr
  | .store ptr _ _ => ptr ∈ s.live
  | _ => True

/-- The sessions of a well-behaved client. -/
inductive Reached (arena : Arena) (config : Config) : Session → Prop
  | start : Reached arena config (start arena config)
  | step {s s' : Session} {call : Call} :
    Reached arena config s → s.Allows call → s.after call = some s' → Reached arena config s'

/-! ## Runs of calls -/

instance (s : Session) : (call : Call) → Decidable (s.Allows call)
  | .free ptr | .resize ptr _ =>
    inferInstanceAs (Decidable (ptr = nullPtr ∨ ptr ∈ s.live ∨ s.heap.Foreign ptr))
  | .store ptr _ _ => inferInstanceAs (Decidable (ptr ∈ s.live))
  | .init | .reset | .allocate _ => inferInstanceAs (Decidable True)

/-- The session after the calls, as long as each is allowed and none is trapped. -/
def afterAll (s : Session) : List Call → Option Session
  | [] => some s
  | call :: calls => if s.Allows call then (s.after call).bind (afterAll · calls) else none

theorem afterAll_cons_iff {s s' : Session} {call : Call} {calls : List Call} :
    s.afterAll (call :: calls) = some s' ↔
      s.Allows call ∧ ∃ s₁, s.after call = some s₁ ∧ s₁.afterAll calls = some s' := by
  by_cases hallows : s.Allows call
  · simp [Session.afterAll, hallows, Option.bind_eq_some_iff]
  · simp [Session.afterAll, hallows]

theorem Reached.afterAll {arena : Arena} {config : Config} {s s' : Session} {calls : List Call}
    (h : Reached arena config s) (hcalls : s.afterAll calls = some s') :
    Reached arena config s' := by
  induction calls generalizing s with
  | nil =>
    obtain rfl := Option.some.inj hcalls
    exact h
  | cons call calls ih =>
    obtain ⟨hallows, s₁, hafter, hrest⟩ := afterAll_cons_iff.1 hcalls
    exact ih (h.step hallows hafter) hrest

end Session
end SegregatedFit
