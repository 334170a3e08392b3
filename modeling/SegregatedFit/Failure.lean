-- SUMMARY: Refusals and traps, and operations on a state that may end in either.

/-!
# Failures

An operation that is *refused* answers with a cause and stays usable. An
operation that is *trapped* met a sum that no word holds, an index outside its
table or a search without end, and has no answer at all. The two are kept
apart, so that "no trap is reachable" can be said of a definition.
-/
namespace SegregatedFit

/-- Why a computation stops without an answer. -/
inductive Trap where
  /-- A sum or a product is too large for a word. -/
  | overflow
  /-- A difference is negative. -/
  | underflow
  /-- A range of bytes leaves the memory. -/
  | outOfRange
  /-- A memory is larger than a signed word can count. -/
  | capacity
  /-- A chain of links comes back to itself without an end. -/
  | endless
  deriving DecidableEq, Repr, Inhabited

/-- An operation without an answer: refused for a cause of type `ε`, or trapped. -/
inductive Failure (ε : Type) where
  | refused (cause : ε)
  | trapped (trap : Trap)
  deriving DecidableEq, Repr, Inhabited

/-- An operation on a state `σ`. The state that a failing operation has reached
is kept: nothing is rolled back. -/
abbrev Action (ε σ : Type) : Type → Type := EStateM (Failure ε) σ

section Lifting

variable {ε σ : Type}

/-- A trapped computation, among those that can also be refused. -/
instance : MonadLift (Except Trap) (Except (Failure ε)) := ⟨fun x => x.mapError .trapped⟩

/-- A refused computation, among those that can also be trapped. -/
instance : MonadLift (Except ε) (Except (Failure ε)) := ⟨fun x => x.mapError .refused⟩

/-- A computation that can fail, as an operation that changes nothing. -/
instance : MonadLift (Except (Failure ε)) (Action ε σ) where
  monadLift x := fun s =>
    match x with
    | .ok a => .ok a s
    | .error failure => .error failure s

end Lifting

namespace Action

variable {ε σ τ α β : Type}

/-- Ends with a refusal. -/
def refuse (cause : ε) : Action ε σ α := fun s => .error (.refused cause) s

/-- Runs `x` and hands its refusal back as a value. A trap is still a trap. -/
def attempt (x : Action ε σ α) : Action ε σ (Except ε α) := fun s =>
  match x s with
  | .ok a s => .ok (.ok a) s
  | .error (.refused cause) s => .ok (.error cause) s
  | .error (.trapped trap) s => .error (.trapped trap) s

/-- Runs `x` and forgets why it was refused. -/
def attempt? (x : Action ε σ α) : Action ε σ (Option α) := do
  return (← attempt x).toOption

/-- An operation on the second part of a state. -/
def onSecond (x : Action ε σ α) : Action ε (τ × σ) α := fun (t, s) =>
  match x s with
  | .ok a s => .ok a (t, s)
  | .error failure s => .error failure (t, s)

/-! ## Running -/

theorem pure_apply (a : α) (s : σ) : (pure a : Action ε σ α) s = .ok a s := rfl

theorem get_apply (s : σ) : (get : Action ε σ σ) s = .ok s s := rfl

theorem modify_apply (f : σ → σ) (s : σ) : (modify f : Action ε σ Unit) s = .ok () (f s) := rfl

theorem refuse_apply (cause : ε) (s : σ) :
    (refuse cause : Action ε σ α) s = .error (.refused cause) s := rfl

theorem bind_apply (x : Action ε σ α) (f : α → Action ε σ β) (s : σ) :
    (x >>= f) s =
      match x s with
      | .ok a s => f a s
      | .error failure s => .error failure s := by
  change EStateM.bind x f s = _
  unfold EStateM.bind
  cases x s <;> rfl

theorem bind_of_ok {x : Action ε σ α} {s s' : σ} {a : α} (h : x s = .ok a s')
    (f : α → Action ε σ β) : (x >>= f) s = f a s' := by
  rw [bind_apply, h]

theorem bind_of_error {x : Action ε σ α} {s s' : σ} {failure : Failure ε}
    (h : x s = .error failure s') (f : α → Action ε σ β) : (x >>= f) s = .error failure s' := by
  rw [bind_apply, h]

/-- A sequence has an answer exactly if both of its parts have one. -/
theorem bind_eq_ok_iff {x : Action ε σ α} {f : α → Action ε σ β} {s t : σ} {b : β} :
    (x >>= f) s = .ok b t ↔ ∃ a s', x s = .ok a s' ∧ f a s' = .ok b t := by
  rw [bind_apply]
  cases x s <;> simp [and_assoc]

/-- A sequence fails if its first part does, or its second part after it. -/
theorem bind_eq_error_iff {x : Action ε σ α} {f : α → Action ε σ β} {s t : σ}
    {failure : Failure ε} :
    (x >>= f) s = .error failure t ↔
      x s = .error failure t ∨ ∃ a s', x s = .ok a s' ∧ f a s' = .error failure t := by
  rw [bind_apply]
  cases x s <;> simp [and_assoc]

theorem attempt_apply (x : Action ε σ α) (s : σ) :
    attempt x s =
      match x s with
      | .ok a s => .ok (.ok a) s
      | .error (.refused cause) s => .ok (.error cause) s
      | .error (.trapped trap) s => .error (.trapped trap) s := rfl

theorem onSecond_apply (x : Action ε σ α) (t : τ) (s : σ) :
    onSecond x (t, s) =
      match x s with
      | .ok a s => .ok a (t, s)
      | .error failure s => .error failure (t, s) := rfl

theorem lift_ok (a : α) (s : σ) : (liftM (Except.ok a : Except ε α) : Action ε σ α) s = .ok a s :=
  rfl

theorem lift_refused (cause : ε) (s : σ) :
    (liftM (Except.error cause : Except ε α) : Action ε σ α) s = .error (.refused cause) s := rfl

theorem lift_trap_ok (a : α) (s : σ) :
    (liftM (Except.ok a : Except Trap α) : Action ε σ α) s = .ok a s := rfl

theorem lift_trapped (trap : Trap) (s : σ) :
    (liftM (Except.error trap : Except Trap α) : Action ε σ α) s = .error (.trapped trap) s := rfl

theorem lift_failure_ok (a : α) (s : σ) :
    (liftM (Except.ok a : Except (Failure ε) α) : Action ε σ α) s = .ok a s := rfl

theorem lift_failure (failure : Failure ε) (s : σ) :
    (liftM (Except.error failure : Except (Failure ε) α) : Action ε σ α) s = .error failure s := rfl

end Action
end SegregatedFit
