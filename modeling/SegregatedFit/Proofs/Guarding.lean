-- SUMMARY: What an operation keeps, however it ends, and where it can be trapped.
import SegregatedFit.Proofs.Agreement

/-!
# Guarded operations

An operation guards a predicate if it keeps it with an answer and with a refusal
alike. Traps are apart: of the states in which it may be trapped, another predicate
says what they are. Both are closed under sequencing (`Guards.bind`), so a proof
follows the operation line by line, and they pass from one run to another that
agrees with it (`Agree.guarded`).
-/
namespace SegregatedFit

variable {ε σ α β : Type}

/-- A run that is trapped in a state with `T` at most, and otherwise ends in one with `J`. -/
inductive Guarded (J T : σ → Prop) : EStateM.Result (Failure ε) σ α → Prop
  | ok {a : α} {s : σ} : J s → Guarded J T (.ok a s)
  | refused {cause : ε} {s : σ} : J s → Guarded J T (.error (.refused cause) s)
  | trapped {trap : Trap} {s : σ} : T s → Guarded J T (.error (.trapped trap) s)

namespace Action

/-- From states with `I`, the operation is trapped in states with `T` at most, and
otherwise ends in states with `J`. -/
def Guards (I J T : σ → Prop) (x : Action ε σ α) : Prop := ∀ s, I s → Guarded J T (x s)

namespace Guards

variable {I J K T : σ → Prop} {x : Action ε σ α}

theorem bind {f : α → Action ε σ β} (hx : Guards I K T x) (hf : ∀ a, Guards K J T (f a))
    (hKJ : ∀ s, K s → J s) : Guards I J T (x >>= f) := by
  intro s hs
  have hfirst := hx s hs
  rw [bind_apply]
  generalize x s = r at hfirst
  cases hfirst with
  | ok h => exact hf _ _ h
  | refused h => exact .refused (hKJ _ h)
  | trapped h => exact .trapped h

theorem weaken (hx : Guards I K T x) (hKJ : ∀ s, K s → J s) : Guards I J T x := by
  intro s hs
  have hrun := hx s hs
  generalize x s = r at hrun ⊢
  cases hrun with
  | ok h => exact .ok (hKJ _ h)
  | refused h => exact .refused (hKJ _ h)
  | trapped h => exact .trapped h

/-- Parts that keep one predicate keep it together. -/
theorem seq {f : α → Action ε σ β} (hx : Guards I I T x) (hf : ∀ a, Guards I I T (f a)) :
    Guards I I T (x >>= f) :=
  hx.bind hf fun _ h => h

theorem pure (a : α) : Guards I I T (Pure.pure a : Action ε σ α) := fun _ hs => .ok hs

theorem refuse (cause : ε) : Guards I I T (refuse cause : Action ε σ α) :=
  fun _ hs => .refused hs

theorem modify {f : σ → σ} (hf : ∀ s, I s → J (f s)) :
    Guards I J T (modify f : Action ε σ Unit) :=
  fun s hs => .ok (hf s hs)

theorem get_bind {f : σ → Action ε σ α} (hf : ∀ s, I s → Guards I J T (f s)) :
    Guards I J T (get >>= f) :=
  fun s hs => hf s hs s hs

theorem lift_bind {v : Except Trap α} {f : α → Action ε σ β}
    (hok : ∀ a, v = .ok a → Guards I J T (f a))
    (htrap : ∀ trap, v = .error trap → ∀ s, I s → T s) : Guards I J T (liftM v >>= f) := by
  intro s hs
  cases v with
  | ok a => exact hok a rfl s hs
  | error trap => exact .trapped (htrap trap rfl s hs)

theorem lift (v : Except ε α) : Guards I I T (liftM v : Action ε σ α) := by
  intro s hs
  cases v with
  | ok a => exact .ok hs
  | error cause => exact .refused hs

theorem attempt (hx : Guards I J T x) : Guards I J T (attempt x) := by
  intro s hs
  have hrun := hx s hs
  rw [attempt_apply]
  generalize x s = r at hrun
  cases hrun with
  | ok h => exact .ok h
  | refused h => exact .ok h
  | trapped h => exact .trapped h

end Guards
end Action

/-- A run that agrees with a guarded one is guarded. -/
theorem Agree.guarded {ε σ τ α : Type} {R : σ → τ → Prop} {I J : σ → Prop} {I' J' : τ → Prop}
    {r : EStateM.Result (Failure ε) σ α} {r' : EStateM.Result (Failure ε) τ α}
    (h : Agree (fun _ => R) R r r') (hguarded : Guarded I' J' r')
    (hI : ∀ s t, R s t → I' t → I s) (hJ : ∀ s t, R s t → J' t → J s) : Guarded I J r := by
  cases hguarded with
  | ok ht =>
    obtain ⟨s, rfl, hst⟩ := h.exists_of_ok
    exact .ok (hI _ _ hst ht)
  | refused ht =>
    obtain ⟨s, rfl, hst⟩ := h.exists_of_error
    exact .refused (hI _ _ hst ht)
  | trapped ht =>
    obtain ⟨s, rfl, hst⟩ := h.exists_of_error
    exact .trapped (hJ _ _ hst ht)

end SegregatedFit
