-- SUMMARY: Two runs that end alike, in related states, and the rules by which they are composed.
import SegregatedFit.Failure

/-!
# Agreement of two runs

Two runs agree if both have the same answer or both fail in the same way, and
the states in which they end are related. The relation after an answer may
depend on the answer; the one after a failure may not. Agreement is closed under
sequencing (`Agree.bind`) and under handing a refusal back (`Agree.attempt`), so
a proof follows the two operations line by line. Where one relation holds
throughout, `Action.Agrees` says so of whole operations.
-/
namespace SegregatedFit

variable {ε σ τ α β : Type}

/-- Two runs that end alike, related by `Q` with an answer and by `E` without one. -/
inductive Agree (Q : α → σ → τ → Prop) (E : σ → τ → Prop) :
    EStateM.Result (Failure ε) σ α → EStateM.Result (Failure ε) τ α → Prop
  | ok {a : α} {s : σ} {t : τ} : Q a s t → Agree Q E (.ok a s) (.ok a t)
  | error {failure : Failure ε} {s : σ} {t : τ} :
    E s t → Agree Q E (.error failure s) (.error failure t)

namespace Agree

open SegregatedFit.Action

variable {P Q Q' : α → σ → τ → Prop} {R : β → σ → τ → Prop} {E E' : σ → τ → Prop}
variable {x : Action ε σ α} {y : Action ε τ α} {s : σ} {t : τ}

theorem of_eq {p q : EStateM.Result (Failure ε) σ α} {p' q' : EStateM.Result (Failure ε) τ α}
    (hp : p = q) (hp' : p' = q') (h : Agree Q E q q') : Agree Q E p p' :=
  hp ▸ hp' ▸ h

theorem mono {p : EStateM.Result (Failure ε) σ α} {p' : EStateM.Result (Failure ε) τ α}
    (h : Agree Q E p p') (hQ : ∀ a s t, Q a s t → Q' a s t) (hE : ∀ s t, E s t → E' s t) :
    Agree Q' E' p p' := by
  cases h with
  | ok hab => exact .ok (hQ _ _ _ hab)
  | error hst => exact .error (hE _ _ hst)

/-- What agrees with an answer is that answer. -/
theorem exists_of_ok {p : EStateM.Result (Failure ε) σ α} {a : α} (h : Agree Q E p (.ok a t)) :
    ∃ s, p = .ok a s ∧ Q a s t := by
  cases h with
  | ok hst => exact ⟨_, rfl, hst⟩

/-- What agrees with a failure is that failure. -/
theorem exists_of_error {p : EStateM.Result (Failure ε) σ α} {failure : Failure ε}
    (h : Agree Q E p (.error failure t)) : ∃ s, p = .error failure s ∧ E s t := by
  cases h with
  | error hst => exact ⟨_, rfl, hst⟩

theorem bind {f : α → Action ε σ β} {g : α → Action ε τ β} (h : Agree Q E (x s) (y t))
    (hf : ∀ a s t, Q a s t → Agree R E (f a s) (g a t)) :
    Agree R E ((x >>= f) s) ((y >>= g) t) := by
  cases hy : y t with
  | ok a t' =>
    obtain ⟨s', hx, hst⟩ := (hy ▸ h).exists_of_ok
    rw [bind_of_ok hx, bind_of_ok hy]
    exact hf a s' t' hst
  | error failure t' =>
    obtain ⟨s', hx, hst⟩ := (hy ▸ h).exists_of_error
    rw [bind_of_error hx, bind_of_error hy]
    exact .error hst

/-- A step that only the first run takes. -/
theorem left {γ : Type} {z : Action ε σ γ} {c : γ} {s' : σ} {f : γ → Action ε σ α}
    {r : EStateM.Result (Failure ε) τ α} (hz : z s = .ok c s') (h : Agree Q E (f c s') r) :
    Agree Q E ((z >>= f) s) r := by
  rwa [bind_of_ok hz]

theorem pure {a : α} (h : Q a s t) : Agree Q E ((Pure.pure a : Action ε σ α) s)
    ((Pure.pure a : Action ε τ α) t) :=
  .ok h

theorem refuse {cause : ε} (h : E s t) :
    Agree Q E (refuse cause s) (refuse cause t) :=
  .error h

/-- Each run looks at its own state. -/
theorem get_bind {f : σ → Action ε σ α} {g : τ → Action ε τ α} (h : Agree Q E (f s s) (g t t)) :
    Agree Q E ((get >>= f) s) ((get >>= g) t) :=
  h

theorem lift_trap {v : Except Trap α} (hok : ∀ a, v = .ok a → Q a s t) (herror : E s t) :
    Agree Q E ((liftM v : Action ε σ α) s) ((liftM v : Action ε τ α) t) := by
  cases v with
  | ok a => exact .ok (hok a rfl)
  | error trap => exact .error herror

theorem lift {v : Except ε α} (hok : ∀ a, v = .ok a → Q a s t) (herror : E s t) :
    Agree Q E ((liftM v : Action ε σ α) s) ((liftM v : Action ε τ α) t) := by
  cases v with
  | ok a => exact .ok (hok a rfl)
  | error cause => exact .error herror

theorem lift_failure {v : Except (Failure ε) α} (hok : ∀ a, v = .ok a → Q a s t)
    (herror : E s t) : Agree Q E ((liftM v : Action ε σ α) s) ((liftM v : Action ε τ α) t) := by
  cases v with
  | ok a => exact .ok (hok a rfl)
  | error failure => exact .error herror

/-- Refusals that are handed back are the same in both runs. -/
theorem attempt (h : Agree Q E (x s) (y t)) :
    Agree (fun a s t => (∀ b, a = .ok b → Q b s t) ∧ (∀ cause, a = .error cause → E s t)) E
      (attempt x s) (attempt y t) := by
  rw [attempt_apply, attempt_apply]
  cases hy : y t with
  | ok a t' =>
    obtain ⟨s', hx, hst⟩ := (hy ▸ h).exists_of_ok
    rw [hx]
    exact .ok ⟨by rintro _ ⟨⟩; exact hst, by rintro _ ⟨⟩⟩
  | error failure t' =>
    obtain ⟨s', hx, hst⟩ := (hy ▸ h).exists_of_error
    rw [hx]
    cases failure with
    | refused cause => exact .ok ⟨by rintro _ ⟨⟩, fun _ _ => hst⟩
    | trapped trap => exact .error hst

end Agree

/-! ## One relation throughout -/

namespace Action

/-- From related states the two operations end alike, in related states again. -/
def Agrees (R : σ → τ → Prop) (x : Action ε σ α) (y : Action ε τ α) : Prop :=
  ∀ s t, R s t → Agree (fun _ => R) R (x s) (y t)

namespace Agrees

variable {R : σ → τ → Prop} {x : Action ε σ α} {y : Action ε τ α}

theorem bind {f : α → Action ε σ β} {g : α → Action ε τ β} (h : Agrees R x y)
    (hf : ∀ a, Agrees R (f a) (g a)) : Agrees R (x >>= f) (y >>= g) :=
  fun s t hst => (h s t hst).bind fun a s' t' hst' => hf a s' t' hst'

theorem pure (a : α) : Agrees R (Pure.pure a : Action ε σ α) (Pure.pure a : Action ε τ α) :=
  fun _ _ hst => .pure hst

theorem refuse (cause : ε) :
    Agrees R (refuse cause : Action ε σ α) (Action.refuse cause : Action ε τ α) :=
  fun _ _ hst => .refuse hst

theorem get_bind {f : σ → Action ε σ α} {g : τ → Action ε τ α}
    (h : ∀ s t, R s t → Agrees R (f s) (g t)) : Agrees R (get >>= f) (get >>= g) :=
  fun s t hst => .get_bind (h s t hst s t hst)

theorem lift_trap (v : Except Trap α) :
    Agrees R (liftM v : Action ε σ α) (liftM v : Action ε τ α) :=
  fun _ _ hst => .lift_trap (fun _ _ => hst) hst

/-- What follows may depend on what the computation answered. -/
theorem lift_bind {v : Except Trap α} {f : α → Action ε σ β} {g : α → Action ε τ β}
    (h : ∀ a, v = .ok a → Agrees R (f a) (g a)) :
    Agrees R (liftM v >>= f) (liftM v >>= g) := by
  cases v with
  | ok a => exact h a rfl
  | error trap => exact fun _ _ hst => .error hst

theorem lift (v : Except ε α) : Agrees R (liftM v : Action ε σ α) (liftM v : Action ε τ α) :=
  fun _ _ hst => .lift (fun _ _ => hst) hst

theorem lift_failure (v : Except (Failure ε) α) :
    Agrees R (liftM v : Action ε σ α) (liftM v : Action ε τ α) :=
  fun _ _ hst => .lift_failure (fun _ _ => hst) hst

theorem attempt (h : Agrees R x y) : Agrees R (attempt x) (Action.attempt y) := by
  intro s t hst
  refine (h s t hst).attempt.mono ?_ fun _ _ hst' => hst'
  rintro (cause | a) s' t' ⟨hok, herror⟩
  · exact herror cause rfl
  · exact hok a rfl

end Agrees
end Action
end SegregatedFit
