import Liaison.Session.Machine

/-!
# Rules

Rules tell what a task may do next, given how far it has come. Whether a routine keeps to them is read off the
routine alone, whatever it is answered.
-/

namespace Liaison

structure Rules (σ : Type) where
  Allows : σ → Action → Prop
  after : σ → (a : Action) → a.Answer → σ

namespace Rules

variable {σ : Type} (R : Rules σ) (s : σ)

def Tolerates (a : Action) : Prop :=
  R.Allows s a ∧ ∀ answer, R.after s a answer = s

structure Speaks (method : String) : Prop where
  request : ∀ id params, R.Tolerates s (.enqueue (Message.request (.ofNat id) method params).toJson)
  notification : ∀ params, R.Tolerates s (.enqueue (Message.notification method params).toJson)

end Rules

/-! ## Keeping to rules -/

namespace Routine

variable {σ α β : Type} {R : Rules σ} {s : σ} {r : Routine α} {f : α → Routine β}

def Keeps (R : Rules σ) : Routine α → σ → (α → σ → Prop) → Prop
  | done a, s, fits => fits a s
  | step action next, s, fits => R.Allows s action ∧ ∀ answer, (next answer).Keeps R (R.after s action answer) fits

def Calm (R : Rules σ) (r : Routine α) (s : σ) : Prop :=
  r.Keeps R s fun _ s' => s' = s

theorem keeps_bind {fits : β → σ → Prop} :
    (r >>= f).Keeps R s fits ↔ r.Keeps R s fun a s' => (f a).Keeps R s' fits := by
  induction r generalizing s with
  | done a => rfl
  | step action next ih => exact and_congr_right fun _ => forall_congr' fun answer => ih answer

theorem Keeps.mono {fits fits' : α → σ → Prop} (h : r.Keeps R s fits) (hf : ∀ a s', fits a s' → fits' a s') :
    r.Keeps R s fits' := by
  induction r generalizing s with
  | done a => exact hf a s h
  | step action next ih => exact ⟨h.1, fun answer => ih answer (h.2 answer)⟩

theorem Calm.keeps_bind {fits : β → σ → Prop} (hr : r.Calm R s) (hf : ∀ a, (f a).Keeps R s fits) :
    (r >>= f).Keeps R s fits := by
  rw [Routine.keeps_bind]
  apply hr.mono
  intro a s' hs
  rw [hs]
  exact hf a

theorem Calm.bind (hr : r.Calm R s) (hf : ∀ a, (f a).Calm R s) : (r >>= f).Calm R s :=
  hr.keeps_bind hf

theorem calm_pure (a : α) : (pure a : Routine α).Calm R s := rfl

theorem calm_act {a : Action} (h : R.Tolerates s a) : (act a).Calm R s := h

end Routine

namespace Attempt

variable {σ α β : Type} {R : Rules σ} {s : σ} {r : Attempt α} {f : α → Attempt β}

theorem keeps_bind {fits : Except CallError β → σ → Prop} : (r >>= f).run.Keeps R s fits ↔
    r.run.Keeps R s fun result s' =>
      match result with
      | .ok a => (f a).run.Keeps R s' fits
      | .error e => fits (.error e) s' := by
  rw [ExceptT.run_bind, Routine.keeps_bind]
  constructor
  all_goals
    intro h
    apply h.mono
    intro result s' hr
    cases result <;> exact hr

theorem calm_bind (hr : r.run.Calm R s) (hf : ∀ a, (f a).run.Calm R s) : (r >>= f).run.Calm R s := by
  rw [Routine.Calm, keeps_bind]
  apply hr.mono
  intro result s' hs
  rw [hs]
  cases result with
  | ok a => exact hf a
  | error e => rfl

theorem calm_pure (a : α) : (pure a : Attempt α).run.Calm R s := rfl

theorem calm_throw (e : CallError) : (throw e : Attempt α).run.Calm R s := rfl

theorem calm_ofExcept (result : Except CallError α) : (ofExcept result).run.Calm R s := rfl

theorem calm_lift {r : Routine α} (hr : r.Calm R s) : (liftM r : Attempt α).run.Calm R s :=
  hr.bind fun _ => rfl

theorem calm_act {a : Action} (h : R.Tolerates s a) : (liftM (act a) : Attempt a.Answer).run.Calm R s :=
  calm_lift (Routine.calm_act h)

theorem keeps_outcome_bind {f : Except CallError α → Attempt β} {fits : Except CallError β → σ → Prop}
    (h : r.run.Keeps R s fun result s' => (f result).run.Keeps R s' fits) : (r.outcome >>= f).run.Keeps R s fits := by
  rw [keeps_bind]
  exact Routine.keeps_bind.mpr h

theorem calm_outcome_bind {f : Except CallError α → Attempt β} (hr : r.run.Calm R s)
    (hf : ∀ result, (f result).run.Calm R s) : (r.outcome >>= f).run.Calm R s := by
  apply keeps_outcome_bind
  apply hr.mono
  intro result s' hs
  rw [hs]
  exact hf result

end Attempt

end Liaison
