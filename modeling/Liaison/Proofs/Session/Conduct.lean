import Liaison.Session.Machine

/-!
# The conduct of a task

Tasks keep to rules. A call is numbered, registered and then waited for by one and the same task; whoever hands in
a frame waits for its receipt; a document is changed by the one whose turn it is; a session is ended only after its
registry was closed. What a task has done so far tells what it may do next.
-/

namespace Liaison

inductive Hold where
  | nothing
  | number (id : Nat)
  | call (id : Nat)

def Hold.id? : Hold → Option Nat
  | nothing => none
  | number id => some id
  | call id => some id

def Hold.after (hold : Hold) : (a : Action) → a.Answer → Hold
  | .nextId, id => .number id
  | .register id, .ok () => .call id
  | .register _, .error _ => .nothing
  | .awaitReply _ _, some _ => .nothing
  | .expire _, true => .nothing
  | .collect _, _ => .nothing
  | .abandon _, _ => .nothing
  | _, _ => hold

inductive Desk where
  | nowhere
  | inLine (uri : String)
  | first (uri : String)
  | working (uri : String) (document : Option OpenDocument)

def Desk.uri? : Desk → Option String
  | nowhere => none
  | inLine uri => some uri
  | first uri => some uri
  | working uri _ => some uri

def Desk.after (desk : Desk) : (a : Action) → a.Answer → Desk
  | .lineUp uri, _ => .inLine uri
  | .awaitTurn uri, _ => .first uri
  | .document uri, document => .working uri document
  | .commit uri document, _ => .working uri document
  | .leave _, _ => .nowhere
  | _, _ => desk

def Action.isAtDesk : Action → Bool
  | lineUp _ | awaitTurn _ | document _ | commit _ _ | leave _ => true
  | _ => false

def ticketAfter (ticket : Option Nat) : (a : Action) → a.Answer → Option Nat
  | .enqueue _, some n => some n
  | .awaitReceipt _, _ => none
  | _, _ => ticket

structure Conduct where
  isClosing : Bool
  hold : Hold
  desk : Desk
  post : Option Nat
  ticket : Option Nat

def Follows : Option OpenDocument → Option OpenDocument → Prop
  | some d, some d' => d.version < d'.version
  | _, _ => True

def Phase.sequence? : Phase → Option Nat
  | dispatching _ sequence => some sequence
  | _ => none

namespace Conduct

def free (post : Option Nat) : Conduct :=
  ⟨false, .nothing, .nowhere, post, none⟩

def Allows (k : Conduct) : Action → Prop
  | .transition _ after => after ≠ .terminated
  | .terminate => k.isClosing = true
  | .nextId => k.hold = .nothing
  | .register id => k.hold = .number id
  | .awaitReply id _ | .expire id | .collect id | .abandon id => k.hold = .call id
  | .enqueue _ => k.ticket = none
  | .awaitReceipt ticket => k.ticket = some ticket
  | .lineUp _ => k.desk = .nowhere
  | .awaitTurn uri => k.desk = .inLine uri
  | .document uri => k.desk = .first uri
  | .commit uri after => ∃ document, k.desk = .working uri document ∧ Follows document after
  | .leave uri => ∃ document, k.desk = .working uri document
  | .publish set => ∃ sequence, k.post = some sequence ∧ set.stamp.sequence = sequence + 1
  | .spawn phase => phase.sequence? = none
  | _ => True

def after (k : Conduct) (a : Action) (answer : a.Answer) : Conduct where
  isClosing :=
    match a with
    | .closeCalls _ => true
    | .terminate => false
    | _ => k.isClosing
  hold := k.hold.after a answer
  desk := k.desk.after a answer
  post :=
    match a with
    | .publish set => some set.stamp.sequence
    | _ => k.post
  ticket := ticketAfter k.ticket a answer

end Conduct

/-! ## Keeping to the rules -/

namespace Routine

variable {α β : Type} {r : Routine α} {f : α → Routine β} {k : Conduct}

def Obeys : Routine α → Conduct → (α → Conduct → Prop) → Prop
  | done a, k, fits => fits a k
  | step action next, k, fits => k.Allows action ∧ ∀ answer, (next answer).Obeys (k.after action answer) fits

def Steady (r : Routine α) (k : Conduct) : Prop :=
  r.Obeys k fun _ k' => k' = k

theorem obeys_bind {fits : β → Conduct → Prop} :
    (r >>= f).Obeys k fits ↔ r.Obeys k fun a k' => (f a).Obeys k' fits := by
  induction r generalizing k with
  | done a => rfl
  | step action next ih => exact and_congr_right fun _ => forall_congr' fun answer => ih answer

theorem Obeys.mono {fits fits' : α → Conduct → Prop} (h : r.Obeys k fits) (hf : ∀ a k', fits a k' → fits' a k') :
    r.Obeys k fits' := by
  induction r generalizing k with
  | done a => exact hf a k h
  | step action next ih => exact ⟨h.1, fun answer => ih answer (h.2 answer)⟩

theorem obeys_act_bind {a : Action} {g : a.Answer → Routine β} {fits : β → Conduct → Prop} :
    (act a >>= g).Obeys k fits ↔ k.Allows a ∧ ∀ answer, (g answer).Obeys (k.after a answer) fits :=
  Iff.rfl

theorem steady_pure (a : α) : (pure a : Routine α).Steady k := rfl

theorem Steady.obeys_bind {fits : β → Conduct → Prop} (hr : r.Steady k) (hf : ∀ a, (f a).Obeys k fits) :
    (r >>= f).Obeys k fits := by
  rw [Routine.obeys_bind]
  refine hr.mono ?_
  rintro a _ rfl
  exact hf a

theorem Steady.bind (hr : r.Steady k) (hf : ∀ a, (f a).Steady k) : (r >>= f).Steady k :=
  hr.obeys_bind hf

theorem steady_act {a : Action} (ha : k.Allows a) (hk : ∀ answer, k.after a answer = k) : (act a).Steady k :=
  ⟨ha, hk⟩

end Routine

namespace Attempt

variable {α β : Type} {r : Attempt α} {f : α → Attempt β} {k : Conduct}

theorem obeys_bind {fits : Except CallError β → Conduct → Prop} : (r >>= f).run.Obeys k fits ↔
    r.run.Obeys k fun result k' =>
      match result with
      | .ok a => (f a).run.Obeys k' fits
      | .error e => fits (.error e) k' := by
  rw [ExceptT.run_bind, Routine.obeys_bind]
  constructor
  all_goals
    intro h
    refine h.mono ?_
    intro result k' hr
    cases result <;> exact hr

theorem steady_bind (hr : r.run.Steady k) (hf : ∀ a, (f a).run.Steady k) : (r >>= f).run.Steady k := by
  refine obeys_bind.mpr (hr.mono ?_)
  rintro result _ rfl
  cases result with
  | ok a => exact hf a
  | error e => rfl

theorem steady_pure (a : α) : (pure a : Attempt α).run.Steady k := rfl

theorem steady_throw (e : CallError) : (throw e : Attempt α).run.Steady k := rfl

theorem steady_ofExcept (result : Except CallError α) : (ofExcept result).run.Steady k := rfl

theorem steady_lift {r : Routine α} (hr : r.Steady k) : (liftM r : Attempt α).run.Steady k := by
  exact hr.bind fun _ => rfl

theorem steady_act {a : Action} (ha : k.Allows a) (hk : ∀ answer, k.after a answer = k) :
    (liftM (act a) : Attempt a.Answer).run.Steady k :=
  steady_lift (Routine.steady_act ha hk)

theorem obeys_outcome {fits : Except CallError (Except CallError α) → Conduct → Prop} :
    r.outcome.run.Obeys k fits ↔ r.run.Obeys k fun result k' => fits (.ok result) k' :=
  Routine.obeys_bind

theorem obeys_outcome_bind {f : Except CallError α → Attempt β} {fits : Except CallError β → Conduct → Prop}
    (hr : r.run.Steady k) (hf : ∀ result, (f result).run.Obeys k fits) : (r.outcome >>= f).run.Obeys k fits := by
  refine obeys_bind.mpr (Attempt.obeys_outcome.mpr (hr.mono ?_))
  rintro result _ rfl
  exact hf result

end Attempt

end Liaison
