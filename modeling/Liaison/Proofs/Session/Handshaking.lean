import Liaison.Proofs.Message.RoundTrip
import Liaison.Proofs.Session.Writing

/-!
# Handshakes

A handshake begins when it finds the session starting. It asks once and tells once, and it ends the session or makes
it ready. Nobody else asks or tells.
-/

namespace Liaison

/-! ## What messages say -/

def Json.hasMethod (method : String) (frame : Json) : Bool :=
  match frame.member? "method" with
  | some (.str m) => m = method
  | _ => false

theorem hasMethod_toJson (m : Message) (method : String) :
    m.toJson.hasMethod method = decide (m.method? = some method) := by
  rw [Json.hasMethod, m.member?_toJson.2.1]
  cases m.method? <;> simp

def Json.IsPlain (frame : Json) : Prop :=
  frame.hasMethod "initialize" = false ∧ frame.hasMethod "initialized" = false

/-- Nobody but a handshake sends the messages of a handshake. -/
def Operation.IsPlain (op : Operation) : Prop :=
  op ≠ .handshake → ∀ method ∈ op.methods, method ≠ "initialize" ∧ method ≠ "initialized"

theorem isPlain_toJson {m : Message} (h : ∀ method, m.method? = some method → method ≠ "initialize" ∧
    method ≠ "initialized") : m.toJson.IsPlain := by
  constructor
  all_goals
    rw [hasMethod_toJson, decide_eq_false_iff_not]
    intro he
    have hne := h _ he
    simp at hne

/-! ## The rules of handshakes -/

inductive Handshaking where
  | fresh
  | found
  | asked
  | told
  | leaving
  | left
  | shaken
  | late
  | away (state : SessionState)
  | elsewhere
  | unbound

namespace Handshaking

def ofPhase : Phase → Handshaking
  | .answering m => if m.method? = none then elsewhere else unbound
  | _ => elsewhere

def ofOperation : Operation → Handshaking
  | .handshake => fresh
  | _ => elsewhere

def Allows : Handshaking → Action → Prop
  | fresh, a => a = .state
  | found, a =>
    a.isOrdinary = true ∨ a = .enqueueClose ∨
      ∃ id params, a = .enqueue (Message.request (.ofNat id) "initialize" params).toJson
  | asked, a =>
    a.isOrdinary = true ∨ a = .enqueueClose ∨ ∃ params, a = .enqueue (Message.notification "initialized" params).toJson
  | told, a => a.isOrdinary = true ∨ a = .enqueueClose ∨ a = .transition .starting .ready
  | leaving, a => a = .kill ∨ (∃ reason, a = .closeCalls reason) ∨ a = .terminate
  | left, _ | shaken, _ | late, _ | away _, _ => False
  | elsewhere, .enqueue frame => frame.IsPlain
  | elsewhere, .transition _ next => next = .shuttingDown
  | elsewhere, .spawn phase => ofPhase phase = elsewhere
  | elsewhere, _ => True
  | unbound, _ => True

def after : Handshaking → (a : Action) → a.Answer → Handshaking
  | fresh, .state, state => if state = .starting then found else away state
  | found, .enqueue _, _ => asked
  | asked, .enqueue _, _ => told
  | found, .enqueueClose, _ | asked, .enqueueClose, _ | told, .enqueueClose, _ => leaving
  | told, .transition _ _, moved => if moved then shaken else late
  | leaving, .terminate, _ => left
  | place, _, _ => place

/-- A handshake says that the session is closed only if it has ended it or found it ended, or if somebody was
faster. -/
def Fits : Next → Handshaking → Prop
  | .finish _, fresh | .finish _, asked | .finish _, told | .finish _, leaving => False
  | .finish result, found | .finish result, shaken => ∀ reason, result ≠ .error (.sessionClosed reason)
  | .finish result, away state => ∀ reason, result = .error (.sessionClosed reason) → state = .terminated
  | .finish _, _ => True
  | .resume phase, place => (place = elsewhere ∧ ofPhase phase = elsewhere) ∨ place = unbound

def CanLeave (place : Handshaking) : Prop :=
  place = found ∨ place = asked ∨ place = told

inductive Turn : Handshaking → (a : Action) → a.Answer → Handshaking → Prop
  | find : Turn fresh .state .starting found
  | turn {state : SessionState} (h : state ≠ .starting) : Turn fresh .state state (away state)
  | work {place : Handshaking} {a : Action} {answer : a.Answer} (h : place.CanLeave)
    (ha : a.isOrdinary = true) : Turn place a answer place
  | ask {id : Nat} {params : Option Json} {ticket : Option Nat} :
    Turn found (.enqueue (Message.request (.ofNat id) "initialize" params).toJson) ticket asked
  | tell {params : Option Json} {ticket : Option Nat} :
    Turn asked (.enqueue (Message.notification "initialized" params).toJson) ticket told
  | ready : Turn told (.transition .starting .ready) true shaken
  | fail : Turn told (.transition .starting .ready) false late
  | leave {place : Handshaking} (h : place.CanLeave) : Turn place .enqueueClose () leaving
  | kill : Turn leaving .kill () leaving
  | close {reason : String} : Turn leaving (.closeCalls reason) () leaving
  | terminate : Turn leaving .terminate () left
  | other {a : Action} {answer : a.Answer} (h : Allows elsewhere a) : Turn elsewhere a answer elsewhere

theorem turn_after {place : Handshaking} {a : Action} (ha : place.Allows a) (hu : place ≠ unbound) (answer : a.Answer) :
    Turn place a answer (place.after a answer) := by
  have hwork : ∀ {place : Handshaking} {a : Action} (answer : a.Answer), place.CanLeave →
      a.isOrdinary = true → Turn place a answer (place.after a answer) := by
    intro place a answer hp ha
    have hsame : place.after a answer = place := by
      rcases hp with rfl | rfl | rfl
      all_goals cases a <;> first | rfl | cases ha
    rw [hsame]
    exact .work hp ha
  cases place with
  | fresh =>
    cases ha
    by_cases hs : answer = SessionState.starting
    · subst hs
      exact .find
    · have hplace : after fresh .state answer = away answer := if_neg hs
      rw [hplace]
      exact .turn hs
  | found =>
    rcases ha with ha | rfl | ⟨id, params, rfl⟩
    · exact hwork answer (.inl rfl) ha
    · exact .leave (.inl rfl)
    · exact .ask
  | asked =>
    rcases ha with ha | rfl | ⟨params, rfl⟩
    · exact hwork answer (.inr (.inl rfl)) ha
    · exact .leave (.inr (.inl rfl))
    · exact .tell
  | told =>
    rcases ha with ha | rfl | rfl
    · exact hwork answer (.inr (.inr rfl)) ha
    · exact .leave (.inr (.inr rfl))
    · cases answer with
      | true => exact .ready
      | false => exact .fail
  | leaving =>
    rcases ha with rfl | ⟨reason, rfl⟩ | rfl
    · exact .kill
    · exact .close
    · exact .terminate
  | elsewhere =>
    have hsame : after elsewhere a answer = elsewhere := by cases a <;> rfl
    rw [hsame]
    exact .other ha
  | unbound => exact absurd rfl hu
  | left => cases ha
  | shaken => cases ha
  | late => cases ha
  | away state => cases ha

theorem ofPhase_of_allows {place : Handshaking} {phase : Phase} (ha : place.Allows (.spawn phase))
    (hu : place ≠ unbound) :
    ofPhase phase = elsewhere := by
  have hturn := turn_after ha hu ()
  generalize place.after (.spawn phase) () = place' at hturn
  cases hturn with
  | work _ ha => cases ha
  | other ha => exact ha

def rules : Rules Handshaking :=
  ⟨Allows, after⟩

/-! ### Other tasks -/

theorem tolerates_elsewhere {a : Action} (h : Allows elsewhere a) : rules.Tolerates elsewhere a := by
  refine ⟨h, ?_⟩
  intro answer
  cases a <;> rfl

theorem isEasy_elsewhere : rules.IsEasy elsewhere := by
  intro a ha
  apply tolerates_elsewhere
  cases a <;> first | exact trivial | cases ha

theorem serves_elsewhere (service : Service) : rules.Serves elsewhere service := by
  intro a ha
  apply tolerates_elsewhere
  cases a <;> first | exact trivial | cases ha

theorem ends_elsewhere : rules.Ends elsewhere :=
  ⟨tolerates_elsewhere trivial, fun _ => tolerates_elsewhere trivial, tolerates_elsewhere trivial,
    tolerates_elsewhere trivial⟩

theorem speaks_elsewhere {method : String} (h : method ≠ "initialize" ∧ method ≠ "initialized") :
    rules.Speaks elsewhere method := by
  constructor
  · intro id params
    apply tolerates_elsewhere
    apply isPlain_toJson
    rintro _ ⟨rfl⟩
    exact h
  · intro params
    apply tolerates_elsewhere
    apply isPlain_toJson
    rintro _ ⟨rfl⟩
    exact h

theorem ofPhase_eq_elsewhere {p : Phase} (hp : ∀ m, p ≠ .answering m) : ofPhase p = elsewhere := by
  cases p with
  | answering m => exact absurd rfl (hp m)
  | _ => rfl

theorem keeps_of_stays {service : Option Service} {r : Routine Next} (h : rules.Stays elsewhere service r) :
    r.Keeps rules elsewhere Fits :=
  h.keeps (fun _ => trivial) fun _ _ hp => .inl ⟨rfl, ofPhase_eq_elsewhere hp⟩

/-! ### The handshake itself -/

theorem isEasy_of_canLeave {place : Handshaking} (h : place.CanLeave) : rules.IsEasy place := by
  intro a ha
  rcases h with rfl | rfl | rfl
  all_goals
    refine ⟨.inl ha, ?_⟩
    intro answer
    cases a <;> first | rfl | cases ha

theorem keeps_abort {place : Handshaking} (h : place.CanLeave) (reason : String) :
    (abort reason).Keeps rules place fun _ place' => place' = left := by
  have hend : (do act .kill; endSession reason : Routine Unit).Keeps rules leaving fun _ place' => place' = left :=
    ⟨.inl rfl, fun _ => ⟨.inr (.inl ⟨reason, rfl⟩), fun _ => ⟨.inr (.inr rfl), fun _ => rfl⟩⟩⟩
  rcases h with rfl | rfl | rfl
  all_goals exact ⟨.inr (.inl rfl), fun _ => hend⟩

/-- An attempt that may fail anywhere in the handshake goes on from one place, or the session is ended. -/
theorem keeps_orAbort {α : Type} {place place' : Handshaking} {failure : String} {r : Attempt α}
    (hr : r.run.Keeps rules place fun result p =>
      (∃ a, result = .ok a ∧ p = place') ∨ p.CanLeave ∧ ∃ e, result = .error e) :
    (orAbort failure r).run.Keeps rules place fun result p =>
      (∃ a, result = .ok a ∧ p = place') ∨ (p = left ∧ ∃ e, result = .error e) := by
  unfold orAbort
  apply Attempt.keeps_outcome_bind
  apply hr.mono
  rintro result p (⟨a, rfl, rfl⟩ | ⟨hp, e, rfl⟩)
  · exact .inl ⟨a, rfl, rfl⟩
  · refine Attempt.keeps_bind.mpr (Routine.keeps_bind.mpr ((keeps_abort hp _).mono ?_))
    rintro _ _ rfl
    exact .inr ⟨rfl, e, rfl⟩

def Returns (result : Except CallError Unit) (place : Handshaking) : Prop :=
  Fits (.finish (result.map fun _ => .nothing)) place

theorem keeps_greet (o : ClientOptions) (rootUri : String) : (greet o rootUri).run.Keeps rules found Returns := by
  have hfound : found.CanLeave := .inl rfl
  have hasked : asked.CanLeave := .inr (.inl rfl)
  have htold : told.CanLeave := .inr (.inr rfl)
  have hcall : ∀ params timeout, (call "initialize" params timeout).run.Keeps rules found fun result p =>
      (∃ a, result = .ok a ∧ p = asked) ∨ p.CanLeave ∧ ∃ e, result = .error e := by
    intro params timeout
    apply (keeps_call (isEasy_of_canLeave hasked).isPlain (isEasy_of_canLeave hfound).isPlain timeout
      (fun id => .inr (.inr ⟨id, params, rfl⟩)) fun _ _ => rfl).mono
    rintro result _ (rfl | ⟨rfl, he⟩)
    · cases result with
      | ok a => exact .inl ⟨a, rfl, rfl⟩
      | error e => exact .inr ⟨hasked, e, rfl⟩
    · exact .inr ⟨hfound, he⟩
  have hnotify : ∀ params, (notify "initialized" params).run.Keeps rules asked fun result p =>
      (∃ a, result = .ok a ∧ p = told) ∨ p.CanLeave ∧ ∃ e, result = .error e := by
    intro params
    have hallows : rules.Allows asked (.enqueue (Message.notification "initialized" params).toJson) :=
      .inr (.inr ⟨params, rfl⟩)
    apply (keeps_send (isEasy_of_canLeave htold).isPlain hallows fun _ => rfl).mono
    rintro result _ rfl
    cases result with
    | ok a => exact .inl ⟨a, rfl, rfl⟩
    | error e => exact .inr ⟨htold, e, rfl⟩
  have hmove : (do
      if ← act (.transition .starting .ready) then return
      else throw (.sessionClosed "session ended during initialize") : Attempt Unit).run.Keeps rules told Returns := by
    refine Attempt.keeps_bind.mpr ⟨.inr (.inr rfl), ?_⟩
    intro moved
    cases moved with
    | true =>
      intro reason he
      cases he
    | false => exact trivial
  unfold greet
  -- Wherever an exchange fails, the session is ended and the task gives up at the place that has left.
  refine Attempt.keeps_bind.mpr ((keeps_orAbort (hcall _ _)).mono ?_)
  rintro _ _ (⟨result, rfl, rfl⟩ | ⟨rfl, e, rfl⟩)
  · refine Attempt.keeps_bind.mpr ⟨.inl rfl, fun _ => ?_⟩
    refine Attempt.keeps_bind.mpr ⟨.inl rfl, fun _ => ?_⟩
    refine Attempt.keeps_bind.mpr ((keeps_orAbort (hnotify _)).mono ?_)
    rintro _ _ (⟨_, rfl, rfl⟩ | ⟨rfl, e, rfl⟩)
    · exact hmove
    · exact trivial
  · exact trivial

theorem keeps_handshake (o : ClientOptions) : (handshake o).run.Keeps rules fresh Returns := by
  unfold handshake
  refine Attempt.keeps_bind.mpr ⟨rfl, fun state => ?_⟩
  cases state with
  | starting =>
    change Routine.Keeps rules _ found Returns
    cases fileUri? o.root with
    | some rootUri => exact keeps_greet o rootUri
    | none =>
      intro reason he
      cases he
  | ready =>
    intro reason he
    cases he
  | terminated =>
    intro reason _
    rfl
  | notStarted =>
    intro reason he
    cases he
  | shuttingDown =>
    intro reason he
    cases he

theorem keeps_operation (o : ClientOptions) {op : Operation} (h : op.IsPlain) :
    (op.routine o).Keeps rules (ofOperation op) Fits := by
  by_cases hb : op = .handshake
  · subst hb
    exact Routine.keeps_bind.mpr (keeps_handshake o)
  · have hplace : ofOperation op = elsewhere := by
      cases op with
      | handshake => exact absurd rfl hb
      | _ => rfl
    rw [hplace]
    apply keeps_of_stays
    by_cases he : op = .shutdown
    · subst he
      refine stays_over (calm_shutdown isEasy_elsewhere.isPlain ends_elsewhere (speaks_elsewhere (by decide))
        (speaks_elsewhere (by decide)) ?_) none
      intro before
      exact tolerates_elsewhere rfl
    · exact stays_operation isEasy_elsewhere ends_elsewhere.enqueueClose o hb he fun method hm =>
        speaks_elsewhere (h hb method hm)

theorem keeps_phase (p : Phase) : p.routine.Keeps rules (ofPhase p) Fits := by
  have hother : ∀ {p : Phase}, (∀ m, p ≠ .answering m) → p.routine.Keeps rules (ofPhase p) Fits := by
    intro p hp
    rw [ofPhase_eq_elsewhere hp]
    exact keeps_of_stays (stays_phase isEasy_elsewhere.isPlain ends_elsewhere (fun _ _ => serves_elsewhere _)
      (fun _ _ => tolerates_elsewhere rfl) fun m he => absurd he (hp m))
  cases p with
  | answering m =>
    rw [ofPhase]
    split
    · rename_i hm
      refine keeps_of_stays (stays_answering isEasy_elsewhere.isPlain (tolerates_elsewhere (isPlain_toJson ?_)))
      rw [hm]
      rintro method ⟨⟩
    · have hall : ∀ a, rules.Tolerates unbound a := fun a => ⟨trivial, fun _ => by cases a <;> rfl⟩
      exact (stays_answering (fun a _ _ => hall a) (hall _)).keeps (fun _ => trivial) fun _ _ _ => .inr rfl
  | _ => exact hother fun _ => Phase.noConfusion

def placement : Placement rules where
  Admits := Operation.IsPlain
  operation := ofOperation
  phase := ofPhase
  Fits := Fits
  keeps_operation o _ h := keeps_operation o h
  keeps_phase := keeps_phase

end Handshaking

end Liaison
