import Liaison.Proofs.Session.Handshake
import Liaison.Proofs.Session.TaskGroup

/-!
# The rules of shutting down

Who shuts a session down looks at it first. If nobody has ended it, and it is as it was found, the task takes it upon
itself: it asks the server and tells it, closes the stream, waits for the process, and ends the session. Otherwise it
waits for the end. Nobody else asks or tells.
-/

namespace Liaison

def Json.Avoids (methods : List String) (frame : Json) : Prop :=
  ∀ method ∈ methods, frame.hasMethod method = false

def Operation.Avoids (methods : List String) (op : Operation) : Prop :=
  ∀ method ∈ op.methods, method ∉ methods

theorem avoids_toJson {methods : List String} {m : Message}
    (h : ∀ method, m.method? = some method → method ∉ methods) : m.toJson.Avoids methods := by
  intro method hm
  rw [hasMethod_toJson, decide_eq_false_iff_not]
  exact fun he => h method he hm

def Operation.isShutdown : Operation → Bool
  | shutdown => true
  | _ => false

inductive ShuttingDown where
  | fresh
  | found (state : SessionState)
  | chosen
  | asked
  | told
  | closing
  | stopped
  | left
  | waiting
  | gone
  | elsewhere
  | unbound

namespace ShuttingDown

def ofPhase : Phase → ShuttingDown
  | .answering m => if m.method? = none then elsewhere else unbound
  | _ => elsewhere

def ofOperation : Operation → ShuttingDown
  | .shutdown => fresh
  | _ => elsewhere

def Speaks (place : ShuttingDown) : Prop :=
  place = chosen ∨ place = asked ∨ place = told

def Allows : ShuttingDown → Action → Prop
  | fresh, a => a = .state
  | found state, a => a = .transition state .shuttingDown ∧ ¬ state.IsOver
  | chosen, a =>
    a.isOrdinary = true ∨ a = .enqueueClose ∨
      (∃ id params, a = .enqueue (Message.request (.ofNat id) "shutdown" params).toJson) ∨
      ∃ params, a = .enqueue (Message.notification "exit" params).toJson
  | asked, a =>
    a.isOrdinary = true ∨ a = .enqueueClose ∨ ∃ params, a = .enqueue (Message.notification "exit" params).toJson
  | told, a => a.isOrdinary = true ∨ a = .enqueueClose
  | closing, a => (∃ timeout, a = .deadline timeout) ∨ a = .kill ∨ ∃ limit, a = .awaitExit limit
  | stopped, a => a = .terminate ∨ (∃ reason, a = .closeCalls reason) ∨ a = .kill ∨ ∃ limit, a = .awaitExit limit
  | waiting, a => a = .awaitEnd
  | left, _ | gone, _ => False
  | elsewhere, .enqueue frame => frame.Avoids ["shutdown", "exit"]
  | elsewhere, .transition before next =>
    before = .notStarted ∧ next = .starting ∨ before = .starting ∧ next = .ready
  | elsewhere, .spawn phase => ofPhase phase = elsewhere
  | elsewhere, _ => True
  | unbound, _ => True

def after : ShuttingDown → (a : Action) → a.Answer → ShuttingDown
  | fresh, .state, state =>
    if state = .terminated then gone else if state = .shuttingDown then waiting else found state
  | found _, .transition _ _, moved => if moved then chosen else waiting
  | chosen, .enqueue frame, _ => if frame.hasMethod "shutdown" then asked else told
  | asked, .enqueue _, _ => told
  | chosen, .enqueueClose, _ | asked, .enqueueClose, _ | told, .enqueueClose, _ => closing
  -- Without a limit there is no answer before the process has ended.
  | closing, .awaitExit limit, ended => if limit = none ∨ ended = true then stopped else closing
  | stopped, .terminate, _ => left
  | waiting, .awaitEnd, _ => gone
  | place, _, _ => place

def Fits : Next → ShuttingDown → Prop
  | .finish _, place => place = left ∨ place = gone ∨ place = elsewhere ∨ place = unbound
  | .resume phase, place => place = elsewhere ∧ ofPhase phase = elsewhere ∨ place = unbound

inductive Turn : ShuttingDown → (a : Action) → a.Answer → ShuttingDown → Prop
  | find {state : SessionState} (h : ¬ state.IsOver) : Turn fresh .state state (found state)
  | wait : Turn fresh .state .shuttingDown waiting
  | miss : Turn fresh .state .terminated gone
  | choose {state : SessionState} (h : ¬ state.IsOver) :
      Turn (found state) (.transition state .shuttingDown) true chosen
  | yield {state : SessionState} (h : ¬ state.IsOver) :
    Turn (found state) (.transition state .shuttingDown) false waiting
  | work {place : ShuttingDown} {a : Action} {answer : a.Answer} (h : place.Speaks) (ha : a.isOrdinary = true) :
    Turn place a answer place
  | ask {id : Nat} {params : Option Json} {ticket : Option Nat} :
    Turn chosen (.enqueue (Message.request (.ofNat id) "shutdown" params).toJson) ticket asked
  | tell {place : ShuttingDown} {params : Option Json} {ticket : Option Nat} (h : place = chosen ∨ place = asked) :
    Turn place (.enqueue (Message.notification "exit" params).toJson) ticket told
  | close {place : ShuttingDown} (h : place.Speaks) : Turn place .enqueueClose () closing
  | look {timeout limit : Option Nat} : Turn closing (.deadline timeout) limit closing
  | kill {place : ShuttingDown} (h : place = closing ∨ place = stopped) : Turn place .kill () place
  | linger {limit : Option Nat} {ended : Bool} (h : limit ≠ none ∧ ended = false) :
    Turn closing (.awaitExit limit) ended closing
  | stop {limit : Option Nat} {ended : Bool} (h : limit = none ∨ ended = true) :
    Turn closing (.awaitExit limit) ended stopped
  | recheck {limit : Option Nat} {ended : Bool} : Turn stopped (.awaitExit limit) ended stopped
  | fail {reason : String} : Turn stopped (.closeCalls reason) () stopped
  | terminate : Turn stopped .terminate () left
  | go : Turn waiting .awaitEnd () gone
  | other {a : Action} {answer : a.Answer} (h : Allows elsewhere a) : Turn elsewhere a answer elsewhere

theorem after_of_isOrdinary {place : ShuttingDown} {a : Action} (answer : a.Answer) (h : place.Speaks)
    (ha : a.isOrdinary = true) : place.after a answer = place := by
  rcases h with rfl | rfl | rfl
  all_goals cases a <;> first | rfl | cases ha

theorem after_tell {place : ShuttingDown} (params : Option Json) (ticket : Option Nat)
    (h : place = chosen ∨ place = asked) :
    place.after (.enqueue (Message.notification "exit" params).toJson) ticket = told := by
  rcases h with rfl | rfl
  · simp [after, hasMethod_toJson, Message.method?]
  · rfl

theorem after_ask (id : Nat) (params : Option Json) (ticket : Option Nat) :
    chosen.after (.enqueue (Message.request (.ofNat id) "shutdown" params).toJson) ticket = asked := by
  simp [after, hasMethod_toJson, Message.method?]

theorem after_awaitExit (limit : Option Nat) (ended : Bool) :
    closing.after (.awaitExit limit) ended = if limit = none ∨ ended = true then stopped else closing := rfl

theorem turn_after {place : ShuttingDown} {a : Action} (ha : place.Allows a) (hu : place ≠ unbound)
    (answer : a.Answer) :
    Turn place a answer (place.after a answer) := by
  have hwork : ∀ {place : ShuttingDown} {a : Action} (answer : a.Answer), place.Speaks → a.isOrdinary = true →
      Turn place a answer (place.after a answer) := by
    intro place a answer hp ha
    rw [after_of_isOrdinary answer hp ha]
    exact .work hp ha
  have htell : ∀ {place : ShuttingDown} (params : Option Json) (ticket : Option Nat), place = chosen ∨ place = asked →
      Turn place (.enqueue (Message.notification "exit" params).toJson) ticket
        (place.after (.enqueue (Message.notification "exit" params).toJson) ticket) := by
    intro place params ticket hp
    rw [after_tell params ticket hp]
    exact .tell hp
  cases place with
  | fresh =>
    cases ha
    cases answer with
    | shuttingDown => exact .wait
    | terminated => exact .miss
    | _ => exact .find (by simp [SessionState.IsOver])
  | found state =>
    obtain ⟨rfl, hs⟩ := ha
    cases answer with
    | true => exact .choose hs
    | false => exact .yield hs
  | chosen =>
    rcases ha with ha | rfl | ⟨id, params, rfl⟩ | ⟨params, rfl⟩
    · exact hwork answer (.inl rfl) ha
    · exact .close (.inl rfl)
    · rw [after_ask]
      exact .ask
    · exact htell params answer (.inl rfl)
  | asked =>
    rcases ha with ha | rfl | ⟨params, rfl⟩
    · exact hwork answer (.inr (.inl rfl)) ha
    · exact .close (.inr (.inl rfl))
    · exact htell params answer (.inr rfl)
  | told =>
    rcases ha with ha | rfl
    · exact hwork answer (.inr (.inr rfl)) ha
    · exact .close (.inr (.inr rfl))
  | closing =>
    rcases ha with ⟨timeout, rfl⟩ | rfl | ⟨limit, rfl⟩
    · exact .look
    · exact .kill (.inl rfl)
    · rw [after_awaitExit]
      split
      · exact .stop ‹_›
      · rename_i hlimit
        exact .linger (by simpa using hlimit)
  | stopped =>
    rcases ha with rfl | ⟨reason, rfl⟩ | rfl | ⟨limit, rfl⟩
    · exact .terminate
    · exact .fail
    · exact .kill (.inr rfl)
    · exact .recheck
  | waiting =>
    cases ha
    exact .go
  | elsewhere =>
    have hsame : after elsewhere a answer = elsewhere := by cases a <;> rfl
    rw [hsame]
    exact .other ha
  | unbound => exact absurd rfl hu
  | left => cases ha
  | gone => cases ha

def rules : Rules ShuttingDown :=
  ⟨Allows, after⟩

/-! ## Other tasks -/

theorem tolerates_elsewhere {a : Action} (h : Allows elsewhere a) : rules.Tolerates elsewhere a := by
  refine ⟨h, ?_⟩
  intro answer
  cases a <;> rfl

theorem isEasy_elsewhere : rules.IsEasy elsewhere := by
  intro a ha
  apply tolerates_elsewhere
  cases a <;> first | exact trivial | cases ha

theorem serves_elsewhere (service : Service) : rules.Serves elsewhere service := by
  intro a ha
  apply tolerates_elsewhere
  cases a <;> first | exact trivial | cases ha

theorem ends_elsewhere : rules.Ends elsewhere :=
  ⟨tolerates_elsewhere trivial, fun _ => tolerates_elsewhere trivial, tolerates_elsewhere trivial,
    tolerates_elsewhere trivial⟩

theorem speaks_elsewhere {method : String} (h : method ∉ ["shutdown", "exit"]) : rules.Speaks elsewhere method := by
  constructor
  · intro id params
    apply tolerates_elsewhere
    apply avoids_toJson
    rintro _ ⟨rfl⟩
    exact h
  · intro params
    apply tolerates_elsewhere
    apply avoids_toJson
    rintro _ ⟨rfl⟩
    exact h

theorem ofPhase_eq_elsewhere {p : Phase} (hp : ∀ m, p ≠ .answering m) : ofPhase p = elsewhere := by
  cases p with
  | answering m => exact absurd rfl (hp m)
  | _ => rfl

theorem keeps_of_stays {service : Option Service} {r : Routine Next} (h : rules.Stays elsewhere service r) :
    r.Keeps rules elsewhere Fits :=
  h.keeps (fun _ => .inr (.inr (.inl rfl))) fun _ _ hp => .inl ⟨rfl, ofPhase_eq_elsewhere hp⟩

/-! ## Shutting down -/

theorem isEasy_of_speaks {place : ShuttingDown} (h : place.Speaks) : rules.IsEasy place := by
  intro a ha
  refine ⟨?_, fun answer => after_of_isOrdinary answer h ha⟩
  rcases h with rfl | rfl | rfl <;> exact .inl ha

theorem keeps_dismiss : dismiss.Keeps rules chosen fun _ place => place.Speaks := by
  have hnotify : ∀ {place : ShuttingDown}, place = chosen ∨ place = asked →
      (notify "exit" none).run.Keeps rules place fun _ place' => place'.Speaks := by
    intro place hp
    have hallows : rules.Allows place (.enqueue (Message.notification "exit" none).toJson) := by
      rcases hp with rfl | rfl
      · exact .inr (.inr (.inr ⟨none, rfl⟩))
      · exact .inr (.inr ⟨none, rfl⟩)
    apply (keeps_send (isEasy_of_speaks (.inr (.inr rfl))).isPlain hallows fun ticket => after_tell none ticket hp).mono
    rintro _ _ rfl
    exact .inr (.inr rfl)
  have hcall := keeps_call (isEasy_of_speaks (.inr (.inl rfl))).isPlain (isEasy_of_speaks (.inl rfl)).isPlain
    (some shutdownTimeout) (fun id => .inr (.inr (.inl ⟨id, none, rfl⟩))) fun id ticket => after_ask id none ticket
  unfold dismiss
  refine Routine.keeps_bind.mpr (hcall.mono ?_)
  rintro _ place hp
  have hplace : place = chosen ∨ place = asked := by
    rcases hp with rfl | ⟨rfl, -⟩
    · exact .inr rfl
    · exact .inl rfl
  exact Routine.keeps_bind.mpr ((hnotify hplace).mono fun _ _ hspeaks => hspeaks)

theorem keeps_stopProcess : stopProcess.Keeps rules closing fun _ place => place = stopped := by
  have hafter : ∀ limit ended, closing.after (.awaitExit limit) ended = closing ∨
      closing.after (.awaitExit limit) ended = stopped := by
    intro limit ended
    rw [after_awaitExit]
    split
    · exact .inr rfl
    · exact .inl rfl
  have hkill : ∀ place, place = closing ∨ place = stopped →
      (do act .kill; let _ ← act (.awaitExit none) : Routine Unit).Keeps rules place
        fun _ place' => place' = stopped := by
    have hlast : ∀ ended, closing.after (.awaitExit none) ended = stopped := by
      intro ended
      simp [after_awaitExit]
    rintro place (rfl | rfl)
    · exact ⟨.inr (.inl rfl), fun _ => ⟨.inr (.inr ⟨none, rfl⟩), hlast⟩⟩
    · exact ⟨.inr (.inr (.inl rfl)), fun _ => ⟨.inr (.inr (.inr ⟨none, rfl⟩)), fun _ => rfl⟩⟩
  unfold stopProcess
  refine ⟨.inl ⟨_, rfl⟩, fun limit => ⟨.inr (.inr ⟨limit, rfl⟩), fun ended => ?_⟩⟩
  cases ended with
  | true => exact if_pos (.inr rfl)
  | false => exact hkill _ (hafter limit false)

theorem keeps_shutdown : shutdown.Keeps rules fresh fun _ place => place = left ∨ place = gone := by
  have hclose : ∀ {place : ShuttingDown}, place.Speaks →
      (closeStream >>= fun _ => stopProcess >>= fun _ => endSession "session shut down").Keeps rules place
        fun _ place' => place' = left ∨ place' = gone := by
    intro place hp
    have hafter : place.after .enqueueClose () = closing := by rcases hp with rfl | rfl | rfl <;> rfl
    have hallows : rules.Allows place .enqueueClose := by rcases hp with rfl | rfl | rfl <;> exact .inr (by simp)
    refine ⟨hallows, fun _ => ?_⟩
    change Routine.Keeps rules (stopProcess >>= fun _ => endSession "session shut down")
      (place.after .enqueueClose ()) _
    rw [hafter]
    refine Routine.keeps_bind.mpr (keeps_stopProcess.mono ?_)
    rintro _ _ rfl
    exact ⟨.inr (.inl ⟨_, rfl⟩), fun _ => ⟨.inl rfl, fun _ => .inl rfl⟩⟩
  have hwait : (act .awaitEnd).Keeps rules waiting fun _ place => place = left ∨ place = gone :=
    ⟨rfl, fun _ => .inr rfl⟩
  have hmove : ∀ {state : SessionState}, ¬ state.IsOver → (do
      if ← act (.transition state .shuttingDown) then
        if state = .starting ∨ state = .ready then dismiss
        closeStream
        stopProcess
        endSession "session shut down"
      else act .awaitEnd : Routine Unit).Keeps rules (found state) fun _ place => place = left ∨ place = gone := by
    intro state hs
    refine ⟨⟨rfl, hs⟩, fun moved => ?_⟩
    cases moved with
    | false => exact hwait
    | true =>
      change Routine.Keeps rules (if state = .starting ∨ state = .ready then _ else _) chosen _
      split
      · refine Routine.keeps_bind.mpr (keeps_dismiss.mono ?_)
        exact fun _ _ hp => hclose hp
      · exact hclose (.inl rfl)
  unfold shutdown
  refine ⟨rfl, fun state => ?_⟩
  cases state with
  | terminated => exact .inr rfl
  | shuttingDown => exact hwait
  | notStarted => exact hmove (by simp [SessionState.IsOver])
  | starting => exact hmove (by simp [SessionState.IsOver])
  | ready => exact hmove (by simp [SessionState.IsOver])

/-! ## All tasks -/

theorem keeps_operation (o : ClientOptions) {op : Operation} (h : op ≠ .shutdown → op.Avoids ["shutdown", "exit"]) :
    (op.routine o).Keeps rules (ofOperation op) Fits := by
  by_cases he : op = .shutdown
  · subst he
    refine Routine.keeps_bind.mpr (keeps_shutdown.mono ?_)
    rintro _ place (rfl | rfl)
    · exact .inl rfl
    · exact .inr (.inl rfl)
  · have hplace : ofOperation op = elsewhere := by
      cases op with
      | shutdown => exact absurd rfl he
      | _ => rfl
    rw [hplace]
    apply keeps_of_stays
    by_cases hb : op = .handshake
    · subst hb
      exact stays_finishing _ (calm_handshake isEasy_elsewhere.isPlain ends_elsewhere (speaks_elsewhere (by decide))
        (speaks_elsewhere (by decide)) (tolerates_elsewhere (.inr ⟨rfl, rfl⟩)) o)
    · exact stays_operation isEasy_elsewhere ends_elsewhere.enqueueClose o hb he fun method hm =>
        speaks_elsewhere (h he method hm)

theorem keeps_phase (p : Phase) : p.routine.Keeps rules (ofPhase p) Fits := by
  have hother : ∀ {p : Phase}, (∀ m, p ≠ .answering m) → p.routine.Keeps rules (ofPhase p) Fits := by
    intro p hp
    rw [ofPhase_eq_elsewhere hp]
    exact keeps_of_stays (stays_phase isEasy_elsewhere.isPlain ends_elsewhere (fun _ _ => serves_elsewhere _)
      (fun _ _ => tolerates_elsewhere rfl) fun m he => absurd he (hp m))
  cases p with
  | answering m =>
    rw [ofPhase]
    split
    · rename_i hm
      refine keeps_of_stays (stays_answering isEasy_elsewhere.isPlain (tolerates_elsewhere (avoids_toJson ?_)))
      simp [hm]
    · have hall : ∀ a, rules.Tolerates unbound a := fun a => ⟨trivial, fun _ => by cases a <;> rfl⟩
      exact (stays_answering (fun a _ _ => hall a) (hall _)).keeps (fun _ => .inr (.inr (.inr rfl)))
        fun _ _ _ => .inr rfl
  | _ => exact hother fun _ => Phase.noConfusion

def placement : Placement rules where
  Admits op := op ≠ .shutdown → op.Avoids ["shutdown", "exit"]
  operation := ofOperation
  phase := ofPhase
  Fits := Fits
  keeps_operation o _ h := keeps_operation o h
  keeps_phase := keeps_phase

theorem confines : placement.Confines Operation.isShutdown elsewhere (· ≠ unbound) where
  counts := by simp
  operation op _ := by cases op <;> simp [placement, ofOperation, Operation.isShutdown]
  after place a answer hu ha := by
    have hturn := turn_after ha hu answer
    change place.after a answer ≠ unbound ∧ (place.after a answer = elsewhere ↔ place = elsewhere)
    generalize place.after a answer = place' at hturn
    cases hturn with
    | work h => rcases h with rfl | rfl | rfl <;> simp
    | tell h => rcases h with rfl | rfl <;> simp
    | close h => rcases h with rfl | rfl | rfl <;> simp
    | kill h => rcases h with rfl | rfl <;> simp
    | _ => simp
  spawn place phase hu ha := by
    have hturn := turn_after ha hu ()
    generalize place.after (.spawn phase) () = place' at hturn
    cases hturn with
    | work _ ha => cases ha
    | other ha => exact ha
  resume place phase hu hf := by
    rcases hf with hf | hf
    · exact hf
    · exact absurd hf hu

end ShuttingDown

end Liaison
