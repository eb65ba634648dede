import Liaison.Proofs.Session.Acknowledgement
import Liaison.Proofs.Session.TaskPlaces

/-!
# Readiness

An operation looks at the session first, and goes on only if the session is ready. It became ready after a handshake
had told the server. So the server has been told before it hears anything but the messages that begin and end a
session, and answers.
-/

namespace Liaison

/-! ## Looking first -/

def Operation.isRaw : Operation → Bool
  | call _ _ _ | notify _ _ => true
  | _ => false

/-- The state in which the operation wants to find the session, if it looks. -/
def Operation.wanted? : Operation → Option SessionState
  | handshake => some .starting
  | openFile _ | closeFile _ | fileChanged _ | locate _ _ _ | references _ _ _ | hover _ _ | rename _ _ _
  | documentSymbols _ _ | workspaceSymbols _ _ | pullDiagnostics _ _ | awaitDiagnostics _ _ => some .ready
  | _ => none

theorem Operation.wanted?_of_silent {op : Operation} (h : op.methods = []) : op.wanted? = none := by
  cases op <;> first | rfl | cases h

theorem Operation.cases_of_isRaw {op : Operation} (h : op.isRaw = false) :
    op = .handshake ∨ op = .shutdown ∨ op.wanted? = some .ready ∨ op.methods = [] := by
  cases op with
  | handshake => exact .inl rfl
  | shutdown => exact .inr (.inl rfl)
  | call method params timeout => cases h
  | notify method params => cases h
  | documentVersion path => exact .inr (.inr (.inr rfl))
  | openDocuments => exact .inr (.inr (.inr rfl))
  | cancel id reason => exact .inr (.inr (.inr rfl))
  | closeStream => exact .inr (.inr (.inr rfl))
  | _ => exact .inr (.inr (.inl rfl))

section

variable {σ : Type} {R : Rules σ} {s : σ}

theorem speaks_of_toJson {method : String}
    (h : ∀ m : Message, m.method? = some method → R.Tolerates s (.enqueue m.toJson)) : R.Speaks s method :=
  ⟨fun _ _ => h _ rfl, fun _ => h _ rfl⟩

theorem stays_ready (h : R.IsEasy s) (hc : R.Tolerates s .enqueueClose) (o : ClientOptions) {op : Operation}
    (hw : op.wanted? = some .ready) (hm : ∀ method ∈ op.methods, R.Speaks s method) :
    R.Stays s none (op.routine o) := by
  apply stays_operation h hc o _ _ hm
  · rintro rfl
    cases hw
  · rintro rfl
    cases hw

theorem stays_silent (h : R.IsEasy s) (hc : R.Tolerates s .enqueueClose) (o : ClientOptions) {op : Operation}
    (hn : op.methods = []) : R.Stays s none (op.routine o) := by
  apply stays_operation h hc o
  · rintro rfl
    cases hn
  · rintro rfl
    cases hn
  · simp [hn]

end

def Routine.LooksFor (wanted : SessionState) : Routine Next → Prop
  | .done (.finish _) => True
  | .step .state next => ∀ state, state ≠ wanted → ∃ result, next state = .done (.finish result)
  | _ => False

theorem looksFor_ensureReady {α : Type} {f : Unit → Attempt α} {next : Except CallError α → Routine Next}
    (h : ∀ e, ∃ result, next (.error e) = .done (.finish result)) :
    ((ensureReady >>= f).run >>= next).LooksFor .ready := by
  refine (fun state hs => ?_ : ∀ state : SessionState, state ≠ .ready → _)
  cases state with
  | ready => exact absurd rfl hs
  | _ => exact h _

theorem looksFor_finishing {α : Type} (found : α → Finding) {f : Unit → Attempt α} :
    (finishing found (ensureReady >>= f)).LooksFor .ready :=
  looksFor_ensureReady fun e => ⟨.error e, rfl⟩

theorem looksFor_placeRequest {α : Type} (found : α → Finding) (o : ClientOptions) (method : String) (place : Place)
    (timeout : Option Nat) (params : String → Wire.Position → Json) {f : Json → Attempt α} :
    (finishing found (placeRequest o method place timeout params >>= f)).LooksFor .ready := by
  unfold placeRequest
  cases Wire.Position.ofOneIndexed? place.line place.column with
  | none => exact trivial
  | some position =>
    simp only [bind_assoc]
    exact looksFor_finishing found

theorem looksFor_documentRequest {α : Type} (found : α → Finding) (o : ClientOptions) (method : String) (path : Path)
    (timeout : Option Nat) {f : String × Json → Attempt α} :
    (finishing found (documentRequest o method path timeout >>= f)).LooksFor .ready := by
  unfold documentRequest
  simp only [bind_assoc]
  exact looksFor_finishing found

theorem looksFor_handshake (o : ClientOptions) (found : Unit → Finding) :
    (finishing found (handshake o)).LooksFor .starting := by
  refine (fun state hs => ?_ : ∀ state : SessionState, state ≠ .starting → _)
  cases state with
  | starting => exact absurd rfl hs
  | _ => exact ⟨_, rfl⟩

theorem looksFor_operation (o : ClientOptions) {op : Operation} {wanted : SessionState} (h : op.wanted? = some wanted) :
    (op.routine o).LooksFor wanted := by
  cases op <;> cases h
  case handshake => exact looksFor_handshake o _
  case openFile path => exact looksFor_finishing _
  case closeFile path => exact looksFor_finishing _
  case fileChanged path => exact looksFor_finishing _
  case locate goal place timeout => exact looksFor_placeRequest .locations o _ place timeout _
  case references place withDeclaration timeout => exact looksFor_placeRequest .locations o _ place timeout _
  case hover place timeout => exact looksFor_placeRequest .hover o _ place timeout _
  case rename place newName timeout => exact looksFor_placeRequest .edits o _ place timeout _
  case documentSymbols path timeout => exact looksFor_documentRequest .symbols o _ path timeout
  case workspaceSymbols query timeout => exact looksFor_finishing _
  case pullDiagnostics path timeout => exact looksFor_documentRequest .diagnostics o _ path timeout
  case awaitDiagnostics path timeout => exact looksFor_ensureReady fun e => ⟨.error e, rfl⟩

/-- A routine that looks first keeps to the rules from where it looks, if it does so from where the look leads. -/
theorem Routine.LooksFor.keeps {σ : Type} {R : Rules σ} {s s' : σ} {fits : Next → σ → Prop} {wanted : SessionState}
    {r : Routine Next} (hr : r.LooksFor wanted) (h : r.Keeps R s' fits) (ha : R.Allows s .state)
    (hs : R.after s .state wanted = R.after s' .state wanted)
    (hend : ∀ result place, fits (.finish result) place) : r.Keeps R s fits := by
  cases r with
  | done next =>
    cases next with
    | finish result => exact hend result s
    | resume phase => exact hr.elim
  | step a next =>
    cases a with
    | state =>
      refine ⟨ha, fun state => ?_⟩
      by_cases e : state = wanted
      · subst e
        rw [hs]
        exact h.2 state
      · obtain ⟨result, he⟩ := hr state e
        rw [he]
        exact hend result _
    | _ => exact hr.elim

/-! ## The rules of readiness -/

/-- The frame answers a request, or it is a message with one of the methods. -/
def Json.IsAmong (methods : List String) (frame : Json) : Prop :=
  (∃ id outcome, frame = (Message.response id outcome).toJson) ∨ ∃ method ∈ methods, frame.hasMethod method = true

theorem isAmong_toJson_iff {methods : List String} {m : Message} :
    m.toJson.IsAmong methods ↔ ∀ method, m.method? = some method → method ∈ methods := by
  constructor
  · intro h method hm
    rcases h with ⟨id, outcome, he⟩ | ⟨known, hmem, hf⟩
    · have hmethod : m.toJson.hasMethod method = true := by simp [hasMethod_toJson, hm]
      simp [he, hasMethod_toJson, Message.method?] at hmethod
    · rw [hasMethod_toJson, decide_eq_true_iff, hm, Option.some.injEq] at hf
      rwa [hf]
  · intro h
    cases m with
    | response id outcome => exact .inl ⟨id, outcome, rfl⟩
    | request id method params => exact .inr ⟨method, h method rfl, by simp [hasMethod_toJson, Message.method?]⟩
    | notification method params => exact .inr ⟨method, h method rfl, by simp [hasMethod_toJson, Message.method?]⟩

theorem speaks_of_isAmong {σ : Type} {R : Rules σ} {s : σ} {methods : List String} {method : String}
    (h : ∀ frame : Json, frame.IsAmong methods → R.Tolerates s (.enqueue frame)) (hm : method ∈ methods) :
    R.Speaks s method := by
  apply speaks_of_toJson
  intro m hmethod
  apply h
  apply isAmong_toJson_iff.mpr
  intro method' hmethod'
  rw [hmethod, Option.some.injEq] at hmethod'
  rwa [← hmethod']

theorem eq_of_hasMethod {frame : Json} {method other : String} (h : frame.hasMethod method = true)
    (ho : frame.hasMethod other = true) : method = other := by
  unfold Json.hasMethod at h ho
  split at h
  · rename_i m hm
    rw [hm] at ho
    simp only [decide_eq_true_eq] at h ho
    rw [← h, ← ho]
  · cases h

namespace Json.IsAmong

variable {methods more : List String} {frame : Json} {method : String}

theorem mono (h : frame.IsAmong methods) (hm : ∀ method ∈ methods, method ∈ more) : frame.IsAmong more := by
  rcases h with h | ⟨method, hmem, hf⟩
  · exact .inl h
  · exact .inr ⟨method, hm method hmem, hf⟩

theorem hasMethod_eq_false (h : frame.IsAmong methods) (hm : method ∉ methods) : frame.hasMethod method = false := by
  rcases h with ⟨id, outcome, rfl⟩ | ⟨known, hmem, hf⟩
  · simp [hasMethod_toJson, Message.method?]
  · rw [Bool.eq_false_iff]
    intro he
    exact hm (eq_of_hasMethod hf he ▸ hmem)

end Json.IsAmong

/-- The frame belongs to the beginning or to the end of a session, or answers a request. -/
def Json.IsFormal (frame : Json) : Prop :=
  frame.IsAmong ["initialize", "initialized", "shutdown", "exit"]

inductive Readying where
  | fresh
  | unsure
  | sure

namespace Readying

def ofPhase : Phase → Readying
  | .answering m => if m.method? = none then unsure else sure
  | _ => unsure

def ofOperation (op : Operation) : Readying :=
  if op.wanted?.isSome = true then fresh else unsure

def Allows : Readying → Action → Prop
  | fresh, a => a = .state
  | unsure, .enqueue frame => frame.IsFormal
  | unsure, .transition _ next => next ≠ .ready
  | _, .spawn phase => ofPhase phase = unsure
  | _, _ => True

def after : Readying → (a : Action) → a.Answer → Readying
  | fresh, .state, state => if state = .ready then sure else unsure
  | unsure, .enqueue frame, some _ => if frame.hasMethod "initialized" then sure else unsure
  | place, _, _ => place

def Fits : Next → Readying → Prop
  | .finish _, _ => True
  | .resume phase, _ => ofPhase phase = unsure

def rules : Rules Readying :=
  ⟨Allows, after⟩

theorem tolerates_sure {a : Action} (h : ∀ phase, a = .spawn phase → ofPhase phase = unsure) :
    rules.Tolerates sure a := by
  constructor
  · cases a with
    | spawn phase => exact h phase rfl
    | _ => exact trivial
  · intro answer
    cases a <;> rfl

theorem tolerates_unsure {a : Action} (h : Allows unsure a)
    (hm : ∀ frame, a = .enqueue frame → frame.hasMethod "initialized" = false) : rules.Tolerates unsure a := by
  refine ⟨h, ?_⟩
  intro answer
  cases a with
  | enqueue frame =>
    cases answer with
    | none => rfl
    | some ticket => exact if_neg (by simp [hm frame rfl])
  | _ => rfl

theorem isEasy_sure : rules.IsEasy sure := by
  intro a ha
  apply tolerates_sure
  rintro phase rfl
  cases ha

theorem isEasy_unsure : rules.IsEasy unsure := by
  intro a ha
  cases a <;> first | exact tolerates_unsure trivial (by simp) | cases ha

theorem serves_unsure (service : Service) : rules.Serves unsure service := by
  intro a ha
  cases a <;> first | exact tolerates_unsure trivial (by simp) | cases ha

theorem speaks_sure (method : String) : rules.Speaks sure method :=
  ⟨fun _ _ => tolerates_sure (by simp), fun _ => tolerates_sure (by simp)⟩

theorem tolerates_message {frame : Json} (h : frame.IsAmong ["initialize", "shutdown", "exit"]) :
    rules.Tolerates unsure (.enqueue frame) := by
  have hformal : Allows unsure (.enqueue frame) := h.mono (by simp)
  apply tolerates_unsure hformal
  intro frame' he
  cases he
  exact h.hasMethod_eq_false (by simp)

theorem speaks_unsure {method : String} (h : method ∈ ["initialize", "shutdown", "exit"]) :
    rules.Speaks unsure method :=
  speaks_of_isAmong (fun _ => tolerates_message) h

theorem ends_unsure : rules.Ends unsure :=
  ⟨tolerates_unsure trivial (by simp), fun _ => tolerates_unsure trivial (by simp), tolerates_unsure trivial (by simp),
    tolerates_unsure trivial (by simp)⟩

theorem ends_sure : rules.Ends sure :=
  ⟨tolerates_sure (by simp), fun _ => tolerates_sure (by simp), tolerates_sure (by simp), tolerates_sure (by simp)⟩

theorem ofPhase_eq_unsure {p : Phase} (hp : ∀ m, p ≠ .answering m) : ofPhase p = unsure := by
  cases p with
  | answering m => exact absurd rfl (hp m)
  | _ => rfl

theorem keeps_of_stays {place : Readying} {service : Option Service} {r : Routine Next}
    (h : rules.Stays place service r) : r.Keeps rules place Fits :=
  h.keeps (fun _ => trivial) fun _ _ hp => ofPhase_eq_unsure hp

theorem keeps_greeting (params : Option Json) : (notify "initialized" params).run.Keeps rules unsure fun result place =>
    (result = .ok () ∧ place = sure) ∨ ((∃ e, result = .error e) ∧ (place = unsure ∨ place = sure)) := by
  have hformal : (Message.notification "initialized" params).toJson.IsFormal :=
    isAmong_toJson_iff.mpr (by simp [Message.method?])
  have hmethod : (Message.notification "initialized" params).toJson.hasMethod "initialized" = true := by
    simp [hasMethod_toJson, Message.method?]
  unfold notify send
  refine Attempt.keeps_bind.mpr ⟨hformal, fun ticket => ?_⟩
  cases ticket with
  | none => exact .inr ⟨⟨_, rfl⟩, .inl rfl⟩
  | some ticket =>
    have hafter : rules.after unsure (.enqueue (Message.notification "initialized" params).toJson)
        (some ticket) = sure := if_pos hmethod
    rw [hafter]
    refine Attempt.keeps_bind.mpr ((Attempt.calm_act (isEasy_sure (.awaitReceipt ticket) rfl)).mono ?_)
    rintro receipt _ rfl
    cases receipt with
    | error e => exact .inr ⟨⟨e, rfl⟩, .inr rfl⟩
    | ok receipt =>
      cases receipt with
      | written => exact .inl ⟨rfl, rfl⟩
      | failed reason => exact .inr ⟨⟨_, rfl⟩, .inr rfl⟩
      | dropped => exact .inr ⟨⟨_, rfl⟩, .inr rfl⟩

theorem keeps_greet (o : ClientOptions) (rootUri : String) :
    (greet o rootUri).run.Keeps rules unsure fun _ _ => True := by
  have hmove : ((do
      if ← act (.transition .starting .ready) then return
      else throw (.sessionClosed "session ended during initialize") : Attempt Unit)).run.Keeps rules sure
        fun _ _ => True := by
    refine Attempt.keeps_bind.mpr ⟨trivial, fun moved => ?_⟩
    cases moved <;> exact trivial
  have hgreeting : (orAbort "initialized notification failed" (notify "initialized" (some (.obj [])))).run.Keeps rules
      unsure fun result place => result = .ok () → place = sure := by
    unfold orAbort
    apply Attempt.keeps_outcome_bind
    apply (keeps_greeting _).mono
    rintro _ _ (⟨rfl, rfl⟩ | ⟨⟨e, rfl⟩, hplace⟩)
    · exact fun _ => rfl
    · refine Attempt.keeps_bind.mpr (Routine.keeps_bind.mpr ?_)
      rcases hplace with rfl | rfl
      · exact (calm_abort ends_unsure _).mono fun _ _ _ he => by cases he
      · exact (calm_abort ends_sure _).mono fun _ _ _ he => by cases he
  unfold greet
  apply Attempt.keeps_bind.mpr
  apply (calm_orAbort ends_unsure _ (calm_call isEasy_unsure.isPlain (speaks_unsure (by simp)) _ _)).mono
  rintro result _ rfl
  cases result with
  | error e => exact trivial
  | ok result =>
    refine Attempt.keeps_bind.mpr ⟨trivial, fun _ => ?_⟩
    refine Attempt.keeps_bind.mpr ⟨trivial, fun _ => ?_⟩
    apply Attempt.keeps_bind.mpr
    apply hgreeting.mono
    intro greeted place hplace
    cases greeted with
    | error e => exact trivial
    | ok _ =>
      rw [hplace rfl]
      exact hmove

theorem keeps_operation (o : ClientOptions) {op : Operation} (h : op.isRaw = false) :
    (op.routine o).Keeps rules (ofOperation op) Fits := by
  rcases op.cases_of_isRaw h with rfl | rfl | hw | hn
  · have hhandshake := keeps_handshake isEasy_unsure.isPlain o (keeps_greet o) fun _ => trivial
    have hkeeps : (Operation.handshake.routine o).Keeps rules unsure Fits :=
      Routine.keeps_bind.mpr (hhandshake.mono fun _ _ _ => trivial)
    exact (looksFor_operation o rfl).keeps hkeeps rfl rfl fun _ _ => trivial
  · refine keeps_of_stays (stays_over (calm_shutdown isEasy_unsure.isPlain ends_unsure (speaks_unsure (by simp))
      (speaks_unsure (by simp)) ?_) none)
    exact fun before => tolerates_unsure (by simp [Allows]) (by simp)
  · have hstays := stays_ready isEasy_sure ends_sure.enqueueClose o hw fun method _ => speaks_sure method
    have hplace : ofOperation op = fresh := by simp [ofOperation, hw]
    rw [hplace]
    exact (looksFor_operation o hw).keeps (keeps_of_stays hstays) rfl rfl fun _ _ => trivial
  · have hplace : ofOperation op = unsure := by simp [ofOperation, Operation.wanted?_of_silent hn]
    rw [hplace]
    exact keeps_of_stays (stays_silent isEasy_unsure ends_unsure.enqueueClose o hn)

theorem keeps_phase (p : Phase) : p.routine.Keeps rules (ofPhase p) Fits := by
  have hother : ∀ {p : Phase}, (∀ m, p ≠ .answering m) → p.routine.Keeps rules (ofPhase p) Fits := by
    intro p hp
    rw [ofPhase_eq_unsure hp]
    exact keeps_of_stays (stays_phase isEasy_unsure.isPlain ends_unsure (fun _ _ => serves_unsure _)
      (fun _ _ => tolerates_unsure rfl (by simp)) fun m he => absurd he (hp m))
  cases p with
  | answering m =>
    rw [ofPhase]
    split
    · rename_i hm
      have hanswer : m.toJson.IsAmong ["initialize", "shutdown", "exit"] := isAmong_toJson_iff.mpr (by simp [hm])
      exact keeps_of_stays (stays_answering isEasy_unsure.isPlain (tolerates_message hanswer))
    · exact keeps_of_stays (stays_answering isEasy_sure.isPlain (tolerates_sure (by simp)))
  | _ => exact hother fun _ => Phase.noConfusion

def placement : Placement rules where
  Admits op := op.isRaw = false
  operation := ofOperation
  phase := ofPhase
  Fits := Fits
  keeps_operation o _ h := keeps_operation o h
  keeps_phase := keeps_phase

theorem ne_sure {m : Machine} {places : TaskId → Readying} {t : TaskId} {place : Readying}
    (h : placement.Enters m places t place) : place ≠ sure := by
  have hphase : ∀ {phase}, ofPhase phase = unsure → placement.phase phase ≠ sure := by
    intro phase hp
    change ofPhase phase ≠ sure
    rw [hp]
    exact Readying.noConfusion
  cases h with
  | @start op hu ha =>
    change ofOperation op ≠ sure
    unfold ofOperation
    split <;> exact Readying.noConfusion
  | @spawn u phase hu ha =>
    apply hphase
    cases hplace : places u with
    | fresh =>
      rw [hplace] at ha
      cases ha
    | unsure =>
      rw [hplace] at ha
      exact ha
    | sure =>
      rw [hplace] at ha
      exact ha
  | resume hf => exact hphase hf

end Readying

/-! ## Telling the server first -/

theorem split_concat {α : Type} {l before after : List α} {a b : α} (h : l ++ [a] = before ++ b :: after) :
    (before = l ∧ b = a ∧ after = []) ∨ ∃ after', after = after' ++ [a] ∧ l = before ++ b :: after' := by
  induction after using List.reverseRecOn with
  | nil =>
    obtain ⟨rfl, hab⟩ := List.append_inj' h rfl
    cases hab
    exact .inl ⟨rfl, rfl, rfl⟩
  | append_singleton after c _ =>
    rw [← List.cons_append, ← List.append_assoc] at h
    obtain ⟨rfl, hac⟩ := List.append_inj' h rfl
    cases hac
    exact .inr ⟨after, rfl, rfl⟩

theorem handedIn_concat (h : History) (d : Deed) : handedIn (h ++ [d]) = handedIn h ++ d.handsIn?.toList :=
  filterMap_concat _ h d

/-- Every frame has a property that looks at the frames before it. -/
def InOrder (P : List Json → Json → Prop) (frames : List Json) : Prop :=
  ∀ before frame after, frames = before ++ frame :: after → P before frame

namespace InOrder

variable {P : List Json → Json → Prop} {frames more : List Json} {frame : Json}

theorem of_isPrefix (h : InOrder P more) (hp : frames <+: more) : InOrder P frames := by
  obtain ⟨rest, rfl⟩ := hp
  rintro before frame after rfl
  exact h before frame (after ++ rest) (by simp)

theorem concat (h : InOrder P frames) (hf : P frames frame) : InOrder P (frames ++ [frame]) := by
  intro before frame' after he
  rcases split_concat he with ⟨rfl, rfl, -⟩ | ⟨after', -, rfl⟩
  · exact hf
  · exact h before frame' after' rfl

end InOrder

def Greets (frames : List Json) : Prop :=
  ∃ frame ∈ frames, frame.hasMethod "initialized" = true

/-- Every frame is formal or comes after one that tells the server that the session is ready. -/
def IsGreeted (frames : List Json) : Prop :=
  InOrder (fun before frame => frame.IsFormal ∨ Greets before) frames

theorem Greets.append {frames : List Json} (h : Greets frames) (more : List Json) : Greets (frames ++ more) := by
  obtain ⟨frame, hm, hf⟩ := h
  exact ⟨frame, List.mem_append_left _ hm, hf⟩

structure Greeted (x : Course) (places : TaskId → Readying) : Prop where
  sure : ∀ t, places t = .sure → Greets (handedIn x.history)
  ready : x.machine.state = .ready → Greets (handedIn x.history)
  order : IsGreeted (handedIn x.history)

namespace Greeted

variable {x : Course} {places : TaskId → Readying} {t : TaskId} {a : Action} {answer : a.Answer} {m : Machine}

theorem ready_after (h : Greeted x places) (ha : (places t).Allows a) (hp : x.machine.perform t a = some (answer, m))
    (hm : m.state = .ready) : Greets (handedIn x.history) := by
  cases a with
  | transition before next =>
    rcases transition_perform hp with ⟨-, -, hs⟩ | ⟨-, -, hs⟩
    · have hsure : places t = .sure := by
        cases hplace : places t with
        | sure => rfl
        | fresh =>
          rw [hplace] at ha
          cases ha
        | unsure =>
          rw [hplace] at ha
          exact absurd (hs ▸ hm) ha
      exact h.sure t hsure
    · exact h.ready (hs ▸ hm)
  | terminate =>
    cases hp
    cases hm
  | _ => exact h.ready ((spares_perform hp).state (by simp [Action.reach]) ▸ hm)

theorem sure_after (h : Greeted x places) (ha : (places t).Allows a) (hp : x.machine.perform t a = some (answer, m))
    (hs : (places t).after a answer = .sure) : Greets (handedIn (x.history ++ [⟨t, a, answer⟩])) := by
  rw [handedIn_concat]
  cases hplace : places t with
  | sure => exact (h.sure t hplace).append _
  | fresh =>
    rw [hplace] at ha hs
    cases ha
    have hready : answer = SessionState.ready := by
      by_contra hne
      rw [Readying.after, if_neg hne] at hs
      cases hs
    cases hp
    exact (h.ready hready).append _
  | unsure =>
    rw [hplace] at hs
    cases a with
    | enqueue frame =>
      cases answer with
      | none => cases hs
      | some ticket =>
        rw [Readying.after] at hs
        split at hs
        · rename_i hmethod
          exact ⟨frame, by simp [Deed.handsIn?], hmethod⟩
        · cases hs
    | _ => cases hs

theorem act (h : Greeted x places) (ha : (places t).Allows a) (hp : x.machine.perform t a = some (answer, m)) :
    Greeted ⟨m, x.history ++ [⟨t, a, answer⟩]⟩ (Function.update places t ((places t).after a answer)) := by
  constructor
  · intro u hu
    by_cases e : u = t
    · subst e
      rw [Function.update_self] at hu
      exact h.sure_after ha hp hu
    · rw [Function.update_of_ne e] at hu
      rw [handedIn_concat]
      exact (h.sure u hu).append _
  · intro hm
    rw [handedIn_concat]
    exact (h.ready_after ha hp hm).append _
  · rw [handedIn_concat]
    cases hd : Deed.handsIn? ⟨t, a, answer⟩ with
    | none => simpa using h.order
    | some frame =>
      apply h.order.concat
      -- Only a task that is sure hands in anything else.
      cases a with
      | enqueue frame' =>
        cases answer with
        | none => cases hd
        | some ticket =>
          cases hd
          cases hplace : places t with
          | sure => exact .inr (h.sure t hplace)
          | unsure =>
            rw [hplace] at ha
            exact .inl ha
          | fresh =>
            rw [hplace] at ha
            cases ha
      | _ => cases hd

theorem upholds : Readying.placement.Upholds (fun _ _ => True) Greeted where
  alike h hm := ⟨h.sure, fun hs => h.ready (hm.state ▸ hs), h.order⟩
  enter := by
    intro x places t s h hs
    refine ⟨?_, h.ready, h.order⟩
    intro u hu
    by_cases e : u = t
    · subst e
      rw [Function.update_self] at hu
      exact absurd hu (Readying.ne_sure hs)
    · rw [Function.update_of_ne e] at hu
      exact h.sure u hu
  act h ha hp := h.act ha hp
  drop h _ := ⟨h.sure, fun hs => h.ready ((drop_eq _ _).1 ▸ hs), h.order⟩

end Greeted

theorem greeted_connected (o : ClientOptions) (files : FileTree) (hasProcess : Bool) :
    Greeted (Course.connected o files hasProcess) (Readying.placement.connected o files hasProcess .unsure) := by
  have hplace : ∀ t, Readying.placement.connected o files hasProcess .unsure t = .unsure :=
    Placement.connected_eq rfl rfl (fun _ _ => rfl) rfl o files hasProcess
  constructor
  · intro t ht
    rw [hplace t] at ht
    cases ht
  · exact fun hs => SessionState.noConfusion hs
  · intro before frame after he
    simp [Course.connected, handedIn] at he

/-! ## Whole runs -/

/-- A frame whose writing failed is the next one after those that were written. -/
theorem WriteInvariant.torn_isPrefix {occurrences : List Occurrence} {x : Course} {places : TaskId → Writing}
    (h : WriteInvariant occurrences x places) {frame : Json} (hf : Failed x.history frame) :
    x.machine.outlet.frames ++ [frame] <+: handedIn x.history := by
  obtain ⟨ticket, hhand⟩ := Writing.inHand_of_failed ((h.books.wire.failures frame).mp hf)
  have hpre := h.books.account.sends_isPrefix.filterMap Errand.frame?
  rw [hhand, List.filterMap_append, frames_sends] at hpre
  rw [handedIn_eq]
  exact hpre

/-- Whatever happens to a session, from its being connected on: the server is told that the session is ready before
anything is written to it, or begun to be written, that does not belong to the beginning or the end of the session and
is no answer. -/
theorem initialized_precedes_other_frames (o : ClientOptions) (files : FileTree) (hasProcess : Bool)
    (occurrences : List Occurrence) (h : ∀ op, .start op ∈ occurrences → op.isRaw = false) :
    let x := (Course.connected o files hasProcess).run occurrences
    IsGreeted x.machine.outlet.frames ∧
      ∀ frame, Failed x.history frame → frame.IsFormal ∨ Greets x.machine.outlet.frames := by
  intro x
  have hconnecting : connecting.Keeps Readying.rules .unsure Readying.placement.Fits :=
    ⟨SessionState.noConfusion, fun _ => trivial⟩
  obtain ⟨_, hgreeted⟩ := Greeted.upholds.run_connected hconnecting (greeted_connected o files hasProcess) occurrences h
    fun _ _ _ _ => trivial
  obtain ⟨_, hwritten⟩ := writeInvariant_run_connected o files hasProcess occurrences
  refine ⟨hgreeted.order.of_isPrefix hwritten.frames_isPrefix, ?_⟩
  intro frame hf
  exact hgreeted.order.of_isPrefix (hwritten.torn_isPrefix hf) _ frame [] rfl

def plainOptions : ClientOptions :=
  ⟨"rust", "rust", [0x2F, 0x77], none, 1, 1, .null⟩

def turns (n : Nat) (tasks : List TaskId) : List Occurrence :=
  (List.replicate n (tasks.map .step)).flatten

theorem exists_step_of_mem_turns {n : Nat} {tasks : List TaskId} {e : Occurrence} (h : e ∈ turns n tasks) :
    ∃ t, e = .step t := by
  obtain ⟨round, hround, he⟩ := List.mem_flatten.mp h
  rw [List.eq_of_mem_replicate hround] at he
  obtain ⟨t, -, rfl⟩ := List.mem_map.mp he
  exact ⟨t, rfl⟩

@[simp] theorem start_not_mem_turns (n : Nat) (tasks : List TaskId) (op : Operation) : .start op ∉ turns n tasks := by
  intro h
  obtain ⟨_, he⟩ := exists_step_of_mem_turns h
  cases he

@[simp] theorem drop_not_mem_turns (n : Nat) (tasks : List TaskId) (t : TaskId) : .drop t ∉ turns n tasks := by
  intro h
  obtain ⟨_, he⟩ := exists_step_of_mem_turns h
  cases he

/-- A client is connected, and a file is opened before its handshake is carried out and after that. -/
def openedTwice : List Occurrence :=
  List.flatten [
    turns 2 [3], [.start (.openFile [0x61])], turns 2 [4], [.start .handshake], turns 9 [5, 0],
    [.receive (Frame.write (Message.reply (.ofNat 1) (.obj [])).toJson)], turns 9 [1, 5, 0],
    [.start (.openFile [0x61])], turns 15 [6, 0]]

theorem initialized_precedes_other_frames_openedTwice :
    let files : FileTree := ⟨[([[0x77]], .directory), ([[0x77], [0x61]], .file [0x78])], []⟩
    let x := (Course.connected plainOptions files false).run openedTwice
    x.machine.outlet.frames.map (fun frame => ["initialize", "initialized", "textDocument/didOpen"].map
        frame.hasMethod) = [[true, false, false], [false, true, false], [false, false, true]] ∧
      IsGreeted x.machine.outlet.frames := by
  refine ⟨by decide +kernel, ?_⟩
  refine (initialized_precedes_other_frames plainOptions _ false openedTwice ?_).1
  intro op hop
  simp [openedTwice] at hop
  rcases hop with rfl | rfl | rfl <;> rfl

end Liaison
