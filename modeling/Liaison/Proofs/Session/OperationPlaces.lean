import Liaison.Proofs.Session.Readiness

/-!
# How far an operation has come

An operation of the client checks what it is given, the session, the path and the file before it turns to the server.
So there are errors that it comes to only while it has done nothing but look, and afterwards it comes to others.
-/

namespace Liaison

def CallError.isLocal : CallError → Bool
  | invalidPosition _ _ | notReady _ | invalidPath _ | file _ => true
  | _ => false

def failsLocally {α : Type} : Except CallError α → Bool
  | .ok _ => false
  | .error e => e.isLocal

/-- The place that the operation is about, if it is about one. -/
def Operation.place? : Operation → Option Place
  | locate _ place _ | references place _ _ | hover place _ | rename place _ _ => some place
  | _ => none

/-- The operation is given a line or a column of zero. -/
def Operation.isMisplaced (op : Operation) : Bool :=
  op.place?.any fun place => place.line = 0 ∨ place.column = 0

def Action.isLook : Action → Bool
  | lineUp _ | awaitTurn _ | leave _ | document _ | readFile _ | snapshot _ => true
  | _ => false

def Action.isTurn : Action → Bool
  | state | register _ | awaitReply _ _ | collect _ | fulfill _ _ => false
  | a => !a.isLook

def Action.bringsLocal : (a : Action) → a.Answer → Bool
  | register _, result => failsLocally result
  | awaitReply _ _, some reply => failsLocally reply
  | collect _, some reply => failsLocally reply
  | _, _ => false

inductive OperationPlace where
  | aside
  | misplaced
  | looking
  | refused
  | acting
  | astray
deriving DecidableEq

namespace OperationPlace

def Allows : OperationPlace → Action → Prop
  | misplaced, _ => False
  | refused, _ => False
  | acting, .state => False
  | astray, _ => True
  | _, .fulfill _ reply => failsLocally reply = false
  | _, _ => True

def after : OperationPlace → (a : Action) → a.Answer → OperationPlace
  | looking, .state, state => if state = .ready then looking else refused
  | looking, a, answer => if a.isLook then looking else if a.bringsLocal answer then astray else acting
  | acting, a, answer => if a.bringsLocal answer then astray else acting
  | place, _, _ => place

def rules : Rules OperationPlace :=
  ⟨Allows, after⟩

def ofPhase : Phase → OperationPlace
  | .awaitingDiagnostics _ _ _ _ => acting
  | _ => aside

def Placed {α : Type} (result : Except CallError α) : Prop :=
  ∀ line column, result ≠ .error (.invalidPosition line column)

def Fits : Next → OperationPlace → Prop
  | .finish result, misplaced => ¬ Placed result
  | .finish result, looking => Placed result
  | .finish result, refused => Placed result
  | .finish result, acting => failsLocally result = false
  | .resume phase, looking => ofPhase phase = acting
  | .resume phase, acting => ofPhase phase = acting
  | .resume _, misplaced => False
  | .resume _, refused => False
  | _, _ => True

theorem placed_of_failsLocally {α : Type} {result : Except CallError α} (h : failsLocally result = false) :
    Placed result := by
  rintro line column rfl
  cases h

theorem placed_ok {α : Type} (a : α) : Placed (.ok a) :=
  placed_of_failsLocally rfl

section

variable {a : Action}

theorem allows_look (h : a.isLook = true) : Allows looking a ∧ Allows acting a := by
  cases a <;> first | exact ⟨trivial, trivial⟩ | cases h

theorem after_look (h : a.isLook = true) (answer : a.Answer) :
    after looking a answer = looking ∧ after acting a answer = acting := by
  cases a <;> first | exact ⟨rfl, rfl⟩ | cases h

theorem after_looking_state (state : SessionState) :
    after looking .state state = if state = .ready then looking else refused := rfl

theorem after_looking_of_ne (h : a ≠ .state) (answer : a.Answer) : after looking a answer =
    if a.isLook then looking else if a.bringsLocal answer then astray else acting := by
  cases a <;> first | rfl | exact absurd rfl h

theorem allows_turn (h : a.isTurn = true) : Allows looking a ∧ Allows acting a := by
  cases a <;> first | exact ⟨trivial, trivial⟩ | cases h

theorem after_turn (h : a.isTurn = true) (answer : a.Answer) :
    after looking a answer = acting ∧ after acting a answer = acting := by
  cases a <;> first | exact ⟨rfl, rfl⟩ | cases h

end

/-! ## Attempts -/

section

variable {α β : Type} {r : Attempt α} {f : α → Attempt β} {a : Action} {uri : String}

def Turned (result : Except CallError α) (place : OperationPlace) : Prop :=
  place = astray ∨ place = acting ∧ failsLocally result = false

def Sound (result : Except CallError α) (place : OperationPlace) : Prop :=
  place = looking ∧ Placed result ∨ Turned result place

def Busy (r : Attempt α) : Prop :=
  r.run.Keeps rules acting Turned

def Careful (r : Attempt α) : Prop :=
  r.run.Keeps rules looking Sound

structure Prudent (r : Attempt α) : Prop where
  careful : Careful r
  busy : Busy r

theorem keeps_astray {fits : α → OperationPlace → Prop} (hf : ∀ a, fits a astray) (r : Routine α) :
    r.Keeps rules astray fits := by
  induction r with
  | done a => exact hf a
  | step a next ih => exact ⟨trivial, fun answer => ih answer⟩

theorem Busy.bind (hr : Busy r) (hf : ∀ a, Busy (f a)) : Busy (r >>= f) := by
  apply Attempt.keeps_bind.mpr
  apply hr.mono
  intro result place hplace
  rcases hplace with rfl | ⟨rfl, hresult⟩
  · cases result with
    | ok a => exact keeps_astray (fun _ => .inl rfl) _
    | error e => exact .inl rfl
  · cases result with
    | ok a => exact hf a
    | error e => exact .inr ⟨rfl, hresult⟩

theorem Careful.bind (hr : Careful r) (hf : ∀ a, Prudent (f a)) : Careful (r >>= f) := by
  apply Attempt.keeps_bind.mpr
  apply hr.mono
  intro result place hplace
  -- The first part has only looked, or has gone astray, or has turned to the server: the second goes on from there.
  rcases hplace with ⟨rfl, hresult⟩ | rfl | ⟨rfl, hresult⟩
  · cases result with
    | ok a => exact (hf a).careful
    | error e => exact .inl ⟨rfl, fun line column he => hresult line column (by cases he; rfl)⟩
  · cases result with
    | ok a => exact keeps_astray (fun _ => .inr (.inl rfl)) _
    | error e => exact .inr (.inl rfl)
  · cases result with
    | ok a => exact (hf a).busy.mono fun _ _ h => .inr h
    | error e => exact .inr (.inr ⟨rfl, hresult⟩)

theorem Prudent.bind (hr : Prudent r) (hf : ∀ a, Prudent (f a)) : Prudent (r >>= f) :=
  ⟨hr.careful.bind hf, hr.busy.bind fun a => (hf a).busy⟩

theorem Prudent.pure (a : α) : Prudent (pure a : Attempt α) :=
  ⟨.inl ⟨rfl, placed_ok a⟩, .inr ⟨rfl, rfl⟩⟩

theorem Prudent.throw {e : CallError} (he : e.isLocal = false) : Prudent (throw e : Attempt α) := by
  have hresult : failsLocally (.error e : Except CallError α) = false := he
  exact ⟨.inl ⟨rfl, placed_of_failsLocally hresult⟩, .inr ⟨rfl, hresult⟩⟩

theorem Prudent.look (a : Action) (ha : a.isLook = true) : Prudent (liftM (act a) : Attempt a.Answer) := by
  obtain ⟨hlooking, hacting⟩ := allows_look ha
  constructor
  · exact ⟨hlooking, fun answer => .inl ⟨(after_look ha answer).1, placed_ok answer⟩⟩
  · exact ⟨hacting, fun answer => .inr ⟨(after_look ha answer).2, rfl⟩⟩

theorem Prudent.turn_bind (a : Action) (ha : a.isTurn = true) {f : a.Answer → Attempt α}
    (hf : ∀ answer, Busy (f answer)) : Prudent (liftM (act a) >>= f) := by
  obtain ⟨hlooking, hacting⟩ := allows_turn ha
  constructor
  · refine Attempt.keeps_bind.mpr ⟨hlooking, fun answer => ?_⟩
    simp only [rules, (after_turn ha answer).1]
    exact (hf answer).mono fun _ _ h => .inr h
  · refine Attempt.keeps_bind.mpr ⟨hacting, fun answer => ?_⟩
    simp only [rules, (after_turn ha answer).2]
    exact hf answer

theorem Prudent.turn (a : Action) (ha : a.isTurn = true) : Prudent (liftM (act a) : Attempt a.Answer) := by
  rw [← bind_pure (liftM (act a) : Attempt a.Answer)]
  exact .turn_bind a ha fun answer => (Prudent.pure answer).busy

theorem Busy.ofExcept {result : Except CallError α} (h : failsLocally result = false) : Busy (.ofExcept result) :=
  .inr ⟨rfl, h⟩

theorem Careful.ofExcept {result : Except CallError α} (h : Placed result) : Careful (.ofExcept result) :=
  .inl ⟨rfl, h⟩

section

variable {g : Except CallError α → Attempt β}

theorem Busy.outcome_bind (hr : Busy r) (hg : ∀ result, failsLocally result = false → Busy (g result)) :
    Busy (r.outcome >>= g) := by
  apply Attempt.keeps_outcome_bind
  apply hr.mono
  intro result place hplace
  rcases hplace with rfl | ⟨rfl, hresult⟩
  · exact keeps_astray (fun _ => .inl rfl) _
  · exact hg result hresult

theorem Prudent.outcome_bind (hr : Prudent r) (hl : ∀ result, Placed result → Careful (g result))
    (hg : ∀ result, failsLocally result = false → Busy (g result)) : Prudent (r.outcome >>= g) := by
  refine ⟨?_, hr.busy.outcome_bind hg⟩
  apply Attempt.keeps_outcome_bind
  apply hr.careful.mono
  intro result place hplace
  rcases hplace with ⟨rfl, hresult⟩ | rfl | ⟨rfl, hresult⟩
  · exact hl result hresult
  · exact keeps_astray (fun _ => .inr (.inl rfl)) _
  · exact (hg result hresult).mono fun _ _ h => .inr h

theorem Prudent.either_bind (hr : Prudent r) (hg : ∀ result, Prudent (g result)) : Prudent (r.outcome >>= g) :=
  hr.outcome_bind (fun result _ => (hg result).careful) fun result _ => (hg result).busy

end

/-! ### Talking to the server -/

theorem prudent_send (m : Message) : Prudent (send m) := by
  unfold send
  apply Prudent.turn_bind (.enqueue _) rfl
  intro ticket
  cases ticket with
  | none => exact (Prudent.throw rfl).busy
  | some ticket =>
    apply (Prudent.turn (.awaitReceipt ticket) rfl).busy.bind
    intro receipt
    cases receipt with
    | written => exact (Prudent.pure _).busy
    | failed reason => exact (Prudent.throw rfl).busy
    | dropped => exact (Prudent.throw rfl).busy

theorem busy_awaitAnswer (method : String) (timeout limit : Option Nat) (id : Nat) :
    Busy (awaitAnswer method timeout limit id) := by
  have hreply : ∀ {reply : Reply} {place}, place = (if failsLocally reply then astray else acting) →
      (Attempt.ofExcept reply).run.Keeps rules place Turned := by
    rintro reply _ rfl
    by_cases h : failsLocally reply = true
    · rw [if_pos h]
      exact .inl rfl
    · rw [if_neg h]
      exact .inr ⟨rfl, by simpa using h⟩
  unfold awaitAnswer
  refine Attempt.keeps_bind.mpr ⟨trivial, fun reply => ?_⟩
  cases reply with
  | some reply => exact hreply rfl
  | none =>
    apply (Prudent.turn (.expire id) rfl).busy.bind
    intro expired
    cases expired with
    | true => exact (Prudent.throw rfl).busy
    | false =>
      refine Attempt.keeps_bind.mpr ⟨trivial, fun reply => ?_⟩
      cases reply with
      | some reply => exact hreply rfl
      | none => exact (Prudent.throw rfl).busy

theorem prudent_call (method : String) (params : Option Json) (timeout : Option Nat) :
    Prudent (call method params timeout) := by
  unfold call
  apply Prudent.turn_bind .nextId rfl
  intro id
  apply (Prudent.turn (.deadline timeout) rfl).busy.bind
  intro limit
  have hregister : Busy (ExceptT.mk (act (.register id))) := by
    refine ⟨trivial, fun result => ?_⟩
    cases h : failsLocally result with
    | true => exact .inl (if_pos h)
    | false => exact .inr ⟨if_neg (by simp [Action.bringsLocal, h]), h⟩
  apply hregister.bind
  intro _
  apply (prudent_send _).busy.outcome_bind
  intro sent hsent
  cases sent with
  | ok _ => exact busy_awaitAnswer method timeout limit id
  | error e =>
    apply (Prudent.turn (.abandon id) rfl).busy.bind
    intro _
    exact (Prudent.throw hsent).busy

/-! ### Documents -/

theorem prudent_withDocument {body : Option OpenDocument → Attempt α} (hb : ∀ document, Prudent (body document)) :
    Prudent (withDocument uri body) := by
  unfold withDocument
  apply (Prudent.look (.lineUp uri) rfl).bind
  intro _
  apply (Prudent.look (.awaitTurn uri) rfl).bind
  intro _
  apply (Prudent.look (.document uri) rfl).bind
  intro document
  apply (hb document).outcome_bind
  · intro result hresult
    exact Attempt.keeps_bind.mpr ⟨trivial, fun _ => .inl ⟨rfl, hresult⟩⟩
  · intro result hresult
    exact Attempt.keeps_bind.mpr ⟨trivial, fun _ => .inr ⟨rfl, hresult⟩⟩

theorem prudent_carryOut (plan : DocumentPlan α) : Prudent (carryOut uri plan) := by
  cases plan with
  | keep answer => exact .pure answer
  | send notice after answer =>
    apply (prudent_send _).either_bind
    intro sent
    cases sent with
    | ok _ => exact .turn_bind (.commit uri after) rfl fun _ => (Prudent.pure answer).busy
    | error e => exact .throw rfl

theorem prudent_openDocument (languageId text : String) : Prudent (openDocument uri languageId text) :=
  prudent_withDocument fun _ => prudent_carryOut _

theorem prudent_changeDocument (languageId text : String) : Prudent (changeDocument uri languageId text) := by
  apply prudent_withDocument
  intro document
  apply (Prudent.turn .syncMode rfl).bind
  intro mode
  exact prudent_carryOut _

theorem prudent_closeDocument : Prudent (closeDocument uri) :=
  prudent_withDocument fun _ => prudent_carryOut _

/-! ### Looking -/

def Looks (r : Attempt α) : Prop :=
  r.run.Keeps rules looking fun result place => place = looking ∧ Placed result

theorem Looks.careful (hr : Looks r) : Careful r :=
  hr.mono fun _ _ h => .inl h

theorem Looks.bind_careful (hr : Looks r) (hf : ∀ a, Careful (f a)) : Careful (r >>= f) := by
  apply Attempt.keeps_bind.mpr
  apply hr.mono
  intro result place hplace
  obtain ⟨rfl, hresult⟩ := hplace
  cases result with
  | ok a => exact hf a
  | error e => exact .inl ⟨rfl, fun line column he => hresult line column (by cases he; rfl)⟩

theorem looks_act (a : Action) (ha : a.isLook = true) : Looks (liftM (act a) : Attempt a.Answer) :=
  ⟨(allows_look ha).1, fun answer => ⟨(after_look ha answer).1, placed_ok answer⟩⟩

theorem looks_uriFor (o : ClientOptions) (path : Path) : Looks (.ofExcept (o.uriFor path)) := by
  refine ⟨rfl, ?_⟩
  intro line column he
  unfold ClientOptions.uriFor at he
  split at he <;> cases he

theorem looks_isOpen : Looks (isOpen uri) :=
  ⟨trivial, fun _ => ⟨trivial, fun _ => ⟨trivial, fun _ => ⟨trivial, fun _ => ⟨rfl, placed_ok _⟩⟩⟩⟩⟩

theorem looks_readText (path : Path) : Looks (readText path) := by
  refine Attempt.keeps_bind.mpr ⟨trivial, fun text => ?_⟩
  cases text with
  | ok text => exact ⟨rfl, placed_ok text⟩
  | error fault => exact ⟨rfl, fun _ _ he => by cases he⟩

theorem careful_ensureOpen (o : ClientOptions) (path : Path) : Careful (ensureOpen o path) := by
  unfold ensureOpen
  apply (looks_uriFor o _).bind_careful
  intro uri
  apply looks_isOpen.bind_careful
  intro isOpen
  split
  · exact (Prudent.pure _).careful
  · apply (looks_readText _).bind_careful
    intro text
    apply (prudent_openDocument _ _).careful.bind
    intro opened
    exact .pure _

theorem prudent_interpreted {ε : Type} (method : String) (message : ε → String) (result : Except ε α) :
    Prudent (interpreted method message result) := by
  cases result with
  | ok a => exact .pure a
  | error e => exact .throw rfl

/-! ## Operations -/

theorem Careful.keeps_bind {next : Except CallError α → Routine Next} (hr : Careful r)
    (hf : ∀ a, (next (.ok a)).Keeps rules looking Fits ∧ (next (.ok a)).Keeps rules acting Fits)
    (he : ∀ e, next (.error e) = .done (.finish (.error e))) : (r.run >>= next).Keeps rules looking Fits := by
  apply Routine.keeps_bind.mpr
  apply hr.mono
  intro result place hplace
  rcases hplace with ⟨rfl, hresult⟩ | rfl | ⟨rfl, hresult⟩
  · cases result with
    | ok a => exact (hf a).1
    | error e =>
      rw [he]
      exact fun line column h => hresult line column (by cases h; rfl)
  · exact keeps_astray (fun next => by cases next <;> trivial) _
  · cases result with
    | ok a => exact (hf a).2
    | error e =>
      rw [he]
      exact hresult

theorem keeps_finishing (found : α → Finding) (h : Careful r) : (finishing found r).Keeps rules looking Fits :=
  h.keeps_bind (fun a => ⟨placed_ok (found a), rfl⟩) fun _ => rfl

theorem keeps_ready {f : Unit → Attempt α} {next : Except CallError α → Routine Next}
    (hf : ((f ()).run >>= next).Keeps rules looking Fits)
    (he : ∀ e, next (.error e) = .done (.finish (.error e))) :
    ((ensureReady >>= f).run >>= next).Keeps rules looking Fits := by
  have hrefused : ∀ {e : CallError}, (∀ line column, e ≠ .invalidPosition line column) →
      (next (.error e)).Keeps rules refused Fits := by
    intro e hp
    rw [he]
    exact fun line column h => hp line column (Except.error.inj h)
  refine ⟨trivial, fun state : SessionState => ?_⟩
  cases state with
  | ready => exact hf
  | notStarted => exact hrefused fun _ _ => CallError.noConfusion
  | starting => exact hrefused fun _ _ => CallError.noConfusion
  | shuttingDown => exact hrefused fun _ _ => CallError.noConfusion
  | terminated => exact hrefused fun _ _ => CallError.noConfusion

theorem keeps_finishing_ready (found : α → Finding) {f : Unit → Attempt α} (hf : Careful (f ())) :
    (finishing found (ensureReady >>= f)).Keeps rules looking Fits :=
  keeps_ready (keeps_finishing found hf) fun _ => rfl

theorem keeps_placeRequest (found : α → Finding) (o : ClientOptions) (method : String) (place : Place)
    (timeout : Option Nat) (params : String → Wire.Position → Json) {f : Json → Attempt α}
    (hf : ∀ answer, Prudent (f answer)) :
    (finishing found (placeRequest o method place timeout params >>= f)).Keeps rules
      (if place.line = 0 ∨ place.column = 0 then misplaced else looking) Fits := by
  unfold placeRequest Wire.Position.ofOneIndexed?
  by_cases h : place.line = 0 ∨ place.column = 0
  · rw [if_pos h, if_pos h]
    exact fun hp => hp _ _ rfl
  · rw [if_neg h, if_neg h]
    simp only [bind_assoc]
    apply keeps_finishing_ready
    apply (careful_ensureOpen o place.path).bind
    intro opened
    exact (prudent_call _ _ _).bind hf

theorem keeps_documentRequest (found : α → Finding) (o : ClientOptions) (method : String) (path : Path)
    (timeout : Option Nat) {f : String × Json → Attempt α} (hf : ∀ answered, Prudent (f answered)) :
    (finishing found (documentRequest o method path timeout >>= f)).Keeps rules looking Fits := by
  unfold documentRequest
  simp only [bind_assoc]
  apply keeps_finishing_ready
  apply (careful_ensureOpen o path).bind
  intro opened
  apply (prudent_call _ _ _).bind
  intro answer
  exact (Prudent.pure _).bind hf

end

def ofOperation (op : Operation) : OperationPlace :=
  if op.isMisplaced then misplaced else looking

theorem ofOperation_of_place {op : Operation} {place : Place} (h : op.place? = some place) :
    ofOperation op = if place.line = 0 ∨ place.column = 0 then misplaced else looking := by
  simp [ofOperation, Operation.isMisplaced, h]

theorem routine_of_place (o : ClientOptions) {op : Operation} {place : Place} (h : op.place? = some place)
    (hz : place.line = 0 ∨ place.column = 0) :
    op.routine o = .done (.finish (.error (.invalidPosition place.line place.column))) := by
  have hrequest : ∀ method timeout params,
      placeRequest o method place timeout params = throw (.invalidPosition place.line place.column) := by
    intro method timeout params
    rw [placeRequest, Wire.Position.ofOneIndexed?, if_pos hz]
  cases op <;> cases h
  case locate goal timeout => simp only [Operation.routine, locate, hrequest]; rfl
  case references withDeclaration timeout => simp only [Operation.routine, references, hrequest]; rfl
  case hover timeout => simp only [Operation.routine, hover, hrequest]; rfl
  case rename newName timeout => simp only [Operation.routine, rename, hrequest]; rfl

theorem keeps_wanted (o : ClientOptions) {op : Operation} (h : op.wanted? = some .ready) :
    (op.routine o).Keeps rules (ofOperation op) Fits := by
  cases op with
  | openFile path =>
    apply keeps_finishing_ready
    apply (careful_ensureOpen o path).bind
    intro opened
    exact .pure _
  | closeFile path =>
    apply keeps_finishing_ready
    apply (looks_uriFor o path).bind_careful
    intro uri
    apply prudent_closeDocument.careful.bind
    intro closed
    by_cases hc : closed = true
    · simp only [hc, if_true]
      exact .turn_bind (.forgetVersion uri) rfl fun _ => (Prudent.pure _).busy
    · simp only [hc]
      exact .pure _
  | fileChanged path =>
    apply keeps_finishing_ready
    apply (looks_uriFor o _).bind_careful
    intro uri
    apply (looks_readText _).bind_careful
    intro text
    exact (prudent_changeDocument _ _).careful
  | locate goal place timeout =>
    rw [ofOperation_of_place rfl]
    exact keeps_placeRequest .locations o _ place timeout _ fun _ => prudent_interpreted _ _ _
  | references place withDeclaration timeout =>
    rw [ofOperation_of_place rfl]
    exact keeps_placeRequest .locations o _ place timeout _ fun _ => prudent_interpreted _ _ _
  | hover place timeout =>
    rw [ofOperation_of_place rfl]
    exact keeps_placeRequest .hover o _ place timeout _ fun _ => prudent_interpreted _ _ _
  | rename place newName timeout =>
    rw [ofOperation_of_place rfl]
    exact keeps_placeRequest .edits o _ place timeout _ fun _ => prudent_interpreted _ _ _
  | documentSymbols path timeout =>
    exact keeps_documentRequest .symbols o _ path timeout fun _ => prudent_interpreted _ _ _
  | workspaceSymbols query timeout =>
    apply keeps_finishing_ready
    exact ((prudent_call _ _ _).bind fun _ => prudent_interpreted _ _ _).careful
  | pullDiagnostics path timeout =>
    apply keeps_documentRequest .diagnostics o _ path timeout
    intro answered
    apply (prudent_interpreted _ _ _).bind
    intro report
    cases report with
    | full diagnostics =>
      apply (prudent_withDocument fun _ => .pure _).bind
      intro version
      apply (Prudent.look (.snapshot _) rfl).bind
      intro cached
      exact .pure _
    | unchanged => exact .look (.snapshot _) rfl
  | awaitDiagnostics path timeout =>
    refine keeps_ready (Careful.keeps_bind ?_ ?_ fun _ => rfl) fun _ => rfl
    · apply (looks_uriFor o path).bind_careful
      intro uri
      apply (looks_act (.snapshot uri) rfl).bind_careful
      intro cached
      apply (careful_ensureOpen o path).bind
      intro opened
      exact .pure _
    · intro opened
      exact ⟨⟨trivial, fun _ => ⟨trivial, fun _ => rfl⟩⟩, ⟨trivial, fun _ => ⟨trivial, fun _ => rfl⟩⟩⟩
  | _ => cases h

/-! ## Placement -/

theorem reserves_aside : rules.Reserves aside .reader := by
  intro a hs _
  refine ⟨?_, fun _ => rfl⟩
  cases a with
  | fulfill id reply => exact absurd rfl hs
  | _ => trivial

theorem keeps_of_stays {service : Option Service} {r : Routine Next} (h : rules.Stays aside service r) :
    r.Keeps rules aside Fits :=
  h.keeps (fun _ => trivial) fun _ _ _ => trivial

theorem failsLocally_replyOf (outcome : Outcome) : failsLocally (Route.replyOf outcome) = false := by
  cases outcome <;> rfl

/-- A reply that is read was made from a response, and so its error is the server's. -/
theorem calm_deliver (frame : Json) : (deliver (.ofFrame frame)).Calm rules aside := by
  unfold Route.ofFrame
  cases Message.ofJson frame with
  | error e => exact ⟨trivial, fun _ => rfl⟩
  | ok m =>
    cases m with
    | response id outcome =>
      simp only [Route.ofMessage]
      cases Route.callId? id with
      | some n => exact ⟨failsLocally_replyOf outcome, fun _ => rfl⟩
      | none => rfl
    | request id method params => exact ⟨trivial, fun _ => rfl⟩
    | notification method params => exact ⟨trivial, fun _ => rfl⟩

theorem keeps_reading : reading.Keeps rules aside Fits := by
  unfold reading
  refine Routine.keeps_bind.mpr ⟨trivial, fun event => ?_⟩
  cases event with
  | frame v => exact (calm_deliver v).keeps_bind fun _ => trivial
  | malformed flaw => exact ⟨trivial, fun _ => trivial⟩
  | ended => exact (calm_endSession reserves_aside.ends _).keeps_bind fun _ => trivial
  | fault cut => exact (calm_endSession reserves_aside.ends _).keeps_bind fun _ => trivial

theorem keeps_awaitingDiagnostics (uri : String) (after seen limit : Nat) :
    (awaitingDiagnostics uri after seen limit).Keeps rules acting Fits := by
  unfold awaitingDiagnostics
  refine ⟨trivial, fun set => ?_⟩
  change Routine.Keeps rules (ite _ _ _) acting Fits
  split
  · exact ⟨trivial, fun _ => rfl⟩
  · refine ⟨trivial, fun notices => ?_⟩
    cases notices with
    | some notices => exact rfl
    | none => exact ⟨trivial, fun _ => rfl⟩

theorem keeps_phase (p : Phase) : p.routine.Keeps rules (ofPhase p) Fits := by
  cases p with
  | reading => exact keeps_reading
  | awaitingDiagnostics uri after seen limit => exact keeps_awaitingDiagnostics uri after seen limit
  | writing | watching => exact keeps_of_stays (reserves_aside.stays_phase (by simp [Phase.service?]))
  | dispatching rootUri sequence => exact keeps_of_stays (reserves_aside.stays_phase (by simp [Phase.service?]))
  | answering m => exact keeps_of_stays (reserves_aside.stays_phase (by simp [Phase.service?]))

def placement : Placement rules where
  Admits _ := True
  operation _ := aside
  phase := ofPhase
  Fits := Fits
  keeps_operation o op _ := keeps_of_stays (reserves_aside.stays_operation o op)
  keeps_phase := keeps_phase

end OperationPlace

end Liaison
