import Liaison.Proofs.Session.Conduct
import Liaison.Proofs.Session.Rules

/-!
# Ordinary work

Most of what tasks do is ordinary: they look around, wait, and see to their own calls and documents. Where rules
tolerate that, and the messages of an operation, the operation leads nowhere else.
-/

namespace Liaison

inductive Service where
  | writer
  | reader
  | dispatcher
  | watcher
deriving DecidableEq

def Action.service? : Action → Option Service
  | nextErrand | write _ | giveReceipt _ _ | closeOutput | stopWriting => some .writer
  | nextFrame | forward _ | fulfill _ _ => some .reader
  | nextInbound | count _ | log _ | present _ _ | publish _ | giveNotice => some .dispatcher
  | awaitChild | publishExit _ => some .watcher
  | _ => none

def Phase.service? : Phase → Option Service
  | writing => some .writer
  | reading => some .reader
  | dispatching _ _ => some .dispatcher
  | watching => some .watcher
  | answering _ | awaitingDiagnostics _ _ _ _ => none

def Action.isOrdinary : Action → Bool
  | enqueue _ | enqueueClose | transition _ _ | terminate | closeCalls _ | kill | spawn _ => false
  | a => a.service?.isNone

def Next.Suits (service : Option Service) : Next → Prop
  | .finish _ => True
  | .resume phase => phase.service? = service ∧ ∀ m, phase ≠ .answering m

def Operation.methods : Operation → List String
  | handshake => ["initialize", "initialized"]
  | shutdown => ["shutdown", "exit"]
  | openFile _ | awaitDiagnostics _ _ => ["textDocument/didOpen"]
  | closeFile _ => ["textDocument/didClose"]
  | fileChanged _ => ["textDocument/didOpen", "textDocument/didChange"]
  | locate goal _ _ => ["textDocument/didOpen", goal.method]
  | references _ _ _ => ["textDocument/didOpen", "textDocument/references"]
  | hover _ _ => ["textDocument/didOpen", "textDocument/hover"]
  | rename _ _ _ => ["textDocument/didOpen", "textDocument/rename"]
  | documentSymbols _ _ => ["textDocument/didOpen", "textDocument/documentSymbol"]
  | workspaceSymbols _ _ => ["workspace/symbol"]
  | pullDiagnostics _ _ => ["textDocument/didOpen", "textDocument/diagnostic"]
  | call method _ _ | notify method _ => [method]
  | documentVersion _ | openDocuments | cancel _ _ | closeStream => []

section

variable {σ : Type} {R : Rules σ} {s : σ}

def Rules.IsEasy (R : Rules σ) (s : σ) : Prop :=
  ∀ a : Action, a.isOrdinary = true → R.Tolerates s a

/-- Ordinary work is tolerated, unless it is done to a document. -/
def Rules.IsPlain (R : Rules σ) (s : σ) : Prop :=
  ∀ a : Action, a.isOrdinary = true → a.isAtDesk = false → R.Tolerates s a

theorem Rules.IsEasy.isPlain (h : R.IsEasy s) : R.IsPlain s :=
  fun a ha _ => h a ha

def Rules.Serves (R : Rules σ) (s : σ) (service : Service) : Prop :=
  ∀ a : Action, a.service? = some service → R.Tolerates s a

structure Rules.Ends (R : Rules σ) (s : σ) : Prop where
  enqueueClose : R.Tolerates s .enqueueClose
  closeCalls : ∀ reason, R.Tolerates s (.closeCalls reason)
  terminate : R.Tolerates s .terminate
  kill : R.Tolerates s .kill

section

variable (h : R.IsPlain s)
include h

/-! ## Talking to the server -/

theorem keeps_send {s₀ : σ} {m : Message} (ha : R.Allows s₀ (.enqueue m.toJson))
    (hs : ∀ ticket, R.after s₀ (.enqueue m.toJson) ticket = s) : (send m).run.Keeps R s₀ fun _ place => place = s := by
  unfold send
  refine Attempt.keeps_bind.mpr ⟨ha, fun ticket => ?_⟩
  rw [hs]
  cases ticket with
  | none => rfl
  | some ticket =>
    apply Attempt.calm_bind (Attempt.calm_act (h (.awaitReceipt ticket) rfl rfl))
    intro receipt
    cases receipt with
    | written => exact Attempt.calm_pure _
    | failed reason => exact Attempt.calm_throw _
    | dropped => exact Attempt.calm_throw _

theorem calm_send {m : Message} (hm : R.Tolerates s (.enqueue m.toJson)) : (send m).run.Calm R s :=
  keeps_send h hm.1 hm.2

theorem calm_notify {method : String} (hm : R.Speaks s method) (params : Option Json) :
    (notify method params).run.Calm R s :=
  calm_send h (hm.notification params)

theorem calm_awaitAnswer (method : String) (timeout limit : Option Nat) (id : Nat) :
    (awaitAnswer method timeout limit id).run.Calm R s := by
  unfold awaitAnswer
  apply Attempt.calm_bind (Attempt.calm_act (h (.awaitReply id limit) rfl rfl))
  intro reply
  cases reply with
  | some reply => exact Attempt.calm_ofExcept reply
  | none =>
    apply Attempt.calm_bind (Attempt.calm_act (h (.expire id) rfl rfl))
    intro expired
    cases expired with
    | true => exact Attempt.calm_throw _
    | false =>
      apply Attempt.calm_bind (Attempt.calm_act (h (.collect id) rfl rfl))
      intro reply
      cases reply with
      | some reply => exact Attempt.calm_ofExcept reply
      | none => exact Attempt.calm_throw _

theorem keeps_call {s₀ : σ} (h₀ : R.IsPlain s₀) {method : String} {params : Option Json} (timeout : Option Nat)
    (ha : ∀ id, R.Allows s₀ (.enqueue (Message.request (.ofNat id) method params).toJson))
    (hs : ∀ id ticket, R.after s₀ (.enqueue (Message.request (.ofNat id) method params).toJson) ticket = s) :
    (call method params timeout).run.Keeps R s₀ fun result place =>
      place = s ∨ (place = s₀ ∧ ∃ e, result = .error e) := by
  unfold call
  refine Attempt.keeps_bind.mpr ((Attempt.calm_act (h₀ .nextId rfl rfl)).mono ?_)
  rintro result _ rfl
  cases result with
  | error e => exact .inr ⟨rfl, e, rfl⟩
  | ok id =>
    refine Attempt.keeps_bind.mpr ((Attempt.calm_act (h₀ (.deadline timeout) rfl rfl)).mono ?_)
    rintro result _ rfl
    cases result with
    | error e => exact .inr ⟨rfl, e, rfl⟩
    | ok limit =>
      refine Attempt.keeps_bind.mpr ((Routine.calm_act (h₀ (.register id) rfl rfl)).mono ?_)
      rintro registered _ rfl
      cases registered with
      | error e => exact .inr ⟨rfl, e, rfl⟩
      | ok _ =>
        apply Attempt.keeps_outcome_bind
        apply (keeps_send h (ha id) (hs id)).mono
        rintro sent _ rfl
        cases sent with
        | ok _ => exact (calm_awaitAnswer h method timeout limit id).mono fun _ _ he => .inl he
        | error e =>
          refine Attempt.keeps_bind.mpr ((Attempt.calm_act (h (.abandon id) rfl rfl)).mono ?_)
          rintro result _ rfl
          cases result <;> exact .inl rfl

theorem calm_request {method : String} {params : Option Json} (timeout : Option Nat)
    (hm : ∀ id, R.Tolerates s (.enqueue (Message.request (.ofNat id) method params).toJson)) :
    (call method params timeout).run.Calm R s := by
  apply (keeps_call h h timeout (fun id => (hm id).1) fun id => (hm id).2).mono
  rintro _ _ (he | ⟨he, -⟩) <;> exact he

theorem calm_call {method : String} (hm : R.Speaks s method) (params : Option Json) (timeout : Option Nat) :
    (call method params timeout).run.Calm R s :=
  calm_request h timeout fun id => hm.request id params

theorem calm_ensureReady : ensureReady.run.Calm R s := by
  unfold ensureReady
  apply Attempt.calm_bind (Attempt.calm_act (h .state rfl rfl))
  intro state
  cases state with
  | ready => exact Attempt.calm_pure _
  | _ => exact Attempt.calm_throw _

theorem calm_readText (path : Path) : (readText path).run.Calm R s := by
  unfold readText
  apply Attempt.calm_bind (Attempt.calm_act (h (.readFile path) rfl rfl))
  intro text
  cases text with
  | ok text => exact Attempt.calm_pure _
  | error fault => exact Attempt.calm_throw _

end

section

variable (h : R.IsEasy s)
include h

/-! ## Documents -/

theorem calm_withDocument {α : Type} (uri : String) {body : Option OpenDocument → Attempt α}
    (hb : ∀ document, (body document).run.Calm R s) : (withDocument uri body).run.Calm R s := by
  unfold withDocument
  apply Attempt.calm_bind (Attempt.calm_act (h (.lineUp uri) rfl))
  intro _
  apply Attempt.calm_bind (Attempt.calm_act (h (.awaitTurn uri) rfl))
  intro _
  apply Attempt.calm_bind (Attempt.calm_act (h (.document uri) rfl))
  intro document
  apply Attempt.calm_outcome_bind (hb document)
  intro result
  apply Attempt.calm_bind (Attempt.calm_act (h (.leave uri) rfl))
  intro _
  exact Attempt.calm_ofExcept result

theorem calm_looking {α : Type} (uri : String) (look : Option OpenDocument → α) :
    (withDocument uri fun document => return look document).run.Calm R s :=
  calm_withDocument h uri fun _ => Attempt.calm_pure _

/-- A plan needs the method of the notification that it sends, if it sends one. -/
theorem calm_carryOut {α : Type} (uri : String) {plan : DocumentPlan α}
    (hp : ∀ notice after answer, plan = .send notice after answer → R.Speaks s notice.method) :
    (carryOut uri plan).run.Calm R s := by
  cases plan with
  | keep answer => exact Attempt.calm_pure answer
  | send notice after answer =>
    unfold carryOut
    apply Attempt.calm_outcome_bind (calm_notify h.isPlain (hp _ _ _ rfl) _)
    intro sent
    cases sent with
    | ok _ =>
      apply Attempt.calm_bind (Attempt.calm_act (h (.commit uri after) rfl))
      intro _
      exact Attempt.calm_pure answer
    | error e => exact Attempt.calm_throw _

theorem calm_openDocument (hm : R.Speaks s "textDocument/didOpen") (uri languageId text : String) :
    (openDocument uri languageId text).run.Calm R s := by
  apply calm_withDocument h
  intro document
  apply calm_carryOut h
  intro notice after answer hp
  cases document with
  | none =>
    cases hp
    exact hm
  | some d => cases hp

theorem calm_changeDocument (ho : R.Speaks s "textDocument/didOpen") (hc : R.Speaks s "textDocument/didChange")
    (uri languageId text : String) : (changeDocument uri languageId text).run.Calm R s := by
  apply calm_withDocument h
  intro document
  apply Attempt.calm_bind (Attempt.calm_act (h .syncMode rfl))
  intro mode
  apply calm_carryOut h
  intro notice after answer hp
  cases document with
  | none =>
    cases hp
    exact ho
  | some d =>
    rw [DocumentStore.planChange] at hp
    split at hp
    · cases hp
    · cases hp
      exact hc

theorem calm_closeDocument (hm : R.Speaks s "textDocument/didClose") (uri : String) :
    (closeDocument uri).run.Calm R s := by
  apply calm_withDocument h
  intro document
  apply calm_carryOut h
  intro notice after answer hp
  cases document with
  | none => cases hp
  | some d =>
    cases hp
    exact hm

theorem calm_ensureOpen (hm : R.Speaks s "textDocument/didOpen") (o : ClientOptions) (path : Path) :
    (ensureOpen o path).run.Calm R s := by
  unfold ensureOpen
  apply Attempt.calm_bind (Attempt.calm_ofExcept _)
  intro uri
  apply Attempt.calm_bind (calm_looking h uri _)
  intro isOpen
  split
  · exact Attempt.calm_pure _
  · apply Attempt.calm_bind (calm_readText h.isPlain _)
    intro text
    apply Attempt.calm_bind (calm_openDocument h hm uri _ _)
    intro opened
    exact Attempt.calm_pure _

theorem calm_openFile (hm : R.Speaks s "textDocument/didOpen") (o : ClientOptions) (path : Path) :
    (openFile o path).run.Calm R s := by
  unfold openFile
  apply Attempt.calm_bind (calm_ensureReady h.isPlain)
  intro _
  apply Attempt.calm_bind (calm_ensureOpen h hm o path)
  intro _
  exact Attempt.calm_pure _

theorem calm_closeFile (hm : R.Speaks s "textDocument/didClose") (o : ClientOptions) (path : Path) :
    (closeFile o path).run.Calm R s := by
  unfold closeFile
  apply Attempt.calm_bind (calm_ensureReady h.isPlain)
  intro _
  apply Attempt.calm_bind (Attempt.calm_ofExcept _)
  intro uri
  apply Attempt.calm_bind (calm_closeDocument h hm uri)
  intro closed
  simp only
  split
  · apply Attempt.calm_bind (Attempt.calm_act (h (.forgetVersion uri) rfl))
    intro _
    exact Attempt.calm_pure _
  · exact Attempt.calm_pure _

theorem calm_fileChanged (ho : R.Speaks s "textDocument/didOpen") (hc : R.Speaks s "textDocument/didChange")
    (o : ClientOptions) (path : Path) : (fileChanged o path).run.Calm R s := by
  unfold fileChanged
  apply Attempt.calm_bind (calm_ensureReady h.isPlain)
  intro _
  apply Attempt.calm_bind (Attempt.calm_ofExcept _)
  intro uri
  apply Attempt.calm_bind (calm_readText h.isPlain _)
  intro text
  exact calm_changeDocument h ho hc uri _ text

theorem calm_documentVersion (o : ClientOptions) (path : Path) : (documentVersion o path).run.Calm R s := by
  unfold documentVersion
  apply Attempt.calm_bind (Attempt.calm_ofExcept _)
  intro uri
  exact calm_looking h uri _

omit h in
theorem calm_mapM {α β : Type} {f : α → Attempt β} (hf : ∀ a, (f a).run.Calm R s) (as : List α) :
    (as.mapM f).run.Calm R s := by
  induction as with
  | nil => exact Attempt.calm_pure _
  | cons a as ih =>
    rw [List.mapM_cons]
    apply Attempt.calm_bind (hf a)
    intro b
    apply Attempt.calm_bind ih
    intro bs
    exact Attempt.calm_pure _

theorem calm_openDocuments : openDocuments.run.Calm R s := by
  unfold openDocuments
  apply Attempt.calm_bind (Attempt.calm_act (h .documentUris rfl))
  intro uris
  apply Attempt.calm_bind (calm_mapM (fun uri => calm_looking h uri _) uris)
  intro found
  exact Attempt.calm_pure _

/-! ## Requests -/

omit h in
theorem calm_interpreted {ε α : Type} (method : String) (message : ε → String) (result : Except ε α) :
    (interpreted method message result).run.Calm R s := by
  cases result with
  | ok a => exact Attempt.calm_pure a
  | error e => exact Attempt.calm_throw _

omit h in
theorem calm_answered {ε α β : Type} {r : Attempt β} (hr : r.run.Calm R s) (method : String)
    (message : ε → String) (read : β → Except ε α) :
    (r >>= fun answer => interpreted method message (read answer)).run.Calm R s := by
  apply Attempt.calm_bind hr
  intro answer
  exact calm_interpreted method message _

section

variable {method : String} (ho : R.Speaks s "textDocument/didOpen") (hm : R.Speaks s method) (o : ClientOptions)
  (timeout : Option Nat)
include ho hm

theorem calm_placeRequest (place : Place) (params : String → Wire.Position → Json) :
    (placeRequest o method place timeout params).run.Calm R s := by
  unfold placeRequest
  split
  · exact Attempt.calm_throw _
  · apply Attempt.calm_bind (calm_ensureReady h.isPlain)
    intro _
    apply Attempt.calm_bind (calm_ensureOpen h ho o _)
    intro opened
    exact calm_call h.isPlain hm _ _

theorem calm_documentRequest (path : Path) : (documentRequest o method path timeout).run.Calm R s := by
  unfold documentRequest
  apply Attempt.calm_bind (calm_ensureReady h.isPlain)
  intro _
  apply Attempt.calm_bind (calm_ensureOpen h ho o _)
  intro opened
  apply Attempt.calm_bind (calm_call h.isPlain hm _ _)
  intro answer
  exact Attempt.calm_pure _

end

theorem calm_workspaceSymbols (hm : R.Speaks s "workspace/symbol") (o : ClientOptions) (query : String)
    (timeout : Option Nat) : (workspaceSymbols o query timeout).run.Calm R s := by
  unfold workspaceSymbols
  apply Attempt.calm_bind (calm_ensureReady h.isPlain)
  intro _
  apply Attempt.calm_bind (calm_call h.isPlain hm _ _)
  intro answer
  exact calm_interpreted _ _ _

theorem calm_pullDiagnostics (ho : R.Speaks s "textDocument/didOpen") (hm : R.Speaks s "textDocument/diagnostic")
    (o : ClientOptions) (path : Path) (timeout : Option Nat) : (pullDiagnostics o path timeout).run.Calm R s := by
  unfold pullDiagnostics
  apply Attempt.calm_bind (calm_documentRequest h ho hm o timeout path)
  intro answered
  apply Attempt.calm_bind (calm_interpreted _ _ _)
  intro report
  cases report with
  | full diagnostics =>
    apply Attempt.calm_bind (calm_looking h _ _)
    intro version
    apply Attempt.calm_bind (Attempt.calm_act (h (.snapshot _) rfl))
    intro cached
    exact Attempt.calm_pure _
  | unchanged => exact Attempt.calm_act (h (.snapshot _) rfl)

theorem calm_openForDiagnostics (hm : R.Speaks s "textDocument/didOpen") (o : ClientOptions) (path : Path) :
    (openForDiagnostics o path).run.Calm R s := by
  unfold openForDiagnostics
  apply Attempt.calm_bind (calm_ensureReady h.isPlain)
  intro _
  apply Attempt.calm_bind (Attempt.calm_ofExcept _)
  intro uri
  apply Attempt.calm_bind (Attempt.calm_act (h (.snapshot uri) rfl))
  intro cached
  apply Attempt.calm_bind (calm_ensureOpen h hm o path)
  intro opened
  exact Attempt.calm_pure _

end

/-! ## The life of a session -/

theorem calm_endSession (he : R.Ends s) (reason : String) : (endSession reason).Calm R s := by
  apply (Routine.calm_act (he.closeCalls reason)).bind
  intro _
  exact Routine.calm_act he.terminate

theorem calm_abort (he : R.Ends s) (reason : String) : (abort reason).Calm R s := by
  apply (Routine.calm_act he.enqueueClose).bind
  intro _
  apply (Routine.calm_act he.kill).bind
  intro _
  exact calm_endSession he reason

theorem calm_orAbort (he : R.Ends s) {α : Type} (failure : String) {r : Attempt α} (hr : r.run.Calm R s) :
    (orAbort failure r).run.Calm R s := by
  apply Attempt.calm_outcome_bind hr
  intro result
  cases result with
  | ok a => exact Attempt.calm_pure a
  | error e =>
    apply Attempt.calm_bind (Attempt.calm_lift (calm_abort he _))
    intro _
    exact Attempt.calm_throw e

section

variable (h : R.IsPlain s)
include h

theorem keeps_handshake {fits : Except CallError Unit → σ → Prop} (o : ClientOptions)
    (hg : ∀ rootUri, (greet o rootUri).run.Keeps R s fits) (hf : ∀ result, fits result s) :
    (handshake o).run.Keeps R s fits := by
  unfold handshake
  refine Attempt.keeps_bind.mpr ((Attempt.calm_act (h .state rfl rfl)).mono ?_)
  rintro result _ rfl
  cases result with
  | error e => exact hf _
  | ok state =>
    cases state with
    | starting =>
      change Routine.Keeps R _ _ fits
      cases fileUri? o.root with
      | some rootUri => exact hg rootUri
      | none => exact hf _
    | _ => exact hf _

theorem calm_handshake (he : R.Ends s) (hi : R.Speaks s "initialize") (hd : R.Speaks s "initialized")
    (hm : R.Tolerates s (.transition .starting .ready)) (o : ClientOptions) : (handshake o).run.Calm R s := by
  refine keeps_handshake h o (fun rootUri => ?_) fun _ => rfl
  change (greet o rootUri).run.Calm R s
  unfold greet
  apply Attempt.calm_bind (calm_orAbort he _ (calm_call h hi _ _))
  intro result
  apply Attempt.calm_bind (Attempt.calm_act (h (.setSyncMode _) rfl rfl))
  intro _
  apply Attempt.calm_bind (Attempt.calm_act (h (.setCapabilities _) rfl rfl))
  intro _
  apply Attempt.calm_bind (calm_orAbort he _ (calm_notify h hd _))
  intro _
  apply Attempt.calm_bind (Attempt.calm_act hm)
  intro moved
  cases moved with
  | true => exact Attempt.calm_pure _
  | false => exact Attempt.calm_throw _

/-- Whoever shuts the session down may go on from elsewhere once he takes it upon himself. -/
theorem keeps_shutdown {s₀ : σ} (h₀ : R.IsPlain s₀) (he : R.Ends s) (hs : R.Speaks s "shutdown")
    (hx : R.Speaks s "exit") (hm : ∀ before, R.Allows s₀ (.transition before .shuttingDown))
    (hafter : ∀ before moved, R.after s₀ (.transition before .shuttingDown) moved = if moved then s else s₀) :
    shutdown.Keeps R s₀ fun _ place => place = s₀ ∨ place = s := by
  have hwait : (act .awaitEnd).Calm R s₀ := Routine.calm_act (h₀ .awaitEnd rfl rfl)
  have hstop : stopProcess.Calm R s := by
    apply (Routine.calm_act (h (.deadline _) rfl rfl)).bind
    intro limit
    apply (Routine.calm_act (h (.awaitExit limit) rfl rfl)).bind
    intro ended
    cases ended with
    | true => exact Routine.calm_pure _
    | false =>
      apply (Routine.calm_act he.kill).bind
      intro _
      apply (Routine.calm_act (h (.awaitExit none) rfl rfl)).bind
      intro _
      exact Routine.calm_pure _
  have hend : (closeStream >>= fun _ => stopProcess >>= fun _ => endSession "session shut down").Calm R s := by
    apply (Routine.calm_act he.enqueueClose).bind
    intro _
    apply hstop.bind
    intro _
    exact calm_endSession he _
  have hdismiss : dismiss.Calm R s := by
    apply Routine.Calm.bind (calm_call h hs _ _)
    intro _
    apply Routine.Calm.bind (calm_notify h hx _)
    intro _
    exact Routine.calm_pure _
  unfold shutdown
  apply (Routine.calm_act (h₀ .state rfl rfl)).keeps_bind
  intro state
  split
  · exact .inl rfl
  · exact hwait.mono fun _ _ he => .inl he
  · refine Routine.keeps_bind.mpr ⟨hm state, fun moved => ?_⟩
    rw [hafter]
    cases moved with
    | false => exact hwait.mono fun _ _ he => .inl he
    | true =>
      simp only [if_true]
      split
      · exact (hdismiss.bind fun _ => hend).mono fun _ _ he => .inr he
      · exact hend.mono fun _ _ he => .inr he

theorem calm_shutdown (he : R.Ends s) (hs : R.Speaks s "shutdown") (hx : R.Speaks s "exit")
    (hm : ∀ before, R.Tolerates s (.transition before .shuttingDown)) : shutdown.Calm R s := by
  apply (keeps_shutdown h h he hs hx (fun before => (hm before).1) _).mono
  · rintro _ _ (he | he) <;> exact he
  · intro before moved
    rw [(hm before).2, ite_self]

end

/-! ## Whole routines -/

def Rules.Stays (R : Rules σ) (s : σ) (service : Option Service) (r : Routine Next) : Prop :=
  r.Keeps R s fun next s' => s' = s ∧ next.Suits service

/-- What fits where the routine stays is known of the way in which the task goes on. -/
theorem Rules.Stays.keeps {service : Option Service} {r : Routine Next} {fits : Next → σ → Prop}
    (h : R.Stays s service r) (hf : ∀ result, fits (.finish result) s)
    (hr : ∀ phase, phase.service? = service → (∀ m, phase ≠ .answering m) → fits (.resume phase) s) :
    r.Keeps R s fits := by
  apply h.mono
  intro next place hstays
  obtain ⟨rfl, hn⟩ := hstays
  cases next with
  | finish result => exact hf result
  | resume phase => exact hr phase hn.1 hn.2

theorem stays_finishing {α : Type} (found : α → Finding) {r : Attempt α} (hr : r.run.Calm R s) :
    R.Stays s none (finishing found r) :=
  hr.keeps_bind fun _ => ⟨rfl, trivial⟩

theorem stays_over {r : Routine Unit} (hr : r.Calm R s) (service : Option Service) :
    R.Stays s service (r >>= fun _ => return .over) :=
  hr.keeps_bind fun _ => ⟨rfl, trivial⟩

theorem stays_operation (h : R.IsEasy s) (hc : R.Tolerates s .enqueueClose) (o : ClientOptions) {op : Operation}
    (hb : op ≠ .handshake) (he : op ≠ .shutdown) (hm : ∀ method ∈ op.methods, R.Speaks s method) :
    R.Stays s none (op.routine o) := by
  cases op with
  | handshake => exact absurd rfl hb
  | shutdown => exact absurd rfl he
  | openFile path => exact stays_finishing _ (calm_openFile h (hm _ (by simp [Operation.methods])) o path)
  | closeFile path => exact stays_finishing _ (calm_closeFile h (hm _ (by simp [Operation.methods])) o path)
  | fileChanged path =>
    have ho := hm "textDocument/didOpen" (by simp [Operation.methods])
    have hc := hm "textDocument/didChange" (by simp [Operation.methods])
    exact stays_finishing _ (calm_fileChanged h ho hc o path)
  | documentVersion path => exact stays_finishing _ (calm_documentVersion h o path)
  | openDocuments => exact stays_finishing _ (calm_openDocuments h)
  | locate goal place timeout =>
    have ho := hm "textDocument/didOpen" (by simp [Operation.methods])
    have hg := hm goal.method (by simp [Operation.methods])
    exact stays_finishing _ (calm_answered (calm_placeRequest h ho hg o timeout place _) _ _ _)
  | references place withDeclaration timeout =>
    have ho := hm "textDocument/didOpen" (by simp [Operation.methods])
    have hr := hm "textDocument/references" (by simp [Operation.methods])
    exact stays_finishing _ (calm_answered (calm_placeRequest h ho hr o timeout place _) _ _ _)
  | hover place timeout =>
    have ho := hm "textDocument/didOpen" (by simp [Operation.methods])
    have hh := hm "textDocument/hover" (by simp [Operation.methods])
    exact stays_finishing _ (calm_answered (calm_placeRequest h ho hh o timeout place _) _ _ _)
  | rename place newName timeout =>
    have ho := hm "textDocument/didOpen" (by simp [Operation.methods])
    have hr := hm "textDocument/rename" (by simp [Operation.methods])
    exact stays_finishing _ (calm_answered (calm_placeRequest h ho hr o timeout place _) _ _ _)
  | documentSymbols path timeout =>
    have ho := hm "textDocument/didOpen" (by simp [Operation.methods])
    have hs := hm "textDocument/documentSymbol" (by simp [Operation.methods])
    exact stays_finishing _ (calm_answered (calm_documentRequest h ho hs o timeout path) _ _ _)
  | workspaceSymbols query timeout =>
    exact stays_finishing _ (calm_workspaceSymbols h (hm _ (by simp [Operation.methods])) o query timeout)
  | pullDiagnostics path timeout =>
    have ho := hm "textDocument/didOpen" (by simp [Operation.methods])
    have hd := hm "textDocument/diagnostic" (by simp [Operation.methods])
    exact stays_finishing _ (calm_pullDiagnostics h ho hd o path timeout)
  | awaitDiagnostics path timeout =>
    apply (calm_openForDiagnostics h (hm _ (by simp [Operation.methods])) o path).keeps_bind
    intro opened
    cases opened with
    | error e => exact ⟨rfl, trivial⟩
    | ok opened =>
      apply (Routine.calm_act (h .subscribe rfl)).keeps_bind
      intro seen
      apply (Routine.calm_act (h (.deadline (some timeout)) rfl)).keeps_bind
      intro limit
      exact ⟨rfl, rfl, fun _ => Phase.noConfusion⟩
  | call method params timeout =>
    exact stays_finishing _ (calm_call h.isPlain (hm _ (by simp [Operation.methods])) params timeout)
  | notify method params => exact stays_finishing _ (calm_notify h.isPlain (hm _ (by simp [Operation.methods])) params)
  | cancel id reason => exact (Routine.calm_act (h (.cancel id reason) rfl)).keeps_bind fun _ => ⟨rfl, trivial⟩
  | closeStream => exact stays_over (Routine.calm_act hc) none

theorem stays_any_operation (h : R.IsEasy s) (he : R.Ends s) (hm : ∀ method, R.Speaks s method)
    (ht : ∀ before after, R.Tolerates s (.transition before after)) (o : ClientOptions) (op : Operation) :
    R.Stays s none (op.routine o) := by
  by_cases hb : op = .handshake
  · subst hb
    exact stays_finishing _ (calm_handshake h.isPlain he (hm _) (hm _) (ht _ _) o)
  · by_cases hs : op = .shutdown
    · subst hs
      exact stays_over (calm_shutdown h.isPlain he (hm _) (hm _) fun _ => ht _ _) none
    · exact stays_operation h he.enqueueClose o hb hs fun method _ => hm method

/-! ## Services -/

theorem stays_writing (hs : R.Serves s .writer) (he : R.Ends s) : R.Stays s (some .writer) writing := by
  unfold writing
  apply (Routine.calm_act (hs .nextErrand rfl)).keeps_bind
  intro errand
  cases errand with
  | close =>
    apply (Routine.calm_act (hs .closeOutput rfl)).keeps_bind
    intro _
    exact stays_over (Routine.calm_act (hs .stopWriting rfl)) _
  | send frame ticket =>
    apply (Routine.calm_act (hs (.write frame) rfl)).keeps_bind
    intro result
    cases result with
    | ok _ =>
      apply (Routine.calm_act (hs (.giveReceipt ticket .written) rfl)).keeps_bind
      intro _
      exact ⟨rfl, rfl, fun _ => Phase.noConfusion⟩
    | error reason =>
      apply (Routine.calm_act (hs (.giveReceipt ticket (.failed reason)) rfl)).keeps_bind
      intro _
      apply (calm_endSession he _).keeps_bind
      intro _
      exact stays_over (Routine.calm_act (hs .stopWriting rfl)) _

theorem stays_reading (hs : R.Serves s .reader) (he : R.Ends s) : R.Stays s (some .reader) reading := by
  have hclose : ∀ reason, R.Stays s (some .reader) (do endSession reason; return .over) := fun reason =>
    stays_over (calm_endSession he reason) _
  unfold reading
  apply (Routine.calm_act (hs .nextFrame rfl)).keeps_bind
  intro event
  cases event with
  | frame v =>
    have hdeliver : (deliver (.ofFrame v)).Calm R s := by
      cases Route.ofFrame v with
      | reply id reply => exact (Routine.calm_act (hs (.fulfill id reply) rfl)).bind fun _ => Routine.calm_pure _
      | forward inbound => exact Routine.calm_act (hs (.forward inbound) rfl)
      | discard => exact Routine.calm_pure _
    exact hdeliver.keeps_bind fun _ => ⟨rfl, rfl, fun _ => Phase.noConfusion⟩
  | malformed flaw =>
    have hforward := Routine.calm_act (hs (.forward (.undecodable flaw.message)) rfl)
    exact hforward.keeps_bind fun _ => ⟨rfl, rfl, fun _ => Phase.noConfusion⟩
  | ended => exact hclose _
  | fault cut => exact hclose _

theorem exists_answerTo (rootUri : Option String) (id : Json) (method : String) (params : Option Json) :
    ∃ outcome, answerTo rootUri id method params = .response id outcome := by
  unfold answerTo
  repeat' split
  all_goals exact ⟨_, rfl⟩

theorem stays_dispatching_of_takeIn
    (hs : ∀ a : Action, a.service? = some .dispatcher → (∀ set, a ≠ .publish set) → R.Tolerates s a)
    (htake : ∀ set, (takeIn set).Calm R s)
    (ha : ∀ id outcome, R.Tolerates s (.spawn (.answering (.response id outcome)))) (rootUri : Option String)
    (sequence : Nat) : R.Stays s (some .dispatcher) (dispatching rootUri sequence) := by
  have hcount : ∀ tally, (act (.count tally)).Calm R s := fun tally =>
    Routine.calm_act (hs (.count tally) rfl (by simp))
  have hheed : ∀ meaning, (heed sequence meaning).Calm R s := by
    intro meaning
    cases meaning with
    | diagnostics push => exact (htake _).bind fun _ => Routine.calm_pure _
    | unreadable => exact (hcount _).bind fun _ => Routine.calm_pure _
    | log entry => exact (Routine.calm_act (hs (.log entry) rfl (by simp))).bind fun _ => Routine.calm_pure _
    | unknown => exact Routine.calm_pure _
  have hconsider : ∀ inbound, (consider rootUri sequence inbound).Calm R s := by
    intro inbound
    cases inbound with
    | notification method params =>
      apply (hcount _).bind
      intro _
      apply (hheed _).bind
      intro sequence
      exact (Routine.calm_act (hs (.present method _) rfl (by simp))).bind fun _ => Routine.calm_pure _
    | request id method params =>
      obtain ⟨outcome, he⟩ := exists_answerTo rootUri id method params
      apply (hcount _).bind
      intro _
      rw [he]
      exact (Routine.calm_act (ha id outcome)).bind fun _ => Routine.calm_pure _
    | undecodable reason => exact (hcount _).bind fun _ => Routine.calm_pure _
  unfold dispatching
  apply (Routine.calm_act (hs .nextInbound rfl (by simp))).keeps_bind
  intro inbound
  apply (hconsider inbound).keeps_bind
  intro sequence
  exact ⟨rfl, rfl, fun _ => Phase.noConfusion⟩

theorem stays_dispatching (hs : R.Serves s .dispatcher)
    (ha : ∀ id outcome, R.Tolerates s (.spawn (.answering (.response id outcome)))) (rootUri : Option String)
    (sequence : Nat) : R.Stays s (some .dispatcher) (dispatching rootUri sequence) := by
  refine stays_dispatching_of_takeIn (fun a h _ => hs a h) (fun set => ?_) ha rootUri sequence
  apply (Routine.calm_act (hs (.publish set) rfl)).bind
  intro isNew
  cases isNew with
  | true => exact Routine.calm_act (hs .giveNotice rfl)
  | false => exact Routine.calm_pure _

theorem stays_watching (hs : R.Serves s .watcher) (he : R.Ends s) : R.Stays s (some .watcher) watching := by
  unfold watching
  apply (Routine.calm_act (hs .awaitChild rfl)).keeps_bind
  intro status
  apply (Routine.calm_act (hs (.publishExit status) rfl)).keeps_bind
  intro _
  exact stays_over (calm_endSession he _) _

theorem stays_answering (h : R.IsPlain s) {m : Message} (hm : R.Tolerates s (.enqueue m.toJson)) :
    R.Stays s none (answering m) := by
  unfold answering
  exact (calm_send h hm).keeps_bind fun _ => ⟨rfl, trivial⟩

theorem stays_awaitingDiagnostics (h : R.IsPlain s) (uri : String) (after seen limit : Nat) :
    R.Stays s none (awaitingDiagnostics uri after seen limit) := by
  have hlast : R.Stays s none (do return .finish (.ok (.diagnostics (← act (.snapshot uri))))) :=
    (Routine.calm_act (h (.snapshot uri) rfl rfl)).keeps_bind fun _ => ⟨rfl, trivial⟩
  unfold awaitingDiagnostics
  apply (Routine.calm_act (h (.snapshot uri) rfl rfl)).keeps_bind
  intro set
  split
  · exact hlast
  · apply (Routine.calm_act (h (.awaitNotice seen limit) rfl rfl)).keeps_bind
    intro notices
    cases notices with
    | some notices => exact ⟨rfl, rfl, fun _ => Phase.noConfusion⟩
    | none => exact hlast

/-- A phase stays where its service, if it is one, and what it may hand in are tolerated. -/
theorem stays_phase (h : R.IsPlain s) (he : R.Ends s) {p : Phase}
    (hs : ∀ service, p.service? = some service → R.Serves s service)
    (ha : ∀ id outcome, R.Tolerates s (.spawn (.answering (.response id outcome))))
    (hm : ∀ m, p = .answering m → R.Tolerates s (.enqueue m.toJson)) : R.Stays s p.service? p.routine := by
  cases p with
  | writing => exact stays_writing (hs _ rfl) he
  | reading => exact stays_reading (hs _ rfl) he
  | dispatching rootUri sequence => exact stays_dispatching (hs _ rfl) ha rootUri sequence
  | watching => exact stays_watching (hs _ rfl) he
  | answering m => exact stays_answering h (hm m rfl)
  | awaitingDiagnostics uri after seen limit => exact stays_awaitingDiagnostics h uri after seen limit

end

/-! ## Leaving a service alone -/

def Rules.Reserves {σ : Type} (R : Rules σ) (s : σ) (service : Service) : Prop :=
  ∀ a : Action, a.service? ≠ some service → (∀ phase, a = .spawn phase → phase.service? ≠ some service) →
    R.Tolerates s a

namespace Rules.Reserves

variable {σ : Type} {R : Rules σ} {s : σ} {service : Service} (h : R.Reserves s service)
include h

theorem speaks (method : String) : R.Speaks s method := by
  constructor
  · intro id params
    exact h _ (by simp [Action.service?]) (by simp)
  · intro params
    exact h _ (by simp [Action.service?]) (by simp)

theorem ends : R.Ends s := by
  constructor
  · exact h _ (by simp [Action.service?]) (by simp)
  · intro reason
    exact h _ (by simp [Action.service?]) (by simp)
  · exact h _ (by simp [Action.service?]) (by simp)
  · exact h _ (by simp [Action.service?]) (by simp)

theorem isEasy : R.IsEasy s := by
  intro a ha
  have hs : a.service? = none := by
    cases a <;> first | rfl | cases ha
  apply h
  · simp [hs]
  · rintro phase rfl
    cases ha

theorem serves {other : Service} (ho : other ≠ service) : R.Serves s other := by
  intro a ha
  apply h
  · rw [ha]
    simpa using ho
  · rintro phase rfl
    cases ha

theorem stays_operation (o : ClientOptions) (op : Operation) : R.Stays s none (op.routine o) := by
  have hmove : ∀ before after, R.Tolerates s (.transition before after) := fun before after =>
    h _ (by simp [Action.service?]) (by simp)
  exact stays_any_operation h.isEasy h.ends h.speaks hmove o op

theorem stays_phase {p : Phase} (hp : p.service? ≠ some service) : R.Stays s p.service? p.routine := by
  apply Liaison.stays_phase h.isEasy.isPlain h.ends
  · intro other ho
    exact h.serves fun e => hp (e ▸ ho)
  · intro id outcome
    apply h _ (by simp [Action.service?])
    rintro phase ⟨rfl⟩
    simp [Phase.service?]
  · intro m _
    exact h _ (by simp [Action.service?]) (by simp)

end Rules.Reserves

end Liaison
