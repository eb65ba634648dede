import Liaison.Proofs.Session.Conduct

/-!
# The discipline of a session

All routines of a session keep to the rules, whatever they are answered: those of its operations, which leave a
task with nothing in hand, and those of its services.
-/

namespace Liaison

/-! ## Talking to the server -/

theorem steady_send (m : Message) {k : Conduct} (hk : k.ticket = none) : (send m).run.Steady k := by
  have hback : { k with ticket := none } = k := by
    rw [← hk]
  unfold send
  refine Attempt.obeys_bind.mpr ⟨hk, fun ticket => ?_⟩
  cases ticket with
  | none => rfl
  | some ticket =>
    refine Attempt.obeys_bind.mpr ⟨rfl, fun receipt => ?_⟩
    cases receipt <;> exact hback

theorem steady_notify (method : String) (params : Option Json) {k : Conduct} (hk : k.ticket = none) :
    (notify method params).run.Steady k :=
  steady_send _ hk

theorem obeys_awaitAnswer (method : String) (timeout limit : Option Nat) (id : Nat) {k : Conduct}
    (hk : k.hold = .call id) :
    (awaitAnswer method timeout limit id).run.Obeys k fun _ k' => k' = { k with hold := .nothing } := by
  unfold awaitAnswer
  refine ⟨hk, ?_⟩
  intro reply
  cases reply with
  | some reply => cases reply <;> rfl
  | none =>
    refine ⟨hk, ?_⟩
    intro expired
    cases expired with
    | true => rfl
    | false =>
      refine ⟨hk, ?_⟩
      intro reply
      cases reply with
      | some reply => cases reply <;> rfl
      | none => rfl

theorem steady_call (method : String) (params : Option Json) (timeout : Option Nat) {k : Conduct}
    (hk : k.hold = .nothing) (ht : k.ticket = none) : (call method params timeout).run.Steady k := by
  have hback : ∀ hold : Hold, { { k with hold := hold } with hold := .nothing } = k := by
    intro hold
    rw [← hk]
  unfold call
  refine Attempt.obeys_bind.mpr ⟨hk, fun id => ?_⟩
  refine Attempt.obeys_bind.mpr ⟨trivial, fun limit => ?_⟩
  refine Attempt.obeys_bind.mpr ⟨rfl, fun registered => ?_⟩
  cases registered with
  | error e => exact hback _
  | ok _ =>
    refine Attempt.obeys_outcome_bind (steady_send _ ht) ?_
    intro sent
    cases sent with
    | ok _ =>
      refine (obeys_awaitAnswer method timeout limit id rfl).mono ?_
      rintro _ _ rfl
      exact hback _
    | error e => exact ⟨rfl, fun _ => hback _⟩

/-! ## The beginning and the end -/

section

variable (post : Option Nat)

theorem steady_endSession (reason : String) : (endSession reason).Steady (.free post) :=
  ⟨trivial, fun _ => ⟨rfl, fun _ => rfl⟩⟩

theorem steady_abort (reason : String) : (abort reason).Steady (.free post) :=
  ⟨trivial, fun _ => ⟨trivial, fun _ => steady_endSession post reason⟩⟩

theorem steady_orAbort {α : Type} (failure : String) {r : Attempt α} (hr : r.run.Steady (.free post)) :
    (orAbort failure r).run.Steady (.free post) := by
  unfold orAbort
  refine Attempt.obeys_outcome_bind hr ?_
  intro result
  cases result with
  | ok a => exact Attempt.steady_pure a
  | error e =>
    refine Attempt.steady_bind (Attempt.steady_lift (steady_abort post _)) ?_
    intro _
    exact Attempt.steady_throw e

theorem steady_greet (o : ClientOptions) (rootUri : String) : (greet o rootUri).run.Steady (.free post) := by
  unfold greet
  refine Attempt.steady_bind (steady_orAbort post _ (steady_call _ _ _ rfl rfl)) ?_
  intro result
  refine Attempt.steady_bind (Attempt.steady_act trivial fun _ => rfl) ?_
  intro _
  refine Attempt.steady_bind (Attempt.steady_act trivial fun _ => rfl) ?_
  intro _
  refine Attempt.steady_bind (steady_orAbort post _ (steady_notify _ _ rfl)) ?_
  intro _
  refine Attempt.steady_bind (Attempt.steady_act SessionState.noConfusion fun _ => rfl) ?_
  intro moved
  cases moved with
  | true => exact Attempt.steady_pure _
  | false => exact Attempt.steady_throw _

theorem steady_handshake (o : ClientOptions) : (handshake o).run.Steady (.free post) := by
  unfold handshake
  refine Attempt.steady_bind (Attempt.steady_act trivial fun _ => rfl) ?_
  intro state
  cases state with
  | starting =>
    simp only
    cases fileUri? o.root with
    | some rootUri => exact steady_greet post o rootUri
    | none => exact Attempt.steady_throw _
  | ready => exact Attempt.steady_pure _
  | _ => exact Attempt.steady_throw _

theorem steady_ensureReady : ensureReady.run.Steady (.free post) := by
  unfold ensureReady
  refine Attempt.steady_bind (Attempt.steady_act trivial fun _ => rfl) ?_
  intro state
  cases state with
  | ready => exact Attempt.steady_pure _
  | _ => exact Attempt.steady_throw _

theorem steady_stopProcess : stopProcess.Steady (.free post) := by
  refine ⟨trivial, fun limit => ⟨trivial, fun ended => ?_⟩⟩
  cases ended with
  | true => rfl
  | false => exact ⟨trivial, fun _ => ⟨trivial, fun _ => rfl⟩⟩

theorem steady_dismiss : dismiss.Steady (.free post) := by
  unfold dismiss
  refine Routine.Steady.bind (steady_call _ _ _ rfl rfl) ?_
  intro _
  refine Routine.Steady.bind (steady_notify _ _ rfl) ?_
  intro _
  exact Routine.steady_pure _

theorem steady_shutdown : shutdown.Steady (.free post) := by
  have hwait : (act .awaitEnd).Steady (.free post) := Routine.steady_act trivial fun _ => rfl
  have hend : (closeStream >>= fun _ => stopProcess >>= fun _ => endSession "session shut down").Steady
      (.free post) := by
    refine Routine.Steady.bind (Routine.steady_act trivial fun _ => rfl) ?_
    intro _
    refine (steady_stopProcess post).bind ?_
    intro _
    exact steady_endSession post _
  unfold shutdown
  refine Routine.Steady.bind (Routine.steady_act trivial fun _ => rfl) ?_
  intro state
  split
  · exact Routine.steady_pure _
  · exact hwait
  · refine Routine.Steady.bind (Routine.steady_act SessionState.noConfusion fun _ => rfl) ?_
    intro moved
    cases moved with
    | false => exact hwait
    | true =>
      rw [if_pos rfl]
      simp only
      split
      · exact (steady_dismiss post).bind fun _ => hend
      · exact hend

/-! ## Documents -/

theorem steady_withDocument {α : Type} (uri : String) {body : Option OpenDocument → Attempt α}
    (hb : ∀ document, (body document).run.Obeys { Conduct.free post with desk := .working uri document } fun _ k' =>
      ∃ after, k' = { Conduct.free post with desk := .working uri after }) :
    (withDocument uri body).run.Steady (.free post) := by
  unfold withDocument
  refine Attempt.obeys_bind.mpr ⟨rfl, fun _ => ?_⟩
  refine Attempt.obeys_bind.mpr ⟨rfl, fun _ => ?_⟩
  refine Attempt.obeys_bind.mpr ⟨rfl, fun document => ?_⟩
  refine Attempt.obeys_bind.mpr (Attempt.obeys_outcome.mpr ((hb document).mono ?_))
  rintro result _ ⟨after, rfl⟩
  exact Attempt.obeys_bind.mpr ⟨⟨after, rfl⟩, fun _ => rfl⟩

theorem steady_looking {α : Type} (uri : String) (look : Option OpenDocument → α) :
    (withDocument uri fun document => return look document).run.Steady (.free post) :=
  steady_withDocument post uri fun document => ⟨document, rfl⟩

def DocumentPlan.Suits {α : Type} (document : Option OpenDocument) : DocumentPlan α → Prop
  | .keep _ => True
  | .send _ after _ => Follows document after

theorem obeys_carryOut {α : Type} (uri : String) {document : Option OpenDocument} {plan : DocumentPlan α}
    (hp : plan.Suits document) :
    (carryOut uri plan).run.Obeys { Conduct.free post with desk := .working uri document } fun _ k' =>
      ∃ after, k' = { Conduct.free post with desk := .working uri after } := by
  cases plan with
  | keep answer => exact ⟨document, rfl⟩
  | send notice after answer =>
    unfold carryOut
    refine Attempt.obeys_outcome_bind (steady_notify _ _ rfl) ?_
    intro sent
    cases sent with
    | ok _ => exact ⟨⟨document, rfl, hp⟩, fun _ => ⟨after, rfl⟩⟩
    | error e => exact ⟨document, rfl⟩

theorem suits_planOpen (document : Option OpenDocument) (uri languageId text : String) :
    (DocumentStore.planOpen document uri languageId text).Suits document := by
  cases document <;> exact trivial

theorem suits_planChange (document : Option OpenDocument) (mode : SyncMode) (uri languageId text : String) :
    (DocumentStore.planChange document mode uri languageId text).Suits document := by
  cases document with
  | none => exact trivial
  | some d =>
    unfold DocumentStore.planChange
    simp only
    split
    · exact trivial
    · exact Nat.lt_succ_self d.version

theorem suits_planClose (document : Option OpenDocument) (uri : String) :
    (DocumentStore.planClose document uri).Suits document := by
  cases document <;> exact trivial

theorem steady_openDocument (uri languageId text : String) :
    (openDocument uri languageId text).run.Steady (.free post) :=
  steady_withDocument post uri fun _ => obeys_carryOut post uri (suits_planOpen _ uri languageId text)

theorem steady_changeDocument (uri languageId text : String) :
    (changeDocument uri languageId text).run.Steady (.free post) := by
  unfold changeDocument
  refine steady_withDocument post uri fun document => ?_
  refine Attempt.obeys_bind.mpr ⟨trivial, fun mode => ?_⟩
  exact obeys_carryOut post uri (suits_planChange document mode uri languageId text)

theorem steady_closeDocument (uri : String) : (closeDocument uri).run.Steady (.free post) :=
  steady_withDocument post uri fun _ => obeys_carryOut post uri (suits_planClose _ uri)

theorem steady_isOpen (uri : String) : (isOpen uri).run.Steady (.free post) :=
  steady_looking post uri _

theorem steady_readText (path : Path) : (readText path).run.Steady (.free post) := by
  unfold readText
  refine Attempt.steady_bind (Attempt.steady_act trivial fun _ => rfl) ?_
  intro text
  cases text with
  | ok text => exact Attempt.steady_pure _
  | error fault => exact Attempt.steady_throw _

theorem steady_ensureOpen (o : ClientOptions) (path : Path) : (ensureOpen o path).run.Steady (.free post) := by
  unfold ensureOpen
  refine Attempt.steady_bind (Attempt.steady_ofExcept _) ?_
  intro uri
  refine Attempt.steady_bind (steady_isOpen post uri) ?_
  intro isOpen
  split
  · exact Attempt.steady_pure _
  · refine Attempt.steady_bind (steady_readText post _) ?_
    intro text
    refine Attempt.steady_bind (steady_openDocument post uri _ _) ?_
    intro opened
    exact Attempt.steady_pure _

theorem steady_openFile (o : ClientOptions) (path : Path) : (openFile o path).run.Steady (.free post) := by
  unfold openFile
  refine Attempt.steady_bind (steady_ensureReady post) ?_
  intro _
  refine Attempt.steady_bind (steady_ensureOpen post o path) ?_
  intro _
  exact Attempt.steady_pure _

theorem steady_closeFile (o : ClientOptions) (path : Path) : (closeFile o path).run.Steady (.free post) := by
  unfold closeFile
  refine Attempt.steady_bind (steady_ensureReady post) ?_
  intro _
  refine Attempt.steady_bind (Attempt.steady_ofExcept _) ?_
  intro uri
  refine Attempt.steady_bind (steady_closeDocument post uri) ?_
  intro closed
  simp only
  split
  · refine Attempt.steady_bind (Attempt.steady_act trivial fun _ => rfl) ?_
    intro _
    exact Attempt.steady_pure _
  · exact Attempt.steady_pure _

theorem steady_fileChanged (o : ClientOptions) (path : Path) : (fileChanged o path).run.Steady (.free post) := by
  unfold fileChanged
  refine Attempt.steady_bind (steady_ensureReady post) ?_
  intro _
  refine Attempt.steady_bind (Attempt.steady_ofExcept _) ?_
  intro uri
  refine Attempt.steady_bind (steady_readText post _) ?_
  intro text
  exact steady_changeDocument post uri _ text

theorem steady_documentVersion (o : ClientOptions) (path : Path) :
    (documentVersion o path).run.Steady (.free post) := by
  unfold documentVersion
  refine Attempt.steady_bind (Attempt.steady_ofExcept _) ?_
  intro uri
  exact steady_looking post uri _

theorem steady_mapM {α β : Type} {f : α → Attempt β} (hf : ∀ a, (f a).run.Steady (.free post)) (as : List α) :
    (as.mapM f).run.Steady (.free post) := by
  induction as with
  | nil => exact Attempt.steady_pure _
  | cons a as ih =>
    rw [List.mapM_cons]
    refine Attempt.steady_bind (hf a) ?_
    intro b
    refine Attempt.steady_bind ih ?_
    intro bs
    exact Attempt.steady_pure _

theorem steady_openDocuments : openDocuments.run.Steady (.free post) := by
  unfold openDocuments
  refine Attempt.steady_bind (Attempt.steady_act trivial fun _ => rfl) ?_
  intro uris
  refine Attempt.steady_bind (steady_mapM post (fun uri => steady_looking post uri _) uris) ?_
  intro found
  exact Attempt.steady_pure _

/-! ## Requests -/

theorem steady_request (o : ClientOptions) (method : String) (params : Json) (timeout : Option Nat) :
    (request o method params timeout).run.Steady (.free post) :=
  steady_call _ _ _ rfl rfl

theorem steady_interpreted {ε α : Type} (method : String) (message : ε → String) (result : Except ε α) :
    (interpreted method message result).run.Steady (.free post) := by
  cases result with
  | ok a => exact Attempt.steady_pure a
  | error e => exact Attempt.steady_throw _

theorem steady_placeRequest (o : ClientOptions) (method : String) (place : Place) (timeout : Option Nat)
    (params : String → Wire.Position → Json) :
    (placeRequest o method place timeout params).run.Steady (.free post) := by
  unfold placeRequest
  split
  · exact Attempt.steady_throw _
  · refine Attempt.steady_bind (steady_ensureReady post) ?_
    intro _
    refine Attempt.steady_bind (steady_ensureOpen post o _) ?_
    intro opened
    exact steady_request post o method _ timeout

theorem steady_documentRequest (o : ClientOptions) (method : String) (path : Path) (timeout : Option Nat) :
    (documentRequest o method path timeout).run.Steady (.free post) := by
  unfold documentRequest
  refine Attempt.steady_bind (steady_ensureReady post) ?_
  intro _
  refine Attempt.steady_bind (steady_ensureOpen post o _) ?_
  intro opened
  refine Attempt.steady_bind (steady_request post o method _ timeout) ?_
  intro answer
  exact Attempt.steady_pure _

theorem steady_answered {ε α β : Type} {r : Attempt β} (hr : r.run.Steady (.free post)) (method : String)
    (message : ε → String) (read : β → Except ε α) :
    (r >>= fun answer => interpreted method message (read answer)).run.Steady (.free post) :=
  Attempt.steady_bind hr fun _ => steady_interpreted post _ _ _

theorem steady_workspaceSymbols (o : ClientOptions) (query : String) (timeout : Option Nat) :
    (workspaceSymbols o query timeout).run.Steady (.free post) := by
  unfold workspaceSymbols
  refine Attempt.steady_bind (steady_ensureReady post) ?_
  intro _
  refine Attempt.steady_bind (steady_request post o _ _ timeout) ?_
  intro answer
  exact steady_interpreted post _ _ _

theorem steady_pullDiagnostics (o : ClientOptions) (path : Path) (timeout : Option Nat) :
    (pullDiagnostics o path timeout).run.Steady (.free post) := by
  unfold pullDiagnostics
  refine Attempt.steady_bind (steady_documentRequest post o _ path timeout) ?_
  intro answered
  refine Attempt.steady_bind (steady_interpreted post _ _ _) ?_
  intro report
  cases report with
  | full diagnostics =>
    refine Attempt.steady_bind (steady_looking post _ _) ?_
    intro version
    refine Attempt.steady_bind (Attempt.steady_act trivial fun _ => rfl) ?_
    intro cached
    exact Attempt.steady_pure _
  | unchanged => exact Attempt.steady_act trivial fun _ => rfl

theorem steady_openForDiagnostics (o : ClientOptions) (path : Path) :
    (openForDiagnostics o path).run.Steady (.free post) := by
  unfold openForDiagnostics
  refine Attempt.steady_bind (steady_ensureReady post) ?_
  intro _
  refine Attempt.steady_bind (Attempt.steady_ofExcept _) ?_
  intro uri
  refine Attempt.steady_bind (Attempt.steady_act trivial fun _ => rfl) ?_
  intro cached
  refine Attempt.steady_bind (steady_ensureOpen post o path) ?_
  intro opened
  exact Attempt.steady_pure _

end

/-! ## Routines of tasks -/

def Next.Fits : Next → Conduct → Prop
  | .finish _, k => ∃ post, k = .free post
  | .resume phase, k => ∃ post, k = .free post ∧ ∀ sequence, phase.sequence? = some sequence → post = some sequence

theorem obeys_finishing {α : Type} (found : α → Finding) {r : Attempt α} {post : Option Nat}
    (hr : r.run.Steady (.free post)) : (finishing found r).Obeys (.free post) Next.Fits :=
  hr.obeys_bind fun _ => ⟨post, rfl⟩

theorem obeys_operation (o : ClientOptions) (op : Operation) (post : Option Nat) :
    (op.routine o).Obeys (.free post) Next.Fits := by
  cases op with
  | handshake => exact obeys_finishing _ (steady_handshake post o)
  | shutdown => exact (steady_shutdown post).obeys_bind fun _ => ⟨post, rfl⟩
  | openFile path => exact obeys_finishing _ (steady_openFile post o path)
  | closeFile path => exact obeys_finishing _ (steady_closeFile post o path)
  | fileChanged path => exact obeys_finishing _ (steady_fileChanged post o path)
  | documentVersion path => exact obeys_finishing _ (steady_documentVersion post o path)
  | openDocuments => exact obeys_finishing _ (steady_openDocuments post)
  | locate goal place timeout =>
    exact obeys_finishing _ (steady_answered post (steady_placeRequest post o _ place timeout _) _ _ _)
  | references place withDeclaration timeout =>
    exact obeys_finishing _ (steady_answered post (steady_placeRequest post o _ place timeout _) _ _ _)
  | hover place timeout =>
    exact obeys_finishing _ (steady_answered post (steady_placeRequest post o _ place timeout _) _ _ _)
  | rename place newName timeout =>
    exact obeys_finishing _ (steady_answered post (steady_placeRequest post o _ place timeout _) _ _ _)
  | documentSymbols path timeout =>
    exact obeys_finishing _ (steady_answered post (steady_documentRequest post o _ path timeout) _ _ _)
  | workspaceSymbols query timeout => exact obeys_finishing _ (steady_workspaceSymbols post o query timeout)
  | pullDiagnostics path timeout => exact obeys_finishing _ (steady_pullDiagnostics post o path timeout)
  | awaitDiagnostics path timeout =>
    refine (steady_openForDiagnostics post o path).obeys_bind ?_
    intro opened
    cases opened with
    | error e => exact ⟨post, rfl⟩
    | ok opened =>
      refine ⟨trivial, fun seen => ⟨trivial, fun limit => ⟨post, rfl, ?_⟩⟩⟩
      intro sequence hs
      cases hs
  | call method params timeout => exact obeys_finishing _ (steady_call method params timeout rfl rfl)
  | notify method params => exact obeys_finishing _ (steady_notify method params rfl)
  | cancel id reason => exact ⟨trivial, fun _ => ⟨post, rfl⟩⟩
  | closeStream => exact ⟨trivial, fun _ => ⟨post, rfl⟩⟩

theorem fits_resume {phase : Phase} (hp : phase.sequence? = none) (post : Option Nat) :
    (Next.resume phase).Fits (.free post) := by
  refine ⟨post, rfl, ?_⟩
  intro sequence hs
  rw [hp] at hs
  cases hs

theorem obeys_writing (post : Option Nat) : writing.Obeys (.free post) Next.Fits := by
  refine ⟨trivial, fun errand => ?_⟩
  cases errand with
  | close => exact ⟨trivial, fun _ => ⟨trivial, fun _ => ⟨post, rfl⟩⟩⟩
  | send frame ticket =>
    refine ⟨trivial, fun result => ?_⟩
    cases result with
    | ok _ => exact ⟨trivial, fun _ => fits_resume rfl post⟩
    | error reason =>
      refine ⟨trivial, fun _ => (steady_endSession post _).obeys_bind fun _ => ?_⟩
      exact ⟨trivial, fun _ => ⟨post, rfl⟩⟩

theorem steady_deliver (route : Route) (k : Conduct) : (deliver route).Steady k := by
  cases route with
  | reply id reply => exact ⟨trivial, fun _ => rfl⟩
  | forward inbound => exact ⟨trivial, fun _ => rfl⟩
  | discard => rfl

theorem obeys_reading (post : Option Nat) : reading.Obeys (.free post) Next.Fits := by
  refine ⟨trivial, fun event => ?_⟩
  cases event with
  | frame v => exact (steady_deliver _ _).obeys_bind fun _ => fits_resume rfl post
  | malformed flaw => exact ⟨trivial, fun _ => fits_resume rfl post⟩
  | ended => exact (steady_endSession post _).obeys_bind fun _ => ⟨post, rfl⟩
  | fault cut => exact (steady_endSession post _).obeys_bind fun _ => ⟨post, rfl⟩

theorem obeys_heed (sequence : Nat) (meaning : Meaning) :
    (heed sequence meaning).Obeys (.free (some sequence)) fun last k => k = .free (some last) := by
  cases meaning with
  | diagnostics push =>
    refine ⟨⟨sequence, rfl, rfl⟩, fun isNew => ?_⟩
    cases isNew with
    | true => exact ⟨trivial, fun _ => rfl⟩
    | false => rfl
  | unreadable => exact ⟨trivial, fun _ => rfl⟩
  | log entry => exact ⟨trivial, fun _ => rfl⟩
  | unknown => rfl

theorem obeys_consider (rootUri : Option String) (sequence : Nat) (inbound : Inbound) :
    (consider rootUri sequence inbound).Obeys (.free (some sequence)) fun last k => k = .free (some last) := by
  cases inbound with
  | notification method params =>
    refine Routine.obeys_act_bind.mpr ⟨trivial, fun _ => ?_⟩
    refine Routine.obeys_bind.mpr ((obeys_heed sequence _).mono ?_)
    rintro last _ rfl
    exact ⟨trivial, fun _ => rfl⟩
  | request id method params => exact ⟨trivial, fun _ => ⟨rfl, fun _ => rfl⟩⟩
  | undecodable flaw => exact ⟨trivial, fun _ => rfl⟩

theorem obeys_dispatching (rootUri : Option String) (sequence : Nat) :
    (dispatching rootUri sequence).Obeys (.free (some sequence)) Next.Fits := by
  refine Routine.obeys_act_bind.mpr ⟨trivial, fun inbound => ?_⟩
  refine Routine.obeys_bind.mpr ((obeys_consider rootUri sequence inbound).mono ?_)
  rintro last _ rfl
  exact ⟨some last, rfl, fun _ => id⟩

theorem obeys_phase (phase : Phase) : phase.routine.Obeys (.free phase.sequence?) Next.Fits := by
  cases phase with
  | writing => exact obeys_writing _
  | reading => exact obeys_reading _
  | dispatching rootUri sequence => exact obeys_dispatching rootUri sequence
  | watching =>
    exact ⟨trivial, fun status => ⟨trivial, fun _ => (steady_endSession _ _).obeys_bind fun _ => ⟨none, rfl⟩⟩⟩
  | answering message => exact (steady_send message rfl).obeys_bind fun _ => ⟨none, rfl⟩
  | awaitingDiagnostics uri after seen limit =>
    refine ⟨trivial, fun set => ?_⟩
    show Routine.Obeys (ite _ _ _) _ _
    split
    · exact ⟨trivial, fun _ => ⟨none, rfl⟩⟩
    · refine ⟨trivial, fun notice => ?_⟩
      cases notice with
      | some seen => exact fits_resume rfl none
      | none => exact ⟨trivial, fun _ => ⟨none, rfl⟩⟩

end Liaison
