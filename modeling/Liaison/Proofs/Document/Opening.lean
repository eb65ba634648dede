import Liaison.Proofs.Document.Versions
import Liaison.Proofs.Session.Readiness

/-!
# The rules of opening

Whoever works on a document finds out first whether it is open. If it is not, the task may open it, and takes it for
open when the receipt says so. Nobody speaks of a document before it has found it open or has opened it.
-/

namespace Liaison

/-! ## What messages are about -/

def Params.document? (params : Json) : Option String :=
  ((params.member? "textDocument").bind (·.member? "uri")).bind Json.str?

def Json.document? (frame : Json) : Option String :=
  (frame.member? "params").bind Params.document?

def Json.opens (uri : String) (frame : Json) : Bool :=
  frame.hasMethod "textDocument/didOpen" && frame.document? = some uri

theorem document?_request (id : Json) (method : String) (params : Option Json) :
    (Message.request id method params).toJson.document? = params.bind Params.document? := by
  rw [Json.document?, (Message.member?_toJson _).2.2]
  rfl

theorem document?_notification (method : String) (params : Option Json) :
    (Message.notification method params).toJson.document? = params.bind Params.document? := by
  rw [Json.document?, (Message.member?_toJson _).2.2]
  rfl

namespace Params

theorem document?_opened (uri languageId : String) (version : Int) (text : String) :
    document? (opened uri languageId version text) = some uri := by
  simp [document?, opened, single, Json.ofMembers, Json.member?, Table.ofList, Table.get?_insert, Table.get?,
    Json.str?]

theorem document?_changed (uri : String) (version : Int) (change : Json) :
    document? (changed uri version change) = some uri := by
  simp [document?, changed, Json.ofMembers, Json.member?, Table.ofList, Table.get?_insert, Json.str?]

theorem document?_changeParams (mode : SyncMode) (uri : String) (version : Nat) (old new : String) :
    document? (DocumentStore.changeParams mode uri version old new) = some uri := by
  cases mode <;> exact document?_changed uri _ _

theorem document?_document (uri : String) : document? (document uri) = some uri := by
  simp [document?, document, documentMember, single, Json.member?, Table.get?, Json.str?]

theorem document?_position (uri : String) (p : Wire.Position) : document? (position uri p) = some uri := by
  simp [document?, position, documentMember, single, Json.ofMembers, Json.member?, Table.ofList, Table.get?_insert,
    Table.get?, Json.str?]

theorem document?_set (params v : Json) {name : String} (hn : name ≠ "textDocument") :
    document? (params.set name v) = document? params := by
  cases params with
  | obj members => simp [document?, Json.set, Json.member?, Table.get?_insert, hn.symm]
  | _ => rfl

theorem document?_references (uri : String) (p : Wire.Position) (includeDeclaration : Bool) :
    document? (references uri p includeDeclaration) = some uri :=
  (document?_set _ _ (by simp)).trans (document?_position uri p)

theorem document?_rename (uri : String) (p : Wire.Position) (newName : String) :
    document? (rename uri p newName) = some uri :=
  (document?_set _ _ (by simp)).trans (document?_position uri p)

theorem document?_query (text : String) : document? (query text) = none := by
  simp [document?, query, single, Json.member?, Table.get?]

end Params

/-! ## Places -/

inductive Opening where
  | away (known : Option String)
  | inLine (uri : String)
  | first (uri : String)
  | bare (uri : String)
  | offering (uri : String) (ticket : Nat)
  | accepted (uri : String) (ticket : Nat)
  | working (uri : String)
  | unbound

namespace Opening

def ofPhase : Phase → Opening
  | .answering m => if m.method? = none then away none else unbound
  | _ => away none

def ofDocument (uri : String) : Option OpenDocument → Opening
  | none => bare uri
  | some _ => working uri

def Suits (known : Option String) (frame : Json) : Prop :=
  frame.IsFormal ∨
    ∀ uri, frame.document? = some uri → known = some uri ∧ frame.hasMethod "textDocument/didOpen" = false

def Allows : Opening → Action → Prop
  | away known, .enqueue frame => Suits known frame
  | away _, .spawn phase => ofPhase phase = away none
  | away _, .lineUp _ => True
  | away _, a => a.isAtDesk = false
  | inLine uri, a => a = .awaitTurn uri
  | first uri, a => a = .document uri
  | bare uri, a => a = .syncMode ∨ a = .leave uri ∨ ∃ frame, a = .enqueue frame ∧ frame.opens uri = true
  | offering _ ticket, a => a = .awaitReceipt ticket
  | accepted uri _, a => ∃ document, a = .commit uri (some document)
  | working uri, .enqueue frame => Suits (some uri) frame
  | working uri, .leave u => u = uri
  | working uri, .commit u after => u = uri ∧ after ≠ none
  | working _, a => a.isOrdinary = true ∧ a.isAtDesk = false
  | unbound, _ => True

def after : Opening → (a : Action) → a.Answer → Opening
  | away _, .lineUp uri, _ => inLine uri
  | inLine _, .awaitTurn uri, _ => first uri
  | first _, .document uri, document => ofDocument uri document
  | bare uri, .enqueue _, some ticket => offering uri ticket
  | bare _, .leave _, _ => away none
  | offering uri ticket, .awaitReceipt _, receipt => if receipt = .written then accepted uri ticket else bare uri
  | accepted uri _, .commit _ _, _ => working uri
  | working uri, .leave _, _ => away (some uri)
  | place, _, _ => place

def Fits : Next → Opening → Prop
  | .finish _, _ => True
  | .resume phase, place => ofPhase phase = away none ∧ (∃ known, place = away known) ∨ place = unbound

def rules : Rules Opening :=
  ⟨Allows, after⟩

def known? : Opening → Option String
  | away known => known
  | working uri => some uri
  | _ => none

inductive Turn : Opening → (a : Action) → a.Answer → Opening → Prop
  | lineUp {known : Option String} {uri : String} : Turn (away known) (.lineUp uri) () (inLine uri)
  | come {uri : String} : Turn (inLine uri) (.awaitTurn uri) () (first uri)
  | find {uri : String} {document : Option OpenDocument} :
    Turn (first uri) (.document uri) document (ofDocument uri document)
  | offer {uri : String} {frame : Json} {ticket : Nat} (h : frame.opens uri = true) :
    Turn (bare uri) (.enqueue frame) (some ticket) (offering uri ticket)
  | accept {uri : String} {ticket : Nat} :
    Turn (offering uri ticket) (.awaitReceipt ticket) .written (accepted uri ticket)
  | refuse {uri : String} {ticket : Nat} {receipt : Receipt} (h : receipt ≠ .written) :
    Turn (offering uri ticket) (.awaitReceipt ticket) receipt (bare uri)
  | commit {uri : String} {ticket : Nat} {document : OpenDocument} :
    Turn (accepted uri ticket) (.commit uri (some document)) () (working uri)
  | update {uri : String} {document : OpenDocument} :
    Turn (working uri) (.commit uri (some document)) () (working uri)
  | giveUp {uri : String} : Turn (bare uri) (.leave uri) () (away none)
  | leave {uri : String} : Turn (working uri) (.leave uri) () (away (some uri))
  | speak {place : Opening} {frame : Json} {ticket : Nat} (h : Suits place.known? frame) :
    Turn place (.enqueue frame) (some ticket) place
  | other {place : Opening} {a : Action} {answer : a.Answer} (ha : a.isAtDesk = false)
    (hh : ∀ t, Deed.handsIn? ⟨t, a, answer⟩ = none) : Turn place a answer place

theorem turn_after {place : Opening} {a : Action} (ha : place.Allows a) (hu : place ≠ unbound) (answer : a.Answer) :
    Turn place a answer (place.after a answer) := by
  have hspeak : ∀ {place : Opening} {frame : Json} (ticket : Option Nat), Suits place.known? frame →
      Turn place (.enqueue frame) ticket place := by
    intro place frame ticket hs
    cases ticket with
    | none => exact .other rfl fun _ => rfl
    | some ticket => exact .speak hs
  cases place with
  | away known =>
    cases a with
    | enqueue frame => exact hspeak answer ha
    | lineUp uri => exact .lineUp
    | awaitTurn uri | document uri | commit uri after | leave uri => cases ha
    | _ => exact .other rfl fun _ => rfl
  | inLine uri =>
    cases ha
    exact .come
  | first uri =>
    cases ha
    exact .find
  | bare uri =>
    rcases ha with rfl | rfl | ⟨frame, rfl, hf⟩
    · exact .other rfl fun _ => rfl
    · exact .giveUp
    · cases answer with
      | none => exact .other rfl fun _ => rfl
      | some ticket => exact .offer hf
  | offering uri ticket =>
    cases ha
    cases answer with
    | written => exact .accept
    | failed reason => exact .refuse Receipt.noConfusion
    | dropped => exact .refuse Receipt.noConfusion
  | accepted uri ticket =>
    obtain ⟨document, rfl⟩ := ha
    exact .commit
  | working uri =>
    cases a with
    | enqueue frame => exact hspeak answer ha
    | leave u =>
      cases ha
      exact .leave
    | commit u after =>
      obtain ⟨rfl, hd⟩ := ha
      obtain ⟨document, rfl⟩ := Option.ne_none_iff_exists'.mp hd
      exact .update
    | lineUp u | awaitTurn u | document u => cases ha.2
    | _ => exact .other rfl fun _ => rfl
  | unbound => exact absurd rfl hu

variable {known : Option String} {uri : String}

theorem tolerates_away {a : Action} (h : Allows (away known) a) (hl : ∀ uri, a ≠ .lineUp uri) :
    rules.Tolerates (away known) a := by
  refine ⟨h, ?_⟩
  intro answer
  cases a with
  | lineUp uri => exact absurd rfl (hl uri)
  | _ => rfl

theorem isPlain_away : rules.IsPlain (away known) := by
  intro a ho hd
  cases a <;> first | exact tolerates_away rfl (by simp) | (cases hd; done) | cases ho

theorem isPlain_working : rules.IsPlain (working uri) := by
  intro a ho hd
  cases a <;> first | exact ⟨⟨rfl, rfl⟩, fun _ => rfl⟩ | (cases hd; done) | cases ho

theorem serves_away (service : Service) : rules.Serves (away known) service := by
  intro a ha
  cases a <;> first | exact tolerates_away rfl (by simp) | cases ha

theorem ends_away : rules.Ends (away known) :=
  ⟨tolerates_away rfl (by simp), fun _ => tolerates_away rfl (by simp), tolerates_away rfl (by simp),
    tolerates_away rfl (by simp)⟩

theorem speaks_away {method : String} (h : method ∈ ["initialize", "initialized", "shutdown", "exit"]) :
    rules.Speaks (away known) method :=
  speaks_of_isAmong (fun _ hf => tolerates_away (.inl hf) (by simp)) h

theorem ofPhase_eq_away {p : Phase} (hp : ∀ m, p ≠ .answering m) : ofPhase p = away none := by
  cases p with
  | answering m => exact absurd rfl (hp m)
  | _ => rfl

theorem keeps_of_stays {service : Option Service} {r : Routine Next} (h : rules.Stays (away known) service r) :
    r.Keeps rules (away known) Fits :=
  h.keeps (fun _ => trivial) fun _ _ hp => .inl ⟨ofPhase_eq_away hp, known, rfl⟩

/-! ## Working on a document -/

theorem keeps_withDocument {α : Type} {body : Option OpenDocument → Attempt α}
    {fits : Except CallError α → Opening → Prop}
    (hb : ∀ document, (body document).run.Keeps rules (ofDocument uri document) fun result place =>
      place = working uri ∧ fits result (away (some uri)) ∨ place = bare uri ∧ fits result (away none)) :
    (withDocument uri body).run.Keeps rules (away known) fits := by
  unfold withDocument
  refine Attempt.keeps_bind.mpr ⟨trivial, fun _ => ?_⟩
  refine Attempt.keeps_bind.mpr ⟨rfl, fun _ => ?_⟩
  refine Attempt.keeps_bind.mpr ⟨rfl, fun document => ?_⟩
  apply Attempt.keeps_outcome_bind
  apply (hb document).mono
  rintro result _ (⟨rfl, hf⟩ | ⟨rfl, hf⟩)
  · exact Attempt.keeps_bind.mpr ⟨rfl, fun _ => hf⟩
  · exact Attempt.keeps_bind.mpr ⟨.inr (.inl rfl), fun _ => hf⟩

theorem keeps_looking {α : Type} (look : Option OpenDocument → α) :
    (withDocument uri fun document => return look document).run.Keeps rules (away known) fun result place =>
      ∃ document : Option OpenDocument, result = .ok (look document) ∧ place = away (document.map fun _ => uri) := by
  apply keeps_withDocument
  intro document
  cases document with
  | none => exact .inr ⟨rfl, none, rfl, rfl⟩
  | some d => exact .inl ⟨rfl, some d, rfl, rfl⟩

/-- Whoever opens a document works on an open document, unless that fails. -/
theorem keeps_opening {α : Type} (uri languageId text : String) (answer : α) :
    (carryOut uri (DocumentStore.opening uri languageId text answer)).run.Keeps rules (bare uri) fun result place =>
      place = working uri ∨ place = bare uri ∧ ∃ e, result = .error e := by
  have hopens : (Message.notification "textDocument/didOpen"
      (some (Params.opened uri languageId 1 text))).toJson.opens uri = true := by
    simp [Json.opens, hasMethod_toJson, Message.method?, document?_notification, Params.document?_opened]
  unfold DocumentStore.opening carryOut
  apply Attempt.keeps_outcome_bind
  unfold notify send
  refine Attempt.keeps_bind.mpr ⟨.inr (.inr ⟨_, rfl, hopens⟩), fun ticket => ?_⟩
  cases ticket with
  | none => exact .inr ⟨rfl, _, rfl⟩
  | some ticket =>
    refine Attempt.keeps_bind.mpr ⟨rfl, fun receipt => ?_⟩
    cases receipt with
    | written => exact Attempt.keeps_bind.mpr ⟨⟨_, rfl⟩, fun _ => .inl rfl⟩
    | failed reason => exact .inr ⟨rfl, _, rfl⟩
    | dropped => exact .inr ⟨rfl, _, rfl⟩

theorem suits_of_document {frame : Json} (hd : frame.document? = some uri)
    (hm : frame.hasMethod "textDocument/didOpen" = false) : Suits (some uri) frame := by
  right
  intro u hu
  exact ⟨hd ▸ hu, hm⟩

theorem keeps_openDocument (languageId text : String) :
    (openDocument uri languageId text).run.Keeps rules (away known) fun result place =>
      ∃ known', place = away known' ∧ ((∃ b, result = .ok b) → known' = some uri) := by
  apply keeps_withDocument
  intro document
  cases document with
  | some d => exact .inl ⟨rfl, some uri, rfl, fun _ => rfl⟩
  | none =>
    apply (keeps_opening uri languageId text true).mono
    rintro result _ (rfl | ⟨rfl, e, rfl⟩)
    · exact .inl ⟨rfl, some uri, rfl, fun _ => rfl⟩
    · exact .inr ⟨rfl, none, rfl, fun ⟨_, he⟩ => by cases he⟩

theorem keeps_changeDocument (languageId text : String) :
    (changeDocument uri languageId text).run.Keeps rules (away known) fun _ place => ∃ known', place = away known' := by
  unfold changeDocument
  apply keeps_withDocument
  intro document
  cases document with
  | none =>
    refine Attempt.keeps_bind.mpr ⟨.inl rfl, fun mode => ?_⟩
    apply (keeps_opening uri languageId text (some 1)).mono
    rintro result _ (rfl | ⟨rfl, -⟩)
    · exact .inl ⟨rfl, some uri, rfl⟩
    · exact .inr ⟨rfl, none, rfl⟩
  | some d =>
    refine Attempt.keeps_bind.mpr ⟨⟨rfl, rfl⟩, fun mode => ?_⟩
    suffices hcalm : (carryOut uri (DocumentStore.planChange (some d) mode uri languageId text)).run.Calm rules
        (working uri) from hcalm.mono fun _ _ he => .inl ⟨he, some uri, rfl⟩
    unfold DocumentStore.planChange
    simp only
    split
    · exact Attempt.calm_pure _
    · have hsuits : Suits (some uri) (Message.notification "textDocument/didChange"
          (some (DocumentStore.changeParams mode uri (d.version + 1) d.text text))).toJson :=
        suits_of_document (by simp [document?_notification, Params.document?_changeParams])
          (by simp [hasMethod_toJson, Message.method?])
      unfold carryOut
      apply Attempt.calm_outcome_bind (calm_send isPlain_working ⟨hsuits, fun _ => rfl⟩)
      intro sent
      cases sent with
      | ok _ => exact Attempt.keeps_bind.mpr ⟨⟨rfl, Option.some_ne_none _⟩, fun _ => rfl⟩
      | error e => exact Attempt.calm_throw _

/-- Whoever has made sure that a document is open knows it to be open. -/
theorem keeps_ensureOpen (o : ClientOptions) (path : Path) :
    (ensureOpen o path).run.Keeps rules (away known) fun result place =>
      ∃ known', place = away known' ∧ ∀ uri opened, result = .ok (uri, opened) → known' = some uri := by
  have hrefused : ∀ e known', ∃ known'', away known' = away known'' ∧
      ∀ uri opened, (.error e : Except CallError (String × Bool)) = .ok (uri, opened) → known'' = some uri :=
    fun e known' => ⟨known', rfl, fun _ _ he => by cases he⟩
  unfold ensureOpen
  cases o.uriFor (o.resolve path) with
  | error e => exact hrefused e known
  | ok uri =>
    refine Attempt.keeps_bind.mpr (Attempt.keeps_bind.mpr ((keeps_looking (·.isSome)).mono ?_))
    rintro _ _ ⟨document, rfl, rfl⟩
    cases document with
    | some d => exact ⟨some uri, rfl, fun _ _ he => by cases he; rfl⟩
    | none =>
      refine Attempt.keeps_bind.mpr ((calm_readText isPlain_away _).mono ?_)
      rintro text _ rfl
      cases text with
      | error e => exact hrefused e none
      | ok text =>
        refine Attempt.keeps_bind.mpr ((keeps_openDocument _ _).mono ?_)
        rintro result _ ⟨known', rfl, hknown⟩
        cases result with
        | error e => exact hrefused e known'
        | ok opened => exact ⟨known', rfl, fun _ _ he => by cases he; exact hknown ⟨_, rfl⟩⟩

/-! ## Operations -/

def IsAway (place : Opening) : Prop :=
  ∃ known, place = away known

def Wanders {α : Type} (r : Attempt α) : Prop :=
  ∀ known, r.run.Keeps rules (away known) fun _ place => place.IsAway

section

variable {α β : Type} {r : Attempt α} {f : α → Attempt β}

theorem isAway_of_calm (hr : r.run.Calm rules (away known)) :
    r.run.Keeps rules (away known) fun _ place => place.IsAway :=
  hr.mono fun _ _ he => ⟨known, he⟩

theorem wanders_of_calm (hr : ∀ known, r.run.Calm rules (away known)) : Wanders r :=
  fun known => isAway_of_calm (hr known)

theorem wanders_pure (a : α) : Wanders (pure a) :=
  wanders_of_calm fun _ => Attempt.calm_pure a

theorem wanders_throw (e : CallError) : Wanders (throw e : Attempt α) :=
  wanders_of_calm fun _ => Attempt.calm_throw e

theorem wanders_ofExcept (result : Except CallError α) : Wanders (Attempt.ofExcept result) :=
  wanders_of_calm fun _ => Attempt.calm_ofExcept result

theorem wanders_snapshot (uri : String) : Wanders (liftM (act (.snapshot uri))) :=
  wanders_of_calm fun _ => Attempt.calm_act (isPlain_away (.snapshot uri) rfl rfl)

theorem wanders_ensureReady : Wanders ensureReady :=
  wanders_of_calm fun _ => calm_ensureReady isPlain_away

theorem wanders_interpreted {ε : Type} (method : String) (message : ε → String) (result : Except ε α) :
    Wanders (interpreted method message result) :=
  wanders_of_calm fun _ => calm_interpreted method message result

theorem Wanders.bind (hr : Wanders r) (hf : ∀ a, Wanders (f a)) : Wanders (r >>= f) := by
  intro known
  refine Attempt.keeps_bind.mpr ((hr known).mono ?_)
  rintro result _ ⟨known', rfl⟩
  cases result with
  | ok a => exact hf a known'
  | error e => exact ⟨known', rfl⟩

theorem wanders_mapM {f : α → Attempt β} (hf : ∀ a, Wanders (f a)) (as : List α) : Wanders (as.mapM f) := by
  induction as with
  | nil => exact wanders_pure _
  | cons a as ih =>
    rw [List.mapM_cons]
    exact (hf a).bind fun b => ih.bind fun bs => wanders_pure _

theorem wanders_looking (uri : String) (look : Option OpenDocument → α) :
    Wanders (withDocument uri fun document => return look document) := by
  intro known
  apply (keeps_looking look).mono
  rintro _ _ ⟨document, -, rfl⟩
  exact ⟨_, rfl⟩

/-- What follows on making sure that a document is open may speak of it. -/
theorem wanders_ensureOpen {f : String × Bool → Attempt β} (o : ClientOptions) (path : Path)
    (hf : ∀ uri opened, (f (uri, opened)).run.Keeps rules (away (some uri)) fun _ place => place.IsAway) :
    Wanders (ensureOpen o path >>= f) := by
  intro known
  refine Attempt.keeps_bind.mpr ((keeps_ensureOpen o path).mono ?_)
  rintro result _ ⟨known', rfl, hknown⟩
  cases result with
  | error e => exact ⟨known', rfl⟩
  | ok opened =>
    obtain rfl := hknown _ _ rfl
    exact hf _ _

end

theorem calm_requestAbout (o : ClientOptions) {method : String} {params : Json} (timeout : Option Nat)
    (hm : method ≠ "textDocument/didOpen") (hp : Params.document? params = some uri) :
    (request o method params timeout).run.Calm rules (away (some uri)) := by
  apply calm_request isPlain_away
  intro id
  apply tolerates_away _ (by simp)
  exact suits_of_document (by simp [document?_request, hp]) (by simp [hasMethod_toJson, Message.method?, hm])

section

variable (o : ClientOptions) {method : String} (timeout : Option Nat) (hm : method ≠ "textDocument/didOpen")
include hm

theorem wanders_placeRequest (place : Place) {params : String → Wire.Position → Json}
    (hp : ∀ uri position, Params.document? (params uri position) = some uri) :
    Wanders (placeRequest o method place timeout params) := by
  unfold placeRequest
  split
  · exact wanders_throw _
  · apply wanders_ensureReady.bind
    intro _
    apply wanders_ensureOpen
    intro uri opened
    exact isAway_of_calm (calm_requestAbout o timeout hm (hp _ _))

theorem wanders_documentRequest (path : Path) : Wanders (documentRequest o method path timeout) := by
  unfold documentRequest
  apply wanders_ensureReady.bind
  intro _
  apply wanders_ensureOpen
  intro uri opened
  have hrequest := calm_requestAbout o timeout hm (Params.document?_document uri)
  exact isAway_of_calm (Attempt.calm_bind hrequest fun _ => Attempt.calm_pure _)

end

section

variable (o : ClientOptions) (path : Path) (timeout : Option Nat)

theorem wanders_openFile : Wanders (openFile o path) := by
  unfold openFile
  apply wanders_ensureReady.bind
  intro _
  apply wanders_ensureOpen
  exact fun uri opened => wanders_pure _ _

theorem wanders_fileChanged : Wanders (fileChanged o path) := by
  unfold fileChanged
  apply wanders_ensureReady.bind
  intro _
  apply (wanders_ofExcept _).bind
  intro uri
  apply (wanders_of_calm fun _ => calm_readText isPlain_away _).bind
  intro text
  exact fun known => keeps_changeDocument _ _

theorem wanders_documentVersion : Wanders (documentVersion o path) := by
  unfold documentVersion
  apply (wanders_ofExcept _).bind
  intro uri
  exact wanders_looking uri _

theorem wanders_openDocuments : Wanders openDocuments := by
  have huris : Wanders (liftM (act .documentUris)) :=
    wanders_of_calm fun _ => Attempt.calm_act (isPlain_away .documentUris rfl rfl)
  unfold openDocuments
  apply huris.bind
  intro uris
  apply (wanders_mapM (fun uri => wanders_looking uri _) uris).bind
  intro found
  exact wanders_pure _

theorem wanders_workspaceSymbols (query : String) : Wanders (workspaceSymbols o query timeout) := by
  have hrequest : Wanders (request o "workspace/symbol" (Params.query query) timeout) := by
    apply wanders_of_calm
    intro known
    apply calm_request isPlain_away
    intro id
    exact tolerates_away (.inr (by simp [document?_request, Params.document?_query])) (by simp)
  unfold workspaceSymbols
  apply wanders_ensureReady.bind
  intro _
  apply hrequest.bind
  intro answer
  exact wanders_interpreted _ _ _

theorem wanders_pullDiagnostics : Wanders (pullDiagnostics o path timeout) := by
  unfold pullDiagnostics
  apply (wanders_documentRequest o timeout (by simp) path).bind
  intro answered
  apply (wanders_interpreted _ _ _).bind
  intro report
  cases report with
  | unchanged => exact wanders_snapshot _
  | full diagnostics =>
    apply (wanders_looking _ _).bind
    intro version
    exact (wanders_snapshot _).bind fun cached => wanders_pure _

theorem wanders_openForDiagnostics : Wanders (openForDiagnostics o path) := by
  unfold openForDiagnostics
  apply wanders_ensureReady.bind
  intro _
  apply (wanders_ofExcept _).bind
  intro uri
  apply (wanders_snapshot uri).bind
  intro cached
  apply wanders_ensureOpen
  exact fun uri opened => wanders_pure _ _

end

theorem keeps_finishing {α : Type} (found : α → Finding) {r : Attempt α} (hr : Wanders r) :
    (finishing found r).Keeps rules (away known) Fits :=
  Routine.keeps_bind.mpr ((hr known).mono fun _ _ _ => trivial)

theorem keeps_answered {ε α : Type} (found : α → Finding) {r : Attempt Json} (hr : Wanders r) (method : String)
    (message : ε → String) (read : Json → Except ε α) :
    (finishing found (r >>= fun answer => interpreted method message (read answer))).Keeps rules (away known) Fits :=
  keeps_finishing found (hr.bind fun _ => wanders_interpreted _ _ _)

theorem keeps_operation (o : ClientOptions) {op : Operation} (hr : op.isRaw = false)
    (hc : ∀ path, op ≠ .closeFile path) : (op.routine o).Keeps rules (away none) Fits := by
  cases op with
  | handshake =>
    exact keeps_of_stays (stays_finishing _ (calm_handshake isPlain_away ends_away (speaks_away (by simp))
      (speaks_away (by simp)) (tolerates_away rfl (by simp)) o))
  | shutdown =>
    exact keeps_of_stays (stays_over (calm_shutdown isPlain_away ends_away (speaks_away (by simp))
      (speaks_away (by simp)) fun _ => tolerates_away rfl (by simp)) none)
  | openFile path => exact keeps_finishing _ (wanders_openFile o path)
  | closeFile path => exact absurd rfl (hc path)
  | fileChanged path => exact keeps_finishing _ (wanders_fileChanged o path)
  | documentVersion path => exact keeps_finishing _ (wanders_documentVersion o path)
  | openDocuments => exact keeps_finishing _ wanders_openDocuments
  | locate goal place timeout =>
    have hm : goal.method ≠ "textDocument/didOpen" := by cases goal <;> simp [Goal.method]
    exact keeps_answered _ (wanders_placeRequest o timeout hm place Params.document?_position) _ _ _
  | references place withDeclaration timeout =>
    have hp := fun uri position => Params.document?_references uri position withDeclaration
    exact keeps_answered _ (wanders_placeRequest o timeout (by simp) place hp) _ _ _
  | hover place timeout =>
    exact keeps_answered _ (wanders_placeRequest o timeout (by simp) place Params.document?_position) _ _ _
  | rename place newName timeout =>
    have hp := fun uri position => Params.document?_rename uri position newName
    exact keeps_answered _ (wanders_placeRequest o timeout (by simp) place hp) _ _ _
  | documentSymbols path timeout =>
    exact keeps_finishing _ ((wanders_documentRequest o timeout (by simp) path).bind fun _ =>
      wanders_interpreted _ _ _)
  | workspaceSymbols query timeout => exact keeps_finishing _ (wanders_workspaceSymbols o timeout query)
  | pullDiagnostics path timeout => exact keeps_finishing _ (wanders_pullDiagnostics o path timeout)
  | awaitDiagnostics path timeout =>
    refine Routine.keeps_bind.mpr ((wanders_openForDiagnostics o path none).mono ?_)
    rintro opened _ ⟨known', rfl⟩
    cases opened with
    | error e => exact trivial
    | ok opened => exact ⟨rfl, fun seen => ⟨rfl, fun limit => .inl ⟨rfl, known', rfl⟩⟩⟩
  | call method params timeout => cases hr
  | notify method params => cases hr
  | cancel id reason => exact ⟨rfl, fun _ => trivial⟩
  | closeStream => exact ⟨rfl, fun _ => trivial⟩

theorem keeps_phase (p : Phase) : p.routine.Keeps rules (ofPhase p) Fits := by
  have hother : ∀ {p : Phase}, (∀ m, p ≠ .answering m) → p.routine.Keeps rules (ofPhase p) Fits := by
    intro p hp
    rw [ofPhase_eq_away hp]
    exact keeps_of_stays (stays_phase isPlain_away ends_away (fun _ _ => serves_away _)
      (fun _ _ => tolerates_away rfl (by simp)) fun m he => absurd he (hp m))
  cases p with
  | answering m =>
    rw [ofPhase]
    split
    · rename_i hm
      have hformal : m.toJson.IsFormal := isAmong_toJson_iff.mpr (by simp [hm])
      exact keeps_of_stays (stays_answering isPlain_away (tolerates_away (.inl hformal) (by simp)))
    · have hall : ∀ a, rules.Tolerates unbound a := fun a => ⟨trivial, fun answer => by cases a <;> rfl⟩
      exact (stays_answering (fun a _ _ => hall a) (hall _)).keeps (fun _ => trivial) fun _ _ _ => .inr rfl
  | _ => exact hother fun _ => Phase.noConfusion

def placement : Placement rules where
  Admits op := op.isRaw = false ∧ ∀ path, op ≠ .closeFile path
  operation _ := away none
  phase := ofPhase
  Fits := Fits
  keeps_operation o _ h := keeps_operation o h.1 h.2
  keeps_phase := keeps_phase

end Opening

end Liaison
