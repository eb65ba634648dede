import Liaison.Session.Lifecycle
import Liaison.Session.Service

/-!
# Operations

What a session can be asked for. A request about a document opens it first if need be.
-/

namespace Liaison

/-! ## Documents -/

def withDocument {α : Type} (uri : String) (body : Option OpenDocument → Attempt α) : Attempt α := do
  act (.lineUp uri)
  act (.awaitTurn uri)
  let document ← act (.document uri)
  let result ← (body document).outcome
  act (.leave uri)
  Attempt.ofExcept result

/-- Carries out a plan. It takes effect only if the notification is written. -/
def carryOut {α : Type} (uri : String) : DocumentPlan α → Attempt α
  | .keep answer => return answer
  | .send notice after answer => do
    match ← (notify notice.method (some notice.params)).outcome with
    | .ok () =>
      act (.commit uri after)
      return answer
    | .error e => throw (.sync uri e)

/-- Opens a document unless it is open. Says whether it was not. -/
def openDocument (uri languageId text : String) : Attempt Bool :=
  withDocument uri fun document =>
    carryOut uri (DocumentStore.planOpen document uri languageId text)

/-- Gives a document a new text, and opens it first if need be. Returns the new version if it is another
text. -/
def changeDocument (uri languageId text : String) : Attempt (Option Nat) :=
  withDocument uri fun document => do
    let mode ← act .syncMode
    carryOut uri (DocumentStore.planChange document mode uri languageId text)

def closeDocument (uri : String) : Attempt Bool :=
  withDocument uri fun document => carryOut uri (DocumentStore.planClose document uri)

def isOpen (uri : String) : Attempt Bool :=
  withDocument uri fun document => return document.isSome

def readText (path : Path) : Attempt String := do
  match ← act (.readFile path) with
  | .ok text => return text
  | .error fault => throw (.file fault)

/-- Opens a document with the text of its file unless it is open. Returns its URI, and whether it was
not open. -/
def ensureOpen (o : ClientOptions) (path : Path) : Attempt (String × Bool) := do
  let uri ← Attempt.ofExcept (o.uriFor (o.resolve path))
  if ← isOpen uri then return (uri, false)
  else
    let text ← readText (o.resolve path)
    return (uri, ← openDocument uri o.languageId text)

def openFile (o : ClientOptions) (path : Path) : Attempt Unit := do
  ensureReady
  let _ ← ensureOpen o path

/-- Closes a document. The versions of its diagnostics do not count any longer. Says whether it was
open. -/
def closeFile (o : ClientOptions) (path : Path) : Attempt Bool := do
  ensureReady
  let uri ← Attempt.ofExcept (o.uriFor path)
  let closed ← closeDocument uri
  if closed then act (.forgetVersion uri)
  return closed

/-- Tells the server the text that a file has now. Returns the new version if it is another text. -/
def fileChanged (o : ClientOptions) (path : Path) : Attempt (Option Nat) := do
  ensureReady
  let uri ← Attempt.ofExcept (o.uriFor (o.resolve path))
  let text ← readText (o.resolve path)
  changeDocument uri o.languageId text

def documentVersion (o : ClientOptions) (path : Path) : Attempt (Option Nat) := do
  let uri ← Attempt.ofExcept (o.uriFor path)
  withDocument uri fun document => return document.map (·.version)

def openDocuments : Attempt (List String) := do
  let uris ← act .documentUris
  let found ← uris.mapM fun uri =>
    withDocument uri fun document => return document.map (·.uri)
  return found.filterMap id

/-! ## Requests -/

/-- A place in a file, in lines and columns that count from one. -/
structure Place where
  path : Path
  line : Nat
  column : Nat

inductive Goal where
  | definition
  | typeDefinition
  | implementation
deriving DecidableEq

def Goal.method : Goal → String
  | definition => "textDocument/definition"
  | typeDefinition => "textDocument/typeDefinition"
  | implementation => "textDocument/implementation"

def request (o : ClientOptions) (method : String) (params : Json) (timeout : Option Nat) :
    Attempt Json :=
  call method (some params) (some (timeout.getD o.requestTimeout))

def placeRequest (o : ClientOptions) (method : String) (place : Place) (timeout : Option Nat)
    (params : String → Wire.Position → Json) : Attempt Json := do
  match Wire.Position.ofOneIndexed? place.line place.column with
  | none => throw (.invalidPosition place.line place.column)
  | some position =>
    ensureReady
    let (uri, _) ← ensureOpen o place.path
    request o method (params uri position) timeout

def interpreted {ε α : Type} (method : String) (message : ε → String) :
    Except ε α → Attempt α
  | .ok a => return a
  | .error e => throw (.invalidResponse method (message e))

def locate (o : ClientOptions) (goal : Goal) (place : Place) (timeout : Option Nat) :
    Attempt (List Location) := do
  let answer ← placeRequest o goal.method place timeout Params.position
  interpreted goal.method DecodeError.message (Location.ofAnswer answer)

def references (o : ClientOptions) (place : Place) (withDeclaration : Bool)
    (timeout : Option Nat) : Attempt (List Location) := do
  let method := "textDocument/references"
  let answer ← placeRequest o method place timeout fun uri position =>
    Params.references uri position withDeclaration
  interpreted method DecodeError.message (Location.ofAnswer answer)

def hover (o : ClientOptions) (place : Place) (timeout : Option Nat) : Attempt (Option Hover) := do
  let method := "textDocument/hover"
  let answer ← placeRequest o method place timeout Params.position
  interpreted method DecodeError.message (Hover.ofAnswer answer)

def rename (o : ClientOptions) (place : Place) (newName : String) (timeout : Option Nat) :
    Attempt RenameEdits := do
  let method := "textDocument/rename"
  let answer ← placeRequest o method place timeout fun uri position =>
    Params.rename uri position newName
  interpreted method RenameError.message (RenameEdits.ofAnswer answer)

def documentRequest (o : ClientOptions) (method : String) (path : Path) (timeout : Option Nat) :
    Attempt (String × Json) := do
  ensureReady
  let (uri, _) ← ensureOpen o path
  return (uri, ← request o method (Params.document uri) timeout)

def documentSymbols (o : ClientOptions) (path : Path) (timeout : Option Nat) :
    Attempt (List Symbol) := do
  let method := "textDocument/documentSymbol"
  let (_, answer) ← documentRequest o method path timeout
  interpreted method DecodeError.message (Symbol.ofAnswer answer)

def workspaceSymbols (o : ClientOptions) (query : String) (timeout : Option Nat) :
    Attempt (List Symbol) := do
  let method := "workspace/symbol"
  ensureReady
  let answer ← request o method (Params.query query) timeout
  interpreted method DecodeError.message (Symbol.ofAnswer answer)

/-! ## Diagnostics -/

/-- Asks for the diagnostics of a document. If they are said to be the same as before, the cached
ones are taken. -/
def pullDiagnostics (o : ClientOptions) (path : Path) (timeout : Option Nat) :
    Attempt DiagnosticSet := do
  let method := "textDocument/diagnostic"
  let (uri, answer) ← documentRequest o method path timeout
  match ← interpreted method DecodeError.message (DiagnosticReport.decode answer) with
  | .full diagnostics =>
    let version ← withDocument uri fun document => return document.map (·.version)
    let cached ← act (.snapshot uri)
    return ⟨uri, diagnostics, ⟨version.map Int.ofNat, cached.stamp.sequence⟩⟩
  | .unchanged => act (.snapshot uri)

/-- Opens a document if need be. Returns its URI, and the number of the diagnostics that are not new
enough: if it was open before, any will do. -/
def openForDiagnostics (o : ClientOptions) (path : Path) : Attempt (String × Nat) := do
  ensureReady
  let uri ← Attempt.ofExcept (o.uriFor path)
  let cached ← act (.snapshot uri)
  let (_, opened) ← ensureOpen o path
  return (uri, if opened then cached.stamp.sequence else 0)

def awaitNewer (uri : String) (after timeout : Nat) : Routine Next := do
  let seen ← act .subscribe
  let limit ← act (.deadline (some timeout))
  return .resume (.awaitingDiagnostics uri after seen (limit.getD 0))

def awaitDiagnostics (o : ClientOptions) (path : Path) (timeout : Nat) : Routine Next := do
  match ← (openForDiagnostics o path).run with
  | .error e => return .finish (.error e)
  | .ok (uri, after) => awaitNewer uri after timeout

/-! ## Operations -/

/-- What a session can be asked for. Times are in microseconds. -/
inductive Operation where
  | handshake
  | shutdown
  | openFile (path : Path)
  | closeFile (path : Path)
  | fileChanged (path : Path)
  | documentVersion (path : Path)
  | openDocuments
  | locate (goal : Goal) (place : Place) (timeout : Option Nat)
  | references (place : Place) (withDeclaration : Bool) (timeout : Option Nat)
  | hover (place : Place) (timeout : Option Nat)
  | rename (place : Place) (newName : String) (timeout : Option Nat)
  | documentSymbols (path : Path) (timeout : Option Nat)
  | workspaceSymbols (query : String) (timeout : Option Nat)
  | pullDiagnostics (path : Path) (timeout : Option Nat)
  | awaitDiagnostics (path : Path) (timeout : Nat)
  | call (method : String) (params : Option Json) (timeout : Option Nat)
  | notify (method : String) (params : Option Json)
  | cancel (id : Nat) (reason : String)
  | closeStream

def finishing {α : Type} (found : α → Finding) (r : Attempt α) : Routine Next := do
  return .finish ((← r.run).map found)

def Operation.routine (o : ClientOptions) : Operation → Routine Next
  | handshake => finishing (fun _ => .nothing) (Liaison.handshake o)
  | shutdown => do
    Liaison.shutdown
    return .over
  | openFile path => finishing (fun _ => .nothing) (Liaison.openFile o path)
  | closeFile path => finishing .flag (Liaison.closeFile o path)
  | fileChanged path => finishing .version (Liaison.fileChanged o path)
  | documentVersion path => finishing .version (Liaison.documentVersion o path)
  | openDocuments => finishing .uris Liaison.openDocuments
  | locate goal place timeout => finishing .locations (Liaison.locate o goal place timeout)
  | references place withDeclaration timeout =>
    finishing .locations (Liaison.references o place withDeclaration timeout)
  | hover place timeout => finishing .hover (Liaison.hover o place timeout)
  | rename place newName timeout => finishing .edits (Liaison.rename o place newName timeout)
  | documentSymbols path timeout => finishing .symbols (Liaison.documentSymbols o path timeout)
  | workspaceSymbols query timeout => finishing .symbols (Liaison.workspaceSymbols o query timeout)
  | pullDiagnostics path timeout => finishing .diagnostics (Liaison.pullDiagnostics o path timeout)
  | awaitDiagnostics path timeout => Liaison.awaitDiagnostics o path timeout
  | call method params timeout => finishing .answer (Liaison.call method params timeout)
  | notify method params => finishing (fun _ => .nothing) (Liaison.notify method params)
  | cancel id reason => do
    return .finish (.ok (.flag (← act (.cancel id reason))))
  | closeStream => do
    Liaison.closeStream
    return .over

end Liaison
