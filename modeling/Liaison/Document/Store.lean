import Liaison.CallError
import Liaison.Document.Change
import Liaison.Request.Params

/-!
# Open documents

The store holds what the server was last told about each open document. Every operation is a plan:
it sends at most one notification, and its effect is taken over only when that was written.
-/

namespace Liaison

structure OpenDocument where
  uri : String
  languageId : String
  version : Nat
  mode : SyncMode
  text : String
deriving DecidableEq

structure Notice where
  method : String
  params : Json
deriving DecidableEq

/-- What an operation on a document comes to: nothing is sent, or a notification, after which the
document is as given. Either way there is an answer for the caller. -/
inductive DocumentPlan (α : Type) where
  | keep (answer : α)
  | send (notice : Notice) (after : Option OpenDocument) (answer : α)

structure DocumentStore where
  documents : Table String OpenDocument
  mode : SyncMode

namespace DocumentStore

def empty : DocumentStore :=
  ⟨[], .full⟩

/-! ## Plans -/

def opening {α : Type} (uri languageId text : String) (answer : α) : DocumentPlan α :=
  .send ⟨"textDocument/didOpen", Params.opened uri languageId 1 text⟩
    (some ⟨uri, languageId, 1, .full, text⟩) answer

/-- Opens a document unless it is open. The answer says whether it was not. -/
def planOpen (document : Option OpenDocument) (uri languageId text : String) : DocumentPlan Bool :=
  match document with
  | some _ => .keep false
  | none => opening uri languageId text true

def changeParams (mode : SyncMode) (uri : String) (version : Nat) (old new : String) : Json :=
  match mode with
  | .full => Params.changedText uri version new
  | .incremental =>
    let change := TextChange.between old.toList new.toList
    Params.changedRange uri version change.range (String.ofList change.inserted)

/-- Gives a document a new text, and opens it first if need be. The answer is the new version, or
none if the text is the same. -/
def planChange (document : Option OpenDocument) (mode : SyncMode) (uri languageId text : String) :
    DocumentPlan (Option Nat) :=
  match document with
  | none => opening uri languageId text (some 1)
  | some d =>
    if d.text = text then .keep none
    else
      .send ⟨"textDocument/didChange", changeParams mode uri (d.version + 1) d.text text⟩
        (some { d with version := d.version + 1, mode := mode, text := text })
        (some (d.version + 1))

/-- Closes a document if it is open. The answer says whether it was. -/
def planClose (document : Option OpenDocument) (uri : String) : DocumentPlan Bool :=
  match document with
  | none => .keep false
  | some _ => .send ⟨"textDocument/didClose", Params.document uri⟩ none true

/-! ## The store -/

def get? (s : DocumentStore) (uri : String) : Option OpenDocument :=
  s.documents.get? uri

def commit (s : DocumentStore) (uri : String) (after : Option OpenDocument) : DocumentStore :=
  match after with
  | some d => { s with documents := s.documents.insert uri d }
  | none => { s with documents := s.documents.erase uri }

def carryOut {α : Type} (s : DocumentStore) (uri : String) (plan : DocumentPlan α)
    (sent : Notice → Except CallError Unit) : DocumentStore × Except CallError α :=
  match plan with
  | .keep answer => (s, .ok answer)
  | .send notice after answer =>
    match sent notice with
    | .ok () => (s.commit uri after, .ok answer)
    | .error e => (s, .error (.sync uri e))

def uris (s : DocumentStore) : List String :=
  s.documents.map (·.1)

end DocumentStore

end Liaison
