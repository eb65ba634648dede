import Liaison.Position

/-!
# Rename edits

The answer to a rename is an edit of the workspace. Its edits are gathered by document, sorted into
source order, and refused if two neighbours overlap. Operations on whole files are skipped.
-/

namespace Liaison

structure TextEdit where
  range : Range
  newText : String
deriving DecidableEq

structure FileEdits where
  uri : String
  edits : List TextEdit
deriving DecidableEq

structure RenameEdits where
  files : List FileEdits
deriving DecidableEq

namespace RenameEdits

def isEmpty (r : RenameEdits) : Bool :=
  r.files.isEmpty

def editCount (r : RenameEdits) : Nat :=
  (r.files.flatMap (·.edits)).length

end RenameEdits

def TextEdit.toJson (e : TextEdit) : Json :=
  Json.ofMembers [("range", e.range.toJson), ("new_text", .str e.newText)]

def FileEdits.toJson (f : FileEdits) : Json :=
  Json.ofMembers [("uri", .str f.uri), ("edits", .arr (f.edits.map TextEdit.toJson))]

def RenameEdits.toJson (r : RenameEdits) : Json :=
  Json.ofMembers [("files", .arr (r.files.map FileEdits.toJson))]

/-! ## Decoding -/

namespace Wire

structure TextEdit where
  range : Range
  newText : String
deriving DecidableEq

def TextEdit.toTextEdit (e : TextEdit) : Liaison.TextEdit :=
  ⟨e.range.toRange, e.newText⟩

def textEdit : Decoder TextEdit :=
  Record.decode "WireTextEdit" <|
    TextEdit.mk <$> .field "range" Range.decode <*> .field "newText" .string

/-- A change of a document, or an operation on a whole file. -/
inductive DocumentChange where
  | edit (uri : String) (edits : List TextEdit)
  | resource (operation : Json)
deriving DecidableEq

def documentId : Decoder String :=
  Record.decode "WireDocumentId" <| Record.field "uri" .string

def documentEdit : Decoder DocumentChange :=
  Record.decode "WireTextDocumentEdit" <|
    DocumentChange.edit <$> .field "textDocument" documentId <*> .field "edits" (.list textEdit)

/-- Decodes a change; whatever is no edit of a document is an operation. -/
def documentChange : Decoder DocumentChange :=
  .oneOf "DocumentChange" [documentEdit, .as .resource .ok]

/-- An edit of the workspace: edits by document, or a list of changes. -/
structure WorkspaceEdit where
  changes : Option (List (String × List TextEdit))
  documentChanges : Option (List DocumentChange)
deriving DecidableEq

def workspaceEdit : Decoder (Option WorkspaceEdit) :=
  .optional <| Record.decode "WireWorkspaceEdit" <|
    WorkspaceEdit.mk <$> .fieldOpt "changes" (.map (.list textEdit)) <*>
      .fieldOpt "documentChanges" (.list documentChange)

namespace WorkspaceEdit

/-- The edits with their documents, in the server's order. A list of changes goes before edits by
document. -/
def documentEdits (w : WorkspaceEdit) : List (String × List TextEdit) :=
  match w.documentChanges, w.changes with
  | some changes, _ =>
    changes.filterMap fun
      | .edit uri edits => some (uri, edits)
      | .resource _ => none
  | none, some changes => changes
  | none, none => []

def operations (w : WorkspaceEdit) : List Json :=
  (w.documentChanges.getD []).filterMap fun
    | .edit _ _ => none
    | .resource operation => some operation

end WorkspaceEdit

def operationKind (operation : Json) : String :=
  ((operation.member? "kind").bind Json.str?).getD "unknown"

end Wire

/-! ## Gathering -/

inductive RenameError where
  | undecodable (e : DecodeError)
  | overlapping (uri : String) (first second : Position)
deriving DecidableEq

def RenameError.message : RenameError → String
  | undecodable e => e.message
  | overlapping uri p q =>
    s!"overlapping edits in {uri} at {p.line}:{p.column} and {q.line}:{q.column}"

namespace RenameEdits

/-- Adds edits to those of a document. The documents are in ascending order of their URIs. -/
def gather (uri : String) (edits : List Wire.TextEdit) :
    List (String × List Wire.TextEdit) → List (String × List Wire.TextEdit)
  | [] => [(uri, edits)]
  | (other, es) :: rest =>
    if uri < other then (uri, edits) :: (other, es) :: rest
    else if uri = other then (uri, es ++ edits) :: rest
    else (other, es) :: gather uri edits rest

def overlap? : List TextEdit → Option (TextEdit × TextEdit)
  | a :: b :: rest => if a.range.overlaps b.range then some (a, b) else overlap? (b :: rest)
  | _ => none

/-- The edits of one document in source order. Edits of the same range keep the server's order. -/
def inOrder (edits : List Wire.TextEdit) : List TextEdit :=
  (edits.mergeSort fun a b => a.range.atMost b.range).map Wire.TextEdit.toTextEdit

def fileEdits (uri : String) (edits : List Wire.TextEdit) : Except RenameError FileEdits :=
  match overlap? (inOrder edits) with
  | some (a, b) => .error (.overlapping uri a.range.start b.range.start)
  | none => .ok ⟨uri, inOrder edits⟩

def groups (documentEdits : List (String × List Wire.TextEdit)) : List (String × List Wire.TextEdit) :=
  documentEdits.foldl (fun groups d => gather d.1 d.2 groups) []

def ofWorkspaceEdit (w : Wire.WorkspaceEdit) : Except RenameError RenameEdits :=
  (((groups w.documentEdits).filter (!·.2.isEmpty)).mapM fun g => fileEdits g.1 g.2).map RenameEdits.mk

def ofAnswer (v : Json) : Except RenameError RenameEdits :=
  match Wire.workspaceEdit v with
  | .error e => .error (.undecodable e)
  | .ok none => .ok ⟨[]⟩
  | .ok (some w) => ofWorkspaceEdit w

end RenameEdits

end Liaison
