import Liaison.Diagnostic.Basic

/-!
# Diagnostic reports

Servers push the diagnostics of a document, or send them as a report when asked. A report is tagged
by its kind: all diagnostics, or that nothing has changed.
-/

namespace Liaison

namespace Wire

def codeText : Json → Option String
  | .str s => some s
  | .int n => some (Json.int n).compact
  | .float x => some (Json.float x).compact
  | _ => none

def diagnostic : Decoder Diagnostic :=
  Record.decode "LspDiagnostic" <|
    (fun range severity code source message =>
      ⟨(severity.bind Severity.ofNumber?).getD .warning, range.toRange, message,
        code.bind codeText, source.getD "unknown"⟩) <$>
      .field "range" Range.decode <*> .fieldOpt "severity" .u64 <*> .fieldOpt "code" .ok <*>
        .fieldOpt "source" .string <*> .field "message" .string

end Wire

/-! ## Pushes -/

structure Push where
  uri : String
  version : Option Int
  diagnostics : List Diagnostic
deriving DecidableEq

def Push.decode : Decoder Push :=
  Record.decode "PublishDiagnosticsParams" <|
    Push.mk <$> .field "uri" .string <*> .fieldOpt "version" .i32 <*>
      .field "diagnostics" (.list Wire.diagnostic)

/-! ## Reports -/

inductive DiagnosticReport where
  | full (diagnostics : List Diagnostic)
  | unchanged
deriving DecidableEq

namespace DiagnosticReport

def fullFields : Record DiagnosticReport :=
  full <$> .field "items" (.list Wire.diagnostic)

def fields (tag : Json) : Except DecodeError (Record DiagnosticReport × String) :=
  match tag with
  | .str "full" => .ok (fullFields, "struct variant DocumentDiagnosticReport::Full")
  | .str "unchanged" => .ok (pure unchanged, "struct variant DocumentDiagnosticReport::Unchanged")
  | .str tag => .error (.unknownVariant tag "`full` or `unchanged`")
  | v => .error (.wrongType v "variant identifier")

def ofMembers (members : List (String × Json)) : Except DecodeError DiagnosticReport :=
  match Table.get? "kind" members with
  | none => .error (.missing "kind")
  | some tag => do
    let (record, _) ← fields tag
    record.ofMembers (Table.erase "kind" members)

def ofItems : List Json → Except DecodeError DiagnosticReport
  | [] => .error (.missing "kind")
  | tag :: items => do
    let (record, name) ← fields tag
    match ← record.ofItems name items with
    | (report, []) => return report
    | _ => .error (.surplus items.length record.size)

def decode : Decoder DiagnosticReport := fun v =>
  match v with
  | .obj members => (ofMembers members).mapError .afterTag
  | .arr items => (ofItems items).mapError .afterTag
  | v => .error (.wrongType v "internally tagged enum DocumentDiagnosticReport")

end DiagnosticReport

end Liaison
