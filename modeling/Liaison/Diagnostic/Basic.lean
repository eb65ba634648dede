import Liaison.Position

/-!
# Diagnostics

What a server has to say about a document, and the stamps that order what it says at different
times.
-/

namespace Liaison

/-! ## Severities -/

inductive Severity where
  | error
  | warning
  | information
  | hint
deriving DecidableEq

namespace Severity

def ofNumber? : Nat → Option Severity
  | 1 => some error
  | 2 => some warning
  | 3 => some information
  | 4 => some hint
  | _ => none

def name : Severity → String
  | error => "error"
  | warning => "warning"
  | information => "information"
  | hint => "hint"

def label : Severity → String
  | information => "info"
  | s => s.name

def isError (s : Severity) : Bool :=
  s = error

end Severity

/-! ## Diagnostics -/

structure Diagnostic where
  severity : Severity
  range : Range
  message : String
  code : Option String
  source : String
deriving DecidableEq

namespace Diagnostic

/-- The diagnostic as a JSON object. An absent code is left out. -/
def toJson (d : Diagnostic) : Json :=
  Json.ofMembers <|
    [("severity", .str d.severity.name), ("range", d.range.toJson), ("message", .str d.message),
      ("source", .str d.source)] ++
    match d.code with
    | some code => [("code", .str code)]
    | none => []

def line (path : String) (d : Diagnostic) : String :=
  let start := d.range.start
  s!"{path}:{start.line}:{start.column}: " ++ d.severity.label ++ ": [" ++ d.source ++ "] " ++
    d.message

end Diagnostic

/-! ## Stamps -/

/-- The document version that diagnostics are about, if known, and the order of their arrival. -/
structure Stamp where
  version : Option Int
  sequence : Nat
deriving DecidableEq, Inhabited

namespace Stamp

/-- Does the stamp describe an older state? Versions decide if both are known and differ, and else
the arrival does. -/
def isOlder (a b : Stamp) : Bool :=
  match a.version, b.version with
  | some v, some w => if v = w then a.sequence < b.sequence else v < w
  | _, _ => a.sequence < b.sequence

def toJson (s : Stamp) : Json :=
  Json.ofMembers [("version", .ofOption (s.version.map .int)), ("sequence", .ofNat s.sequence)]

end Stamp

/-! ## Sets -/

structure DiagnosticSet where
  uri : String
  diagnostics : List Diagnostic
  stamp : Stamp
deriving DecidableEq

namespace DiagnosticSet

def empty (uri : String) : DiagnosticSet :=
  ⟨uri, [], ⟨none, 0⟩⟩

def isEmpty (s : DiagnosticSet) : Bool :=
  s.diagnostics.isEmpty

def count (s : DiagnosticSet) (severity : Severity) : Nat :=
  s.diagnostics.countP (·.severity = severity)

def errors (s : DiagnosticSet) : List Diagnostic :=
  s.diagnostics.filter (·.severity.isError)

/-- How many errors and warnings there are, in short; blank for an empty set. -/
def status (s : DiagnosticSet) : String :=
  if s.isEmpty then "" else s!"E:{s.count .error} W:{s.count .warning}"

def toJson (s : DiagnosticSet) : Json :=
  Json.ofMembers
    [("uri", .str s.uri), ("diagnostics", .arr (s.diagnostics.map Diagnostic.toJson)),
      ("stamp", s.stamp.toJson)]

end DiagnosticSet

end Liaison
