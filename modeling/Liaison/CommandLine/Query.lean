import Liaison.CommandLine.Words
import Liaison.Session.Operation

/-!
# Queries

What can be asked for on the command line: one query to a server, with settings for it.
-/

namespace Liaison

inductive Query where
  | locate (goal : Goal) (place : Place)
  | references (place : Place) (withDeclaration : Bool)
  | hover (place : Place)
  | rename (place : Place) (newName : String)
  | symbols (file : Path)
  | diagnostics (file : Path) (waitMillis : Nat)
  | pullDiagnostics (file : Path)
  | workspaceSymbols (text : String)

namespace Query

def mapFile (f : Path → Path) : Query → Query
  | locate goal place => locate goal { place with path := f place.path }
  | references place withDeclaration => references { place with path := f place.path } withDeclaration
  | hover place => hover { place with path := f place.path }
  | rename place newName => rename { place with path := f place.path } newName
  | symbols file => symbols (f file)
  | diagnostics file waitMillis => diagnostics (f file) waitMillis
  | pullDiagnostics file => pullDiagnostics (f file)
  | workspaceSymbols text => workspaceSymbols text

def file? : Query → Option Path
  | locate _ place | references place _ | hover place | rename place _ => some place.path
  | symbols file | diagnostics file _ | pullDiagnostics file => some file
  | workspaceSymbols _ => none

/-- The operation that answers the query within so many microseconds. -/
def operation (timeout : Option Nat) : Query → Operation
  | locate goal place => .locate goal place timeout
  | references place withDeclaration => .references place withDeclaration timeout
  | hover place => .hover place timeout
  | rename place newName => .rename place newName timeout
  | symbols file => .documentSymbols file timeout
  | diagnostics file waitMillis => .awaitDiagnostics file (waitMillis * 1000)
  | pullDiagnostics file => .pullDiagnostics file timeout
  | workspaceSymbols text => .workspaceSymbols text timeout

end Query

/-! ## Reading the command line -/

structure Invocation where
  settings : Option Path
  server : Option String
  root : Option Path
  timeoutMillis : Option Nat
  query : Query

def sharedOptions : List (String × WordKind) :=
  [("config", .path), ("server", .text), ("root", .path), ("timeout-ms", .wide)]

def leadGrammar : WordGrammar :=
  ⟨sharedOptions, [], [], true⟩

structure Command where
  options : List (String × WordKind)
  flags : List String
  others : List WordKind
  query : GivenWords → Query

namespace Command

def placeKinds : List WordKind :=
  [.path, .narrow, .narrow]

def wordAt (w : GivenWords) (n : Nat) : String :=
  (w.others[n]?).getD ""

def place (w : GivenWords) : Place :=
  let number (n : Nat) := (WordKind.narrow? (wordAt w n)).getD 0
  ⟨Path.ofString (wordAt w 0), number 1, number 2⟩

def aboutPlace (query : Place → Query) : Command :=
  ⟨[], [], placeKinds, fun w => query (place w)⟩

/-- How long to wait for diagnostics if nothing is said, in milliseconds. -/
def defaultWait : Nat := 3000

def diagnosticsQuery (w : GivenWords) : Query :=
  let file := Path.ofString (wordAt w 0)
  if "pull" ∈ w.flags then .pullDiagnostics file
  else .diagnostics file (((w.options.lookup "wait-ms").bind WordKind.wide?).getD defaultWait)

def table : List (String × Command) :=
  [("definition", aboutPlace (.locate .definition)),
    ("references",
      ⟨[], ["exclude-declaration"], placeKinds, fun w =>
        .references (place w) ("exclude-declaration" ∉ w.flags)⟩),
    ("implementation", aboutPlace (.locate .implementation)),
    ("type-definition", aboutPlace (.locate .typeDefinition)),
    ("hover", aboutPlace .hover),
    ("rename", ⟨[], [], placeKinds ++ [.text], fun w => .rename (place w) (wordAt w 3)⟩),
    ("symbols", ⟨[], [], [.path], fun w => .symbols (Path.ofString (wordAt w 0))⟩),
    ("diagnostics", ⟨[("wait-ms", .wide)], ["pull"], [.path], diagnosticsQuery⟩),
    ("workspace-symbols", ⟨[], [], [.text], fun w => .workspaceSymbols (wordAt w 0)⟩)]

def grammar (c : Command) : WordGrammar :=
  ⟨sharedOptions ++ c.options, c.flags, c.others, false⟩

end Command

namespace Invocation

/-- Puts together what was given before and after the name of a command. What comes after it wins. -/
def ofGiven (before after : GivenWords) (c : Command) : Invocation :=
  let option (name : String) := (after.options ++ before.options).lookup name
  { settings := (option "config").map Path.ofString
    server := option "server"
    root := (option "root").map Path.ofString
    timeoutMillis := (option "timeout-ms").bind WordKind.wide?
    query := c.query after }

/-- What is said about a command when help is asked for: nothing is known about others. -/
def helpStop : List String → WordStop
  | [] => .help
  | [name] => if name = "help" ∨ (Command.table.lookup name).isSome then .help else .misuse
  | _ => .misuse

def read (words : List String) : Except WordStop Invocation :=
  match readOptions leadGrammar .none words with
  | .error e => .error e
  | .ok (_, []) => .error .misuse
  | .ok (before, name :: rest) =>
    match Command.table.lookup name with
    | some c => (readWords c.grammar .none rest).map fun after => ofGiven before after c
    | none => if name = "help" then .error (helpStop rest) else .error .misuse

end Invocation

end Liaison
