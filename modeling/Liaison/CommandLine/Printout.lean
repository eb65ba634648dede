import Liaison.CommandLine.Query
import Liaison.Config.Settings
import Liaison.Process.Launch

/-!
# What a command line prints

What a command line comes to: the server that its query goes to, and what is printed in the end.
A failure is printed with its causes.
-/

namespace Liaison

structure Failure where
  message : String
  causes : List String

namespace Failure

def ofError (message : String) (e : CallError) : Failure :=
  ⟨message, e.message :: e.causes⟩

def indented (width : Nat) (text : String) : String :=
  text.replace "\n" ("\n" ++ String.ofList (List.replicate width ' '))

def causeLine (cause : String) : String :=
  "    " ++ indented 4 cause ++ "\n"

def numberedLine (n : Nat) (cause : String) : String :=
  let number := toString n
  String.ofList (List.replicate (5 - number.length) ' ') ++ number ++ ": " ++ indented 7 cause ++ "\n"

def causeLines : List String → String
  | [] => ""
  | [cause] => "\nCaused by:\n" ++ causeLine cause
  | causes => "\nCaused by:\n" ++ String.join (causes.mapIdx numberedLine)

def text (f : Failure) : String :=
  "Error: " ++ f.message ++ "\n" ++ causeLines f.causes

end Failure

structure Printout where
  status : Nat
  output : String
  errors : String

namespace Printout

def ofFailure (f : Failure) : Printout :=
  ⟨1, "", f.text⟩

def usage : String :=
  "Usage: tether [OPTIONS] <COMMAND>\n\nCommands:\n" ++
    String.join (Command.table.map fun (name, _) => "  " ++ name ++ "\n") ++
    "\nOptions:\n      --config <CONFIG>\n      --server <SERVER>\n      --root <ROOT>\n" ++
    "      --timeout-ms <TIMEOUT_MS>\n  -h, --help\n  -V, --version\n"

def ofStop : WordStop → Printout
  | .help => ⟨0, "Query a language server from the command line\n\n" ++ usage, ""⟩
  | .version => ⟨0, "tether " ++ Params.clientVersion ++ "\n", ""⟩
  | .misuse => ⟨2, "", usage⟩

def ofValue (v : Json) : Printout :=
  ⟨0, v.pretty ++ "\n", ""⟩

end Printout

/-! ## The choice of a server -/

/-- Chooses a server: the one asked for, else the one for the file, else the only one. -/
def Settings.select (s : Settings) (server : Option String) (file : Option Path) :
    Except Failure (String × ServerConfig) :=
  match server, file with
  | some name, _ =>
    match Table.get? name s.servers with
    | some c => .ok (name, c)
    | none => .error ⟨s!"no server named '{name}' in config", []⟩
  | none, some file =>
    match s.serverFor? file with
    | some found => .ok found
    | none => .error ⟨"no server configured for " ++ Path.display file, []⟩
  | none, none =>
    match s.servers with
    | [only] => .ok only
    | [] => .error ⟨"no language servers configured", []⟩
    | _ => .error ⟨"several servers configured; choose one with --server", []⟩

def Failure.ofLoadError : Settings.LoadError → Failure
  | .unreadable path fault => ⟨(Settings.LoadError.unreadable path fault).message, [fault.message]⟩
  | .invalid path => ⟨(Settings.LoadError.invalid path).message, []⟩

/-- What surrounds a command line: variables, files and the directory of the user. -/
structure Surroundings where
  env : Environment
  files : FileTree
  home : Path

structure QueryPlan where
  name : String
  server : ServerConfig
  query : Query
  timeout : Option Nat

namespace Invocation

/-- Finds the server for a query. Its workspace is the one asked for, else the one that the file of
the query lies in. -/
def plan (i : Invocation) (s : Surroundings) : Except Failure QueryPlan := do
  let query := i.query.mapFile (Path.absolute s.files.workingPath)
  let settings ← (match i.settings with
    | some path => Settings.loadFrom s.env s.files path
    | none => Settings.load s.env s.files s.home).mapError Failure.ofLoadError
  let (name, server) ← settings.select i.server query.file?
  let found := query.file?.bind (ServerConfig.findRoot? server.rootMarkers s.files)
  let root := (i.root.or found).or server.workspaceRoot
  return ⟨name, { server with workspaceRoot := root }, query, i.timeoutMillis.map (· * 1000)⟩

end Invocation

namespace QueryPlan

def startFailure (p : QueryPlan) (cause : CallError) : Failure :=
  .ofError s!"starting language server '{p.name}' ({p.server.command})" cause

def conclude (p : QueryPlan) : Result → Printout
  | .ok found => .ofValue found.toJson
  | .error cause => .ofFailure (.ofError s!"language server '{p.name}'" cause)

end QueryPlan

end Liaison
