import Liaison.CommandLine.Printout
import Liaison.Rehearsal.Role

/-!
# Rehearsals with the server as a process

Sessions that start their server themselves, and whole command lines. Every server that is started
plays its part from the beginning.
-/

namespace Liaison

/-- What a session finds that starts its server: files, and the programs there are by the commands that
start them. -/
structure Scene where
  files : FileTree
  cast? : String → Option Cast

inductive Started where
  | refused (e : CallError)
  | failed (e : CallError) (r : Rehearsal)
  | ready (r : Rehearsal)

namespace Scene

def role? (s : Scene) (c : ServerConfig) : Except CallError Role :=
  match Launch.fault? (fun command => (s.cast? command).isSome) s.files c, s.cast? c.command with
  | some e, _ => .error e
  | none, some cast => .ok (cast c s.files)
  | none, none => .error (.spawn c.command Launch.notFound)

def launch (s : Scene) (l : Launch) : Except CallError Rehearsal :=
  (s.role? l.server).map fun role =>
    (Rehearsal.ofMachine ((Machine.launched l.options s.files).hear role.greeting) role.part).rest

def start (s : Scene) (l : Launch) : Started :=
  match s.launch l with
  | .error e => .refused e
  | .ok r =>
    match r.carryOut .handshake with
    | (some (.error e), r) => .failed e r
    | (_, r) => .ready r

def openAll (r : Rehearsal) : List Path → Except CallError Unit × Rehearsal
  | [] => (.ok (), r)
  | path :: paths =>
    match r.carryOut (.openFile path) with
    | (some (.error e), r) => (.error e, r)
    | (_, r) => openAll r paths

/-! ## One session after the other -/

structure Succession where
  current : Rehearsal
  before : List Heard
  after : List Heard

def Succession.heard (c : Succession) : List Heard :=
  c.before ++ c.current.server.heard ++ c.after

def Succession.keep (c : Succession) (heard : List Heard) : Succession :=
  { c with after := c.after ++ heard }

/-- Shuts the session down and starts another one, in which files are opened. Returns the state in
which the session was left. -/
def restart (s : Scene) (working : Path) (name : String) (config : ServerConfig) (paths : List Path)
    (c : Succession) : Except CallError SessionState × Succession :=
  let r := (c.current.carryOut .shutdown).2
  let left := { c with current := r }
  match Launch.ofConfig working name config with
  | .error e => (.error e, left)
  | .ok l =>
    match start { s with files := r.machine.files } l with
    | .refused e => (.error e, left)
    | .failed e new => (.error e, left.keep new.server.heard)
    | .ready new =>
      match openAll new paths with
      | (.error e, new) => (.error e, left.keep new.server.heard)
      | (.ok (), new) => (.ok r.machine.state, ⟨new, left.heard, []⟩)

/-! ## Command lines -/

/-- Carries out a query with its server. Returns what is printed and what the server heard. -/
def runPlan (s : Scene) (p : QueryPlan) : Printout × List Heard :=
  match Launch.ofConfig s.files.workingPath p.name p.server with
  | .error e => (.ofFailure (p.startFailure e), [])
  | .ok l =>
    match s.start l with
    | .refused e => (.ofFailure (p.startFailure e), [])
    | .failed e r => (.ofFailure (p.startFailure e), r.server.heard)
    | .ready r =>
      let (result, r) := r.carryOut (p.query.operation p.timeout)
      let r := (r.carryOut .shutdown).2
      (p.conclude (result.getD (.ok .nothing)), r.server.heard)

/-- Runs a command line. Returns what is printed and what the server heard. -/
def run (s : Scene) (env : Environment) (home : Path) (words : List String) :
    Printout × List Heard :=
  match Invocation.read words with
  | .error e => (.ofStop e, [])
  | .ok i =>
    match i.plan ⟨env, s.files, home⟩ with
    | .error f => (.ofFailure f, [])
    | .ok p => s.runPlan p

end Scene

end Liaison
