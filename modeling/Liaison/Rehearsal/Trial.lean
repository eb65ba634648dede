import Liaison.Rehearsal.Launched

/-!
# Trials of processes

A trial starts the process of a server without a session of its own: nobody reads what the server says
and nobody writes but the trial. A call waits for the end of the session, which the end of the process
brings about.
-/

namespace Liaison

inductive TrialEnding where
  | wait
  | kill
  | terminate (grace : Nat)
deriving DecidableEq

structure Trial where
  input : Option Bytes
  keepsInput : Bool
  readsOutput : Bool
  lines : Nat
  ending : TrialEnding

structure TrialReport where
  programName : String
  wasRunning : Bool
  status : Option ExitStatus
  output : Bytes
  errors : List String
  state : SessionState
  reply : Option Reply
  late : Except CallError Unit

namespace Trial

def waitingCall : Nat := 1

def lateCall : Nat := 2

def isOver (m : Machine) : Bool :=
  m.process.all (·.published.isSome)

def plenty : Nat := Rehearsal.plenty

/-- Writes the input, and closes it unless it is to be kept. -/
def give (t : Trial) (m : Machine) : Machine :=
  { m with outlet := { m.outlet with
    written := t.input.getD [], isClosed := !t.keepsInput } }

def finish (r : Rehearsal) : TrialEnding → Rehearsal
  | .wait => r.goUntil isOver none plenty
  | .kill => finish.kill r
  | .terminate grace =>
    let r := r.goUntil isOver (some (r.machine.now + grace)) plenty
    if isOver r.machine then r else finish.kill r
where
  kill (r : Rehearsal) : Rehearsal :=
    { r with machine := r.machine.doom }.goUntil isOver none plenty

def begin (t : Trial) (o : ClientOptions) (files : FileTree) (state : SessionState) (role : Role) :
    Rehearsal :=
  let m := Machine.supervised o files state
  .ofMachine ((t.give (m.register 0 waitingCall).2).hear role.greeting) role.part

def run (t : Trial) (programName : String) (r : Rehearsal) : TrialReport :=
  let r := if t.readsOutput then r.goUntil (·.inlet.isEnded) none plenty else r
  let output := if t.readsOutput then r.machine.inlet.unread else []
  let r := if t.lines = 0 then r
    else r.goUntil (fun m => decide (t.lines ≤ m.errorLines.length)) none plenty
  let m := (finish r t.ending).machine
  { programName := programName
    wasRunning := !isOver r.machine
    status := m.process.bind (·.published)
    output := output
    errors := m.errorLines
    state := m.state
    reply := (m.registry.collect? waitingCall).map (·.1)
    late := (m.register 0 lateCall).1 }

def runIn (t : Trial) (s : Scene) (c : ServerConfig) (state : SessionState) :
    Except CallError TrialReport := do
  let role ← s.role? c
  let options ← ClientOptions.ofConfig s.files.workingPath "" { c with workspaceRoot := none }
  let programName := Path.display ((Path.fileName? (Path.ofString c.command)).getD [])
  return t.run programName (t.begin options s.files state role)

end Trial

end Liaison
