import Liaison.Process.ErrorTail
import Liaison.Session.Operation

/-!
# The session as a machine

All that a session knows, and what every action does to it. An action that has to wait cannot be
carried out for now. Besides its tasks the world acts on a session: bytes come, time passes, the
server's process ends.
-/

namespace Liaison

abbrev TaskId := Nat

/-- The process of a server: how it ended, how it is known to have ended, whether it is to be killed,
and what it said on its error stream. -/
structure ServerProcess where
  child : Option ExitStatus
  published : Option ExitStatus
  isDoomed : Bool
  errors : ErrorTail

def ServerProcess.running : ServerProcess :=
  ⟨none, none, false, .empty⟩

structure Machine where
  options : ClientOptions
  state : SessionState
  registry : Registry
  nextId : Nat
  callers : Table Nat TaskId
  outbox : Outbox
  outlet : Outlet
  inlet : Inlet
  inbound : List Inbound
  tallies : Tallies
  handlers : Table String (List String)
  shown : List (String × Json)
  logs : List LogEntry
  diagnostics : DiagnosticCache
  documents : DocumentStore
  /-- The tasks that want to work on a document; the first one does. -/
  lines : Table String (List TaskId)
  capabilities : Option Json
  process : Option ServerProcess
  files : FileTree
  now : Nat
  tasks : Table TaskId (Routine Next)
  nextTask : TaskId
  results : Table TaskId Result

namespace Machine

/-! ## Actions -/

def isOver (m : Machine) : Option Nat → Bool
  | some limit => limit ≤ m.now
  | none => false

def line (m : Machine) (uri : String) : List TaskId :=
  (m.lines.get? uri).getD []

def addTask (m : Machine) (r : Routine Next) : Machine :=
  { m with tasks := m.tasks.insert m.nextTask r, nextTask := m.nextTask + 1 }

def register (m : Machine) (task : TaskId) (id : Nat) : Except CallError Unit × Machine :=
  match m.registry.register id with
  | .ok registry => (.ok (), { m with registry := registry, callers := m.callers.insert id task })
  | .error e => (.error e, m)

/-- What a caller that waits gets: the reply, or nothing when its time is over. -/
def awaitReply (m : Machine) (id : Nat) (limit : Option Nat) : Option (Option Reply × Machine) :=
  match m.registry.collect? id with
  | some (reply, registry) => some (some reply, { m with registry := registry })
  | none => if m.isOver limit then some (none, m) else none

def collect (m : Machine) (id : Nat) : Option Reply × Machine :=
  match m.registry.collect? id with
  | some (reply, registry) => (some reply, { m with registry := registry })
  | none => (none, m)

def present (m : Machine) (method : String) (params : Json) : Machine :=
  { m with shown := m.shown ++ ((m.handlers.get? method).getD []).map (·, params) }

def publish (m : Machine) (set : DiagnosticSet) : Bool × Machine :=
  match m.diagnostics.publish? set with
  | some cache => (true, { m with diagnostics := cache })
  | none => (false, m)

def doom (m : Machine) : Machine :=
  { m with process := m.process.map fun p => { p with isDoomed := true } }

/-- How the process ended, if it did. One that is to be killed ends by that. -/
def awaitChild (m : Machine) : Option (ExitStatus × Machine) :=
  match m.process with
  | none => none
  | some p =>
    match p.child with
    | some status => some (status, m)
    | none =>
      if p.isDoomed then
        some (.kill, { m with process := some { p with child := some .kill } })
      else none

/-- Has the process ended, if there is one? There is no answer until it has or the time is over. -/
def awaitExit (m : Machine) (limit : Option Nat) : Option Bool :=
  if m.process.all (·.published.isSome) then some true
  else if m.isOver limit then some false
  else none

/-- Carries out an action of a task. There is no answer as long as it has to wait. -/
def perform (m : Machine) (task : TaskId) : (a : Action) → Option (a.Answer × Machine)
  | .state => some (m.state, m)
  | .transition before after =>
    let (state, moved) := m.state.transition before after
    some (moved, { m with state := state })
  | .terminate => some ((), { m with state := m.state.terminate.1 })
  | .awaitEnd => if m.state = .terminated then some ((), m) else none
  | .nextId => some (m.nextId, { m with nextId := m.nextId + 1 })
  | .deadline timeout => some (timeout.map (m.now + ·), m)
  | .register id => some (m.register task id)
  | .awaitReply id limit => m.awaitReply id limit
  | .expire id =>
    let (registry, expired) := m.registry.expire id
    some (expired, { m with registry := registry })
  | .collect id => some (m.collect id)
  | .abandon id => some ((), { m with registry := m.registry.abandon id })
  | .fulfill id reply => some ((), { m with registry := (m.registry.fulfill id reply).1 })
  | .cancel id reason =>
    let (registry, cancelled) := m.registry.cancel id reason
    some (cancelled, { m with registry := registry })
  | .closeCalls reason => some ((), { m with registry := m.registry.closeAll reason })
  | .enqueue frame =>
    if m.outbox.isFull then none
    else
      let (ticket, outbox) := m.outbox.send frame
      some (ticket, { m with outbox := outbox })
  | .enqueueClose =>
    if m.outbox.isFull then none else some ((), { m with outbox := m.outbox.close })
  | .awaitReceipt ticket =>
    (m.outbox.collect? ticket).map fun (receipt, outbox) => (receipt, { m with outbox := outbox })
  | .nextErrand =>
    m.outbox.take?.map fun (errand, outbox) => (errand, { m with outbox := outbox })
  | .write frame =>
    let (result, outlet) := m.outlet.write frame
    some (result, { m with outlet := outlet })
  | .giveReceipt ticket receipt =>
    some ((), { m with outbox := m.outbox.receipt ticket receipt })
  | .closeOutput => some ((), { m with outlet := { m.outlet with isClosed := true } })
  | .stopWriting => some ((), { m with outbox := m.outbox.stop })
  | .nextFrame => m.inlet.next?.map fun (event, inlet) => (event, { m with inlet := inlet })
  | .forward inbound => some ((), { m with inbound := m.inbound ++ [inbound] })
  | .nextInbound =>
    match m.inbound with
    | inbound :: rest => some (inbound, { m with inbound := rest })
    | [] => none
  | .count tally => some ((), { m with tallies := m.tallies.add tally })
  | .log entry => some ((), { m with logs := m.logs ++ [entry] })
  | .present method params => some ((), m.present method params)
  | .spawn phase => some ((), m.addTask phase.routine)
  | .snapshot uri => some (m.diagnostics.snapshot uri, m)
  | .publish set => some (m.publish set)
  | .giveNotice => some ((), { m with diagnostics := m.diagnostics.notify })
  | .subscribe => some (m.diagnostics.notices, m)
  | .awaitNotice seen limit =>
    if seen < m.diagnostics.notices then some (some m.diagnostics.notices, m)
    else if limit ≤ m.now then some (none, m)
    else none
  | .forgetVersion uri => some ((), { m with diagnostics := m.diagnostics.forgetVersion uri })
  | .documentUris => some (m.lines.map (·.1), m)
  | .lineUp uri => some ((), { m with lines := m.lines.insert uri (m.line uri ++ [task]) })
  | .awaitTurn uri => if (m.line uri).head? = some task then some ((), m) else none
  | .leave uri => some ((), { m with lines := m.lines.insert uri ((m.line uri).erase task) })
  | .document uri => some (m.documents.get? uri, m)
  | .commit uri after => some ((), { m with documents := m.documents.commit uri after })
  | .syncMode => some (m.documents.mode, m)
  | .setSyncMode mode => some ((), { m with documents := { m.documents with mode := mode } })
  | .setCapabilities v => some ((), { m with capabilities := some (m.capabilities.getD v) })
  | .readFile path => some (m.files.readText path, m)
  | .kill => some ((), m.doom)
  | .awaitExit limit => (m.awaitExit limit).map (·, m)
  | .awaitChild => m.awaitChild
  | .publishExit status =>
    some ((), { m with process := m.process.map fun p => { p with published := some status } })

/-! ## Tasks -/

/-- Lets a task take one step. There is none if it has to wait or is over. -/
def advance (m : Machine) (task : TaskId) : Option Machine :=
  match m.tasks.get? task with
  | none => none
  | some (.done (.finish result)) =>
    some { m with tasks := m.tasks.erase task, results := m.results.insert task result }
  | some (.done (.resume phase)) =>
    some { m with tasks := m.tasks.insert task phase.routine }
  | some (.step action next) =>
    (m.perform task action).map fun (answer, m) =>
      { m with tasks := m.tasks.insert task (next answer) }

def limit? (m : Machine) (task : TaskId) : Option Nat :=
  match m.tasks.get? task with
  | some (.step action _) => action.limit?
  | _ => none

def start (m : Machine) (op : Operation) : TaskId × Machine :=
  (m.nextTask, m.addTask (op.routine m.options))

/-- Ends a task before its time: its calls are given up, and so are its places in lines. -/
def drop (m : Machine) (task : TaskId) : Machine :=
  if (m.tasks.get? task).isNone then m
  else
    let calls := m.callers.filter (·.2 = task)
    { m with
      tasks := m.tasks.erase task
      registry := calls.foldl (fun r (id, _) => r.abandon id) m.registry
      lines := m.lines.map fun (uri, line) => (uri, line.filter (· ≠ task)) }

/-! ## The world -/

def receive (m : Machine) (bytes : Bytes) : Machine :=
  if m.inlet.isEnded then m
  else { m with inlet := { m.inlet with unread := m.inlet.unread ++ bytes } }

def hangUp (m : Machine) : Machine :=
  { m with inlet := { m.inlet with isEnded := true } }

/-- The server takes only so many more bytes; then writing fails for the given reason. -/
def limitOutput (m : Machine) (room : Nat) (fault : String) : Machine :=
  { m with outlet := { m.outlet with room := some room, fault := fault } }

def elapseTo (m : Machine) (moment : Nat) : Machine :=
  { m with now := max m.now moment }

def endChild (m : Machine) (status : ExitStatus) : Machine :=
  { m with process := m.process.map fun p => { p with child := some (p.child.getD status) } }

def hear (m : Machine) (bytes : Bytes) : Machine :=
  { m with process := m.process.map fun p => { p with errors := p.errors.feed bytes } }

/-- Nothing more comes of the error stream. It may outlast the process that was given it first. -/
def endErrors (m : Machine) (e : StreamEnd) : Machine :=
  { m with process := m.process.map fun p => { p with errors := p.errors.finish e } }

def setFiles (m : Machine) (files : FileTree) : Machine :=
  { m with files := files }

def addHandler (m : Machine) (method name : String) : Machine :=
  { m with handlers := m.handlers.insert method ((m.handlers.get? method).getD [] ++ [name]) }

/-! ## Beginnings -/

def blank (o : ClientOptions) (files : FileTree) (state : SessionState) : Machine :=
  { options := o, state := state, registry := .empty, nextId := 1, callers := [], outbox := .empty
    outlet := .empty, inlet := .empty, inbound := [], tallies := .zero, handlers := [], shown := []
    logs := [], diagnostics := .empty, documents := .empty, lines := [], capabilities := none
    process := none, files := files, now := 0, tasks := [], nextTask := 0, results := [] }

/-- A session of which nothing is served but the process of its server. -/
def supervised (o : ClientOptions) (files : FileTree) (state : SessionState) : Machine :=
  { (blank o files state).addTask watching with process := some .running }

def attached (o : ClientOptions) (files : FileTree) (state : SessionState) : Machine :=
  ((blank o files state).addTask writing).addTask reading

def connected (o : ClientOptions) (files : FileTree) : Machine :=
  (attached o files .starting).addTask (dispatching (fileUri? o.root) 0)

def launched (o : ClientOptions) (files : FileTree) : Machine :=
  { (connected o files).addTask watching with process := some .running }

/-! ## Views -/

def isAlive (m : Machine) : Bool :=
  m.state ≠ .terminated && m.registry.closed.isNone && m.process.all (·.published.isNone)

def diagnosticsFor (m : Machine) (p : Path) : Except CallError DiagnosticSet :=
  (m.options.uriFor p).map m.diagnostics.snapshot

/-- The errors in the given files; those without errors are left out. -/
def errorsFor (m : Machine) (ps : List Path) : Except CallError (List (Path × List Diagnostic)) := do
  let uris ← ps.mapM m.options.uriFor
  return (m.diagnostics.errorsFor uris).map fun (uri, errors) =>
    ((uriPath? uri).getD (Path.ofString uri), errors)

def errorLines (m : Machine) : List String :=
  match m.process with
  | some p => p.errors.lines
  | none => []

end Machine

end Liaison
