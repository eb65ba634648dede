import Liaison.Rehearsal.Performance
import Liaison.Rehearsal.Script
import Liaison.Session.Machine

/-!
# Rehearsals

A rehearsal runs a session against a server whose part is known, in one fixed order: who is able to go
on queues up and goes on until it has to wait. Time stands still as long as anybody is able to go on.
-/

namespace Liaison

/-- What the server read: a frame, or the end of the stream. -/
inductive Heard where
  | frame (v : Json)
  | ended
deriving DecidableEq

/-- The part of a server: replies to messages, or whatever a program does, of which so much was heard
of either stream. -/
inductive Part where
  | script (s : Script)
  | program (p : Program) (output errors : Nat)

/-- The server's side of a rehearsal: its part, how many frames it has read, what it has heard, what
it still does, and whether it is the process that the session started. -/
structure ServerSide where
  part : Part
  read : Nat
  heard : List Heard
  reads : Bool
  talks : Bool
  isProcess : Bool

namespace ServerSide

def ofPart (part : Part) (isProcess : Bool) : ServerSide :=
  ⟨part, 0, [], true, true, isProcess⟩

def hangUpStatus : ExitStatus :=
  .code 7

def statusAfter? (s : ServerSide) (frame : Json) (hangsUp : Bool) : Option ExitStatus :=
  if !s.isProcess then none
  else if hangsUp then some hangUpStatus
  else if frame.member? "method" = some (.str "exit") then some (.code 0)
  else none

end ServerSide

inductive Turn where
  | task (id : TaskId)
  | server
deriving DecidableEq

/-- A session, its server, and who waits for a turn. The lead is a task that gets its turns
only when nobody else waits for one. -/
structure Rehearsal where
  machine : Machine
  server : ServerSide
  queue : List Turn
  lead : Option TaskId

namespace Rehearsal

def ofMachine (m : Machine) (part : Part) : Rehearsal :=
  ⟨m, .ofPart part m.process.isSome, m.tasks.map (.task ·.1), none⟩

/-! ## Turns -/

def isServerGone (r : Rehearsal) : Bool :=
  r.machine.process.any (·.child.isSome)

def isEndUnread (r : Rehearsal) : Bool :=
  r.machine.outlet.isClosed && !r.server.heard.contains .ended

def performance (r : Rehearsal) (p : Program) : Performance :=
  p r.machine.outlet.written r.machine.outlet.isClosed

def isPartDue (r : Rehearsal) : Bool :=
  match r.server.part with
  | .script _ => r.server.read < r.machine.outlet.frames.length || r.isEndUnread
  | .program p output errors =>
    let all := r.performance p
    output < (all.bytesBy .output r.machine.now).length ||
      errors < (all.bytesBy .errors r.machine.now).length || (all.endingBy? r.machine.now).isSome

def isServerAble (r : Rehearsal) : Bool :=
  r.server.reads && (r.isServerGone || r.isPartDue)

def isAble (r : Rehearsal) : Turn → Bool
  | .task id => (r.machine.advance id).isSome
  | .server => r.isServerAble

def players (r : Rehearsal) : List Turn :=
  .server :: (r.machine.tasks.filter (r.lead ≠ some ·.1)).map (.task ·.1)

def wake (r : Rehearsal) (current : Option Turn) : Rehearsal :=
  let more := r.players.filter fun t => current ≠ some t && !r.queue.contains t && r.isAble t
  { r with queue := r.queue ++ more }

def brokenPipe : String := "Broken pipe (os error 32)"

def endServer (r : Rehearsal) (status : ExitStatus) : Rehearsal :=
  { r with
    machine := (((r.machine.endChild status).endErrors .ended).hangUp).limitOutput 0 brokenPipe
    server := { r.server with reads := false, talks := false } }

def serve (r : Rehearsal) (script : Script) (frame : Json) : Rehearsal :=
  let (bytes, hangsUp, script) := script.answer frame
  let machine := if r.server.talks then r.machine.receive bytes else r.machine
  let after : Rehearsal :=
    { r with
      machine := if hangsUp then machine.hangUp else machine
      server := { r.server with
        part := .script script
        read := r.server.read + 1
        heard := r.server.heard ++ [.frame frame]
        talks := r.server.talks && !hangsUp } }
  match r.server.statusAfter? frame hangsUp with
  | some status => after.endServer status
  | none => after

def serveEnd (r : Rehearsal) : Rehearsal :=
  let after : Rehearsal := { r with server := { r.server with heard := r.server.heard ++ [.ended] } }
  if r.server.isProcess then after.endServer (.code 0) else after

/-- The server reads all frames that were written to it, unless it comes to an end before. -/
def serveFrames (r : Rehearsal) : Rehearsal :=
  let r := (r.machine.outlet.frames.drop r.server.read).foldl
    (fun r frame => match r.server.part with
      | .script script => if r.server.reads then r.serve script frame else r
      | .program _ _ _ => r) r
  if r.server.reads && r.isEndUnread then r.serveEnd else r

def play (r : Rehearsal) (p : Program) (output errors : Nat) : Rehearsal :=
  let all := r.performance p
  let said := all.bytesBy .output r.machine.now
  let complaints := all.bytesBy .errors r.machine.now
  let after : Rehearsal :=
    { r with
      machine := (r.machine.receive (said.drop output)).hear (complaints.drop errors)
      server := { r.server with part := .program p said.length complaints.length } }
  match all.endingBy? r.machine.now with
  | some status => after.endServer status
  | none => after

def serveAll (r : Rehearsal) : Rehearsal :=
  if r.isServerGone then r.endServer .kill
  else
    match r.server.part with
    | .script _ => r.serveFrames
    | .program p output errors => r.play p output errors

def poll (id : TaskId) : (fuel : Nat) → Rehearsal → Rehearsal
  | 0, r => r
  | fuel + 1, r =>
    match r.machine.advance id with
    | none => r
    | some m => poll id fuel ({ r with machine := m }.wake (some (.task id)))

def turn (fuel : Nat) (r : Rehearsal) : Turn → Rehearsal
  | .task id => r.poll id fuel
  | .server => (if r.server.reads then r.serveAll else r).wake (some .server)

def plenty : Nat := 1000000

def settle : (fuel : Nat) → Rehearsal → Rehearsal
  | 0, r => r
  | fuel + 1, r =>
    match r.queue with
    | [] => r
    | t :: queue => settle fuel ({ r with queue := queue }.turn plenty t)

def rest (r : Rehearsal) : Rehearsal :=
  settle plenty (r.wake none)

/-! ## Time -/

def serverMoments (r : Rehearsal) : List Nat :=
  match r.server.part with
  | .script _ => []
  | .program p _ _ =>
    if r.server.reads then (r.performance p).moments.filter (r.machine.now < ·) else []

def nextMoment (r : Rehearsal) : Option Nat :=
  ((r.machine.tasks.filterMap fun (id, _) => r.machine.limit? id) ++ r.serverMoments).min?

def elapseTo (r : Rehearsal) (moment : Nat) : Rehearsal :=
  { r with machine := r.machine.elapseTo moment }.rest

/-- Lets so much time pass. Everything that is due before the end happens in its turn. -/
def elapse (duration : Nat) (r : Rehearsal) : Rehearsal :=
  go plenty (r.machine.now + duration) r
where
  go : (fuel : Nat) → (final : Nat) → Rehearsal → Rehearsal
    | 0, _, r => r
    | fuel + 1, final, r =>
      match r.nextMoment with
      | some moment =>
        if moment ≤ final then go fuel final (r.elapseTo moment) else r.elapseTo final
      | none => r.elapseTo final

/-! ## The world -/

def change (r : Rehearsal) (f : Machine → Machine) : Rehearsal :=
  { r with machine := f r.machine }.rest

/-- The server says something of its own accord, unless it has hung up. -/
def serverSays (r : Rehearsal) (bytes : Bytes) : Rehearsal :=
  if r.server.talks then r.change (·.receive bytes) else r.rest

def serverHangsUp (r : Rehearsal) : Rehearsal :=
  let after := r.change Machine.hangUp
  { after with server := { after.server with talks := false } }

def serverStopsReading (r : Rehearsal) (fault : String) : Rehearsal :=
  { r with server := { r.server with reads := false } }.change (·.limitOutput 0 fault)

def abandon (r : Rehearsal) (id : TaskId) : Rehearsal :=
  r.change (·.drop id)

def takeInbound (r : Rehearsal) : List Inbound × Rehearsal :=
  (r.machine.inbound, { r with machine := { r.machine with inbound := [] } })

/-! ## Operations -/

def begin (r : Rehearsal) (op : Operation) : TaskId × Rehearsal :=
  let (id, m) := r.machine.start op
  (id, { r with machine := m }.rest)

def result? (r : Rehearsal) (id : TaskId) : Option Result :=
  r.machine.results.get? id

/-- Runs the lead until it is over. Time passes only when nothing else can happen. -/
def runLead (id : TaskId) : (fuel : Nat) → Rehearsal → Rehearsal
  | 0, r => r
  | fuel + 1, r =>
    let r := ((r.wake none).settle plenty)
    if (r.result? id).isSome then r
    else if (r.machine.advance id).isSome then runLead id fuel (r.poll id plenty)
    else
      match r.nextMoment with
      | some moment => runLead id fuel { r with machine := r.machine.elapseTo moment }
      | none => r

/-- Goes on until a condition holds, or nothing more can happen. Time passes only when nothing else can
happen, and no further than up to the limit. -/
def goUntil (holds : Machine → Bool) (limit : Option Nat) : (fuel : Nat) → Rehearsal → Rehearsal
  | 0, r => r
  | fuel + 1, r =>
    let r := r.rest
    if holds r.machine then r
    else
      match r.nextMoment with
      | some moment =>
        if limit.any (· < moment) then r.elapseTo (limit.getD moment)
        else goUntil holds limit fuel { r with machine := r.machine.elapseTo moment }
      | none => (limit.map r.elapseTo).getD r

/-- Carries out an operation. It has no result if it would wait forever. -/
def carryOut (r : Rehearsal) (op : Operation) : Option Result × Rehearsal :=
  let (id, m) := r.machine.start op
  let r := runLead id plenty { r with machine := m, lead := some id }
  let r := { r with lead := none }
  match r.result? id with
  | some result => (some result, r.rest)
  | none => (none, { r with machine := r.machine.drop id }.rest)

end Rehearsal

end Liaison
