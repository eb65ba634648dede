import Liaison.Session.Call

/-!
# Services

The tasks that serve a session: one writes to the server, one reads from it, one looks at what it
says on its own, and one watches over its process.
-/

namespace Liaison

def Next.over : Next :=
  .finish (.ok .nothing)

/-! ## Writing and reading -/

def writing : Routine Next := do
  match ← act .nextErrand with
  | .close =>
    act .closeOutput
    act .stopWriting
    return .over
  | .send frame ticket =>
    match ← act (.write frame) with
    | .ok () =>
      act (.giveReceipt ticket .written)
      return .resume .writing
    | .error reason =>
      act (.giveReceipt ticket (.failed reason))
      endSession ("write to server failed: " ++ reason)
      act .stopWriting
      return .over

def deliver : Route → Routine Unit
  | .reply id reply => do
    let _ ← act (.fulfill id reply)
  | .forward inbound => act (.forward inbound)
  | .discard => pure ()

def reading : Routine Next := do
  match ← act .nextFrame with
  | .frame v =>
    deliver (.ofFrame v)
    return .resume .reading
  | .malformed flaw =>
    act (.forward (.undecodable flaw.message))
    return .resume .reading
  | .ended =>
    endSession "server closed its output stream"
    return .over
  | .fault cut =>
    endSession ("read from server failed: " ++ cut.message)
    return .over

/-! ## What the server says on its own -/

/-- Takes in diagnostics. They are in the cache before the notice of them is given. -/
def takeIn (set : DiagnosticSet) : Routine Unit := do
  if ← act (.publish set) then act .giveNotice

def heed (sequence : Nat) : Meaning → Routine Nat
  | .diagnostics push => do
    takeIn ⟨push.uri, push.diagnostics, ⟨push.version, sequence + 1⟩⟩
    return sequence + 1
  | .unreadable => do
    act (.count .decodeError)
    return sequence
  | .log entry => do
    act (.log entry)
    return sequence
  | .unknown => return sequence

def consider (rootUri : Option String) (sequence : Nat) : Inbound → Routine Nat
  | .notification method params => do
    act (.count .notification)
    let params := params.getD .null
    let sequence ← heed sequence (.of method params)
    act (.present method params)
    return sequence
  | .request id method params => do
    act (.count .request)
    act (.spawn (.answering (answerTo rootUri id method params)))
    return sequence
  | .undecodable _ => do
    act (.count .decodeError)
    return sequence

def dispatching (rootUri : Option String) (sequence : Nat) : Routine Next := do
  let inbound ← act .nextInbound
  let sequence ← consider rootUri sequence inbound
  return .resume (.dispatching rootUri sequence)

def answering (m : Message) : Routine Next := do
  let _ ← (send m).run
  return .over

/-! ## Processes and waiting -/

def watching : Routine Next := do
  let status ← act .awaitChild
  act (.publishExit status)
  endSession ("server process exited (" ++ status.message ++ ")")
  return .over

/-- Waits until there are diagnostics of a document that are newer than the given ones. When the time
is over the latest ones have to do. -/
def awaitingDiagnostics (uri : String) (after seen limit : Nat) : Routine Next := do
  let set ← act (.snapshot uri)
  if after < set.stamp.sequence then
    return .finish (.ok (.diagnostics (← act (.snapshot uri))))
  else
    match ← act (.awaitNotice seen limit) with
    | some seen => return .resume (.awaitingDiagnostics uri after seen limit)
    | none => return .finish (.ok (.diagnostics (← act (.snapshot uri))))

def Phase.routine : Phase → Routine Next
  | .writing => Liaison.writing
  | .reading => Liaison.reading
  | .dispatching rootUri sequence => Liaison.dispatching rootUri sequence
  | .watching => Liaison.watching
  | .answering message => Liaison.answering message
  | .awaitingDiagnostics uri after seen limit => Liaison.awaitingDiagnostics uri after seen limit

end Liaison
