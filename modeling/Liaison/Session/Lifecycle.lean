import Liaison.Session.Call
import Liaison.Session.Options

/-!
# The beginning and the end of a session

A session begins with a handshake; a failed one ends it. It ends for good with a shutdown, of which
there is one however many ask for it.
-/

namespace Liaison

/-! ## Times, in microseconds -/

def shutdownTimeout : Nat := 5 * 1000000

def exitGrace : Nat := 2 * 1000000

/-! ## Handshake -/

def abort (reason : String) : Routine Unit := do
  closeStream
  act .kill
  endSession reason

/-- Carries on with an attempt of the handshake, or ends the session if it failed. -/
def orAbort {α : Type} (failure : String) (r : Attempt α) : Attempt α := do
  match ← r.outcome with
  | .ok a => return a
  | .error e =>
    abort (failure ++ ": " ++ e.message)
    throw e

def greet (o : ClientOptions) (rootUri : String) : Attempt Unit := do
  let params := Params.handshake o.processId rootUri o.handshakeOptions
  let result ← orAbort "initialize failed" (call "initialize" (some params) (some o.handshakeTimeout))
  act (.setSyncMode (.ofHandshake result))
  act (.setCapabilities ((result.member? "capabilities").getD .null))
  orAbort "initialized notification failed" (notify "initialized" (some (.obj [])))
  if ← act (.transition .starting .ready) then return
  else throw (.sessionClosed "session ended during initialize")

def handshake (o : ClientOptions) : Attempt Unit := do
  match ← act .state with
  | .starting =>
    match fileUri? o.root with
    | some rootUri => greet o rootUri
    | none => throw (.invalidPath o.root)
  | .ready => return
  | .terminated => throw (.sessionClosed "session terminated")
  | state => throw (.notReady state)

def ensureReady : Attempt Unit := do
  match ← act .state with
  | .ready => return
  | .shuttingDown => throw (.sessionClosed ("session is " ++ SessionState.shuttingDown.name))
  | .terminated => throw (.sessionClosed ("session is " ++ SessionState.terminated.name))
  | state => throw (.notReady state)

/-! ## Shutdown -/

def stopProcess : Routine Unit := do
  let limit ← act (.deadline (some exitGrace))
  if ← act (.awaitExit limit) then return
  else
    act .kill
    let _ ← act (.awaitExit none)

def dismiss : Routine Unit := do
  let _ ← (call "shutdown" none (some shutdownTimeout)).run
  let _ ← (notify "exit" none).run

/-- Ends the session in order, or waits for its end if that has begun. -/
def shutdown : Routine Unit := do
  match ← act .state with
  | .terminated => return
  | .shuttingDown => act .awaitEnd
  | before =>
    if ← act (.transition before .shuttingDown) then
      if before = .starting ∨ before = .ready then dismiss
      closeStream
      stopProcess
      endSession "session shut down"
    else act .awaitEnd

end Liaison
