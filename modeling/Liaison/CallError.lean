import Liaison.File.Tree
import Liaison.Session.State

/-!
# Errors of calls

Why an operation of the client fails. Some errors end the session, the others concern the one call.
-/

namespace Liaison

inductive CallError where
  /-- The stream to the server is closed, or a frame could not be written. -/
  | transport (reason : String)
  | server (code : Int) (message : String)
  | timeout (method : String) (micros : Nat)
  | notReady (state : SessionState)
  | sync (uri : String) (source : CallError)
  | sessionClosed (reason : String)
  | cancelled (reason : String)
  | invalidPosition (line column : Nat)
  | invalidResponse (method reason : String)
  | spawn (command reason : String)
  | invalidPath (path : Path)
  | file (fault : FileFault)
deriving DecidableEq, Inhabited

namespace CallError

def message : CallError → String
  | transport reason => "transport fault: " ++ reason
  | server code message => s!"server error {code}: {message}"
  | timeout method micros => s!"{method} timed out after {micros / 1000}ms"
  | notReady state => "session not ready (state: " ++ state.name ++ ")"
  | sync uri source => s!"failed to synchronize {uri}: " ++ source.message
  | sessionClosed reason => "session closed: " ++ reason
  | cancelled reason => "request cancelled: " ++ reason
  | invalidPosition line column =>
    s!"invalid position {line}:{column} (line and column are 1-indexed)"
  | invalidResponse method reason => s!"invalid {method} response: {reason}"
  | spawn command reason => s!"failed to spawn `{command}`: {reason}"
  | invalidPath path => "cannot convert path to file URI: " ++ Path.display path
  | file fault => fault.message

def source? : CallError → Option CallError
  | sync _ source => some source
  | _ => none

def isFatal : CallError → Bool
  | transport _ | sessionClosed _ => true
  | _ => false

def causes : CallError → List String
  | sync _ source => source.message :: source.causes
  | _ => []

end CallError

end Liaison
