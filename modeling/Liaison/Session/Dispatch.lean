import Liaison.Diagnostic.Report
import Liaison.Session.Inbound

/-!
# Answers to what the server sends on its own

Servers wait for answers to their requests, so every one of them is answered. What they say in
notifications is kept, logged or ignored.
-/

namespace Liaison

/-! ## Requests -/

def acknowledgedMethods : List String :=
  ["client/registerCapability", "client/unregisterCapability", "window/workDoneProgress/create",
    "window/showMessageRequest"]

def itemCount (params : Option Json) : Nat :=
  match params.bind (·.member? "items") with
  | some (.arr items) => items.length
  | _ => 0

def answerTo (rootUri : Option String) (id : Json) (method : String) (params : Option Json) :
    Message :=
  if method = "workspace/configuration" then
    .reply id (.arr (List.replicate (itemCount params) .null))
  else if method = "workspace/workspaceFolders" then
    .reply id <|
      match rootUri with
      | some uri => .arr [Json.ofMembers [("uri", .str uri), ("name", .str "workspace")]]
      | none => .null
  else if method ∈ acknowledgedMethods then .reply id .null
  else if method = "workspace/applyEdit" then
    .reply id <|
      Json.ofMembers
        [("applied", .bool false),
          ("failureReason", .str "edits are returned to the caller, not applied")]
  else .replyError id Message.methodNotFound ("Method not found: " ++ method)

/-! ## Notifications -/

inductive LogLevel where
  | error
  | warning
  | info
  | debug
  | trace
deriving DecidableEq

structure LogEntry where
  level : LogLevel
  isShown : Bool
  message : String
deriving DecidableEq

def LogLevel.ofType (kind : Option Json) (isShown : Bool) : LogLevel :=
  match kind with
  | some (.int 1) => error
  | some (.int 2) => warning
  | some (.int 3) => if isShown then info else debug
  | _ => trace

def LogEntry.ofParams (params : Json) (isShown : Bool) : LogEntry :=
  { level := LogLevel.ofType (params.member? "type") isShown
    isShown := isShown
    message := ((params.member? "message").bind Json.str?).getD "" }

inductive Meaning where
  | diagnostics (push : Push)
  | unreadable
  | log (entry : LogEntry)
  | unknown
deriving DecidableEq

def Meaning.of (method : String) (params : Json) : Meaning :=
  if method = "textDocument/publishDiagnostics" then
    match Push.decode params with
    | .ok push => diagnostics push
    | .error _ => unreadable
  else if method = "window/logMessage" then log (.ofParams params false)
  else if method = "window/showMessage" then log (.ofParams params true)
  else unknown

inductive Tally where
  | notification
  | request
  | decodeError
deriving DecidableEq

structure Tallies where
  notifications : Nat
  requests : Nat
  decodeErrors : Nat
deriving DecidableEq

namespace Tallies

def zero : Tallies :=
  ⟨0, 0, 0⟩

def add (t : Tallies) : Tally → Tallies
  | .notification => { t with notifications := t.notifications + 1 }
  | .request => { t with requests := t.requests + 1 }
  | .decodeError => { t with decodeErrors := t.decodeErrors + 1 }

end Tallies

end Liaison
