import Liaison.Diagnostic.Cache
import Liaison.Document.Store
import Liaison.Process.Status
import Liaison.Session.Dispatch
import Liaison.Session.Outbox

/-!
# Actions

Several tasks work on a session at the same time. What they do to it they do in actions, and every
action is carried out at once, with nothing in between.
-/

namespace Liaison

/-- Where a task takes up its work again. The first five never end before the session's streams do. -/
inductive Phase where
  | writing
  | reading
  | dispatching (rootUri : Option String) (sequence : Nat)
  | watching
  | answering (message : Message)
  | awaitingDiagnostics (uri : String) (after seen limit : Nat)

inductive Action where
  -- The session
  | state
  | transition (before after : SessionState)
  | terminate
  | awaitEnd
  -- Calls
  | nextId
  | deadline (timeout : Option Nat)
  | register (id : Nat)
  | awaitReply (id : Nat) (limit : Option Nat)
  | expire (id : Nat)
  | collect (id : Nat)
  | abandon (id : Nat)
  | fulfill (id : Nat) (reply : Reply)
  | cancel (id : Nat) (reason : String)
  | closeCalls (reason : String)
  -- Writing
  | enqueue (frame : Json)
  | enqueueClose
  | awaitReceipt (ticket : Nat)
  | nextErrand
  | write (frame : Json)
  | giveReceipt (ticket : Nat) (receipt : Receipt)
  | closeOutput
  | stopWriting
  -- Reading
  | nextFrame
  | forward (inbound : Inbound)
  | nextInbound
  -- What the server says on its own
  | count (tally : Tally)
  | log (entry : LogEntry)
  | present (method : String) (params : Json)
  | spawn (phase : Phase)
  -- Diagnostics
  | snapshot (uri : String)
  | publish (set : DiagnosticSet)
  | giveNotice
  | subscribe
  | awaitNotice (seen limit : Nat)
  | forgetVersion (uri : String)
  -- Documents
  | documentUris
  | lineUp (uri : String)
  | awaitTurn (uri : String)
  | leave (uri : String)
  | document (uri : String)
  | commit (uri : String) (after : Option OpenDocument)
  | syncMode
  | setSyncMode (mode : SyncMode)
  -- The rest
  | setCapabilities (v : Json)
  | readFile (path : Path)
  | kill
  | awaitExit (limit : Option Nat)
  | awaitChild
  | publishExit (status : ExitStatus)

@[reducible] def Action.Answer : Action → Type
  | state => SessionState
  | transition _ _ => Bool
  | nextId => Nat
  | deadline _ => Option Nat
  | register _ => Except CallError Unit
  | awaitReply _ _ => Option Reply
  | expire _ => Bool
  | collect _ => Option Reply
  | cancel _ _ => Bool
  | enqueue _ => Option Nat
  | awaitReceipt _ => Receipt
  | nextErrand => Errand
  | write _ => Except String Unit
  | nextFrame => Frame.Event
  | nextInbound => Inbound
  | snapshot _ => DiagnosticSet
  | publish _ => Bool
  | subscribe => Nat
  | awaitNotice _ _ => Option Nat
  | documentUris => List String
  | document _ => Option OpenDocument
  | syncMode => SyncMode
  | readFile _ => Except FileFault String
  | awaitExit _ => Bool
  | awaitChild => ExitStatus
  | _ => Unit

def Action.limit? : Action → Option Nat
  | awaitReply _ limit => limit
  | awaitNotice _ limit => some limit
  | awaitExit limit => limit
  | _ => none

end Liaison
