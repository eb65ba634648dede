import Liaison.Session.Routine

/-!
# Talking to the server

Sending a message waits until it is written. A call is registered before it is sent, so that no
answer can come too early for it.
-/

namespace Liaison

def writerClosed : CallError :=
  .transport "writer closed"

def send (m : Message) : Attempt Unit := do
  match ← act (.enqueue m.toJson) with
  | none => throw writerClosed
  | some ticket =>
    match ← act (.awaitReceipt ticket) with
    | .written => return
    | .failed reason => throw (.transport ("write failed: " ++ reason))
    | .dropped => throw writerClosed

def notify (method : String) (params : Option Json) : Attempt Unit :=
  send (.notification method params)

def awaitAnswer (method : String) (timeout limit : Option Nat) (id : Nat) : Attempt Json := do
  match ← act (.awaitReply id limit) with
  | some reply => Attempt.ofExcept reply
  | none =>
    if ← act (.expire id) then throw (.timeout method (timeout.getD 0))
    else
      match ← act (.collect id) with
      | some reply => Attempt.ofExcept reply
      | none => throw (.timeout method (timeout.getD 0))

/-- Calls a method of the server and waits for the answer. A call that could not be sent is given
up. -/
def call (method : String) (params : Option Json) (timeout : Option Nat) : Attempt Json := do
  let id ← act .nextId
  let limit ← act (.deadline timeout)
  ExceptT.mk (act (.register id))
  match ← (send (.request (.ofNat id) method params)).outcome with
  | .ok () => awaitAnswer method timeout limit id
  | .error e =>
    act (.abandon id)
    throw e

def closeStream : Routine Unit :=
  act .enqueueClose

def endSession (reason : String) : Routine Unit := do
  act (.closeCalls reason)
  act .terminate

end Liaison
