import Liaison.Frame
import Liaison.Message
import Liaison.Registry

/-!
# What comes from the server

A response goes to the call it answers. Everything else is handed on: notifications, requests of the
server, and what could not be understood.
-/

namespace Liaison

inductive Inbound where
  | notification (method : String) (params : Option Json)
  | request (id : Json) (method : String) (params : Option Json)
  | undecodable (reason : String)
deriving DecidableEq

inductive Route where
  | reply (id : Nat) (reply : Reply)
  | forward (inbound : Inbound)
  | discard

namespace Route

def idBound : Nat := Nat.pow 2 64

def callId? : Json → Option Nat
  | .int n => if 0 ≤ n ∧ n < idBound then some n.toNat else none
  | _ => none

def replyOf : Outcome → Reply
  | .result v => .ok v
  | .error e => .error (.server e.code e.message)

def ofMessage : Message → Route
  | .request id method params => forward (.request id method params)
  | .notification method params => forward (.notification method params)
  | .response id outcome =>
    match callId? id with
    | some n => reply n (replyOf outcome)
    | none => discard

def ofFrame (frame : Json) : Route :=
  match Message.ofJson frame with
  | .ok m => ofMessage m
  | .error e => forward (.undecodable e.message)

end Route

/-- The stream from the server: what came and is not read yet, and whether that is all. -/
structure Inlet where
  unread : Bytes
  isEnded : Bool

namespace Inlet

def empty : Inlet :=
  ⟨[], false⟩

def next? (i : Inlet) : Option (Frame.Event × Inlet) :=
  (Frame.next? i.isEnded i.unread).map fun (event, rest) => (event, { i with unread := rest })

end Inlet

end Liaison
