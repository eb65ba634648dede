import Liaison.CallError
import Liaison.Json.Basic

/-!
# Calls that wait for an answer

Every call has an id. A call is pending until the first of these settles it: a response, a
cancellation, the end of its time, or the closing of the registry, after which no call can be
registered. What settled a call is kept until its caller collects it. Calls whose time is over are
remembered for good: that they are forgotten after a grace period is left out.
-/

namespace Liaison

abbrev Reply := Except CallError Json

inductive Fulfillment where
  | delivered
  | late
  | unknown
deriving DecidableEq

structure Registry where
  pending : List Nat
  expired : List Nat
  closed : Option String
  settled : Table Nat Reply

namespace Registry

def empty : Registry :=
  ⟨[], [], none, []⟩

def register (r : Registry) (id : Nat) : Except CallError Registry :=
  match r.closed with
  | some reason => .error (.sessionClosed reason)
  | none =>
    .ok { r with pending := id :: r.pending.filter (· ≠ id), settled := r.settled.erase id }

def settle (r : Registry) (id : Nat) (reply : Reply) : Registry :=
  { r with
    pending := r.pending.filter (· ≠ id)
    settled := r.settled.insert id reply }

def fulfill (r : Registry) (id : Nat) (reply : Reply) : Registry × Fulfillment :=
  if id ∈ r.pending then (r.settle id reply, .delivered)
  else if id ∈ r.expired then ({ r with expired := r.expired.filter (· ≠ id) }, .late)
  else (r, .unknown)

def cancel (r : Registry) (id : Nat) (reason : String) : Registry × Bool :=
  if id ∈ r.pending then (r.settle id (.error (.cancelled reason)), true) else (r, false)

/-- Ends the time of a pending call. Says whether it was pending. Its caller knows without being
told. -/
def expire (r : Registry) (id : Nat) : Registry × Bool :=
  if id ∈ r.pending then
    ({ r with
        pending := r.pending.filter (· ≠ id)
        expired := id :: r.expired.filter (· ≠ id) }, true)
  else (r, false)

/-- Fails all pending calls and lets no call be registered from now on. The reason of the first
closing stays. -/
def closeAll (r : Registry) (reason : String) : Registry :=
  { pending := []
    expired := []
    closed := some (r.closed.getD reason)
    settled := r.pending.foldl (fun t id => t.insert id (.error (.sessionClosed reason))) r.settled }

def collect? (r : Registry) (id : Nat) : Option (Reply × Registry) :=
  (r.settled.get? id).map fun reply => (reply, { r with settled := r.settled.erase id })

def abandonReason : String := "caller dropped the request"

def abandon (r : Registry) (id : Nat) : Registry :=
  { (r.cancel id abandonReason).1 with settled := ((r.cancel id abandonReason).1).settled.erase id }

end Registry

end Liaison
