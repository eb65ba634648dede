import Liaison.Frame
import Liaison.Table

/-!
# Writing to the server

Whoever has something to say to the server hands in an errand and gets a ticket for its receipt. One
writer takes the errands in order and writes whole frames, until it is told to close or a write fails.
-/

namespace Liaison

inductive Errand where
  | send (frame : Json) (ticket : Nat)
  | close
deriving DecidableEq

inductive Receipt where
  | written
  | failed (reason : String)
  | dropped
deriving DecidableEq

structure Outbox where
  errands : List Errand
  receipts : Table Nat Receipt
  nextTicket : Nat
  isStopped : Bool

namespace Outbox

def capacity : Nat := 64

def empty : Outbox :=
  ⟨[], [], 0, false⟩

def isFull (o : Outbox) : Bool :=
  !o.isStopped && capacity ≤ o.errands.length

/-- Hands in a frame. There is no ticket if the writer has stopped. -/
def send (o : Outbox) (frame : Json) : Option Nat × Outbox :=
  if o.isStopped then (none, o)
  else
    (some o.nextTicket,
      { o with errands := o.errands ++ [.send frame o.nextTicket], nextTicket := o.nextTicket + 1 })

def close (o : Outbox) : Outbox :=
  if o.isStopped then o else { o with errands := o.errands ++ [.close] }

def take? (o : Outbox) : Option (Errand × Outbox) :=
  match o.errands with
  | errand :: errands => some (errand, { o with errands := errands })
  | [] => none

def receipt (o : Outbox) (ticket : Nat) (r : Receipt) : Outbox :=
  { o with receipts := o.receipts.insert ticket r }

def collect? (o : Outbox) (ticket : Nat) : Option (Receipt × Outbox) :=
  (o.receipts.get? ticket).map fun r => (r, { o with receipts := o.receipts.erase ticket })

def drop (receipts : Table Nat Receipt) : Errand → Table Nat Receipt
  | .send _ ticket => receipts.insert ticket .dropped
  | .close => receipts

def stop (o : Outbox) : Outbox :=
  { o with errands := [], receipts := o.errands.foldl drop o.receipts, isStopped := true }

end Outbox

/-- The stream to the server: what was written, of it the frames that were written without a failure, how
much more the other side takes before writing fails, if it ever does, why it fails then, and whether
the stream was closed. -/
structure Outlet where
  written : Bytes
  frames : List Json
  room : Option Nat
  fault : String
  isClosed : Bool

namespace Outlet

def empty : Outlet :=
  ⟨[], [], none, "", false⟩

/-- Writes a frame, or as much of it as there is room for. If there is room for no more than the frame,
all of it is written and it is not flushed. -/
def write (o : Outlet) (frame : Json) : Except String Unit × Outlet :=
  let bytes := Frame.write frame
  match o.room with
  | none =>
    (.ok (), { o with written := o.written ++ bytes, frames := o.frames ++ [frame] })
  | some room =>
    if bytes.length < room then
      (.ok (), { o with
        written := o.written ++ bytes
        frames := o.frames ++ [frame]
        room := some (room - bytes.length) })
    else (.error o.fault, { o with written := o.written ++ bytes.take room, room := some 0 })

end Outlet

end Liaison
