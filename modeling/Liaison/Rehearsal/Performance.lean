import Liaison.Process.Status
import Liaison.Text.Utf8

/-!
# Performances

All that a program does that is of interest here: what it says, when, and how it ends. Times are in
microseconds since its start.
-/

namespace Liaison

inductive Channel where
  | output
  | errors
deriving DecidableEq

structure Saying where
  time : Nat
  channel : Channel
  bytes : Bytes
deriving DecidableEq

/-- What a program says, in order, and when and how it ends, unless it waits forever. -/
structure Performance where
  sayings : List Saying
  ending : Option (Nat × ExitStatus)

namespace Performance

def moments (p : Performance) : List Nat :=
  p.sayings.map (·.time) ++ (p.ending.map (·.1)).toList

def saidBy (p : Performance) (moment : Nat) : List Saying :=
  p.sayings.filter (·.time ≤ moment)

def bytesBy (p : Performance) (channel : Channel) (moment : Nat) : Bytes :=
  ((p.saidBy moment).filter (·.channel = channel)).flatMap (·.bytes)

def endingBy? (p : Performance) (moment : Nat) : Option ExitStatus :=
  match p.ending with
  | some (time, status) => if time ≤ moment then some status else none
  | none => none

end Performance

/-- What a program does when it is given so much input, of which the flag says that it is all. More
input never changes what was done before it came. -/
abbrev Program := Bytes → Bool → Performance

end Liaison
