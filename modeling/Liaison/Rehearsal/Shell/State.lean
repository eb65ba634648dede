import Liaison.File.Tree
import Liaison.Rehearsal.Performance

/-!
# The state of a shell

What a shell knows while it runs a command, and what it has said so far.
-/

namespace Liaison.Shell

inductive Sink where
  | channel (c : Channel)
  | nowhere
  | kept
  | file (place : List Bytes)

inductive Halt where
  | exits (status : Nat)
  | killed (signal : Nat)
  | waits
  | breaks
  | continues

structure State where
  program : String
  values : Table String String
  args : List String
  status : Nat
  input : Bytes
  isWhole : Bool
  now : Nat
  later : Nat
  said : List Saying
  kept : Bytes
  output : Sink
  errors : Sink
  files : FileTree
  traps : Table String String
  halt : Option Halt

namespace State

def ownNumber : String := "4711"

def notFoundStatus : Nat := 127

def mistakeStatus : Nat := 2

def value (s : State) (name : String) : String :=
  match name with
  | "?" => toString s.status
  | "$" => ownNumber
  | "#" => toString s.args.length
  | "@" | "*" => " ".intercalate s.args
  | "0" => s.program
  | name =>
    match name.toNat? with
    | some n => s.args.getD (n - 1) ""
    | none => (s.values.get? name).getD ""

def ends (s : State) (status : Nat) : State :=
  { s with status := status }

def answers (s : State) (b : Bool) : State :=
  s.ends (if b then 0 else 1)

def stop (s : State) (h : Halt) : State :=
  { s with halt := some (s.halt.getD h) }

def pour (s : State) (sink : Sink) (bs : Bytes) : State :=
  match sink with
  | .channel c => if bs.isEmpty then s else { s with said := s.said ++ [⟨s.now, c, bs⟩] }
  | .nowhere => s
  | .kept => { s with kept := s.kept ++ bs }
  | .file place =>
    let before : Bytes :=
      match s.files.entry? place with
      | some (.file content) => content
      | _ => []
    { s with files := s.files.write place (before ++ bs) }

def say (s : State) (bs : Bytes) : State :=
  s.pour s.output bs

def complain (s : State) (text : String) (status : Nat) : State :=
  (s.pour s.errors (Utf8.ofString (text ++ "\n"))).ends status

def takeInput (s : State) : Bytes × State :=
  let after := { s with input := [] }
  (s.input, if s.isWhole then after else after.stop .waits)

def takeLine (s : State) : Bytes × Bool × State :=
  let line := s.input.takeWhile (· ≠ 10)
  let after := { s with input := s.input.drop (line.length + 1) }
  if line.length < s.input.length then (line, true, after)
  else (line, false, if s.isWhole then after else after.stop .waits)

def inner (s : State) : State :=
  { s with halt := none, traps := [] }

/-- The state of a shell after such a command. What the command said stays said. -/
def leave (s sub : State) : State :=
  let after : State :=
    { s with
      input := sub.input, now := sub.now, later := sub.later, said := sub.said, kept := sub.kept
      files := { sub.files with working := s.files.working } }
  match sub.halt with
  | some (.exits status) => after.ends status
  | some (.killed signal) => after.ends (128 + signal)
  | some .waits => after.stop .waits
  | _ => after.ends sub.status

def ending? (s : State) : Option ExitStatus :=
  match s.halt with
  | some (.exits status) => some (.code status)
  | some (.killed signal) => some (.signal signal)
  | some .waits => none
  | _ => some (.code s.status)

def performance (s : State) : Performance :=
  ⟨s.said.mergeSort fun a b => decide (a.time ≤ b.time), s.ending?.map (s.now, ·)⟩

end State

end Liaison.Shell
