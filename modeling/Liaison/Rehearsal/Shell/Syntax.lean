/-!
# Shell commands

The part of the shell's language that rehearsals need: simple commands with words to be expanded,
redirections of the streams, lists, pipes, branches and loops.
-/

namespace Liaison.Shell

inductive Target where
  | stream (number : Nat)
  | nowhere
  | file

mutual

inductive Piece where
  | text (s : String)
  /-- The value of a variable, or a word in its place if it has none or an empty one. -/
  | value (name : String) (otherwise : List (Bool × Piece))
  | sum (expression : List (Bool × Piece))
  | printed (command : Command)

/-- A command. Words are lists of pieces, each with a flag that says whether it is quoted. -/
inductive Command where
  | nothing
  | simple (sets : List (String × List (Bool × Piece))) (words : List (List (Bool × Piece)))
  | redirect (number : Nat) (target : Target) (word : List (Bool × Piece)) (command : Command)
  | negate (command : Command)
  | sequence (first second : Command)
  | both (first second : Command)
  | either (first second : Command)
  | pipe (source sink : Command)
  | background (command : Command)
  | subshell (command : Command)
  | branch (condition positive negative : Command)
  /-- A loop that goes on as long as the condition succeeds, or fails if the flag says so. -/
  | loop (onFailure : Bool) (condition body : Command)
  | each (name : String) (words : List (List (Bool × Piece))) (body : Command)

end

abbrev Word := List (Bool × Piece)

end Liaison.Shell
