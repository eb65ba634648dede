import Liaison.Text.Utf8

/-!
# What a process says on its error stream

Only the last lines are kept. A line is kept without its line feed and the carriage return before it,
and whatever is no text in it is replaced. The stream is read to its end, which need not be the end of
the process.
-/

namespace Liaison

/-- Why nothing more comes of a stream: it is over, or it cannot be read. -/
inductive StreamEnd where
  | ended
  | fault
deriving DecidableEq

/-- The last lines that were said, the oldest first, the bytes of a line that has not ended, and whether
nothing more comes. -/
structure ErrorTail where
  lines : List String
  unfinished : Bytes
  isDone : Bool
deriving DecidableEq

namespace ErrorTail

def capacity : Nat := 200

def empty : ErrorTail :=
  ⟨[], [], false⟩

def dropLast (b : UInt8) (bs : Bytes) : Bytes :=
  if bs.getLast? = some b then bs.dropLast else bs

def lineText (line : Bytes) : String :=
  Utf8.toStringLossy (dropLast 0x0D (dropLast 0x0A line))

def keep (lines : List String) (line : String) : List String :=
  if lines.length = capacity then lines.tail ++ [line] else lines ++ [line]

def byte (t : ErrorTail) (b : UInt8) : ErrorTail :=
  if b = 0x0A then { t with lines := keep t.lines (lineText (t.unfinished ++ [b])), unfinished := [] }
  else { t with unfinished := t.unfinished ++ [b] }

def feed (t : ErrorTail) (bs : Bytes) : ErrorTail :=
  if t.isDone then t else bs.foldl byte t

/-- Nothing more comes. The end of the stream ends its last line, and a fault loses what came of it. -/
def finish (t : ErrorTail) (e : StreamEnd) : ErrorTail :=
  if t.isDone then t
  else if e = .ended ∧ t.unfinished ≠ [] then ⟨keep t.lines (lineText t.unfinished), [], true⟩
  else ⟨t.lines, [], true⟩

end ErrorTail

end Liaison
