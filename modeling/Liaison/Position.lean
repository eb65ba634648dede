import Liaison.Json.Decode

/-!
# Positions

The protocol counts lines and columns from zero, callers count them from one. All coordinates are
below 2^32, and the conversion to the callers' side stops at the largest of them.
-/

namespace Liaison

def maxCoordinate : Nat := 0xFFFFFFFF

/-- A line and a column, both counted from one. -/
structure Position where
  line : Nat
  column : Nat
deriving DecidableEq, Inhabited

/-- A range between two positions; the end is not part of it. -/
structure Range where
  start : Position
  stop : Position
deriving DecidableEq, Inhabited

namespace Position

def before (p q : Position) : Bool :=
  p.line < q.line || (p.line = q.line && p.column < q.column)

def compare (p q : Position) : Ordering :=
  (Ord.compare p.line q.line).then (Ord.compare p.column q.column)

def toJson (p : Position) : Json :=
  Json.ofMembers [("line", .ofNat p.line), ("column", .ofNat p.column)]

end Position

namespace Range

/-- Do the ranges share a character? Ranges that touch do not, nor do empty ones at an end. -/
def overlaps (a b : Range) : Bool :=
  a.start.before b.stop && b.start.before a.stop

def compare (a b : Range) : Ordering :=
  (a.start.compare b.start).then (a.stop.compare b.stop)

def toJson (r : Range) : Json :=
  Json.ofMembers [("start", r.start.toJson), ("end", r.stop.toJson)]

end Range

namespace Wire

/-- A line and a column in UTF-16 units, both counted from zero. -/
structure Position where
  line : Nat
  character : Nat
deriving DecidableEq, Inhabited

/-- A range between two positions; the end is not part of it. -/
structure Range where
  start : Position
  stop : Position
deriving DecidableEq, Inhabited

namespace Position

def decode : Decoder Position :=
  Record.decode "WirePosition" <|
    Position.mk <$> .field "line" .u32 <*> .field "character" .u32

def toJson (p : Position) : Json :=
  Json.ofMembers [("line", .ofNat p.line), ("character", .ofNat p.character)]

/-- The position that a caller means by a line and a column; none for a zero. -/
def ofOneIndexed? (line column : Nat) : Option Position :=
  if line = 0 ∨ column = 0 then none else some ⟨line - 1, column - 1⟩

def toPosition (p : Position) : Liaison.Position :=
  ⟨min (p.line + 1) maxCoordinate, min (p.character + 1) maxCoordinate⟩

def atMost (p q : Position) : Bool :=
  p.line < q.line || (p.line = q.line && p.character ≤ q.character)

end Position

namespace Range

def decode : Decoder Range :=
  Record.decode "WireRange" <|
    Range.mk <$> .field "start" Position.decode <*> .field "end" Position.decode

def toJson (r : Range) : Json :=
  Json.ofMembers [("start", r.start.toJson), ("end", r.stop.toJson)]

def toRange (r : Range) : Liaison.Range :=
  ⟨r.start.toPosition, r.stop.toPosition⟩

def atMost (a b : Range) : Bool :=
  if a.start = b.start then a.stop.atMost b.stop else a.start.atMost b.start

end Range

end Wire

end Liaison
