import Liaison.Position
import Liaison.Text.Utf8

/-!
# Changes of a text

The smallest range of a text whose replacement turns it into another one. The range leaves out what
the texts have in common at their starts and ends, but never parts a carriage return from its line
feed.
-/

namespace Liaison

/-- A text split in three, and what the middle part is to be replaced by. -/
structure TextChange where
  before : List Char
  removed : List Char
  after : List Char
  inserted : List Char
deriving DecidableEq

namespace TextChange

/-! ## Common parts -/

def commonStart : List Char → List Char → List Char × List Char × List Char
  | a :: as, b :: bs =>
    if a = b then
      let (common, restA, restB) := commonStart as bs
      (a :: common, restA, restB)
    else ([], a :: as, b :: bs)
  | as, bs => ([], as, bs)

def commonEnd (as bs : List Char) : List Char × List Char × List Char :=
  let (common, restA, restB) := commonStart as.reverse bs.reverse
  (common.reverse, restA.reverse, restB.reverse)

def splitReturns (cs : List Char) : List Char × List Char :=
  ((cs.reverse.dropWhile (· = '\r')).reverse, cs.reverse.takeWhile (· = '\r'))

/-- The change that turns one text into another. Carriage returns at the end of the common start
belong to the change, and so does a line feed at the start of the common end that the change would
part from its carriage return. -/
def between (old new : List Char) : TextChange :=
  let (start, oldRest, newRest) := commonStart old new
  let (before, returns) := splitReturns start
  let (after, removed, inserted) := commonEnd (returns ++ oldRest) (returns ++ newRest)
  match after with
  | '\n' :: rest =>
    if removed.getLast? = some '\r' then ⟨before, removed ++ ['\n'], rest, inserted ++ ['\n']⟩
    else ⟨before, removed, after, inserted⟩
  | _ => ⟨before, removed, after, inserted⟩

/-! ## Coordinates -/

/-- How many UTF-16 units a character takes. -/
def units (c : Char) : Nat :=
  if c.toNat < 0x10000 then 1 else 2

/-- How many UTF-16 units a text takes. -/
def width : List Char → Nat
  | [] => 0
  | c :: cs => units c + width cs

def endPosition (cs : List Char) : Wire.Position :=
  ⟨min (cs.count '\n') maxCoordinate,
    min (width (cs.reverse.takeWhile (· ≠ '\n'))) maxCoordinate⟩

def range (c : TextChange) : Wire.Range :=
  ⟨endPosition c.before, endPosition (c.before ++ c.removed)⟩

end TextChange

end Liaison
