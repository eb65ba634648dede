import Liaison.Decimal.Shortest
import Liaison.Json.Basic
import Liaison.Text.Utf8

/-!
# Writing JSON

The compact text has no blanks at all. The indented text puts every item and member on a line of
its own, two blanks further in than the line that opens its array or object.
-/

namespace Liaison

namespace Json

/-! ## Strings -/

/-- A character inside the quotes: the quote, the backslash and the controls are escaped. -/
def escape (c : Char) : List Char :=
  if c = '"' then ['\\', '"']
  else if c = '\\' then ['\\', '\\']
  else if c = '\n' then ['\\', 'n']
  else if c = '\r' then ['\\', 'r']
  else if c = '\t' then ['\\', 't']
  else if c.toNat = 0x08 then ['\\', 'b']
  else if c.toNat = 0x0C then ['\\', 'f']
  else if c.toNat < 0x20 then
    ['\\', 'u', '0', '0', Nat.digitChar (c.toNat / 16), Nat.digitChar (c.toNat % 16)]
  else [c]

def printString (s : String) : List Char :=
  '"' :: s.toList.flatMap escape ++ ['"']

def printInt : Int → List Char
  | .ofNat n => Nat.toDigits 10 n
  | .negSucc n => '-' :: Nat.toDigits 10 (n + 1)

/-! ## Compact -/

def openBrace : Char := Char.ofNat 0x7B

def closeBrace : Char := Char.ofNat 0x7D

mutual

def print : Json → List Char
  | .null => ['n', 'u', 'l', 'l']
  | .bool true => ['t', 'r', 'u', 'e']
  | .bool false => ['f', 'a', 'l', 's', 'e']
  | .int n => printInt n
  | .float x => x.text
  | .str s => printString s
  | .arr items => '[' :: printItems items ++ [']']
  | .obj members => openBrace :: printMembers members ++ [closeBrace]

def printItems : List Json → List Char
  | [] => []
  | [v] => print v
  | v :: w :: rest => print v ++ ',' :: printItems (w :: rest)

def printMembers : List (String × Json) → List Char
  | [] => []
  | [(name, v)] => printString name ++ ':' :: print v
  | (name, v) :: m :: rest =>
    printString name ++ ':' :: print v ++ ',' :: printMembers (m :: rest)

end

def compact (v : Json) : String :=
  String.ofList (print v)

def toBytes (v : Json) : Bytes :=
  Utf8.encode (print v)

/-! ## Indented -/

def newLine (depth : Nat) : List Char :=
  '\n' :: List.replicate (2 * depth) ' '

mutual

def printIndented (depth : Nat) : Json → List Char
  | .arr (v :: items) =>
    '[' :: newLine (depth + 1) ++ printIndented (depth + 1) v ++
      printIndentedItems (depth + 1) items ++ newLine depth ++ [']']
  | .obj ((name, v) :: members) =>
    openBrace :: newLine (depth + 1) ++ printString name ++ ':' :: ' ' ::
      printIndented (depth + 1) v ++ printIndentedMembers (depth + 1) members ++
        newLine depth ++ [closeBrace]
  | v => print v

def printIndentedItems (depth : Nat) : List Json → List Char
  | [] => []
  | v :: rest => ',' :: newLine depth ++ printIndented depth v ++ printIndentedItems depth rest

def printIndentedMembers (depth : Nat) : List (String × Json) → List Char
  | [] => []
  | (name, v) :: rest =>
    ',' :: newLine depth ++ printString name ++ ':' :: ' ' :: printIndented depth v ++
      printIndentedMembers depth rest

end

def pretty (v : Json) : String :=
  String.ofList (printIndented 0 v)

end Json

end Liaison
