import Liaison.Json.Basic
import Liaison.Text.Utf8

/-!
# Reading JSON

A text is one value between blanks. Arrays and objects nest at most 127 deep, strings hold no raw
controls and no half of a surrogate pair, and a number too large for a double is no number.
-/

namespace Liaison

namespace Json

/-! ## Digits -/

def digit? (c : Char) : Option Nat :=
  if c.isDigit then some (c.toNat - '0'.toNat) else none

def hexDigit? (c : Char) : Option Nat :=
  if c.isDigit then some (c.toNat - '0'.toNat)
  else if 'a' ≤ c ∧ c ≤ 'f' then some (c.toNat - 'a'.toNat + 10)
  else if 'A' ≤ c ∧ c ≤ 'F' then some (c.toNat - 'A'.toNat + 10)
  else none

def ofDigits (ds : List Char) : Nat :=
  ds.foldl (fun n c => n * 10 + (c.toNat - '0'.toNat)) 0

/-! ## Numbers -/

/-- Adds digits to a significand for as long as it stays below 2^64, and says how many were
left out. -/
def absorb (significand : Nat) : List Char → Nat × Nat
  | [] => (significand, 0)
  | c :: rest =>
    let next := significand * 10 + (c.toNat - '0'.toNat)
    if next < Nat.pow 2 64 then absorb next rest else (significand, (c :: rest).length)

def stepExponent : Nat := 308

def scaleDown (x : Binary64) (n : Nat) : Binary64 :=
  if n ≤ stepExponent then x.div (.ofNat (Nat.pow 10 n))
  else if x.magnitude = 0 then x
  else scaleDown (x.div (.ofNat (Nat.pow 10 stepExponent))) (n - stepExponent)
termination_by n
decreasing_by simp only [stepExponent] at *; omega

def scaleUp (x : Binary64) (n : Nat) : Option Binary64 :=
  if n ≤ stepExponent then
    let y := x.mul (.ofNat (Nat.pow 10 n))
    if y.isFinite then some y else none
  else if x.magnitude = 0 then some x
  else none

/-- The double for a significand and an exponent, rounded once for the significand and once for
each step of the scaling. -/
def scaled? (significand : Nat) (exponent : Int) : Option Binary64 :=
  let x := Binary64.ofNat significand
  if exponent < 0 then some (scaleDown x exponent.natAbs) else scaleUp x exponent.natAbs

def number? (negative : Bool) (whole : List Char) (fraction : Option (List Char))
    (exponent : Option (Bool × List Char)) : Option Json :=
  let signed (x : Binary64) := float (if negative then x.negate else x)
  let (significand, dropped) := absorb 0 whole
  match fraction, exponent with
  | none, none =>
    if dropped = 0 ∧ ¬ negative then some (int significand)
    else if dropped = 0 ∧ 0 < significand ∧ significand ≤ Nat.pow 2 63 then some (int (-significand))
    else (scaled? significand dropped).map signed
  | _, _ =>
    let digits := fraction.getD []
    let (significand, left) := absorb significand digits
    let scale : Int := dropped - (digits.length - left : Nat)
    match exponent with
    | none => (scaled? significand scale).map signed
    | some (down, power) =>
      if ofDigits power < Nat.pow 2 31 then
        let power : Int := ofDigits power
        let total := if down then scale - power else scale + power
        (scaled? significand (max (-0x80000000) (min 0x7FFFFFFF total))).map signed
      else if significand ≠ 0 ∧ ¬ down then none
      else some (signed .zero)

/-- Reads the digits of a fraction after its point; there is at least one. -/
def fraction? : List Char → Option (Option (List Char) × List Char)
  | '.' :: cs =>
    match cs.takeWhile Char.isDigit with
    | [] => none
    | digits => some (some digits, cs.dropWhile Char.isDigit)
  | cs => some (none, cs)

def power? (down : Bool) (cs : List Char) : Option (Option (Bool × List Char) × List Char) :=
  match cs.takeWhile Char.isDigit with
  | [] => none
  | digits => some (some (down, digits), cs.dropWhile Char.isDigit)

def exponent? : List Char → Option (Option (Bool × List Char) × List Char)
  | c :: cs =>
    if c = 'e' ∨ c = 'E' then
      match cs with
      | '+' :: cs => power? false cs
      | '-' :: cs => power? true cs
      | cs => power? false cs
    else some (none, c :: cs)
  | [] => some (none, [])

/-- Reads the digits before the point: no zero leads a longer number. -/
def whole? (cs : List Char) : Option (List Char × List Char) :=
  match cs.takeWhile Char.isDigit with
  | [] => none
  | ['0'] => some (['0'], cs.dropWhile Char.isDigit)
  | '0' :: _ => none
  | digits => some (digits, cs.dropWhile Char.isDigit)

def readNumber (negative : Bool) (cs : List Char) : Option (Json × List Char) := do
  let (whole, cs) ← whole? cs
  let (fraction, cs) ← fraction? cs
  let (exponent, cs) ← exponent? cs
  let n ← number? negative whole fraction exponent
  return (n, cs)

/-! ## Strings -/

def hex4? : List Char → Option (Nat × List Char)
  | a :: b :: c :: d :: cs => do
    let a ← hexDigit? a
    let b ← hexDigit? b
    let c ← hexDigit? c
    let d ← hexDigit? d
    return (((a * 16 + b) * 16 + c) * 16 + d, cs)
  | _ => none

/-- Reads the hexadecimal part of an escape, or of the two escapes of a surrogate pair. -/
def unicodeEscape? (cs : List Char) : Option (Char × List Char) :=
  match hex4? cs with
  | none => none
  | some (n, cs) =>
    if 0xD800 ≤ n ∧ n < 0xDC00 then
      match cs with
      | '\\' :: 'u' :: cs =>
        match hex4? cs with
        | some (m, cs) =>
          if 0xDC00 ≤ m ∧ m < 0xE000 then
            some (Char.ofNat (0x10000 + (n - 0xD800) * 0x400 + (m - 0xDC00)), cs)
          else none
        | none => none
      | _ => none
    else if 0xDC00 ≤ n ∧ n < 0xE000 then none
    else some (Char.ofNat n, cs)

def escape? : List Char → Option (Char × List Char)
  | '"' :: cs => some ('"', cs)
  | '\\' :: cs => some ('\\', cs)
  | '/' :: cs => some ('/', cs)
  | 'b' :: cs => some ('\x08', cs)
  | 'f' :: cs => some ('\x0c', cs)
  | 'n' :: cs => some ('\n', cs)
  | 'r' :: cs => some ('\r', cs)
  | 't' :: cs => some ('\t', cs)
  | 'u' :: cs => unicodeEscape? cs
  | _ => none

def readChars : (fuel : Nat) → List Char → Option (List Char × List Char)
  | 0, _ => none
  | fuel + 1, cs =>
    match cs with
    | [] => none
    | '"' :: rest => some ([], rest)
    | '\\' :: rest =>
      match escape? rest with
      | none => none
      | some (c, rest) => (readChars fuel rest).map fun r => (c :: r.1, r.2)
    | c :: rest =>
      if c.toNat < 0x20 then none else (readChars fuel rest).map fun r => (c :: r.1, r.2)

def readString (cs : List Char) : Option (String × List Char) :=
  (readChars cs.length cs).map fun r => (String.ofList r.1, r.2)

/-! ## Values -/

def isGap (c : Char) : Bool :=
  c = ' ' || c = '\n' || c = '\t' || c = '\r'

def skipGap (cs : List Char) : List Char :=
  cs.dropWhile isGap

def readItems (item : List Char → Option (Json × List Char)) :
    (fuel : Nat) → List Char → Option (List Json × List Char)
  | 0, _ => none
  | fuel + 1, cs =>
    match item cs with
    | none => none
    | some (v, cs) =>
      match skipGap cs with
      | ',' :: cs => (readItems item fuel cs).map fun r => (v :: r.1, r.2)
      | ']' :: cs => some ([v], cs)
      | _ => none

/-- Reads a member: its name, a colon, and its value by `item`. -/
def readMember (item : List Char → Option (Json × List Char)) (cs : List Char) :
    Option ((String × Json) × List Char) :=
  match skipGap cs with
  | '"' :: cs =>
    match readString cs with
    | none => none
    | some (name, cs) =>
      match skipGap cs with
      | ':' :: cs => (item cs).map fun r => ((name, r.1), r.2)
      | _ => none
  | _ => none

def readMembers (item : List Char → Option (Json × List Char)) :
    (fuel : Nat) → List Char → Option (List (String × Json) × List Char)
  | 0, _ => none
  | fuel + 1, cs =>
    match readMember item cs with
    | none => none
    | some (m, cs) =>
      match skipGap cs with
      | ',' :: cs => (readMembers item fuel cs).map fun r => (m :: r.1, r.2)
      | c :: cs => if c.toNat = 0x7D then some ([m], cs) else none
      | [] => none

def readScalar : List Char → Option (Json × List Char)
  | 'n' :: 'u' :: 'l' :: 'l' :: cs => some (null, cs)
  | 't' :: 'r' :: 'u' :: 'e' :: cs => some (bool true, cs)
  | 'f' :: 'a' :: 'l' :: 's' :: 'e' :: cs => some (bool false, cs)
  | '"' :: cs => (readString cs).map fun r => (str r.1, r.2)
  | '-' :: cs => readNumber true cs
  | cs => readNumber false cs

def readArray (item : List Char → Option (Json × List Char)) (cs : List Char) :
    Option (Json × List Char) :=
  match skipGap cs with
  | ']' :: cs => some (arr [], cs)
  | cs => (readItems item cs.length cs).map fun r => (arr r.1, r.2)

def readObject (item : List Char → Option (Json × List Char)) (cs : List Char) :
    Option (Json × List Char) :=
  match skipGap cs with
  | [] => none
  | c :: cs =>
    if c.toNat = 0x7D then some (obj [], cs)
    else (readMembers item (c :: cs).length (c :: cs)).map fun r => (ofMembers r.1, r.2)

def readValue : (depth : Nat) → List Char → Option (Json × List Char)
  | 0, cs => readScalar (skipGap cs)
  | depth + 1, cs =>
    match skipGap cs with
    | '[' :: cs => readArray (readValue depth) cs
    | c :: cs =>
      if c.toNat = 0x7B then readObject (readValue depth) cs else readScalar (c :: cs)
    | [] => none

def maxDepth : Nat := 127

def parse? (cs : List Char) : Option Json :=
  match readValue maxDepth cs with
  | some (v, rest) => if (skipGap rest).isEmpty then some v else none
  | none => none

def ofBytes? (bs : Bytes) : Option Json :=
  (Utf8.decode? bs).bind parse?

end Json

end Liaison
