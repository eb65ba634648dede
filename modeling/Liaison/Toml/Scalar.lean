import Liaison.Json.Reader

/-!
# TOML scalars

Strings, numbers and points in time. Numbers and times are read from a token, which is everything
up to the next character that can belong to neither.
-/

namespace Liaison

namespace Toml

/-! ## Characters -/

def isGap (c : Char) : Bool :=
  c = ' ' || c = '\t'

def skipGap (cs : List Char) : List Char :=
  cs.dropWhile isGap

/-- A control that may stand nowhere but in an escape. The tab is none. -/
def isControl (c : Char) : Bool :=
  (c.toNat < 0x20 && c ≠ '\t') || c.toNat = 0x7F

def newline? : List Char → Option (List Char)
  | '\n' :: cs => some cs
  | '\r' :: '\n' :: cs => some cs
  | _ => none

/-! ## Escapes -/

def hexDigits? : (count : Nat) → List Char → Option (Nat × List Char)
  | 0, cs => some (0, cs)
  | count + 1, cs =>
    match cs with
    | [] => none
    | c :: cs => do
      let d ← Json.hexDigit? c
      let (n, cs) ← hexDigits? count cs
      return (d * Nat.pow 16 count + n, cs)

def codePoint? (count : Nat) (cs : List Char) : Option (Char × List Char) := do
  let (n, cs) ← hexDigits? count cs
  if h : n.isValidChar then some (Char.ofNatAux n h, cs) else none

def escape? : List Char → Option (Char × List Char)
  | '"' :: cs => some ('"', cs)
  | '\\' :: cs => some ('\\', cs)
  | 'b' :: cs => some ('\x08', cs)
  | 'e' :: cs => some ('\x1b', cs)
  | 'f' :: cs => some ('\x0c', cs)
  | 'n' :: cs => some ('\n', cs)
  | 'r' :: cs => some ('\r', cs)
  | 't' :: cs => some ('\t', cs)
  | 'x' :: cs => codePoint? 2 cs
  | 'u' :: cs => codePoint? 4 cs
  | 'U' :: cs => codePoint? 8 cs
  | _ => none

/-! ## Strings -/

def basic? : (fuel : Nat) → List Char → Option (List Char × List Char)
  | 0, _ => none
  | fuel + 1, cs =>
    match cs with
    | [] => none
    | '"' :: cs => some ([], cs)
    | '\\' :: cs => do
      let (c, cs) ← escape? cs
      let (s, cs) ← basic? fuel cs
      return (c :: s, cs)
    | c :: cs =>
      if isControl c then none else (basic? fuel cs).map fun r => (c :: r.1, r.2)

def literal? : List Char → Option (List Char × List Char)
  | [] => none
  | c :: cs =>
    if c = '\'' then some ([], cs)
    else if isControl c then none
    else (literal? cs).map fun r => (c :: r.1, r.2)

def splitQuotes (quote : Char) (cs : List Char) : Nat × List Char :=
  ((cs.takeWhile (· = quote)).length, cs.dropWhile (· = quote))

def isSpace (c : Char) : Bool :=
  isGap c || c = '\n' || c = '\r'

/-- After a backslash: drops blanks and line ends, if nothing else is left of the line. -/
def continuation? (cs : List Char) : Option (List Char) :=
  match newline? (skipGap cs) with
  | some cs => some (cs.dropWhile isSpace)
  | none => none

def triple? (quote : Char) (escapes : Bool) :
    (fuel : Nat) → List Char → Option (List Char × List Char)
  | 0, _ => none
  | fuel + 1, cs =>
    match splitQuotes quote cs with
    | (0, []) => none
    | (0, c :: rest) =>
      match newline? (c :: rest) with
      | some rest => (triple? quote escapes fuel rest).map fun r => ('\n' :: r.1, r.2)
      | none =>
        if c = '\\' ∧ escapes then
          match continuation? rest with
          | some rest => triple? quote escapes fuel rest
          | none => do
            let (c, rest) ← escape? rest
            let (s, rest) ← triple? quote escapes fuel rest
            return (c :: s, rest)
        else if isControl c then none
        else (triple? quote escapes fuel rest).map fun r => (c :: r.1, r.2)
    | (n + 1, rest) =>
      if n + 1 < 3 then
        (triple? quote escapes fuel rest).map fun r => (List.replicate (n + 1) quote ++ r.1, r.2)
      else if n + 1 ≤ 5 then some (List.replicate (n + 1 - 3) quote, rest)
      else none

/-- Reads a string in triple quotes whose opening has been read. A line end right after that is
dropped. -/
def multiline? (quote : Char) (escapes : Bool) (cs : List Char) :
    Option (List Char × List Char) :=
  let cs := (newline? cs).getD cs
  triple? quote escapes (cs.length + 1) cs

def lineString? : List Char → Option (List Char × List Char)
  | '"' :: cs => basic? (cs.length + 1) cs
  | '\'' :: cs => literal? cs
  | _ => none

def string? : List Char → Option (List Char × List Char)
  | '"' :: '"' :: '"' :: cs => multiline? '"' true cs
  | '\'' :: '\'' :: '\'' :: cs => multiline? '\'' false cs
  | cs => lineString? cs

/-! ## Numbers -/

def digits? (isDigit : Char → Bool) : List Char → Option (List Char)
  | [] => none
  | [c] => if isDigit c then some [c] else none
  | c :: '_' :: cs => if isDigit c then (digits? isDigit cs).map (c :: ·) else none
  | c :: cs => if isDigit c then (digits? isDigit cs).map (c :: ·) else none

def natural? (base : Nat) (cs : List Char) : Option Nat := do
  let isDigit (c : Char) : Bool := (Json.hexDigit? c).any (· < base)
  let ds ← digits? isDigit cs
  return ds.foldl (fun n c => n * base + (Json.hexDigit? c).getD 0) 0

def sign (cs : List Char) : Bool × List Char :=
  match cs with
  | '-' :: cs => (true, cs)
  | '+' :: cs => (false, cs)
  | cs => (false, cs)

def plainDigits? (cs : List Char) : Option (List Char) :=
  match digits? Char.isDigit cs with
  | some ('0' :: _ :: _) => none
  | ds => ds

def integer? (cs : List Char) : Option Int :=
  match cs with
  | '0' :: 'x' :: ds => (natural? 16 ds).map Int.ofNat
  | '0' :: 'o' :: ds => (natural? 8 ds).map Int.ofNat
  | '0' :: 'b' :: ds => (natural? 2 ds).map Int.ofNat
  | cs =>
    let (negative, ds) := sign cs
    (plainDigits? ds).map fun ds =>
      if negative then -(Json.ofDigits ds : Int) else (Json.ofDigits ds : Int)

def farExponent : Int := 400

/-- The double nearest to `digits * 10 ^ exponent`; none if that is too large. -/
def nearest? (negative : Bool) (digits : List Char) (exponent : Int) : Option Binary64 :=
  let n := Json.ofDigits digits
  let top := exponent + digits.length
  if n = 0 ∨ top < -farExponent then some (Binary64.ofMagnitude negative 0)
  else if farExponent < top then none
  else
    let x := Binary64.round negative (n * Nat.pow 10 exponent.toNat) (Nat.pow 10 (-exponent).toNat)
    if x.isFinite then some x else none

def exponent? (cs : List Char) : Option Int :=
  let (negative, ds) := sign cs
  (digits? Char.isDigit ds).map fun ds =>
    if negative then -(Json.ofDigits ds : Int) else (Json.ofDigits ds : Int)

def decimal? (negative : Bool) (cs : List Char) : Option Binary64 := do
  let isMark (c : Char) : Bool := c = 'e' || c = 'E'
  let body := cs.takeWhile (!isMark ·)
  let power := cs.dropWhile (!isMark ·)
  let whole ← plainDigits? (body.takeWhile (· ≠ '.'))
  let point := body.dropWhile (· ≠ '.')
  let fraction ← if point.isEmpty then some [] else digits? Char.isDigit (point.drop 1)
  let exponent ← if power.isEmpty then some 0 else exponent? (power.drop 1)
  if point.isEmpty ∧ power.isEmpty then none
  else nearest? negative (whole ++ fraction) (exponent - fraction.length)

def nanMagnitude : Nat := Binary64.infiniteMagnitude + Nat.pow 2 51

def float? (cs : List Char) : Option Binary64 :=
  let (negative, body) := sign cs
  match String.ofList body with
  | "inf" => some (.ofMagnitude negative Binary64.infiniteMagnitude)
  | "nan" => some (.ofMagnitude negative nanMagnitude)
  | _ => decimal? negative body

/-! ## Times -/

def two? (most : Nat) : List Char → Option (Nat × List Char)
  | a :: b :: cs => do
    let x ← Json.digit? a
    let y ← Json.digit? b
    if x * 10 + y ≤ most then some (x * 10 + y, cs) else none
  | _ => none

def daysIn (year month : Nat) : Nat :=
  if month = 2 then
    if year % 4 = 0 ∧ (year % 100 ≠ 0 ∨ year % 400 = 0) then 29 else 28
  else if month = 4 ∨ month = 6 ∨ month = 9 ∨ month = 11 then 30
  else 31

def date? (cs : List Char) : Option (List Char × List Char) := do
  let (century, rest) ← two? 99 cs
  let (decade, rest) ← two? 99 rest
  match rest with
  | '-' :: rest =>
    let (month, rest) ← two? 12 rest
    match rest with
    | '-' :: rest =>
      let (day, rest) ← two? 31 rest
      if month = 0 ∨ day = 0 ∨ daysIn (century * 100 + decade) month < day then none
      else some (cs.take 10, rest)
    | _ => none
  | _ => none

/-- Reads the seconds of a time with their fraction, which may both be left out. Zeros at the end
of the fraction are dropped. -/
def seconds? (cs : List Char) : Option (List Char × List Char) :=
  match cs with
  | ':' :: rest => do
    let (_, rest') ← two? 60 rest
    match rest' with
    | '.' :: more =>
      let ds := more.takeWhile Char.isDigit
      if ds.isEmpty then none
      else
        let kept := ((ds.take 9).reverse.dropWhile (· = '0')).reverse
        let fraction := if kept.isEmpty then [] else '.' :: kept
        some (':' :: rest.take 2 ++ fraction, more.dropWhile Char.isDigit)
    | _ => some (':' :: rest.take 2, rest')
  | cs => some ([], cs)

def time? (cs : List Char) : Option (List Char × List Char) := do
  let (_, rest) ← two? 23 cs
  match rest with
  | ':' :: rest =>
    let (_, rest) ← two? 59 rest
    let (seconds, rest) ← seconds? rest
    some (cs.take 5 ++ seconds, rest)
  | _ => none

def offset? (cs : List Char) : Option (List Char × List Char) :=
  match cs with
  | 'Z' :: rest | 'z' :: rest => some (['Z'], rest)
  | [] => some ([], [])
  | sign :: rest =>
    if sign = '+' ∨ sign = '-' then do
      let (_, rest') ← two? 23 rest
      match rest' with
      | ':' :: rest' =>
        let (_, rest') ← two? 59 rest'
        some (sign :: rest.take 5, rest')
      | _ => none
    else some ([], cs)

/-- Reads a date, a time, or both, and returns its normal form. -/
def moment? (cs : List Char) : Option (List Char) :=
  match date? cs with
  | some (date, []) => some date
  | some (date, mark :: rest) =>
    if mark = 'T' ∨ mark = 't' ∨ mark = ' ' then
      match time? rest with
      | some (time, rest) =>
        match offset? rest with
        | some (offset, []) => some (date ++ 'T' :: time ++ offset)
        | _ => none
      | none => none
    else none
  | none =>
    match time? cs with
    | some (time, []) => some time
    | _ => none

/-! ## Tokens -/

def isTokenChar (c : Char) : Bool :=
  c.isAlphanum || c = '_' || c = '+' || c = '-' || c = '.' || c = ':'

/-- Splits off a token. A date and a time may have one space between them. -/
def token (cs : List Char) : List Char × List Char :=
  let first := cs.takeWhile isTokenChar
  let rest := cs.dropWhile isTokenChar
  match date? first, rest with
  | some (_, []), ' ' :: c :: more =>
    if c.isDigit then
      (first ++ ' ' :: (c :: more).takeWhile isTokenChar, (c :: more).dropWhile isTokenChar)
    else (first, rest)
  | _, _ => (first, rest)

def momentName : String := "$__toml_private_datetime"

def isKept (n : Int) : Bool :=
  -Int.ofNat (Nat.pow 2 127) ≤ n && n < Int.ofNat (Nat.pow 2 128)

def scalar? (cs : List Char) : Option Json :=
  match String.ofList cs with
  | "true" => some (.bool true)
  | "false" => some (.bool false)
  | _ =>
    match integer? cs, float? cs, moment? cs with
    | some n, _, _ => if isKept n then some (.int n) else none
    | none, some x, _ => some (.float x)
    | none, none, some m => some (.obj [(momentName, .str (String.ofList m))])
    | none, none, none => none

end Toml

end Liaison
