import Liaison.Text.Utf8

/-!
# Printing by a pattern

A pattern is text in which a backslash or a percent sign with what follows it stands for something
else: for a byte that has no sign of its own, or for one of the values that are to be printed.
-/

namespace Liaison.Shell

/-! ## Numbers -/

def integer? (s : String) : Option Int :=
  match s.toList.dropWhile Char.isWhitespace with
  | '-' :: cs => (natural? cs).map fun n => -(n : Int)
  | '+' :: cs => (natural? cs).map Int.ofNat
  | cs => (natural? cs).map Int.ofNat
where
  natural? (cs : List Char) : Option Nat :=
    if !cs.isEmpty && cs.all Char.isDigit then
      some (cs.foldl (fun n c => 10 * n + (c.toNat - '0'.toNat)) 0)
    else none

/-! ## After a backslash -/

def octal : (most : Nat) → (value : Nat) → List Char → Nat × List Char
  | 0, value, cs => (value, cs)
  | most + 1, value, c :: cs =>
    if '0' ≤ c ∧ c ≤ '7' then octal most (8 * value + (c.toNat - '0'.toNat)) cs else (value, c :: cs)
  | _ + 1, value, [] => (value, [])

def letterByte? : Char → Option UInt8
  | 'a' => some 7
  | 'b' => some 8
  | 't' => some 9
  | 'n' => some 10
  | 'v' => some 11
  | 'f' => some 12
  | 'r' => some 13
  | '\\' => some 92
  | _ => none

/-- The byte that stands at the start of a text after a backslash. It is the backslash itself if what
follows has no meaning. -/
def escape : List Char → UInt8 × List Char
  | [] => (92, [])
  | c :: cs =>
    match letterByte? c with
    | some b => (b, cs)
    | none =>
      if '0' ≤ c ∧ c ≤ '7' then
        let (n, rest) := octal 3 0 (c :: cs)
        (n.toUInt8, rest)
      else (92, c :: cs)

def unescape : (fuel : Nat) → List Char → Bytes × Bool
  | 0, _ => ([], false)
  | _ + 1, [] => ([], false)
  | _ + 1, '\\' :: 'c' :: _ => ([], true)
  | fuel + 1, '\\' :: '0' :: cs =>
    let (n, rest) := octal 3 0 cs
    let (more, stops) := unescape fuel rest
    (n.toUInt8 :: more, stops)
  | fuel + 1, '\\' :: cs =>
    let (b, rest) := escape cs
    let (more, stops) := unescape fuel rest
    (b :: more, stops)
  | fuel + 1, c :: cs =>
    let (more, stops) := unescape fuel cs
    (Utf8.encodeChar c ++ more, stops)

def echoed (values : List String) (newline : Bool) : Bytes :=
  let cs := (" ".intercalate values).toList
  let (bs, stops) := unescape (cs.length + 1) cs
  if newline && !stops then bs ++ [10] else bs

/-! ## After a percent sign -/

structure Directive where
  flags : List Char
  width : Nat
  precision : Option Nat
  conversion : Char

def directive (cs : List Char) : Directive × List Char :=
  let number (cs : List Char) : Nat := ((integer?.natural? (cs.takeWhile Char.isDigit)).getD 0)
  let isFlag (c : Char) : Bool := "-0+ #".toList.contains c
  let afterFlags := cs.dropWhile isFlag
  let afterWidth := afterFlags.dropWhile Char.isDigit
  let (precision, rest) : Option Nat × List Char :=
    match afterWidth with
    | '.' :: rest => (some (number rest), rest.dropWhile Char.isDigit)
    | rest => (none, rest)
  (⟨cs.takeWhile isFlag, number afterFlags, precision, rest.headD '%'⟩, rest.drop 1)

namespace Directive

def pad (d : Directive) (bs : Bytes) : Bytes :=
  let missing := d.width - bs.length
  if d.flags.contains '-' then bs ++ List.replicate missing 32
  else if d.flags.contains '0' && d.conversion ≠ 's' then
    match bs with
    | 45 :: digits => 45 :: List.replicate missing 48 ++ digits
    | digits => List.replicate missing 48 ++ digits
  else List.replicate missing 32 ++ bs

def bytes (d : Directive) (value : String) : Bytes :=
  let n := (integer? value).getD 0
  let digits (base : Nat) : String := String.ofList (Nat.toDigits base n.toNat)
  match d.conversion with
  | 's' =>
    let bs := Utf8.ofString value
    d.pad ((d.precision.map (bs.take ·)).getD bs)
  | 'b' => d.pad (unescape (value.length + 1) value.toList).1
  | 'c' => d.pad (Utf8.encode (value.toList.take 1))
  | 'x' => d.pad (Utf8.ofString (digits 16))
  | 'X' => d.pad (Utf8.ofString (digits 16).toUpper)
  | 'o' => d.pad (Utf8.ofString (digits 8))
  | _ => d.pad (Utf8.ofString (toString n))

end Directive

def printOnce : (fuel : Nat) → (pattern : List Char) → List String → Bytes × List String
  | 0, _, values => ([], values)
  | _ + 1, [], values => ([], values)
  | fuel + 1, '\\' :: cs, values =>
    let (b, rest) := escape cs
    let (more, values) := printOnce fuel rest values
    (b :: more, values)
  | fuel + 1, '%' :: '%' :: cs, values =>
    let (more, values) := printOnce fuel cs values
    (37 :: more, values)
  | fuel + 1, '%' :: cs, values =>
    let (d, rest) := directive cs
    let (more, left) := printOnce fuel rest values.tail
    (d.bytes (values.headD "") ++ more, left)
  | fuel + 1, c :: cs, values =>
    let (more, values) := printOnce fuel cs values
    (Utf8.encodeChar c ++ more, values)

def printed (pattern : String) (values : List String) : Bytes :=
  go (values.length + 1) values
where
  go : (fuel : Nat) → List String → Bytes
    | 0, _ => []
    | fuel + 1, values =>
      let (bs, left) := printOnce (pattern.length + 1) pattern.toList values
      if left.isEmpty || left.length = values.length then bs else bs ++ go fuel left

end Liaison.Shell
