import Liaison.Text.Utf8

/-!
# Percent-encoding

A byte that may not stand in a part of a URI is written as a percent sign and two hexadecimal
digits. Decoding leaves a percent sign that no two digits follow as it is.
-/

namespace Liaison

namespace Percent

def digit (n : Nat) : UInt8 :=
  (if n < 10 then 0x30 + n else 0x37 + n).toUInt8

def value? (b : UInt8) : Option Nat :=
  let n := b.toNat
  if 0x30 ≤ n ∧ n ≤ 0x39 then some (n - 0x30)
  else if 0x41 ≤ n ∧ n ≤ 0x46 then some (n - 0x37)
  else if 0x61 ≤ n ∧ n ≤ 0x66 then some (n - 0x57)
  else none

def encodeByte (keep : UInt8 → Bool) (b : UInt8) : Bytes :=
  if keep b then [b] else [0x25, digit (b.toNat / 16), digit (b.toNat % 16)]

def encode (keep : UInt8 → Bool) (bs : Bytes) : Bytes :=
  bs.flatMap (encodeByte keep)

def decode : Bytes → Bytes
  | [] => []
  | 0x25 :: a :: b :: rest =>
    match value? a, value? b with
    | some x, some y => (x * 16 + y).toUInt8 :: decode rest
    | _, _ => 0x25 :: decode (a :: b :: rest)
  | b :: rest => b :: decode rest

/-! ## Sets of bytes -/

def printableExcept (cs : List Char) (b : UInt8) : Bool :=
  0x20 ≤ b && b < 0x7F && !cs.any (·.toNat = b.toNat)

def inPath : UInt8 → Bool :=
  printableExcept [' ', '"', '#', '<', '>', '?', '`', '\x7b', '\x7d']

def inName (b : UInt8) : Bool :=
  inPath b && b ≠ 0x2F && b ≠ 0x25 && b ≠ 0x5C

def inUser : UInt8 → Bool :=
  printableExcept [' ', '"', '#', '<', '>', '?', '`', '\x7b', '\x7d', '/', ':', ';', '=', '@', '[',
    '\\', ']', '^', '|']

/-- The bytes that may stand in a query; a quote may not if the scheme is special. -/
def inQuery (special : Bool) : UInt8 → Bool :=
  printableExcept ([' ', '"', '#', '<', '>'] ++ if special then ['\''] else [])

def inFragment : UInt8 → Bool :=
  printableExcept [' ', '"', '<', '>', '`']

/-- The bytes of a host of a scheme that is not special, or of an opaque path. -/
def notControl : UInt8 → Bool :=
  printableExcept []

end Percent

end Liaison
