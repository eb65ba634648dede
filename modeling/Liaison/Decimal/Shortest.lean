import Liaison.Decimal.Binary64

/-!
# Shortest decimals

The decimal that is printed for a double: of the decimals that round to it, one with the fewest
digits, and of those the nearest to it.
-/

namespace Liaison

structure Decimal where
  digits : Nat
  exponent : Int
deriving DecidableEq

namespace Binary64

/-! ## The interval -/

/-- Does the decimal `d * 10 ^ e` round to the positive finite `x`? The ends of the interval belong to
it if and only if the mantissa is even. All is compared in units of a quarter of the step that
`x` is a multiple of, which makes the ends naturals. -/
def admits (x : Binary64) (d : Nat) (e : Int) : Bool :=
  let unit := Nat.pow 2 x.scale
  let low :=
    if x.mantissa = hiddenBit ∧ 0 < x.scale then (4 * x.mantissa - 1) * unit
    else (4 * x.mantissa - 2) * unit
  let high := (4 * x.mantissa + 2) * unit
  let num := 4 * d * Nat.pow 10 e.toNat * denominator
  let den := Nat.pow 10 (-e).toNat
  if x.mantissa % 2 = 0 then low * den ≤ num && num ≤ high * den
  else low * den < num && num < high * den

/-! ## The digits -/

def decimalExponent (num den : Nat) : Int :=
  if den ≤ num then
    (Nat.toDigits 10 (num / den)).length - 1
  else
    Int.negOfNat (Nat.toDigits 10 ((den - 1) / num)).length

/-- The best decimal on the grid of step `10 ^ e`, if one there rounds to `x`. -/
def onGrid? (x : Binary64) (e : Int) : Option Decimal :=
  let num := x.numerator * Nat.pow 10 (-e).toNat
  let den := denominator * Nat.pow 10 e.toNat
  let below := num / den
  let rest := num % den
  let nearer := if den < 2 * rest ∨ (den = 2 * rest ∧ below % 2 = 1) then below + 1 else below
  let farther := 2 * below + 1 - nearer
  if x.admits nearer e then some ⟨nearer, e⟩
  else if x.admits farther e then some ⟨farther, e⟩
  else none

def searchGrids (x : Binary64) (top : Int) (n : Nat) : (tries : Nat) → Decimal
  | 0 => ⟨0, 0⟩
  | tries + 1 => (x.onGrid? (top - n + 1)).getD (searchGrids x top (n + 1) tries)

/-- The shortest decimal that rounds to the positive finite `x`. Seventeen digits always do. -/
def shortest (x : Binary64) : Decimal :=
  searchGrids x (decimalExponent x.numerator denominator) 1 17

end Binary64

/-! ## The text -/

/-- How a double is written: with a point when the exponent of the leading digit is from `least` to
`most`, and else with a signed exponent. -/
structure DoubleFormat where
  least : Int
  most : Int

def DoubleFormat.standard : DoubleFormat :=
  ⟨-5, 15⟩

namespace Decimal

def strip (digits : List Char) : List Char :=
  (digits.reverse.dropWhile (· = '0')).reverse

def write (format : DoubleFormat) (digits : List Char) (top : Int) : List Char :=
  if top < format.least ∨ format.most < top then
    let sign := if top < 0 then '-' else '+'
    let power := 'e' :: sign :: Nat.toDigits 10 top.natAbs
    match digits with
    | first :: second :: rest => first :: '.' :: second :: rest ++ power
    | short => short ++ power
  else if top < 0 then
    '0' :: '.' :: List.replicate (top.natAbs - 1) '0' ++ digits
  else
    let whole := digits.take (top.natAbs + 1)
    let fraction := digits.drop (top.natAbs + 1)
    whole ++ List.replicate (top.natAbs + 1 - whole.length) '0' ++ '.' ::
      (if fraction.isEmpty then ['0'] else fraction)

end Decimal

def Binary64.text (x : Binary64) : List Char :=
  let body :=
    if x.magnitude = 0 then
      ['0', '.', '0']
    else
      let short := x.shortest
      let digits := Nat.toDigits 10 short.digits
      Decimal.write .standard (Decimal.strip digits) (short.exponent + digits.length - 1)
  if x.isNegative then '-' :: body else body

end Liaison
