/-!
# Doubles

The 64-bit binary floating point numbers, as their bits. `round` takes a quotient of naturals to
the nearest of them, a tie to the even mantissa, and the arithmetic is exact before it rounds.
-/

namespace Liaison

structure Binary64 where
  bits : UInt64
deriving DecidableEq, Inhabited

namespace Binary64

/-! ## Parts -/

def signBit : Nat := Nat.pow 2 63

def hiddenBit : Nat := Nat.pow 2 52

def isNegative (x : Binary64) : Bool :=
  signBit ≤ x.bits.toNat

def magnitude (x : Binary64) : Nat :=
  x.bits.toNat % signBit

/-- The magnitude of the infinities; every finite number has a smaller one. -/
def infiniteMagnitude : Nat :=
  0x7FF * hiddenBit

def isFinite (x : Binary64) : Bool :=
  x.magnitude < infiniteMagnitude

def ofMagnitude (negative : Bool) (magnitude : Nat) : Binary64 :=
  ⟨(magnitude + if negative then signBit else 0).toUInt64⟩

def zero : Binary64 :=
  ⟨0⟩

def negate (x : Binary64) : Binary64 :=
  ofMagnitude (!x.isNegative) x.magnitude

/-- A finite number is `mantissa * 2 ^ scale / 2 ^ 1074`, up to its sign. -/
def mantissa (x : Binary64) : Nat :=
  if x.magnitude < hiddenBit then x.magnitude else x.magnitude % hiddenBit + hiddenBit

def scale (x : Binary64) : Nat :=
  x.magnitude / hiddenBit - 1

def numerator (x : Binary64) : Nat :=
  x.mantissa * Nat.pow 2 x.scale

def denominator : Nat :=
  Nat.pow 2 1074

/-! ## Rounding -/

/-- The nearest natural to a quotient, a tie to the even one. -/
def roundDiv (num den : Nat) : Nat :=
  let q := num / den
  let r := num % den
  if den < 2 * r ∨ (den = 2 * r ∧ q % 2 = 1) then q + 1 else q

/-- The scale at which a quotient has a 53-bit mantissa, or the least scale if that is larger. -/
def scaleOf (num den : Nat) : Nat :=
  let shifted := num * denominator / den
  shifted.log2 - 52

/-- The number nearest to `num / den`, a tie to the even mantissa. What lies beyond the finite
numbers becomes an infinity. -/
def round (negative : Bool) (num den : Nat) : Binary64 :=
  let scale := scaleOf num den
  let mantissa := roundDiv (num * denominator) (den * Nat.pow 2 scale)
  ofMagnitude negative (min (scale * hiddenBit + mantissa) infiniteMagnitude)

def ofNat (n : Nat) : Binary64 :=
  round false n 1

def mul (x y : Binary64) : Binary64 :=
  round (x.isNegative != y.isNegative) (x.numerator * y.numerator) (denominator * denominator)

def div (x y : Binary64) : Binary64 :=
  round (x.isNegative != y.isNegative) x.numerator y.numerator

end Binary64

end Liaison
