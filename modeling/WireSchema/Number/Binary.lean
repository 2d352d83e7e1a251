import WireSchema.Number.Power

/-!
# Binary floating point by exact arithmetic

Singles and doubles are bit patterns. Every finite one is a whole number of *units*, the unit being
the smallest positive number of its format, so all arithmetic on them is arithmetic on natural
numbers followed by one rounding: `Format.round` takes an exact quotient of units to the nearest
pattern, ties to the even one, and to infinity when the quotient is out of range.

The operations here are the ones that reading, checking and writing numbers need: rounding a natural
number, multiplying and dividing, narrowing, widening, and the integer a double denotes.
-/

namespace WireSchema

/-- The quotient rounded to the nearest integer, a half to the even neighbour. -/
def roundHalfEven (num den : Nat) : Nat :=
  let quotient := num / den
  let rest := 2 * (num % den)
  if rest > den ∨ (rest = den ∧ quotient % 2 = 1) then quotient + 1 else quotient

/-- A binary interchange format. -/
structure BinaryFormat where
  /-- Bits of the stored fraction. -/
  fractionBits : Nat
  /-- Bits of the exponent field. -/
  exponentBits : Nat
  /-- The number one is `2 ^ unitsPerOne` units. -/
  unitsPerOne : Nat

namespace BinaryFormat

def single : BinaryFormat := ⟨23, 8, 149⟩

def double : BinaryFormat := ⟨52, 11, 1074⟩

variable (f : BinaryFormat)

/-- The pattern of positive infinity. -/
def infinity : Nat :=
  (2 ^ f.exponentBits - 1) * 2 ^ f.fractionBits

/-- The pattern of negative zero: the sign bit alone. -/
def signBit : Nat :=
  2 ^ (f.exponentBits + f.fractionBits)

/-- The pattern without its sign. -/
def unsigned (pattern : Nat) : Nat :=
  pattern % f.signBit

/-- Neither an infinity nor a NaN. -/
def isFinite (pattern : Nat) : Bool :=
  f.unsigned pattern < f.infinity

/-- How far the significand is shifted: the logarithm of the spacing around the number. -/
def shift (pattern : Nat) : Nat :=
  f.unsigned pattern / 2 ^ f.fractionBits - 1

/-- The significand, with its leading bit where the pattern implies one. -/
def significand (pattern : Nat) : Nat :=
  f.unsigned pattern - f.shift pattern * 2 ^ f.fractionBits

/-- The magnitude of a finite pattern, in units. -/
def magnitude (pattern : Nat) : Nat :=
  f.significand pattern * 2 ^ f.shift pattern

/-- The pattern nearest to `num / den` units. -/
def round (num den : Nat) : Nat :=
  let shift := Nat.log2 (num / den) - f.fractionBits
  min (shift * 2 ^ f.fractionBits + roundHalfEven num (den * 2 ^ shift)) f.infinity

/-- The sign bit put back in front of an unsigned pattern. -/
def withSign (negative : Bool) (pattern : Nat) : Nat :=
  if negative then f.signBit + pattern else pattern

end BinaryFormat

/-- A single-precision number, as its bit pattern. -/
structure Single where
  bits : UInt32
  deriving DecidableEq, Repr

/-- A double-precision number, as its bit pattern. -/
structure Double where
  bits : UInt64
  deriving DecidableEq, Repr

namespace Double

open BinaryFormat

def ofPattern (pattern : Nat) : Double :=
  ⟨UInt64.ofNat pattern⟩

def pattern (x : Double) : Nat :=
  x.bits.toNat

def isNegative (x : Double) : Bool :=
  x.pattern ≥ double.signBit

def isFinite (x : Double) : Bool :=
  double.isFinite x.pattern

def isNaN (x : Double) : Bool :=
  double.unsigned x.pattern > double.infinity

/-- The magnitude of a finite double, in units. -/
def magnitude (x : Double) : Nat :=
  double.magnitude x.pattern

/-- One, in units. -/
def one : Nat :=
  2 ^ double.unitsPerOne

/-- The nearest double to a natural number. -/
def ofNat (n : Nat) : Double :=
  ofPattern (double.round (n * one) 1)

/-- The nearest double to an integer. -/
def ofInt (i : Int) : Double :=
  ofPattern (double.withSign (i < 0) (double.round (i.natAbs * one) 1))

/-- The magnitude times that of `y`, rounded. -/
def mulMagnitude (x y : Double) : Double :=
  ofPattern (double.round (x.magnitude * y.magnitude) one)

/-- The magnitude divided by that of `y`, rounded. -/
def divMagnitude (x y : Double) : Double :=
  ofPattern (double.round (x.magnitude * one) y.magnitude)

/-- The same number with the other sign. -/
def negate (x : Double) : Double :=
  ofPattern (double.withSign (!x.isNegative) (double.unsigned x.pattern))

/-- The integer a finite double denotes, if it denotes one. -/
def toInt? (x : Double) : Option Int :=
  if x.isFinite && x.magnitude % one == 0 then
    let n : Int := (x.magnitude / one : Nat)
    some (if x.isNegative then -n else n)
  else none

end Double

namespace Single

open BinaryFormat

def pattern (x : Single) : Nat :=
  x.bits.toNat

/-- Units of the double format in one unit of the single format. -/
def unit : Nat :=
  2 ^ (double.unitsPerOne - single.unitsPerOne)

/-- The largest finite single. -/
def largest : Single :=
  ⟨UInt32.ofNat (single.infinity - 1)⟩

/-- The nearest single, infinity for what is out of range. -/
def ofDouble (x : Double) : Single :=
  let magnitude :=
    if x.isNaN then single.infinity + 2 ^ (single.fractionBits - 1)
    else if x.isFinite then single.round x.magnitude unit
    else single.infinity
  ⟨UInt32.ofNat (single.withSign x.isNegative magnitude)⟩

/-- The magnitude of a finite single, in units of the double format. -/
def magnitude (x : Single) : Nat :=
  single.magnitude x.pattern * unit

/-- The same number as a double. -/
def toDouble (x : Single) : Double :=
  let unsigned := single.unsigned x.pattern
  let magnitude :=
    if unsigned < single.infinity then double.round x.magnitude 1
    else if unsigned = single.infinity then double.infinity
    else double.infinity + 2 ^ (double.fractionBits - 1)
  .ofPattern (double.withSign (x.pattern ≥ single.signBit) magnitude)

end Single

end WireSchema
