import WireSchema.Json.Basic

/-!
# Number literals

A literal without point and exponent that fits 64 bits is an integer. Every other literal is a
double, found the quick way: its digits are collected into a 64-bit significand, digits that no
longer fit are dropped, and the significand is multiplied or divided by one power of ten. Each of
the three steps rounds, so the result can miss the nearest double by a little; a literal too large
for a double is refused and one too small is zero.
-/

namespace WireSchema.Json

/-- The largest significand. -/
def maxSignificand : Nat := 2 ^ (64 : Nat) - 1

/-- The largest written exponent that is looked at. -/
def maxExponent : Nat := 2 ^ (31 : Nat) - 1

/-- The powers of ten up to this one are doubles. -/
def maxPowerOfTen : Nat := 308

def digitValue (c : Char) : Nat :=
  c.toNat - '0'.toNat

/-- Appends digits to a number until one would lift it above `limit`; gives the number and how many
digits were left over. -/
def collect (limit number : Nat) : List Char → Nat × Nat
  | [] => (number, 0)
  | c :: rest =>
    let next := number * 10 + digitValue c
    if next > limit then (number, rest.length + 1) else collect limit next rest

/-- The power of ten nearest to `10 ^ n`. -/
def powerOfTen (n : Nat) : Double :=
  .ofNat (10 ^ n)

/-- The significand times `10 ^ exponent`. A number below the range of the powers of ten is divided
by the largest one as often as needed; as a significand has twenty digits at most, two such
divisions leave zero. -/
def scale (significand : Double) (exponent : Int) : (divisions : Nat) → Option Double
  | 0 => some significand
  | divisions + 1 =>
    if exponent.natAbs ≤ maxPowerOfTen then
      let power := powerOfTen exponent.natAbs
      if exponent ≥ 0 then
        let product := significand.mulMagnitude power
        if product.isFinite then some product else none
      else some (significand.divMagnitude power)
    else if significand.magnitude = 0 then some significand
    else if exponent > 0 then none
    else scale (significand.divMagnitude (powerOfTen maxPowerOfTen)) (exponent + maxPowerOfTen) divisions

/-- An exponent as written: its sign and its digits, of which there is at least one. -/
structure WrittenExponent where
  negative : Bool
  digits : List Char

/-- The parts of a literal. -/
structure Literal where
  negative : Bool
  /-- Digits before the point; a zero stands alone. -/
  whole : List Char
  /-- Digits after the point, if there is one. -/
  fraction : Option (List Char)
  exponent : Option WrittenExponent

namespace Literal

/-- Splits off the exponent, which must be all that is left. -/
def exponent? : List Char → Option (Option WrittenExponent)
  | [] => some none
  | c :: rest =>
    if c = 'e' ∨ c = 'E' then
      let (negative, digits) :=
        match rest with
        | '-' :: digits => (true, digits)
        | '+' :: digits => (false, digits)
        | digits => (false, digits)
      if !digits.isEmpty && digits.all Char.isDigit then some (some ⟨negative, digits⟩) else none
    else none

/-- Splits off the fraction. -/
def fraction? : List Char → Option (Option (List Char) × List Char)
  | '.' :: rest =>
    let (digits, rest) := rest.span Char.isDigit
    if digits.isEmpty then none else some (some digits, rest)
  | rest => some (none, rest)

/-- Takes a literal apart. -/
def ofChars? (text : List Char) : Option Literal := do
  let (negative, rest) :=
    match text with
    | '-' :: rest => (true, rest)
    | rest => (false, rest)
  let (whole, rest) := rest.span Char.isDigit
  guard (whole.head? != some '0' || whole.length == 1)
  guard !whole.isEmpty
  let (fraction, rest) ← fraction? rest
  let exponent ← exponent? rest
  return { negative, whole, fraction, exponent }

/-- The double a literal stands for. -/
def toDouble? (l : Literal) : Option Double := do
  let fraction := l.fraction.getD []
  let (significand, droppedWhole) := collect maxSignificand 0 l.whole
  let (significand, droppedFraction) := collect maxSignificand significand fraction
  let point : Int := droppedWhole - (fraction.length - droppedFraction : Nat)
  let magnitude ←
    match l.exponent with
    | none => scale (.ofNat significand) point 3
    | some written =>
      let (size, droppedExponent) := collect maxExponent 0 written.digits
      let exponent : Int := if written.negative then -size else size
      if droppedExponent > 0 then
        if significand ≠ 0 ∧ !written.negative then none else some (.ofNat 0)
      else scale (.ofNat significand) (point + exponent) 3
  return if l.negative then magnitude.negate else magnitude

/-- The number a literal stands for. -/
def toNumber? (l : Literal) : Option Number :=
  let (n, dropped) := collect maxSignificand 0 l.whole
  let isInteger :=
    l.fraction.isNone && l.exponent.isNone && dropped == 0 &&
      (!l.negative || (0 < n && n ≤ 2 ^ (63 : Nat)))
  if isInteger then some (.int (if l.negative then -(n : Int) else n))
  else .float <$> l.toDouble?

end Literal

/-- The number written by these characters. -/
def number? (text : List Char) : Option Number := do
  (← Literal.ofChars? text).toNumber?

end WireSchema.Json
