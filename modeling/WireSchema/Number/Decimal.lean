import WireSchema.Number.Binary

/-!
# Decimal text of a double

`Double.shortest` finds the fewest digits that read back as the same double, and among those the
decimal nearest to it: on ever finer decimal grids it tests the two neighbours of the number against
the interval of reals that round to it, whose ends belong to it when the significand is even. All
those grids are part of one, so the interval is put on that one first. How the digits are laid out,
positionally or with an exponent, is up to a `DecimalStyle`, which belongs to whoever writes the
text.
-/

namespace WireSchema

/-- The number `digits * 10 ^ exponent`. -/
structure Decimal where
  digits : Nat
  exponent : Int
  deriving DecidableEq, Repr

/-- A number with the interval of the reals that round to it, all over one denominator. -/
structure RoundingInterval where
  low : Nat
  value : Nat
  high : Nat
  den : Nat
  /-- Whether the ends belong to the interval. -/
  closed : Bool

/-- A number between the points of a grid, with the points of an interval around it. -/
structure GridInterval where
  /-- The first point in the interval. -/
  low : Nat
  /-- The last point up to the number. -/
  value : Nat
  /-- The last point in the interval. -/
  high : Nat
  /-- Whether the number is a point itself. -/
  exact : Bool

namespace GridInterval

/-- The multiple of `10 ^ j` points in the interval that is nearest to the number, counted in
multiples; a tie goes to the even one. For a positive `j` half a multiple is a point, so that the
points up to the number tell which multiple is nearer. -/
def nearest? (g : GridInterval) (j : Nat) : Option Nat :=
  let step := 10 ^ j
  let below := g.value / step
  let above := below + 1
  let rest := 2 * (g.value % step)
  let nearestFirst :=
    if rest < step ∨ (rest = step ∧ g.exact ∧ below % 2 = 0) then [below, above]
    else [above, below]
  nearestFirst.find? fun d => g.low ≤ d * step ∧ d * step ≤ g.high

/-- The coarsest multiple of points with a hit, from `10 ^ j` points down; `exponent` is that of the
grid. -/
def firstHit (g : GridInterval) (exponent : Int) : (j : Nat) → Decimal
  | 0 => ⟨g.value, exponent⟩
  | j + 1 =>
    match g.nearest? (j + 1) with
    | some digits => ⟨digits, exponent + (j + 1 : Nat)⟩
    | none => g.firstHit exponent j

end GridInterval

namespace RoundingInterval

/-- The interval on the grid of the multiples of `10 ^ k`. -/
def onGrid (r : RoundingInterval) (k : Int) : GridInterval :=
  let scale := 10 ^ (-k).toNat
  let step := r.den * 10 ^ k.toNat
  { low := if r.closed then (r.low * scale + step - 1) / step else r.low * scale / step + 1
    value := r.value * scale / step
    high := if r.closed then r.high * scale / step else (r.high * scale - 1) / step
    exact := r.value * scale % step == 0 }

/-- The exponent of the number's first decimal digit. The difference of the binary logarithms, put
to base ten, misses it by one at most. -/
def leadingExponent (r : RoundingInterval) : Int :=
  let guess := ((Nat.log2 r.value : Int) - Nat.log2 r.den) * 30103 / 100000
  let reaches (e : Int) : Bool := r.den * 10 ^ e.toNat ≤ r.value * 10 ^ (-e).toNat
  ([guess + 1, guess].find? reaches).getD (guess - 1)

end RoundingInterval

namespace Double

/-- The reals that round to a positive finite double. Below a power of two the spacing halves, so
the interval is shorter on that side. Factors of two that the spacing shares with one are left out. -/
def interval (x : Double) : RoundingInterval :=
  let f := BinaryFormat.double
  let shift := f.shift x.pattern
  let shared := min shift f.unitsPerOne
  let spacing := 2 ^ (shift - shared)
  let value := f.significand x.pattern * spacing
  let atPower := f.significand x.pattern == 2 ^ f.fractionBits && shift != 0
  { low := 4 * value - (if atPower then spacing else 2 * spacing)
    value := 4 * value
    high := 4 * value + 2 * spacing
    den := 4 * 2 ^ (f.unitsPerOne - shared)
    closed := f.significand x.pattern % 2 == 0 }

/-- The shortest decimal that reads back as the magnitude of a finite double other than zero, and
the nearest to it of that length. The search begins one place above the leading digit; seventeen
digits always suffice, so the grid has eighteen. -/
def shortest (x : Double) : Decimal :=
  let r := x.interval
  let exponent := r.leadingExponent - 17
  (r.onGrid exponent).firstHit exponent 18

end Double

/-- How a decimal is laid out as text. -/
structure DecimalStyle where
  /-- The exponents of the first digit that are written without an exponent. -/
  isPositional : Int → Bool
  /-- Whether a whole number written positionally ends in `.0`. -/
  showsFraction : Bool

namespace Decimal

/-- `digits * 10 ^ exponent` without an exponent. -/
def positional (showsFraction : Bool) (d : Decimal) : String :=
  let digits := Nat.toDigits 10 d.digits
  let zeros (n : Nat) := List.replicate n '0'
  let point := digits.length + d.exponent
  String.ofList <|
    if d.exponent ≥ 0 then
      digits ++ zeros d.exponent.toNat ++ (if showsFraction then ['.', '0'] else [])
    else if point > 0 then digits.take point.toNat ++ '.' :: digits.drop point.toNat
    else '0' :: '.' :: zeros (-point).toNat ++ digits

/-- One digit, the rest behind a point, and the signed exponent of the first digit. -/
def scientific (d : Decimal) : String :=
  let digits := Nat.toDigits 10 d.digits
  let exponent := d.exponent + digits.length - 1
  let fraction := digits.drop 1
  String.ofList (digits.take 1 ++ (if fraction.isEmpty then [] else '.' :: fraction) ++ ['e'])
    ++ (if exponent < 0 then "-" else "+") ++ toString exponent.natAbs

/-- The text of a decimal in a style. -/
def render (style : DecimalStyle) (d : Decimal) : String :=
  let exponent := d.exponent + (Nat.toDigits 10 d.digits).length - 1
  if style.isPositional exponent then d.positional style.showsFraction else d.scientific

end Decimal

/-- The text of a finite double in a style. -/
def Double.render (style : DecimalStyle) (x : Double) : String :=
  let decimal : Decimal := if x.magnitude = 0 then ⟨0, 0⟩ else x.shortest
  (if x.isNegative then "-" else "") ++ decimal.render style

end WireSchema
