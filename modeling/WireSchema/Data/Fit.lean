import WireSchema.Error
import WireSchema.Json.Basic
import WireSchema.Wire.Scalar

/-!
# Numbers of a document as scalars

A number of a document stands for an integer when its value is one, however it is written: `3.0` and
`3e2` do. It fits an integer type when it lies in the signed range of the type's width, and a single
when its magnitude is not above the largest single.
-/

namespace WireSchema

/-- Doubles from here on are not taken for integers. -/
def integerLimit : Nat := 10 ^ (30 : Nat)

/-- The integer a number stands for. -/
def Number.toInt? : Number → Option Int
  | .int i => some i
  | .float x => x.toInt?.filter fun i => i.natAbs < integerLimit

/-- An integer lies in the signed range of a width of so many bytes. -/
def fitsWidth (width : Nat) (i : Int) : Bool :=
  decide (-(2 : Int) ^ (8 * width - 1) ≤ i ∧ i < (2 : Int) ^ (8 * width - 1))

/-- The integer in a document, for an integer type. -/
def Json.integer (type : Numeric) (path : Path) : Json → Except Error Int
  | .number n =>
    match n.toInt? with
    | some i =>
      if fitsWidth type.width i then .ok i else .error (.data path (.integerRange i type))
    | none => .error (.data path (.expected .integer))
  | _ => .error (.data path (.expected .integer))

/-- The number in a document as a double. -/
def Json.double (path : Path) : Json → Except Error Double
  | .number n => .ok n.toDouble
  | _ => .error (.data path (.expected .number))

/-- A finite double whose magnitude is above that of the largest single. -/
def Double.exceedsSingle (x : Double) : Bool :=
  x.isFinite && decide (Single.largest.magnitude < x.magnitude)

/-- The boolean in a document. -/
def Json.boolean (path : Path) : Json → Except Error Bool
  | .bool b => .ok b
  | _ => .error (.data path (.expected .boolean))

/-- The text in a document, if it is not too long for the wire. -/
def Json.text (path : Path) : Json → Except Error String
  | .string s =>
    if s.utf8ByteSize ≤ Wire.maxLength then .ok s else .error (.capacity path .string s.utf8ByteSize)
  | _ => .error (.data path (.expected .string))

/-- What an object holds under a key; a key that is missing counts as `null`. -/
def Json.held (key : String) (members : List (String × Json)) : Json :=
  (members.lookup key).getD .null

end WireSchema
