/-!
# Primitive types

The eight types a schema does not have to declare. The six numeric ones have a fixed width on the
wire and are kept together as `Numeric`, since arrays of them can be copied as one block; a boolean
has a fixed width too, and a string is the only primitive without one.
-/

namespace WireSchema

/-- The numeric primitives, in the order used wherever primitives are listed. -/
inductive Numeric where
  | int8
  | int16
  | int32
  | int64
  | float32
  | float64
  deriving DecidableEq, Repr

/-- Encoded width in bytes. -/
def Numeric.width : Numeric → Nat
  | .int8 => 1
  | .int16 => 2
  | .int32 => 4
  | .int64 => 8
  | .float32 => 4
  | .float64 => 8

/-- A built-in type. -/
inductive Primitive where
  | bool
  | number (n : Numeric)
  | string
  deriving DecidableEq, Repr

namespace Primitive

/-- Every primitive, in order. -/
def all : List Primitive :=
  [.bool, .number .int8, .number .int16, .number .int32, .number .int64, .number .float32,
    .number .float64, .string]

/-- The name a schema uses. -/
def name : Primitive → String
  | .bool => "bool"
  | .number .int8 => "int8"
  | .number .int16 => "int16"
  | .number .int32 => "int32"
  | .number .int64 => "int64"
  | .number .float32 => "float32"
  | .number .float64 => "float64"
  | .string => "string"

/-- The primitive a name stands for. -/
def ofName? (name : String) : Option Primitive :=
  all.find? fun p => p.name == name

/-- Encoded width, or `none` for strings. -/
def width? : Primitive → Option Nat
  | .bool => some 1
  | .number n => some n.width
  | .string => none

/-- Integers and floats: the elements that arrays may copy as one block. -/
def isNumeric : Primitive → Bool
  | .number _ => true
  | _ => false

theorem ofName?_name (p : Primitive) : ofName? p.name = some p := by
  cases p with
  | number n => cases n <;> decide
  | _ => decide

theorem mem_all (p : Primitive) : p ∈ all := by
  cases p with
  | number n => cases n <;> decide
  | _ => decide

end Primitive

end WireSchema
