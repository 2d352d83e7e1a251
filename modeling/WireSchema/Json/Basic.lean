import WireSchema.Number.Binary

/-!
# JSON documents

The data a schema describes is exchanged as JSON. A number keeps whether it was written as an
integer that fits 64 bits or as anything else; the members of an object keep their order, and
putting a key in again replaces its value where it stands.
-/

namespace WireSchema

/-- A JSON number. -/
inductive Number where
  /-- An integer between `-2 ^ 63` and `2 ^ 64 - 1`, written without point or exponent. -/
  | int (value : Int)
  | float (value : Double)
  deriving DecidableEq, Repr

/-- The number as a double, rounded if it is an integer that has to be. -/
def Number.toDouble : Number → Double
  | .int i => .ofInt i
  | .float x => x

/-- A JSON value. -/
inductive Json where
  | null
  | bool (value : Bool)
  | number (value : Number)
  | string (value : String)
  | array (items : List Json)
  | object (members : List (String × Json))
  deriving Repr, Inhabited

namespace Json

/-- Puts a member into an object: at the end, or in place of the value its key had. -/
def insertMember {α : Type} (key : String) (value : α) : List (String × α) → List (String × α)
  | [] => [(key, value)]
  | (k, v) :: rest =>
    if k = key then (k, value) :: rest else (k, v) :: insertMember key value rest

/-- The value of a key of an object. -/
def member? (key : String) : Json → Option Json
  | .object members => members.lookup key
  | _ => none

end Json

end WireSchema
