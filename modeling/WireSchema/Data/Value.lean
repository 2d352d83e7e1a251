import WireSchema.Data.Check
import WireSchema.Wire.Writer

/-!
# Typed values

A value of a message, between the document that describes it and the bytes that carry it. A value
knows nothing of keys: the fields of a record stand in the order of its struct. Writing a value needs
no schema either, since the form of a value says how it is written.
-/

namespace WireSchema

/-- A value of some type. -/
inductive Value where
  | bool (b : Bool)
  | scalar (v : Wire.Scalar)
  | text (s : String)
  | list (items : List Value)
  /-- The fields of a struct, in its order. -/
  | record (fields : List Value)
  /-- An optional value that is not there. -/
  | absent
  /-- An optional value that is there. -/
  | present (v : Value)
  deriving Inhabited

namespace Value

/-- The bytes of a value. -/
def encode : Value → List UInt8
  | .bool b => Wire.flag b
  | .scalar v => v.encode
  | .text s => Wire.lengthPrefix s.utf8ByteSize ++ Wire.textBytes s
  | .list items => Wire.lengthPrefix items.length ++ items.flatMap encode
  | .record fields => fields.flatMap encode
  | .absent => Wire.flag false
  | .present v => Wire.flag true ++ v.encode

/-- Whether an optional value is missing. -/
def isAbsent : Value → Bool
  | .absent => true
  | _ => false

end Value

/-- A value that is there, as one of the given type. -/
def Ty.wrap (t : Ty) (v : Value) : Value :=
  if t.optional then .present v else v

/-- The value a document gives for a primitive. -/
def Primitive.valueOf (p : Primitive) (path : Path) (j : Json) : Except Error Value :=
  match p with
  | .bool => (j.boolean path).map .bool
  | .string => (j.text path).map .text
  | .number .int8 => (j.integer .int8 path).map fun i => .scalar (.int8 (.ofInt i))
  | .number .int16 => (j.integer .int16 path).map fun i => .scalar (.int16 (.ofInt i))
  | .number .int32 => (j.integer .int32 path).map fun i => .scalar (.int32 (.ofInt i))
  | .number .int64 => (j.integer .int64 path).map fun i => .scalar (.int64 (.ofInt i))
  | .number .float32 => (j.double path).map fun x => .scalar (.float32 (Single.ofDouble x).bits)
  | .number .float64 => (j.double path).map fun x => .scalar (.float64 x.bits)

namespace Schema

/-- The value a document gives for a type. -/
def valueOf (s : Schema) (t : Ty) (path : Path) (j : Json) : Except Error Value :=
  match j with
  | .null => if t.optional then .ok .absent else .error (.data path .missing)
  | j =>
    match t with
    | .primitive p _ => (p.valueOf path j).map t.wrap
    | .struct id _ =>
      match j with
      | .object members =>
        ((s.fieldsOf id).mapM fun f =>
          have := Json.sizeOf_held_lt f.key members
          s.valueOf f.ty (.key f.key :: path) (Json.held f.key members)).map
            fun fields => t.wrap (.record fields)
      | _ => .error (.data path (.expected .object))
    | .array e _ =>
      match j with
      | .array items =>
        if items.length ≤ Wire.maxLength then
          (items.attach.zipIdx.mapM fun (item : { x // x ∈ items } × Nat) =>
            s.valueOf e (.index item.2 :: path) item.1.1).map fun items => t.wrap (.list items)
        else .error (.capacity path .array items.length)
      | _ => .error (.data path (.expected .array))
termination_by sizeOf j
decreasing_by
  · simp; omega
  · have := List.sizeOf_lt_of_mem item.1.2
    simp; omega

/-- The bytes of a document as a message. -/
def convert (s : Schema) (message : String) (j : Json) : Except Error (List UInt8) := do
  let m ← s.findMessage message
  (s.valueOf m.ty [] j).map Value.encode

end Schema

end WireSchema
