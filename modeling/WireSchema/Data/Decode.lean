import WireSchema.Data.Value
import WireSchema.Wire.Reader

/-!
# Values from bytes

Bytes are read along the type: a flag in front of what is optional, a length in front of strings and
arrays, the fields of a struct one after the other. What is read becomes a document again, in which
absent fields are left out. JSON has no way to write a float that is not finite, and bytes behind the
value have no meaning; both are worth a warning and nothing more.
-/

namespace WireSchema

open Wire

/-- A value behind the flag that says whether it is there. -/
def readOptional (optional : Bool) (read : Read Value) : Read Value :=
  if optional then do
    if ← Read.presence then return .present (← read) else return .absent
  else read

/-- Reads a primitive. -/
def Primitive.read : Primitive → Read Value
  | .bool => return .bool (← Read.bool)
  | .string => return .text (← Read.string)
  | .number kind => return .scalar (← Read.scalar kind)

/-- Reads a value of a type, given how to read structs. -/
def Ty.read (readStruct : Nat → Read Value) : Ty → Read Value
  | .primitive p o => readOptional o p.read
  | .struct id o => readOptional o (readStruct id)
  | .array e o => readOptional o do
    let n ← Read.length
    return .list (← Read.replicate n (e.read readStruct))

/-- Reads a struct. A struct that goes on inside itself deeper than `depth` needs more bytes than
there are. -/
def Schema.readStruct (s : Schema) : (depth : Nat) → (id : Nat) → Read Value
  | 0, _ => fun r => .error (.truncated r.offset (r.remaining + 1) r.remaining) r
  | depth + 1, id => do
    return .record (← (s.fieldsOf id).mapM fun f => f.ty.read (s.readStruct depth))

/-- How deep structs can lie inside each other in `size` bytes: between two that take a byte of their
own no struct comes twice. -/
def Schema.maxDepth (s : Schema) (size : Nat) : Nat :=
  s.structs.length * (size + 1)

/-- Reads a value of a type of the schema. -/
def Schema.readValue (s : Schema) (t : Ty) : Read Value := do
  t.read (s.readStruct (s.maxDepth (← get).remaining))

/-- The float a scalar is, as a double. -/
def Wire.Scalar.double? : Scalar → Option Double
  | .float32 bits => some (Single.toDouble ⟨bits⟩)
  | .float64 bits => some ⟨bits⟩
  | _ => none

/-- A scalar in a document. -/
def Wire.Scalar.toJson : Scalar → Json
  | .int8 v => .number (.int v.toInt)
  | .int16 v => .number (.int v.toInt)
  | .int32 v => .number (.int v.toInt)
  | .int64 v => .number (.int v.toInt)
  | v =>
    match v.double? with
    | some x => if x.isFinite then .number (.float x) else .null
    | none => .null

/-- Fields in a document: those that are there, a later one in place of an earlier one of its key. -/
def membersOf (fields : List (String × Value × Json)) : List (String × Json) :=
  fields.foldl
    (fun members (key, value, j) => if value.isAbsent then members else Json.insertMember key j members)
    []

/-- The document that describes a value of a type. -/
def Schema.jsonOf (s : Schema) (t : Ty) (v : Value) : Json :=
  match v with
  | .bool b => .bool b
  | .scalar x => x.toJson
  | .text text => .string text
  | .absent => .null
  | .present v => s.jsonOf t v
  | .list items =>
    match t with
    | .array e _ => .array (items.map fun item => s.jsonOf e item)
    | _ => .null
  | .record fields =>
    match t with
    | .struct id _ =>
      .object <| membersOf <|
        List.zipWith (fun f (v : { v // v ∈ fields }) => (f.key, v.1, s.jsonOf f.ty v.1))
          (s.fieldsOf id) fields.attach
    | _ => .null
termination_by sizeOf v
decreasing_by
  · simp
  · have := List.sizeOf_lt_of_mem ‹item ∈ items›
    simp; omega
  · have := List.sizeOf_lt_of_mem v.2
    simp; omega

/-- The floats in a value that JSON cannot write, in order, in front of others. -/
def Value.nonFiniteBefore (v : Value) (others : List Double) : List Double :=
  match v with
  | .scalar x => x.double?.toList.filter (!·.isFinite) ++ others
  | .list items => items.foldr (fun item others => item.nonFiniteBefore others) others
  | .record fields => fields.foldr (fun field others => field.nonFiniteBefore others) others
  | .present v => v.nonFiniteBefore others
  | _ => others

/-- The floats in a value that JSON cannot write, in order. -/
def Value.nonFinite (v : Value) : List Double :=
  v.nonFiniteBefore []

/-- What bytes hold. -/
structure Decoded where
  message : String
  value : Value
  json : Json
  /-- Number of bytes the value takes. -/
  size : Nat
  /-- Number of bytes behind it. -/
  trailing : Nat

/-- How a float that is not finite is called. -/
def Double.nonFiniteName (x : Double) : String :=
  if x.isNaN then "NaN" else if x.isNegative then "-inf" else "inf"

/-- What is worth knowing about decoded bytes. -/
def Decoded.warnings (d : Decoded) : List String :=
  d.value.nonFinite.map
      (fun x => s!"non-finite float {x.nonFiniteName} has no JSON form, writing null") ++
    if d.trailing = 0 then []
    else [s!"{d.trailing} trailing bytes after {d.message} at offset {d.size}"]

/-- Reads a message from the start of some bytes. -/
def Schema.decode (s : Schema) (message : String) (bytes : List UInt8) : Except Error Decoded := do
  let m ← s.findMessage message
  match s.readValue m.ty (.ofBytes bytes) with
  | .ok value rest => .ok ⟨m.name, value, s.jsonOf m.ty value, rest.offset, rest.remaining⟩
  | .error e _ => .error (.ofWire [] e)

end WireSchema
