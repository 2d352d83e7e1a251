import WireSchema.Code.CppRoutine
import WireSchema.Code.RustRoutine

/-!
# Operations on the wire

Whatever the language, a routine comes down to a few operations on the wire: booleans, strings,
numbers, blocks of numbers, other routines, flags, and lengths with a loop behind them. Here the
routines of either language are translated to trees of such operations. An operation says which part
of the value it is on, so variables are followed to what they stand for and identifiers to the
fields of the schema; a routine that refers to something else has no translation, and neither has a
block whose fields do not fill it side by side.

`Selection.wire` is the program that the types of the schema give.
-/

namespace WireSchema

open Naming (rustField cppField)

/-! ## Operations -/

/-- A part of the value that a routine is about. -/
inductive Spot where
  | whole
  | field (name : String)
  /-- The value inside an optional. -/
  | inside (spot : Spot)
  /-- An item of an array. -/
  | item (spot : Spot)
  deriving DecidableEq, Repr

/-- What is written or read, and the part of the value that it is. -/
inductive Operation where
  | bool (spot : Spot)
  | string (spot : Spot)
  | scalar (kind : Numeric) (spot : Spot)
  /-- The routine of a struct. -/
  | struct (id : Nat) (spot : Spot)
  /-- A length and a block of scalars. -/
  | block (kind : Numeric) (spot : Spot)
  /-- A flag and, if it is set, what is done with the value inside. -/
  | optional (spot : Spot) (body : Operation)
  /-- A length and what is done with each item. -/
  | each (spot : Spot) (body : Operation)
  deriving DecidableEq, Repr

/-- What the routines of a struct do. -/
structure StructWire where
  id : Nat
  writes : List Operation
  reads : List Operation
  deriving DecidableEq, Repr

/-- What the functions of a message do. -/
structure MessageWire where
  name : String
  write : Operation
  read : Operation
  deriving DecidableEq, Repr

/-- What the routines of a file do, in its order. -/
structure WireProgram where
  structs : List StructWire
  messages : List MessageWire
  deriving DecidableEq, Repr

/-- What the variables of a routine stand for: a part of the value, or none for a count. -/
abbrev Names := List (String × Option Spot)

def Names.spot? (names : Names) (name : String) : Option Spot :=
  (names.lookup name).join

/-- The field that goes by an identifier. -/
def fieldSpot? (identifier : String → String) (fields : List Field) (name : String) : Option Spot :=
  (fields.find? fun f => identifier f.name == name).map fun f => .field f.name

/-! ## Translation from Rust -/

namespace RustCode

def Place.spot? (fields : List Field) (names : Names) : Place → Option Spot
  | .field name => fieldSpot? rustField fields name
  | .ref name => names.spot? name

/-- The operation of a statement that writes. -/
def Encode.operation? (fields : List Field) : Names → Encode → Option Operation
  | names, .bool p => return .bool (← p.spot? fields names)
  | names, .string p => return .string (← p.spot? fields names)
  | names, .scalar kind p => return .scalar kind (← p.spot? fields names)
  | names, .struct id p => return .struct id (← p.spot? fields names)
  | names, .slice kind p => return .block kind (← p.spot? fields names)
  | names, .optional p v body => do
    let spot ← p.spot? fields names
    return .optional spot (← body.operation? fields ((v, some (.inside spot)) :: names))
  | names, .each p item body => do
    let spot ← p.spot? fields names
    return .each spot (← body.operation? fields ((item, some (.item spot)) :: names))

def ReadExpr.operation (spot : Spot) : ReadExpr → Operation
  | .bool => .bool spot
  | .string => .string spot
  | .scalar kind => .scalar kind spot
  | .struct id => .struct id spot
  | .scalars kind => .block kind spot

/-- The operation that obtains a value; statements have to bind it to the name that it is expected
under, if there is one. That nothing hides this name is part of what the statements mean. -/
def Decode.operation? : (expected : Option String) → Spot → Decode → Option Operation
  | _, spot, .read e => some (e.operation spot)
  | expected, spot, .optional name inner =>
    if expected.all (· == name) then do
      return .optional spot (← inner.operation? none (.inside spot))
    else none
  | expected, spot, .collect name _ item =>
    if expected.all (· == name) then do
      return .each spot (← item.operation? none (.item spot))
    else none

/-- The operation that a field of a block stands for. -/
def RunField.operation? (fields : List Field) (f : RunField) : Option Operation := do
  let spot ← fieldSpot? rustField fields f.name
  match f.kind with
  | none => if f.width = 1 then some (.bool spot) else none
  | some kind => if f.width = kind.width then some (.scalar kind spot) else none

/-- The operations that the rest of a block stands for. -/
def runOperations? (fields : List Field) (size : Nat) :
    (offset : Nat) → List RunField → Option (List Operation)
  | offset, [] => if offset = size then some [] else none
  | offset, f :: rest =>
    if f.offset = offset then do
      let first ← f.operation? fields
      return first :: (← runOperations? fields size (offset + f.width) rest)
    else none

/-- The operations of a step. -/
def DecodeStep.operations? (fields : List Field) : DecodeStep → Option (List Operation)
  | .value name d => do return [← d.operation? (some name) (← fieldSpot? rustField fields name)]
  | .run _ size found => runOperations? fields size 0 found

def StructRoutines.wire? (s : Schema) (r : StructRoutines) : Option StructWire := do
  let writes ← r.encode.mapM (Encode.operation? (s.fieldsOf r.id) [])
  let reads ← r.decode.mapM (DecodeStep.operations? (s.fieldsOf r.id))
  return ⟨r.id, writes, reads.flatten⟩

def MessageRoutines.wire? (r : MessageRoutines) : Option MessageWire := do
  let write ← r.encode.operation? [] [(messageVariable, some .whole)]
  let read ← r.decode.operation? (some messageVariable) .whole
  return ⟨r.message.name, write, read⟩

def Program.wire? (s : Schema) (p : Program) : Option WireProgram := do
  return ⟨← p.structs.mapM (StructRoutines.wire? s), ← p.messages.mapM MessageRoutines.wire?⟩

end RustCode

/-! ## Translation from C++ -/

namespace CppCode

def Place.spot? (fields : List Field) (names : Names) : Place → Option Spot
  | .named name => names.spot? name
  | .member base field =>
    if names.spot? base = some .whole then fieldSpot? cppField fields field else none
  | .deref p => do return .inside (← p.spot? fields names)
  | .back p => do return .item (← p.spot? fields names)

/-- The operation of a statement that writes. -/
def Encode.operation? (fields : List Field) : Names → Encode → Option Operation
  | names, .bool p => return .bool (← p.spot? fields names)
  | names, .string p => return .string (← p.spot? fields names)
  | names, .scalar kind p => return .scalar kind (← p.spot? fields names)
  | names, .struct id p => return .struct id (← p.spot? fields names)
  | names, .bulk kind p => return .block kind (← p.spot? fields names)
  | names, .optional p body => do
    return .optional (← p.spot? fields names) (← body.operation? fields names)
  | names, .each p item body => do
    let spot ← p.spot? fields names
    return .each spot (← body.operation? fields ((item, some (.item spot)) :: names))

/-- The operation of a statement that reads. The counts of a loop are two, and they hide what had
their names. -/
def Decode.operation? (fields : List Field) : Names → Decode → Option Operation
  | names, .bool p => return .bool (← p.spot? fields names)
  | names, .string p => return .string (← p.spot? fields names)
  | names, .scalar kind p => return .scalar kind (← p.spot? fields names)
  | names, .struct id p => return .struct id (← p.spot? fields names)
  | names, .bulk kind p => return .block kind (← p.spot? fields names)
  | names, .optional p body => do
    return .optional (← p.spot? fields names) (← body.operation? fields names)
  | names, .each p len index body =>
    if len = index then none
    else do
      let inner : Names := (index, none) :: (len, none) :: names
      return .each (← p.spot? fields inner) (← body.operation? fields inner)

def StructRoutines.wire? (s : Schema) (r : StructRoutines) : Option StructWire := do
  let writes ← r.encode.mapM (Encode.operation? (s.fieldsOf r.id) [(inputVariable, some .whole)])
  let reads ← r.decode.mapM (Decode.operation? (s.fieldsOf r.id) [(outputVariable, some .whole)])
  return ⟨r.id, writes, reads⟩

def MessageRoutines.wire? (r : MessageRoutines) : Option MessageWire := do
  let write ← r.encode.operation? [] [(inputVariable, some .whole)]
  let read ← r.decode.operation? [] [(inputVariable, some .whole)]
  return ⟨r.message.name, write, read⟩

def Program.wire? (s : Schema) (p : Program) : Option WireProgram := do
  return ⟨← p.structs.mapM (StructRoutines.wire? s), ← p.messages.mapM MessageRoutines.wire?⟩

end CppCode

/-! ## What the types give -/

/-- An operation on a value that may be absent. -/
def Operation.optionally (o : Bool) (spot : Spot) (body : Spot → Operation) : Operation :=
  if o then .optional spot (body (.inside spot)) else body spot

def Primitive.operation : Primitive → Spot → Operation
  | .bool, spot => .bool spot
  | .string, spot => .string spot
  | .number kind, spot => .scalar kind spot

/-- The operation on a value of a type. -/
def Ty.operation (bulkArrays : Bool) : Ty → Spot → Operation
  | .primitive p o, spot => .optionally o spot p.operation
  | .struct id o, spot => .optionally o spot (.struct id)
  | .array e o, spot => .optionally o spot fun spot =>
    match arrayStrategy bulkArrays e with
    | .bulk kind => .block kind spot
    | .elementWise => .each spot (e.operation bulkArrays (.item spot))

/-- The operation on a field of a struct. -/
def Field.operation (bulkArrays : Bool) (f : Field) : Operation :=
  f.ty.operation bulkArrays (.field f.name)

/-- The program that a selection is meant to have: what is written is read. -/
def Selection.wire (sel : Selection) : WireProgram where
  structs := sel.structs.map fun id =>
    let operations := (sel.schema.fieldsOf id).map (Field.operation sel.options.bulkArrays)
    ⟨id, operations, operations⟩
  messages := sel.messages.map fun m =>
    let operation := m.ty.operation sel.options.bulkArrays .whole
    ⟨m.name, operation, operation⟩

end WireSchema
